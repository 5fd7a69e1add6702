import EmbeddedStyles.Glob.Expression
import EmbeddedStyles.Path

namespace EmbeddedStyles.Glob

-- `?` and a class take one byte and `*` any run of bytes, separators included. `**` between
-- separators takes any number of whole directories.
inductive Token where
  | literal (c : Char)
  | any
  | run
  -- Directories in front, behind and in between.
  | recursiveStart
  | recursiveEnd
  | recursiveMiddle
  | oneOf (negated : Bool) (ranges : List (Char × Char))
  -- Alternatives, without the empty ones.
  | group (alternatives : List Expression)
  deriving DecidableEq, Repr

def bytesOf (c : Char) : List UInt8 :=
  (String.singleton c).toUTF8.toList

-- The bytes a range of characters takes: of a character wider than a byte every byte stands for
-- itself, and the range goes from the last byte of its first character to the first byte of its
-- last one.
def byteRanges (range : Char × Char) : List (UInt8 × UInt8) :=
  let alone (b : UInt8) := (b, b)
  let first := bytesOf range.1
  if range.1 = range.2 then first.map alone
  else
    let last := bytesOf range.2
    first.dropLast.map alone ++ [(first.getLast?.getD 0, last.head?.getD 0)] ++
      (last.drop 1).map alone

namespace Token

def literal? : Token → Option Char
  | .literal c => some c
  | _ => none

def separator : Expression :=
  .ofBytes (bytesOf Path.separator)

-- Nothing for a group without alternatives.
def expression? : Token → Option Expression
  | .literal c => some (.ofBytes (bytesOf c))
  | .any => some .any
  | .run => some .run
  | .recursiveStart =>
    some (.group (.alt (.optional Path.separator.toUInt8) (.seq .run separator)))
  | .recursiveEnd => some (.seq separator .run)
  | .recursiveMiddle =>
    some (.group (.alt separator (.sequence [separator, .run, separator])))
  | .oneOf negated ranges => some (.oneOf negated (ranges.flatMap byteRanges))
  | .group [] => none
  | .group (e :: es) => some (.group (es.foldl .alt e))

-- The expression of a branch, or nothing if it has nothing to say.
def branch? (tokens : List Token) : Option Expression :=
  match tokens.filterMap expression? with
  | [] => none
  | es => some (.sequence es)

end Token

inductive Cause where
  | unclosedClass
  | invalidRange (first last : Char)
  | unclosedAlternates
  | unopenedAlternates
  | danglingEscape
  deriving DecidableEq, Repr

def Cause.text : Cause → String
  | .unclosedClass => "unclosed character class; missing ']'"
  | .invalidRange first last => s!"invalid range; '{first}' > '{last}'"
  | .unclosedAlternates =>
    "unclosed alternate group; missing '\x7d' (maybe escape '\x7b' with '[\x7b]'?)"
  | .unopenedAlternates =>
    "unopened alternate group; missing '\x7b' (maybe escape '\x7d' with '[\x7d]'?)"
  | .danglingEscape => "dangling '\\'"

-- The branches that are open: the tokens of the innermost one, last token first; the branches
-- beside it that are finished; and the same for every group around it.
structure Open where
  tokens : List Token
  beside : List (List Token)
  around : List (List Token × List (List Token))

def Open.push (o : Open) (t : Token) : Open :=
  { o with tokens := t :: o.tokens }

def Open.inGroup (o : Open) : Bool :=
  !o.around.isEmpty

-- The members of a class after its opening bracket and its negation. `inRange` tells that a dash
-- was read after the last member, which heads the list.
def readClass (first inRange : Bool) (ranges : List (Char × Char)) :
    List Char → Except Cause (List (Char × Char) × List Char)
  | [] => .error .unclosedClass
  | c :: cs =>
    if c = ']' && !first then
      .ok ((if inRange then ('-', '-') :: ranges else ranges).reverse, cs)
    else if c = '-' && !first && !inRange then readClass false true ranges cs
    else
      match inRange, ranges with
      | true, (low, _) :: others =>
        if c < low then .error (.invalidRange low c)
        else readClass false false ((low, c) :: others) cs
      | _, ranges => readClass false false ((c, c) :: ranges) cs

-- The tokens for two stars, given the character before them and what follows, of which a separator
-- may be used up.
def readStars (o : Open) (before : Option Char) (cs : List Char) : Open × List Char :=
  let plain := ((o.push .run).push .run, cs)
  match o.tokens with
  | [] =>
    match cs with
    | [] => (o.push .recursiveStart, cs)
    | c :: rest => if c = Path.separator then (o.push .recursiveStart, rest) else plain
  | last :: others =>
    if before ≠ some Path.separator &&
        !(o.inGroup && (before = some ',' || before = some '\x7b')) then plain
    else
      let replace (t : Token) : Open :=
        match last with
        | .recursiveStart | .recursiveEnd => o
        | _ => { o with tokens := t :: others }
      match cs with
      | [] => (replace .recursiveEnd, cs)
      | c :: rest =>
        if o.inGroup && (c = ',' || c = '\x7d') then (replace .recursiveEnd, cs)
        else if c = Path.separator then (replace .recursiveMiddle, rest)
        else plain

-- Reads the rest of a pattern. Every step takes at least one character, so `bound` never runs out
-- when it exceeds their number.
def readTokens : (bound : Nat) → Open → (before : Option Char) → List Char → Except Cause Open
  | 0, o, _, _ => .ok o
  | _ + 1, o, _, [] => if o.inGroup then .error .unclosedAlternates else .ok o
  | bound + 1, o, before, c :: cs =>
    if c = '?' then readTokens bound (o.push .any) (some c) cs
    else if c = '*' then
      match cs with
      | '*' :: rest =>
        let (o, after) := readStars o before rest
        readTokens bound o (some (if after.length < rest.length then Path.separator else '*')) after
      | cs => readTokens bound (o.push .run) (some c) cs
    else if c = '[' then do
      let (negated, inside) :=
        match cs with
        | '!' :: cs => (true, cs)
        | '^' :: cs => (true, cs)
        | cs => (false, cs)
      let (ranges, rest) ← readClass true false [] inside
      readTokens bound (o.push (.oneOf negated ranges)) (some ']') rest
    else if c = '\x7b' then
      readTokens bound ⟨[], [], (o.tokens, o.beside) :: o.around⟩ (some c) cs
    else if c = '\x7d' then
      match o.around with
      | [] => .error .unopenedAlternates
      | (tokens, beside) :: around =>
        let branches := (o.tokens :: o.beside).reverse
        let group := branches.filterMap fun tokens => Token.branch? tokens.reverse
        readTokens bound ⟨.group group :: tokens, beside, around⟩ (some c) cs
    else if c = ',' && o.inGroup then
      readTokens bound { o with tokens := [], beside := o.tokens :: o.beside } (some c) cs
    else if c = '\\' then
      match cs with
      | [] => .error .danglingEscape
      | d :: cs => readTokens bound (o.push (.literal d)) (some d) cs
    else readTokens bound (o.push (.literal c)) (some c) cs

-- The tokens of a whole pattern.
def readPattern (pattern : List Char) : Except Cause (List Token) :=
  return (← readTokens (pattern.length + 1) ⟨[], [], []⟩ none pattern).tokens.reverse

end EmbeddedStyles.Glob
