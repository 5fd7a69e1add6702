import EmbeddedStyles.Json.Scalar

namespace EmbeddedStyles.Json

-- How many containers may stand inside each other.
def maxDepth : Nat := 127

-- What comes next in a container: its end, with what follows the closing bracket, or another part.
inductive Next (α : Type) where
  | done (rest : List Char)
  | more (part : α) (rest : List Char)

def nextItem (first : Bool) (cs : List Char) : Except Failure (Next Unit) :=
  match skipBlanks cs with
  | [] => failAt [] .endOfList
  | c :: rest =>
    if c = ']' then .ok (.done rest)
    else if first then .ok (.more () (c :: rest))
    else if c = ',' then
      match skipBlanks rest with
      | [] => failAt [] .endOfValue
      | d :: rest =>
        if d = ']' then failOn (d :: rest) .trailingComma else .ok (.more () (d :: rest))
    else failOn (c :: rest) .expectedCommaOrBracket

-- Reads the key of the next entry.
def nextKey (first : Bool) (cs : List Char) : Except Failure (Next String) :=
  match skipBlanks cs with
  | [] => failAt [] .endOfObject
  | c :: rest =>
    if c = '\x7d' then .ok (.done rest)
    else if first then
      if c = '"' then do
        let (key, rest) ← readString rest
        return .more key rest
      else failOn (c :: rest) .keyNotString
    else if c = ',' then
      match skipBlanks rest with
      | [] => failAt [] .endOfValue
      | d :: rest =>
        if d = '"' then do
          let (key, rest) ← readString rest
          return .more key rest
        else if d = '\x7d' then failOn (d :: rest) .trailingComma
        else failOn (d :: rest) .keyNotString
    else failOn (c :: rest) .expectedCommaOrBrace

def colon (cs : List Char) : Except Failure (List Char) :=
  match skipBlanks cs with
  | [] => failAt [] .endOfObject
  | c :: rest => if c = ':' then .ok rest else failOn (c :: rest) .expectedColon

-- The items of an array after its opening bracket. Every item takes at least one character, so
-- `bound` never runs out when it exceeds the number of characters.
def items {α : Type} (read : List Char → Except Failure (α × List Char)) :
    (bound : Nat) → (first : Bool) → List Char → Except Failure (List α × List Char)
  | 0, _, cs => failAt cs .endOfList
  | bound + 1, first, cs => do
    match ← nextItem first cs with
    | .done rest => return ([], rest)
    | .more _ rest =>
      let (x, rest) ← read rest
      let (xs, rest) ← items read bound false rest
      return (x :: xs, rest)

-- The entries of an object after its opening brace.
def entries {α : Type} (read : List Char → Except Failure (α × List Char)) :
    (bound : Nat) → (first : Bool) → List Char → Except Failure ((List (String × α)) × List Char)
  | 0, _, cs => failAt cs .endOfObject
  | bound + 1, first, cs => do
    match ← nextKey first cs with
    | .done rest => return ([], rest)
    | .more key rest =>
      let (x, rest) ← read (← colon rest)
      let (xs, rest) ← entries read bound false rest
      return ((key, x) :: xs, rest)

-- Any value, with `depth` more containers allowed inside each other.
def value : (depth : Nat) → List Char → Except Failure (Json × List Char)
  | 0, cs =>
    match skipBlanks cs with
    | '[' :: rest => failOn ('[' :: rest) .tooDeep
    | '\x7b' :: rest => failOn ('\x7b' :: rest) .tooDeep
    | cs => scalar cs
  | depth + 1, cs =>
    match skipBlanks cs with
    | '[' :: rest => do
      let (xs, rest) ← items (value depth) (rest.length + 1) true rest
      return (.array xs, rest)
    | '\x7b' :: rest => do
      let (xs, rest) ← entries (value depth) (rest.length + 1) true rest
      return (.object xs, rest)
    | cs => scalar cs

-- Nothing but blanks may follow a document.
def finish {α : Type} (reading : Except Failure (α × List Char)) : Except Failure α := do
  let (x, rest) ← reading
  match skipBlanks rest with
  | [] => return x
  | c :: rest => failOn (c :: rest) .trailingCharacters

-- The document as it is written.
def ofChars (cs : List Char) : Except Failure Json :=
  finish (value maxDepth cs)

def parse (text : String) : Except Failure Json :=
  ofChars text.toList

end EmbeddedStyles.Json
