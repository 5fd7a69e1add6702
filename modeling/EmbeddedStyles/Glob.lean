import EmbeddedStyles.Glob.Token

namespace EmbeddedStyles

structure Glob where
  text : String
  tokens : List Glob.Token

namespace Glob

inductive Error where
  | pattern (text : String) (cause : Cause)
  -- The first pattern that is nested too deeply, by its expression or by its position.
  | deepExpression (text : String)
  | deepPosition (index : Nat)
  deriving DecidableEq, Repr

def Error.message : Error → String
  | .pattern text cause => "error parsing glob '" ++ text ++ "': " ++ cause.text
  | .deepExpression text => "error parsing glob '" ++ text ++ "': error parsing pattern 0"
  | .deepPosition index => s!"error parsing pattern {index}"

def parse (text : String) : Except Error Glob :=
  match readPattern text.toList with
  | .ok tokens => .ok ⟨text, tokens⟩
  | .error cause => .error (.pattern text cause)

-- Directories in front alone take everything.
def expression (g : Glob) : Expression :=
  match g.tokens with
  | [.recursiveStart] => .run
  | tokens => (Token.branch? tokens).getD .empty

-- Whether the pattern takes the whole path.
def accepts (g : Glob) (path : String) : Bool :=
  g.expression.takes path.toUTF8.toList

-- The expression with what ties it to a whole path.
def expressionText (g : Glob) : String :=
  "(?-u)^" ++ g.expression.text ++ "$"

-- How many levels of an expression may be open at once.
def maxDepth : Nat := 250

-- The ties of the expression make it a sequence, which is a level.
def isTooDeep (g : Glob) : Bool :=
  maxDepth < 1 + g.expression.depth

-- What a glob is compared by.
inductive Kind where
  | text
  | extension
  | expression
  deriving DecidableEq, Repr

-- Text, perhaps with anything after it.
def isStart (tokens : List Token) : Bool :=
  match tokens.reverse with
  | .recursiveEnd :: before => before.all (·.literal?.isSome)
  | .run :: before => !before.isEmpty && before.all (·.literal?.isSome)
  | all => !all.isEmpty && all.all (·.literal?.isSome)

-- Text with anything before it, more than a separator unless it follows directories.
def isEnd : List Token → Bool
  | .run :: after | .recursiveStart :: .run :: after =>
    after.all (·.literal?.isSome) && !after.isEmpty && after ≠ [.literal Path.separator]
  | .recursiveStart :: after => !after.isEmpty && after.all (·.literal?.isSome)
  | _ => false

-- A dot and more text behind it, all of it in one name.
def endsInExtension (tokens : List Token) : Bool :=
  let inExtension (t : Token) : Bool :=
    match t.literal? with
    | some c => c ≠ '.' && c ≠ Path.separator
    | none => false
  (tokens.reverse.dropWhile inExtension).head? = some (.literal '.')

def kind (g : Glob) : Kind :=
  if isStart g.tokens || isEnd g.tokens then .text
  else if endsInExtension g.tokens then .extension
  else .expression

-- Extensions are looked at one by one and other expressions all together, so that a failure there
-- is told by a position in the list.
def checkDepth (globs : List Glob) : Except Error Unit :=
  match (globs.filter (·.kind = .extension)).find? isTooDeep with
  | some g => .error (.deepExpression g.expressionText)
  | none =>
    match (globs.filter (·.kind = .expression)).findIdx? isTooDeep with
    | some index => .error (.deepPosition index)
    | none => .ok ()

-- All patterns are read before the first is looked at for its depth.
def parseAll (texts : List String) : Except Error (List Glob) := do
  let globs ← texts.mapM parse
  checkDepth globs
  return globs

end Glob

end EmbeddedStyles
