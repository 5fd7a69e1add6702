namespace EmbeddedStyles.Config

-- Where in the text one is.
inductive Region where
  | plain
  | string
  | line
  | block
  deriving DecidableEq, Repr

-- The newline after a line comment stays. In a string a backslash takes the next character with it,
-- and nothing starts a comment.
def stripFrom : Region → List Char → List Char
  | _, [] => []
  | .plain, c :: cs =>
    if c = '"' then c :: stripFrom .string cs
    else if c = '/' then
      match cs with
      | '/' :: cs => stripFrom .line cs
      | '*' :: cs => stripFrom .block cs
      | cs => c :: stripFrom .plain cs
    else c :: stripFrom .plain cs
  | .string, c :: cs =>
    if c = '"' then c :: stripFrom .plain cs
    else if c = '\\' then
      match cs with
      | [] => [c]
      | d :: cs => c :: d :: stripFrom .string cs
    else c :: stripFrom .string cs
  | .line, c :: cs =>
    if c = '\n' then c :: stripFrom .plain cs else stripFrom .line cs
  | .block, c :: cs =>
    if c = '*' then
      match cs with
      | '/' :: cs => stripFrom .plain cs
      | cs => stripFrom .block cs
    else stripFrom .block cs

def stripComments (cs : List Char) : List Char :=
  stripFrom .plain cs

end EmbeddedStyles.Config
