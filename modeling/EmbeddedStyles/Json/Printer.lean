import EmbeddedStyles.Json.Basic

namespace EmbeddedStyles.Json

def escapeChar (c : Char) : List Char :=
  if c = '"' then ['\\', '"']
  else if c = '\\' then ['\\', '\\']
  else if c = '\n' then ['\\', 'n']
  else if c = '\r' then ['\\', 'r']
  else if c = '\t' then ['\\', 't']
  else if c.toNat = 8 then ['\\', 'b']
  else if c.toNat = 12 then ['\\', 'f']
  else if c.toNat < 32 then
    ['\\', 'u', '0', '0', Nat.digitChar (c.toNat / 16), Nat.digitChar (c.toNat % 16)]
  else [c]

def stringChars (text : List Char) : List Char :=
  '"' :: (text.flatMap escapeChar ++ ['"'])

def boolChars (b : Bool) : List Char :=
  if b then ['t', 'r', 'u', 'e'] else ['f', 'a', 'l', 's', 'e']

def nullChars : List Char := ['n', 'u', 'l', 'l']

-- Items between brackets, separated by commas.
def commaSeparated (items : List (List Char)) : List Char :=
  [','].intercalate items

def arrayChars (items : List (List Char)) : List Char :=
  '[' :: (commaSeparated items ++ [']'])

def entryChars (key : String) (value : List Char) : List Char :=
  stringChars key.toList ++ ':' :: value

def objectChars (entries : List (List Char)) : List Char :=
  '\x7b' :: (commaSeparated entries ++ ['\x7d'])

mutual

def chars : Json → List Char
  | .null => nullChars
  | .bool b => boolChars b
  | .number n => n.chars
  | .string s => stringChars s.toList
  | .array items => arrayChars (itemsChars items)
  | .object entries => objectChars (entriesChars entries)

def itemsChars : List Json → List (List Char)
  | [] => []
  | item :: items => item.chars :: itemsChars items

def entriesChars : List (String × Json) → List (List Char)
  | [] => []
  | (key, value) :: entries => entryChars key value.chars :: entriesChars entries

end

def compact (json : Json) : String :=
  String.ofList json.chars

def newline (depth : Nat) : List Char :=
  '\n' :: List.replicate (2 * depth) ' '

-- Every item on a line of its own inside the brackets, or the bare brackets.
def onLines (opening closing : Char) (depth : Nat) : List (List Char) → List Char
  | [] => [opening, closing]
  | items =>
    opening :: (commaSeparated (items.map (newline (depth + 1) ++ ·)) ++ newline depth ++ [closing])

mutual

def prettyChars (depth : Nat) : Json → List Char
  | .array items => onLines '[' ']' depth (prettyItems (depth + 1) items)
  | .object entries => onLines '\x7b' '\x7d' depth (prettyEntries (depth + 1) entries)
  | .null => nullChars
  | .bool b => boolChars b
  | .number n => n.chars
  | .string s => stringChars s.toList

def prettyItems (depth : Nat) : List Json → List (List Char)
  | [] => []
  | item :: items => prettyChars depth item :: prettyItems depth items

def prettyEntries (depth : Nat) : List (String × Json) → List (List Char)
  | [] => []
  | (key, value) :: entries =>
    (stringChars key.toList ++ ':' :: ' ' :: prettyChars depth value) :: prettyEntries depth entries

end

def pretty (json : Json) : String :=
  String.ofList (prettyChars 0 json)

end EmbeddedStyles.Json
