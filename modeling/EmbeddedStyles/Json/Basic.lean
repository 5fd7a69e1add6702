import EmbeddedStyles.Json.Number

namespace EmbeddedStyles

-- An object has its entries as they stand in the text, repeated keys included.
inductive Json where
  | null
  | bool (b : Bool)
  | number (n : Json.Number)
  | string (s : String)
  | array (items : List Json)
  | object (entries : List (String × Json))
  deriving Inhabited

namespace Json

-- Puts an entry into a list ordered by key, in the place of an entry with the same key.
def insertEntry {α : Type} (key : String) (value : α) : List (String × α) → List (String × α)
  | [] => [(key, value)]
  | (k, v) :: entries =>
    if key = k then (key, value) :: entries
    else if key < k then (key, value) :: (k, v) :: entries
    else (k, v) :: insertEntry key value entries

def orderEntries {α : Type} (entries : List (String × α)) : List (String × α) :=
  entries.foldl (fun ordered entry => insertEntry entry.1 entry.2 ordered) []

mutual

-- The document with every object ordered by key. The last value for a repeated key stays.
def sorted : Json → Json
  | .null => .null
  | .bool b => .bool b
  | .number n => .number n
  | .string s => .string s
  | .array items => .array (sortedItems items)
  | .object entries => .object (orderEntries (sortedEntries entries))

def sortedItems : List Json → List Json
  | [] => []
  | item :: items => item.sorted :: sortedItems items

def sortedEntries : List (String × Json) → List (String × Json)
  | [] => []
  | (key, value) :: entries => (key, value.sorted) :: sortedEntries entries

end

def asString? : Json → Option String
  | .string s => some s
  | _ => none

theorem asString?_eq_some_iff {json : Json} {s : String} :
    json.asString? = some s ↔ json = .string s := by
  cases json <;> simp [asString?]

end Json

end EmbeddedStyles
