import EmbeddedStyles.Json.Skip

namespace EmbeddedStyles.Json

def found : Json → Found
  | .null => .null
  | .bool b => .bool b
  | .number n => .number n
  | .string s => .string s
  | .array _ => .sequence
  | .object _ => .map

-- Data is read from text in one pass, in which the first problem wins whether it is one of form or
-- of type, or from a document that was read before.
structure Decoder (α : Type) where
  text : (depth : Nat) → List Char → Except Failure (α × List Char)
  value : Json → Except Cause α

-- Refuses what comes next. A scalar is read to its end first, so that a scalar with a fault of its
-- own is refused for that.
def refuse {α : Type} (wanted : String) (cs : List Char) : Except Failure α :=
  match cs with
  | '[' :: rest => failAt ('[' :: rest) (.invalidType .sequence wanted)
  | '\x7b' :: rest => failAt ('\x7b' :: rest) (.invalidType .map wanted)
  | cs => do
    let (json, rest) ← scalar cs
    failAt rest (.invalidType json.found wanted)

def refuseValue {α : Type} (wanted : String) (json : Json) : Except Cause α :=
  .error (.invalidType json.found wanted)

-- Goes into a container, unless too many are open already.
def nested {α : Type} (cs : List Char) (depth : Nat) (read : Nat → Except Failure α) :
    Except Failure α :=
  match depth with
  | 0 => failOn cs .tooDeep
  | depth + 1 => read depth

-- Puts a cause at the place before the characters that are left.
def placed {α : Type} (rest : List Char) : Except Cause α → Except Failure α
  | .ok x => .ok x
  | .error cause => failAt rest cause

namespace Decoder

variable {α β σ : Type}

def map (f : α → β) (d : Decoder α) : Decoder β where
  text depth cs := do
    let (x, rest) ← d.text depth cs
    return (f x, rest)
  value json := do return f (← d.value json)

-- Reads a whole text.
def ofText (d : Decoder α) (text : String) : Except Failure α :=
  finish (d.text maxDepth text.toList)

-- A document, ordered.
def any : Decoder Json where
  text depth cs := do
    let (json, rest) ← Json.value depth cs
    return (json.sorted, rest)
  value json := .ok json

def stringAs (wanted : String) : Decoder String where
  text _ cs :=
    match skipBlanks cs with
    | '"' :: rest => readString rest
    | cs => refuse wanted cs
  value
    | .string s => .ok s
    | json => refuseValue wanted json

def string : Decoder String :=
  stringAs "a string"

def bool : Decoder Bool where
  text _ cs :=
    match skipBlanks cs with
    | 't' :: rest => do return (true, ← keyword ['r', 'u', 'e'] rest)
    | 'f' :: rest => do return (false, ← keyword ['a', 'l', 's', 'e'] rest)
    | cs => refuse "a boolean" cs
  value
    | .bool b => .ok b
    | json => refuseValue "a boolean" json

-- A natural number below a bound.
def toNatural (bound : Nat) (wanted : String) : Number → Except Cause Nat
  | .integer n =>
    if 0 ≤ n && n < bound then .ok n.toNat
    else .error (.invalidValue (.number (.integer n)) wanted)
  | .float x => .error (.invalidType (.number (.float x)) wanted)

def natural (bound : Nat) (wanted : String) : Decoder Nat where
  text _ cs :=
    match skipBlanks cs with
    | [] => failAt [] .endOfValue
    | c :: rest =>
      if c = '-' || c.isDigit then do
        let (n, rest) ← if c = '-' then readNumber true rest else readNumber false (c :: rest)
        return (← placed rest (toNatural bound wanted n), rest)
      else refuse wanted (c :: rest)
  value
    | .number n => toNatural bound wanted n
    | json => refuseValue wanted json

def u32 : Decoder UInt32 :=
  (natural UInt32.size "u32").map UInt32.ofNat

def u64 : Decoder Nat :=
  natural UInt64.size "u64"

-- Nothing but null.
def unit : Decoder Unit where
  text _ cs :=
    match skipBlanks cs with
    | 'n' :: rest => do return ((), ← keyword ['u', 'l', 'l'] rest)
    | cs => refuse "unit" cs
  value
    | .null => .ok ()
    | json => refuseValue "unit" json

-- Null, or what the other decoder takes.
def optional (d : Decoder α) : Decoder (Option α) where
  text depth cs :=
    match skipBlanks cs with
    | 'n' :: rest => do return (none, ← keyword ['u', 'l', 'l'] rest)
    | cs => do
      let (x, rest) ← d.text depth cs
      return (some x, rest)
  value
    | .null => .ok none
    | json => do return some (← d.value json)

def list (d : Decoder α) : Decoder (List α) where
  text depth cs :=
    match skipBlanks cs with
    | '[' :: rest => nested ('[' :: rest) depth fun depth =>
      items (d.text depth) (rest.length + 1) true rest
    | cs => refuse "a sequence" cs
  value
    | .array xs => xs.mapM d.value
    | json => refuseValue "a sequence" json

-- The entries of an object, as they come.
def entries (d : Decoder α) : Decoder (List (String × α)) where
  text depth cs :=
    match skipBlanks cs with
    | '\x7b' :: rest => nested ('\x7b' :: rest) depth fun depth =>
      Json.entries (d.text depth) (rest.length + 1) true rest
    | cs => refuse "a map" cs
  value
    | .object xs => xs.mapM fun entry => do return (entry.1, ← d.value entry.2)
    | json => refuseValue "a map" json

-- One of several names, alone or as the only key of an object whose value is null.
def variant (names : List (String × α)) : Decoder α where
  text depth cs :=
    let named (name : String) (rest : List Char) : Except Failure α :=
      match names.lookup name with
      | some x => .ok x
      | none => failAt rest (.unknownVariant name (names.map Prod.fst))
    match skipBlanks cs with
    | [] => failAt [] .endOfValue
    | '"' :: rest => do
      let (name, rest) ← readString rest
      return (← named name rest, rest)
    | '\x7b' :: rest => nested ('\x7b' :: rest) depth fun depth => do
      match ← nextKey true rest with
      | .done _ => failOn (skipBlanks rest) .expectedValue
      | .more name rest =>
        let x ← named name rest
        let (_, rest) ← unit.text depth (← colon rest)
        match skipBlanks rest with
        | [] => failAt [] .endOfObject
        | '\x7d' :: rest => return (x, rest)
        | rest => failAt rest .expectedValue
    | cs => failOn cs .expectedValue
  value json :=
    let named (name : String) : Except Cause α :=
      match names.lookup name with
      | some x => .ok x
      | none => .error (.unknownVariant name (names.map Prod.fst))
    match json with
    | .string name => named name
    | .object [(name, inner)] => do
      let x ← named name
      unit.value inner
      return x
    | .object _ => .error (.invalidValue .map "map with a single key")
    | json => refuseValue "string or map" json

end Decoder

-- A field of a record that is read into a state `σ`.
structure Field (σ : Type) where
  name : String
  isSet : σ → Bool
  decoder : Decoder (σ → σ)
  -- Whether an array may end before the field.
  omittable : Bool

-- What a record of the type `α` is made of. Entries of an object that are no field are passed over
-- or, where `extra` is given, kept; such a record is never read from an array.
structure Record (σ α : Type) where
  name : String
  fields : List (Field σ)
  start : σ
  extra : Option (String → Json → σ → σ)
  complete : σ → Except Cause α

namespace Record

variable {σ α : Type}

def field? (r : Record σ α) (key : String) : Option (Field σ) :=
  r.fields.find? (·.name = key)

def wanted (r : Record σ α) : String :=
  "struct " ++ r.name

def wantedLength (r : Record σ α) : String :=
  let count := r.fields.length
  r.wanted ++ s!" with {count} " ++ if count = 1 then "element" else "elements"

-- A key that comes twice is noticed before its second value. The place is that of what follows
-- the key, or the end of the object if it ends there.
def failTwice (name : String) (cs : List Char) : Except Failure α :=
  match skipBlanks cs with
  | '\x7d' :: rest => failAt rest (.duplicateField name)
  | rest => failAt rest (.duplicateField name)

-- Takes an entry into the state, its key already read.
def entry (r : Record σ α) (depth : Nat) (s : σ) (key : String) (cs : List Char) :
    Except Failure (σ × List Char) :=
  match r.field? key with
  | some f =>
    if f.isSet s then failTwice f.name cs
    else do
      let (set, rest) ← f.decoder.text depth (← colon cs)
      return (set s, rest)
  | none =>
    match r.extra with
    | none => do return (s, ← skip (← colon cs))
    | some keep => do
      let (json, rest) ← Json.value depth (← colon cs)
      return (keep key json s, rest)

def objectText (r : Record σ α) (depth : Nat) :
    (bound : Nat) → (first : Bool) → σ → List Char → Except Failure (σ × List Char)
  | 0, _, _, cs => failAt cs .endOfObject
  | bound + 1, first, s, cs => do
    match ← nextKey first cs with
    | .done rest => return (s, rest)
    | .more key rest =>
      let (s, rest) ← r.entry depth s key rest
      r.objectText depth bound false s rest

-- No fields are left to read, so the array has to end.
def closeArray (cs : List Char) : Except Failure (List Char) :=
  match skipBlanks cs with
  | [] => failAt [] .endOfList
  | c :: rest =>
    if c = ']' then .ok rest
    else if c = ',' then
      match skipBlanks rest with
      | ']' :: rest => failOn (']' :: rest) .trailingComma
      | rest => failOn rest .trailingCharacters
    else failOn (c :: rest) .trailingCharacters

-- All fields from the `index`-th on; the array may end only where the rest may be left out.
def arrayText (r : Record σ α) (depth : Nat) :
    (index : Nat) → List (Field σ) → σ → List Char → Except Failure (σ × List Char)
  | _, [], s, cs => do return (s, ← closeArray cs)
  | index, f :: fields, s, cs => do
    match ← nextItem (index = 0) cs with
    | .done rest =>
      match (f :: fields).findIdx? (!·.omittable) with
      | none => return (s, rest)
      | some skipped => failAt rest (.invalidLength (index + skipped) r.wantedLength)
    | .more _ rest =>
      let (set, rest) ← f.decoder.text depth rest
      r.arrayText depth (index + 1) fields (set s) rest

def objectValue (r : Record σ α) : σ → List (String × Json) → Except Cause σ
  | s, [] => .ok s
  | s, (key, json) :: entries =>
    match r.field? key with
    | some f =>
      if f.isSet s then .error (.duplicateField f.name)
      else do
        let set ← f.decoder.value json
        r.objectValue (set s) entries
    | none =>
      match r.extra with
      | none => r.objectValue s entries
      | some keep => r.objectValue (keep key json s) entries

def arrayValue (r : Record σ α) (length : Nat) :
    (index : Nat) → List (Field σ) → σ → List Json → Except Cause σ
  | _, [], s, [] => .ok s
  | _, [], _, _ :: _ => .error (.invalidLength length "fewer elements in array")
  | index, f :: fields, s, [] =>
    match (f :: fields).findIdx? (!·.omittable) with
    | none => .ok s
    | some skipped => .error (.invalidLength (index + skipped) r.wantedLength)
  | index, f :: fields, s, json :: items => do
    let set ← f.decoder.value json
    r.arrayValue length (index + 1) fields (set s) items

def decoder (r : Record σ α) : Decoder α where
  text depth cs :=
    match skipBlanks cs with
    | '\x7b' :: rest => nested ('\x7b' :: rest) depth fun depth => do
      let (s, rest) ← r.objectText depth (rest.length + 1) true r.start rest
      return (← placed rest (r.complete s), rest)
    | '[' :: rest =>
      if r.extra.isSome then refuse r.wanted ('[' :: rest)
      else nested ('[' :: rest) depth fun depth => do
        let (s, rest) ← r.arrayText depth 0 r.fields r.start rest
        return (← placed rest (r.complete s), rest)
    | cs => refuse r.wanted cs
  value
    | .object entries => do r.complete (← r.objectValue r.start entries)
    | .array items =>
      if r.extra.isSome then refuseValue r.wanted (.array items)
      else do r.complete (← r.arrayValue items.length 0 r.fields r.start items)
    | json => refuseValue r.wanted json

end Record

-- The value of a field that has to be there.
def required {α : Type} (name : String) : Option α → Except Cause α
  | some x => .ok x
  | none => .error (.missingField name)

end EmbeddedStyles.Json
