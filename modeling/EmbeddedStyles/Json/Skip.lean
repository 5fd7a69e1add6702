import EmbeddedStyles.Json.Value

namespace EmbeddedStyles.Json

def skipString : List Char → Except Failure (List Char)
  | [] => failAt [] .endOfString
  | c :: cs =>
    if c = '"' then .ok cs
    else if c = '\\' then
      match cs with
      | [] => failAt [] .endOfString
      | e :: cs =>
        if e = 'u' then
          match cs with
          | a :: b :: c :: d :: rest =>
            if (hexValues? a b c d).isSome then skipString rest
            else failHex (a :: b :: c :: d :: rest)
          | short => failHex short
        else if (simpleEscape? e).isSome then skipString cs
        else failOn (e :: cs) .invalidEscape
    else if c.toNat < 32 then failAt (c :: cs) .controlCharacter
    else skipString cs

-- At least one digit.
def skipDigits (cs : List Char) : Except Failure (List Char) :=
  match cs with
  | [] => failOn [] .invalidNumber
  | c :: _ => if c.isDigit then .ok (cs.dropWhile Char.isDigit) else failOn cs .invalidNumber

def skipExponent (cs : List Char) : Except Failure (List Char) :=
  let afterMark (cs : List Char) : Except Failure (List Char) :=
    match cs with
    | '+' :: cs => skipDigits cs
    | '-' :: cs => skipDigits cs
    | cs => skipDigits cs
  match cs with
  | 'e' :: cs => afterMark cs
  | 'E' :: cs => afterMark cs
  | cs => .ok cs

-- A number after its sign.
def skipNumber (cs : List Char) : Except Failure (List Char) := do
  let rest ←
    match cs with
    | '0' :: d :: rest => if d.isDigit then failOn (d :: rest) .invalidNumber else .ok (d :: rest)
    | cs => skipDigits cs
  match rest with
  | '.' :: rest => do skipExponent (← skipDigits rest)
  | rest => skipExponent rest

def skipScalar (cs : List Char) : Except Failure (List Char) :=
  match cs with
  | [] => failAt [] .endOfValue
  | c :: rest =>
    if c = 'n' then keyword ['u', 'l', 'l'] rest
    else if c = 't' then keyword ['r', 'u', 'e'] rest
    else if c = 'f' then keyword ['a', 'l', 's', 'e'] rest
    else if c = '"' then skipString rest
    else if c = '-' then skipNumber rest
    else if c.isDigit then skipNumber cs
    else failOn cs .expectedValue

-- The rest of an array once an item was passed over.
def skipItems (skip : List Char → Except Failure (List Char)) :
    (bound : Nat) → List Char → Except Failure (List Char)
  | 0, cs => failAt cs .endOfList
  | bound + 1, cs => do
    match skipBlanks (← skip cs) with
    | [] => failAt [] .endOfList
    | c :: rest =>
      if c = ',' then skipItems skip bound rest
      else if c = ']' then .ok rest
      else failOn (c :: rest) .expectedCommaOrBracket

-- The rest of an object from one of its keys on.
def skipEntries (skip : List Char → Except Failure (List Char)) :
    (bound : Nat) → List Char → Except Failure (List Char)
  | 0, cs => failAt cs .endOfObject
  | bound + 1, cs =>
    match skipBlanks cs with
    | [] => failAt [] .endOfObject
    | c :: rest =>
      if c = '"' then do
        match skipBlanks (← skip (← colon (← skipString rest))) with
        | [] => failAt [] .endOfObject
        | c :: rest =>
          if c = ',' then skipEntries skip bound rest
          else if c = '\x7d' then .ok rest
          else failOn (c :: rest) .expectedCommaOrBrace
      else failOn (c :: rest) .keyNotString

def skipArray (skip : List Char → Except Failure (List Char)) (cs : List Char) :
    Except Failure (List Char) :=
  match skipBlanks cs with
  | [] => failAt [] .endOfList
  | c :: rest => if c = ']' then .ok rest else skipItems skip (rest.length + 1) (c :: rest)

def skipObject (skip : List Char → Except Failure (List Char)) (cs : List Char) :
    Except Failure (List Char) :=
  match skipBlanks cs with
  | [] => failAt [] .endOfObject
  | c :: rest => if c = '\x7d' then .ok rest else skipEntries skip (rest.length + 1) (c :: rest)

-- Every container takes at least one character, so `bound` never runs out when it exceeds the
-- number of characters.
def skipBounded : (bound : Nat) → List Char → Except Failure (List Char)
  | 0, cs => skipScalar (skipBlanks cs)
  | bound + 1, cs =>
    match skipBlanks cs with
    | '[' :: rest => skipArray (skipBounded bound) rest
    | '\x7b' :: rest => skipObject (skipBounded bound) rest
    | cs => skipScalar cs

-- Passes over a value that nobody wants. It has to be well formed, but neither its nesting nor the
-- size of its numbers nor the pairing of surrogates is looked at.
def skip (cs : List Char) : Except Failure (List Char) :=
  skipBounded cs.length cs

end EmbeddedStyles.Json
