import EmbeddedStyles.Json.Basic
import EmbeddedStyles.Json.Failure

namespace EmbeddedStyles.Json

def isBlank (c : Char) : Bool :=
  c = ' ' || c = '\n' || c = '\t' || c = '\r'

def skipBlanks (cs : List Char) : List Char :=
  cs.dropWhile isBlank

-- The rest of a word whose first letter decided what it has to be.
def keyword : List Char → List Char → Except Failure (List Char)
  | [], cs => .ok cs
  | _ :: _, [] => failAt [] .endOfValue
  | k :: ks, c :: cs => if c = k then keyword ks cs else failOn (c :: cs) .expectedIdent

def hexValue? (c : Char) : Option Nat :=
  if c.isDigit then some (c.toNat - 48)
  else if 'a' ≤ c && c ≤ 'f' then some (c.toNat - 87)
  else if 'A' ≤ c && c ≤ 'F' then some (c.toNat - 55)
  else none

def hexValues? (a b c d : Char) : Option Nat := do
  let a ← hexValue? a
  let b ← hexValue? b
  let c ← hexValue? c
  let d ← hexValue? d
  return ((a * 16 + b) * 16 + c) * 16 + d

-- Four bytes are taken for the digits of a code unit whatever they are.
def failHex {α : Type} (cs : List Char) : Except Failure α :=
  if Text.size8 (cs.take 4) < 4 then failAt [] .endOfString
  else .error ⟨.invalidEscape, Text.size8 cs - 4⟩

def simpleEscape? (c : Char) : Option Char :=
  if c = '"' || c = '\\' || c = '/' then some c
  else if c = 'b' then some (Char.ofNat 8)
  else if c = 'f' then some (Char.ofNat 12)
  else if c = 'n' then some '\n'
  else if c = 'r' then some '\r'
  else if c = 't' then some '\t'
  else none

def isHighSurrogate (n : Nat) : Bool :=
  0xD800 ≤ n && n < 0xDC00

def isLowSurrogate (n : Nat) : Bool :=
  0xDC00 ≤ n && n < 0xE000

def ofSurrogates (high low : Nat) : Char :=
  Char.ofNat ((high - 0xD800) * 0x400 + (low - 0xDC00) + 0x10000)

def consChar (c : Char) :
    Except Failure (List Char × List Char) → Except Failure (List Char × List Char)
  | .ok (cs, rest) => .ok (c :: cs, rest)
  | .error failure => .error failure

-- The characters of a string after its opening quote. `high` is a surrogate that was read and
-- still wants its second half.
def stringTail (high : Option Nat) : List Char → Except Failure (List Char × List Char)
  | [] => failAt [] .endOfString
  | c :: cs =>
    match high with
    | none =>
      if c = '"' then .ok ([], cs)
      else if c = '\\' then
        match cs with
        | [] => failAt [] .endOfString
        | e :: cs =>
          if e = 'u' then
            match cs with
            | a :: b :: c :: d :: rest =>
              match hexValues? a b c d with
              | none => failHex (a :: b :: c :: d :: rest)
              | some n =>
                if isLowSurrogate n then failAt rest .loneSurrogate
                else if isHighSurrogate n then stringTail (some n) rest
                else consChar (Char.ofNat n) (stringTail none rest)
            | short => failHex short
          else
            match simpleEscape? e with
            | some e => consChar e (stringTail none cs)
            | none => failOn (e :: cs) .invalidEscape
      else if c.toNat < 32 then failOn (c :: cs) .controlCharacter
      else consChar c (stringTail none cs)
    | some high =>
      if c = '\\' then
        match cs with
        | [] => failAt [] .endOfString
        | e :: cs =>
          if e = 'u' then
            match cs with
            | a :: b :: c :: d :: rest =>
              match hexValues? a b c d with
              | none => failHex (a :: b :: c :: d :: rest)
              | some low =>
                if isLowSurrogate low then
                  consChar (ofSurrogates high low) (stringTail none rest)
                else failAt rest .loneSurrogate
            | short => failHex short
          else failOn (e :: cs) .endOfHexEscape
      else failOn (c :: cs) .endOfHexEscape

-- A string after its opening quote.
def readString (cs : List Char) : Except Failure (String × List Char) := do
  let (text, rest) ← stringTail none cs
  return (String.ofList text, rest)

def digitValue (c : Char) : Nat :=
  c.toNat - 48

-- Adds digits to a significand as long as it fits 64 bits, and gives those that are left.
def keepDigits (significand : Nat) : List Char → Nat × List Char
  | [] => (significand, [])
  | d :: ds =>
    let next := significand * 10 + digitValue d
    if next < UInt64.size then keepDigits next ds else (significand, d :: ds)

-- Multiplies by a power of ten. Far below zero this takes several steps, at most three of which
-- leave anything but zero.
def scaleFloat (x : Float) (exponent : Int) : Nat → Option Float
  | 0 => some 0.0
  | steps + 1 =>
    if exponent.natAbs ≤ 308 then
      let power := Float.ofScientific 1 false exponent.natAbs
      if 0 ≤ exponent then
        if (x * power).isInf then none else some (x * power)
      else some (x / power)
    else if x == 0.0 then some x
    else if 0 ≤ exponent then none
    else scaleFloat (x / 1e308) (exponent + 308) steps

-- A number with its sign, its significand and a power of ten, all of it already read.
def scaled (negative : Bool) (significand : Nat) (exponent : Int) (rest : List Char) :
    Except Failure (Number × List Char) :=
  match scaleFloat significand.toUInt64.toFloat exponent 4 with
  | some x => .ok (.float (if negative then -x else x), rest)
  | none => failAt rest .numberOutOfRange

-- The digits of an exponent, or what follows the one at which it exceeds 31 bits.
def exponentDigits (exponent : Nat) : List Char → Option Nat × List Char
  | [] => (some exponent, [])
  | c :: cs =>
    if c.isDigit then
      let next := exponent * 10 + digitValue c
      if next < 1 <<< 31 then exponentDigits next cs else (none, cs)
    else (some exponent, c :: cs)

def withExponent (negative : Bool) (significand : Nat) (exponent : Int) (cs : List Char) :
    Except Failure (Number × List Char) :=
  let (down, cs) :=
    match cs with
    | '+' :: cs => (false, cs)
    | '-' :: cs => (true, cs)
    | cs => (false, cs)
  match cs with
  | [] => failAt [] .endOfValue
  | c :: _ =>
    if c.isDigit then
      match exponentDigits 0 cs with
      | (some e, rest) =>
        scaled negative significand (if down then exponent - e else exponent + e) rest
      | (none, rest) =>
        if significand ≠ 0 && !down then failAt rest .numberOutOfRange
        else .ok (.float (if negative then -0.0 else 0.0), rest.dropWhile Char.isDigit)
    else failOn cs .invalidNumber

-- The places after the point, and an exponent after them.
def withFraction (negative : Bool) (significand : Nat) (exponent : Int) (cs : List Char) :
    Except Failure (Number × List Char) :=
  let ds := cs.takeWhile Char.isDigit
  let rest := cs.dropWhile Char.isDigit
  if ds.isEmpty then
    failOn rest (if rest.isEmpty then .endOfValue else .invalidNumber)
  else
    let (significand, dropped) := keepDigits significand ds
    let exponent := exponent - (ds.length - dropped.length : Nat)
    match rest with
    | 'e' :: rest => withExponent negative significand exponent rest
    | 'E' :: rest => withExponent negative significand exponent rest
    | rest => scaled negative significand exponent rest

-- What follows the whole part, which had `dropped` more digits than fit.
def afterWhole (negative : Bool) (significand dropped : Nat) (cs : List Char) :
    Except Failure (Number × List Char) :=
  match cs with
  | '.' :: rest => withFraction negative significand dropped rest
  | 'e' :: rest => withExponent negative significand dropped rest
  | 'E' :: rest => withExponent negative significand dropped rest
  | rest =>
    if dropped ≠ 0 then scaled negative significand dropped rest
    else if !negative then .ok (.integer significand, rest)
    else if 0 < significand && significand ≤ 1 <<< 63 then .ok (.integer (-significand), rest)
    else .ok (.float (-significand.toUInt64.toFloat), rest)

-- A number after its sign.
def readNumber (negative : Bool) (cs : List Char) : Except Failure (Number × List Char) :=
  match cs with
  | [] => failAt [] .endOfValue
  | c :: rest =>
    if c = '0' then
      match rest with
      | d :: _ => if d.isDigit then failOn rest .invalidNumber else afterWhole negative 0 0 rest
      | [] => afterWhole negative 0 0 rest
    else if c.isDigit then
      let (significand, dropped) := keepDigits 0 (cs.takeWhile Char.isDigit)
      afterWhole negative significand dropped.length (cs.dropWhile Char.isDigit)
    else failOn cs .invalidNumber

-- A value that is neither an array nor an object. Blanks before it are gone.
def scalar (cs : List Char) : Except Failure (Json × List Char) :=
  match cs with
  | [] => failAt [] .endOfValue
  | c :: rest =>
    if c = 'n' then do return (.null, ← keyword ['u', 'l', 'l'] rest)
    else if c = 't' then do return (.bool true, ← keyword ['r', 'u', 'e'] rest)
    else if c = 'f' then do return (.bool false, ← keyword ['a', 'l', 's', 'e'] rest)
    else if c = '"' then do
      let (s, rest) ← readString rest
      return (.string s, rest)
    else if c = '-' then do
      let (n, rest) ← readNumber true rest
      return (.number n, rest)
    else if c.isDigit then do
      let (n, rest) ← readNumber false cs
      return (.number n, rest)
    else failOn cs .expectedValue

end EmbeddedStyles.Json
