import EmbeddedStyles.Decimal.Shortest

namespace EmbeddedStyles.Json

inductive Number where
  | integer (n : Int)
  | float (x : Float)

-- Decimal digits without a sign on naturals and with a minus sign below zero.
def digitsOf : Int → List Char
  | .ofNat n => Nat.toDigits 10 n
  | .negSucc n => '-' :: Nat.toDigits 10 (n + 1)

-- Floats are written positionally as long as the point stands no more than sixteen places after
-- the first digit and no more than four places before it, and with an exponent otherwise.
structure FloatFormat where
  mostPlacesBefore : Int
  mostZerosAfter : Int

def FloatFormat.json : FloatFormat := ⟨16, 4⟩

-- `point` is the place of the decimal point relative to the first of the digits `ds`.
def FloatFormat.write (f : FloatFormat) (ds : List Char) (point : Int) : List Char :=
  if 0 < point && point ≤ f.mostPlacesBefore then
    let whole := ds.take point.toNat
    let zeros := List.replicate (point.toNat - ds.length) '0'
    let rest := ds.drop point.toNat
    whole ++ zeros ++ '.' :: (if rest.isEmpty then ['0'] else rest)
  else if point ≤ 0 && -f.mostZerosAfter ≤ point then
    ['0', '.'] ++ List.replicate (-point).toNat '0' ++ ds
  else
    let tail := ds.drop 1
    let sign := if 0 < point then ['+'] else []
    ds.take 1 ++ (if tail.isEmpty then [] else '.' :: tail) ++ 'e' :: sign ++ digitsOf (point - 1)

-- The fewest digits that read back as the number. Only finite numbers occur in documents.
def floatChars (x : Float) : List Char :=
  let bits := x.toBits
  let sign := if 1 <<< 63 ≤ bits.toNat then ['-'] else []
  if bits.toNat % (1 <<< 63) = 0 then sign ++ ['0', '.', '0']
  else
    let s := Decimal.shortest bits
    let ds := Nat.toDigits 10 s.digits
    sign ++ FloatFormat.json.write ds (ds.length + s.exponent)

def Number.chars : Number → List Char
  | .integer n => digitsOf n
  | .float x => floatChars x

def Number.text (n : Number) : String :=
  String.ofList n.chars

end EmbeddedStyles.Json
