namespace EmbeddedStyles.Decimal

-- A positive number `significand * 2 ^ exponent`. `narrow` tells that the gap below is half the
-- gap above, as it is at a power of two.
structure Binary where
  significand : Nat
  exponent : Int
  narrow : Bool

def Binary.ofBits (bits : UInt64) : Binary :=
  let fraction : Nat := bits.toNat % (1 <<< 52)
  let biased : Nat := (bits.toNat >>> 52) % (1 <<< 11)
  if biased = 0 then ⟨fraction, -1074, false⟩
  else ⟨fraction + 1 <<< 52, (biased : Int) - 1075, fraction = 0 && 1 < biased⟩

-- The decimal `digits * 10 ^ exponent`.
structure Scientific where
  digits : Nat
  exponent : Int
  deriving Repr, DecidableEq

-- On the grid of multiples of `10 ^ e`: the number is `4 * significand * unit / whole`, in steps
-- of the grid.
structure Grid where
  unit : Nat
  whole : Nat

def Binary.grid (b : Binary) (e : Int) : Grid :=
  let q := b.exponent - 2
  ⟨Nat.pow 2 q.toNat * Nat.pow 10 (-e).toNat, Nat.pow 2 (-q).toNat * Nat.pow 10 e.toNat⟩

-- Whether the grid point rounds to the number.
def Binary.covers (b : Binary) (g : Grid) (d : Nat) : Bool :=
  let low := (4 * b.significand - if b.narrow then 1 else 2) * g.unit
  let high := (4 * b.significand + 2) * g.unit
  let point := d * g.whole
  if b.significand % 2 = 0 then low ≤ point && point ≤ high else low < point && point < high

-- The nearer of the two neighbours on the grid among those that round to the number, the even one
-- in a tie.
def Binary.onGrid (b : Binary) (e : Int) : Option Nat :=
  let g := b.grid e
  let value := 4 * b.significand * g.unit
  let below := value / g.whole
  let above := below + 1
  let toBelow := value - below * g.whole
  let toAbove := above * g.whole - value
  match b.covers g below, b.covers g above with
  | true, true =>
    if toBelow < toAbove then some below
    else if toAbove < toBelow then some above
    else if below % 2 = 0 then some below else some above
  | true, false => some below
  | false, true => some above
  | false, false => none

-- Tries `10 ^ e`, then finer grids.
def Binary.search (b : Binary) (e : Int) : Nat → Scientific
  | 0 => ⟨4 * b.significand * (b.grid e).unit / (b.grid e).whole, e⟩
  | n + 1 =>
    match b.onGrid e with
    | some d => ⟨d, e⟩
    | none => b.search (e - 1) n

-- All reals nearer to the number than to its neighbours round to it, the ends of that interval
-- included when the significand is even. Of the decimals with the largest exponent in the interval
-- the nearest is taken. No binary64 number reaches `10 ^ 309`, and seventeen digits always suffice,
-- so the search ends long before its bound.
def Binary.shortest (b : Binary) : Scientific :=
  b.search 309 660

def shortest (bits : UInt64) : Scientific :=
  (Binary.ofBits bits).shortest

end EmbeddedStyles.Decimal
