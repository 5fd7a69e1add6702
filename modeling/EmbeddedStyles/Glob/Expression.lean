namespace EmbeddedStyles.Glob

inductive Expression where
  | empty
  | byte (b : UInt8)
  | any
  -- Any bytes, or none.
  | run
  -- A byte, or none.
  | optional (b : UInt8)
  -- A byte in one of the ranges, or in none of them.
  | oneOf (negated : Bool) (ranges : List (UInt8 × UInt8))
  | seq (first second : Expression)
  | alt (first second : Expression)
  | group (inside : Expression)
  deriving DecidableEq, Repr

def inRanges (negated : Bool) (ranges : List (UInt8 × UInt8)) (b : UInt8) : Bool :=
  (ranges.any fun (low, high) => low ≤ b && b ≤ high) != negated

-- Whether a byte passes and the rest accepts what it leaves over.
def afterOne (ok : UInt8 → Bool) (rest : List UInt8 → Bool) : List UInt8 → Bool
  | [] => false
  | b :: bs => ok b && rest bs

-- Whether the rest accepts what some number of bytes leave over.
def afterRun (rest : List UInt8 → Bool) : List UInt8 → Bool
  | [] => rest []
  | b :: bs => rest (b :: bs) || afterRun rest bs

-- What a test says of the bytes and of each of their ends, the whole first and the empty end last.
def onEnds (test : List UInt8 → Bool) : List UInt8 → List Bool
  | [] => [test []]
  | b :: bs => test (b :: bs) :: onEnds test bs

-- The verdicts of `afterOne`, given those of what comes after.
def verdictsOne (ok : UInt8 → Bool) : List UInt8 → List Bool → List Bool
  | b :: bs, _ :: after => (ok b && after.headD false) :: verdictsOne ok bs after
  | _, _ => [false]

-- The verdicts of `afterRun`, given those of what comes after.
def verdictsRun : List Bool → List Bool
  | [] => []
  | v :: after =>
    let later := verdictsRun after
    (v || later.headD false) :: later

@[simp] theorem head?_onEnds (test : List UInt8 → Bool) (bs : List UInt8) :
    (onEnds test bs).head? = some (test bs) := by
  cases bs <;> rfl

theorem verdictsOne_onEnds (ok : UInt8 → Bool) (rest : List UInt8 → Bool) (bs : List UInt8) :
    verdictsOne ok bs (onEnds rest bs) = onEnds (afterOne ok rest) bs := by
  induction bs with
  | nil => rfl
  | cons b bs ih => simp [onEnds, verdictsOne, afterOne, ih]

theorem verdictsRun_onEnds (rest : List UInt8 → Bool) (bs : List UInt8) :
    verdictsRun (onEnds rest bs) = onEnds (afterRun rest) bs := by
  induction bs with
  | nil => simp [onEnds, verdictsRun, afterRun]
  | cons b bs ih => simp [onEnds, verdictsRun, afterRun, ih]

theorem zipWith_or_onEnds (f g : List UInt8 → Bool) (bs : List UInt8) :
    List.zipWith or (onEnds f bs) (onEnds g bs) = onEnds (fun bs => f bs || g bs) bs := by
  induction bs with
  | nil => rfl
  | cons b bs ih => simp [onEnds, ih]

namespace Expression

-- Whether the expression takes some first bytes such that the rest accepts the others.
def accepts : Expression → (rest : List UInt8 → Bool) → List UInt8 → Bool
  | .empty, rest => rest
  | .byte b, rest => afterOne (· = b) rest
  | .any, rest => afterOne (fun _ => true) rest
  | .run, rest => afterRun rest
  | .optional b, rest => fun bs => rest bs || afterOne (· = b) rest bs
  | .oneOf negated ranges, rest => afterOne (inRanges negated ranges) rest
  | .seq first second, rest => first.accepts (second.accepts rest)
  | .alt first second, rest => fun bs => first.accepts rest bs || second.accepts rest bs
  | .group inside, rest => inside.accepts rest

-- The verdicts on all ends of the bytes, given those of what comes after the expression, in one
-- pass for each piece. Read as a program `accepts` would try every way to divide the bytes.
def verdicts : Expression → List UInt8 → (after : List Bool) → List Bool
  | .empty, _, after => after
  | .byte b, bs, after => verdictsOne (· = b) bs after
  | .any, bs, after => verdictsOne (fun _ => true) bs after
  | .run, _, after => verdictsRun after
  | .optional b, bs, after => after.zipWith or (verdictsOne (· = b) bs after)
  | .oneOf negated ranges, bs, after => verdictsOne (inRanges negated ranges) bs after
  | .seq first second, bs, after => first.verdicts bs (second.verdicts bs after)
  | .alt first second, bs, after => (first.verdicts bs after).zipWith or (second.verdicts bs after)
  | .group inside, bs, after => inside.verdicts bs after

theorem verdicts_onEnds (e : Expression) (rest : List UInt8 → Bool) (bs : List UInt8) :
    e.verdicts bs (onEnds rest bs) = onEnds (e.accepts rest) bs := by
  induction e generalizing rest with
  | empty => rfl
  | byte b => exact verdictsOne_onEnds _ rest bs
  | any => exact verdictsOne_onEnds _ rest bs
  | run => exact verdictsRun_onEnds rest bs
  | optional b => simp only [verdicts, accepts, verdictsOne_onEnds, zipWith_or_onEnds]
  | oneOf negated ranges => exact verdictsOne_onEnds _ rest bs
  | seq first second ihf ihs => simp only [verdicts, accepts, ihs, ihf]
  | alt first second ihf ihs => simp only [verdicts, accepts, ihf, ihs, zipWith_or_onEnds]
  | group inside ih => exact ih rest

-- Whether the expression takes all the bytes.
def takes (e : Expression) (bs : List UInt8) : Bool :=
  (e.verdicts bs (onEnds List.isEmpty bs)).headD false

theorem takes_eq_accepts (e : Expression) (bs : List UInt8) :
    e.takes bs = e.accepts List.isEmpty bs := by
  simp [takes, verdicts_onEnds]

def sequence : List Expression → Expression
  | [] => .empty
  | [e] => e
  | e :: es => .seq e (sequence es)

def ofBytes (bs : List UInt8) : Expression :=
  sequence (bs.map .byte)

-- How many pieces stand side by side.
def pieces : Expression → Nat
  | .empty => 0
  | .seq first second => first.pieces + second.pieces
  | _ => 1

-- The level that pieces open when several of them stand where one could.
def ownLevel (e : Expression) : Nat :=
  if 2 ≤ e.pieces then 1 else 0

-- How many levels are open at once inside the pieces. Groups, alternatives, sequences in them,
-- repetitions and classes are levels, and so are the ranges of a class if there are several.
def depth : Expression → Nat
  | .empty | .byte _ | .any => 0
  | .run | .optional _ => 1
  | .oneOf _ ranges => if 2 ≤ ranges.length then 2 else 1
  | .seq first second => max first.depth second.depth
  | .alt first second => max (first.ownLevel + first.depth) (second.ownLevel + second.depth)
  | .group inside =>
    match inside with
    | .alt _ _ => 2 + inside.depth
    | _ => 1 + inside.ownLevel + inside.depth

-- The ASCII characters that mean something in the text of an expression.
def isSpecial (c : Char) : Bool :=
  "\\.+*?()|[]\x7b\x7d^$#&-~".toList.contains c

def byteText (b : UInt8) : String :=
  if b < 128 then
    let c := Char.ofNat b.toNat
    if isSpecial c then String.ofList ['\\', c] else String.singleton c
  else "\\x" ++ String.ofList (Nat.toDigits 16 b.toNat)

def rangeText (range : UInt8 × UInt8) : String :=
  if range.1 = range.2 then byteText range.1
  else byteText range.1 ++ "-" ++ byteText range.2

def text : Expression → String
  | .empty => ""
  | .byte b => byteText b
  | .any => "."
  | .run => ".*"
  | .optional b => byteText b ++ "?"
  | .oneOf negated ranges =>
    "[" ++ (if negated then "^" else "") ++ String.join (ranges.map rangeText) ++ "]"
  | .seq first second => first.text ++ second.text
  | .alt first second => first.text ++ "|" ++ second.text
  | .group inside => "(?:" ++ inside.text ++ ")"

end Expression

end EmbeddedStyles.Glob
