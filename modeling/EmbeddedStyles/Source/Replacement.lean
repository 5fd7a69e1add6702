import EmbeddedStyles.Source.Position

namespace EmbeddedStyles.Source

-- The span of an interpolation and the length of the placeholder that the compiler puts in its
-- place.
structure Replacement where
  span : Span
  length : UInt32
  deriving DecidableEq, Repr, Inhabited

abbrev Replacements := List Replacement

def maxColumn : Nat := 0xffffffff

-- A number as a column. What is no column becomes the last one.
def clampColumn (n : Int) : UInt32 :=
  if 0 ≤ n && n ≤ maxColumn then UInt32.ofNat n.toNat else UInt32.ofNat maxColumn

namespace Replacement

-- The column just after the placeholder, or the last column.
def placeholderEnd (r : Replacement) : UInt32 :=
  UInt32.ofNat (min (r.span.start.column.toNat + r.length.toNat) maxColumn)

-- How much longer the source text is than the placeholder.
def drift (r : Replacement) : Int :=
  r.span.width - r.length.toNat

-- Where a column inside the placeholder goes: to the end of the interpolation, so that the name
-- inside it is marked, or to its start if it spans lines.
def pinned (r : Replacement) : UInt32 :=
  if r.span.singleLine then UInt32.ofNat (r.span.stop.column.toNat - 1)
  else r.span.start.column

-- A column after the placeholder moves by the drift and one inside it is pinned. The column just
-- after the placeholder counts as neither.
def correctColumn (r : Replacement) (line column : UInt32) : UInt32 :=
  if line ≠ r.span.start.line then column
  else if r.placeholderEnd < column then clampColumn (column.toNat + r.drift)
  else if r.span.start.column ≤ column && column < r.placeholderEnd then r.pinned
  else column

theorem correctColumn_of_ne {r : Replacement} {line : UInt32} (h : line ≠ r.span.start.line)
    (column : UInt32) : r.correctColumn line column = column := by
  simp [correctColumn, h]

end Replacement

-- All replacements of a text, in order, each applied to what the ones before it gave.
def Replacements.correctColumn (rs : Replacements) (line column : UInt32) : UInt32 :=
  rs.foldl (fun column r => r.correctColumn line column) column

namespace Replacements

@[simp] theorem correctColumn_nil (line column : UInt32) :
    correctColumn [] line column = column := rfl

@[simp] theorem correctColumn_cons (r : Replacement) (rs : Replacements) (line column : UInt32) :
    correctColumn (r :: rs) line column = correctColumn rs line (r.correctColumn line column) := rfl

theorem correctColumn_append (rs ss : Replacements) (line column : UInt32) :
    correctColumn (rs ++ ss) line column =
      correctColumn ss line (correctColumn rs line column) := by
  simp [correctColumn, List.foldl_append]

end Replacements

end EmbeddedStyles.Source
