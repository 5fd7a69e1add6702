namespace EmbeddedStyles.Source

structure Position where
  line : UInt32
  column : UInt32
  deriving DecidableEq, Repr, Inhabited

namespace Position

def origin : Position := ⟨0, 0⟩

-- Whether a position comes no later than another: by line, then by column.
def before (a b : Position) : Bool :=
  a.line < b.line || a.line = b.line && a.column ≤ b.column

end Position

-- From the first position to the last one, both included.
structure Span where
  start : Position
  stop : Position
  deriving DecidableEq, Repr, Inhabited

namespace Span

def singleLine (s : Span) : Bool :=
  s.start.line = s.stop.line

-- The number of columns, the last one included. It is negative if the span ends far enough to the
-- left of its start on a later line.
def width (s : Span) : Int :=
  s.stop.column.toNat - s.start.column.toNat + 1

end Span

end EmbeddedStyles.Source
