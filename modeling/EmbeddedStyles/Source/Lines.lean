import EmbeddedStyles.Text.Units

namespace EmbeddedStyles.Source

structure LineIndex where
  starts : List Nat
  size : Nat
  deriving Repr

-- The offsets just after each newline, the text starting at `offset`.
def startsAfterNewlines (offset : Nat) : List Char → List Nat
  | [] => []
  | c :: cs =>
    let next := offset + c.utf8Size
    if c = '\n' then next :: startsAfterNewlines next cs else startsAfterNewlines next cs

-- Drops so many bytes, unless that would cut a character in two or go past the end.
def dropBytes : Nat → List Char → Option (List Char)
  | 0, cs => some cs
  | _ + 1, [] => none
  | n + 1, c :: cs => if c.utf8Size ≤ n + 1 then dropBytes (n + 1 - c.utf8Size) cs else none

def takeBytes : Nat → List Char → Option (List Char)
  | 0, _ => some []
  | _ + 1, [] => none
  | n + 1, c :: cs =>
    if c.utf8Size ≤ n + 1 then (takeBytes (n + 1 - c.utf8Size) cs).map (c :: ·) else none

-- The text between two byte offsets.
def slice (start stop : Nat) (cs : List Char) : Option (List Char) :=
  if start ≤ stop then (dropBytes start cs).bind (takeBytes (stop - start)) else none

def withoutReturn (cs : List Char) : List Char :=
  if cs.getLast? = some '\r' then cs.dropLast else cs

namespace LineIndex

def ofChars (cs : List Char) : LineIndex :=
  ⟨0 :: startsAfterNewlines 0 cs, Text.size8 cs⟩

def ofText (text : String) : LineIndex :=
  ofChars text.toList

def lineCount (index : LineIndex) : Nat :=
  index.starts.length

-- The line with a number, cut out of a text of the size that was indexed.
def lineChars? (index : LineIndex) (cs : List Char) (line : Nat) : Option (List Char) :=
  if Text.size8 cs ≠ index.size then none
  else
    match line with
    | 0 => none
    | n + 1 => do
      let start ← index.starts[n]?
      let stop := (index.starts[n + 1]?.map (· - 1)).getD index.size
      let text ← slice start stop cs
      return withoutReturn text

def line? (index : LineIndex) (text : String) (line : UInt32) : Option String :=
  (index.lineChars? text.toList line.toNat).map String.ofList

end LineIndex

end EmbeddedStyles.Source
