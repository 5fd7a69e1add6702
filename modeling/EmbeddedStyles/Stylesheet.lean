import EmbeddedStyles.Metadata
import EmbeddedStyles.Text.Units

namespace EmbeddedStyles.Stylesheet

-- The text so far, its number of lines and the width of the last one in UTF-16 units. The text may
-- outgrow the two counters, which are 32-bit words and start again from zero then.
structure Buffer where
  text : List Char
  lines : UInt32
  lastWidth : UInt32

namespace Buffer

def empty : Buffer := ⟨[], 1, 0⟩

-- Where the end of a text stands after one more character.
def advance (lines lastWidth : UInt32) (c : Char) : UInt32 × UInt32 :=
  if c = '\n' then (lines + 1, 0) else (lines, lastWidth + UInt32.ofNat (Text.width16 c))

def push (b : Buffer) (cs : List Char) : Buffer :=
  let (lines, lastWidth) := cs.foldl (fun at' c => advance at'.1 at'.2 c) (b.lines, b.lastWidth)
  ⟨b.text ++ cs, lines, lastWidth⟩

@[simp] theorem text_push (b : Buffer) (cs : List Char) : (b.push cs).text = b.text ++ cs := rfl

-- Adds lines until there are so many.
def padToLine (b : Buffer) (line : UInt32) : Buffer :=
  b.push (List.replicate (line.toNat - b.lines.toNat) '\n')

-- Adds spaces until the last line is so wide.
def padToColumn (b : Buffer) (column : UInt32) : Buffer :=
  b.push (List.replicate (column.toNat - b.lastWidth.toNat) ' ')

@[simp] theorem text_padToLine (b : Buffer) (line : UInt32) :
    (b.padToLine line).text =
      b.text ++ List.replicate (line.toNat - b.lines.toNat) '\n' := rfl

@[simp] theorem text_padToColumn (b : Buffer) (column : UInt32) :
    (b.padToColumn column).text =
      b.text ++ List.replicate (column.toNat - b.lastWidth.toNat) ' ' := rfl

end Buffer

def header (rule : Rule) : List Char :=
  '.' :: (rule.displayName.toList ++ [' ', '\x7b'])

def footer : List Char := [' ', '\x7d']

-- The text of a rule starts where it starts in the source, unless what is there reaches further.
def addRule (b : Buffer) (rule : Rule) : Buffer :=
  let start := rule.startOrOrigin
  ((((b.padToLine start.line).push (header rule)).padToColumn start.column).push
    rule.cssText.toList).push footer

def layout (rules : List Rule) : Buffer :=
  rules.foldl addRule .empty

-- What a rule adds comes after all that is there.
theorem text_prefix_addRule (b : Buffer) (rule : Rule) : b.text <+: (addRule b rule).text := by
  simp only [addRule, Buffer.text_push, Buffer.text_padToColumn, Buffer.text_padToLine,
    List.append_assoc]
  exact List.prefix_append _ _

@[simp] theorem layout_nil : layout [] = .empty := rfl

theorem layout_concat (rules : List Rule) (rule : Rule) :
    layout (rules ++ [rule]) = addRule (layout rules) rule := by
  simp [layout]

def synthesize (rules : List Rule) : String :=
  String.ofList (layout rules).text

end EmbeddedStyles.Stylesheet
