import EmbeddedStyles.Proofs.Text.Cursor
import EmbeddedStyles.Stylesheet
import Mathlib.Algebra.Group.Nat.Defs

namespace EmbeddedStyles.Stylesheet

open Text

namespace Buffer

-- The counters are those of the text, up to multiples of the size of a word.
structure Exact (b : Buffer) : Prop where
  lines : b.lines = UInt32.ofNat (lineAfter b.text)
  lastWidth : b.lastWidth = UInt32.ofNat (columnAfter b.text)

theorem foldl_advance (cs ts : List Char) :
    cs.foldl (fun at' c => advance at'.1 at'.2 c)
        (UInt32.ofNat (lineAfter ts), UInt32.ofNat (columnAfter ts)) =
      (UInt32.ofNat (lineAfter (ts ++ cs)), UInt32.ofNat (columnAfter (ts ++ cs))) := by
  induction cs generalizing ts with
  | nil => simp
  | cons c cs ih =>
    have hstep : advance (UInt32.ofNat (lineAfter ts)) (UInt32.ofNat (columnAfter ts)) c =
        (UInt32.ofNat (lineAfter (ts ++ [c])), UInt32.ofNat (columnAfter (ts ++ [c]))) := by
      by_cases hc : c = '\n'
      · subst hc
        simp [advance, lineAfter_append, columnAfter_concat_newline, UInt32.ofNat_add]
      · rw [lineAfter_append_of_notMem (by simpa using Ne.symm hc), columnAfter_concat hc]
        simp [advance, hc, UInt32.ofNat_add]
    rw [List.foldl_cons, hstep, ih]
    simp

theorem exact_empty : Exact empty := ⟨rfl, rfl⟩

theorem Exact.push {b : Buffer} (h : b.Exact) (cs : List Char) : (b.push cs).Exact := by
  have hf := foldl_advance cs b.text
  constructor
  · simp [Buffer.push, h.lines, h.lastWidth, hf]
  · simp [Buffer.push, h.lines, h.lastWidth, hf]

theorem Exact.padToLine {b : Buffer} (h : b.Exact) (line : UInt32) : (b.padToLine line).Exact :=
  h.push _

theorem Exact.padToColumn {b : Buffer} (h : b.Exact) (column : UInt32) :
    (b.padToColumn column).Exact :=
  h.push _

theorem Exact.toNat_lines {b : Buffer} (h : b.Exact) (hlt : lineAfter b.text < 2 ^ 32) :
    b.lines.toNat = lineAfter b.text := by
  rw [h.lines, UInt32.toNat_ofNat_of_lt' hlt]

theorem Exact.toNat_lastWidth {b : Buffer} (h : b.Exact) (hlt : columnAfter b.text < 2 ^ 32) :
    b.lastWidth.toNat = columnAfter b.text := by
  rw [h.lastWidth, UInt32.toNat_ofNat_of_lt' hlt]

-- Newlines are added only in front of a later line, and then the last line is empty.
theorem lineAfter_padToLine {b : Buffer} (h : b.Exact) (hlt : lineAfter b.text < 2 ^ 32)
    (line : UInt32) : lineAfter (b.padToLine line).text = max (lineAfter b.text) line.toNat := by
  rw [text_padToLine, lineAfter_append, List.count_replicate_self, h.toNat_lines hlt]
  omega

theorem columnAfter_padToLine {b : Buffer} (h : b.Exact) (hlt : lineAfter b.text < 2 ^ 32)
    (line : UInt32) :
    columnAfter (b.padToLine line).text =
      if lineAfter b.text < line.toNat then 0 else columnAfter b.text := by
  rw [text_padToLine, h.toNat_lines hlt]
  split
  next hlt =>
    obtain ⟨k, hk⟩ : ∃ k, line.toNat - lineAfter b.text = k + 1 :=
      ⟨line.toNat - lineAfter b.text - 1, by omega⟩
    rw [hk, List.replicate_succ', ← List.append_assoc, columnAfter_concat_newline]
  next hge =>
    have hk : line.toNat - lineAfter b.text = 0 := by omega
    simp [hk]

theorem units16_replicate_blank (n : Nat) : units16 (List.replicate n ' ') = n := by
  induction n with
  | zero => rfl
  | succ n ih =>
    have hw : width16 ' ' = 1 := by decide
    rw [List.replicate_succ, units16_cons, ih, hw]
    omega

theorem newline_notMem_blanks (n : Nat) : '\n' ∉ List.replicate n ' ' := by
  intro hm
  have hb := List.eq_of_mem_replicate hm
  revert hb
  decide

-- Blanks keep the line and fill it up to the column.
theorem lineAfter_padToColumn (b : Buffer) (column : UInt32) :
    lineAfter (b.padToColumn column).text = lineAfter b.text := by
  rw [text_padToColumn, lineAfter_append_of_notMem (newline_notMem_blanks _)]

theorem columnAfter_padToColumn {b : Buffer} (h : b.Exact) (hlt : columnAfter b.text < 2 ^ 32)
    (column : UInt32) :
    columnAfter (b.padToColumn column).text = max (columnAfter b.text) column.toNat := by
  rw [text_padToColumn, columnAfter_append_of_notMem (newline_notMem_blanks _),
    units16_replicate_blank, h.toNat_lastWidth hlt]
  omega

end Buffer

-- The buffer when a rule's header is written and its text comes next.
def opened (b : Buffer) (rule : Rule) : Buffer :=
  ((b.padToLine rule.startOrOrigin.line).push (header rule)).padToColumn
    rule.startOrOrigin.column

theorem text_addRule (b : Buffer) (rule : Rule) :
    (addRule b rule).text = (opened b rule).text ++ rule.cssText.toList ++ footer := rfl

theorem exact_opened {b : Buffer} (h : b.Exact) (rule : Rule) : (opened b rule).Exact :=
  ((h.padToLine _).push _).padToColumn _

theorem exact_addRule {b : Buffer} (h : b.Exact) (rule : Rule) : (addRule b rule).Exact :=
  ((exact_opened h rule).push _).push _

theorem newline_notMem_header {rule : Rule} (h : '\n' ∉ rule.displayName.toList) :
    '\n' ∉ header rule := by
  simp [header, h]

theorem newline_notMem_footer : '\n' ∉ footer := by
  decide

-- There is room for a rule if nothing on its line or on a later one is in the way of its header.
structure Room (b : Buffer) (rule : Rule) : Prop where
  name : '\n' ∉ rule.displayName.toList
  line : lineAfter b.text ≤ rule.startOrOrigin.line.toNat
  column : (if lineAfter b.text < rule.startOrOrigin.line.toNat then 0 else columnAfter b.text) +
    units16 (header rule) ≤ rule.startOrOrigin.column.toNat

theorem Room.lines_lt {b : Buffer} {rule : Rule} (h : Room b rule) :
    lineAfter b.text < 2 ^ 32 :=
  Nat.lt_of_le_of_lt h.line rule.startOrOrigin.line.toNat_lt

-- A rule for which there is room lands at its start.
theorem lineAfter_opened {b : Buffer} {rule : Rule} (h : b.Exact) (hroom : Room b rule) :
    lineAfter (opened b rule).text = rule.startOrOrigin.line.toNat := by
  rw [opened, Buffer.lineAfter_padToColumn, Buffer.text_push,
    lineAfter_append_of_notMem (newline_notMem_header hroom.name),
    Buffer.lineAfter_padToLine h hroom.lines_lt, Nat.max_eq_right hroom.line]

theorem columnAfter_opened {b : Buffer} {rule : Rule} (h : b.Exact) (hroom : Room b rule) :
    columnAfter (opened b rule).text = rule.startOrOrigin.column.toNat := by
  have hp := h.padToLine rule.startOrOrigin.line
  have hw : columnAfter ((b.padToLine rule.startOrOrigin.line).push (header rule)).text =
      (if lineAfter b.text < rule.startOrOrigin.line.toNat then 0 else columnAfter b.text) +
        units16 (header rule) := by
    rw [Buffer.text_push, columnAfter_append_of_notMem (newline_notMem_header hroom.name),
      Buffer.columnAfter_padToLine h hroom.lines_lt]
  have hle := hroom.column
  have hlt := rule.startOrOrigin.column.toNat_lt
  rw [opened, Buffer.columnAfter_padToColumn (hp.push _) (by omega), hw, Nat.max_eq_right hle]

-- What is written stays in front of all that follows.
theorem text_prefix_foldl_addRule (rules : List Rule) (b : Buffer) :
    b.text <+: (rules.foldl addRule b).text := by
  induction rules generalizing b with
  | nil => exact List.prefix_rfl
  | cons rule rules ih => exact (text_prefix_addRule b rule).trans (ih (addRule b rule))

-- Every rule leaves something in the stylesheet, whatever its name, its text and its start are.
theorem isEmpty_synthesize (rules : List Rule) : (synthesize rules).isEmpty = rules.isEmpty := by
  rcases List.eq_nil_or_concat rules with rfl | ⟨rules, rule, rfl⟩
  · rfl
  · have htext : (layout (rules ++ [rule])).text ≠ [] := by
      simp [layout_concat, text_addRule, footer]
    rw [Bool.eq_iff_iff]
    simp [synthesize, htext]

end EmbeddedStyles.Stylesheet
