import EmbeddedStyles.Proofs.Stylesheet.Layout
import EmbeddedStyles.Proofs.Text.Split

namespace EmbeddedStyles

namespace Text

-- A word can hold the number of lines and the width of each line.
structure WordSized (cs : List Char) : Prop where
  lines : lineAfter cs < 2 ^ 32
  widths : ∀ line ∈ cs.splitOn '\n', units16 line < 2 ^ 32

-- A text ends inside a line of whatever it is continued to.
theorem exists_line_of_append (as bs : List Char) :
    ∃ line ∈ (as ++ bs).splitOn '\n', columnAfter as ≤ units16 line := by
  by_cases hn : '\n' ∈ as
  · -- Only what follows the last newline counts, and it starts a line.
    obtain ⟨last, first, hreverse, hlast⟩ := List.eq_append_cons_of_mem (List.mem_reverse.mpr hn)
    have has : as = first.reverse ++ '\n' :: last.reverse := by
      simpa using congrArg List.reverse hreverse
    have hfree : '\n' ∉ last.reverse := fun hm => hlast (List.mem_reverse.mp hm)
    obtain ⟨rest, parts, hsplit⟩ := exists_first_part hfree bs
    have hcolumn : columnAfter as = units16 last.reverse := by
      rw [has, ← List.singleton_append, ← List.append_assoc, columnAfter_append_of_notMem hfree,
        columnAfter_concat_newline, Nat.zero_add]
    refine ⟨last.reverse ++ rest, ?_, ?_⟩
    · rw [has, List.append_assoc, List.cons_append, List.splitOn_append_cons_self, hsplit]
      simp
    · rw [hcolumn, units16_append]
      exact Nat.le_add_right _ _
  · obtain ⟨rest, parts, hsplit⟩ := exists_first_part hn bs
    have hcolumn := columnAfter_le_units16 as
    refine ⟨as ++ rest, by simp [hsplit], ?_⟩
    rw [units16_append]
    omega

theorem WordSized.lineAfter_lt {as bs : List Char} (h : WordSized (as ++ bs)) :
    lineAfter as < 2 ^ 32 :=
  Nat.lt_of_le_of_lt (lineAfter_le_append as bs) h.lines

theorem WordSized.columnAfter_lt {as bs : List Char} (h : WordSized (as ++ bs)) :
    columnAfter as < 2 ^ 32 := by
  obtain ⟨line, hline, hle⟩ := exists_line_of_append as bs
  exact Nat.lt_of_le_of_lt hle (h.widths line hline)

end Text

namespace Stylesheet

open Text

-- A text with newlines up to the line of a rule and the header of the rule after it.
def headed (cs : List Char) (rule : Rule) : List Char :=
  cs ++ List.replicate (rule.startOrOrigin.line.toNat - lineAfter cs) '\n' ++ header rule

-- All that stands before the text of a rule, blanks up to its column included.
def opening (cs : List Char) (rule : Rule) : List Char :=
  headed cs rule ++
    List.replicate (rule.startOrOrigin.column.toNat - columnAfter (headed cs rule)) ' '

theorem line_le_lineAfter_headed (cs : List Char) (rule : Rule) :
    rule.startOrOrigin.line.toNat ≤ lineAfter (headed cs rule) := by
  rw [headed, lineAfter_append, lineAfter_append, List.count_replicate_self]
  omega

theorem lineAfter_opening (cs : List Char) (rule : Rule) :
    lineAfter (opening cs rule) = lineAfter (headed cs rule) :=
  lineAfter_append_of_notMem (Buffer.newline_notMem_blanks _) _

theorem columnAfter_opening (cs : List Char) (rule : Rule) :
    columnAfter (opening cs rule) =
      max (columnAfter (headed cs rule)) rule.startOrOrigin.column.toNat := by
  rw [opening, columnAfter_append_of_notMem (Buffer.newline_notMem_blanks _),
    Buffer.units16_replicate_blank]
  omega

theorem exact_layout (rules : List Rule) : (layout rules).Exact :=
  List.foldlRecOn rules addRule Buffer.exact_empty fun _ h rule _ => exact_addRule h rule

-- The counters of a buffer open a rule as its text says, each of them being right when it is used.
theorem text_opened {b : Buffer} (h : b.Exact) {rule : Rule} {rest : List Char}
    (hsize : WordSized ((opened b rule).text ++ rest)) :
    (opened b rule).text = opening b.text rule := by
  have hheaded : (b.padToLine rule.startOrOrigin.line).text ++ header rule =
      headed b.text rule := by
    have hlines : lineAfter b.text < 2 ^ 32 := by
      simp only [opened, Buffer.text_padToColumn, Buffer.text_push, Buffer.text_padToLine,
        List.append_assoc] at hsize
      exact hsize.lineAfter_lt
    rw [Buffer.text_padToLine, h.toNat_lines hlines, headed]
  have hwidth : columnAfter (headed b.text rule) < 2 ^ 32 := by
    simp only [opened, Buffer.text_padToColumn, Buffer.text_push, hheaded,
      List.append_assoc] at hsize
    exact hsize.columnAfter_lt
  have hexact := (h.padToLine rule.startOrOrigin.line).push (header rule)
  rw [opened, Buffer.text_padToColumn, Buffer.text_push, hheaded, opening,
    hexact.toNat_lastWidth (by rwa [Buffer.text_push, hheaded]), Buffer.text_push, hheaded]

-- One more rule adds to the text that is there what the text says, and nothing that comes later
-- changes it. The text of the rule lands at the rule's start exactly if the header ends no later.
theorem synthesize_concat (rules : List Rule) (rule : Rule)
    (hsize : WordSized (synthesize (rules ++ [rule])).toList) :
    (synthesize (rules ++ [rule])).toList =
      opening (synthesize rules).toList rule ++ rule.cssText.toList ++ [' ', '\x7d'] ∧
    (∀ later, (synthesize rules).toList <+: (synthesize (rules ++ later)).toList) ∧
    (lineAfter (opening (synthesize rules).toList rule) = rule.startOrOrigin.line.toNat ∧
        columnAfter (opening (synthesize rules).toList rule) = rule.startOrOrigin.column.toNat ↔
      lineAfter (headed (synthesize rules).toList rule) ≤ rule.startOrOrigin.line.toNat ∧
        columnAfter (headed (synthesize rules).toList rule) ≤
          rule.startOrOrigin.column.toNat) := by
  refine ⟨?_, ?_, ?_⟩
  · simp only [synthesize, String.toList_ofList, layout_concat, text_addRule,
      List.append_assoc] at hsize ⊢
    rw [text_opened (exact_layout rules) hsize, footer]
  · intro later
    simp only [synthesize, String.toList_ofList, layout, List.foldl_append]
    exact text_prefix_foldl_addRule later _
  · have hline := line_le_lineAfter_headed (synthesize rules).toList rule
    rw [lineAfter_opening, columnAfter_opening]
    omega

-- A rule of two lines, and one further down with a character outside the basic plane in its name.
def firstRule : Rule := ⟨"a", "x\ny", some ⟨1, 6⟩, none⟩

def wideRule : Rule := ⟨"🎨", "z", some ⟨4, 8⟩, none⟩

theorem synthesize_concat_wideRule :
    WordSized (synthesize ([firstRule] ++ [wideRule])).toList ∧
    (synthesize ([firstRule] ++ [wideRule])).toList =
      ".a \x7b  x\ny \x7d\n\n.🎨 \x7b   z \x7d".toList ∧
    lineAfter (opening (synthesize [firstRule]).toList wideRule) = 4 ∧
    columnAfter (opening (synthesize [firstRule]).toList wideRule) = 8 := by
  have hsize : WordSized (synthesize ([firstRule] ++ [wideRule])).toList := ⟨by decide, by decide⟩
  obtain ⟨htext, -, hlands⟩ := synthesize_concat [firstRule] wideRule hsize
  exact ⟨hsize, htext.trans (by decide), hlands.mpr (by decide)⟩

end Stylesheet

end EmbeddedStyles
