import EmbeddedStyles.Text.Units
import Mathlib.Data.List.DropRight

namespace EmbeddedStyles.Text

-- What follows the last newline, the whole text if there is none.
def lastLine (cs : List Char) : List Char :=
  cs.rtakeWhile (· ≠ '\n')

-- The line on which the next character stands, from one.
def lineAfter (cs : List Char) : Nat :=
  cs.count '\n' + 1

-- The column at which the next character stands, from zero.
def columnAfter (cs : List Char) : Nat :=
  units16 (lastLine cs)

theorem width16_pos (c : Char) : 0 < width16 c := by
  unfold width16
  split <;> decide

theorem units16_pos {cs : List Char} (h : cs ≠ []) : 0 < units16 cs := by
  cases cs with
  | nil => exact absurd rfl h
  | cons c cs =>
    have hc := width16_pos c
    rw [units16_cons]
    omega

@[simp] theorem lineAfter_nil : lineAfter [] = 1 := rfl

@[simp] theorem columnAfter_nil : columnAfter [] = 0 := rfl

theorem lineAfter_append (as bs : List Char) :
    lineAfter (as ++ bs) = lineAfter as + bs.count '\n' := by
  simp only [lineAfter, List.count_append]
  omega

theorem lineAfter_le_append (as bs : List Char) : lineAfter as ≤ lineAfter (as ++ bs) := by
  rw [lineAfter_append]
  exact Nat.le_add_right _ _

theorem lineAfter_append_of_notMem {bs : List Char} (h : '\n' ∉ bs) (as : List Char) :
    lineAfter (as ++ bs) = lineAfter as := by
  rw [lineAfter_append, List.count_eq_zero_of_not_mem h, Nat.add_zero]

theorem lineAfter_lt_append_iff (as bs : List Char) :
    lineAfter as < lineAfter (as ++ bs) ↔ '\n' ∈ bs := by
  rw [lineAfter_append, ← List.count_pos_iff]
  omega

-- The last newline of a longer text lies in the part that has one.
theorem columnAfter_append_of_mem {bs : List Char} (h : '\n' ∈ bs) (as : List Char) :
    columnAfter (as ++ bs) = columnAfter bs := by
  have hr : bs.reverse.takeWhile (· ≠ '\n') ≠ bs.reverse := by
    intro he
    have hall := List.takeWhile_eq_self_iff.mp he '\n' (List.mem_reverse.mpr h)
    simp at hall
  have hlen : (bs.reverse.takeWhile (· ≠ '\n')).length ≠ bs.reverse.length := fun hl =>
    hr ((List.takeWhile_prefix _).eq_of_length hl)
  simp only [columnAfter, lastLine, List.rtakeWhile, List.reverse_append,
    List.takeWhile_append, if_neg hlen]

theorem columnAfter_append_of_notMem {bs : List Char} (h : '\n' ∉ bs) (as : List Char) :
    columnAfter (as ++ bs) = columnAfter as + units16 bs := by
  have hr : bs.reverse.takeWhile (· ≠ '\n') = bs.reverse := by
    rw [List.takeWhile_eq_self_iff]
    intro c hc
    have hne : c ≠ '\n' := fun he => h (he ▸ List.mem_reverse.mp hc)
    simpa using hne
  simp only [columnAfter, lastLine, List.rtakeWhile, List.reverse_append,
    List.takeWhile_append, hr, if_true, List.reverse_reverse, units16_append]

theorem columnAfter_concat_newline (cs : List Char) : columnAfter (cs ++ ['\n']) = 0 := by
  rw [columnAfter_append_of_mem (by simp)]
  rfl

theorem columnAfter_concat {c : Char} (h : c ≠ '\n') (cs : List Char) :
    columnAfter (cs ++ [c]) = columnAfter cs + width16 c := by
  rw [columnAfter_append_of_notMem (by simpa using h.symm)]
  simp

theorem columnAfter_le_units16 (cs : List Char) : columnAfter cs ≤ units16 cs := by
  obtain ⟨earlier, hcs⟩ := List.rtakeWhile_suffix (· ≠ '\n') cs
  have hunits := congrArg units16 hcs
  rw [units16_append] at hunits
  unfold columnAfter lastLine
  omega

-- What follows a text sees only where it ends.
theorem lineAfter_append_congr {as bs : List Char} (h : lineAfter as = lineAfter bs)
    (cs : List Char) : lineAfter (as ++ cs) = lineAfter (bs ++ cs) := by
  rw [lineAfter_append, lineAfter_append, h]

theorem columnAfter_append_congr {as bs : List Char} (h : columnAfter as = columnAfter bs)
    (cs : List Char) : columnAfter (as ++ cs) = columnAfter (bs ++ cs) := by
  by_cases hn : '\n' ∈ cs
  · rw [columnAfter_append_of_mem hn, columnAfter_append_of_mem hn]
  · rw [columnAfter_append_of_notMem hn, columnAfter_append_of_notMem hn, h]

-- On one line columns grow with the text.
theorem columnAfter_le_append (as bs : List Char) (h : lineAfter (as ++ bs) = lineAfter as) :
    columnAfter as ≤ columnAfter (as ++ bs) := by
  have hn : '\n' ∉ bs := by
    rw [← lineAfter_lt_append_iff as]
    omega
  rw [columnAfter_append_of_notMem hn]
  exact Nat.le_add_right _ _

end EmbeddedStyles.Text
