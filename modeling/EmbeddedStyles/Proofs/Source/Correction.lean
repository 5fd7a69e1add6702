import EmbeddedStyles.Source.Replacement
import Mathlib.Algebra.Order.Ring.Int
import Mathlib.Data.List.Induction

namespace EmbeddedStyles.Source

namespace Replacement

variable {r : Replacement} {line column : UInt32}

theorem toNat_placeholderEnd (r : Replacement) :
    r.placeholderEnd.toNat = min (r.span.start.column.toNat + r.length.toNat) maxColumn := by
  have hlt : min (r.span.start.column.toNat + r.length.toNat) maxColumn < 2 ^ 32 := by
    simp only [maxColumn]
    omega
  rw [placeholderEnd, UInt32.toNat_ofNat_of_lt' hlt]

theorem start_le_placeholderEnd (r : Replacement) :
    r.span.start.column.toNat ≤ r.placeholderEnd.toNat := by
  have hs := r.span.start.column.toNat_lt
  rw [toNat_placeholderEnd]
  simp only [maxColumn]
  omega

theorem toNat_clampColumn {n : Int} (h0 : 0 ≤ n) (hlt : n < 2 ^ 32) :
    ((clampColumn n).toNat : Int) = n := by
  have hm : n ≤ (maxColumn : Int) := by
    simp only [maxColumn]
    omega
  have hn : n.toNat < 2 ^ 32 := by omega
  simp only [clampColumn, h0, hm, decide_true, Bool.and_self, if_true]
  rw [UInt32.toNat_ofNat_of_lt' hn]
  omega

theorem toNat_pinned (h : r.span.singleLine = true) :
    r.pinned.toNat = r.span.stop.column.toNat - 1 := by
  have hs := r.span.stop.column.toNat_lt
  rw [pinned, if_pos h, UInt32.toNat_ofNat_of_lt']
  simp only [UInt32.size]
  omega

-- Left of the placeholder nothing moves, whatever the line.
theorem correctColumn_of_lt (h : column.toNat < r.span.start.column.toNat) (line : UInt32) :
    r.correctColumn line column = column := by
  have hp := r.start_le_placeholderEnd
  have hend : ¬ r.placeholderEnd < column := by
    rw [UInt32.lt_iff_toNat_lt]
    omega
  have hstart : ¬ r.span.start.column ≤ column := by
    rw [UInt32.le_iff_toNat_le]
    omega
  simp [correctColumn, hend, hstart]

-- The end of the placeholder is neither inside nor beyond it.
theorem correctColumn_at_end (h : column.toNat = r.placeholderEnd.toNat) (line : UInt32) :
    r.correctColumn line column = column := by
  have he : column = r.placeholderEnd := UInt32.toNat_inj.mp h
  subst he
  simp [correctColumn]

theorem correctColumn_inside (hline : line = r.span.start.line)
    (hstart : r.span.start.column.toNat ≤ column.toNat)
    (hend : column.toNat < r.placeholderEnd.toNat) :
    r.correctColumn line column = r.pinned := by
  have h1 : ¬ r.placeholderEnd < column := by
    rw [UInt32.lt_iff_toNat_lt]
    omega
  have h2 : r.span.start.column ≤ column := UInt32.le_iff_toNat_le.mpr hstart
  have h3 : column < r.placeholderEnd := UInt32.lt_iff_toNat_lt.mpr hend
  simp [correctColumn, hline, h1, h2, h3]

theorem correctColumn_beyond (hline : line = r.span.start.line)
    (hend : r.placeholderEnd.toNat < column.toNat) :
    r.correctColumn line column = clampColumn (column.toNat + r.drift) := by
  have h1 : r.placeholderEnd < column := UInt32.lt_iff_toNat_lt.mpr hend
  simp [correctColumn, hline, h1]

-- No column is beyond a placeholder whose end was cut off at the last column.
theorem toNat_placeholderEnd_of_lt (hend : r.placeholderEnd.toNat < column.toNat) :
    r.placeholderEnd.toNat = r.span.start.column.toNat + r.length.toNat := by
  have hp := r.toNat_placeholderEnd
  have hlt := column.toNat_lt
  simp only [maxColumn] at hp
  omega

-- The shifted column lies beyond the span, so it is never negative.
theorem stop_lt_add_drift (hend : r.placeholderEnd.toNat < column.toNat) :
    (r.span.stop.column.toNat : Int) + 1 < column.toNat + r.drift := by
  have hp := toNat_placeholderEnd_of_lt hend
  simp only [drift, Span.width]
  omega

theorem toNat_correctColumn_beyond (hline : line = r.span.start.line)
    (hend : r.placeholderEnd.toNat < column.toNat) (hlt : column.toNat + r.drift < 2 ^ 32) :
    ((r.correctColumn line column).toNat : Int) = column.toNat + r.drift := by
  have hstop := stop_lt_add_drift hend
  rw [correctColumn_beyond hline hend, toNat_clampColumn (by omega) hlt]

theorem clampColumn_of_lt {n : Int} (h : maxColumn < n) : (clampColumn n).toNat = maxColumn := by
  have hn : ¬ n ≤ (maxColumn : Int) := by omega
  simp only [clampColumn, hn, decide_false, Bool.and_false, Bool.false_eq_true, if_false]
  decide

-- How far a replacement moves a column: not at all before the placeholder and at its end, up to the
-- pinned column inside it, and by the drift beyond it, though not past the last column.
def move (r : Replacement) (line : UInt32) (column : Int) : Int :=
  if line ≠ r.span.start.line then 0
  else if column < r.span.start.column.toNat then 0
  else if column < r.placeholderEnd.toNat then r.pinned.toNat - column
  else if column = r.placeholderEnd.toNat then 0
  else min r.drift (maxColumn - column)

theorem toNat_correctColumn (r : Replacement) (line column : UInt32) :
    ((r.correctColumn line column).toNat : Int) = column.toNat + r.move line column.toNat := by
  by_cases hline : line = r.span.start.line
  · rw [move, if_neg (not_not.mpr hline)]
    rcases Nat.lt_trichotomy column.toNat r.placeholderEnd.toNat with hin | hat | hpast
    · by_cases hs : column.toNat < r.span.start.column.toNat
      · rw [correctColumn_of_lt hs, if_pos (by omega), Int.add_zero]
      · rw [correctColumn_inside hline (by omega) hin, if_neg (by omega), if_pos (by omega)]
        omega
    · have hstart := r.start_le_placeholderEnd
      rw [correctColumn_at_end hat, if_neg (by omega), if_neg (by omega), if_pos (by omega),
        Int.add_zero]
    · have hstart := r.start_le_placeholderEnd
      have hstop := stop_lt_add_drift hpast
      rw [correctColumn_beyond hline hpast, if_neg (by omega), if_neg (by omega), if_neg (by omega)]
      by_cases hd : column.toNat + r.drift ≤ maxColumn
      · rw [toNat_clampColumn (by omega) (by simp only [maxColumn] at hd; omega)]
        omega
      · rw [clampColumn_of_lt (by omega)]
        omega
  · rw [correctColumn_of_ne hline, move, if_pos hline, Int.add_zero]

-- A replacement spares a column before its span and the column at the end of its placeholder.
-- Beyond the span it spares a column if the placeholder is as wide as the span, or if the column is
-- the last one and would be pushed up. Else the pinned column has to be the column itself.
def Spares (r : Replacement) (column : UInt32) : Prop :=
  column.toNat < r.span.start.column.toNat ∨ column.toNat = r.placeholderEnd.toNat ∨
    r.span.stop.column.toNat < column.toNat ∧
      (r.drift = 0 ∨ 0 < r.drift ∧ column.toNat = maxColumn) ∨
    r.span.stop.column.toNat = column.toNat + 1

theorem clampColumn_add_eq_self_iff {column : UInt32} {d : Int} (h : 0 ≤ column.toNat + d) :
    clampColumn (column.toNat + d) = column ↔ d = 0 ∨ 0 < d ∧ column.toNat = maxColumn := by
  have hlt := column.toNat_lt
  rw [← UInt32.toNat_inj]
  by_cases hd : column.toNat + d < 2 ^ 32
  · have hclamp := toNat_clampColumn h hd
    simp only [maxColumn]
    omega
  · have hmax : maxColumn < column.toNat + d := by
      simp only [maxColumn]
      omega
    rw [clampColumn_of_lt hmax]
    simp only [maxColumn]
    omega

-- On its line a single-line replacement beside a column leaves the column alone exactly if it
-- spares it.
theorem correctColumn_eq_self_iff_spares (hline : line = r.span.start.line)
    (hsingle : r.span.singleLine = true) (hpos : 0 < column.toNat)
    (hbeside : r.span.stop.column.toNat < column.toNat ∨
      column.toNat ≤ r.span.start.column.toNat) :
    r.correctColumn line column = column ↔ r.Spares column := by
  have hstart := r.start_le_placeholderEnd
  have hend := r.toNat_placeholderEnd
  have hlt := column.toNat_lt
  have hdrift : r.drift = r.span.stop.column.toNat - r.span.start.column.toNat + 1 -
      r.length.toNat := rfl
  unfold Spares
  simp only [maxColumn] at hend ⊢
  rcases Nat.lt_trichotomy column.toNat r.placeholderEnd.toNat with hin | hat | hpast
  · by_cases hs : column.toNat < r.span.start.column.toNat
    · simp [correctColumn_of_lt hs, hs]
    · rw [correctColumn_inside hline (by omega) hin, ← UInt32.toNat_inj, toNat_pinned hsingle]
      omega
  · simp [correctColumn_at_end hat, hat]
  · have hstop := stop_lt_add_drift hpast
    rw [correctColumn_beyond hline hpast, clampColumn_add_eq_self_iff (by omega)]
    simp only [maxColumn]
    omega

end Replacement

namespace Replacements

-- A column that each replacement leaves alone stays where it is.
theorem correctColumn_of_fixed {rs : Replacements} {line column : UInt32}
    (h : ∀ r ∈ rs, r.correctColumn line column = column) :
    rs.correctColumn line column = column := by
  induction rs with
  | nil => rfl
  | cons r rs ih =>
    rw [correctColumn_cons, h r (by simp)]
    exact ih fun r hr => h r (List.mem_cons_of_mem _ hr)

-- Only the replacements of its line move a column.
theorem correctColumn_of_other_lines {rs : Replacements} {line : UInt32}
    (h : ∀ r ∈ rs, r.span.start.line ≠ line) (column : UInt32) :
    rs.correctColumn line column = column :=
  correctColumn_of_fixed fun r hr => Replacement.correctColumn_of_ne (h r hr).symm column

-- No step of the correction moves a column exactly if no replacement by itself does.
theorem correctColumn_prefix_fixed_iff {rs : Replacements} {line column : UInt32} :
    (∀ first : Replacements, first <+: rs → first.correctColumn line column = column) ↔
      ∀ r ∈ rs, r.correctColumn line column = column := by
  constructor
  · intro h r hr
    obtain ⟨first, rest, rfl⟩ := List.append_of_mem hr
    have hfirst := h first (List.prefix_append _ _)
    have hnext := h (first ++ [r]) (by simp)
    rwa [correctColumn_append, hfirst] at hnext
  · intro h first hfirst
    exact correctColumn_of_fixed fun r hr => h r (hfirst.subset hr)

-- How far a list of replacements moves a column, the moves of all steps taken together.
def netMove (line : UInt32) (column : Int) : Replacements → Int
  | [] => 0
  | r :: rs => r.move line column + netMove line (column + r.move line column) rs

theorem toNat_correctColumn (rs : Replacements) (line column : UInt32) :
    ((rs.correctColumn line column).toNat : Int) =
      column.toNat + netMove line column.toNat rs := by
  induction rs generalizing column with
  | nil => simp [netMove]
  | cons r rs ih =>
    rw [correctColumn_cons, ih, Replacement.toNat_correctColumn, netMove]
    omega

theorem correctColumn_eq_self_iff (rs : Replacements) (line column : UInt32) :
    rs.correctColumn line column = column ↔ netMove line column.toNat rs = 0 := by
  have hnet := toNat_correctColumn rs line column
  rw [← UInt32.toNat_inj]
  omega

-- How far the replacements of a line push a column that lies beyond all their placeholders.
def driftOn (line : UInt32) (rs : Replacements) : Int :=
  ((rs.filter fun r => r.span.start.line = line).map Replacement.drift).sum

-- A column passes a list if it is beyond each placeholder of its line when the turn of that
-- replacement comes, and never grows out of the range of columns.
def Passes (line column : UInt32) (rs : Replacements) : Prop :=
  ∀ first r rest, rs = first ++ r :: rest → r.span.start.line = line →
    (r.placeholderEnd.toNat : Int) < column.toNat + driftOn line first ∧
      column.toNat + driftOn line first + r.drift < 2 ^ 32

theorem driftOn_concat (line : UInt32) (rs : Replacements) (r : Replacement) :
    driftOn line (rs ++ [r]) =
      driftOn line rs + if r.span.start.line = line then r.drift else 0 := by
  by_cases h : r.span.start.line = line <;> simp [driftOn, h]

theorem toNat_correctColumn_of_passes {rs : Replacements} {line column : UInt32}
    (h : Passes line column rs) :
    ((rs.correctColumn line column).toNat : Int) = column.toNat + driftOn line rs := by
  induction rs using List.reverseRecOn with
  | nil => simp [driftOn]
  | append_singleton rs r ih =>
    have hrs := ih fun first r' rest hsplit hline =>
      h first r' (rest ++ [r]) (by simp [hsplit]) hline
    rw [correctColumn_append, correctColumn_cons, correctColumn_nil, driftOn_concat]
    by_cases hline : r.span.start.line = line
    · obtain ⟨hend, hlt⟩ := h rs r [] rfl hline
      rw [Replacement.toNat_correctColumn_beyond hline.symm (by omega) (by omega), hrs,
        if_pos hline]
      omega
    · rw [Replacement.correctColumn_of_ne (Ne.symm hline), hrs, if_neg hline]
      omega

end Replacements

end EmbeddedStyles.Source
