import EmbeddedStyles.Proofs.Source.Correction

namespace EmbeddedStyles.Source

namespace Replacement

variable {r : Replacement} {line a b : UInt32}

theorem toNat_clampColumn_eq_min {n : Int} (h : 0 ≤ n) :
    ((clampColumn n).toNat : Int) = min n maxColumn := by
  by_cases hlt : n ≤ maxColumn
  · have hn : n < 2 ^ 32 := by
      simp only [maxColumn] at hlt
      omega
    rw [toNat_clampColumn h hn]
    omega
  · rw [clampColumn_of_lt (by omega)]
    omega

-- Beyond the placeholder a column lands beyond the span, or on the last column.
theorem stop_le_correctColumn_beyond (hline : line = r.span.start.line)
    (hend : r.placeholderEnd.toNat < b.toNat) :
    r.span.stop.column.toNat ≤ (r.correctColumn line b).toNat := by
  have hstop := stop_lt_add_drift hend
  have hlast := r.span.stop.column.toNat_lt
  have hclamp := toNat_clampColumn_eq_min (n := b.toNat + r.drift) (by omega)
  rw [correctColumn_beyond hline hend]
  simp only [maxColumn] at hclamp
  omega

-- Left of the placeholder a column stays, and whatever comes after it stays after it.
theorem toNat_le_correctColumn_of_left (hline : line = r.span.start.line)
    (hsingle : r.span.singleLine = true)
    (hordered : r.span.start.column.toNat ≤ r.span.stop.column.toNat)
    (hleft : a.toNat < r.span.start.column.toNat) (hle : a.toNat ≤ b.toNat) :
    a.toNat ≤ (r.correctColumn line b).toNat := by
  by_cases hb : b.toNat < r.span.start.column.toNat
  · rw [correctColumn_of_lt hb]
    exact hle
  · rcases Nat.lt_trichotomy b.toNat r.placeholderEnd.toNat with hin | hat | hpast
    · rw [correctColumn_inside hline (by omega) hin, toNat_pinned hsingle]
      omega
    · rw [correctColumn_at_end hat]
      exact hle
    · have hstop := stop_le_correctColumn_beyond hline hpast
      omega

-- One replacement of the line, neither column being at the end of its placeholder.
theorem correctColumn_mono_of_ne (hline : line = r.span.start.line)
    (hsingle : r.span.singleLine = true)
    (hordered : r.span.start.column.toNat ≤ r.span.stop.column.toNat)
    (ha : a ≠ r.placeholderEnd) (hb : b ≠ r.placeholderEnd) (hle : a.toNat ≤ b.toNat) :
    (r.correctColumn line a).toNat ≤ (r.correctColumn line b).toNat := by
  have ha' : a.toNat ≠ r.placeholderEnd.toNat := mt UInt32.toNat_inj.mp ha
  have hb' : b.toNat ≠ r.placeholderEnd.toNat := mt UInt32.toNat_inj.mp hb
  by_cases hleft : a.toNat < r.span.start.column.toNat
  · rw [correctColumn_of_lt hleft]
    exact toNat_le_correctColumn_of_left hline hsingle hordered hleft hle
  · by_cases hin : a.toNat < r.placeholderEnd.toNat
    · rw [correctColumn_inside hline (by omega) hin]
      by_cases hbin : b.toNat < r.placeholderEnd.toNat
      · rw [correctColumn_inside hline (by omega) hbin]
      · have hstop := stop_le_correctColumn_beyond (r := r) (b := b) hline (by omega)
        rw [toNat_pinned hsingle]
        omega
    · -- Both are beyond and drift by the same number of columns.
      have haend : r.placeholderEnd.toNat < a.toNat := by omega
      have hbend : r.placeholderEnd.toNat < b.toNat := by omega
      have hpos := stop_lt_add_drift haend
      have hclamp := toNat_clampColumn_eq_min (n := a.toNat + r.drift) (by omega)
      have hclamp' := toNat_clampColumn_eq_min (n := b.toNat + r.drift) (by omega)
      rw [correctColumn_beyond hline haend, correctColumn_beyond hline hbend]
      omega

end Replacement

namespace Replacements

-- On its way through the list a column is never at the end of the placeholder whose turn it is.
def MissesEnds (line column : UInt32) : Replacements → Prop
  | [] => True
  | r :: rs =>
    (r.span.start.line = line → column ≠ r.placeholderEnd) ∧
      MissesEnds line (r.correctColumn line column) rs

instance decidableMissesEnds (line : UInt32) :
    (column : UInt32) → (rs : Replacements) → Decidable (MissesEnds line column rs)
  | _, [] => isTrue trivial
  | column, r :: rs =>
    have := decidableMissesEnds line (r.correctColumn line column) rs
    inferInstanceAs (Decidable (_ ∧ _))

-- The two columns may take different branches at every replacement; the step lemma keeps them in
-- order whichever they take.
theorem correctColumn_mono (rs : Replacements) (line column column' : UInt32)
    (hspans : ∀ r ∈ rs, r.span.start.line = line →
      r.span.singleLine = true ∧ r.span.start.column ≤ r.span.stop.column)
    (hle : column ≤ column') (hmiss : MissesEnds line column rs)
    (hmiss' : MissesEnds line column' rs) :
    rs.correctColumn line column ≤ rs.correctColumn line column' := by
  induction rs generalizing column column' with
  | nil => exact hle
  | cons r rs ih =>
    obtain ⟨hend, hmiss⟩ := hmiss
    obtain ⟨hend', hmiss'⟩ := hmiss'
    have hstep : r.correctColumn line column ≤ r.correctColumn line column' := by
      by_cases hline : r.span.start.line = line
      · obtain ⟨hsingle, hordered⟩ := hspans r (by simp) hline
        rw [UInt32.le_iff_toNat_le] at hle hordered ⊢
        exact Replacement.correctColumn_mono_of_ne hline.symm hsingle hordered (hend hline)
          (hend' hline) hle
      · rw [Replacement.correctColumn_of_ne (Ne.symm hline),
          Replacement.correctColumn_of_ne (Ne.symm hline)]
        exact hle
    rw [correctColumn_cons, correctColumn_cons]
    exact ih _ _ (fun r hr => hspans r (List.mem_cons_of_mem _ hr)) hstep hmiss hmiss'

-- Spans that overlap and stand in no order, one of them up to the last column of the line, and a
-- replacement of another line that spans lines.
def overlapping : Replacements := [
  ⟨⟨⟨1, 30⟩, ⟨1, 33⟩⟩, 9⟩, ⟨⟨⟨2, 9⟩, ⟨3, 0⟩⟩, 2⟩, ⟨⟨⟨1, 10⟩, ⟨1, 20⟩⟩, 4⟩,
  ⟨⟨⟨1, 12⟩, ⟨1, 0xffffffff⟩⟩, 20⟩]

-- Column 11 is pinned twice, column 50 drifts back and forth until it reaches the last column.
theorem correctColumn_mono_overlapping :
    MissesEnds 1 11 overlapping ∧ MissesEnds 1 50 overlapping ∧
      overlapping.correctColumn 1 11 ≤ overlapping.correctColumn 1 50 ∧
      overlapping.correctColumn 1 50 = 0xffffffff :=
  ⟨by decide, by decide,
    correctColumn_mono overlapping 1 11 50 (by decide) (by decide) (by decide) (by decide),
    by decide⟩

-- At the end of a placeholder the order is lost: column 13 goes to the end of the span, and
-- column 14 stays.
example : Replacements.correctColumn [⟨⟨⟨1, 10⟩, ⟨1, 20⟩⟩, 4⟩] 1 13 = 19 ∧
    Replacements.correctColumn [⟨⟨⟨1, 10⟩, ⟨1, 20⟩⟩, 4⟩] 1 14 = 14 := by
  decide

end Replacements

end EmbeddedStyles.Source
