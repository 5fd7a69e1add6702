import EmbeddedStyles.Proofs.Source.Order

namespace EmbeddedStyles.Source

-- A column or a length as a signed word.
def signed (n : UInt32) : Int64 :=
  n.toUInt64.toInt64

-- What a signed operation gives, unless it overflowed.
def checked (overflow : Bool) (result : Int64) : Option Int64 :=
  if overflow then none else some result

def addWords? (a b : Int64) : Option Int64 :=
  checked (a.toBitVec.saddOverflow b.toBitVec) (a + b)

def subWords? (a b : Int64) : Option Int64 :=
  checked (a.toBitVec.ssubOverflow b.toBitVec) (a - b)

-- A signed word as a column, unless its lower half is another number.
def narrow? (n : Int64) : Option UInt32 :=
  if signed n.toUInt64.toUInt32 = n then some n.toUInt64.toUInt32 else none

def Span.widthWord? (s : Span) : Option Int64 := do
  let distance ← subWords? (signed s.stop.column) (signed s.start.column)
  addWords? distance 1

def Replacement.driftWord? (r : Replacement) : Option Int64 := do
  let width ← r.span.widthWord?
  subWords? width (signed r.length)

-- Where the drift takes a column, be it beyond the placeholder or not.
def Replacement.shiftedWord? (r : Replacement) (column : UInt32) : Option Int64 := do
  let drift ← r.driftWord?
  addWords? (signed column) drift

section Operations

variable {a b c n : Int64} {column : UInt32}

@[simp] theorem toInt_signed (n : UInt32) : (signed n).toInt = n.toNat := by
  have hlt := n.toNat_lt
  have hbits : (signed n).toBitVec = n.toBitVec.setWidth 64 := by simp [signed]
  rw [← Int64.toInt_toBitVec, hbits, BitVec.toInt_setWidth, UInt32.toNat_toBitVec]
  exact Int.bmod_eq_of_le_mul_two (by omega) (by omega)

-- There is a checked result exactly if some word holds the integer result, and it is that word.
theorem checked_eq_some_iff {overflow : Bool} {result : Int64} {value : Int}
    (hout : overflow = true → value < -2 ^ 63 ∨ 2 ^ 63 ≤ value)
    (hin : ¬ overflow = true → result.toInt = value) :
    checked overflow result = some c ↔ c.toInt = value := by
  have hlow := c.le_toInt
  have hhigh := c.toInt_lt
  cases overflow with
  | true =>
    have hvalue := hout rfl
    simp only [checked, if_true, reduceCtorEq, false_iff]
    omega
  | false =>
    have hresult := hin (by decide)
    rw [← hresult, Int64.toInt_inj]
    simp [checked, eq_comm]

theorem addWords?_eq_some_iff : addWords? a b = some c ↔ c.toInt = a.toInt + b.toInt := by
  refine checked_eq_some_iff (fun h => ?_) BitVec.toInt_add_of_not_saddOverflow
  simpa [BitVec.saddOverflow, or_comm] using h

theorem subWords?_eq_some_iff : subWords? a b = some c ↔ c.toInt = a.toInt - b.toInt := by
  refine checked_eq_some_iff (fun h => ?_) BitVec.toInt_sub_of_not_ssubOverflow
  simpa [BitVec.ssubOverflow, or_comm] using h

theorem exists_addWords (hlow : -2 ^ 63 ≤ a.toInt + b.toInt) (hhigh : a.toInt + b.toInt < 2 ^ 63) :
    ∃ c, addWords? a b = some c ∧ c.toInt = a.toInt + b.toInt := by
  have hword := Int64.toInt_ofInt_of_le hlow hhigh
  exact ⟨_, addWords?_eq_some_iff.mpr hword, hword⟩

theorem exists_subWords (hlow : -2 ^ 63 ≤ a.toInt - b.toInt) (hhigh : a.toInt - b.toInt < 2 ^ 63) :
    ∃ c, subWords? a b = some c ∧ c.toInt = a.toInt - b.toInt := by
  have hword := Int64.toInt_ofInt_of_le hlow hhigh
  exact ⟨_, subWords?_eq_some_iff.mpr hword, hword⟩

theorem narrow?_eq_some_iff : narrow? n = some column ↔ n.toInt = column.toNat := by
  have hlower : (signed column).toUInt64.toUInt32 = column := by simp [signed]
  have hsigned : n = signed column ↔ n.toInt = column.toNat := by
    rw [← Int64.toInt_inj, toInt_signed]
  rw [← hsigned]
  constructor
  · intro h
    by_cases hfits : signed n.toUInt64.toUInt32 = n
    · rw [narrow?, if_pos hfits, Option.some_inj] at h
      rw [← h, hfits]
    · rw [narrow?, if_neg hfits] at h
      cases h
  · rintro rfl
    rw [narrow?, hlower, if_pos rfl]

theorem narrow?_eq_none_iff : narrow? n = none ↔ n.toInt < 0 ∨ maxColumn < n.toInt := by
  have hnone : narrow? n = none ↔ ∀ column : UInt32, n.toInt ≠ column.toNat := by
    simp only [Option.eq_none_iff_forall_ne_some, ne_eq, narrow?_eq_some_iff]
  rw [hnone]
  simp only [maxColumn]
  constructor
  · intro h
    by_contra hrange
    have hclamp := Replacement.toNat_clampColumn (n := n.toInt) (by omega) (by omega)
    exact h _ hclamp.symm
  · intro h column
    have hlt := column.toNat_lt
    omega

-- To clamp an integer is to narrow a word that holds it, with the last column for a failure.
theorem clampColumn_toInt (n : Int64) :
    clampColumn n.toInt = (narrow? n).getD (UInt32.ofNat maxColumn) := by
  cases h : narrow? n with
  | none =>
    have hout := narrow?_eq_none_iff.mp h
    have hrange : ¬ (0 ≤ n.toInt ∧ n.toInt ≤ maxColumn) := by omega
    simp [clampColumn, hrange]
  | some column =>
    have hcolumn := narrow?_eq_some_iff.mp h
    have hlt := column.toNat_lt
    have hclamp := Replacement.toNat_clampColumn (n := n.toInt) (by omega) (by omega)
    rw [Option.getD_some, ← UInt32.toNat_inj]
    omega

end Operations

theorem Span.width_bounds (s : Span) : -2 ^ 32 < s.width ∧ s.width ≤ 2 ^ 32 := by
  have hstart := s.start.column.toNat_lt
  have hstop := s.stop.column.toNat_lt
  rw [Span.width]
  omega

theorem Span.exists_widthWord (s : Span) :
    ∃ width, s.widthWord? = some width ∧ width.toInt = s.width := by
  have hstart := s.start.column.toNat_lt
  have hstop := s.stop.column.toNat_lt
  have hfrom := toInt_signed s.start.column
  have hto := toInt_signed s.stop.column
  have hone : Int64.toInt 1 = 1 := by decide
  obtain ⟨distance, hdistance, hexact⟩ :=
    exists_subWords (a := signed s.stop.column) (b := signed s.start.column) (by omega) (by omega)
  obtain ⟨width, hwidth, hexact'⟩ :=
    exists_addWords (a := distance) (b := 1) (by omega) (by omega)
  refine ⟨width, ?_, ?_⟩
  · simp [widthWord?, hdistance, hwidth]
  · rw [Span.width]
    omega

namespace Replacement

variable {r : Replacement} {line column : UInt32}

theorem drift_bounds (r : Replacement) : -2 ^ 33 < r.drift ∧ r.drift ≤ 2 ^ 32 := by
  have hwidth := r.span.width_bounds
  have hlength := r.length.toNat_lt
  rw [drift]
  omega

theorem exists_driftWord (r : Replacement) :
    ∃ drift, r.driftWord? = some drift ∧ drift.toInt = r.drift := by
  have hbounds := r.drift_bounds
  have hlength := toInt_signed r.length
  obtain ⟨width, hwidth, hexact⟩ := r.span.exists_widthWord
  have hdifference : width.toInt - (signed r.length).toInt = r.drift := by
    rw [hexact, hlength, drift]
  obtain ⟨drift, hdrift, hexact'⟩ :=
    exists_subWords (a := width) (b := signed r.length) (by omega) (by omega)
  refine ⟨drift, ?_, by omega⟩
  simp [driftWord?, hwidth, hdrift]

theorem exists_shiftedWord (r : Replacement) (column : UInt32) :
    ∃ shifted, r.shiftedWord? column = some shifted ∧ shifted.toInt = column.toNat + r.drift := by
  have hbounds := r.drift_bounds
  have hlt := column.toNat_lt
  have hcolumn := toInt_signed column
  obtain ⟨drift, hdrift, hexact⟩ := r.exists_driftWord
  obtain ⟨shifted, hshifted, hexact'⟩ :=
    exists_addWords (a := signed column) (b := drift) (by omega) (by omega)
  refine ⟨shifted, ?_, by omega⟩
  simp [shiftedWord?, hdrift, hshifted]

-- A column that is not beyond the placeholder stays where it is or is pinned, without signed
-- arithmetic.
theorem correctColumn_of_not_beyond
    (h : ¬ (line = r.span.start.line ∧ r.placeholderEnd < column)) :
    r.correctColumn line column = column ∨ r.correctColumn line column = r.pinned := by
  by_cases hline : line = r.span.start.line
  · have hle : column.toNat ≤ r.placeholderEnd.toNat := by
      rw [← UInt32.le_iff_toNat_le, ← UInt32.not_lt]
      exact fun hlt => h ⟨hline, hlt⟩
    by_cases hstart : column.toNat < r.span.start.column.toNat
    · exact .inl (correctColumn_of_lt hstart line)
    · rcases Nat.lt_or_eq_of_le hle with hin | hat
      · exact .inr (correctColumn_inside hline (by omega) hin)
      · exact .inl (correctColumn_at_end hat line)
  · exact .inl (correctColumn_of_ne hline column)

-- The words of the correction exist and are exact whichever way the column goes. Beyond the
-- placeholder it goes to the shifted word, and to the last column only if that word is larger.
theorem correctColumn_exact_in_words (r : Replacement) (line column : UInt32) :
    ∃ width drift shifted : Int64,
      r.span.widthWord? = some width ∧ width.toInt = r.span.width ∧
      r.driftWord? = some drift ∧ drift.toInt = r.drift ∧
      r.shiftedWord? column = some shifted ∧
      shifted.toInt = column.toNat + r.span.stop.column.toNat - r.span.start.column.toNat + 1 -
        r.length.toNat ∧
      (line = r.span.start.line → r.placeholderEnd < column →
        r.placeholderEnd.toNat = r.span.start.column.toNat + r.length.toNat ∧
        r.span.stop.column.toNat + 2 ≤ shifted.toInt ∧
        (r.correctColumn line column).toNat = min shifted.toInt maxColumn ∧
        r.correctColumn line column = (narrow? shifted).getD (UInt32.ofNat maxColumn) ∧
        (narrow? shifted = none ↔ maxColumn < shifted.toInt)) ∧
      (¬ (line = r.span.start.line ∧ r.placeholderEnd < column) →
        r.correctColumn line column = column ∨ r.correctColumn line column = r.pinned) := by
  obtain ⟨width, hwidth, hwidth'⟩ := r.span.exists_widthWord
  obtain ⟨drift, hdrift, hdrift'⟩ := r.exists_driftWord
  obtain ⟨shifted, hshifted, hexact⟩ := r.exists_shiftedWord column
  have hvalue : r.drift = r.span.stop.column.toNat - r.span.start.column.toNat + 1 -
      r.length.toNat := rfl
  refine ⟨width, drift, shifted, hwidth, hwidth', hdrift, hdrift', hshifted, by omega, ?_,
    correctColumn_of_not_beyond⟩
  intro hline hbeyond
  have hlt := UInt32.lt_iff_toNat_lt.mp hbeyond
  have hstop := stop_lt_add_drift hlt
  have hcorrect : r.correctColumn line column = clampColumn shifted.toInt := by
    rw [correctColumn_beyond hline hlt, hexact]
  refine ⟨toNat_placeholderEnd_of_lt hlt, by omega, ?_, ?_, ?_⟩
  · rw [hcorrect, toNat_clampColumn_eq_min (by omega)]
  · rw [hcorrect, clampColumn_toInt]
  · rw [narrow?_eq_none_iff]
    omega

-- A span that ends on a later line, far to the left of its start.
def backward : Replacement := ⟨⟨⟨1, 0xfffffffc⟩, ⟨4, 0⟩⟩, 2⟩

-- A span as wide as a line can be, with an empty placeholder.
def widest : Replacement := ⟨⟨⟨1, 0⟩, ⟨1, 0xffffffff⟩⟩, 0⟩

-- The last column comes back to column 2, the least that a shift can give, while a column inside
-- that placeholder is pinned. Column 1 is taken past the last column and stays at it.
theorem correctColumn_exact_in_words_extremes :
    backward.placeholderEnd < 0xffffffff ∧ ¬ backward.placeholderEnd < 0xfffffffd ∧
      widest.placeholderEnd < 1 ∧
      (∃ shifted, backward.shiftedWord? 0xffffffff = some shifted ∧ shifted.toInt = 2 ∧
        (backward.correctColumn 1 0xffffffff).toNat = shifted.toInt) ∧
      backward.correctColumn 1 0xfffffffd = backward.pinned ∧
      ∃ shifted, widest.shiftedWord? 1 = some shifted ∧ shifted.toInt = 0x100000001 ∧
        narrow? shifted = none ∧ widest.correctColumn 1 1 = UInt32.ofNat maxColumn := by
  have hback : backward.placeholderEnd < 0xffffffff := by decide
  have hinside : ¬ backward.placeholderEnd < 0xfffffffd := by decide
  have hwide : widest.placeholderEnd < 1 := by decide
  obtain ⟨-, -, near, -, -, -, -, hnear, hvalue, hbeyond, -⟩ :=
    correctColumn_exact_in_words backward 1 0xffffffff
  obtain ⟨-, -, -, -, -, -, -, -, -, -, hother⟩ :=
    correctColumn_exact_in_words backward 1 0xfffffffd
  obtain ⟨-, -, far, -, -, -, -, hfar, hvalue', hbeyond', -⟩ :=
    correctColumn_exact_in_words widest 1 1
  have htwo : near.toInt = 2 := hvalue.trans (by decide)
  have hpast : far.toInt = 0x100000001 := hvalue'.trans (by decide)
  obtain ⟨-, -, hcolumn, -⟩ := hbeyond rfl hback
  obtain ⟨-, -, -, hcolumn', hfails⟩ := hbeyond' rfl hwide
  have hnone : narrow? far = none := hfails.mpr (by rw [hpast]; decide)
  refine ⟨hback, hinside, hwide, ⟨near, hnear, htwo, ?_⟩, ?_, far, hfar, hpast, hnone, ?_⟩
  · rw [hcolumn, htwo]
    decide
  · exact (hother fun h => hinside h.2).resolve_left (by decide)
  · rw [hcolumn', hnone, Option.getD_none]

end Replacement

end EmbeddedStyles.Source
