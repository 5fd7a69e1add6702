import EmbeddedStyles.Proofs.Source.Correction

namespace EmbeddedStyles.Source

-- Before the end of the placeholder a column is left at most at the end of the span.
theorem Replacement.toNat_correctColumn_le_stop {r : Replacement} {line column : UInt32}
    (hline : line = r.span.start.line) (hsingle : r.span.singleLine = true)
    (hordered : r.span.start.column.toNat ≤ r.span.stop.column.toNat)
    (hlt : column.toNat < r.placeholderEnd.toNat) :
    (r.correctColumn line column).toNat ≤ r.span.stop.column.toNat := by
  by_cases hstart : column.toNat < r.span.start.column.toNat
  · rw [correctColumn_of_lt hstart]
    omega
  · rw [correctColumn_inside hline (by omega) hlt, toNat_pinned hsingle]
    omega

namespace Replacements

-- The replacements that start on a line.
def onLine (line : UInt32) (rs : Replacements) : Replacements :=
  rs.filter fun r => r.span.start.line = line

-- How far the first replacements of a line push a column that lies beyond them.
def driftBefore (rs : Replacements) (count : Nat) : Int :=
  ((rs.take count).map Replacement.drift).sum

-- The spans of a line lie one after the other, each on that line alone.
structure Apart (line : UInt32) (rs : Replacements) : Prop where
  singleLine : ∀ r ∈ onLine line rs, r.span.singleLine = true
  ordered : ∀ r ∈ onLine line rs, r.span.start.column.toNat ≤ r.span.stop.column.toNat
  disjoint : (onLine line rs).IsChain fun a b =>
    a.span.stop.column.toNat < b.span.start.column.toNat

-- Neither the end of a placeholder nor a column on its way past them exceeds the last column.
structure InRange (line column : UInt32) (rs : Replacements) : Prop where
  ends : ∀ r ∈ onLine line rs, r.span.start.column.toNat + r.length.toNat ≤ maxColumn
  columns : ∀ i ≤ (onLine line rs).length,
    column.toNat + driftBefore (onLine line rs) i ≤ maxColumn

-- The first placeholder that a column does not get beyond, pushed by the drifts of those before.
structure StopsAt (rs : Replacements) (column : UInt32) (k : Nat) (r : Replacement) : Prop where
  get : rs[k]? = some r
  reached : column.toNat + driftBefore rs k ≤ r.span.start.column.toNat + r.length.toNat
  passed : ∀ i < k, ∀ r', rs[i]? = some r' →
    (r'.span.start.column.toNat + r'.length.toNat : Int) < column.toNat + driftBefore rs i

variable {rs : Replacements} {line column : UInt32} {k : Nat} {r : Replacement}

theorem line_of_mem_onLine (h : r ∈ onLine line rs) : r.span.start.line = line := by
  simpa using (List.mem_filter.mp h).2

-- Replacements of other lines may stand anywhere in between.
theorem correctColumn_onLine (line : UInt32) (rs : Replacements) (column : UInt32) :
    (onLine line rs).correctColumn line column = rs.correctColumn line column := by
  induction rs generalizing column with
  | nil => rfl
  | cons r rs ih =>
    by_cases hline : r.span.start.line = line
    · have hcons : onLine line (r :: rs) = r :: onLine line rs := by simp [onLine, hline]
      rw [hcons, correctColumn_cons, correctColumn_cons, ih]
    · have hcons : onLine line (r :: rs) = onLine line rs := by simp [onLine, hline]
      rw [hcons, correctColumn_cons, Replacement.correctColumn_of_ne (Ne.symm hline), ih]

theorem driftOn_eq_sum (h : ∀ r ∈ rs, r.span.start.line = line) :
    driftOn line rs = (rs.map Replacement.drift).sum := by
  rw [driftOn, List.filter_eq_self.mpr fun r hr => by simpa using h r hr]

theorem driftBefore_succ (h : rs[k]? = some r) :
    driftBefore rs (k + 1) = driftBefore rs k + r.drift := by
  simp [driftBefore, List.take_add_one, h]

-- A column that stops nowhere gets beyond every placeholder.
theorem passed_of_not_stopsAt (h : ∀ k r, ¬ StopsAt rs column k r) (i : Nat) :
    ∀ r, rs[i]? = some r →
      (r.span.start.column.toNat + r.length.toNat : Int) < column.toNat + driftBefore rs i := by
  induction i using Nat.strongRecOn with
  | ind i ih =>
    intro r hget
    by_contra hle
    exact h i r ⟨hget, by omega, ih⟩

-- The drifts add up as long as the column gets beyond the placeholders.
theorem toNat_correctColumn_take (hrange : InRange line column rs)
    (hpassed : ∀ i < k, ∀ r, (onLine line rs)[i]? = some r →
      (r.span.start.column.toNat + r.length.toNat : Int) <
        column.toNat + driftBefore (onLine line rs) i) :
    (correctColumn ((onLine line rs).take k) line column).toNat =
      column.toNat + driftBefore (onLine line rs) k := by
  have hlines : ∀ r ∈ (onLine line rs).take k, r.span.start.line = line := fun r hr =>
    line_of_mem_onLine (List.mem_of_mem_take hr)
  have hpasses : Passes line column ((onLine line rs).take k) := by
    intro first r rest hsplit _
    have hlength : first.length < k := by
      have hle := List.length_take_le k (onLine line rs)
      rw [hsplit, List.length_append, List.length_cons] at hle
      omega
    have hon : onLine line rs = first ++ r :: (rest ++ (onLine line rs).drop k) := by
      have htake := List.take_append_drop k (onLine line rs)
      rw [hsplit] at htake
      simpa using htake.symm
    have hget : (onLine line rs)[first.length]? = some r := by
      rw [hon]
      simp
    have hfirst : driftOn line first = driftBefore (onLine line rs) first.length := by
      rw [driftOn_eq_sum fun r hr => hlines r (by simp [hsplit, hr]), driftBefore, hon]
      simp
    have hbeyond := hpassed first.length hlength r hget
    have hnext := hrange.columns (first.length + 1) (by rw [hon]; simp)
    have hend := r.toNat_placeholderEnd
    rw [driftBefore_succ hget] at hnext
    simp only [maxColumn] at hnext hend
    omega
  rw [toNat_correctColumn_of_passes hpasses, driftOn_eq_sum hlines, driftBefore]

-- Each span of the line ends before all later ones start.
theorem Apart.pairwise (h : Apart line rs) :
    (onLine line rs).Pairwise fun a b =>
      a.span.stop.column.toNat < b.span.start.column.toNat := by
  have hordered := h.ordered
  have hchain := h.disjoint
  generalize onLine line rs = on at hordered hchain
  induction on with
  | nil => exact .nil
  | cons a on ih =>
    cases on with
    | nil => exact .cons (by simp) .nil
    | cons b on =>
      obtain ⟨hab, hchain⟩ := List.isChain_cons_cons.mp hchain
      have hb := hordered b (by simp)
      have htail := ih (fun r hr => hordered r (List.mem_cons_of_mem a hr)) hchain
      refine .cons ?_ htail
      intro c hc
      rcases List.mem_cons.mp hc with rfl | hc
      · exact hab
      · have hbc := (List.pairwise_cons.mp htail).1 c hc
        omega

-- In front of the placeholder and inside it a column settles: whatever follows further right on
-- the line leaves it alone.
theorem correctColumn_cons_settled {later : Replacements} (hline : line = r.span.start.line)
    (hsingle : r.span.singleLine = true)
    (hordered : r.span.start.column.toNat ≤ r.span.stop.column.toNat)
    (hlt : column.toNat < r.placeholderEnd.toNat)
    (hlater : ∀ r' ∈ later, r.span.stop.column.toNat < r'.span.start.column.toNat) :
    correctColumn (r :: later) line column = r.correctColumn line column := by
  have hle := Replacement.toNat_correctColumn_le_stop hline hsingle hordered hlt
  rw [correctColumn_cons]
  apply correctColumn_of_fixed
  intro r' hr'
  have hnext := hlater r' hr'
  exact Replacement.correctColumn_of_lt (by omega) line

-- The same from the start of the line on, the column having come to a placeholder.
theorem StopsAt.correctColumn_settled (h : StopsAt (onLine line rs) column k r)
    (hapart : Apart line rs) (hrange : InRange line column rs)
    (hoff : column.toNat + driftBefore (onLine line rs) k ≠
      r.span.start.column.toNat + r.length.toNat)
    {later : Replacements}
    (hlater : ∀ r' ∈ later, r.span.stop.column.toNat < r'.span.start.column.toNat) :
    correctColumn ((onLine line rs).take k ++ r :: later) line column =
      r.correctColumn line (correctColumn ((onLine line rs).take k) line column) := by
  have hmem : r ∈ onLine line rs := List.mem_of_getElem? h.get
  have hcolumn := toNat_correctColumn_take hrange h.passed
  have hreached := h.reached
  have hfits := hrange.ends r hmem
  have hend := r.toNat_placeholderEnd
  rw [correctColumn_append]
  exact correctColumn_cons_settled (line_of_mem_onLine hmem).symm (hapart.singleLine r hmem)
    (hapart.ordered r hmem) (by omega) hlater

theorem eq_append_of_getElem? (h : rs[k]? = some r) : rs = rs.take k ++ r :: rs.drop (k + 1) := by
  obtain ⟨hk, hget⟩ := List.getElem?_eq_some_iff.mp h
  rw [← hget, List.getElem_cons_drop, List.take_append_drop]

theorem Apart.stop_lt_of_mem_drop (h : Apart line rs) (hget : (onLine line rs)[k]? = some r) :
    ∀ r' ∈ (onLine line rs).drop (k + 1),
      r.span.stop.column.toNat < r'.span.start.column.toNat := by
  have hpairs := h.pairwise
  rw [eq_append_of_getElem? hget] at hpairs
  exact (List.pairwise_cons.mp (List.pairwise_append.mp hpairs).2.1).1

-- What a column becomes, in terms of the replacements of its line. It drifts past all of them, or
-- it comes to a first placeholder that it does not get beyond, and then its place there decides:
-- in front of the placeholder it stays, inside it is pinned, and in both cases it has come to rest.
-- At the end of the placeholder it goes on to the replacements that follow.
theorem correctColumn_closed_form (rs : Replacements) (line column : UInt32)
    (hapart : Apart line rs) (hrange : InRange line column rs) :
    ((∀ k r, ¬ StopsAt (onLine line rs) column k r) →
      (rs.correctColumn line column).toNat =
        column.toNat + driftBefore (onLine line rs) (onLine line rs).length) ∧
    ∀ k r, StopsAt (onLine line rs) column k r →
      (column.toNat + driftBefore (onLine line rs) k < r.span.start.column.toNat →
        (rs.correctColumn line column).toNat =
          column.toNat + driftBefore (onLine line rs) k) ∧
      (r.span.start.column.toNat ≤ column.toNat + driftBefore (onLine line rs) k →
        column.toNat + driftBefore (onLine line rs) k <
          r.span.start.column.toNat + r.length.toNat →
        (rs.correctColumn line column).toNat = r.span.stop.column.toNat - 1) ∧
      (column.toNat + driftBefore (onLine line rs) k ≠
          r.span.start.column.toNat + r.length.toNat →
        ∀ first : Replacements, first <+: rs → k < (onLine line first).length →
          first.correctColumn line column = rs.correctColumn line column) ∧
      (column.toNat + driftBefore (onLine line rs) k =
          r.span.start.column.toNat + r.length.toNat →
        ∃ next : UInt32, next.toNat = r.span.start.column.toNat + r.length.toNat ∧
          rs.correctColumn line column =
            correctColumn ((onLine line rs).drop (k + 1)) line next) := by
  refine ⟨?_, ?_⟩
  · intro hpassed
    have hall := toNat_correctColumn_take (k := (onLine line rs).length) hrange
      fun i _ => passed_of_not_stopsAt hpassed i
    rwa [List.take_length, correctColumn_onLine] at hall
  · intro k r h
    have hmem : r ∈ onLine line rs := List.mem_of_getElem? h.get
    have hline := (line_of_mem_onLine hmem).symm
    have hcolumn := toNat_correctColumn_take hrange h.passed
    have hfits := hrange.ends r hmem
    have hend := r.toNat_placeholderEnd
    have hlater := hapart.stop_lt_of_mem_drop h.get
    have hrs : rs.correctColumn line column =
        correctColumn ((onLine line rs).take k ++ r :: (onLine line rs).drop (k + 1)) line
          column := by
      rw [← eq_append_of_getElem? h.get, correctColumn_onLine]
    refine ⟨?_, ?_, ?_, ?_⟩
    · intro hbefore
      rw [hrs, h.correctColumn_settled hapart hrange (by omega) hlater,
        Replacement.correctColumn_of_lt (by omega), hcolumn]
    · intro hstart hinside
      rw [hrs, h.correctColumn_settled hapart hrange (by omega) hlater,
        Replacement.correctColumn_inside hline (by omega) (by omega),
        Replacement.toNat_pinned (hapart.singleLine r hmem)]
    · intro hoff first hfirst hk
      obtain ⟨rest, hrest⟩ : onLine line first <+: onLine line rs := hfirst.filter _
      have htake : (onLine line rs).take k = (onLine line first).take k := by
        rw [← hrest, List.take_append_of_le_length (by omega)]
      have hget : (onLine line first)[k]? = some r := by
        rw [← List.getElem?_append_left hk, hrest, h.get]
      have hlater' : ∀ r' ∈ (onLine line first).drop (k + 1),
          r.span.stop.column.toNat < r'.span.start.column.toNat := by
        intro r' hr'
        apply hlater
        rw [← hrest, List.drop_append_of_le_length (by omega)]
        exact List.mem_append_left _ hr'
      rw [hrs, h.correctColumn_settled hapart hrange hoff hlater,
        ← h.correctColumn_settled hapart hrange hoff hlater', htake,
        ← eq_append_of_getElem? hget, correctColumn_onLine]
    · intro hat
      refine ⟨correctColumn ((onLine line rs).take k) line column, by omega, ?_⟩
      rw [hrs, correctColumn_append, correctColumn_cons,
        Replacement.correctColumn_at_end (by omega)]

-- Three placeholders on the first line, one shorter than its span and one longer, and a
-- replacement of another line among them.
def crowded : Replacements := [
  ⟨⟨⟨1, 10⟩, ⟨1, 20⟩⟩, 4⟩, ⟨⟨⟨2, 0⟩, ⟨2, 3⟩⟩, 7⟩, ⟨⟨⟨1, 30⟩, ⟨1, 33⟩⟩, 9⟩, ⟨⟨⟨1, 40⟩, ⟨1, 41⟩⟩, 1⟩]

-- Column 25 drifts by seven columns, comes to lie inside the second placeholder and is pinned.
-- Column 50 drifts by seven columns, back by five and on by one.
theorem correctColumn_closed_form_crowded :
    Apart 1 crowded ∧ InRange 1 25 crowded ∧ InRange 1 50 crowded ∧
    StopsAt (onLine 1 crowded) 25 1 ⟨⟨⟨1, 30⟩, ⟨1, 33⟩⟩, 9⟩ ∧
    (crowded.correctColumn 1 25).toNat = 32 ∧ (crowded.correctColumn 1 50).toNat = 53 := by
  have hapart : Apart 1 crowded := ⟨by decide, by decide, by decide⟩
  have hrange : InRange 1 25 crowded := ⟨by decide, by decide⟩
  have hrange' : InRange 1 50 crowded := ⟨by decide, by decide⟩
  have hstops : StopsAt (onLine 1 crowded) 25 1 ⟨⟨⟨1, 30⟩, ⟨1, 33⟩⟩, 9⟩ := by
    refine ⟨rfl, by decide, ?_⟩
    intro i hi r hget
    obtain rfl : i = 0 := by omega
    cases hget
    decide
  have hnowhere : ∀ k r, ¬ StopsAt (onLine 1 crowded) 50 k r := by
    intro k r h
    have hget := h.get
    have hreached := h.reached
    match k with
    | 0 | 1 | 2 =>
      cases hget
      exact absurd hreached (by decide)
    | k + 3 => cases hget
  obtain ⟨-, hstop⟩ := correctColumn_closed_form crowded 1 25 hapart hrange
  obtain ⟨hbeyond, -⟩ := correctColumn_closed_form crowded 1 50 hapart hrange'
  obtain ⟨-, hpinned, -⟩ := hstop 1 _ hstops
  have hfar := hbeyond hnowhere
  have hdrift : driftBefore (onLine 1 crowded) (onLine 1 crowded).length = 3 := by decide
  rw [hdrift] at hfar
  exact ⟨hapart, hrange, hrange', hstops, hpinned (by decide) (by decide), by exact_mod_cast hfar⟩

end Replacements

end EmbeddedStyles.Source
