import EmbeddedStyles.Path
import EmbeddedStyles.Proofs.Text.Split

namespace EmbeddedStyles.Path

open Text

theorem segments_ne_nil (cs : List Char) : segments cs ≠ [] :=
  List.splitOn_ne_nil separator cs

theorem segments_append (as bs : List Char) :
    segments (as ++ separator :: bs) = segments as ++ segments bs :=
  List.splitOn_append_cons_self as bs

theorem intercalate_segments (cs : List Char) : [separator].intercalate (segments cs) = cs :=
  List.intercalate_splitOn separator

-- Only the empty text has an empty segment and no other.
theorem segments_ne_singleton_nil {cs : List Char} (h : cs ≠ []) : segments cs ≠ [[]] := by
  intro hs
  have hjoin := intercalate_segments cs
  rw [hs, List.intercalate_singleton] at hjoin
  exact h hjoin.symm

@[simp] theorem inner_append (as bs : List (List Char)) :
    inner (as ++ bs) = inner as ++ inner bs := by
  simp [inner]

@[simp] theorem inner_nil : inner [] = [] := rfl

theorem inner_cons_blank {segment : List Char} (h : isBlankSegment segment = true)
    (segments : List (List Char)) : inner (segment :: segments) = inner segments := by
  simp [inner, h]

theorem inner_cons {segment : List Char} (h : isBlankSegment segment = false)
    (segments : List (List Char)) :
    inner (segment :: segments) = ofSegment segment :: inner segments := by
  simp [inner, h]

theorem inner_singleton {segment : List Char} (h : isBlankSegment segment = false) :
    inner [segment] = [ofSegment segment] :=
  inner_cons h []

-- Segments after the first ones add their components. Only a lone empty segment would mean
-- something else in front of others, the root.
theorem componentsOfSegments_append {as : List (List Char)} (hne : as ≠ []) (hempty : as ≠ [[]])
    (bs : List (List Char)) :
    componentsOfSegments (as ++ bs) = componentsOfSegments as ++ inner bs := by
  cases as with
  | nil => exact absurd rfl hne
  | cons first rest =>
    by_cases hroot : first = []
    · have hrest : rest ≠ [] := fun h => hempty (by rw [hroot, h])
      simp [componentsOfSegments, hroot, hrest]
    · by_cases hdot : first = ['.']
      · simp [componentsOfSegments, hdot]
      · simp only [componentsOfSegments, List.cons_append, hroot, hdot, decide_false,
          Bool.false_and, Bool.false_eq_true, if_false]
        rw [← List.cons_append, inner_append]

theorem componentsOfSegments_root {bs : List (List Char)} (h : bs ≠ []) :
    componentsOfSegments ([] :: bs) = .root :: inner bs := by
  simp [componentsOfSegments, h]

-- Joining a path that is not absolute appends the components of its segments.
theorem componentsOf_joinChars {base other : List Char} (hbase : base ≠ [])
    (hother : other.head? ≠ some separator) :
    componentsOf (joinChars base other) = componentsOf base ++ inner (segments other) := by
  by_cases hlast : base.getLast? = some separator
  · obtain ⟨front, rfl⟩ := List.getLast?_eq_some_iff.mp hlast
    have hs : segments (front ++ [separator]) = segments front ++ [[]] := segments_append front []
    have hj : joinChars (front ++ [separator]) other = front ++ separator :: other := by
      simp [joinChars, hother]
    rw [hj, componentsOf, componentsOf, hs, segments_append]
    by_cases hempty : segments front = [[]]
    · rw [hempty, List.singleton_append, componentsOfSegments_root (segments_ne_nil other)]
      rfl
    · rw [componentsOfSegments_append (segments_ne_nil front) hempty,
        componentsOfSegments_append (segments_ne_nil front) hempty,
        inner_cons_blank rfl, inner_nil, List.append_nil]
  · have hj : joinChars base other = base ++ separator :: other := by
      simp [joinChars, hother, hbase, hlast]
    rw [hj, componentsOf, componentsOf, segments_append,
      componentsOfSegments_append (segments_ne_nil base) (segments_ne_singleton_nil hbase)]

-- A spelling by segments that starts and ends with a component.
structure Trimmed (front : List (List Char)) (last : List Char) : Prop where
  free : ∀ segment ∈ front ++ [last], separator ∉ segment
  first : ∀ segment ∈ front.head?, isBlankSegment segment = false
  last : isBlankSegment last = false

def spelled (front : List (List Char)) (last : List Char) : List Char :=
  [separator].intercalate (front ++ [last])

namespace Trimmed

variable {front : List (List Char)} {last : List Char}

theorem segments_spelled (h : Trimmed front last) :
    segments (spelled front last) = front ++ [last] :=
  List.splitOn_intercalate separator h.free (by simp)

theorem exists_first (h : Trimmed front last) :
    ∃ first rest, front ++ [last] = first :: rest ∧ isBlankSegment first = false ∧
      separator ∉ first := by
  cases front with
  | nil => exact ⟨last, [], rfl, h.last, h.free last (by simp)⟩
  | cons first rest => exact ⟨first, rest ++ [last], rfl, h.first first rfl, h.free first (by simp)⟩

theorem head?_spelled (h : Trimmed front last) :
    (spelled front last).head? ≠ some separator := by
  obtain ⟨first, rest, hs, hblank, hfree⟩ := h.exists_first
  have hne : first ≠ [] := by
    rintro rfl
    simp [isBlankSegment] at hblank
  rw [spelled, hs, head?_intercalate hne]
  exact fun hh => hfree (List.mem_of_mem_head? hh)

theorem componentsOf_spelled (h : Trimmed front last) :
    componentsOf (spelled front last) = inner (front ++ [last]) := by
  obtain ⟨first, rest, hs, hblank, -⟩ := h.exists_first
  rw [componentsOf, h.segments_spelled, hs]
  simp only [isBlankSegment, Bool.or_eq_false_iff, decide_eq_false_iff_not] at hblank
  simp [componentsOfSegments, hblank.1, hblank.2]

-- A trimmed path can be joined to any other, the empty one included.
theorem componentsOf_joinChars (h : Trimmed front last) (base : List Char) :
    componentsOf (joinChars base (spelled front last)) =
      componentsOf base ++ inner (front ++ [last]) := by
  by_cases hbase : base = []
  · subst hbase
    have hj : joinChars [] (spelled front last) = spelled front last := by
      simp [joinChars]
    rw [hj, h.componentsOf_spelled]
    rfl
  · rw [Path.componentsOf_joinChars hbase h.head?_spelled, h.segments_spelled]

end Trimmed

theorem inner_dropComponents (n : Nat) (segments : List (List Char)) :
    inner (dropComponents n segments) = (inner segments).drop n := by
  induction segments generalizing n with
  | nil => cases n <;> simp [dropComponents]
  | cons segment segments ih =>
    cases n with
    | zero => simp [dropComponents]
    | succ n =>
      by_cases hb : isBlankSegment segment = true
      · rw [dropComponents, if_pos hb, ih, inner_cons_blank hb]
      · have hb' : isBlankSegment segment = false := by simpa using hb
        rw [dropComponents, if_neg hb, ih, inner_cons hb', List.drop_succ_cons]

theorem sublist_dropComponents (n : Nat) (segments : List (List Char)) :
    (dropComponents n segments).Sublist segments := by
  induction segments generalizing n with
  | nil => cases n <;> simp [dropComponents]
  | cons segment segments ih =>
    cases n with
    | zero => simp [dropComponents]
    | succ n =>
      rw [dropComponents]
      split
      · exact (ih (n + 1)).cons _
      · exact (ih n).cons _

end EmbeddedStyles.Path
