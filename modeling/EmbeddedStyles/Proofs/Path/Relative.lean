import EmbeddedStyles.Proofs.Path.Components
import Mathlib.Data.List.DropRight

namespace EmbeddedStyles.Path

open Text

theorem inner_reverse (segments : List (List Char)) :
    inner segments.reverse = (inner segments).reverse := by
  simp [inner, List.filter_reverse]

theorem inner_dropWhile (segments : List (List Char)) :
    inner (segments.dropWhile isBlankSegment) = inner segments := by
  induction segments with
  | nil => rfl
  | cons segment segments ih =>
    by_cases hb : isBlankSegment segment = true
    · rw [List.dropWhile_cons_of_pos hb, ih, inner_cons_blank hb]
    · rw [List.dropWhile_cons_of_neg hb]

theorem inner_dropBlankEnd (segments : List (List Char)) :
    inner (dropBlankEnd segments) = inner segments := by
  rw [dropBlankEnd, inner_reverse, inner_dropWhile, inner_reverse, List.reverse_reverse]

theorem prefix_dropBlankEnd (segments : List (List Char)) : dropBlankEnd segments <+: segments :=
  List.rdropWhile_prefix isBlankSegment segments

theorem inner_trimSegments (segments : List (List Char)) :
    inner (trimSegments segments) = inner segments := by
  rw [trimSegments, inner_dropBlankEnd, inner_dropWhile]

theorem sublist_trimSegments (segments : List (List Char)) :
    (trimSegments segments).Sublist segments :=
  (prefix_dropBlankEnd _).sublist.trans (List.dropWhile_sublist _)

-- What trimming leaves of segments with a component among them starts and ends with one.
theorem exists_trimSegments {segments : List (List Char)}
    (hfree : ∀ segment ∈ segments, separator ∉ segment) (hne : inner segments ≠ []) :
    ∃ front last, Trimmed front last ∧ trimSegments segments = front ++ [last] := by
  have htrim : trimSegments segments ≠ [] := by
    intro h
    rw [← inner_trimSegments, h] at hne
    exact hne rfl
  have hlast : ¬ isBlankSegment ((trimSegments segments).getLast htrim) = true :=
    List.rdropWhile_last_not isBlankSegment _ htrim
  have hsplit := List.dropLast_append_getLast htrim
  refine ⟨(trimSegments segments).dropLast, (trimSegments segments).getLast htrim,
    ⟨?_, ?_, by simpa using hlast⟩, hsplit.symm⟩
  · rw [hsplit]
    exact fun segment hs => hfree segment ((sublist_trimSegments segments).subset hs)
  · -- The first segment kept is the first one that was not dropped at the front.
    intro segment hs
    have hkept := List.dropLast_prefix (trimSegments segments)
    obtain ⟨rest, hrest⟩ := hkept.trans (prefix_dropBlankEnd (segments.dropWhile isBlankSegment))
    have hfirst : (trimSegments segments).dropLast.head? = some segment := hs
    have hhead : (segments.dropWhile isBlankSegment).head? = some segment := by
      rw [← hrest, List.head?_append, hfirst]
      rfl
    simpa [hhead] using List.head?_dropWhile_not isBlankSegment segments

-- Components that are left are spelled by a trimmed path.
theorem exists_dropFirst {n : Nat} {cs : List Char} (hne : (componentsOf cs).drop (n + 1) ≠ []) :
    ∃ front last, Trimmed front last ∧ dropFirst (n + 1) cs = spelled front last ∧
      inner (front ++ [last]) = (componentsOf cs).drop (n + 1) := by
  have hsegments : ∃ kept : List (List Char), kept.Sublist (segments cs) ∧
      dropFirst (n + 1) cs = [separator].intercalate (trimSegments kept) ∧
      inner kept = (componentsOf cs).drop (n + 1) := by
    cases hs : segments cs with
    | nil => exact absurd hs (segments_ne_nil cs)
    | cons first rest =>
      simp only [dropFirst, hs, componentsOf, componentsOfSegments]
      by_cases hroot : (decide (first = []) && !rest.isEmpty) = true
      · refine ⟨dropComponents n rest, (sublist_dropComponents n rest).cons _, ?_, ?_⟩
        · simp [hroot]
        · rw [if_pos hroot, List.drop_succ_cons, inner_dropComponents]
      · by_cases hdot : first = ['.']
        · refine ⟨dropComponents n rest, (sublist_dropComponents n rest).cons _, ?_, ?_⟩
          · simp [hdot]
          · rw [if_neg hroot, if_pos hdot, List.drop_succ_cons, inner_dropComponents]
        · refine ⟨dropComponents (n + 1) (first :: rest), sublist_dropComponents _ _, ?_, ?_⟩
          · simp [hroot, hdot]
          · rw [if_neg hroot, if_neg hdot, inner_dropComponents]
  obtain ⟨kept, hsub, hdrop, hinner⟩ := hsegments
  obtain ⟨front, last, htrimmed, htrim⟩ := exists_trimSegments
    (fun segment hm => notMem_of_mem_splitOn (hsub.subset hm)) (hinner ▸ hne)
  exact ⟨front, last, htrimmed, by rw [hdrop, htrim, spelled],
    by rw [← htrim, inner_trimSegments, hinner]⟩

-- A path that lies below another, by their components.
def Below (p base : Path) : Prop :=
  ∃ c rest, p.components = base.components ++ c :: rest

theorem components_of_isAbsolute {p : Path} (h : p.isAbsolute = true) :
    ∃ rest, p.components = .root :: rest := by
  cases hcs : p.text.toList with
  | nil => simp [isAbsolute, hcs] at h
  | cons c cs =>
    obtain rfl : c = separator := by simpa [isAbsolute, hcs] using h
    have hs : segments (separator :: cs) = [] :: segments cs := segments_append [] cs
    refine ⟨inner (segments cs), ?_⟩
    rw [components, hcs, componentsOf, hs, componentsOfSegments_root (segments_ne_nil cs)]

theorem exists_relativeTo? {p base : Path} (hbase : base.components ≠ []) {cs : List Component}
    (hcs : cs ≠ []) (hp : p.components = base.components ++ cs) :
    ∃ front last, Trimmed front last ∧
      p.relativeTo? base = some ⟨String.ofList (spelled front last)⟩ ∧
      inner (front ++ [last]) = cs := by
  obtain ⟨n, hn⟩ := Nat.exists_eq_add_one_of_ne_zero (mt List.length_eq_zero_iff.mp hbase)
  have hleft : (componentsOf p.text.toList).drop (n + 1) = cs := by
    rw [← components, hp, ← hn, List.drop_left]
  obtain ⟨front, last, htrimmed, hdrop, hinner⟩ := exists_dropFirst (hleft ▸ hcs)
  refine ⟨front, last, htrimmed, ?_, hinner.trans hleft⟩
  have hprefix : base.components.isPrefixOf p.components = true := by
    rw [List.isPrefixOf_iff_prefix, hp]
    exact List.prefix_append _ _
  rw [relativeTo?, if_pos hprefix, hn, hdrop]

theorem Below.exists_relativeTo {p base : Path} (h : p.Below base) (habs : base.isAbsolute = true) :
    ∃ front last, Trimmed front last ∧
      p.relativeTo base = ⟨String.ofList (spelled front last)⟩ ∧
      p.components = base.components ++ inner (front ++ [last]) := by
  obtain ⟨c, rest, hp⟩ := h
  obtain ⟨others, hroot⟩ := components_of_isAbsolute habs
  obtain ⟨front, last, htrimmed, hrel, hinner⟩ :=
    exists_relativeTo? (by simp [hroot]) (List.cons_ne_nil c rest) hp
  exact ⟨front, last, htrimmed, by rw [relativeTo, hrel]; rfl, by rw [hp, hinner]⟩

theorem Trimmed.components_join {front : List (List Char)} {last : List Char}
    (h : Trimmed front last) (base : Path) :
    (base.join ⟨String.ofList (spelled front last)⟩).components =
      base.components ++ inner (front ++ [last]) := by
  rw [components, join, String.toList_ofList, String.toList_ofList, h.componentsOf_joinChars]
  rfl

end EmbeddedStyles.Path
