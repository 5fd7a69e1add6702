import Mathlib.Data.List.Basic
import Mathlib.Data.List.TakeWhile

namespace EmbeddedStyles.Text

variable {sep : Char}

theorem notMem_of_mem_splitOn {cs part : List Char} (h : part ∈ cs.splitOn sep) : sep ∉ part := by
  induction cs generalizing part with
  | nil => simp_all
  | cons c cs ih =>
    rw [List.splitOn_cons_eq_if_modifyHead] at h
    split at h
    · rcases List.mem_cons.mp h with rfl | h
      · simp
      · exact ih h
    next hc =>
      obtain ⟨first, parts, hs⟩ := List.exists_cons_of_ne_nil (List.splitOn_ne_nil sep cs)
      rw [hs] at h ih
      rcases List.mem_cons.mp h with rfl | h
      · have hfirst : sep ∉ first := ih (by simp)
        have hne : sep ≠ c := fun heq => hc (by simp [heq])
        simp [hne, hfirst]
      · exact ih (List.mem_cons_of_mem _ h)

theorem length_splitOn (sep : Char) (cs : List Char) :
    (cs.splitOn sep).length = cs.count sep + 1 := by
  induction cs with
  | nil => simp
  | cons c cs ih =>
    rw [List.splitOn_cons_eq_if_modifyHead, List.count_cons]
    split
    · rw [List.length_cons, ih]
    · rw [List.length_modifyHead, ih, Nat.add_zero]

-- What stands before the first separator belongs to the first part.
theorem exists_first_part {as : List Char} (h : sep ∉ as) (bs : List Char) :
    ∃ rest parts, (as ++ bs).splitOn sep = (as ++ rest) :: parts := by
  induction as with
  | nil =>
    obtain ⟨first, parts, hs⟩ := List.exists_cons_of_ne_nil (List.splitOn_ne_nil sep bs)
    exact ⟨first, parts, by simpa using hs⟩
  | cons a as ih =>
    obtain ⟨ha, has⟩ := not_or.mp fun hm => h (List.mem_cons.mpr hm)
    obtain ⟨rest, parts, hsplit⟩ := ih has
    exact ⟨rest, parts, by simp [List.splitOn_cons_eq_if_modifyHead, Ne.symm ha, hsplit]⟩

-- What follows a join follows its last part.
theorem intercalate_concat_append (parts : List (List Char)) (last cs : List Char) :
    [sep].intercalate (parts ++ [last]) ++ cs = [sep].intercalate (parts ++ [last ++ cs]) := by
  induction parts with
  | nil => simp
  | cons part parts ih =>
    have hne (final : List Char) : parts ++ [final] ≠ [] := by simp
    rw [List.cons_append, List.cons_append, List.intercalate_cons_of_ne_nil (hne _),
      List.intercalate_cons_of_ne_nil (hne _), List.append_assoc, ih]

-- A join starts with its first part.
theorem head?_intercalate {part : List Char} (hne : part ≠ []) (parts : List (List Char)) :
    ([sep].intercalate (part :: parts)).head? = part.head? := by
  cases parts with
  | nil => rw [List.intercalate_singleton]
  | cons next parts =>
    rw [List.intercalate_cons_cons, List.append_assoc, List.head?_append_of_ne_nil _ hne]

-- A run that cannot go on is as long as it can be.
theorem eq_append_run_iff {p : Char → Bool} {cs run rest : List Char}
    (hrest : ∀ c ∈ rest.head?, p c = false) :
    (cs = run ++ rest ∧ ∀ c ∈ run, p c = true) ↔
      cs.takeWhile p = run ∧ cs.dropWhile p = rest := by
  constructor
  · rintro ⟨rfl, hrun⟩
    rw [List.takeWhile_append_of_pos hrun, List.dropWhile_append_of_pos hrun]
    cases rest with
    | nil => simp
    | cons c rest =>
      have hc : p c = false := hrest c rfl
      simp [hc]
  · rintro ⟨rfl, rfl⟩
    exact ⟨List.takeWhile_append_dropWhile.symm, fun c hc => List.mem_takeWhile_imp hc⟩

end EmbeddedStyles.Text
