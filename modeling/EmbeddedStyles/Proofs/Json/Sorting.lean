import EmbeddedStyles.Json.Basic
import Mathlib.Data.List.Nodup
import Mathlib.Data.List.Sort
import Mathlib.Data.String.Basic

namespace EmbeddedStyles.Json

variable {α β : Type}

-- Entries in the order of their keys, no key twice.
def Ordered (entries : List (String × α)) : Prop :=
  entries.Pairwise fun e e' => e.1 < e'.1

theorem mem_keys_insertEntry (key : String) (x : α) (entries : List (String × α)) (k : String) :
    k ∈ (insertEntry key x entries).map Prod.fst ↔ k = key ∨ k ∈ entries.map Prod.fst := by
  induction entries with
  | nil => simp [insertEntry]
  | cons e entries ih =>
    simp only [insertEntry]
    split
    · simp_all
    · split
      · simp
      · simp only [List.map_cons, List.mem_cons, ih]
        tauto

theorem Ordered.insertEntry {entries : List (String × α)} (h : Ordered entries) (key : String)
    (x : α) : Ordered (insertEntry key x entries) := by
  induction entries with
  | nil => exact List.pairwise_singleton _ _
  | cons e entries ih =>
    obtain ⟨hfirst, hrest⟩ := List.pairwise_cons.mp h
    simp only [Json.insertEntry]
    split
    next hkey =>
      refine List.pairwise_cons.mpr ⟨?_, hrest⟩
      simpa [hkey] using hfirst
    next hne =>
      split
      next hlt =>
        refine List.pairwise_cons.mpr ⟨?_, h⟩
        intro e' he'
        rcases List.mem_cons.mp he' with rfl | he'
        · exact hlt
        · exact hlt.trans (hfirst e' he')
      next hge =>
        refine List.pairwise_cons.mpr ⟨?_, ih hrest⟩
        intro e' he'
        rcases (mem_keys_insertEntry key x entries e'.1).mp (List.mem_map_of_mem he') with h | h
        · rw [h]
          exact lt_of_le_of_ne (not_lt.mp hge) (Ne.symm hne)
        · obtain ⟨e'', he'', hkey⟩ := List.mem_map.mp h
          exact hkey ▸ hfirst e'' he''

theorem ordered_orderEntries (entries : List (String × α)) : Ordered (orderEntries entries) := by
  have hfold (ordered : List (String × α)) (h : Ordered ordered) :
      Ordered (entries.foldl (fun ordered e => insertEntry e.1 e.2 ordered) ordered) := by
    induction entries generalizing ordered with
    | nil => exact h
    | cons e entries ih => exact ih _ (h.insertEntry e.1 e.2)
  exact hfold [] List.Pairwise.nil

theorem insertEntry_perm {key : String} {entries : List (String × α)}
    (h : key ∉ entries.map Prod.fst) (x : α) :
    (insertEntry key x entries).Perm ((key, x) :: entries) := by
  induction entries with
  | nil => rfl
  | cons e entries ih =>
    rw [List.map_cons, List.mem_cons, not_or] at h
    simp only [insertEntry, h.1, if_false]
    split
    · rfl
    · exact ((ih h.2).cons e).trans (List.Perm.swap (key, x) e entries)

-- The entries that were put in order before have other keys than those that follow.
theorem foldl_insertEntry_perm (entries ordered : List (String × α))
    (h : ((entries ++ ordered).map Prod.fst).Nodup) :
    (entries.foldl (fun ordered e => insertEntry e.1 e.2 ordered) ordered).Perm
      (entries ++ ordered) := by
  induction entries generalizing ordered with
  | nil => rfl
  | cons e entries ih =>
    rw [List.cons_append, List.map_cons, List.nodup_cons] at h
    have hfresh : e.1 ∉ ordered.map Prod.fst := by
      intro hmem
      exact h.1 (by simp only [List.map_append, List.mem_append, hmem, or_true])
    have hperm : (entries ++ insertEntry e.1 e.2 ordered).Perm (e :: (entries ++ ordered)) :=
      ((insertEntry_perm hfresh e.2).append_left entries).trans List.perm_middle
    have hnodup : ((entries ++ insertEntry e.1 e.2 ordered).map Prod.fst).Nodup :=
      (hperm.map Prod.fst).nodup_iff.mpr (List.nodup_cons.mpr h)
    exact (ih _ hnodup).trans hperm

theorem orderEntries_perm {entries : List (String × α)} (h : (entries.map Prod.fst).Nodup) :
    (orderEntries entries).Perm entries := by
  simpa [orderEntries] using foldl_insertEntry_perm entries [] (by simpa using h)

theorem Ordered.nodup {entries : List (String × α)} (h : Ordered entries) :
    (entries.map Prod.fst).Nodup := by
  rw [List.nodup_iff_pairwise_ne, List.pairwise_map]
  exact h.imp fun hlt => hlt.ne

theorem Ordered.eq_of_perm {entries entries' : List (String × α)} (h : Ordered entries)
    (h' : Ordered entries') (hperm : entries.Perm entries') : entries = entries' :=
  hperm.eq_of_pairwise (fun _ _ _ _ hlt hgt => absurd hgt hlt.not_gt) h h'

theorem orderEntries_of_ordered {entries : List (String × α)} (h : Ordered entries) :
    orderEntries entries = entries :=
  (ordered_orderEntries entries).eq_of_perm h (orderEntries_perm h.nodup)

section Documents

theorem insertEntry_map (f : α → β) (key : String) (x : α) (entries : List (String × α)) :
    insertEntry key (f x) (entries.map fun e => (e.1, f e.2)) =
      (insertEntry key x entries).map fun e => (e.1, f e.2) := by
  induction entries with
  | nil => rfl
  | cons e entries ih =>
    simp only [List.map_cons, insertEntry, ih]
    split
    · rfl
    · split <;> rfl

theorem orderEntries_map (f : α → β) (entries : List (String × α)) :
    orderEntries (entries.map fun e => (e.1, f e.2)) =
      (orderEntries entries).map fun e => (e.1, f e.2) := by
  have hfold (ordered : List (String × α)) :
      (entries.map fun e => (e.1, f e.2)).foldl (fun ordered e => insertEntry e.1 e.2 ordered)
        (ordered.map fun e => (e.1, f e.2)) =
      (entries.foldl (fun ordered e => insertEntry e.1 e.2 ordered) ordered).map
        fun e => (e.1, f e.2) := by
    induction entries generalizing ordered with
    | nil => rfl
    | cons e entries ih => simp only [List.map_cons, List.foldl_cons, insertEntry_map, ih]
  exact hfold []

theorem sortedItems_eq_map (items : List Json) : sortedItems items = items.map sorted := by
  induction items with
  | nil => rfl
  | cons item items ih => rw [sortedItems, ih, List.map_cons]

theorem sortedEntries_eq_map (entries : List (String × Json)) :
    sortedEntries entries = entries.map fun e => (e.1, e.2.sorted) := by
  induction entries with
  | nil => rfl
  | cons e entries ih => rw [sortedEntries, ih, List.map_cons]

theorem keys_sortedEntries (entries : List (String × Json)) :
    (sortedEntries entries).map Prod.fst = entries.map Prod.fst := by
  rw [sortedEntries_eq_map, List.map_map]
  rfl

theorem sortedEntries_orderEntries (entries : List (String × Json)) :
    sortedEntries (orderEntries entries) = orderEntries (sortedEntries entries) := by
  rw [sortedEntries_eq_map, sortedEntries_eq_map, orderEntries_map]

mutual

theorem sorted_sorted : ∀ json : Json, json.sorted.sorted = json.sorted
  | .null => rfl
  | .bool _ => rfl
  | .number _ => rfl
  | .string _ => rfl
  | .array items => by rw [sorted, sorted, sortedItems_sortedItems items]
  | .object entries => by
    rw [sorted, sorted, sortedEntries_orderEntries, sortedEntries_sortedEntries entries,
      orderEntries_of_ordered (ordered_orderEntries _)]

theorem sortedItems_sortedItems : ∀ items, sortedItems (sortedItems items) = sortedItems items
  | [] => rfl
  | item :: items => by
    rw [sortedItems, sortedItems, sorted_sorted item, sortedItems_sortedItems items]

theorem sortedEntries_sortedEntries :
    ∀ entries, sortedEntries (sortedEntries entries) = sortedEntries entries
  | [] => rfl
  | (_, x) :: entries => by
    rw [sortedEntries, sortedEntries, sorted_sorted x, sortedEntries_sortedEntries entries]

end

mutual

-- No object of the document repeats a key.
def Distinct : Json → Prop
  | .array items => DistinctItems items
  | .object entries => (entries.map Prod.fst).Nodup ∧ DistinctEntries entries
  | _ => True

def DistinctItems : List Json → Prop
  | [] => True
  | item :: items => item.Distinct ∧ DistinctItems items

def DistinctEntries : List (String × Json) → Prop
  | [] => True
  | (_, x) :: entries => x.Distinct ∧ DistinctEntries entries

end

end Documents

end EmbeddedStyles.Json
