import EmbeddedStyles.Proofs.Json.Forms
import EmbeddedStyles.Proofs.Json.RoundTrip
import EmbeddedStyles.Proofs.Json.Sorting

namespace EmbeddedStyles.Json

-- Proves something of all documents from their parts.
@[elab_as_elim]
theorem inductionOnParts {motive : Json → Prop} (null : motive .null)
    (bool : ∀ b, motive (.bool b)) (number : ∀ n, motive (.number n))
    (string : ∀ s, motive (.string s))
    (array : ∀ items, (∀ x ∈ items, motive x) → motive (.array items))
    (object : ∀ entries, (∀ e ∈ entries, motive e.2) → motive (.object entries)) (json : Json) :
    motive json := by
  refine @Json.rec motive (fun items => ∀ x ∈ items, motive x)
    (fun entries => ∀ e ∈ entries, motive e.2) (fun e => motive e.2)
    null bool number string array object ?_ ?_ ?_ ?_ ?_ json
  · simp
  · intro x items hx hitems
    exact List.forall_mem_cons.mpr ⟨hx, hitems⟩
  · simp
  · intro e entries he hentries
    exact List.forall_mem_cons.mpr ⟨he, hentries⟩
  · intro _ x hx
    exact hx

section Measures

mutual

-- How many containers stand inside each other.
def depth : Json → Nat
  | .array items => depthOfItems items + 1
  | .object entries => depthOfEntries entries + 1
  | _ => 0

def depthOfItems : List Json → Nat
  | [] => 0
  | item :: items => max item.depth (depthOfItems items)

def depthOfEntries : List (String × Json) → Nat
  | [] => 0
  | (_, value) :: entries => max value.depth (depthOfEntries entries)

end

mutual

-- All numbers of a document.
def numbers : Json → List Number
  | .number n => [n]
  | .array items => numbersOfItems items
  | .object entries => numbersOfEntries entries
  | _ => []

def numbersOfItems : List Json → List Number
  | [] => []
  | item :: items => item.numbers ++ numbersOfItems items

def numbersOfEntries : List (String × Json) → List Number
  | [] => []
  | (_, value) :: entries => value.numbers ++ numbersOfEntries entries

end

variable {items : List Json} {entries : List (String × Json)} {n : Number} {d : Nat}

theorem depth_array_le_iff : (Json.array items).depth ≤ d + 1 ↔ ∀ x ∈ items, x.depth ≤ d := by
  rw [depth, Nat.add_le_add_iff_right]
  induction items with
  | nil => simp [depthOfItems]
  | cons x items ih => rw [depthOfItems, Nat.max_le, ih, List.forall_mem_cons]

theorem depth_object_le_iff :
    (Json.object entries).depth ≤ d + 1 ↔ ∀ e ∈ entries, e.2.depth ≤ d := by
  rw [depth, Nat.add_le_add_iff_right]
  induction entries with
  | nil => simp [depthOfEntries]
  | cons e entries ih => rw [depthOfEntries, Nat.max_le, ih, List.forall_mem_cons]

theorem mem_numbers_array : n ∈ (Json.array items).numbers ↔ ∃ x ∈ items, n ∈ x.numbers := by
  rw [numbers]
  induction items with
  | nil => simp [numbersOfItems]
  | cons x items ih => simp [numbersOfItems, ih]

theorem mem_numbers_object :
    n ∈ (Json.object entries).numbers ↔ ∃ e ∈ entries, n ∈ e.2.numbers := by
  rw [numbers]
  induction entries with
  | nil => simp [numbersOfEntries]
  | cons e entries ih => simp [numbersOfEntries, ih]

theorem mem_of_mem_insertEntry {α : Type} {key : String} {x : α} {es : List (String × α)}
    {e : String × α} (h : e ∈ insertEntry key x es) : e = (key, x) ∨ e ∈ es := by
  induction es with
  | nil => simpa [insertEntry] using h
  | cons e' es ih =>
    simp only [insertEntry] at h
    split at h
    · grind
    · split at h <;> grind

theorem mem_of_mem_orderEntries {α : Type} {es : List (String × α)} {e : String × α}
    (h : e ∈ orderEntries es) : e ∈ es := by
  have hfold (ordered : List (String × α)) :
      e ∈ es.foldl (fun ordered e => insertEntry e.1 e.2 ordered) ordered →
        e ∈ es ∨ e ∈ ordered := by
    clear h
    induction es generalizing ordered with
    | nil => exact .inr
    | cons e' es ih =>
      intro h
      rcases ih _ h with h | h
      · exact .inl (List.mem_cons_of_mem e' h)
      · rcases mem_of_mem_insertEntry h with rfl | h
        · exact .inl List.mem_cons_self
        · exact .inr h
  simpa using hfold [] h

-- The values of an ordered object are those of the object, ordered.
theorem exists_of_mem_sorted {e : String × Json} (h : e ∈ orderEntries (sortedEntries entries)) :
    ∃ e' ∈ entries, e = (e'.1, e'.2.sorted) := by
  have hmem := mem_of_mem_orderEntries h
  rw [sortedEntries_eq_map] at hmem
  obtain ⟨e', he', rfl⟩ := List.mem_map.mp hmem
  exact ⟨e', he', rfl⟩

theorem depth_sorted_le {json : Json} (h : json.depth ≤ d) : json.sorted.depth ≤ d := by
  induction json using inductionOnParts generalizing d with
  | array items ih =>
    obtain ⟨d, rfl⟩ : ∃ d', d = d' + 1 := ⟨d - 1, by rw [depth] at h; omega⟩
    rw [depth_array_le_iff] at h
    rw [sorted, sortedItems_eq_map, depth_array_le_iff, List.forall_mem_map]
    exact fun x hx => ih x hx (h x hx)
  | object entries ih =>
    obtain ⟨d, rfl⟩ : ∃ d', d = d' + 1 := ⟨d - 1, by rw [depth] at h; omega⟩
    rw [depth_object_le_iff] at h
    rw [sorted, depth_object_le_iff]
    intro e he
    obtain ⟨e, hentry, rfl⟩ := exists_of_mem_sorted he
    exact ih e hentry (h e hentry)
  | _ => exact h

theorem mem_numbers_of_sorted {json : Json} (h : n ∈ json.sorted.numbers) : n ∈ json.numbers := by
  induction json using inductionOnParts with
  | array items ih =>
    rw [sorted, sortedItems_eq_map, mem_numbers_array] at h
    obtain ⟨_, hmem, hn⟩ := h
    obtain ⟨x, hx, rfl⟩ := List.mem_map.mp hmem
    exact mem_numbers_array.mpr ⟨x, hx, ih x hx hn⟩
  | object entries ih =>
    rw [sorted, mem_numbers_object] at h
    obtain ⟨_, hmem, hn⟩ := h
    obtain ⟨e, he, rfl⟩ := exists_of_mem_sorted hmem
    exact mem_numbers_object.mpr ⟨e, he, ih e he hn⟩
  | _ => exact h

end Measures

section Depth

variable {limit bound : Nat} {first : Bool} {cs rest : List Char}

theorem forall_of_items {α : Type} {read : List Char → Except Failure (α × List Char)}
    {P : α → Prop} (hread : ∀ cs x rest, read cs = .ok (x, rest) → P x) {xs : List α}
    (h : items read bound first cs = .ok (xs, rest)) : ∀ x ∈ xs, P x := by
  induction bound generalizing first cs xs with
  | zero => cases h
  | succ bound ih =>
    rw [items] at h
    obtain ⟨next, -, h⟩ := bind_eq_ok_iff.mp h
    cases next with
    | done _ =>
      cases h
      simp
    | more part text =>
      obtain ⟨⟨x, text'⟩, hx, h⟩ := bind_eq_ok_iff.mp h
      obtain ⟨⟨xs', _⟩, hxs, h⟩ := bind_eq_ok_iff.mp h
      cases h
      exact List.forall_mem_cons.mpr ⟨hread _ _ _ hx, ih hxs⟩

theorem forall_of_entries {α : Type} {read : List Char → Except Failure (α × List Char)}
    {P : α → Prop} (hread : ∀ cs x rest, read cs = .ok (x, rest) → P x) {xs : List (String × α)}
    (h : entries read bound first cs = .ok (xs, rest)) : ∀ x ∈ xs, P x.2 := by
  induction bound generalizing first cs xs with
  | zero => cases h
  | succ bound ih =>
    rw [entries] at h
    obtain ⟨next, -, h⟩ := bind_eq_ok_iff.mp h
    cases next with
    | done _ =>
      cases h
      simp
    | more key text =>
      obtain ⟨text', -, h⟩ := bind_eq_ok_iff.mp h
      obtain ⟨⟨x, text''⟩, hx, h⟩ := bind_eq_ok_iff.mp h
      obtain ⟨⟨xs', _⟩, hxs, h⟩ := bind_eq_ok_iff.mp h
      cases h
      exact List.forall_mem_cons.mpr ⟨hread _ _ _ hx, ih hxs⟩

theorem ScalarAt.depth_eq {json : Json} (h : ScalarAt rest cs json) : json.depth = 0 := by
  cases h <;> rfl

-- Documents that are read are nested no deeper than allowed.
theorem depth_le_of_value {json : Json} (h : value limit cs = .ok (json, rest)) :
    json.depth ≤ limit := by
  induction limit generalizing cs json rest with
  | zero =>
    cases valueAt_of_value h with
    | scalar hscalar => exact hscalar.depth_eq.le
  | succ limit ih =>
    have hat := valueAt_of_value h
    generalize skipBlanks cs = cs' at hat
    cases hat with
    | scalar hscalar => exact hscalar.depth_eq ▸ Nat.zero_le _
    | array hitems => exact depth_array_le_iff.mpr (forall_of_items (fun _ _ _ => ih) hitems)
    | object hentries =>
      exact depth_object_le_iff.mpr (forall_of_entries (fun _ _ _ => ih) hentries)

end Depth

section Written

-- The integers of 64 bits. Minus zero is one of them, though it is read as a float.
def Number.Whole (n : Number) : Prop :=
  n.Exact ∨ n = .float (-0.0)

theorem takes_minusZero (depth : Nat) :
    Takes (value depth) (Number.float (-0.0)).chars (.number (.float (-0.0))) := by
  intro rest hrest
  have hchars : (Number.float (-0.0)).chars = ['-', '0', '.', '0'] := by decide +kernel
  have hread : readNumber true ('0' :: '.' :: ('0' :: rest)) = .ok (.float (-0.0), rest) := by
    have hdigits : ∀ c ∈ ['0'], c.isDigit = true := List.forall_mem_singleton.mpr rfl
    obtain ⟨htake, hdrop⟩ := span_isDigit_append hdigits hrest
    have hscaled : scaled true 0 (-1) rest = .ok (.float (-0.0), rest) := rfl
    rw [List.singleton_append] at htake hdrop
    have hkeep : keepDigits 0 ['0'] = (0, []) := rfl
    have hpoint : '.'.isDigit = false := by decide
    simp only [readNumber, if_true, hpoint, Bool.false_eq_true, if_false, afterWhole, withFraction,
      htake, hdrop, hkeep, List.isEmpty_cons]
    split
    next => simpa using hrest 'e' rfl
    next => simpa using hrest 'E' rfl
    next => exact hscaled
  rw [hchars, List.cons_append, value_of_scalar (by decide) (by decide) (by decide)]
  simp [scalar, hread]

theorem Number.Whole.solid {n : Number} (h : n.Whole) : Solid n.chars := by
  rcases h with h | rfl
  · exact h.solid.1
  · exact ⟨'-', ['0', '.', '0'], by decide +kernel, by decide, by decide⟩

theorem takes_whole (depth : Nat) {n : Number} (h : n.Whole) :
    Takes (value depth) n.chars (.number n) := by
  rcases h with h | rfl
  · exact takes_number depth h
  · exact takes_minusZero depth

theorem itemsChars_eq_map (items : List Json) : itemsChars items = items.map chars := by
  induction items with
  | nil => rfl
  | cons item items ih => rw [itemsChars, ih, List.map_cons]

theorem entriesChars_eq_map (entries : List (String × Json)) :
    entriesChars entries =
      (entries.map fun e => (e.1, e.2.chars)).map (entryPiece []) := by
  induction entries with
  | nil => rfl
  | cons e entries ih => rw [entriesChars, ih]; rfl

-- The document is read back where so many more containers may stand inside each other.
structure Restorable (limit : Nat) (json : Json) : Prop where
  numbers : ∀ n ∈ json.numbers, n.Whole
  depth : json.depth ≤ limit

section Restorable

variable {limit : Nat} {json : Json} {items : List Json} {entries : List (String × Json)}

theorem restorable_number {n : Number} (h : n.Whole) : (Json.number n).Restorable limit :=
  ⟨by simpa [Json.numbers] using h, Nat.zero_le _⟩

theorem restorable_string (s : String) : (Json.string s).Restorable limit :=
  ⟨by simp [Json.numbers], Nat.zero_le _⟩

theorem restorable_null : Json.null.Restorable limit :=
  ⟨by simp [Json.numbers], Nat.zero_le _⟩

theorem restorable_array_iff :
    (Json.array items).Restorable (limit + 1) ↔ ∀ x ∈ items, x.Restorable limit := by
  constructor
  · intro h x hx
    exact ⟨fun n hn => h.numbers n (mem_numbers_array.mpr ⟨x, hx, hn⟩),
      depth_array_le_iff.mp h.depth x hx⟩
  · intro h
    refine ⟨fun n hn => ?_, depth_array_le_iff.mpr fun x hx => (h x hx).depth⟩
    obtain ⟨x, hx, hn⟩ := mem_numbers_array.mp hn
    exact (h x hx).numbers n hn

theorem restorable_object_iff :
    (Json.object entries).Restorable (limit + 1) ↔ ∀ e ∈ entries, e.2.Restorable limit := by
  constructor
  · intro h e he
    exact ⟨fun n hn => h.numbers n (mem_numbers_object.mpr ⟨e, he, hn⟩),
      depth_object_le_iff.mp h.depth e he⟩
  · intro h
    refine ⟨fun n hn => ?_, depth_object_le_iff.mpr fun e he => (h e he).depth⟩
    obtain ⟨e, he, hn⟩ := mem_numbers_object.mp hn
    exact (h e he).numbers n hn

theorem Restorable.exists_limit_of_array (h : (Json.array items).Restorable limit) :
    ∃ l, limit = l + 1 :=
  ⟨limit - 1, by have := h.depth; rw [Json.depth] at this; omega⟩

theorem Restorable.exists_limit_of_object (h : (Json.object entries).Restorable limit) :
    ∃ l, limit = l + 1 :=
  ⟨limit - 1, by have := h.depth; rw [Json.depth] at this; omega⟩

theorem Restorable.sorted (h : json.Restorable limit) : json.sorted.Restorable limit :=
  ⟨fun n hn => h.numbers n (mem_numbers_of_sorted hn), depth_sorted_le h.depth⟩

theorem takes_chars (h : json.Restorable limit) :
    Solid json.chars ∧ Takes (value limit) json.chars json := by
  have hblank : Blank [] := by simp [Blank]
  induction json using inductionOnParts generalizing limit with
  | null => exact ⟨⟨_, _, rfl, by decide, by decide⟩, takes_null limit⟩
  | bool b =>
    refine ⟨?_, takes_bool limit b⟩
    cases b <;> exact ⟨_, _, rfl, by decide, by decide⟩
  | number n =>
    have hn : n.Whole := h.numbers n (by simp [Json.numbers])
    exact ⟨hn.solid, takes_whole limit hn⟩
  | string s => exact ⟨⟨_, _, rfl, by decide, by decide⟩, takes_string limit s⟩
  | array items ih =>
    refine ⟨⟨_, _, rfl, by decide, by decide⟩, ?_⟩
    obtain ⟨limit, rfl⟩ := h.exists_limit_of_array
    have hitems : List.Forall₂ (fun piece x => Solid piece ∧ Takes (value limit) piece x)
        (items.map chars) items := by
      rw [List.forall₂_map_left_iff, List.forall₂_same]
      exact fun x hx => ih x hx (restorable_array_iff.mp h x hx)
    have htakes := takes_array hblank hblank hitems
    simp only [List.nil_append, List.map_id_fun', id, ← itemsChars_eq_map] at htakes
    exact htakes
  | object entries ih =>
    refine ⟨⟨_, _, rfl, by decide, by decide⟩, ?_⟩
    obtain ⟨limit, rfl⟩ := h.exists_limit_of_object
    have hentries : List.Forall₂ (fun piece x => piece.1 = x.1 ∧ Takes (value limit) piece.2 x.2)
        (entries.map fun e => (e.1, e.2.chars)) entries := by
      rw [List.forall₂_map_left_iff, List.forall₂_same]
      exact fun e he => ⟨rfl, (ih e he (restorable_object_iff.mp h e he)).2⟩
    have htakes := takes_object hblank hblank hentries
    rw [← entriesChars_eq_map] at htakes
    exact htakes

-- A document that is written and read again is the same document.
theorem parse_compact (h : json.Restorable maxDepth) : parse json.compact = .ok json := by
  obtain ⟨-, htakes⟩ := takes_chars h
  have hread := htakes [] delimited_nil
  rw [List.append_nil] at hread
  rw [parse, compact, String.toList_ofList]
  exact finish_eq_ok_iff.mpr ⟨[], hread, rfl⟩

end Restorable

end Written

end EmbeddedStyles.Json
