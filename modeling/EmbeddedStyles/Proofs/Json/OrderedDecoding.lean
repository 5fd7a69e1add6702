import EmbeddedStyles.Proofs.Json.Decoding
import EmbeddedStyles.Proofs.Json.Sorting
import Mathlib.Data.List.Pairwise

namespace EmbeddedStyles.Json

variable {α β σ : Type}

-- What the decoder makes of a document without repeated keys, `f` turns into what it makes of the
-- ordered document, and it takes both or neither.
def Decoder.Follows (d : Decoder α) (f : α → α) : Prop :=
  ∀ json y, json.Distinct → (d.value json.sorted = .ok y ↔ ∃ x, d.value json = .ok x ∧ f x = y)

theorem Decoder.Follows.value_sorted {d : Decoder α} {f : α → α} (h : d.Follows f) {json : Json}
    (hdistinct : json.Distinct) {x : α} (hx : d.value json = .ok x) :
    d.value json.sorted = .ok (f x) :=
  (h json (f x) hdistinct).mpr ⟨x, hx, rfl⟩

-- Where the order makes no difference.
theorem Decoder.follows_id_iff {d : Decoder α} :
    d.Follows id ↔
      ∀ json y, json.Distinct → (d.value json.sorted = .ok y ↔ d.value json = .ok y) := by
  simp [Decoder.Follows]

theorem Decoder.value_map_eq_ok_iff {d : Decoder α} {f : α → β} {json : Json} {y : β} :
    (d.map f).value json = .ok y ↔ ∃ x, d.value json = .ok x ∧ f x = y := by
  simp [Decoder.map, bind_eq_ok_iff]

theorem Decoder.string_follows : Decoder.string.Follows id := by
  refine Decoder.follows_id_iff.mpr fun json y _ => ?_
  cases json <;> exact Iff.rfl

theorem Decoder.u32_follows : Decoder.u32.Follows id := by
  refine Decoder.follows_id_iff.mpr fun json y _ => ?_
  cases json <;> exact Iff.rfl

theorem Decoder.Follows.optional {d : Decoder α} (h : d.Follows id) : d.optional.Follows id := by
  refine Decoder.follows_id_iff.mpr fun json y hdistinct => ?_
  by_cases hnull : json = .null
  · subst hnull
    exact Iff.rfl
  · have hsorted : json.sorted ≠ .null := by
      cases json <;> simp_all [sorted]
    simp only [d.optional_value_of_ne hnull, d.optional_value_of_ne hsorted, bind_eq_ok_iff,
      Decoder.follows_id_iff.mp h json _ hdistinct]

theorem mapM_eq_ok_iff {ε : Type} {f : α → Except ε β} {xs : List α} {ys : List β} :
    xs.mapM f = .ok ys ↔ List.Forall₂ (fun x y => f x = .ok y) xs ys := by
  induction xs generalizing ys with
  | nil => simp [eq_comm]
  | cons x xs ih =>
    rw [List.mapM_cons, List.forall₂_cons_left_iff]
    constructor
    · intro h
      obtain ⟨y, hy, h⟩ := bind_eq_ok_iff.mp h
      obtain ⟨ys', hys, h⟩ := bind_eq_ok_iff.mp h
      cases h
      exact ⟨y, ys', hy, ih.mp hys, rfl⟩
    · rintro ⟨y, ys', hy, hys, rfl⟩
      simp [hy, ih.mpr hys]

theorem exists_of_mem_mapM {ε : Type} {f : α → Except ε β} {xs : List α} {ys : List β}
    (h : xs.mapM f = .ok ys) {y : β} (hy : y ∈ ys) : ∃ x ∈ xs, f x = .ok y := by
  replace h := mapM_eq_ok_iff.mp h
  induction h with
  | nil => cases hy
  | cons hx _ ih =>
    rcases List.mem_cons.mp hy with rfl | hy
    · exact ⟨_, List.mem_cons_self, hx⟩
    · obtain ⟨x, hmem, hx⟩ := ih hy
      exact ⟨x, List.mem_cons_of_mem _ hmem, hx⟩

theorem Decoder.Follows.list {d : Decoder α} (h : d.Follows id) : d.list.Follows id := by
  refine Decoder.follows_id_iff.mpr fun json ys hdistinct => ?_
  cases json with
  | array items =>
    simp only [Decoder.list, sorted, mapM_eq_ok_iff]
    rw [Json.Distinct] at hdistinct
    induction items generalizing ys with
    | nil => exact Iff.rfl
    | cons item items ih =>
      simp only [sortedItems, List.forall₂_cons_left_iff, ih _ hdistinct.2,
        Decoder.follows_id_iff.mp h item _ hdistinct.1]
  | _ => exact Iff.rfl

section Entries

-- Entries with the same key whose values are related.
def Entrywise (R : Json → α → Prop) (e : String × Json) (x : String × α) : Prop :=
  x.1 = e.1 ∧ R e.2 x.2

variable {R : Json → α → Prop} {es : List (String × Json)} {xs : List (String × α)}

theorem forall₂_insertEntry {json : Json} {x : α} (hx : R json x)
    (h : List.Forall₂ (Entrywise R) es xs) (key : String) :
    List.Forall₂ (Entrywise R) (insertEntry key json es) (insertEntry key x xs) := by
  induction h with
  | nil => exact .cons ⟨rfl, hx⟩ .nil
  | @cons e x' es xs he hes ih =>
    obtain ⟨k, y⟩ := x'
    obtain ⟨rfl, hy⟩ : k = e.1 ∧ R e.2 y := he
    simp only [insertEntry]
    split
    · exact .cons ⟨rfl, hx⟩ hes
    · split
      · exact .cons ⟨rfl, hx⟩ (.cons ⟨rfl, hy⟩ hes)
      · exact .cons ⟨rfl, hy⟩ ih

theorem forall₂_orderEntries (h : List.Forall₂ (Entrywise R) es xs) :
    List.Forall₂ (Entrywise R) (orderEntries es) (orderEntries xs) := by
  have hfold (es' : List (String × Json)) (xs' : List (String × α))
      (h' : List.Forall₂ (Entrywise R) es' xs') :
      List.Forall₂ (Entrywise R)
        (es.foldl (fun ordered e => insertEntry e.1 e.2 ordered) es')
        (xs.foldl (fun ordered e => insertEntry e.1 e.2 ordered) xs') := by
    induction h generalizing es' xs' with
    | nil => exact h'
    | @cons e x es xs he _ ih =>
      refine ih _ _ ?_
      simp only [he.1]
      exact forall₂_insertEntry he.2 h' e.1
  exact hfold [] [] .nil

theorem Decoder.value_entries_eq_ok_iff {d : Decoder α} :
    d.entries.value (.object es) = .ok xs ↔
      List.Forall₂ (Entrywise fun json x => d.value json = .ok x) es xs := by
  rw [Decoder.entries, mapM_eq_ok_iff]
  constructor <;> intro h <;> refine h.imp fun e x hx => ?_
  · obtain ⟨y, hy, hx⟩ := bind_eq_ok_iff.mp hx
    cases hx
    exact ⟨rfl, hy⟩
  · simp [hx.2, ← hx.1]

theorem Decoder.keys_of_value_entries {d : Decoder α} {json : Json}
    (h : d.entries.value json = .ok xs) :
    ∃ es, json = .object es ∧ xs.map Prod.fst = es.map Prod.fst := by
  cases json with
  | object es =>
    refine ⟨es, rfl, ?_⟩
    have hes := Decoder.value_entries_eq_ok_iff.mp h
    clear h
    induction hes with
    | nil => rfl
    | cons he _ ih => rw [List.map_cons, List.map_cons, ih, he.1]
  | _ => cases h

-- Entries are decoded together if each of them is.
theorem Decoder.exists_value_entries_iff {d : Decoder α} :
    (∃ xs, d.entries.value (.object es) = .ok xs) ↔ ∀ e ∈ es, ∃ x, d.value e.2 = .ok x := by
  simp only [Decoder.value_entries_eq_ok_iff]
  induction es with
  | nil => simp
  | cons e es ih =>
    rw [List.forall_mem_cons, ← ih]
    constructor
    · rintro ⟨_, hxs⟩
      cases hxs with
      | cons he hxs => exact ⟨⟨_, he.2⟩, _, hxs⟩
    · rintro ⟨⟨x, hx⟩, xs, hxs⟩
      exact ⟨(e.1, x) :: xs, .cons ⟨rfl, hx⟩ hxs⟩

theorem distinct_of_mem {e : String × Json} (h : DistinctEntries es) (he : e ∈ es) :
    e.2.Distinct := by
  induction es with
  | nil => cases he
  | cons e' es ih =>
    rcases List.mem_cons.mp he with rfl | he
    · exact h.1
    · exact ih h.2 he

theorem Decoder.Follows.forall₂_sortedEntries {d : Decoder α} (h : d.Follows id)
    (hdistinct : DistinctEntries es)
    (hxs : List.Forall₂ (Entrywise fun json x => d.value json = .ok x) es xs) :
    List.Forall₂ (Entrywise fun json x => d.value json = .ok x) (sortedEntries es) xs := by
  induction hxs with
  | nil => exact .nil
  | cons he _ ih =>
    exact .cons ⟨he.1, h.value_sorted hdistinct.1 he.2⟩ (ih hdistinct.2)

theorem Decoder.Follows.entries {d : Decoder α} (h : d.Follows id) :
    d.entries.Follows orderEntries := by
  intro json ys hdistinct
  cases json with
  | object es =>
    have hvalue (e : String × Json) (he : e ∈ es) (x : α) :=
      Decoder.follows_id_iff.mp h e.2 x (distinct_of_mem hdistinct.2 he)
    have hforward {xs : List (String × α)} (hxs : d.entries.value (.object es) = .ok xs) :
        d.entries.value (Json.object es).sorted = .ok (orderEntries xs) := by
      rw [Decoder.value_entries_eq_ok_iff] at hxs
      exact Decoder.value_entries_eq_ok_iff.mpr
        (forall₂_orderEntries (h.forall₂_sortedEntries hdistinct.2 hxs))
    constructor
    · intro hys
      have hall : ∀ e ∈ es, ∃ x, d.value e.2 = .ok x := by
        intro e he
        have hkeys : ((sortedEntries es).map Prod.fst).Nodup := keys_sortedEntries es ▸ hdistinct.1
        have hmem : (e.1, e.2.sorted) ∈ orderEntries (sortedEntries es) := by
          rw [(orderEntries_perm hkeys).mem_iff, sortedEntries_eq_map]
          exact List.mem_map_of_mem he
        obtain ⟨x, hx⟩ := Decoder.exists_value_entries_iff.mp ⟨ys, hys⟩ _ hmem
        exact ⟨x, (hvalue e he x).mp hx⟩
      obtain ⟨xs, hxs⟩ := Decoder.exists_value_entries_iff.mpr hall
      exact ⟨xs, hxs, Except.ok.inj ((hforward hxs).symm.trans hys)⟩
    · rintro ⟨xs, hxs, rfl⟩
      exact hforward hxs
  | _ => simp [Decoder.entries, sorted, refuseValue]

end Entries

section Records

-- What is read into a state, `φ` turns into what is read from the ordered document.
structure Field.Follows (f : Field σ) (φ : σ → σ) : Prop where
  isSet_eq : ∀ s, f.isSet (φ s) = f.isSet s
  exists_sorted : ∀ json set, json.Distinct → f.decoder.value json = .ok set →
    ∃ set', f.decoder.value json.sorted = .ok set' ∧ ∀ s, set' (φ s) = φ (set s)
  exists_of_sorted : ∀ json set', json.Distinct → f.decoder.value json.sorted = .ok set' →
    ∃ set, f.decoder.value json = .ok set ∧ ∀ s, set' (φ s) = φ (set s)

-- It makes no difference which of the two fields is read first.
def Field.Apart (f g : Field σ) : Prop :=
  ∀ json json' set set', f.decoder.value json = .ok set → g.decoder.value json' = .ok set' →
    ∀ s, set (set' s) = set' (set s) ∧ f.isSet (set' s) = f.isSet s ∧ g.isSet (set s) = g.isSet s

instance : Std.Symm (@Field.Apart σ) where
  symm f g h := by
    intro json json' set set' hset hset' s
    obtain ⟨hcomm, hf, hg⟩ := h json' json set' set hset' hset s
    exact ⟨hcomm.symm, hg, hf⟩

theorem Field.follows_of_map {name : String} {isSet : σ → Bool} {d : Decoder α} {f : α → α}
    {put : α → σ → σ} {omittable : Bool} {φ : σ → σ} (h : d.Follows f)
    (hisSet : ∀ s, isSet (φ s) = isSet s)
    (hput : ∀ json x s, json.Distinct → d.value json = .ok x → put (f x) (φ s) = φ (put x s)) :
    Field.Follows ⟨name, isSet, d.map put, omittable⟩ φ where
  isSet_eq := hisSet
  exists_sorted json set hdistinct hset := by
    obtain ⟨x, hx, rfl⟩ := Decoder.value_map_eq_ok_iff.mp hset
    have hy := h.value_sorted hdistinct hx
    exact ⟨_, Decoder.value_map_eq_ok_iff.mpr ⟨_, hy, rfl⟩, fun s => hput json x s hdistinct hx⟩
  exists_of_sorted json set' hdistinct hset' := by
    obtain ⟨y, hy, rfl⟩ := Decoder.value_map_eq_ok_iff.mp hset'
    obtain ⟨x, hx, rfl⟩ := (h json y hdistinct).mp hy
    exact ⟨_, Decoder.value_map_eq_ok_iff.mpr ⟨x, hx, rfl⟩, fun s => hput json x s hdistinct hx⟩

theorem Field.apart_of_map {name name' : String} {isSet isSet' : σ → Bool} {d : Decoder α}
    {d' : Decoder β} {put : α → σ → σ} {put' : β → σ → σ} {omittable omittable' : Bool}
    (hcomm : ∀ x y s, put x (put' y s) = put' y (put x s))
    (hisSet : ∀ y s, isSet (put' y s) = isSet s) (hisSet' : ∀ x s, isSet' (put x s) = isSet' s) :
    Field.Apart ⟨name, isSet, d.map put, omittable⟩ ⟨name', isSet', d'.map put', omittable'⟩ := by
  intro json json' set set' hset hset' s
  obtain ⟨x, -, rfl⟩ := Decoder.value_map_eq_ok_iff.mp hset
  obtain ⟨y, -, rfl⟩ := Decoder.value_map_eq_ok_iff.mp hset'
  exact ⟨hcomm x y s, hisSet y s, hisSet' x s⟩

-- A record whose fields may come in any order.
structure Record.Orderly (r : Record σ α) (φ : σ → σ) : Prop where
  extra : r.extra = none
  start : φ r.start = r.start
  follows : ∀ f ∈ r.fields, f.Follows φ
  apart : r.fields.Pairwise Field.Apart

variable {r : Record σ α} {φ : σ → σ} {s s' : σ} {es es' : List (String × Json)}

theorem Record.objectValue_cons_eq_ok_iff (hextra : r.extra = none) {key : String} {json : Json} :
    r.objectValue s ((key, json) :: es) = .ok s' ↔
      r.field? key = none ∧ r.objectValue s es = .ok s' ∨
      ∃ f set, r.field? key = some f ∧ f.isSet s = false ∧ f.decoder.value json = .ok set ∧
        r.objectValue (set s) es = .ok s' := by
  cases hfield : r.field? key with
  | none => simp [Record.objectValue, hfield, hextra]
  | some f =>
    cases hset : f.isSet s with
    | true => simp [Record.objectValue, hfield, hset]
    | false => simp [Record.objectValue, hfield, hset, bind_eq_ok_iff]

theorem Record.Orderly.apart_of_ne (h : r.Orderly φ) {key key' : String} {f g : Field σ}
    (hf : r.field? key = some f) (hg : r.field? key' = some g) (hne : key ≠ key') : f.Apart g := by
  have hkey : f.name = key := by simpa using List.find?_some hf
  have hkey' : g.name = key' := by simpa using List.find?_some hg
  have hfg : f ≠ g := by
    rintro rfl
    exact hne (hkey.symm.trans hkey')
  exact h.apart.forall (List.mem_of_find?_eq_some hf) (List.mem_of_find?_eq_some hg) hfg

theorem Record.Orderly.objectValue_perm (h : r.Orderly φ) (hperm : es.Perm es')
    (hkeys : (es.map Prod.fst).Nodup) (hvalue : r.objectValue s es = .ok s') :
    r.objectValue s es' = .ok s' := by
  induction hperm generalizing s with
  | nil => exact hvalue
  | cons e _ ih =>
    rw [Record.objectValue_cons_eq_ok_iff h.extra] at hvalue ⊢
    have hkeys := (List.nodup_cons.mp hkeys).2
    obtain ⟨hfield, hvalue⟩ | ⟨f, set, hfield, hfresh, hset, hvalue⟩ := hvalue
    · exact .inl ⟨hfield, ih hkeys hvalue⟩
    · exact .inr ⟨f, set, hfield, hfresh, hset, ih hkeys hvalue⟩
  | swap e e' es =>
    have hne : e'.1 ≠ e.1 := by
      intro heq
      simp [heq] at hkeys
    simp only [Record.objectValue_cons_eq_ok_iff h.extra] at hvalue ⊢
    obtain ⟨hfield', ⟨hfield, hvalue⟩ | ⟨f, set, hfield, hfresh, hset, hvalue⟩⟩ |
      ⟨g, set', hfield', hfresh', hset', ⟨hfield, hvalue⟩ | ⟨f, set, hfield, hfresh, hset, hvalue⟩⟩
      := hvalue
    · exact .inl ⟨hfield, .inl ⟨hfield', hvalue⟩⟩
    · exact .inr ⟨f, set, hfield, hfresh, hset, .inl ⟨hfield', hvalue⟩⟩
    · exact .inl ⟨hfield, .inr ⟨g, set', hfield', hfresh', hset', hvalue⟩⟩
    · obtain ⟨hcomm, hg, hf⟩ := h.apart_of_ne hfield' hfield hne _ _ _ _ hset' hset s
      refine .inr ⟨f, set, hfield, hf ▸ hfresh, hset, .inr ⟨g, set', hfield', ?_, hset', ?_⟩⟩
      · rw [hg, hfresh']
      · rw [hcomm, hvalue]
  | trans hperm _ ih ih' =>
    exact ih' ((hperm.map Prod.fst).nodup_iff.mp hkeys) (ih hkeys hvalue)

theorem Record.Orderly.objectValue_perm_iff (h : r.Orderly φ) (hperm : es.Perm es')
    (hkeys : (es.map Prod.fst).Nodup) :
    r.objectValue s es = .ok s' ↔ r.objectValue s es' = .ok s' :=
  ⟨h.objectValue_perm hperm hkeys,
    h.objectValue_perm hperm.symm ((hperm.map Prod.fst).nodup_iff.mp hkeys)⟩

theorem Record.Orderly.objectValue_sortedEntries_iff (h : r.Orderly φ)
    (hdistinct : DistinctEntries es) {t : σ} :
    r.objectValue (φ s) (sortedEntries es) = .ok t ↔
      ∃ s', r.objectValue s es = .ok s' ∧ φ s' = t := by
  induction es generalizing s with
  | nil => simp [sortedEntries, Record.objectValue]
  | cons e es ih =>
    obtain ⟨key, json⟩ := e
    simp only [sortedEntries, Record.objectValue_cons_eq_ok_iff h.extra]
    constructor
    · rintro (⟨hfield, ht⟩ | ⟨f, set', hfield, hfresh, hset', ht⟩)
      · obtain ⟨s', hs', rfl⟩ := (ih hdistinct.2).mp ht
        exact ⟨s', .inl ⟨hfield, hs'⟩, rfl⟩
      · have hfollows := h.follows f (List.mem_of_find?_eq_some hfield)
        obtain ⟨set, hset, hφ⟩ := hfollows.exists_of_sorted json set' hdistinct.1 hset'
        rw [hφ] at ht
        obtain ⟨s', hs', rfl⟩ := (ih hdistinct.2).mp ht
        exact ⟨s', .inr ⟨f, set, hfield, hfollows.isSet_eq s ▸ hfresh, hset, hs'⟩, rfl⟩
    · rintro ⟨s', ⟨hfield, hs'⟩ | ⟨f, set, hfield, hfresh, hset, hs'⟩, rfl⟩
      · exact .inl ⟨hfield, (ih hdistinct.2).mpr ⟨s', hs', rfl⟩⟩
      · have hfollows := h.follows f (List.mem_of_find?_eq_some hfield)
        obtain ⟨set', hset', hφ⟩ := hfollows.exists_sorted json set hdistinct.1 hset
        refine .inr ⟨f, set', hfield, hfollows.isSet_eq s ▸ hfresh, hset', ?_⟩
        rw [hφ]
        exact (ih hdistinct.2).mpr ⟨s', hs', rfl⟩

theorem Record.arrayValue_sortedItems_iff {length index : Nat} {fields : List (Field σ)}
    {items : List Json} (h : ∀ f ∈ fields, f.Follows φ) (hdistinct : DistinctItems items) {t : σ} :
    r.arrayValue length index fields (φ s) (sortedItems items) = .ok t ↔
      ∃ s', r.arrayValue length index fields s items = .ok s' ∧ φ s' = t := by
  induction fields generalizing index s items with
  | nil => cases items <;> simp [sortedItems, Record.arrayValue]
  | cons f fields ih =>
    have hf := h f List.mem_cons_self
    have hfields := fun g hg => h g (List.mem_cons_of_mem f hg)
    cases items with
    | nil =>
      simp only [Record.arrayValue, sortedItems]
      split <;> simp
    | cons json items =>
      simp only [sortedItems, Record.arrayValue, bind_eq_ok_iff]
      constructor
      · rintro ⟨set', hset', ht⟩
        obtain ⟨set, hset, hφ⟩ := hf.exists_of_sorted json set' hdistinct.1 hset'
        rw [hφ] at ht
        obtain ⟨s', hs', rfl⟩ := (ih hfields hdistinct.2).mp ht
        exact ⟨s', ⟨set, hset, hs'⟩, rfl⟩
      · rintro ⟨s', ⟨set, hset, hs'⟩, rfl⟩
        obtain ⟨set', hset', hφ⟩ := hf.exists_sorted json set hdistinct.1 hset
        refine ⟨set', hset', ?_⟩
        rw [hφ]
        exact (ih hfields hdistinct.2).mpr ⟨s', hs', rfl⟩

theorem Record.Orderly.decoder_follows (h : r.Orderly φ) {f : α → α}
    (hcomplete : ∀ s y, r.complete (φ s) = .ok y ↔ ∃ x, r.complete s = .ok x ∧ f x = y) :
    r.decoder.Follows f := by
  intro json y hdistinct
  have hfinish {found found' : Except Cause σ}
      (hfound : ∀ t, found' = .ok t ↔ ∃ s, found = .ok s ∧ φ s = t) :
      (do r.complete (← found')) = .ok y ↔
        ∃ x, (do r.complete (← found)) = .ok x ∧ f x = y := by
    simp only [bind_eq_ok_iff, hfound]
    constructor
    · rintro ⟨_, ⟨s, hs, rfl⟩, hy⟩
      obtain ⟨x, hx, rfl⟩ := (hcomplete s y).mp hy
      exact ⟨x, ⟨s, hs, hx⟩, rfl⟩
    · rintro ⟨x, ⟨s, hs, hx⟩, rfl⟩
      exact ⟨φ s, ⟨s, hs, rfl⟩, (hcomplete s _).mpr ⟨x, hx, rfl⟩⟩
  cases json with
  | object es =>
    refine hfinish fun t => ?_
    have hkeys : ((sortedEntries es).map Prod.fst).Nodup := keys_sortedEntries es ▸ hdistinct.1
    rw [← h.objectValue_perm_iff (orderEntries_perm hkeys).symm hkeys]
    nth_rewrite 1 [← h.start]
    exact h.objectValue_sortedEntries_iff hdistinct.2
  | array items =>
    simp only [Record.decoder, sorted, h.extra, Option.isSome_none]
    refine hfinish fun t => ?_
    rw [sortedItems_eq_map, List.length_map, ← sortedItems_eq_map]
    nth_rewrite 1 [← h.start]
    exact Record.arrayValue_sortedItems_iff h.follows hdistinct
  | _ => simp [Record.decoder, sorted, refuseValue]

-- A record of two fields that are read independently.
theorem Record.decoder_follows_of_pair {γ : Type} {r : Record σ γ} {name name' : String}
    {isSet isSet' : σ → Bool} {d : Decoder α} {d' : Decoder β} {put : α → σ → σ}
    {put' : β → σ → σ} {omittable omittable' : Bool}
    (hfields : r.fields =
      [⟨name, isSet, d.map put, omittable⟩, ⟨name', isSet', d'.map put', omittable'⟩])
    (hextra : r.extra = none) (h : d.Follows id) (h' : d'.Follows id)
    (hcomm : ∀ x y s, put x (put' y s) = put' y (put x s))
    (hisSet : ∀ y s, isSet (put' y s) = isSet s) (hisSet' : ∀ x s, isSet' (put x s) = isSet' s) :
    r.decoder.Follows id := by
  refine Record.Orderly.decoder_follows (φ := id) ⟨hextra, rfl, ?_, ?_⟩ (by simp)
  · rw [hfields, List.forall_mem_cons, List.forall_mem_singleton]
    exact ⟨Field.follows_of_map h (fun _ => rfl) fun _ _ _ _ _ => rfl,
      Field.follows_of_map h' (fun _ => rfl) fun _ _ _ _ _ => rfl⟩
  · rw [hfields, List.pairwise_pair]
    exact Field.apart_of_map hcomm hisSet hisSet'

end Records

end EmbeddedStyles.Json
