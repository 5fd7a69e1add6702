import EmbeddedStyles.Json.Decoder
import EmbeddedStyles.Proofs.Json.Reading

namespace EmbeddedStyles.Json

section Lookup

variable {α β : Type} {key : String} {es : List (String × α)}

-- The last value under the key.
def lookupLast (key : String) (entries : List (String × α)) : Option α :=
  entries.reverse.lookup key

theorem lookup_cons (key : String) (e : String × α) (es : List (String × α)) :
    (e :: es).lookup key = if key = e.1 then some e.2 else es.lookup key := by
  by_cases hkey : key = e.1
  · rw [if_pos hkey, hkey, List.lookup_cons_self]
  · rw [List.lookup_cons, beq_false_of_ne hkey, if_neg hkey]

theorem lookupLast_cons (e : String × α) (es : List (String × α)) :
    lookupLast key (e :: es) = (lookupLast key es).or ([e].lookup key) := by
  rw [lookupLast, List.reverse_cons, List.lookup_append, lookupLast]

theorem lookup_eq_none_iff : es.lookup key = none ↔ key ∉ es.map Prod.fst := by
  simp only [List.lookup_eq_none_iff, bne_iff_ne, List.mem_map, not_exists, not_and]
  exact forall_congr' fun e => imp_congr_right fun _ => ne_comm

theorem mem_of_lookupLast {x : α} (h : lookupLast key es = some x) : (key, x) ∈ es := by
  obtain ⟨before, after, hes, -⟩ := List.lookup_eq_some_iff.mp h
  exact List.mem_reverse.mp (hes ▸ List.mem_append_right before List.mem_cons_self)

theorem lookup_map (f : α → β) (key : String) (es : List (String × α)) :
    (es.map fun e => (e.1, f e.2)).lookup key = (es.lookup key).map f := by
  induction es with
  | nil => rfl
  | cons e es ih =>
    rw [List.map_cons, lookup_cons, lookup_cons, ih]
    split <;> rfl

theorem lookup_filter {p : String → Bool} (h : p key = true) (es : List (String × α)) :
    (es.filter fun e => p e.1).lookup key = es.lookup key := by
  induction es with
  | nil => rfl
  | cons e es ih =>
    rw [List.filter_cons]
    split
    · rw [lookup_cons, lookup_cons, ih]
    next hp =>
      have hkey : key ≠ e.1 := by
        rintro rfl
        exact hp h
      rw [ih, lookup_cons, if_neg hkey]

theorem lookup_insertEntry (k : String) (x : α) (es : List (String × α)) :
    (insertEntry k x es).lookup key = if key = k then some x else es.lookup key := by
  induction es with
  | nil => rw [insertEntry, lookup_cons]
  | cons e es ih =>
    simp only [insertEntry]
    split
    · grind [lookup_cons]
    · split <;> grind [lookup_cons]

-- Of the entries with one key the last is kept.
theorem lookup_orderEntries (key : String) (es : List (String × α)) :
    (orderEntries es).lookup key = lookupLast key es := by
  have hfold (ordered : List (String × α)) :
      (es.foldl (fun ordered e => insertEntry e.1 e.2 ordered) ordered).lookup key =
        (lookupLast key es).or (ordered.lookup key) := by
    induction es generalizing ordered with
    | nil => rfl
    | cons e es ih =>
      rw [List.foldl_cons, ih, lookup_insertEntry, lookupLast_cons, Option.or_assoc]
      congr 1
      rw [lookup_cons]
      split <;> rfl
  rw [orderEntries, hfold, List.lookup_nil, Option.or_none]

end Lookup

-- Reading the field does not change what `get` gives.
def Field.Leaves {σ γ : Type} (f : Field σ) (get : σ → γ) : Prop :=
  ∀ json set, f.decoder.value json = .ok set → ∀ s, get (set s) = get s

theorem Field.leaves_of_map {σ γ β : Type} {name : String} {isSet : σ → Bool} {d : Decoder β}
    {put : β → σ → σ} {omittable : Bool} {get : σ → γ} (h : ∀ x s, get (put x s) = get s) :
    Field.Leaves ⟨name, isSet, d.map put, omittable⟩ get := by
  intro json set hset s
  obtain ⟨x, -, hset⟩ := bind_eq_ok_iff.mp hset
  cases hset
  exact h x s

namespace Record

variable {σ α β γ : Type} {r : Record σ α} {s s' : σ} {es : List (String × Json)}

-- The ways in which one entry is taken into the state.
inductive Step (r : Record σ α) (s : σ) (key : String) (json : Json) : σ → Prop
  | field {f : Field σ} {set : σ → σ} (hfield : r.field? key = some f)
      (hfresh : f.isSet s = false) (hset : f.decoder.value json = .ok set) :
      Step r s key json (set s)
  | passed (hfield : r.field? key = none) (hextra : r.extra = none) : Step r s key json s
  | kept {keep : String → Json → σ → σ} (hfield : r.field? key = none)
      (hextra : r.extra = some keep) : Step r s key json (keep key json s)

theorem exists_step_of_objectValue {key : String} {json : Json}
    (h : r.objectValue s ((key, json) :: es) = .ok s') :
    ∃ t, r.Step s key json t ∧ r.objectValue t es = .ok s' := by
  rw [objectValue] at h
  split at h
  next f hfield =>
    split at h
    · cases h
    next hfresh =>
      obtain ⟨set, hset, h⟩ := bind_eq_ok_iff.mp h
      exact ⟨set s, .field hfield (by simpa using hfresh) hset, h⟩
  next hfield =>
    split at h
    next hextra => exact ⟨s, .passed hfield hextra, h⟩
    next keep hextra => exact ⟨keep key json s, .kept hfield hextra, h⟩

theorem name_of_field? {key : String} {f : Field σ} (h : r.field? key = some f) :
    f ∈ r.fields ∧ f.name = key :=
  ⟨List.mem_of_find?_eq_some h, by simpa using List.find?_some h⟩

section Invariant

variable {P : σ → Prop}
  (hfields : ∀ f ∈ r.fields, ∀ json set, f.decoder.value json = .ok set → ∀ s, P s → P (set s))

include hfields

theorem objectValue_preserves
    (hextra : ∀ keep, r.extra = some keep → ∀ key json s, P s → P (keep key json s))
    (h : r.objectValue s es = .ok s') (hs : P s) : P s' := by
  induction es generalizing s with
  | nil =>
    cases h
    exact hs
  | cons e es ih =>
    obtain ⟨t, hstep, h⟩ := exists_step_of_objectValue h
    refine ih h ?_
    cases hstep with
    | field hfield _ hset => exact hfields _ (name_of_field? hfield).1 _ _ hset s hs
    | passed => exact hs
    | kept _ hkeep => exact hextra _ hkeep _ _ s hs

theorem arrayValue_preserves {length index : Nat} {fields : List (Field σ)} {items : List Json}
    (hsub : fields ⊆ r.fields) (h : r.arrayValue length index fields s items = .ok s')
    (hs : P s) : P s' := by
  induction fields generalizing index s items with
  | nil =>
    cases items with
    | nil =>
      cases h
      exact hs
    | cons => cases h
  | cons f fields ih =>
    cases items with
    | nil =>
      rw [arrayValue] at h
      split at h
      · cases h
        exact hs
      · cases h
    | cons json items =>
      obtain ⟨set, hset, h⟩ := bind_eq_ok_iff.mp h
      have hf := hfields f (hsub List.mem_cons_self) json set hset s hs
      exact ih (fun g hg => hsub (List.mem_cons_of_mem f hg)) h hf

-- What holds of the start and is left true by fields and other entries holds in the end.
theorem exists_of_value
    (hextra : ∀ keep, r.extra = some keep → ∀ key json s, P s → P (keep key json s))
    (hstart : P r.start) {json : Json} {x : α} (h : r.decoder.value json = .ok x) :
    ∃ s, P s ∧ r.complete s = .ok x := by
  cases json with
  | object es =>
    obtain ⟨s, hs, hx⟩ := bind_eq_ok_iff.mp h
    exact ⟨s, objectValue_preserves hfields hextra hs hstart, hx⟩
  | array items =>
    simp only [decoder] at h
    split at h
    · cases h
    · obtain ⟨s, hs, hx⟩ := bind_eq_ok_iff.mp h
      exact ⟨s, arrayValue_preserves hfields (List.Subset.refl _) hs hstart, hx⟩
  | _ => cases h

end Invariant

section Objects

-- What `get` gives is read under the name with the decoder `d`, and changed by no other entry.
structure Holds (r : Record σ α) (name : String) (d : Decoder β) (get : σ → Option β) : Prop where
  start : get r.start = none
  field : ∃ isSet put omittable, r.field? name = some ⟨name, isSet, d.map put, omittable⟩ ∧
    (∀ s, isSet s = (get s).isSome) ∧ ∀ x s, get (put x s) = some x
  others : ∀ f ∈ r.fields, f.name ≠ name → f.Leaves get
  extra : ∀ keep, r.extra = some keep → ∀ key json s, get (keep key json s) = get s

variable {name : String} {d : Decoder β} {get : σ → Option β}

theorem Holds.get_of_objectValue (hget : r.Holds name d get) (h : r.objectValue s es = .ok s') :
    lookupLast name es = none ∧ get s' = get s ∨
      ∃ json x, lookupLast name es = some json ∧ d.value json = .ok x ∧ get s = none ∧
        get s' = some x := by
  obtain ⟨isSet, put, omittable, hfield, hisSet, hput⟩ := hget.field
  induction es generalizing s with
  | nil =>
    cases h
    exact .inl ⟨rfl, rfl⟩
  | cons e es ih =>
    obtain ⟨key, json⟩ := e
    obtain ⟨t, hstep, h⟩ := exists_step_of_objectValue h
    rw [lookupLast_cons]
    by_cases hkey : key = name
    · subst hkey
      cases hstep with
      | @field f set hf hfresh hset =>
        cases hfield.symm.trans hf
        obtain ⟨x, hx, hset⟩ := bind_eq_ok_iff.mp hset
        cases hset
        have hunset : get s = none := by simpa [hisSet] using hfresh
        -- The field is set now, so no other entry can set it.
        obtain ⟨hlast, hget⟩ | ⟨_, _, -, -, hnone, -⟩ := ih h
        · exact .inr ⟨json, x, by simp [hlast], hx, hunset, by rw [hget, hput]⟩
        · rw [hput] at hnone
          cases hnone
      | passed hnone _ => cases hfield.symm.trans hnone
      | kept hnone _ => cases hfield.symm.trans hnone
    · have hsame : get t = get s := by
        cases hstep with
        | field hf _ hset =>
          obtain ⟨hmem, hname⟩ := name_of_field? hf
          exact hget.others _ hmem (hname ▸ hkey) _ _ hset s
        | passed => rfl
        | kept _ hkeep => exact hget.extra _ hkeep _ _ s
      have hlookup : [(key, json)].lookup name = none := by simp [lookup_cons, Ne.symm hkey]
      rw [hlookup, Option.or_none, ← hsame]
      exact ih h

-- A field holds what stands under its name.
theorem Holds.get_eq (hget : r.Holds name d get) (h : r.objectValue r.start es = .ok s) :
    lookupLast name es = none ∧ get s = none ∨
      ∃ json x, lookupLast name es = some json ∧ d.value json = .ok x ∧ get s = some x := by
  obtain ⟨hnone, hs⟩ | ⟨json, x, hsome, hx, -, hs⟩ := hget.get_of_objectValue h
  · exact .inl ⟨hnone, hs.trans hget.start⟩
  · exact .inr ⟨json, x, hsome, hx, hs⟩

theorem Holds.exists_of_required (hget : r.Holds name d get)
    (h : r.objectValue r.start es = .ok s) {x : β} (hx : required name (get s) = .ok x) :
    ∃ json, lookupLast name es = some json ∧ d.value json = .ok x := by
  obtain ⟨-, hs⟩ | ⟨json, y, hsome, hy, hs⟩ := hget.get_eq h
  · rw [hs] at hx
    cases hx
  · rw [hs] at hx
    cases hx
    exact ⟨json, hsome, hy⟩

-- The entries that are no fields.
def foreign (r : Record σ α) (entries : List (String × Json)) : List (String × Json) :=
  entries.filter fun e => (r.field? e.1).isNone

-- All other entries are kept, one after the other.
theorem kept_of_objectValue {kept : σ → γ} {keep : String → Json → σ → σ}
    {add : String → Json → γ → γ}
    (hfields : ∀ f ∈ r.fields, f.Leaves kept) (hextra : r.extra = some keep)
    (hkeep : ∀ key json s, kept (keep key json s) = add key json (kept s))
    (h : r.objectValue s es = .ok s') :
    kept s' = (r.foreign es).foldl (fun k e => add e.1 e.2 k) (kept s) := by
  induction es generalizing s with
  | nil =>
    cases h
    rfl
  | cons e es ih =>
    obtain ⟨key, json⟩ := e
    obtain ⟨t, hstep, h⟩ := exists_step_of_objectValue h
    rw [ih h, foreign, foreign, List.filter_cons]
    cases hstep with
    | field hfield _ hset => simp [hfield, hfields _ (name_of_field? hfield).1 _ _ hset s]
    | passed _ hnone => cases hextra.symm.trans hnone
    | kept hfield hsome =>
      cases hextra.symm.trans hsome
      simp [hfield, hkeep]

theorem objectValue_cons_of_field {isSet : σ → Bool} {put : β → σ → σ} {omittable : Bool}
    (hfield : r.field? name = some ⟨name, isSet, d.map put, omittable⟩) (hfresh : isSet s = false)
    {json : Json} {x : β} (hx : d.value json = .ok x) :
    r.objectValue s ((name, json) :: es) = r.objectValue (put x s) es := by
  simp [objectValue, hfield, hfresh, Decoder.map, hx]

theorem objectValue_of_foreign {keep : String → Json → σ → σ} (hextra : r.extra = some keep)
    (h : ∀ e ∈ es, r.field? e.1 = none) :
    r.objectValue s es = .ok (es.foldl (fun s e => keep e.1 e.2 s) s) := by
  induction es generalizing s with
  | nil => rfl
  | cons e es ih =>
    obtain ⟨hfield, hes⟩ := List.forall_mem_cons.mp h
    simp [objectValue, hfield, hextra, ih hes]

end Objects

end Record

end EmbeddedStyles.Json
