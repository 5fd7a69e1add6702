import EmbeddedStyles.Proofs.Json.Decoding
import EmbeddedStyles.Proofs.Json.Skipping.Containers

namespace EmbeddedStyles.Json

variable {α β σ : Type} {depth : Nat} {cs rest : List Char} {json : Json}

-- What the decoder reads off a text that holds a document is what it makes of the document, and it
-- stops where the document ends.
def Decoder.Agrees (d : Decoder α) : Prop :=
  ∀ depth cs json rest, Json.value depth cs = .ok (json, rest) →
    ∀ x after, d.text depth cs = .ok (x, after) ↔ d.value json = .ok x ∧ after = rest

theorem Decoder.Agrees.ofText_eq_ok_iff {d : Decoder α} (h : d.Agrees) {text : String}
    (hparse : parse text = .ok json) (x : α) : d.ofText text = .ok x ↔ d.value json = .ok x := by
  obtain ⟨rest, hvalue, hblank⟩ := finish_eq_ok_iff.mp hparse
  simp only [Decoder.ofText, finish_eq_ok_iff, h _ _ _ _ hvalue]
  constructor
  · rintro ⟨_, ⟨hx, -⟩, -⟩
    exact hx
  · intro hx
    exact ⟨rest, ⟨hx, rfl⟩, hblank⟩

section Scalars

theorem refuse_ne_ok (wanted : String) (cs : List Char) (x : α) : refuse wanted cs ≠ .ok x := by
  unfold refuse
  split <;> intro h
  · cases h
  · cases h
  · obtain ⟨_, -, h⟩ := bind_eq_ok_iff.mp h
    cases h

theorem refuseValue_ne_ok (wanted : String) (json : Json) (x : α) :
    refuseValue wanted json ≠ .ok x := by
  intro h
  cases h

-- What is made of a document once it was read.
theorem placed_eq_ok_iff {made : Except Cause α} {text after : List Char} {x : α} :
    (do return (← placed text made, text)) = (.ok (x, after) : Except Failure _) ↔
      made = .ok x ∧ after = text := by
  cases made with
  | error cause => simp [placed, failAt]
  | ok y => simp [placed, eq_comm]

theorem Decoder.Agrees.map {d : Decoder α} (h : d.Agrees) (f : α → β) : (d.map f).Agrees := by
  intro depth cs json rest hvalue y after
  simp only [Decoder.map, bind_eq_ok_iff, Prod.exists, h depth cs json rest hvalue]
  constructor
  · rintro ⟨x, _, ⟨hx, rfl⟩, hy⟩
    cases hy
    exact ⟨⟨x, hx, rfl⟩, rfl⟩
  · rintro ⟨⟨x, hx, hy⟩, rfl⟩
    cases hy
    exact ⟨x, _, ⟨hx, rfl⟩, rfl⟩

theorem Decoder.stringAs_agrees (wanted : String) : (Decoder.stringAs wanted).Agrees := by
  intro depth cs json rest hvalue x after
  have hat := valueAt_of_value hvalue
  generalize hcs : skipBlanks cs = cs' at hat
  simp only [Decoder.stringAs, hcs]
  cases hat with
  | scalar hat =>
    cases hat with
    | string hread => simp [hread, eq_comm]
    | natural hdigit _ =>
      split
      next heq => exact absurd (List.cons.inj heq).1 (ne_of_isDigit hdigit (by decide))
      next => simp [refuse_ne_ok, refuseValue_ne_ok]
    | _ => simp [refuse_ne_ok, refuseValue_ne_ok]
  | _ => simp [refuse_ne_ok, refuseValue_ne_ok]

theorem Decoder.bool_agrees : Decoder.bool.Agrees := by
  intro depth cs json rest hvalue x after
  have hat := valueAt_of_value hvalue
  generalize hcs : skipBlanks cs = cs' at hat
  simp only [Decoder.bool, hcs]
  cases hat with
  | scalar hat =>
    cases hat with
    | true hread => simp [hread, eq_comm]
    | false hread => simp [hread, eq_comm]
    | natural hdigit _ =>
      split
      next heq => exact absurd (List.cons.inj heq).1 (ne_of_isDigit hdigit (by decide))
      next heq => exact absurd (List.cons.inj heq).1 (ne_of_isDigit hdigit (by decide))
      next => simp [refuse_ne_ok, refuseValue_ne_ok]
    | _ => simp [refuse_ne_ok, refuseValue_ne_ok]
  | _ => simp [refuse_ne_ok, refuseValue_ne_ok]

theorem Decoder.unit_agrees : Decoder.unit.Agrees := by
  intro depth cs json rest hvalue x after
  have hat := valueAt_of_value hvalue
  generalize hcs : skipBlanks cs = cs' at hat
  simp only [Decoder.unit, hcs]
  cases hat with
  | scalar hat =>
    cases hat with
    | null hread => simp [hread, eq_comm]
    | natural hdigit _ =>
      split
      next heq => exact absurd (List.cons.inj heq).1 (ne_of_isDigit hdigit (by decide))
      next => simp [refuse_ne_ok, refuseValue_ne_ok]
    | _ => simp [refuse_ne_ok, refuseValue_ne_ok]
  | _ => simp [refuse_ne_ok, refuseValue_ne_ok]

theorem Decoder.natural_agrees (bound : Nat) (wanted : String) :
    (Decoder.natural bound wanted).Agrees := by
  intro depth cs json rest hvalue x after
  have hat := valueAt_of_value hvalue
  generalize hcs : skipBlanks cs = cs' at hat
  simp only [Decoder.natural, hcs]
  cases hat with
  | scalar hat =>
    cases hat with
    | negative hread => simpa [hread] using placed_eq_ok_iff
    | natural hdigit hread =>
      have hminus := ne_of_isDigit hdigit (show '-'.isDigit = false by decide)
      simpa [hminus, hdigit, hread] using placed_eq_ok_iff
    | _ => simp [refuse_ne_ok, refuseValue_ne_ok]
  | _ => simp [refuse_ne_ok, refuseValue_ne_ok]

theorem Decoder.u32_agrees : Decoder.u32.Agrees :=
  (Decoder.natural_agrees _ _).map _

theorem Decoder.Agrees.optional {d : Decoder α} (h : d.Agrees) : d.optional.Agrees := by
  intro depth cs json rest hvalue x after
  by_cases hnull : json = .null
  · subst hnull
    have hat := valueAt_of_value hvalue
    generalize hcs : skipBlanks cs = cs' at hat
    cases hat with
    | scalar hat =>
      cases hat with
      | null hread => simp [Decoder.optional, hcs, hread, eq_comm]
  · have hsome := h.map some depth (skipBlanks cs) json rest
      ((value_skipBlanks depth cs).trans hvalue) x after
    rw [d.optional_value_of_ne hnull]
    simp only [Decoder.optional]
    split
    next cs' hcs => exact absurd (eq_null_of_value hvalue hcs) hnull
    next => exact hsome

end Scalars

section Containers

variable {bound : Nat} {first : Bool}

theorem Decoder.Agrees.items_eq_ok_iff {d : Decoder α} (h : d.Agrees) {js : List Json}
    (hjs : items (Json.value depth) bound first cs = .ok (js, rest)) (xs : List α)
    (after : List Char) :
    items (d.text depth) bound first cs = .ok (xs, after) ↔
      js.mapM d.value = .ok xs ∧ after = rest := by
  induction bound generalizing first cs js xs with
  | zero => cases hjs
  | succ bound ih =>
    rw [items] at hjs ⊢
    obtain ⟨next, hnext, hjs⟩ := bind_eq_ok_iff.mp hjs
    rw [hnext, ok_bind]
    cases next with
    | done end_ =>
      cases hjs
      simp [eq_comm]
    | more part text =>
      obtain ⟨⟨j, text'⟩, hj, hjs⟩ := bind_eq_ok_iff.mp hjs
      obtain ⟨⟨js', _⟩, hjs', hjs⟩ := bind_eq_ok_iff.mp hjs
      cases hjs
      simp only [List.mapM_cons, bind_eq_ok_iff, Prod.exists, h _ _ _ _ hj]
      constructor
      · rintro ⟨x, _, ⟨hx, rfl⟩, xs', _, hxs', hxs⟩
        cases hxs
        obtain ⟨hxs', rfl⟩ := (ih hjs' xs').mp hxs'
        exact ⟨⟨x, hx, xs', hxs', rfl⟩, rfl⟩
      · rintro ⟨⟨x, hx, xs', hxs', hxs⟩, rfl⟩
        cases hxs
        exact ⟨x, _, ⟨hx, rfl⟩, xs', _, (ih hjs' xs').mpr ⟨hxs', rfl⟩, rfl⟩

theorem Decoder.Agrees.list {d : Decoder α} (h : d.Agrees) : d.list.Agrees := by
  intro depth cs json rest hvalue xs after
  have hat := valueAt_of_value hvalue
  generalize hcs : skipBlanks cs = cs' at hat
  simp only [Decoder.list, hcs]
  cases hat with
  | scalar hat =>
    obtain ⟨harray, -⟩ := hat.head_ne
    split
    next => simp at harray
    next => cases hat <;> simp [refuse_ne_ok, refuseValue_ne_ok]
  | array hjs => exact h.items_eq_ok_iff hjs xs after
  | object _ => simp [refuse_ne_ok, refuseValue_ne_ok]

theorem Decoder.Agrees.entries_eq_ok_iff {d : Decoder α} (h : d.Agrees)
    {es : List (String × Json)}
    (hes : Json.entries (Json.value depth) bound first cs = .ok (es, rest))
    (xs : List (String × α)) (after : List Char) :
    Json.entries (d.text depth) bound first cs = .ok (xs, after) ↔
      d.entries.value (.object es) = .ok xs ∧ after = rest := by
  induction bound generalizing first cs es xs with
  | zero => cases hes
  | succ bound ih =>
    rw [Json.entries] at hes ⊢
    obtain ⟨next, hnext, hes⟩ := bind_eq_ok_iff.mp hes
    rw [hnext, ok_bind]
    cases next with
    | done _ =>
      cases hes
      simp [Decoder.entries, eq_comm]
    | more key text =>
      obtain ⟨text', hcolon, hes⟩ := bind_eq_ok_iff.mp hes
      obtain ⟨⟨j, text''⟩, hj, hes⟩ := bind_eq_ok_iff.mp hes
      obtain ⟨⟨es', _⟩, hes', hes⟩ := bind_eq_ok_iff.mp hes
      cases hes
      simp only [Decoder.entries] at ih ⊢
      simp only [List.mapM_cons, hcolon, ok_bind, bind_eq_ok_iff, Prod.exists, h _ _ _ _ hj,
        pure_eq_ok]
      constructor
      · rintro ⟨x, _, ⟨hx, rfl⟩, xs', _, hxs', hxs⟩
        cases hxs
        obtain ⟨hxs', rfl⟩ := (ih hes' xs').mp hxs'
        exact ⟨⟨key, x, ⟨x, hx, rfl⟩, xs', hxs', rfl⟩, rfl⟩
      · rintro ⟨⟨_, x, ⟨_, hx, hentry⟩, xs', hxs', hxs⟩, rfl⟩
        cases hentry
        cases hxs
        exact ⟨x, _, ⟨hx, rfl⟩, xs', _, (ih hes' xs').mpr ⟨hxs', rfl⟩, rfl⟩

theorem Decoder.Agrees.entries {d : Decoder α} (h : d.Agrees) : d.entries.Agrees := by
  intro depth cs json rest hvalue xs after
  have hat := valueAt_of_value hvalue
  generalize hcs : skipBlanks cs = cs' at hat
  simp only [Decoder.entries, hcs]
  cases hat with
  | scalar hat =>
    obtain ⟨-, hobject⟩ := hat.head_ne
    split
    next => simp at hobject
    next => cases hat <;> simp [refuse_ne_ok, refuseValue_ne_ok]
  | array _ => simp [refuse_ne_ok, refuseValue_ne_ok]
  | object hes => exact h.entries_eq_ok_iff hes xs after

end Containers

section Variants

variable {names : List (String × α)} {x : α} {after : List Char}

theorem Decoder.variant_value_object_eq_ok_iff {es : List (String × Json)} :
    (Decoder.variant names).value (.object es) = .ok x ↔
      ∃ name json, es = [(name, json)] ∧ names.lookup name = some x ∧
        Decoder.unit.value json = .ok () := by
  match es with
  | [] => simp [Decoder.variant]
  | [(name, json)] =>
    cases hname : names.lookup name with
    | none => simp [Decoder.variant, hname]
    | some y =>
      have hunit : (∃ u, Decoder.unit.value json = .ok u) ↔ Decoder.unit.value json = .ok () :=
        ⟨fun ⟨_, h⟩ => h, fun h => ⟨_, h⟩⟩
      simp [Decoder.variant, hname, bind_eq_ok_iff, hunit, and_comm]
  | _ :: _ :: _ => simp [Decoder.variant]

theorem Decoder.variant_text_object_eq_ok_iff (hcs : skipBlanks cs = '\x7b' :: rest) :
    (Decoder.variant names).text (depth + 1) cs = .ok (x, after) ↔
      ∃ name text text' text'', nextKey true rest = .ok (.more name text) ∧
        names.lookup name = some x ∧ colon text = .ok text' ∧
        Decoder.unit.text depth text' = .ok ((), text'') ∧ skipBlanks text'' = '\x7d' :: after := by
  simp only [Decoder.variant, hcs, nested, bind_eq_ok_iff]
  constructor
  · rintro ⟨next, hnext, h⟩
    cases next with
    | done _ => cases h
    | more name text =>
      obtain ⟨y, hname, h⟩ := bind_eq_ok_iff.mp h
      obtain ⟨text', hcolon, h⟩ := bind_eq_ok_iff.mp h
      obtain ⟨⟨⟨⟩, text''⟩, hunit, h⟩ := bind_eq_ok_iff.mp h
      split at hname
      next hlookup =>
        cases hname
        split at h
        next => cases h
        next hclose =>
          cases h
          exact ⟨name, text, text', text'', hnext, hlookup, hcolon, hunit, hclose⟩
        next => cases h
      next => cases hname
  · rintro ⟨name, text, text', text'', hnext, hname, hcolon, hunit, hclose⟩
    exact ⟨_, hnext, by simp [hname, hcolon, hunit, hclose]⟩

-- An object ends exactly where it has no other entries.
theorem closed_iff_of_entries {bound : Nat} {first : Bool} {es : List (String × Json)}
    (h : entries (value depth) bound first cs = .ok (es, rest)) (after : List Char) :
    skipBlanks cs = '\x7d' :: after ↔ es = [] ∧ after = rest := by
  cases bound with
  | zero => cases h
  | succ bound =>
    rw [entries] at h
    obtain ⟨next, hnext, h⟩ := bind_eq_ok_iff.mp h
    cases next with
    | done _ =>
      cases h
      simp [nextKey_eq_done_iff.mp hnext, eq_comm]
    | more key text =>
      obtain ⟨text', -, h⟩ := bind_eq_ok_iff.mp h
      obtain ⟨⟨json, text''⟩, -, h⟩ := bind_eq_ok_iff.mp h
      obtain ⟨⟨es', _⟩, -, h⟩ := bind_eq_ok_iff.mp h
      cases h
      have hopen : skipBlanks cs ≠ '\x7d' :: after := by
        intro hclose
        rw [nextKey_eq_done_iff.mpr hclose] at hnext
        cases hnext
      simp [hopen]

theorem Decoder.variant_agrees (names : List (String × α)) : (Decoder.variant names).Agrees := by
  intro depth cs json rest hvalue x after
  have hat := valueAt_of_value hvalue
  generalize hcs : skipBlanks cs = cs' at hat
  cases hat with
  | scalar hat =>
    simp only [Decoder.variant, hcs]
    cases hat with
    | @string _ name hread =>
      cases hname : names.lookup name with
      | none => simp [hread, hname, failAt]
      | some y => simp [hread, hname, eq_comm]
    | natural hdigit _ =>
      split
      next heq => cases heq
      next heq => exact absurd (List.cons.inj heq).1 (ne_of_isDigit hdigit (by decide))
      next heq => exact absurd (List.cons.inj heq).1 (ne_of_isDigit hdigit (by decide))
      next => simp [failOn, refuseValue_ne_ok]
    | _ => simp [failOn, refuseValue_ne_ok]
  | array _ => simp [Decoder.variant, hcs, failOn, refuseValue_ne_ok]
  | object hes =>
    rw [Decoder.variant_text_object_eq_ok_iff hcs, Decoder.variant_value_object_eq_ok_iff]
    rw [Json.entries] at hes
    obtain ⟨next, hnext, hes⟩ := bind_eq_ok_iff.mp hes
    cases next with
    | done _ =>
      cases hes
      simp [hnext]
    | more key text =>
      obtain ⟨text', hcolon, hes⟩ := bind_eq_ok_iff.mp hes
      obtain ⟨⟨json, text''⟩, hjson, hes⟩ := bind_eq_ok_iff.mp hes
      obtain ⟨⟨es, _⟩, hes', hes⟩ := bind_eq_ok_iff.mp hes
      cases hes
      have hunit := Decoder.unit_agrees _ _ _ _ hjson
      constructor
      · rintro ⟨_, _, _, _, hkey, hlookup, hcolon', hnull, hclose⟩
        cases hnext.symm.trans hkey
        cases hcolon.symm.trans hcolon'
        obtain ⟨hnull, rfl⟩ := (hunit _ _).mp hnull
        obtain ⟨rfl, rfl⟩ := (closed_iff_of_entries hes' after).mp hclose
        exact ⟨⟨key, json, rfl, hlookup, hnull⟩, rfl⟩
      · rintro ⟨⟨_, _, hsingle, hlookup, hnull⟩, rfl⟩
        cases hsingle
        exact ⟨key, text, text', text'', hnext, hlookup, hcolon, (hunit _ _).mpr ⟨hnull, rfl⟩,
          (closed_iff_of_entries hes' after).mpr ⟨rfl, rfl⟩⟩

end Variants

section Records

variable {r : Record σ α} {bound : Nat} {first : Bool}

theorem failTwice_ne_ok (name : String) (cs : List Char) (x : α) :
    Record.failTwice name cs ≠ .ok x := by
  unfold Record.failTwice
  split <;> intro h <;> cases h

theorem Record.objectValue_append (r : Record σ α) (s : σ) (es es' : List (String × Json)) :
    r.objectValue s (es ++ es') = r.objectValue s es >>= (r.objectValue · es') := by
  induction es generalizing s with
  | nil => rfl
  | cons e es ih =>
    obtain ⟨key, json⟩ := e
    rw [List.cons_append, objectValue, objectValue]
    split
    next f _ =>
      split
      · rfl
      · cases f.decoder.value json with
        | error cause => rfl
        | ok set => exact ih (set s)
    next =>
      split
      · exact ih s
      · exact ih _

-- One entry, whose value is the document `json`.
theorem Record.entry_eq_ok_iff (h : ∀ f ∈ r.fields, f.decoder.Agrees) {key : String}
    {text : List Char} (hcolon : colon cs = .ok text)
    (hvalue : value depth text = .ok (json, rest)) (s s' : σ) (after : List Char) :
    r.entry depth s key cs = .ok (s', after) ↔
      r.objectValue s [(key, json)] = .ok s' ∧ after = rest := by
  cases hfield : r.field? key with
  | none =>
    cases hextra : r.extra with
    | none =>
      simp [Record.entry, Record.objectValue, hfield, hextra, hcolon, skip_of_value hvalue, eq_comm]
    | some keep =>
      simp [Record.entry, Record.objectValue, hfield, hextra, hcolon, hvalue, eq_comm]
  | some f =>
    have hf := h f (List.mem_of_find?_eq_some hfield) depth text json rest hvalue
    cases hset : f.isSet s with
    | true => simp [Record.entry, Record.objectValue, hfield, hset, failTwice_ne_ok]
    | false =>
      simp only [Record.entry, Record.objectValue, hfield, hset, hcolon, Bool.false_eq_true,
        if_false, ok_bind, bind_eq_ok_iff, Prod.exists, hf]
      constructor
      · rintro ⟨set, _, ⟨hset, rfl⟩, hs'⟩
        cases hs'
        exact ⟨⟨set, hset, rfl⟩, rfl⟩
      · rintro ⟨⟨set, hset, hs'⟩, rfl⟩
        cases hs'
        exact ⟨set, _, ⟨hset, rfl⟩, rfl⟩

theorem Record.objectText_eq_ok_iff (h : ∀ f ∈ r.fields, f.decoder.Agrees)
    {es : List (String × Json)} (hes : entries (value depth) bound first cs = .ok (es, rest))
    (s s' : σ) (after : List Char) :
    r.objectText depth bound first s cs = .ok (s', after) ↔
      r.objectValue s es = .ok s' ∧ after = rest := by
  induction bound generalizing first cs es s with
  | zero => cases hes
  | succ bound ih =>
    rw [Json.entries] at hes
    obtain ⟨next, hnext, hes⟩ := bind_eq_ok_iff.mp hes
    rw [Record.objectText, hnext, ok_bind]
    cases next with
    | done _ =>
      cases hes
      simp [Record.objectValue, eq_comm]
    | more key text =>
      obtain ⟨text', hcolon, hes⟩ := bind_eq_ok_iff.mp hes
      obtain ⟨⟨json, text''⟩, hvalue, hes⟩ := bind_eq_ok_iff.mp hes
      obtain ⟨⟨es', _⟩, hes', hes⟩ := bind_eq_ok_iff.mp hes
      cases hes
      have hsplit := r.objectValue_append s [(key, json)] es'
      rw [List.singleton_append] at hsplit
      simp only [hsplit, bind_eq_ok_iff, Prod.exists, Record.entry_eq_ok_iff h hcolon hvalue]
      constructor
      · rintro ⟨t, _, ⟨ht, rfl⟩, hs'⟩
        obtain ⟨hs', rfl⟩ := (ih hes' t).mp hs'
        exact ⟨⟨t, ht, hs'⟩, rfl⟩
      · rintro ⟨⟨t, ht, hs'⟩, rfl⟩
        exact ⟨t, _, ⟨ht, rfl⟩, (ih hes' t).mpr ⟨hs', rfl⟩⟩

theorem Record.closeArray_eq_ok_iff : closeArray cs = .ok rest ↔ skipBlanks cs = ']' :: rest := by
  unfold closeArray
  split
  next hcs => simp [hcs, failAt]
  next c cs' hcs =>
    rw [hcs]
    by_cases hclose : c = ']'
    · simp [hclose]
    · simp only [hclose, if_false, List.cons.injEq, false_and, iff_false]
      split
      · split <;> intro h <;> cases h
      · intro h
        cases h

-- The array ends early where the items do, and late where there are more items than fields.
theorem Record.arrayText_eq_ok_iff {fields : List (Field σ)}
    (h : ∀ f ∈ fields, f.decoder.Agrees) (length : Nat) {index : Nat} {js : List Json}
    (hjs : items (value depth) bound (index = 0) cs = .ok (js, rest)) (s s' : σ)
    (after : List Char) :
    r.arrayText depth index fields s cs = .ok (s', after) ↔
      r.arrayValue length index fields s js = .ok s' ∧ after = rest := by
  induction fields generalizing bound index cs js s with
  | nil =>
    rw [Record.arrayText]
    cases bound with
    | zero => cases hjs
    | succ bound =>
      rw [items] at hjs
      obtain ⟨next, hnext, hjs⟩ := bind_eq_ok_iff.mp hjs
      cases next with
      | done _ =>
        cases hjs
        have hclose := closeArray_eq_ok_iff.mpr (nextItem_eq_done_iff.mp hnext)
        simp [hclose, Record.arrayValue, eq_comm]
      | more part text =>
        obtain ⟨⟨j, text'⟩, -, hjs⟩ := bind_eq_ok_iff.mp hjs
        obtain ⟨⟨js', _⟩, -, hjs⟩ := bind_eq_ok_iff.mp hjs
        cases hjs
        have hopen (rest : List Char) : closeArray cs ≠ .ok rest := by
          intro hclose
          rw [nextItem_eq_done_iff.mpr (closeArray_eq_ok_iff.mp hclose)] at hnext
          cases hnext
        simp [Record.arrayValue, bind_eq_ok_iff, hopen]
  | cons f fields ih =>
    rw [Record.arrayText]
    cases bound with
    | zero => cases hjs
    | succ bound =>
      rw [items] at hjs
      obtain ⟨next, hnext, hjs⟩ := bind_eq_ok_iff.mp hjs
      rw [hnext, ok_bind]
      cases next with
      | done _ =>
        cases hjs
        simp only [Record.arrayValue]
        split
        · simp [eq_comm]
        · simp [failAt]
      | more part text =>
        obtain ⟨⟨j, text'⟩, hj, hjs⟩ := bind_eq_ok_iff.mp hjs
        obtain ⟨⟨js', _⟩, hjs', hjs⟩ := bind_eq_ok_iff.mp hjs
        cases hjs
        have hf := h f List.mem_cons_self depth text j text' hj
        have hfields := fun g hg => h g (List.mem_cons_of_mem f hg)
        simp only [Record.arrayValue, bind_eq_ok_iff, Prod.exists, hf]
        constructor
        · rintro ⟨set, _, ⟨hset, rfl⟩, hs'⟩
          obtain ⟨hs', rfl⟩ := (ih hfields (by simpa using hjs') (set s)).mp hs'
          exact ⟨⟨set, hset, hs'⟩, rfl⟩
        · rintro ⟨⟨set, hset, hs'⟩, rfl⟩
          exact ⟨set, _, ⟨hset, rfl⟩, (ih hfields (by simpa using hjs') (set s)).mpr ⟨hs', rfl⟩⟩

-- The state that was read is completed in the same way.
theorem Record.completed_eq_ok_iff (r : Record σ α) {reading : Except Failure (σ × List Char)}
    {found : Except Cause σ}
    (h : ∀ s after, reading = .ok (s, after) ↔ found = .ok s ∧ after = rest)
    (x : α) (after : List Char) :
    (do
      let (s, rest) ← reading
      return (← placed rest (r.complete s), rest)) = .ok (x, after) ↔
      (do r.complete (← found)) = .ok x ∧ after = rest := by
  simp only [bind_eq_ok_iff (x := reading), bind_eq_ok_iff (x := found), Prod.exists, h]
  constructor
  · rintro ⟨s, _, ⟨hs, rfl⟩, hplaced⟩
    obtain ⟨hx, rfl⟩ := placed_eq_ok_iff.mp hplaced
    exact ⟨⟨s, hs, hx⟩, rfl⟩
  · rintro ⟨⟨s, hs, hx⟩, rfl⟩
    exact ⟨s, _, ⟨hs, rfl⟩, placed_eq_ok_iff.mpr ⟨hx, rfl⟩⟩

theorem Record.decoder_agrees (h : ∀ f ∈ r.fields, f.decoder.Agrees) : r.decoder.Agrees := by
  intro depth cs json rest hvalue x after
  have hat := valueAt_of_value hvalue
  generalize hcs : skipBlanks cs = cs' at hat
  simp only [Record.decoder, hcs]
  cases hat with
  | scalar hat =>
    obtain ⟨harray, hobject⟩ := hat.head_ne
    split
    next => simp at hobject
    next => simp at harray
    next => cases hat <;> simp [refuse_ne_ok, refuseValue_ne_ok]
  | @array _ _ js hjs =>
    by_cases hextra : r.extra.isSome = true
    · simp [hextra, refuse_ne_ok, refuseValue_ne_ok]
    · simp only [hextra]
      exact r.completed_eq_ok_iff (Record.arrayText_eq_ok_iff h js.length hjs r.start) x after
  | object hes =>
    exact r.completed_eq_ok_iff (Record.objectText_eq_ok_iff h hes r.start) x after

end Records

end EmbeddedStyles.Json
