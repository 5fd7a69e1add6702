import EmbeddedStyles.Proofs.Json.Agreement

namespace EmbeddedStyles.Json

variable {α β σ : Type} {depth bound : Nat} {first : Bool} {cs rest : List Char}

-- Where the decoder takes something, a document stands.
def Decoder.Thorough (d : Decoder α) : Prop :=
  ∀ depth cs x rest, d.text depth cs = .ok (x, rest) →
    ∃ json, Json.value depth cs = .ok (json, rest)

theorem Decoder.Thorough.exists_parse {d : Decoder α} (h : d.Thorough) {text : String} {x : α}
    (hx : d.ofText text = .ok x) : ∃ json, parse text = .ok json := by
  obtain ⟨rest, htext, hblank⟩ := finish_eq_ok_iff.mp hx
  obtain ⟨json, hvalue⟩ := h _ _ _ _ htext
  exact ⟨json, finish_eq_ok_iff.mpr ⟨rest, hvalue, hblank⟩⟩

theorem Decoder.Thorough.map {d : Decoder α} (h : d.Thorough) (f : α → β) :
    (d.map f).Thorough := by
  intro depth cs y rest hy
  obtain ⟨⟨x, _⟩, hx, hy⟩ := bind_eq_ok_iff.mp hy
  cases hy
  exact h depth cs x rest hx

theorem Decoder.stringAs_thorough (wanted : String) : (Decoder.stringAs wanted).Thorough := by
  intro depth cs s rest hs
  simp only [Decoder.stringAs] at hs
  split at hs
  next cs' hcs => exact ⟨.string s, ValueAt.value_eq (hcs ▸ .scalar (.string hs))⟩
  next => exact absurd hs (refuse_ne_ok _ _ _)

theorem Decoder.natural_thorough (limit : Nat) (wanted : String) :
    (Decoder.natural limit wanted).Thorough := by
  intro depth cs x rest hx
  simp only [Decoder.natural] at hx
  split at hx
  · cases hx
  next c cs' hcs =>
    split at hx
    next hstart =>
      obtain ⟨n, hn⟩ : ∃ n, ScalarAt rest (c :: cs') (.number n) := by
        split at hx
        next hminus =>
          obtain ⟨⟨n, _⟩, hread, hx⟩ := bind_eq_ok_iff.mp hx
          obtain ⟨-, rfl⟩ := placed_eq_ok_iff.mp hx
          exact ⟨n, hminus ▸ .negative hread⟩
        next hminus =>
          obtain ⟨⟨n, _⟩, hread, hx⟩ := bind_eq_ok_iff.mp hx
          obtain ⟨-, rfl⟩ := placed_eq_ok_iff.mp hx
          exact ⟨n, .natural (by simpa [hminus] using hstart) hread⟩
      exact ⟨.number n, ValueAt.value_eq (hcs ▸ .scalar hn)⟩
    next => exact absurd hx (refuse_ne_ok _ _ _)

theorem Decoder.u32_thorough : Decoder.u32.Thorough :=
  (Decoder.natural_thorough _ _).map _

theorem Decoder.Thorough.optional {d : Decoder α} (h : d.Thorough) : d.optional.Thorough := by
  intro depth cs x rest hx
  simp only [Decoder.optional] at hx
  split at hx
  next cs' hcs =>
    obtain ⟨_, hread, hx⟩ := bind_eq_ok_iff.mp hx
    cases hx
    exact ⟨.null, ValueAt.value_eq (hcs ▸ .scalar (.null hread))⟩
  next =>
    obtain ⟨⟨y, _⟩, hy, hx⟩ := bind_eq_ok_iff.mp hx
    cases hx
    obtain ⟨json, hvalue⟩ := h _ _ _ _ hy
    exact ⟨json, (value_skipBlanks depth cs).symm.trans hvalue⟩

section Containers

theorem Decoder.Thorough.exists_items {d : Decoder α} (h : d.Thorough) {xs : List α}
    (hxs : items (d.text depth) bound first cs = .ok (xs, rest)) :
    ∃ js, items (Json.value depth) bound first cs = .ok (js, rest) := by
  induction bound generalizing first cs xs with
  | zero => cases hxs
  | succ bound ih =>
    rw [items] at hxs ⊢
    obtain ⟨next, hnext, hxs⟩ := bind_eq_ok_iff.mp hxs
    rw [hnext, ok_bind]
    cases next with
    | done _ =>
      cases hxs
      exact ⟨[], rfl⟩
    | more part text =>
      obtain ⟨⟨x, text'⟩, hx, hxs⟩ := bind_eq_ok_iff.mp hxs
      obtain ⟨⟨xs', _⟩, hxs', hxs⟩ := bind_eq_ok_iff.mp hxs
      cases hxs
      obtain ⟨json, hjson⟩ := h _ _ _ _ hx
      obtain ⟨js, hjs⟩ := ih hxs'
      exact ⟨json :: js, by simp [hjson, hjs]⟩

theorem Decoder.Thorough.list {d : Decoder α} (h : d.Thorough) : d.list.Thorough := by
  intro depth cs xs rest hxs
  simp only [Decoder.list] at hxs
  split at hxs
  next cs' hcs =>
    cases depth with
    | zero => cases hxs
    | succ depth =>
      obtain ⟨js, hjs⟩ := h.exists_items hxs
      exact ⟨.array js, ValueAt.value_eq (hcs ▸ .array hjs)⟩
  next => exact absurd hxs (refuse_ne_ok _ _ _)

variable {r : Record σ α}

-- An entry that is no field is kept, and read for that.
theorem Record.exists_value_of_entry (hextra : r.extra.isSome = true)
    (h : ∀ f ∈ r.fields, f.decoder.Thorough) {s s' : σ} {key : String}
    (hentry : r.entry depth s key cs = .ok (s', rest)) :
    ∃ text json, colon cs = .ok text ∧ value depth text = .ok (json, rest) := by
  unfold Record.entry at hentry
  split at hentry
  next f hfield =>
    split at hentry
    · exact absurd hentry (failTwice_ne_ok _ _ _)
    · obtain ⟨text, hcolon, hentry⟩ := bind_eq_ok_iff.mp hentry
      obtain ⟨⟨set, _⟩, hset, hentry⟩ := bind_eq_ok_iff.mp hentry
      cases hentry
      obtain ⟨json, hjson⟩ := h f (List.mem_of_find?_eq_some hfield) _ _ _ _ hset
      exact ⟨text, json, hcolon, hjson⟩
  next =>
    split at hentry
    next hnone => simp [hnone] at hextra
    next keep _ =>
      obtain ⟨text, hcolon, hentry⟩ := bind_eq_ok_iff.mp hentry
      obtain ⟨⟨json, _⟩, hjson, hentry⟩ := bind_eq_ok_iff.mp hentry
      cases hentry
      exact ⟨text, json, hcolon, hjson⟩

theorem Record.exists_entries_of_objectText (hextra : r.extra.isSome = true)
    (h : ∀ f ∈ r.fields, f.decoder.Thorough) {s s' : σ}
    (hobject : r.objectText depth bound first s cs = .ok (s', rest)) :
    ∃ es, entries (value depth) bound first cs = .ok (es, rest) := by
  induction bound generalizing first s cs with
  | zero => cases hobject
  | succ bound ih =>
    rw [Record.objectText] at hobject
    rw [entries]
    obtain ⟨next, hnext, hobject⟩ := bind_eq_ok_iff.mp hobject
    rw [hnext, ok_bind]
    cases next with
    | done _ =>
      cases hobject
      exact ⟨[], rfl⟩
    | more key text =>
      obtain ⟨⟨t, text'⟩, hentry, hobject⟩ := bind_eq_ok_iff.mp hobject
      obtain ⟨text'', json, hcolon, hjson⟩ := Record.exists_value_of_entry hextra h hentry
      obtain ⟨es, hes⟩ := ih hobject
      exact ⟨(key, json) :: es, by simp [hcolon, hjson, hes]⟩

theorem Record.decoder_thorough (hextra : r.extra.isSome = true)
    (h : ∀ f ∈ r.fields, f.decoder.Thorough) : r.decoder.Thorough := by
  intro depth cs x rest hx
  simp only [Record.decoder] at hx
  split at hx
  next cs' hcs =>
    cases depth with
    | zero => cases hx
    | succ depth =>
      obtain ⟨⟨s, text⟩, hs, hx⟩ := bind_eq_ok_iff.mp hx
      obtain ⟨-, rfl⟩ := placed_eq_ok_iff.mp hx
      obtain ⟨es, hes⟩ := Record.exists_entries_of_objectText hextra h hs
      exact ⟨.object es, ValueAt.value_eq (hcs ▸ .object hes)⟩
  next cs' hcs =>
    rw [if_pos hextra] at hx
    exact absurd hx (refuse_ne_ok _ _ _)
  next => exact absurd hx (refuse_ne_ok _ _ _)

end Containers

end EmbeddedStyles.Json
