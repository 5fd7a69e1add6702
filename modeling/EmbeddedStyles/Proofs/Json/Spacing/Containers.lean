import EmbeddedStyles.Proofs.Json.Spacing.Scalars

namespace EmbeddedStyles.Json

variable {cs rest : List Char}

section Containers

variable {α : Type} {read : List Char → Except Failure (α × List Char)} {bound bound' : Nat}
  {first : Bool}

theorem carries_colon (h : colon cs = .ok rest) :
    Carries .between .between cs rest fun ds rest' => colon ds = .ok rest' :=
  (Carries.skipBlanks_cons (colon_eq_ok_iff.mp h) (by decide)).mono fun _ _ => colon_eq_ok_iff.mpr

theorem carries_nextItem_done (h : nextItem first cs = .ok (.done rest)) :
    Carries .between .between cs rest fun ds rest' => nextItem first ds = .ok (.done rest') :=
  (Carries.skipBlanks_cons (nextItem_eq_done_iff.mp h) (by decide)).mono
    fun _ _ => nextItem_eq_done_iff.mpr

theorem carries_nextKey_done (h : nextKey first cs = .ok (.done rest)) :
    Carries .between .between cs rest fun ds rest' => nextKey first ds = .ok (.done rest') :=
  (Carries.skipBlanks_cons (nextKey_eq_done_iff.mp h) (by decide)).mono
    fun _ _ => nextKey_eq_done_iff.mpr

theorem carries_nextItem_more {part : Unit} (h : nextItem first cs = .ok (.more part rest)) :
    Carries .between .between cs rest fun ds rest' =>
      nextItem first ds = .ok (.more part rest') := by
  obtain ⟨hne, hopen, hwhere⟩ := nextItem_eq_more_iff.mp h
  -- The item goes on with the same character in both texts.
  have hstart {rest' : List Char} (hhead : rest'.head? = rest.head?) :
      rest' ≠ [] ∧ rest'.head? ≠ some ']' := by
    refine ⟨?_, hhead ▸ hopen⟩
    rintro rfl
    exact hne (List.head?_eq_none_iff.mp hhead.symm)
  cases first with
  | true =>
    obtain rfl : rest = skipBlanks cs := by simpa using hwhere
    refine (Carries.skipBlanks cs).mono ?_
    rintro ds rest' ⟨rfl, hhead⟩
    exact nextItem_eq_more_iff.mpr ⟨(hstart hhead).1, (hstart hhead).2, rfl⟩
  | false =>
    obtain ⟨cs', hcomma, rfl⟩ : ∃ cs', skipBlanks cs = ',' :: cs' ∧ rest = skipBlanks cs' := by
      simpa using hwhere
    refine (Carries.skipBlanks_cons hcomma (by decide)).trans (Carries.skipBlanks cs') ?_
    rintro ds mid' rest' hds ⟨rfl, hhead⟩
    exact nextItem_eq_more_iff.mpr ⟨(hstart hhead).1, (hstart hhead).2, mid', hds, rfl⟩

theorem carries_nextKey_more {key : String} (h : nextKey first cs = .ok (.more key rest)) :
    Carries .between .between cs rest fun ds rest' =>
      nextKey first ds = .ok (.more key rest') := by
  obtain ⟨quoted, hread, hwhere⟩ := nextKey_eq_more_iff.mp h
  cases first with
  | true =>
    have hquote : skipBlanks cs = '"' :: quoted := by simpa using hwhere
    refine (Carries.skipBlanks_cons hquote (by decide)).trans (carries_readString hread) ?_
    intro ds quoted' rest' hds hread'
    exact nextKey_eq_more_iff.mpr ⟨quoted', hread', hds⟩
  | false =>
    obtain ⟨cs', hcomma, hquote⟩ :
        ∃ cs', skipBlanks cs = ',' :: cs' ∧ skipBlanks cs' = '"' :: quoted := by
      simpa using hwhere
    have hkey : Carries .between .between cs' rest fun ds rest' =>
        ∃ quoted', skipBlanks ds = '"' :: quoted' ∧ readString quoted' = .ok (key, rest') :=
      (Carries.skipBlanks_cons hquote (by decide)).trans (carries_readString hread)
        fun _ quoted' _ hds hread' => ⟨quoted', hds, hread'⟩
    refine (Carries.skipBlanks_cons hcomma (by decide)).trans hkey ?_
    rintro ds mid' rest' hds ⟨quoted', hmid, hread'⟩
    exact nextKey_eq_more_iff.mpr ⟨quoted', hread', mid', hds, hmid⟩

-- The reader is followed over a whole part, whatever the part is.
def Spaced (read : List Char → Except Failure (α × List Char)) : Prop :=
  ∀ cs x rest, read cs = .ok (x, rest) →
    Carries .between .between cs rest fun ds rest' => read ds = .ok (x, rest')

theorem Spaced.items (hread : Spaced read) {xs : List α}
    (h : items read bound first cs = .ok (xs, rest)) (hbound : bound ≤ bound') :
    Carries .between .between cs rest fun ds rest' =>
      Json.items read bound' first ds = .ok (xs, rest') := by
  induction bound generalizing first cs xs bound' with
  | zero => cases h
  | succ bound ih =>
    obtain ⟨bound', rfl⟩ : ∃ n, bound' = n + 1 := ⟨bound' - 1, by omega⟩
    rw [Json.items] at h
    obtain ⟨next, hnext, h⟩ := bind_eq_ok_iff.mp h
    cases next with
    | done after =>
      cases h
      refine (carries_nextItem_done hnext).mono ?_
      intro ds rest' hds
      simp [Json.items, hds]
    | more part after =>
      obtain ⟨⟨x, after'⟩, hx, h⟩ := bind_eq_ok_iff.mp h
      obtain ⟨⟨xs', _⟩, hxs, h⟩ := bind_eq_ok_iff.mp h
      cases h
      have hitem : Carries .between .between cs after' fun ds rest' =>
          ∃ mid', nextItem first ds = .ok (.more part mid') ∧ read mid' = .ok (x, rest') :=
        (carries_nextItem_more hnext).trans (hread _ _ _ hx)
          fun _ mid' _ hnext' hx' => ⟨mid', hnext', hx'⟩
      refine hitem.trans (ih hxs (Nat.le_of_succ_le_succ hbound)) ?_
      rintro ds _ rest' ⟨mid', hnext', hx'⟩ hxs'
      simp [Json.items, hnext', hx', hxs']

theorem Spaced.entries (hread : Spaced read) {es : List (String × α)}
    (h : entries read bound first cs = .ok (es, rest)) (hbound : bound ≤ bound') :
    Carries .between .between cs rest fun ds rest' =>
      Json.entries read bound' first ds = .ok (es, rest') := by
  induction bound generalizing first cs es bound' with
  | zero => cases h
  | succ bound ih =>
    obtain ⟨bound', rfl⟩ : ∃ n, bound' = n + 1 := ⟨bound' - 1, by omega⟩
    rw [Json.entries] at h
    obtain ⟨next, hnext, h⟩ := bind_eq_ok_iff.mp h
    cases next with
    | done after =>
      cases h
      refine (carries_nextKey_done hnext).mono ?_
      intro ds rest' hds
      simp [Json.entries, hds]
    | more key after =>
      obtain ⟨after', hcolon, h⟩ := bind_eq_ok_iff.mp h
      obtain ⟨⟨x, after''⟩, hx, h⟩ := bind_eq_ok_iff.mp h
      obtain ⟨⟨es', _⟩, hes, h⟩ := bind_eq_ok_iff.mp h
      cases h
      have hkey : Carries .between .between cs after' fun ds rest' =>
          ∃ mid', nextKey first ds = .ok (.more key mid') ∧ colon mid' = .ok rest' :=
        (carries_nextKey_more hnext).trans (carries_colon hcolon)
          fun _ mid' _ hnext' hcolon' => ⟨mid', hnext', hcolon'⟩
      have hentry : Carries .between .between cs after'' fun ds rest' =>
          ∃ mid' mid'', nextKey first ds = .ok (.more key mid') ∧ colon mid' = .ok mid'' ∧
            read mid'' = .ok (x, rest') :=
        hkey.trans (hread _ _ _ hx)
          fun _ mid'' _ ⟨mid', hnext', hcolon'⟩ hx' => ⟨mid', mid'', hnext', hcolon', hx'⟩
      refine hentry.trans (ih hes (Nat.le_of_succ_le_succ hbound)) ?_
      rintro ds _ rest' ⟨mid', mid'', hnext', hcolon', hx'⟩ hes'
      simp [Json.entries, hnext', hcolon', hx', hes']

-- Blanks do not make a container shorter, so its parts are all read.
theorem Carries.of_bounded {s s' : Scan} {reads : Nat → List Char → List Char → Prop}
    (h : ∀ bound, cs.length + 1 ≤ bound → Carries s s' cs rest (reads bound)) :
    Carries s s' cs rest fun ds rest' => reads (ds.length + 1) ds rest' :=
  ⟨(h _ le_rfl).1, fun ds hds => (h _ (Nat.succ_le_succ hds.length_le)).2 ds hds⟩

theorem carries_scalar (depth : Nat) {json : Json} (h : ScalarAt rest (skipBlanks cs) json) :
    Carries .between .between cs rest fun ds rest' => value depth ds = .ok (json, rest') := by
  cases hcs : skipBlanks cs with
  | nil =>
    rw [hcs] at h
    cases h
  | cons c cs' =>
    rw [hcs] at h
    obtain ⟨hslash, hcarries⟩ := carries_scalarAt h
    refine (Carries.skipBlanks_cons hcs hslash).trans hcarries ?_
    intro ds mid' rest' hds hat
    exact ValueAt.value_eq (hds ▸ .scalar hat)

theorem spaced_value (depth : Nat) : Spaced (value depth) := by
  induction depth with
  | zero =>
    intro cs json rest h
    cases valueAt_of_value h with
    | scalar hscalar => exact carries_scalar 0 hscalar
  | succ depth ih =>
    intro cs json rest h
    have hat := valueAt_of_value h
    generalize hcs : skipBlanks cs = cs' at hat
    cases hat with
    | scalar hscalar => exact carries_scalar (depth + 1) (hcs ▸ hscalar)
    | array hitems =>
      have hparts := Carries.of_bounded fun _ => ih.items hitems
      refine (Carries.skipBlanks_cons hcs (by decide)).trans hparts ?_
      intro ds mid' rest' hds hitems'
      exact ValueAt.value_eq (hds ▸ .array hitems')
    | object hentries =>
      have hparts := Carries.of_bounded fun _ => ih.entries hentries
      refine (Carries.skipBlanks_cons hcs (by decide)).trans hparts ?_
      intro ds mid' rest' hds hentries'
      exact ValueAt.value_eq (hds ▸ .object hentries')

end Containers

section Documents

variable {json : Json}

theorem clean_of_ofChars (h : ofChars cs = .ok json) : Scan.between.Clean cs := by
  obtain ⟨rest, hvalue, hblank⟩ := finish_eq_ok_iff.mp h
  apply (spaced_value maxDepth cs json rest hvalue).1
  apply Scan.clean_of_skipBlanks
  rw [hblank]
  trivial

theorem ofChars_of_inserted (h : ofChars cs = .ok json) {ds : List Char}
    (hds : Inserted Blank .between cs ds) : ofChars ds = .ok json := by
  obtain ⟨rest, hvalue, hblank⟩ := finish_eq_ok_iff.mp h
  obtain ⟨rest', hvalue', hrest⟩ := (spaced_value maxDepth cs json rest hvalue).2 ds hds
  exact finish_eq_ok_iff.mpr ⟨rest', hvalue', hrest.skipBlanks_eq_nil hblank⟩

end Documents

end EmbeddedStyles.Json
