import EmbeddedStyles.Proofs.Json.Skipping.Scalars

namespace EmbeddedStyles.Json

variable {cs rest : List Char}

section Containers

variable {α : Type} {read : List Char → Except Failure (α × List Char)}
  {skip : List Char → Except Failure (List Char)} {bound : Nat} {first : Bool}

-- The reader takes at least one character.
def Consumes (read : List Char → Except Failure (α × List Char)) : Prop :=
  ∀ cs x rest, read cs = .ok (x, rest) → rest.length < cs.length

theorem length_le_of_nextItem {part : Unit} (h : nextItem first cs = .ok (.more part rest)) :
    rest.length ≤ cs.length := by
  obtain ⟨-, -, hrest⟩ := nextItem_eq_more_iff.mp h
  have hcs := length_skipBlanks_le cs
  split at hrest
  next => rwa [hrest]
  next =>
    obtain ⟨cs', hcomma, rfl⟩ := hrest
    have := length_skipBlanks_le cs'
    rw [hcomma, List.length_cons] at hcs
    omega

theorem length_lt_of_nextKey {key : String} (h : nextKey first cs = .ok (.more key rest)) :
    rest.length < cs.length := by
  obtain ⟨cs', hread, hcs'⟩ := nextKey_eq_more_iff.mp h
  have hkey := length_lt_of_skipString (skipString_of_readString hread)
  have hcs := length_skipBlanks_le cs
  split at hcs'
  next =>
    rw [hcs', List.length_cons] at hcs
    omega
  next =>
    obtain ⟨cs'', hcomma, hquote⟩ := hcs'
    have := length_skipBlanks_le cs''
    rw [hquote, List.length_cons] at this
    rw [hcomma, List.length_cons] at hcs
    omega

theorem Consumes.items (hread : Consumes read) {xs : List α}
    (h : items read bound first cs = .ok (xs, rest)) : xs.length + rest.length < cs.length := by
  induction bound generalizing first cs xs with
  | zero => cases h
  | succ bound ih =>
    rw [Json.items] at h
    obtain ⟨next, hnext, h⟩ := bind_eq_ok_iff.mp h
    cases next with
    | done after =>
      cases h
      have hcs := length_skipBlanks_le cs
      rw [nextItem_eq_done_iff.mp hnext, List.length_cons] at hcs
      rw [List.length_nil]
      omega
    | more part after =>
      obtain ⟨⟨x, after'⟩, hx, h⟩ := bind_eq_ok_iff.mp h
      obtain ⟨⟨xs', _⟩, hxs, h⟩ := bind_eq_ok_iff.mp h
      cases h
      have hpart := length_le_of_nextItem hnext
      have hitem := hread _ _ _ hx
      have htail := ih hxs
      rw [List.length_cons]
      omega

theorem Consumes.entries (hread : Consumes read) {xs : List (String × α)}
    (h : entries read bound first cs = .ok (xs, rest)) : xs.length + rest.length < cs.length := by
  induction bound generalizing first cs xs with
  | zero => cases h
  | succ bound ih =>
    rw [Json.entries] at h
    obtain ⟨next, hnext, h⟩ := bind_eq_ok_iff.mp h
    cases next with
    | done after =>
      cases h
      have hcs := length_skipBlanks_le cs
      rw [nextKey_eq_done_iff.mp hnext, List.length_cons] at hcs
      rw [List.length_nil]
      omega
    | more key after =>
      obtain ⟨after', hcolon, h⟩ := bind_eq_ok_iff.mp h
      obtain ⟨⟨x, after''⟩, hx, h⟩ := bind_eq_ok_iff.mp h
      obtain ⟨⟨xs', _⟩, hxs, h⟩ := bind_eq_ok_iff.mp h
      cases h
      have hkey := length_lt_of_nextKey hnext
      have hafter := length_skipBlanks_le after
      rw [colon_eq_ok_iff.mp hcolon, List.length_cons] at hafter
      have hentry := hread _ _ _ hx
      have htail := ih hxs
      rw [List.length_cons]
      omega

theorem consumes_value (depth : Nat) : Consumes (value depth) := by
  induction depth with
  | zero =>
    intro cs json rest h
    cases valueAt_of_value h with
    | scalar hscalar =>
      have := length_lt_of_skipScalar (skipScalar_of_scalarAt hscalar)
      have := length_skipBlanks_le cs
      omega
  | succ depth ih =>
    intro cs json rest h
    have hcs := length_skipBlanks_le cs
    have hat := valueAt_of_value h
    generalize skipBlanks cs = cs' at hcs hat
    cases hat with
    | scalar hscalar =>
      have := length_lt_of_skipScalar (skipScalar_of_scalarAt hscalar)
      omega
    | array hitems =>
      have := ih.items hitems
      rw [List.length_cons] at hcs
      omega
    | object hentries =>
      have := ih.entries hentries
      rw [List.length_cons] at hcs
      omega

theorem skipItems_of_items (hread : Consumes read)
    (hblanks : ∀ cs, read (skipBlanks cs) = read cs) {limit : Nat}
    (hskip : ∀ cs x rest, cs.length ≤ limit → read cs = .ok (x, rest) → skip cs = .ok rest)
    {x : α} {xs : List α} {after : List Char} (hx : read cs = .ok (x, after))
    (hxs : items read bound false after = .ok (xs, rest)) (hlimit : cs.length ≤ limit)
    {bound' : Nat} (hbound : xs.length < bound') : skipItems skip bound' cs = .ok rest := by
  induction bound generalizing cs x xs after bound' with
  | zero => cases hxs
  | succ bound ih =>
    obtain ⟨bound', rfl⟩ : ∃ n, bound' = n + 1 := ⟨bound' - 1, by omega⟩
    rw [skipItems, hskip cs x after hlimit hx, ok_bind]
    rw [items] at hxs
    obtain ⟨next, hnext, hxs⟩ := bind_eq_ok_iff.mp hxs
    cases next with
    | done rest' =>
      cases hxs
      rw [nextItem_eq_done_iff.mp hnext]
      rfl
    | more part after' =>
      obtain ⟨⟨y, after''⟩, hy, hxs⟩ := bind_eq_ok_iff.mp hxs
      obtain ⟨⟨ys, _⟩, hys, hxs⟩ := bind_eq_ok_iff.mp hxs
      cases hxs
      obtain ⟨-, -, cs', hcomma, rfl⟩ := nextItem_eq_more_iff.mp hnext
      rw [hblanks] at hy
      have hafter := length_skipBlanks_le after
      rw [hcomma, List.length_cons] at hafter
      have hitem := hread _ _ _ hx
      rw [hcomma]
      exact ih hy hys (by omega) (by simpa using hbound)

theorem skipArray_of_items (hread : Consumes read)
    (hblanks : ∀ cs, read (skipBlanks cs) = read cs) {limit : Nat}
    (hskip : ∀ cs x rest, cs.length ≤ limit → read cs = .ok (x, rest) → skip cs = .ok rest)
    {xs : List α} (h : items read bound true cs = .ok (xs, rest)) (hlimit : cs.length ≤ limit) :
    skipArray skip cs = .ok rest := by
  cases bound with
  | zero => cases h
  | succ bound =>
    rw [items] at h
    obtain ⟨next, hnext, h⟩ := bind_eq_ok_iff.mp h
    have hcs := length_skipBlanks_le cs
    cases next with
    | done after =>
      cases h
      rw [skipArray, nextItem_eq_done_iff.mp hnext]
      rfl
    | more part after =>
      obtain ⟨⟨x, after'⟩, hx, h⟩ := bind_eq_ok_iff.mp h
      obtain ⟨⟨xs', _⟩, hxs, h⟩ := bind_eq_ok_iff.mp h
      cases h
      obtain ⟨hne, hclose, rfl⟩ := nextItem_eq_more_iff.mp hnext
      have hitem := hread _ _ _ hx
      have htail := hread.items hxs
      cases hfirst : skipBlanks cs with
      | nil => exact absurd hfirst hne
      | cons c cs' =>
        rw [hfirst] at hclose hx hitem hcs
        rw [List.length_cons] at hitem
        simp only [List.head?_cons, ne_eq, Option.some.injEq] at hclose
        simp only [skipArray, hfirst, hclose, if_false]
        exact skipItems_of_items hread hblanks hskip hx hxs (by omega) (by omega)

-- Here the first key was found, and the entries that follow its own are read as usual.
theorem skipEntries_of_entries (hread : Consumes read) {limit : Nat}
    (hskip : ∀ cs x rest, cs.length ≤ limit → read cs = .ok (x, rest) → skip cs = .ok rest)
    {key : String} {quoted after after' after'' : List Char} {x : α} {es : List (String × α)}
    (hquote : skipBlanks cs = '"' :: quoted) (hkey : readString quoted = .ok (key, after))
    (hcolon : colon after = .ok after') (hx : read after' = .ok (x, after''))
    (hes : entries read bound false after'' = .ok (es, rest)) (hlimit : cs.length ≤ limit)
    {bound' : Nat} (hbound : es.length < bound') : skipEntries skip bound' cs = .ok rest := by
  induction bound generalizing cs key quoted after after' after'' x es bound' with
  | zero => cases hes
  | succ bound ih =>
    obtain ⟨bound', rfl⟩ : ∃ n, bound' = n + 1 := ⟨bound' - 1, by omega⟩
    have hstring := skipString_of_readString hkey
    have hquoted := length_skipBlanks_le cs
    rw [hquote, List.length_cons] at hquoted
    have hafter := length_lt_of_skipString hstring
    have hafter' := length_skipBlanks_le after
    rw [colon_eq_ok_iff.mp hcolon, List.length_cons] at hafter'
    have hentry := hread _ _ _ hx
    have hstep : skip after' = .ok after'' := hskip after' x after'' (by omega) hx
    simp only [skipEntries, hquote, if_true, hstring, hcolon, hstep, ok_bind]
    rw [entries] at hes
    obtain ⟨next, hnext, hes⟩ := bind_eq_ok_iff.mp hes
    cases next with
    | done rest' =>
      cases hes
      rw [nextKey_eq_done_iff.mp hnext]
      rfl
    | more key' following =>
      obtain ⟨following', hcolon', hes⟩ := bind_eq_ok_iff.mp hes
      obtain ⟨⟨y, following''⟩, hy, hes⟩ := bind_eq_ok_iff.mp hes
      obtain ⟨⟨es', _⟩, hes', hes⟩ := bind_eq_ok_iff.mp hes
      cases hes
      obtain ⟨quoted', hkey', cs', hcomma, hquote'⟩ := nextKey_eq_more_iff.mp hnext
      have hafter'' := length_skipBlanks_le after''
      rw [hcomma, List.length_cons] at hafter''
      rw [hcomma]
      exact ih hquote' hkey' hcolon' hy hes' (by omega) (by simpa using hbound)

theorem skipObject_of_entries (hread : Consumes read) {limit : Nat}
    (hskip : ∀ cs x rest, cs.length ≤ limit → read cs = .ok (x, rest) → skip cs = .ok rest)
    {es : List (String × α)} (h : entries read bound true cs = .ok (es, rest))
    (hlimit : cs.length ≤ limit) : skipObject skip cs = .ok rest := by
  cases bound with
  | zero => cases h
  | succ bound =>
    rw [entries] at h
    obtain ⟨next, hnext, h⟩ := bind_eq_ok_iff.mp h
    cases next with
    | done after =>
      cases h
      rw [skipObject, nextKey_eq_done_iff.mp hnext]
      rfl
    | more key after =>
      obtain ⟨after', hcolon, h⟩ := bind_eq_ok_iff.mp h
      obtain ⟨⟨x, after''⟩, hx, h⟩ := bind_eq_ok_iff.mp h
      obtain ⟨⟨es', _⟩, hes, h⟩ := bind_eq_ok_iff.mp h
      cases h
      obtain ⟨quoted, hkey, hquote⟩ := nextKey_eq_more_iff.mp hnext
      rw [if_pos rfl] at hquote
      have hcs := length_skipBlanks_le cs
      rw [hquote, List.length_cons] at hcs
      have hafter := length_lt_of_skipString (skipString_of_readString hkey)
      have hafter' := length_skipBlanks_le after
      rw [colon_eq_ok_iff.mp hcolon, List.length_cons] at hafter'
      have hentry := hread _ _ _ hx
      have htail := hread.entries hes
      have hopen : skipObject skip cs = skipEntries skip (quoted.length + 1) ('"' :: quoted) := by
        simp [skipObject, hquote]
      rw [hopen]
      exact skipEntries_of_entries hread hskip (skipBlanks_cons (by decide) quoted) hkey hcolon hx
        hes (by rw [List.length_cons]; omega) (by omega)

end Containers

-- The bound falls by one where a container is opened, and its parts are shorter.
theorem skipBounded_of_value {depth bound : Nat} {json : Json}
    (h : value depth cs = .ok (json, rest)) (hbound : cs.length ≤ bound) :
    skipBounded bound cs = .ok rest := by
  induction bound generalizing depth cs json rest with
  | zero =>
    have := consumes_value depth _ _ _ h
    omega
  | succ bound ih =>
    have hcs := length_skipBlanks_le cs
    have hat := valueAt_of_value h
    generalize hstart : skipBlanks cs = cs' at hcs hat
    rw [skipBounded, hstart]
    cases hat with
    | scalar hscalar =>
      obtain ⟨harray, hobject⟩ := hscalar.head_ne
      split
      next => simp at harray
      next => simp at hobject
      next => exact skipScalar_of_scalarAt hscalar
    | @array depth _ _ hitems =>
      rw [List.length_cons] at hcs
      exact skipArray_of_items (consumes_value depth) (value_skipBlanks depth)
        (fun _ _ _ hlimit hread => ih hread hlimit) hitems (by omega)
    | @object depth _ _ hentries =>
      rw [List.length_cons] at hcs
      exact skipObject_of_entries (consumes_value depth)
        (fun _ _ _ hlimit hread => ih hread hlimit) hentries (by omega)

-- What is read as a document is passed over to its end.
theorem skip_of_value {depth : Nat} {json : Json} (h : value depth cs = .ok (json, rest)) :
    skip cs = .ok rest :=
  skipBounded_of_value h le_rfl

end EmbeddedStyles.Json
