import EmbeddedStyles.Proofs.Json.Reading

namespace EmbeddedStyles.Json

-- What the characters before a place have begun.
inductive Scan where
  -- No token, or one that is complete.
  | between
  -- A number or a keyword, complete unless another character of one follows.
  | word
  | string
  -- A string, just after a backslash in it.
  | escape
  deriving DecidableEq, Repr

-- A character of numbers and keywords.
def isWordChar (c : Char) : Bool :=
  c.isAlphanum || c = '+' || c = '-' || c = '.'

namespace Scan

def next : Scan → Char → Scan
  | .string, c => if c = '"' then .between else if c = '\\' then .escape else .string
  | .escape, _ => .string
  | _, c => if c = '"' then .string else if isWordChar c then .word else .between

def inString : Scan → Bool
  | .string | .escape => true
  | _ => false

-- No token goes on at the place before `rest`.
def AtBoundary (s : Scan) (rest : List Char) : Prop :=
  s = .between ∨ s = .word ∧ ∀ c ∈ rest.head?, isWordChar c = false

-- No slash stands outside the strings.
def Clean : Scan → List Char → Prop
  | _, [] => True
  | s, c :: cs => (s.inString = true ∨ c ≠ '/') ∧ Clean (s.next c) cs

end Scan

-- A text with pieces of a kind put between its tokens, before the first one and after the last.
inductive Inserted (Piece : List Char → Prop) : Scan → List Char → List Char → Prop
  | nil (s : Scan) : Inserted Piece s [] []
  | keep {s : Scan} {c : Char} {cs ds : List Char} (h : Inserted Piece (s.next c) cs ds) :
      Inserted Piece s (c :: cs) (c :: ds)
  | insert {s : Scan} {piece cs ds : List Char} (hs : s.AtBoundary cs) (hpiece : Piece piece)
      (h : Inserted Piece s cs ds) : Inserted Piece s cs (piece ++ ds)

variable {s s' s'' : Scan} {c : Char} {cs ds rest mid : List Char} {Piece : List Char → Prop}

theorem isWordChar_of_isDigit (h : c.isDigit = true) : isWordChar c = true := by
  simp [isWordChar, Char.isAlphanum, h]

theorem isWordChar_of_isBlank (h : isBlank c = true) : isWordChar c = false := by
  simp only [isBlank, Bool.or_eq_true, decide_eq_true_eq] at h
  rcases h with ((rfl | rfl) | rfl) | rfl <;> decide

theorem ne_slash_of_isWordChar (h : isWordChar c = true) : c ≠ '/' := by
  rintro rfl
  revert h
  decide

namespace Scan

theorem next_word (c : Char) : word.next c = between.next c := rfl

theorem next_of_isWordChar (h : isWordChar c = true) : between.next c = .word := by
  have hquote : c ≠ '"' := by
    rintro rfl
    revert h
    decide
  simp [next, hquote, h]

theorem next_of_isBlank (h : isBlank c = true) : between.next c = .between := by
  have hquote : c ≠ '"' := by
    rintro rfl
    revert h
    decide
  simp [next, hquote, isWordChar_of_isBlank h]

theorem clean_word_iff : Clean .word cs ↔ Clean .between cs := by
  cases cs with
  | nil => rfl
  | cons c cs => rfl

theorem not_atBoundary_word (h : isWordChar c = true) (cs : List Char) :
    ¬ AtBoundary .word (c :: cs) := by
  simp [AtBoundary, h]

theorem not_atBoundary_of_inString (h : s.inString = true) (cs : List Char) :
    ¬ s.AtBoundary cs := by
  cases s <;> simp [inString, AtBoundary] at h ⊢

end Scan

namespace Inserted

theorem refl (s : Scan) (cs : List Char) : Inserted Piece s cs cs := by
  induction cs generalizing s with
  | nil => exact .nil s
  | cons c cs ih => exact .keep (ih _)

-- Nothing is put into a first part of the text.
theorem keep_append (pre : List Char) (h : Inserted Piece (pre.foldl Scan.next s) cs ds) :
    Inserted Piece s (pre ++ cs) (pre ++ ds) := by
  induction pre generalizing s with
  | nil => exact h
  | cons c pre ih => exact .keep (ih h)

theorem length_le (h : Inserted Piece s cs ds) : cs.length ≤ ds.length := by
  induction h with
  | nil => exact Nat.le_refl _
  | keep _ ih => exact Nat.succ_le_succ ih
  | insert _ _ _ ih =>
    rw [List.length_append]
    omega

-- Inside a token nothing is put in front of a character.
theorem exists_of_not_atBoundary (h : Inserted Piece s (c :: cs) ds)
    (hs : ¬ s.AtBoundary (c :: cs)) : ∃ ds', ds = c :: ds' ∧ Inserted Piece (s.next c) cs ds' := by
  cases h with
  | keep h => exact ⟨_, rfl, h⟩
  | insert hs' => exact absurd hs' hs

-- After a word there is no less freedom if the word is forgotten.
theorem between_of_word (h : Inserted Piece .word cs ds) : Inserted Piece .between cs ds := by
  generalize hs : Scan.word = s at h
  induction h with
  | nil => exact .nil _
  | keep h _ =>
    subst hs
    exact .keep h
  | insert _ hpiece _ ih => exact .insert (.inl rfl) hpiece (ih hs)

-- A word goes on with the same character or not at all.
theorem head?_eq_of_word (h : Inserted Blank .word cs ds) (hc : isWordChar c = true)
    (hhead : ds.head? = some c) : cs.head? = some c := by
  generalize hs : Scan.word = s at h
  induction h with
  | nil => exact hhead
  | keep => exact hhead
  | @insert s piece cs ds _ hpiece _ ih =>
    cases piece with
    | nil => exact ih hhead hs
    | cons b piece =>
      obtain rfl : b = c := by simpa using hhead
      have hb := isWordChar_of_isBlank (hpiece b List.mem_cons_self)
      rw [hc] at hb
      cases hb

end Inserted

-- What a reader does between two places of a text, the one before `cs` and the one before `rest`,
-- it does in the text with blanks between the tokens too; and it passes no slash outside strings.
def Carries (s s' : Scan) (cs rest : List Char) (reads : List Char → List Char → Prop) : Prop :=
  (s'.Clean rest → s.Clean cs) ∧
    ∀ ds, Inserted Blank s cs ds → ∃ rest', reads ds rest' ∧ Inserted Blank s' rest rest'

namespace Carries

variable {reads reads' reads'' : List Char → List Char → Prop}

-- A reader that is done leaves the rest as it is.
theorem done (h : ∀ ds, reads ds ds) : Carries s s cs cs reads :=
  ⟨id, fun ds hds => ⟨ds, h ds, hds⟩⟩

theorem mono (h : Carries s s' cs rest reads)
    (himp : ∀ ds rest', reads ds rest' → reads' ds rest') : Carries s s' cs rest reads' := by
  refine ⟨h.1, fun ds hds => ?_⟩
  obtain ⟨rest', hreads, hrest⟩ := h.2 ds hds
  exact ⟨rest', himp ds rest' hreads, hrest⟩

theorem trans (h : Carries s s' cs mid reads) (h' : Carries s' s'' mid rest reads')
    (himp : ∀ ds mid' rest', reads ds mid' → reads' mid' rest' → reads'' ds rest') :
    Carries s s'' cs rest reads'' := by
  refine ⟨fun hclean => h.1 (h'.1 hclean), fun ds hds => ?_⟩
  obtain ⟨mid', hmid, hds'⟩ := h.2 ds hds
  obtain ⟨rest', hrest, hds''⟩ := h'.2 mid' hds'
  exact ⟨rest', himp ds mid' rest' hmid hrest, hds''⟩

-- The character after a place inside a token.
theorem cons (hc : s.inString = true ∨ c ≠ '/') (hs : ¬ s.AtBoundary (c :: cs))
    (h : Carries (s.next c) s' cs rest fun ds rest' => reads (c :: ds) rest') :
    Carries s s' (c :: cs) rest reads := by
  refine ⟨fun hclean => ⟨hc, h.1 hclean⟩, fun ds hds => ?_⟩
  obtain ⟨ds', rfl, hds'⟩ := hds.exists_of_not_atBoundary hs
  exact h.2 ds' hds'

theorem of_cons (h : Carries s s' (c :: cs) rest reads) :
    Carries (s.next c) s' cs rest fun ds rest' => reads (c :: ds) rest' :=
  ⟨fun hclean => (h.1 hclean).2, fun ds hds => h.2 (c :: ds) (.keep hds)⟩

-- A character of a word after another one.
theorem cons_word (hc : isWordChar c = true)
    (h : Carries .word s' cs rest fun ds rest' => reads (c :: ds) rest') :
    Carries .word s' (c :: cs) rest reads := by
  have hnext : Scan.word.next c = .word := Scan.next_of_isWordChar hc
  exact .cons (.inr (ne_slash_of_isWordChar hc)) (Scan.not_atBoundary_word hc cs) (by rwa [hnext])

theorem head?_word (hc : isWordChar c = true) (h : Carries .word s' (c :: cs) rest reads) :
    Carries .word s' (c :: cs) rest fun ds rest' => reads ds rest' ∧ ds.head? = some c := by
  refine ⟨h.1, fun ds hds => ?_⟩
  obtain ⟨rest', hreads, hrest⟩ := h.2 ds hds
  obtain ⟨ds', rfl, -⟩ := hds.exists_of_not_atBoundary (Scan.not_atBoundary_word hc cs)
  exact ⟨rest', ⟨hreads, rfl⟩, hrest⟩

-- Where a part of a word ends it ends in both texts.
theorem stop_word {p : Char → Bool} (hp : ∀ c, p c = true → isWordChar c = true)
    (hcs : ∀ c ∈ cs.head?, p c = false) :
    Carries .word .word cs cs fun ds rest' => rest' = ds ∧ ∀ c ∈ ds.head?, p c = false := by
  refine ⟨id, fun ds hds => ⟨ds, ⟨rfl, fun c hc => ?_⟩, hds⟩⟩
  cases hpc : p c with
  | false => rfl
  | true => exact hpc ▸ hcs c (hds.head?_eq_of_word (hp c hpc) hc)

theorem between_of_word (h : Carries s .word cs rest reads) :
    Carries s .between cs rest reads := by
  refine ⟨fun hclean => h.1 (Scan.clean_word_iff.mpr hclean), fun ds hds => ?_⟩
  obtain ⟨rest', hreads, hrest⟩ := h.2 ds hds
  exact ⟨rest', hreads, hrest.between_of_word⟩

end Carries

section Blanks

theorem Scan.clean_of_skipBlanks (h : Clean .between (skipBlanks cs)) : Clean .between cs := by
  induction cs with
  | nil => exact h
  | cons c cs ih =>
    by_cases hc : isBlank c = true
    · have hslash : c ≠ '/' := by
        rintro rfl
        revert hc
        decide
      have htail : Clean .between cs := ih (by simpa [skipBlanks, hc] using h)
      exact ⟨.inr hslash, by rwa [next_of_isBlank hc]⟩
    · simpa [skipBlanks, hc] using h

-- The first token is the same whatever blanks stand before it.
theorem Inserted.skipBlanks_cases (h : Inserted Blank .between cs ds) :
    skipBlanks cs = [] ∧ skipBlanks ds = [] ∨
      ∃ c rest rest', skipBlanks cs = c :: rest ∧ skipBlanks ds = c :: rest' ∧
        Inserted Blank (Scan.between.next c) rest rest' := by
  generalize hs : Scan.between = s at h
  induction h with
  | nil => exact .inl ⟨rfl, rfl⟩
  | @keep s c cs ds h ih =>
    subst hs
    by_cases hc : isBlank c = true
    · have hskip (cs : List Char) : skipBlanks (c :: cs) = skipBlanks cs := by
        simp [skipBlanks, hc]
      rw [hskip, hskip]
      simpa only [Scan.next_of_isBlank hc] using ih (Scan.next_of_isBlank hc).symm
    · have hsolid : isBlank c = false := by simpa using hc
      exact .inr ⟨c, cs, ds, skipBlanks_cons hsolid cs, skipBlanks_cons hsolid ds, h⟩
  | insert _ hpiece _ ih =>
    rw [skipBlanks_append hpiece]
    exact ih hs

theorem Inserted.skipBlanks_eq_nil (h : Inserted Blank .between cs ds)
    (hcs : skipBlanks cs = []) : skipBlanks ds = [] := by
  rcases h.skipBlanks_cases with ⟨-, hds⟩ | ⟨c, rest, rest', hcons, -⟩
  · exact hds
  · rw [hcs] at hcons
    cases hcons

theorem Carries.skipBlanks (cs : List Char) :
    Carries .between .between cs (skipBlanks cs) fun ds rest =>
      rest = Json.skipBlanks ds ∧ rest.head? = (Json.skipBlanks cs).head? := by
  refine ⟨Scan.clean_of_skipBlanks, fun ds hds => ⟨_, ⟨rfl, ?_⟩, ?_⟩⟩
  · rcases hds.skipBlanks_cases with ⟨hcs, hds⟩ | ⟨c, rest, rest', hcs, hds, -⟩ <;> rw [hcs, hds]
    rfl
  · rcases hds.skipBlanks_cases with ⟨hcs, hds⟩ | ⟨c, rest, rest', hcs, hds, hrest⟩ <;>
      rw [hcs, hds]
    · exact .nil _
    · exact .keep hrest

theorem Carries.skipBlanks_cons (h : Json.skipBlanks cs = c :: rest) (hc : c ≠ '/') :
    Carries .between (Scan.between.next c) cs rest fun ds rest' =>
      Json.skipBlanks ds = c :: rest' := by
  refine ⟨fun hclean => Scan.clean_of_skipBlanks ?_, fun ds hds => ?_⟩
  · rw [h]
    exact ⟨.inr hc, hclean⟩
  · rcases hds.skipBlanks_cases with ⟨hcs, -⟩ | ⟨c', r, r', hcs, hds, hr⟩
    · rw [h] at hcs
      cases hcs
    · rw [h] at hcs
      cases hcs
      exact ⟨r', hds, hr⟩

end Blanks

end EmbeddedStyles.Json
