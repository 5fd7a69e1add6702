import EmbeddedStyles.Marker
import EmbeddedStyles.Proofs.Text.Split

namespace EmbeddedStyles.Marker

open Text (isWord)

-- What may stand in front of a template whose styles are extracted.
inductive Tag : List Char → Prop
  | css : Tag "css".toList
  | element {name : List Char} (hne : name ≠ [])
      (h : ∀ c ∈ name, 'a' ≤ c ∧ c ≤ 'z' ∨ '0' ≤ c ∧ c ≤ '9') : Tag ("styled.".toList ++ name)
  | component {argument : List Char} (hne : argument ≠ []) (h : ')' ∉ argument) :
      Tag ("styled(".toList ++ argument ++ [')'])

variable {cs : List Char}

theorem isTagChar_iff (c : Char) :
    isTagChar c = true ↔ 'a' ≤ c ∧ c ≤ 'z' ∨ '0' ≤ c ∧ c ≤ '9' := by
  simp [isTagChar, Char.isDigit, Char.le_def]

-- The backtick ends the name, being no character of one.
theorem startsAccess_dot_iff :
    startsAccess ('.' :: cs) = true ↔
      ∃ name after, cs = name ++ backtick :: after ∧ name ≠ [] ∧
        ∀ c ∈ name, isTagChar c = true := by
  have hstop (after : List Char) :
      ∀ c ∈ (backtick :: after).head?, isTagChar c = false := by
    simp [isTagChar, backtick]
  constructor
  · intro h
    obtain ⟨hne, hhead⟩ : cs.takeWhile isTagChar ≠ [] ∧
        (cs.dropWhile isTagChar).head? = some backtick := by simpa [startsAccess] using h
    obtain ⟨after, hafter⟩ := List.head?_eq_some_iff.mp hhead
    obtain ⟨hcs, hname⟩ := (Text.eq_append_run_iff (hstop after)).mpr ⟨rfl, hafter⟩
    exact ⟨_, after, hcs, hne, hname⟩
  · rintro ⟨name, after, hcs, hne, hname⟩
    obtain ⟨htake, hdrop⟩ := (Text.eq_append_run_iff (hstop after)).mp ⟨hcs, hname⟩
    simp [startsAccess, htake, hdrop, hne]

-- The first closing parenthesis ends the argument.
theorem startsAccess_paren_iff :
    startsAccess ('(' :: cs) = true ↔
      ∃ argument after, cs = argument ++ ')' :: backtick :: after ∧ argument ≠ [] ∧
        ')' ∉ argument := by
  have hstop (after : List Char) :
      ∀ c ∈ (')' :: backtick :: after).head?, decide (c ≠ ')') = false := by simp
  have hfree (argument : List Char) :
      (∀ c ∈ argument, decide (c ≠ ')') = true) ↔ ')' ∉ argument := by
    simp [List.forall_mem_ne']
  constructor
  · intro h
    obtain ⟨hne, hprefix⟩ : cs.takeWhile (· ≠ ')') ≠ [] ∧
        [')', backtick] <+: cs.dropWhile (· ≠ ')') := by simpa [startsAccess] using h
    obtain ⟨after, hafter⟩ := hprefix
    obtain ⟨hcs, hargument⟩ := (Text.eq_append_run_iff (hstop after)).mpr ⟨rfl, hafter.symm⟩
    exact ⟨_, after, hcs, hne, (hfree _).mp hargument⟩
  · rintro ⟨argument, after, hcs, hne, hargument⟩
    obtain ⟨htake, hdrop⟩ :=
      (Text.eq_append_run_iff (hstop after)).mp ⟨hcs, (hfree argument).mpr hargument⟩
    rw [startsAccess, htake, hdrop]
    simp [hne]

theorem exists_cons_of_startsAccess (h : startsAccess cs = true) :
    (∃ ds, cs = '.' :: ds) ∨ ∃ ds, cs = '(' :: ds := by
  unfold startsAccess at h
  split at h
  · exact .inl ⟨_, rfl⟩
  · exact .inr ⟨_, rfl⟩
  · cases h

-- A marker starts where a tag stands before a backtick.
theorem startsMarker_iff :
    startsMarker cs = true ↔ ∃ tag after, cs = tag ++ backtick :: after ∧ Tag tag := by
  constructor
  · intro h
    unfold startsMarker at h
    split at h
    next cs =>
      obtain ⟨after, rfl⟩ := List.head?_eq_some_iff.mp (by simpa using h)
      exact ⟨_, after, rfl, .css⟩
    next cs =>
      obtain ⟨ds, rfl⟩ | ⟨ds, rfl⟩ := exists_cons_of_startsAccess h
      · obtain ⟨name, after, rfl, hne, hname⟩ := startsAccess_dot_iff.mp h
        have hname' := fun c hc => (isTagChar_iff c).mp (hname c hc)
        exact ⟨_, after, rfl, .element hne hname'⟩
      · obtain ⟨argument, after, rfl, hne, hargument⟩ := startsAccess_paren_iff.mp h
        exact ⟨_, after, by simp, .component hne hargument⟩
    next => cases h
  · rintro ⟨tag, after, rfl, htag⟩
    cases htag with
    | css => simp [startsMarker]
    | @element name hne h =>
      have hname := fun c hc => (isTagChar_iff c).mpr (h c hc)
      exact startsAccess_dot_iff.mpr ⟨name, after, rfl, hne, hname⟩
    | @component argument hne h =>
      exact startsAccess_paren_iff.mpr ⟨argument, after, by simp, hne, h⟩

-- Whether the last character is part of a word.
def endsInWord (cs : List Char) : Bool :=
  cs.getLast?.any isWord

theorem endsInWord_eq_false_iff :
    endsInWord cs = false ↔ cs = [] ∨ ∃ c, cs.getLast? = some c ∧ isWord c = false := by
  cases hlast : cs.getLast? with
  | none => simp [endsInWord, List.getLast?_eq_none_iff.mp hlast]
  | some c =>
    have hne : cs ≠ [] := by
      rintro rfl
      cases hlast
    simp [endsInWord, hlast, hne]

-- The search goes through all places. What was passed before the text counts at its start only.
theorem search_iff (earlier cs : List Char) :
    search (endsInWord earlier) cs = true ↔
      ∃ before rest, cs = before ++ rest ∧ startsMarker rest = true ∧
        endsInWord (earlier ++ before) = false := by
  induction cs generalizing earlier with
  | nil =>
    simp only [search, Bool.false_eq_true, false_iff]
    rintro ⟨before, rest, hcs, hstarts, -⟩
    obtain ⟨-, rfl⟩ := List.append_eq_nil_iff.mp hcs.symm
    cases hstarts
  | cons c cs ih =>
    have hword : isWord c = endsInWord (earlier ++ [c]) := by simp [endsInWord]
    rw [search, hword, Bool.or_eq_true, ih]
    constructor
    · rintro (hhere | ⟨before, rest, rfl, hstarts, hends⟩)
      · obtain ⟨hends, hstarts⟩ : endsInWord earlier = false ∧ startsMarker (c :: cs) = true := by
          simpa using hhere
        exact ⟨[], c :: cs, rfl, hstarts, by simpa using hends⟩
      · exact ⟨c :: before, rest, rfl, hstarts, by simpa using hends⟩
    · rintro ⟨before, rest, hcs, hstarts, hends⟩
      cases before with
      | nil =>
        rw [List.nil_append] at hcs
        rw [List.append_nil] at hends
        exact .inl (by simp [hcs, hstarts, hends])
      | cons d before =>
        obtain ⟨rfl, rfl⟩ := List.cons.inj hcs
        exact .inr ⟨before, rest, rfl, hstarts, by simpa using hends⟩

-- A source has a marker exactly if a tag and a backtick stand somewhere in it, at the start or
-- after a character that is part of no word.
theorem hasMarker_iff (source : String) :
    hasMarker source = true ↔
      ∃ before tag after, source.toList = before ++ tag ++ backtick :: after ∧ Tag tag ∧
        (before = [] ∨ ∃ c, before.getLast? = some c ∧ isWord c = false) := by
  have hsearch := search_iff [] source.toList
  simp only [List.nil_append, startsMarker_iff, endsInWord_eq_false_iff] at hsearch
  rw [hasMarker]
  constructor
  · intro h
    obtain ⟨before, rest, hsource, ⟨tag, after, rfl, htag⟩, hbefore⟩ := hsearch.mp h
    exact ⟨before, tag, after, by rw [hsource, List.append_assoc], htag, hbefore⟩
  · rintro ⟨before, tag, after, hsource, htag, hbefore⟩
    rw [List.append_assoc] at hsource
    exact hsearch.mpr ⟨before, _, hsource, ⟨tag, after, rfl, htag⟩, hbefore⟩

-- A tag inside a word, a call without a backtick after it, and a capital letter in a name.
example : hasMarker "mystyled.h1` styled(css `) styled.H1`" = false := by
  decide +kernel

end EmbeddedStyles.Marker
