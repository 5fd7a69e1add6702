import EmbeddedStyles.Proofs.Json.Reading
import Mathlib.Data.List.DropRight

namespace EmbeddedStyles.Json

variable {depth : Nat} {cs rest : List Char} {json : Json}

section Scalars

-- The scalar that is read off a text, with what is left after it.
inductive ScalarAt (rest : List Char) : List Char → Json → Prop
  | null {cs : List Char} (h : keyword ['u', 'l', 'l'] cs = .ok rest) :
      ScalarAt rest ('n' :: cs) .null
  | true {cs : List Char} (h : keyword ['r', 'u', 'e'] cs = .ok rest) :
      ScalarAt rest ('t' :: cs) (.bool true)
  | false {cs : List Char} (h : keyword ['a', 'l', 's', 'e'] cs = .ok rest) :
      ScalarAt rest ('f' :: cs) (.bool false)
  | string {cs : List Char} {s : String} (h : readString cs = .ok (s, rest)) :
      ScalarAt rest ('"' :: cs) (.string s)
  | negative {cs : List Char} {n : Number} (h : readNumber true cs = .ok (n, rest)) :
      ScalarAt rest ('-' :: cs) (.number n)
  | natural {c : Char} {cs : List Char} {n : Number} (hdigit : c.isDigit = true)
      (h : readNumber false (c :: cs) = .ok (n, rest)) : ScalarAt rest (c :: cs) (.number n)

theorem scalarAt_of_scalar (h : scalar cs = .ok (json, rest)) : ScalarAt rest cs json := by
  unfold scalar at h
  split at h
  · cases h
  next c cs =>
    split at h
    next hc =>
      subst hc
      obtain ⟨_, hread, h⟩ := bind_eq_ok_iff.mp h
      cases h
      exact .null hread
    split at h
    next hc =>
      subst hc
      obtain ⟨_, hread, h⟩ := bind_eq_ok_iff.mp h
      cases h
      exact .true hread
    split at h
    next hc =>
      subst hc
      obtain ⟨_, hread, h⟩ := bind_eq_ok_iff.mp h
      cases h
      exact .false hread
    split at h
    next hc =>
      subst hc
      obtain ⟨⟨s, _⟩, hread, h⟩ := bind_eq_ok_iff.mp h
      cases h
      exact .string hread
    split at h
    next hc =>
      subst hc
      obtain ⟨⟨n, _⟩, hread, h⟩ := bind_eq_ok_iff.mp h
      cases h
      exact .negative hread
    split at h
    next hdigit =>
      obtain ⟨⟨n, _⟩, hread, h⟩ := bind_eq_ok_iff.mp h
      cases h
      exact .natural hdigit hread
    next => cases h

theorem ScalarAt.scalar_eq (h : ScalarAt rest cs json) : scalar cs = .ok (json, rest) := by
  cases h with
  | natural hdigit h => rw [scalar_of_isDigit hdigit, h]; rfl
  | _ h => simp [scalar, h]

-- No scalar starts like a container.
theorem ScalarAt.head_ne (h : ScalarAt rest cs json) :
    cs.head? ≠ some '[' ∧ cs.head? ≠ some '\x7b' := by
  cases h with
  | natural hdigit h =>
    exact ⟨by simpa using ne_of_isDigit hdigit (by decide),
      by simpa using ne_of_isDigit hdigit (by decide)⟩
  | _ h => simp

end Scalars

section Values

theorem skipBlanks_skipBlanks (cs : List Char) : skipBlanks (skipBlanks cs) = skipBlanks cs :=
  List.dropWhile_idempotent _ cs

theorem value_skipBlanks (depth : Nat) (cs : List Char) :
    value depth (skipBlanks cs) = value depth cs := by
  cases depth <;> rw [value, value, skipBlanks_skipBlanks]

-- The document that is read off a text without blanks before it. The parts of a container are
-- nested less deep.
inductive ValueAt (rest : List Char) : Nat → List Char → Json → Prop
  | scalar {depth : Nat} {cs : List Char} {json : Json} (h : ScalarAt rest cs json) :
      ValueAt rest depth cs json
  | array {depth : Nat} {cs : List Char} {xs : List Json}
      (h : items (value depth) (cs.length + 1) true cs = .ok (xs, rest)) :
      ValueAt rest (depth + 1) ('[' :: cs) (.array xs)
  | object {depth : Nat} {cs : List Char} {es : List (String × Json)}
      (h : entries (value depth) (cs.length + 1) true cs = .ok (es, rest)) :
      ValueAt rest (depth + 1) ('\x7b' :: cs) (.object es)

theorem valueAt_of_value (h : value depth cs = .ok (json, rest)) :
    ValueAt rest depth (skipBlanks cs) json := by
  cases depth with
  | zero =>
    rw [value] at h
    split at h
    · cases h
    · cases h
    · exact .scalar (scalarAt_of_scalar h)
  | succ depth =>
    rw [value] at h
    split at h
    next cs' hcs =>
      obtain ⟨⟨xs, _⟩, hread, h⟩ := bind_eq_ok_iff.mp h
      cases h
      exact hcs ▸ .array hread
    next cs' hcs =>
      obtain ⟨⟨es, _⟩, hread, h⟩ := bind_eq_ok_iff.mp h
      cases h
      exact hcs ▸ .object hread
    next => exact .scalar (scalarAt_of_scalar h)

theorem ValueAt.value_eq (h : ValueAt rest depth (skipBlanks cs) json) :
    value depth cs = .ok (json, rest) := by
  generalize hcs : skipBlanks cs = cs' at h
  cases h with
  | scalar h =>
    obtain ⟨harray, hobject⟩ := h.head_ne
    cases depth <;>
    · rw [value, hcs]
      split
      next => simp at harray
      next => simp at hobject
      next => exact h.scalar_eq
  | array h => simp [value, hcs, h]
  | object h => simp [value, hcs, h]

end Values

section Parts

variable {first : Bool} {key : String}

theorem nextItem_eq_done_iff :
    nextItem first cs = .ok (.done rest) ↔ skipBlanks cs = ']' :: rest := by
  unfold nextItem
  split <;> grind [failOn, failAt]

-- What is left starts with the next item, and a comma stood before it unless it is the first.
theorem nextItem_eq_more_iff {part : Unit} :
    nextItem first cs = .ok (.more part rest) ↔
      rest ≠ [] ∧ rest.head? ≠ some ']' ∧
        if first then rest = skipBlanks cs
        else ∃ cs', skipBlanks cs = ',' :: cs' ∧ rest = skipBlanks cs' := by
  unfold nextItem
  split <;> grind [failOn, failAt]

theorem nextKey_eq_done_iff :
    nextKey first cs = .ok (.done rest) ↔ skipBlanks cs = '\x7d' :: rest := by
  unfold nextKey
  split <;> grind [failOn, failAt, bind_eq_ok_iff, pure_eq_ok]

-- The key of the next entry was read, and a comma stood before it unless it is the first.
theorem nextKey_eq_more_iff :
    nextKey first cs = .ok (.more key rest) ↔
      ∃ cs', readString cs' = .ok (key, rest) ∧
        if first then skipBlanks cs = '"' :: cs'
        else ∃ cs'', skipBlanks cs = ',' :: cs'' ∧ skipBlanks cs'' = '"' :: cs' := by
  unfold nextKey
  split <;> grind [failOn, failAt, bind_eq_ok_iff, pure_eq_ok]

theorem colon_eq_ok_iff : colon cs = .ok rest ↔ skipBlanks cs = ':' :: rest := by
  unfold colon
  split <;> grind [failOn, failAt]

-- Nothing but blanks is left after a document.
theorem finish_eq_ok_iff {α : Type} {reading : Except Failure (α × List Char)} {x : α} :
    finish reading = .ok x ↔ ∃ rest, reading = .ok (x, rest) ∧ skipBlanks rest = [] := by
  simp only [finish, bind_eq_ok_iff, Prod.exists]
  constructor
  · rintro ⟨y, rest, hread, h⟩
    split at h
    next hblank =>
      cases h
      exact ⟨rest, hread, hblank⟩
    next => cases h
  · rintro ⟨rest, hread, hblank⟩
    exact ⟨x, rest, hread, by simp [hblank]⟩

end Parts

end EmbeddedStyles.Json
