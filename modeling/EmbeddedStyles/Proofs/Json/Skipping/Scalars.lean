import EmbeddedStyles.Json.Skip
import EmbeddedStyles.Proofs.Json.Forms
import Mathlib.Data.List.TakeWhile

namespace EmbeddedStyles.Json

variable {cs rest : List Char}

section Strings

theorem consChar_eq_ok_iff {c : Char} {tail : Except Failure (List Char × List Char)}
    {text : List Char} :
    consChar c tail = .ok (text, rest) ↔ ∃ text', tail = .ok (text', rest) ∧ text = c :: text' := by
  unfold consChar
  split <;> grind

theorem skipString_unicode {a b c d : Char} {n : Nat} (h : hexValues? a b c d = some n)
    (cs : List Char) : skipString ('\\' :: 'u' :: a :: b :: c :: d :: cs) = skipString cs := by
  rw [skipString.eq_def]
  simp [h]

theorem skipString_of_stringTail {high : Option Nat} {text : List Char}
    (h : stringTail high cs = .ok (text, rest)) : skipString cs = .ok rest := by
  fun_induction stringTail high cs generalizing text with
  | case2 =>
    cases h
    simp [skipString.eq_def]
  | case6 _ _ _ _ _ _ hhex _ _ _ ih =>
    rw [skipString_unicode hhex]
    exact ih h
  | case7 _ _ _ _ _ _ hhex _ _ _ ih =>
    obtain ⟨_, htail, -⟩ := consChar_eq_ok_iff.mp h
    rw [skipString_unicode hhex]
    exact ih htail
  | case15 _ _ _ _ _ _ _ hhex _ ih =>
    obtain ⟨_, htail, -⟩ := consChar_eq_ok_iff.mp h
    rw [skipString_unicode hhex]
    exact ih htail
  | case9 e _ hu _ hescape _ ih =>
    obtain ⟨_, htail, -⟩ := consChar_eq_ok_iff.mp h
    rw [skipString.eq_def]
    simpa [hu, hescape] using ih htail
  | case12 _ _ hquote hbackslash hcontrol ih =>
    obtain ⟨_, htail, -⟩ := consChar_eq_ok_iff.mp h
    rw [skipString.eq_def]
    simpa [hquote, hbackslash, hcontrol] using ih htail
  | _ => grind [failAt, failOn, failHex]

theorem skipString_of_readString {s : String} (h : readString cs = .ok (s, rest)) :
    skipString cs = .ok rest := by
  obtain ⟨⟨text, _⟩, htail, h⟩ := bind_eq_ok_iff.mp h
  cases h
  exact skipString_of_stringTail htail

end Strings

section Numbers

variable {negative : Bool} {significand : Nat} {n : Number}

theorem rest_of_scaled {exponent : Int}
    (h : scaled negative significand exponent cs = .ok (n, rest)) :
    rest = cs := by
  unfold scaled at h
  split at h
  · cases h
    rfl
  · cases h

-- Whether or not the exponent fits, its digits end at the same place.
theorem dropWhile_exponentDigits (exponent : Nat) (cs : List Char) :
    (exponentDigits exponent cs).2.dropWhile Char.isDigit = cs.dropWhile Char.isDigit ∧
      ((exponentDigits exponent cs).1.isSome = true →
        (exponentDigits exponent cs).2 = cs.dropWhile Char.isDigit) := by
  induction cs generalizing exponent with
  | nil => simp [exponentDigits]
  | cons c cs ih =>
    by_cases hdigit : c.isDigit = true
    · simp only [exponentDigits, hdigit, if_true, List.dropWhile_cons]
      split
      · exact ih _
      · simp
    · simp [exponentDigits, hdigit]

theorem skipDigits_cons {c : Char} (h : c.isDigit = true) (cs : List Char) :
    skipDigits (c :: cs) = .ok ((c :: cs).dropWhile Char.isDigit) := by
  simp [skipDigits, h]

theorem skipExponent_of_withExponent {exponent : Int} {mark : Char}
    (hmark : mark = 'e' ∨ mark = 'E')
    (h : withExponent negative significand exponent cs = .ok (n, rest)) :
    skipExponent (mark :: cs) = .ok rest := by
  unfold withExponent at h
  split at h
  next down cs' hsign =>
    have hskip : skipExponent (mark :: cs) = skipDigits cs' := by
      rcases hmark with rfl | rfl <;>
      · simp only [skipExponent]
        split at hsign <;> cases hsign <;> simp_all
    rw [hskip]
    split at h
    next => cases h
    next c cs' =>
      split at h
      next hdigit =>
        rw [skipDigits_cons hdigit]
        obtain ⟨hdrop, hsome⟩ := dropWhile_exponentDigits 0 (c :: cs')
        split at h
        next e after hread =>
          rw [hread] at hsome
          rw [rest_of_scaled h, ← hsome rfl]
        next after hread =>
          rw [hread] at hdrop
          split at h
          next => cases h
          next =>
            cases h
            rw [hdrop]
      next => cases h

-- The whole part of a number.
def skipWhole (cs : List Char) : Except Failure (List Char) :=
  match cs with
  | '0' :: d :: rest => if d.isDigit then failOn (d :: rest) .invalidNumber else .ok (d :: rest)
  | cs => skipDigits cs

-- What follows the whole part.
def skipTail (cs : List Char) : Except Failure (List Char) :=
  match cs with
  | '.' :: cs => do skipExponent (← skipDigits cs)
  | cs => skipExponent cs

theorem skipNumber_eq (cs : List Char) : skipNumber cs = skipWhole cs >>= skipTail := by
  unfold skipNumber
  split
  next d _ =>
    by_cases hdigit : d.isDigit = true
    · simp only [skipWhole, hdigit, if_true]
      rfl
    · simp only [skipWhole, hdigit]
      rfl
  next hzero =>
    have hwhole : skipWhole cs = skipDigits cs := by
      unfold skipWhole
      split
      next => exact absurd rfl (hzero _ _)
      next => rfl
    rw [hwhole]
    rfl

theorem skipExponent_of_ne (hlower : ∀ cs', cs ≠ 'e' :: cs') (hupper : ∀ cs', cs ≠ 'E' :: cs') :
    skipExponent cs = .ok cs := by
  unfold skipExponent
  split
  next => exact absurd rfl (hlower _)
  next => exact absurd rfl (hupper _)
  next => rfl

theorem skipTail_of_withFraction {exponent : Int}
    (h : withFraction negative significand exponent cs = .ok (n, rest)) :
    skipTail ('.' :: cs) = .ok rest := by
  simp only [withFraction] at h
  split at h
  next => cases h
  next hdigits =>
    have hskip : skipDigits cs = .ok (cs.dropWhile Char.isDigit) := by
      cases cs with
      | nil => simp at hdigits
      | cons c cs =>
        apply skipDigits_cons
        by_contra hc
        simp [hc] at hdigits
    simp only [skipTail, hskip, ok_bind]
    split at h
    next hrest =>
      rw [hrest]
      exact skipExponent_of_withExponent (.inl rfl) h
    next hrest =>
      rw [hrest]
      exact skipExponent_of_withExponent (.inr rfl) h
    next hlower hupper =>
      rw [rest_of_scaled h]
      exact skipExponent_of_ne hlower hupper

theorem skipTail_of_afterWhole {dropped : Nat}
    (h : afterWhole negative significand dropped cs = .ok (n, rest)) : skipTail cs = .ok rest := by
  unfold afterWhole at h
  split at h
  next => exact skipTail_of_withFraction h
  next => exact skipExponent_of_withExponent (.inl rfl) h
  next => exact skipExponent_of_withExponent (.inr rfl) h
  next hpoint hlower hupper =>
    have hrest : rest = cs := by
      split at h
      · exact rest_of_scaled h
      · split at h
        · cases h
          rfl
        · split at h <;> cases h <;> rfl
    have htail : skipTail cs = skipExponent cs := by
      unfold skipTail
      split
      next => exact absurd rfl (hpoint _)
      next => rfl
    rw [htail, hrest, skipExponent_of_ne hlower hupper]

theorem skipNumber_of_readNumber (h : readNumber negative cs = .ok (n, rest)) :
    skipNumber cs = .ok rest := by
  rw [skipNumber_eq]
  unfold readNumber at h
  split at h
  next => cases h
  next c cs =>
    split at h
    next hzero =>
      subst hzero
      split at h
      next d cs =>
        split at h
        next => cases h
        next hdigit =>
          have hwhole : skipWhole ('0' :: d :: cs) = .ok (d :: cs) := if_neg hdigit
          rw [hwhole]
          exact skipTail_of_afterWhole h
      next => exact skipTail_of_afterWhole h
    next hzero =>
      split at h
      next hdigit =>
        have hwhole : skipWhole (c :: cs) = .ok ((c :: cs).dropWhile Char.isDigit) := by
          unfold skipWhole
          split
          next heq => exact absurd (List.cons.inj heq).1 hzero
          next => exact skipDigits_cons hdigit cs
        rw [hwhole]
        exact skipTail_of_afterWhole h
      next => cases h

theorem skipScalar_of_scalarAt {json : Json} (h : ScalarAt rest cs json) :
    skipScalar cs = .ok rest := by
  cases h with
  | string h => simpa [skipScalar] using skipString_of_readString h
  | negative h => simpa [skipScalar] using skipNumber_of_readNumber h
  | natural hdigit h =>
    have hne : ∀ d : Char, d.isDigit = false → _ ≠ d := fun _ => ne_of_isDigit hdigit
    simpa [skipScalar, hdigit, hne 'n' (by decide), hne 't' (by decide), hne 'f' (by decide),
      hne '"' (by decide), hne '-' (by decide)] using skipNumber_of_readNumber h
  | _ h => simpa [skipScalar] using h

end Numbers

section Lengths

theorem length_skipBlanks_le (cs : List Char) : (skipBlanks cs).length ≤ cs.length :=
  List.length_dropWhile_le _ cs

theorem length_le_of_keyword {word : List Char} (h : keyword word cs = .ok rest) :
    rest.length ≤ cs.length := by
  fun_induction keyword word cs with
  | case1 =>
    cases h
    exact le_rfl
  | case3 _ _ _ ih =>
    have := ih h
    simp only [List.length_cons]
    omega
  | _ => cases h

theorem length_lt_of_skipString (h : skipString cs = .ok rest) : rest.length < cs.length := by
  fun_induction skipString cs with
  | case2 =>
    cases h
    simp
  | case4 _ _ _ _ _ _ _ ih =>
    have := ih h
    simp only [List.length_cons]
    omega
  | _ => grind [failAt, failOn, failHex]

theorem length_lt_of_skipDigits (h : skipDigits cs = .ok rest) : rest.length < cs.length := by
  unfold skipDigits at h
  split at h
  next => cases h
  next c cs =>
    split at h
    next hdigit =>
      cases h
      have := List.length_dropWhile_le Char.isDigit cs
      simp only [List.dropWhile_cons, hdigit, if_true, List.length_cons]
      omega
    next => cases h

theorem length_le_of_skipExponent (h : skipExponent cs = .ok rest) : rest.length ≤ cs.length := by
  simp only [skipExponent] at h
  split at h
  -- A sign may stand after the mark.
  · split at h <;> have := length_lt_of_skipDigits h <;> simp only [List.length_cons] <;> omega
  · split at h <;> have := length_lt_of_skipDigits h <;> simp only [List.length_cons] <;> omega
  · cases h
    exact le_rfl

theorem length_le_of_skipTail (h : skipTail cs = .ok rest) : rest.length ≤ cs.length := by
  unfold skipTail at h
  split at h
  next =>
    obtain ⟨after, hdigits, h⟩ := bind_eq_ok_iff.mp h
    have := length_lt_of_skipDigits hdigits
    have := length_le_of_skipExponent h
    simp only [List.length_cons]
    omega
  next => exact length_le_of_skipExponent h

theorem length_lt_of_skipWhole (h : skipWhole cs = .ok rest) : rest.length < cs.length := by
  unfold skipWhole at h
  split at h
  next =>
    split at h
    · cases h
    · cases h
      exact Nat.lt_succ_self _
  next => exact length_lt_of_skipDigits h

theorem length_lt_of_skipNumber (h : skipNumber cs = .ok rest) : rest.length < cs.length := by
  rw [skipNumber_eq] at h
  obtain ⟨after, hwhole, htail⟩ := bind_eq_ok_iff.mp h
  exact Nat.lt_of_le_of_lt (length_le_of_skipTail htail) (length_lt_of_skipWhole hwhole)

theorem length_lt_of_skipScalar (h : skipScalar cs = .ok rest) : rest.length < cs.length := by
  unfold skipScalar at h
  split at h
  next => cases h
  next c cs =>
    have hkeyword (word : List Char) (h : keyword word cs = .ok rest) :
        rest.length < cs.length + 1 :=
      Nat.lt_succ_of_le (length_le_of_keyword h)
    rw [List.length_cons]
    split at h
    · exact hkeyword _ h
    split at h
    · exact hkeyword _ h
    split at h
    · exact hkeyword _ h
    split at h
    · exact Nat.lt_succ_of_lt (length_lt_of_skipString h)
    split at h
    · exact Nat.lt_succ_of_lt (length_lt_of_skipNumber h)
    split at h
    · exact length_lt_of_skipNumber h
    · cases h

end Lengths

end EmbeddedStyles.Json
