import EmbeddedStyles.Proofs.Json.Skipping.Scalars
import EmbeddedStyles.Proofs.Json.Tokens

namespace EmbeddedStyles.Json

variable {cs rest : List Char}

section Strings

theorem string_next_of_hexValue? {c : Char} {n : Nat} (h : hexValue? c = some n) :
    Scan.string.next c = .string := by
  have hquote : c ≠ '"' := by
    rintro rfl
    cases h
  have hbackslash : c ≠ '\\' := by
    rintro rfl
    cases h
  simp [Scan.next, hquote, hbackslash]

variable {s' : Scan} {reads : List Char → List Char → Prop}

theorem Carries.cons_string {c : Char} (hc : Scan.string.next c = .string)
    (h : Carries .string s' cs rest fun ds rest' => reads (c :: ds) rest') :
    Carries .string s' (c :: cs) rest reads :=
  .cons (.inl rfl) (Scan.not_atBoundary_of_inString rfl _) (by rwa [hc])

-- A backslash takes the next character with it.
theorem Carries.cons_escape {e : Char}
    (h : Carries .string s' cs rest fun ds rest' => reads ('\\' :: e :: ds) rest') :
    Carries .string s' ('\\' :: e :: cs) rest reads :=
  .cons (.inl rfl) (Scan.not_atBoundary_of_inString rfl _)
    (.cons (.inl rfl) (Scan.not_atBoundary_of_inString rfl _) h)

theorem Carries.cons_unicode {a b c d : Char} {n : Nat} (hhex : hexValues? a b c d = some n)
    (h : Carries .string s' cs rest fun ds rest' =>
      reads ('\\' :: 'u' :: a :: b :: c :: d :: ds) rest') :
    Carries .string s' ('\\' :: 'u' :: a :: b :: c :: d :: cs) rest reads := by
  simp only [hexValues?, Option.bind_eq_bind, Option.bind_eq_some_iff] at hhex
  obtain ⟨_, ha, _, hb, _, hc, _, hd, -⟩ := hhex
  apply Carries.cons_escape
  apply Carries.cons_string (string_next_of_hexValue? ha)
  apply Carries.cons_string (string_next_of_hexValue? hb)
  apply Carries.cons_string (string_next_of_hexValue? hc)
  exact Carries.cons_string (string_next_of_hexValue? hd) h

theorem carries_stringTail {high : Option Nat} {text : List Char}
    (h : stringTail high cs = .ok (text, rest)) :
    Carries .string .between cs rest fun ds rest' => stringTail high ds = .ok (text, rest') := by
  fun_induction stringTail high cs generalizing text with
  | case2 cs =>
    cases h
    exact .cons (.inl rfl) (Scan.not_atBoundary_of_inString rfl _) (.done stringTail_quote)
  | case6 a b c d cs n hhex hlow hhigh _ ih =>
    refine .cons_unicode hhex ((ih h).mono ?_)
    intro ds rest' hds
    rw [stringTail.eq_def]
    simpa [hhex, hlow, hhigh] using hds
  | case7 a b c d cs n hhex hlow hhigh _ ih =>
    obtain ⟨text, htail, rfl⟩ := consChar_eq_ok_iff.mp h
    refine .cons_unicode hhex ((ih htail).mono ?_)
    intro ds rest' hds
    rw [stringTail.eq_def]
    simp [hhex, hlow, hhigh, hds, consChar]
  | case9 e cs hu e' hescape _ ih =>
    obtain ⟨text, htail, rfl⟩ := consChar_eq_ok_iff.mp h
    refine .cons_escape ((ih htail).mono ?_)
    intro ds rest' hds
    rw [stringTail_simple hescape hu, hds]
    rfl
  | case12 c cs hquote hbackslash hcontrol ih =>
    obtain ⟨text, htail, rfl⟩ := consChar_eq_ok_iff.mp h
    have hnext : Scan.string.next c = .string := by simp [Scan.next, hquote, hbackslash]
    refine .cons_string hnext ((ih htail).mono ?_)
    intro ds rest' hds
    rw [stringTail_plain hquote hbackslash (by omega), hds]
    rfl
  | case15 high a b c d cs low hhex hlow ih =>
    obtain ⟨text, htail, rfl⟩ := consChar_eq_ok_iff.mp h
    refine .cons_unicode hhex ((ih htail).mono ?_)
    intro ds rest' hds
    rw [stringTail.eq_def]
    simp [hhex, hlow, hds, consChar]
  | _ => grind [failAt, failOn, failHex]

theorem carries_readString {s : String} (h : readString cs = .ok (s, rest)) :
    Carries .string .between cs rest fun ds rest' => readString ds = .ok (s, rest') := by
  obtain ⟨⟨text, _⟩, htail, h⟩ := bind_eq_ok_iff.mp h
  cases h
  refine (carries_stringTail htail).mono ?_
  intro ds rest' hds
  simp [readString, hds]

end Strings

section Words

-- The letters of a keyword follow each other.
theorem carries_keyword {ks : List Char} (hks : ks.all isWordChar = true)
    (h : keyword ks cs = .ok rest) :
    Carries .word .word cs rest fun ds rest' => keyword ks ds = .ok rest' := by
  induction ks generalizing cs with
  | nil =>
    cases h
    exact .done fun _ => rfl
  | cons k ks ih =>
    cases cs with
    | nil => cases h
    | cons c cs =>
      rw [keyword] at h
      split at h
      next hc =>
        subst hc
        rw [List.all_cons, Bool.and_eq_true] at hks
        refine .cons_word hks.1 ((ih hks.2 h).mono ?_)
        intro ds rest' hds
        simpa [keyword] using hds
      next => cases h

theorem carries_of_not_isDigit (h : ∀ c ∈ cs.head?, c.isDigit = false) :
    Carries .word .word cs cs fun ds rest' => rest' = ds ∧ ∀ c ∈ ds.head?, c.isDigit = false :=
  .stop_word (fun _ => isWordChar_of_isDigit) h

theorem digits_of_not_isDigit (h : ∀ c ∈ cs.head?, c.isDigit = false) :
    cs.takeWhile Char.isDigit = [] ∧ cs.dropWhile Char.isDigit = cs := by
  cases cs with
  | nil => simp
  | cons c cs => simp [h c rfl]

theorem carries_digits (cs : List Char) :
    Carries .word .word cs (cs.dropWhile Char.isDigit) fun ds rest' =>
      ds.takeWhile Char.isDigit = cs.takeWhile Char.isDigit ∧
        rest' = ds.dropWhile Char.isDigit := by
  induction cs with
  | nil =>
    refine (carries_of_not_isDigit (by simp)).mono ?_
    rintro ds rest' ⟨rfl, hds⟩
    simp [digits_of_not_isDigit hds]
  | cons c cs ih =>
    by_cases hc : c.isDigit = true
    · rw [List.dropWhile_cons_of_pos hc]
      refine .cons_word (isWordChar_of_isDigit hc) (ih.mono ?_)
      rintro ds rest' ⟨htake, rfl⟩
      simp [hc, htake]
    · rw [List.dropWhile_cons_of_neg hc]
      refine (carries_of_not_isDigit (by simpa using hc)).mono ?_
      rintro ds rest' ⟨rfl, hds⟩
      simp [digits_of_not_isDigit hds, hc]

theorem exponentDigits_of_not_isDigit (exponent : Nat) (h : ∀ c ∈ cs.head?, c.isDigit = false) :
    exponentDigits exponent cs = (some exponent, cs) := by
  cases cs with
  | nil => rfl
  | cons c cs => simp [exponentDigits, h c rfl]

theorem carries_exponentDigits (exponent : Nat) (cs : List Char) :
    Carries .word .word cs (exponentDigits exponent cs).2 fun ds rest' =>
      exponentDigits exponent ds = ((exponentDigits exponent cs).1, rest') := by
  induction cs generalizing exponent with
  | nil =>
    refine (carries_of_not_isDigit (by simp)).mono ?_
    rintro ds rest' ⟨rfl, hds⟩
    exact exponentDigits_of_not_isDigit exponent hds
  | cons c cs ih =>
    by_cases hc : c.isDigit = true
    · by_cases hfits : exponent * 10 + digitValue c < 1 <<< 31
      · simp only [exponentDigits, hc, hfits, if_true]
        refine .cons_word (isWordChar_of_isDigit hc) ((ih _).mono ?_)
        intro ds rest' hds
        simp only [exponentDigits, hc, hfits, if_true, hds]
      · simp only [exponentDigits, hc, hfits, if_true, if_false]
        refine .cons_word (isWordChar_of_isDigit hc) (.done fun ds => ?_)
        simp only [exponentDigits, hc, hfits, if_true, if_false]
    · have hcs : ∀ d ∈ (c :: cs).head?, d.isDigit = false := by simpa using hc
      rw [exponentDigits_of_not_isDigit exponent hcs]
      refine (carries_of_not_isDigit hcs).mono ?_
      rintro ds rest' ⟨rfl, hds⟩
      exact exponentDigits_of_not_isDigit exponent hds

end Words

section Numbers

variable {negative down : Bool} {significand dropped : Nat} {exponent : Int} {n : Number}

theorem carries_scaled (h : scaled negative significand exponent cs = .ok (n, rest)) :
    Carries .word .word cs rest fun ds rest' =>
      scaled negative significand exponent ds = .ok (n, rest') := by
  unfold scaled at h ⊢
  split at h
  next =>
    cases h
    exact .done fun _ => rfl
  next => cases h

-- Whether an exponent has a minus sign, and what follows its sign.
def exponentSign (cs : List Char) : Bool × List Char :=
  match cs with
  | '+' :: cs => (false, cs)
  | '-' :: cs => (true, cs)
  | cs => (false, cs)

-- An exponent after its sign.
def exponentAfterSign (down negative : Bool) (significand : Nat) (exponent : Int)
    (cs : List Char) : Except Failure (Number × List Char) :=
  match cs with
  | [] => failAt [] .endOfValue
  | c :: _ =>
    if c.isDigit then
      match exponentDigits 0 cs with
      | (some e, rest) =>
        scaled negative significand (if down then exponent - e else exponent + e) rest
      | (none, rest) =>
        if significand ≠ 0 && !down then failAt rest .numberOutOfRange
        else .ok (.float (if negative then -0.0 else 0.0), rest.dropWhile Char.isDigit)
    else failOn cs .invalidNumber

theorem withExponent_eq (cs : List Char) :
    withExponent negative significand exponent cs =
      exponentAfterSign (exponentSign cs).1 negative significand exponent (exponentSign cs).2 :=
  rfl

theorem exponentSign_of_unsigned (h : ∀ c ∈ cs.head?, (c = '+' || c = '-') = false) :
    exponentSign cs = (false, cs) := by
  unfold exponentSign
  split
  next => simp at h
  next => simp at h
  next => rfl

theorem carries_exponentSign (cs : List Char) :
    Carries .word .word cs (exponentSign cs).2 fun ds rest' =>
      exponentSign ds = ((exponentSign cs).1, rest') := by
  by_cases hsigned : ∀ c ∈ cs.head?, (c = '+' || c = '-') = false
  · rw [exponentSign_of_unsigned hsigned]
    refine (Carries.stop_word ?_ hsigned).mono ?_
    · intro c hc
      simp only [Bool.or_eq_true, decide_eq_true_eq] at hc
      rcases hc with rfl | rfl <;> decide
    · rintro ds rest' ⟨rfl, hds⟩
      exact exponentSign_of_unsigned hds
  · cases cs with
    | nil => simp at hsigned
    | cons c cs =>
      simp only [List.head?_cons, Option.mem_some_iff, forall_eq', Bool.not_eq_false,
        Bool.or_eq_true, decide_eq_true_eq] at hsigned
      rcases hsigned with rfl | rfl <;>
        exact .cons_word (by decide) (.done fun _ => rfl)

theorem carries_exponentAfterSign
    (h : exponentAfterSign down negative significand exponent cs = .ok (n, rest)) :
    Carries .word .word cs rest fun ds rest' =>
      exponentAfterSign down negative significand exponent ds = .ok (n, rest') := by
  unfold exponentAfterSign at h
  split at h
  next => cases h
  next c cs =>
    split at h
    next hc =>
      have hdigits := (carries_exponentDigits 0 (c :: cs)).head?_word (isWordChar_of_isDigit hc)
      split at h
      next e mid hread =>
        rw [hread] at hdigits
        refine hdigits.trans (carries_scaled h) ?_
        rintro ds mid' rest' ⟨hds, hfirst⟩ hscaled
        obtain ⟨ds', rfl⟩ := List.head?_eq_some_iff.mp hfirst
        simpa only [exponentAfterSign, hc, if_true, hds] using hscaled
      next mid hread =>
        rw [hread] at hdigits
        split at h
        next => cases h
        next hzero =>
          cases h
          refine hdigits.trans (carries_digits mid) ?_
          rintro ds mid' rest' ⟨hds, hfirst⟩ ⟨-, rfl⟩
          obtain ⟨ds', rfl⟩ := List.head?_eq_some_iff.mp hfirst
          simp only [exponentAfterSign, hc, if_true, hds, hzero]
          rfl
    next => cases h

theorem carries_withExponent (h : withExponent negative significand exponent cs = .ok (n, rest)) :
    Carries .word .word cs rest fun ds rest' =>
      withExponent negative significand exponent ds = .ok (n, rest') := by
  rw [withExponent_eq] at h
  refine (carries_exponentSign cs).trans (carries_exponentAfterSign h) ?_
  intro ds mid' rest' hsign hafter
  rw [withExponent_eq, hsign]
  exact hafter

-- A mark after which the number goes on.
theorem carries_mark {mark : Char} (hmark : isWordChar mark = true)
    {read readAfter : List Char → Except Failure (Number × List Char)}
    (hread : ∀ ds, read (mark :: ds) = readAfter ds)
    (h : Carries .word .word cs rest fun ds rest' => readAfter ds = .ok (n, rest')) :
    Carries .word .word (mark :: cs) rest fun ds rest' => read ds = .ok (n, rest') := by
  refine .cons_word hmark (h.mono ?_)
  intro ds rest' hds
  rw [hread, hds]

def isExponentMark (c : Char) : Bool :=
  c = 'e' || c = 'E'

theorem isWordChar_of_isExponentMark {c : Char} (h : isExponentMark c = true) :
    isWordChar c = true := by
  simp only [isExponentMark, Bool.or_eq_true, decide_eq_true_eq] at h
  rcases h with rfl | rfl <;> decide

-- What follows the digits of a fraction.
def fractionEnd (negative : Bool) (significand : Nat) (exponent : Int) (cs : List Char) :
    Except Failure (Number × List Char) :=
  match cs with
  | 'e' :: rest => withExponent negative significand exponent rest
  | 'E' :: rest => withExponent negative significand exponent rest
  | rest => scaled negative significand exponent rest

theorem fractionEnd_of_unmarked (h : ∀ c ∈ cs.head?, isExponentMark c = false) :
    fractionEnd negative significand exponent cs = scaled negative significand exponent cs := by
  unfold fractionEnd
  split
  next => simp [isExponentMark] at h
  next => simp [isExponentMark] at h
  next => rfl

theorem carries_fractionEnd (h : fractionEnd negative significand exponent cs = .ok (n, rest)) :
    Carries .word .word cs rest fun ds rest' =>
      fractionEnd negative significand exponent ds = .ok (n, rest') := by
  by_cases hmark : ∀ c ∈ cs.head?, isExponentMark c = false
  · rw [fractionEnd_of_unmarked hmark] at h
    refine (Carries.stop_word (fun _ => isWordChar_of_isExponentMark) hmark).trans
      (carries_scaled h) ?_
    rintro ds mid' rest' ⟨rfl, hds⟩ hscaled
    rw [fractionEnd_of_unmarked hds, hscaled]
  · cases cs with
    | nil => simp at hmark
    | cons c cs =>
      have hc : c = 'e' ∨ c = 'E' := by
        simpa [isExponentMark, or_iff_not_imp_left] using hmark
      rcases hc with rfl | rfl <;>
        exact carries_mark (by decide) (fun _ => rfl) (carries_withExponent h)

theorem withFraction_eq (cs : List Char) :
    withFraction negative significand exponent cs =
      if (cs.takeWhile Char.isDigit).isEmpty then
        failOn (cs.dropWhile Char.isDigit)
          (if (cs.dropWhile Char.isDigit).isEmpty then .endOfValue else .invalidNumber)
      else
        fractionEnd negative (keepDigits significand (cs.takeWhile Char.isDigit)).1
          (exponent - ((cs.takeWhile Char.isDigit).length -
            (keepDigits significand (cs.takeWhile Char.isDigit)).2.length : Nat))
          (cs.dropWhile Char.isDigit) :=
  rfl

theorem carries_withFraction (h : withFraction negative significand exponent cs = .ok (n, rest)) :
    Carries .word .word cs rest fun ds rest' =>
      withFraction negative significand exponent ds = .ok (n, rest') := by
  rw [withFraction_eq] at h
  split at h
  next => cases h
  next hsome =>
    refine (carries_digits cs).trans (carries_fractionEnd h) ?_
    rintro ds mid' rest' ⟨htake, rfl⟩ hend
    rw [withFraction_eq, htake, if_neg hsome, hend]

-- A number without a fraction or an exponent.
def wholeNumber (negative : Bool) (significand dropped : Nat) (cs : List Char) :
    Except Failure (Number × List Char) :=
  if dropped ≠ 0 then scaled negative significand dropped cs
  else if !negative then .ok (.integer significand, cs)
  else if 0 < significand && significand ≤ 1 <<< 63 then .ok (.integer (-significand), cs)
  else .ok (.float (-significand.toUInt64.toFloat), cs)

theorem carries_wholeNumber (h : wholeNumber negative significand dropped cs = .ok (n, rest)) :
    Carries .word .word cs rest fun ds rest' =>
      wholeNumber negative significand dropped ds = .ok (n, rest') := by
  by_cases hdropped : dropped = 0
  · simp only [wholeNumber, hdropped, ne_eq, not_true_eq_false, if_false] at h ⊢
    split at h
    next hpositive =>
      cases h
      exact .done fun _ => if_pos hpositive
    next hnegative =>
      split at h <;> cases h
      next hfits => exact .done fun _ => by rw [if_neg hnegative, if_pos hfits]
      next hlarge => exact .done fun _ => by rw [if_neg hnegative, if_neg hlarge]
  · have hscaled (ds : List Char) : wholeNumber negative significand dropped ds =
        scaled negative significand dropped ds := if_pos hdropped
    rw [hscaled] at h
    refine (carries_scaled h).mono ?_
    intro ds rest' hds
    rw [hscaled, hds]

-- What can follow the whole part of a number.
def isNumberMark (c : Char) : Bool :=
  c = '.' || isExponentMark c

theorem isWordChar_of_isNumberMark {c : Char} (h : isNumberMark c = true) :
    isWordChar c = true := by
  simp only [isNumberMark, Bool.or_eq_true, decide_eq_true_eq] at h
  rcases h with rfl | h
  · decide
  · exact isWordChar_of_isExponentMark h

theorem afterWhole_of_unmarked (h : ∀ c ∈ cs.head?, isNumberMark c = false) :
    afterWhole negative significand dropped cs = wholeNumber negative significand dropped cs := by
  unfold afterWhole
  split
  next => simp [isNumberMark] at h
  next => simp [isNumberMark, isExponentMark] at h
  next => simp [isNumberMark, isExponentMark] at h
  next => rfl

theorem carries_afterWhole (h : afterWhole negative significand dropped cs = .ok (n, rest)) :
    Carries .word .word cs rest fun ds rest' =>
      afterWhole negative significand dropped ds = .ok (n, rest') := by
  by_cases hmark : ∀ c ∈ cs.head?, isNumberMark c = false
  · rw [afterWhole_of_unmarked hmark] at h
    refine (Carries.stop_word (fun _ => isWordChar_of_isNumberMark) hmark).trans
      (carries_wholeNumber h) ?_
    rintro ds mid' rest' ⟨rfl, hds⟩ hwhole
    rw [afterWhole_of_unmarked hds, hwhole]
  · cases cs with
    | nil => simp at hmark
    | cons c cs =>
      have hc : c = '.' ∨ c = 'e' ∨ c = 'E' := by
        simpa [isNumberMark, isExponentMark, or_iff_not_imp_left] using hmark
      rcases hc with rfl | rfl | rfl
      · exact carries_mark (by decide) (fun _ => rfl) (carries_withFraction h)
      · exact carries_mark (by decide) (fun _ => rfl) (carries_withExponent h)
      · exact carries_mark (by decide) (fun _ => rfl) (carries_withExponent h)

theorem readNumber_zero (h : ∀ d ∈ cs.head?, d.isDigit = false) :
    readNumber negative ('0' :: cs) = afterWhole negative 0 0 cs := by
  cases cs with
  | nil => rfl
  | cons d cs => simp [readNumber, h d rfl]

theorem carries_readNumber (h : readNumber negative cs = .ok (n, rest)) :
    Carries .word .word cs rest fun ds rest' => readNumber negative ds = .ok (n, rest') := by
  cases cs with
  | nil => cases h
  | cons c cs =>
    by_cases hzero : c = '0'
    · -- No digit follows a zero.
      subst hzero
      by_cases hdigit : ∀ d ∈ cs.head?, d.isDigit = false
      · rw [readNumber_zero hdigit] at h
        refine .cons_word (by decide)
          ((carries_of_not_isDigit hdigit).trans (carries_afterWhole h) ?_)
        rintro ds mid' rest' ⟨rfl, hds⟩ hafter
        rw [readNumber_zero hds, hafter]
      · cases cs with
        | nil => simp at hdigit
        | cons d cs =>
          have hd : d.isDigit = true := by simpa using hdigit
          simp [readNumber, hd, failOn] at h
    · by_cases hc : c.isDigit = true
      · simp only [readNumber, hzero, if_false, hc, if_true] at h
        refine ((carries_digits (c :: cs)).head?_word (isWordChar_of_isDigit hc)).trans
          (carries_afterWhole h) ?_
        rintro ds mid' rest' ⟨⟨htake, rfl⟩, hfirst⟩ hafter
        obtain ⟨ds', rfl⟩ := List.head?_eq_some_iff.mp hfirst
        simpa only [readNumber, hzero, if_false, hc, if_true, htake] using hafter
      · simp [readNumber, hzero, hc, failOn] at h

end Numbers

section Scalars

variable {s : Scan} {c : Char} {json : Json}

-- A scalar is carried from its first character on.
theorem carries_scalarAt (h : ScalarAt rest (c :: cs) json) :
    c ≠ '/' ∧ Carries (Scan.between.next c) .between cs rest fun ds rest' =>
      ScalarAt rest' (c :: ds) json := by
  cases h with
  | null h =>
    exact ⟨by decide, ((carries_keyword (by decide) h).mono fun _ _ => .null).between_of_word⟩
  | true h =>
    exact ⟨by decide, ((carries_keyword (by decide) h).mono fun _ _ => .true).between_of_word⟩
  | false h =>
    exact ⟨by decide, ((carries_keyword (by decide) h).mono fun _ _ => .false).between_of_word⟩
  | string h => exact ⟨by decide, (carries_readString h).mono fun _ _ => .string⟩
  | negative h =>
    exact ⟨by decide, ((carries_readNumber h).mono fun _ _ => .negative).between_of_word⟩
  | natural hdigit h =>
    have hword := isWordChar_of_isDigit hdigit
    refine ⟨ne_slash_of_isWordChar hword, ?_⟩
    rw [← Scan.next_word]
    exact ((carries_readNumber h).of_cons.mono fun _ _ => .natural hdigit).between_of_word

end Scalars

end EmbeddedStyles.Json
