import EmbeddedStyles.Json.Printer
import EmbeddedStyles.Json.Value
import EmbeddedStyles.Proofs.Text.Split

namespace EmbeddedStyles

section Steps

variable {ε α β : Type}

-- Steps that may fail, one after the other.
@[simp] theorem ok_bind (x : α) (f : α → Except ε β) : (Except.ok x >>= f) = f x := rfl

@[simp] theorem error_bind (e : ε) (f : α → Except ε β) : (Except.error e >>= f) = .error e := rfl

@[simp] theorem pure_eq_ok (x : α) : (pure x : Except ε α) = .ok x := rfl

theorem bind_eq_ok_iff {x : Except ε α} {f : α → Except ε β} {y : β} :
    (x >>= f) = .ok y ↔ ∃ a, x = .ok a ∧ f a = .ok y := by
  cases x <;> simp

theorem toOption_congr {ε' : Type} {x : Except ε α} {y : Except ε' α}
    (h : ∀ a, x = .ok a ↔ y = .ok a) : x.toOption = y.toOption := by
  cases x with
  | ok a =>
    rw [(h a).mp rfl]
    rfl
  | error e =>
    cases y with
    | ok b => cases (h b).mpr rfl
    | error e' => rfl

end Steps

namespace Json

-- Characters that are passed over between the parts of a document.
def Blank (gap : List Char) : Prop :=
  ∀ c ∈ gap, isBlank c = true

theorem skipBlanks_append {gap : List Char} (h : Blank gap) (cs : List Char) :
    skipBlanks (gap ++ cs) = skipBlanks cs := by
  simp only [skipBlanks]
  exact List.dropWhile_append_of_pos h

theorem skipBlanks_cons {c : Char} (h : isBlank c = false) (cs : List Char) :
    skipBlanks (c :: cs) = c :: cs := by
  simp [skipBlanks, h]

-- The text cannot go on with the digits, the fraction or the exponent of a number before it.
def Delimited (rest : List Char) : Prop :=
  ∀ c ∈ rest.head?, c.isDigit = false ∧ c ≠ '.' ∧ c ≠ 'e' ∧ c ≠ 'E'

theorem delimited_nil : Delimited [] := by
  simp [Delimited]

theorem delimited_cons {c : Char} (hdigit : c.isDigit = false) (hpoint : c ≠ '.') (hlower : c ≠ 'e')
    (hupper : c ≠ 'E') (cs : List Char) : Delimited (c :: cs) := by
  simp [Delimited, hdigit, hpoint, hlower, hupper]

theorem delimited_of_blank {gap rest : List Char} (hgap : Blank gap) (hrest : Delimited rest) :
    Delimited (gap ++ rest) := by
  cases gap with
  | nil => exact hrest
  | cons c gap =>
    have hc : isBlank c = true := hgap c List.mem_cons_self
    simp only [isBlank, Bool.or_eq_true, decide_eq_true_eq] at hc
    rcases hc with ((rfl | rfl) | rfl) | rfl <;>
      exact delimited_cons (by decide) (by decide) (by decide) (by decide) _

section Strings

theorem hexValue?_digitChar {n : Nat} (h : n < 16) : hexValue? (Nat.digitChar n) = some n := by
  revert n
  decide

-- A control character is escaped by its number, which is no surrogate.
theorem stringTail_control {c : Char} (h : c.toNat < 32) (rest : List Char) :
    stringTail none (['\\', 'u', '0', '0', Nat.digitChar (c.toNat / 16),
      Nat.digitChar (c.toNat % 16)] ++ rest) = consChar c (stringTail none rest) := by
  have hhigh := hexValue?_digitChar (n := c.toNat / 16) (by omega)
  have hlow := hexValue?_digitChar (n := c.toNat % 16) (by omega)
  have hzero : hexValue? '0' = some 0 := by decide
  have hvalue : c.toNat / 16 * 16 + c.toNat % 16 = c.toNat := by omega
  have hlowSurrogate : isLowSurrogate c.toNat = false := by
    simp [isLowSurrogate]
    omega
  have hhighSurrogate : isHighSurrogate c.toNat = false := by
    simp [isHighSurrogate]
    omega
  simp [stringTail, hexValues?, hhigh, hlow, hzero, hvalue, hlowSurrogate, hhighSurrogate,
    Char.ofNat_toNat]

theorem stringTail_quote (rest : List Char) : stringTail none ('"' :: rest) = .ok ([], rest) := by
  simp [stringTail.eq_def]

theorem stringTail_simple {e c : Char} (h : simpleEscape? e = some c) (hu : e ≠ 'u')
    (rest : List Char) :
    stringTail none ('\\' :: e :: rest) = consChar c (stringTail none rest) := by
  rw [stringTail.eq_def]
  simp [h, hu]

theorem stringTail_plain {c : Char} (hquote : c ≠ '"') (hbackslash : c ≠ '\\')
    (hcontrol : 32 ≤ c.toNat) (rest : List Char) :
    stringTail none (c :: rest) = consChar c (stringTail none rest) := by
  rw [stringTail.eq_def]
  simp [hquote, hbackslash, Nat.not_lt.mpr hcontrol]

theorem stringTail_escapeChar (c : Char) (rest : List Char) :
    stringTail none (escapeChar c ++ rest) = consChar c (stringTail none rest) := by
  unfold escapeChar
  split
  next h =>
    subst h
    exact stringTail_simple (by decide) (by decide) rest
  split
  next h =>
    subst h
    exact stringTail_simple (by decide) (by decide) rest
  split
  next h =>
    subst h
    exact stringTail_simple (by decide) (by decide) rest
  split
  next h =>
    subst h
    exact stringTail_simple (by decide) (by decide) rest
  split
  next h =>
    subst h
    exact stringTail_simple (by decide) (by decide) rest
  split
  next h =>
    obtain rfl : c = Char.ofNat 8 := by rw [← h, Char.ofNat_toNat]
    exact stringTail_simple (by decide) (by decide) rest
  split
  next h =>
    obtain rfl : c = Char.ofNat 12 := by rw [← h, Char.ofNat_toNat]
    exact stringTail_simple (by decide) (by decide) rest
  split
  next h => exact stringTail_control h rest
  next hquote hbackslash _ _ _ _ _ hcontrol =>
    exact stringTail_plain hquote hbackslash (by omega) rest

theorem readString_escaped (text rest : List Char) :
    readString (text.flatMap escapeChar ++ '"' :: rest) = .ok (String.ofList text, rest) := by
  have htail : stringTail none (text.flatMap escapeChar ++ '"' :: rest) = .ok (text, rest) := by
    induction text with
    | nil => exact stringTail_quote rest
    | cons c text ih =>
      rw [List.flatMap_cons, List.append_assoc, stringTail_escapeChar, ih]
      rfl
  simp [readString, htail]

end Strings

section Numbers

-- Digits that stay below the limit are all kept.
theorem keepDigits_eq {ds : List Char} {significand : Nat}
    (h : Nat.ofDigitChars 10 ds significand < UInt64.size) :
    keepDigits significand ds = (Nat.ofDigitChars 10 ds significand, []) := by
  induction ds generalizing significand with
  | nil => simp [keepDigits]
  | cons d ds ih =>
    have hstep : Nat.ofDigitChars 10 (d :: ds) significand =
        Nat.ofDigitChars 10 ds (significand * 10 + digitValue d) := by
      rw [Nat.ofDigitChars_cons, Nat.mul_comm]
      rfl
    rw [hstep] at h ⊢
    have hle : significand * 10 + digitValue d ≤
        Nat.ofDigitChars 10 ds (significand * 10 + digitValue d) := by
      rw [Nat.ofDigitChars_eq_ofDigitChars_zero]
      exact Nat.le_add_right_of_le (Nat.le_mul_of_pos_left _ (Nat.pow_pos (by decide)))
    have hnext : significand * 10 + digitValue d < UInt64.size := Nat.lt_of_le_of_lt hle h
    simp only [keepDigits, hnext, if_true]
    exact ih h

-- No zero stands before other digits.
theorem head?_toDigits {n : Nat} (h : 0 < n) : (Nat.toDigits 10 n).head? ≠ some '0' := by
  induction n using Nat.strongRecOn with
  | ind n ih =>
    by_cases hsmall : n < 10
    · simpa [Nat.toDigits_of_lt_base hsmall] using Nat.pos_iff_ne_zero.mp h
    · have hrec := ih (n / 10) (by omega) (by omega)
      rw [Nat.toDigits_of_base_le (by decide) (by omega)]
      cases hdigits : Nat.toDigits 10 (n / 10) with
      | nil => exact absurd hdigits Nat.toDigits_ne_nil
      | cons d ds => simpa [hdigits] using hrec

-- Digits are taken up to the end of a number.
theorem span_isDigit_append {ds rest : List Char} (hds : ∀ c ∈ ds, c.isDigit = true)
    (hrest : Delimited rest) :
    (ds ++ rest).takeWhile Char.isDigit = ds ∧ (ds ++ rest).dropWhile Char.isDigit = rest :=
  (Text.eq_append_run_iff fun c hc => (hrest c hc).1).mp ⟨rfl, hds⟩

theorem afterWhole_of_delimited {rest : List Char} (hrest : Delimited rest) (negative : Bool)
    (significand : Nat) :
    afterWhole negative significand 0 rest =
      if !negative then .ok (.integer significand, rest)
      else if 0 < significand && significand ≤ 1 <<< 63 then .ok (.integer (-significand), rest)
      else .ok (.float (-significand.toUInt64.toFloat), rest) := by
  cases rest with
  | nil => simp [afterWhole]
  | cons c rest =>
    obtain ⟨-, hpoint, hlower, hupper⟩ := hrest c rfl
    unfold afterWhole
    split
    next h => exact absurd (List.cons.inj h).1 hpoint
    next h => exact absurd (List.cons.inj h).1 hlower
    next h => exact absurd (List.cons.inj h).1 hupper
    next => simp

theorem readNumber_toDigits {n : Nat} (h : n < UInt64.size) (negative : Bool) {rest : List Char}
    (hrest : Delimited rest) :
    readNumber negative (Nat.toDigits 10 n ++ rest) = afterWhole negative n 0 rest := by
  rcases Nat.eq_zero_or_pos n with rfl | hpos
  · rw [Nat.toDigits_zero]
    cases rest with
    | nil => rfl
    | cons c rest => simp [readNumber, (hrest c rfl).1]
  · have hdigits : ∀ c ∈ Nat.toDigits 10 n, c.isDigit = true :=
      fun c hc => Nat.isDigit_of_mem_toDigits (by decide) (by decide) hc
    obtain ⟨htake, hdrop⟩ := span_isDigit_append hdigits hrest
    have hkeep : keepDigits 0 (Nat.toDigits 10 n) = (n, []) := by
      rw [keepDigits_eq (by simpa using h), Nat.ofDigitChars_ten_toDigits]
    have hhead := head?_toDigits hpos
    cases hds : Nat.toDigits 10 n with
    | nil => exact absurd hds Nat.toDigits_ne_nil
    | cons d ds =>
      have hd : d.isDigit = true := hdigits d (by simp [hds])
      have hzero : d ≠ '0' := by simpa [hds] using hhead
      rw [hds] at htake hdrop hkeep
      rw [List.cons_append] at htake hdrop ⊢
      simp only [readNumber, hzero, hd, if_true, if_false, htake, hdrop, hkeep, List.length_nil]

-- Integers that fit 64 bits, with or without a sign.
def Number.Exact : Number → Prop
  | .integer n => -(1 <<< 63 : Nat) ≤ n ∧ n < UInt64.size
  | .float _ => False

theorem Number.Exact.exists_cons {n : Number} (h : n.Exact) :
    ∃ c cs, n.chars = c :: cs ∧ (c.isDigit = true ∨ c = '-') := by
  match n with
  | .integer (.ofNat n) =>
    cases hds : Nat.toDigits 10 n with
    | nil => exact absurd hds Nat.toDigits_ne_nil
    | cons d ds =>
      have hd : d ∈ Nat.toDigits 10 n := by simp [hds]
      exact ⟨d, ds, hds, .inl (Nat.isDigit_of_mem_toDigits (by decide) (by decide) hd)⟩
  | .integer (.negSucc n) => exact ⟨'-', _, rfl, .inr rfl⟩

theorem ne_of_isDigit {c d : Char} (hc : c.isDigit = true) (hd : d.isDigit = false) : c ≠ d := by
  rintro rfl
  simp [hc] at hd

theorem scalar_of_isDigit {c : Char} (h : c.isDigit = true) (cs : List Char) :
    scalar (c :: cs) = do
      let (n, rest) ← readNumber false (c :: cs)
      return (.number n, rest) := by
  have hne : ∀ d : Char, d.isDigit = false → c ≠ d := fun _ => ne_of_isDigit h
  simp only [scalar, hne 'n' (by decide), hne 't' (by decide), hne 'f' (by decide),
    hne '"' (by decide), hne '-' (by decide), h, if_true, if_false]

theorem scalar_number {n : Number} (h : n.Exact) {rest : List Char} (hrest : Delimited rest) :
    scalar (n.chars ++ rest) = .ok (.number n, rest) := by
  match n with
  | .integer (.ofNat n) =>
    have hn : n < UInt64.size := by
      have := h.2
      simp only [Int.ofNat_eq_natCast] at this
      omega
    have hread := readNumber_toDigits hn false hrest
    cases hds : Nat.toDigits 10 n with
    | nil => exact absurd hds Nat.toDigits_ne_nil
    | cons d ds =>
      have hd : d.isDigit = true :=
        Nat.isDigit_of_mem_toDigits (b := 10) (n := n) (by decide) (by decide) (by simp [hds])
      rw [hds, List.cons_append, afterWhole_of_delimited hrest] at hread
      simp only [Number.chars, digitsOf, hds, List.cons_append, scalar_of_isDigit hd, hread]
      rfl
  | .integer (.negSucc n) =>
    have hn : n + 1 ≤ 1 <<< 63 := by
      have := h.1
      rw [Int.negSucc_eq] at this
      omega
    have hread : readNumber true (Nat.toDigits 10 (n + 1) ++ rest) =
        .ok (.integer (.negSucc n), rest) := by
      have hlt : n + 1 < UInt64.size := Nat.lt_of_le_of_lt hn (by decide)
      rw [readNumber_toDigits hlt true hrest, afterWhole_of_delimited hrest,
        if_neg (by decide), if_pos (by simp; omega)]
      rfl
    simp [Number.chars, digitsOf, scalar, hread]

end Numbers

end Json

end EmbeddedStyles
