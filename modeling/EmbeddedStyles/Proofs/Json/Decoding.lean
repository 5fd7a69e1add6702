import EmbeddedStyles.Json.Decoder
import EmbeddedStyles.Proofs.Json.Forms

namespace EmbeddedStyles.Json

section Integers

variable {negative : Bool} {significand : Nat} {cs rest : List Char} {n : Number}

theorem keepDigits_lt (ds : List Char) {significand : Nat} (h : significand < UInt64.size) :
    (keepDigits significand ds).1 < UInt64.size := by
  induction ds generalizing significand with
  | nil => exact h
  | cons d ds ih =>
    simp only [keepDigits]
    split
    next hnext => exact ih hnext
    next => exact h

theorem exists_float_of_scaled {exponent : Int}
    (h : scaled negative significand exponent cs = .ok (n, rest)) : ∃ x, n = .float x := by
  unfold scaled at h
  split at h
  · cases h
    exact ⟨_, rfl⟩
  · cases h

theorem exists_float_of_withExponent {exponent : Int}
    (h : withExponent negative significand exponent cs = .ok (n, rest)) : ∃ x, n = .float x := by
  unfold withExponent at h
  split at h
  split at h
  · cases h
  · split at h
    · split at h
      · exact exists_float_of_scaled h
      · split at h
        · cases h
        · cases h
          exact ⟨_, rfl⟩
    · cases h

theorem exists_float_of_withFraction {exponent : Int}
    (h : withFraction negative significand exponent cs = .ok (n, rest)) : ∃ x, n = .float x := by
  simp only [withFraction] at h
  split at h
  · cases h
  · split at h
    · exact exists_float_of_withExponent h
    · exact exists_float_of_withExponent h
    · exact exists_float_of_scaled h

-- Integers that are read fit 64 bits.
theorem lt_of_afterWhole {dropped : Nat} {k : Int} (hsignificand : significand < UInt64.size)
    (h : afterWhole negative significand dropped cs = .ok (.integer k, rest)) :
    k < UInt64.size := by
  unfold afterWhole at h
  split at h
  · obtain ⟨x, hx⟩ := exists_float_of_withFraction h
    cases hx
  · obtain ⟨x, hx⟩ := exists_float_of_withExponent h
    cases hx
  · obtain ⟨x, hx⟩ := exists_float_of_withExponent h
    cases hx
  · split at h
    · obtain ⟨x, hx⟩ := exists_float_of_scaled h
      cases hx
    · split at h
      · cases h
        omega
      · split at h
        · cases h
          omega
        · cases h

theorem lt_of_readNumber {k : Int} (h : readNumber negative cs = .ok (.integer k, rest)) :
    k < UInt64.size := by
  unfold readNumber at h
  split at h
  · cases h
  · split at h
    · split at h
      · split at h
        · cases h
        · exact lt_of_afterWhole (by decide) h
      · exact lt_of_afterWhole (by decide) h
    · split at h
      · exact lt_of_afterWhole (keepDigits_lt _ (by decide)) h
      · cases h

end Integers

section Text

variable {α β σ : Type} {depth : Nat} {cs rest : List Char} {json : Json}

-- Wherever the document stands in a text, the decoder reads it to its end and makes `x` of it.
def Decoder.Reads (d : Decoder α) (json : Json) (x : α) : Prop :=
  ∀ depth cs rest, Json.value depth cs = .ok (json, rest) → d.text depth cs = .ok (x, rest)

theorem Decoder.Reads.ofText {d : Decoder α} {x : α} (h : d.Reads json x) {text : String}
    (hparse : parse text = .ok json) : d.ofText text = .ok x := by
  obtain ⟨rest, hvalue, hblank⟩ := finish_eq_ok_iff.mp hparse
  exact finish_eq_ok_iff.mpr ⟨rest, h _ _ _ hvalue, hblank⟩

theorem Decoder.Reads.map {d : Decoder α} {x : α} (h : d.Reads json x) (f : α → β) :
    (d.map f).Reads json (f x) := by
  intro depth cs rest hvalue
  simp [Decoder.map, h depth cs rest hvalue]

theorem Decoder.reads_any (json : Json) : Decoder.any.Reads json json.sorted := by
  intro depth cs rest hvalue
  simp [Decoder.any, hvalue]

-- No bound is needed beyond the one that integers in a text have anyway.
theorem Decoder.reads_natural {bound : Nat} (hbound : UInt64.size ≤ bound) (wanted : String)
    (n : Nat) :
    (Decoder.natural bound wanted).Reads (.number (.integer n)) n := by
  intro depth cs rest hvalue
  have hnatural (h : (n : Int) < UInt64.size) : toNatural bound wanted (.integer n) = .ok n := by
    have hlt : (n : Int) < bound := by omega
    simpa [toNatural] using hlt
  have hat := valueAt_of_value hvalue
  generalize hcs : skipBlanks cs = cs' at hat
  cases hat with
  | scalar hat =>
    cases hat with
    | negative hread =>
      simp [Decoder.natural, hcs, hread, hnatural (lt_of_readNumber hread), placed]
    | natural hdigit hread =>
      have hminus := ne_of_isDigit hdigit (show '-'.isDigit = false by decide)
      simp [Decoder.natural, hcs, hminus, hdigit, hread, hnatural (lt_of_readNumber hread), placed]

theorem Decoder.optional_value_of_ne (d : Decoder α) (h : json ≠ .null) :
    d.optional.value json = do return some (← d.value json) := by
  cases json with
  | null => exact absurd rfl h
  | _ => rfl

-- Null is the only document that starts like null.
theorem eq_null_of_value (h : value depth cs = .ok (json, rest)) {cs' : List Char}
    (hcs : skipBlanks cs = 'n' :: cs') : json = .null := by
  have hat := valueAt_of_value h
  rw [hcs] at hat
  cases hat with
  | scalar hat =>
    cases hat with
    | null => rfl
    | natural hdigit => cases hdigit

theorem Decoder.Reads.optional {d : Decoder α} {x : α} (h : d.Reads json x) (hjson : json ≠ .null) :
    d.optional.Reads json (some x) := by
  intro depth cs rest hvalue
  simp only [Decoder.optional]
  split
  next cs' hcs => exact absurd (eq_null_of_value hvalue hcs) hjson
  next => simp [h depth (skipBlanks cs) rest ((value_skipBlanks depth cs).trans hvalue)]

-- A record takes the entries of an object into its state, none of its fields twice.
inductive Record.ReadsEntries (r : Record σ α) : σ → List (String × Json) → σ → Prop
  | nil (s : σ) : r.ReadsEntries s [] s
  | cons {s s' : σ} {key : String} {json : Json} {es : List (String × Json)} {f : Field σ}
      {set : σ → σ} (hfield : r.field? key = some f) (hfresh : f.isSet s = false)
      (hread : f.decoder.Reads json set) (hrest : r.ReadsEntries (set s) es s') :
      r.ReadsEntries s ((key, json) :: es) s'

theorem Record.ReadsEntries.objectText {r : Record σ α} {s s' : σ} {es : List (String × Json)}
    (h : r.ReadsEntries s es s') {bound : Nat} {first : Bool}
    (hread : entries (value depth) bound first cs = .ok (es, rest)) :
    r.objectText depth bound first s cs = .ok (s', rest) := by
  induction bound generalizing s es first cs with
  | zero => cases hread
  | succ bound ih =>
    rw [entries] at hread
    obtain ⟨next, hnext, hread⟩ := bind_eq_ok_iff.mp hread
    cases next with
    | done after =>
      cases hread
      cases h
      simp [Record.objectText, hnext]
    | more key after =>
      obtain ⟨after', hcolon, hread⟩ := bind_eq_ok_iff.mp hread
      obtain ⟨⟨json, after''⟩, hvalue, hread⟩ := bind_eq_ok_iff.mp hread
      obtain ⟨⟨es, _⟩, hentries, hread⟩ := bind_eq_ok_iff.mp hread
      cases hread
      cases h with
      | cons hfield hfresh hfound hrest =>
        simp [Record.objectText, hnext, Record.entry, hfield, hfresh, hcolon,
          hfound _ _ _ hvalue, ih hrest hentries]

theorem Record.ReadsEntries.decoder {r : Record σ α} {s : σ} {es : List (String × Json)} {x : α}
    (h : r.ReadsEntries r.start es s) (hcomplete : r.complete s = .ok x) :
    r.decoder.Reads (.object es) x := by
  intro depth cs rest hvalue
  have hat := valueAt_of_value hvalue
  generalize hcs : skipBlanks cs = cs' at hat
  cases hat with
  | scalar hat => cases hat
  | object hread => simp [Record.decoder, hcs, nested, h.objectText hread, hcomplete, placed]

end Text

end EmbeddedStyles.Json
