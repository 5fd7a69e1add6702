import EmbeddedStyles.Proofs.Json.Compact

namespace EmbeddedStyles.Json

def beyondAscii (c : Char) : Bool :=
  128 ≤ c.toNat

-- A character of ASCII that is no control character. The last one, 127, is not escaped either.
def Plain (c : Char) : Prop :=
  32 ≤ c.toNat ∧ c.toNat < 128

instance : DecidablePred Plain :=
  fun _ => inferInstanceAs (Decidable (_ ∧ _))

theorem all_plain_iff {cs : List Char} : cs.all (Plain ·) = true ↔ ∀ c ∈ cs, Plain c := by
  simp only [List.all_eq_true, decide_eq_true_eq]

theorem plain_of_isDigit {c : Char} (h : c.isDigit = true) : Plain c := by
  simp only [Char.isDigit, Bool.and_eq_true, decide_eq_true_eq, ge_iff_le, UInt32.le_iff_toNat_le]
    at h
  have hlow : 48 ≤ c.toNat := h.1
  have hhigh : c.toNat ≤ 57 := h.2
  exact ⟨by omega, by omega⟩

-- The piece shows a text: beyond ASCII it has the characters of the text and no others, and it has
-- no control characters.
structure Shows (piece text : List Char) : Prop where
  visible : ∀ c ∈ piece, 32 ≤ c.toNat
  kept : piece.filter beyondAscii = text.filter beyondAscii

namespace Shows

variable {piece piece' text text' : List Char} {α : Type}

theorem of_plain (h : ∀ c ∈ piece, Plain c) : Shows piece [] := by
  refine ⟨fun c hc => (h c hc).1, ?_⟩
  rw [List.filter_nil, List.filter_eq_nil_iff]
  intro c hc
  have hlt := (h c hc).2
  simp only [beyondAscii, decide_eq_true_eq]
  omega

theorem append (h : Shows piece text) (h' : Shows piece' text') :
    Shows (piece ++ piece') (text ++ text') where
  visible := List.forall_mem_append.mpr ⟨h.visible, h'.visible⟩
  kept := by rw [List.filter_append, List.filter_append, h.kept, h'.kept]

-- Brackets, commas and other marks show nothing.
theorem cons {c : Char} (hc : Plain c) (h : Shows piece text) : Shows (c :: piece) text :=
  (of_plain (List.forall_mem_singleton.mpr hc)).append h

theorem concat {c : Char} (h : Shows piece text) (hc : Plain c) : Shows (piece ++ [c]) text := by
  have happend := h.append (of_plain (List.forall_mem_singleton.mpr hc))
  rwa [List.append_nil] at happend

theorem flatMap {f g : α → List Char} {xs : List α} (h : ∀ x ∈ xs, Shows (f x) (g x)) :
    Shows (xs.flatMap f) (xs.flatMap g) := by
  induction xs with
  | nil => exact of_plain (by simp)
  | cons x xs ih =>
    obtain ⟨hx, hxs⟩ := List.forall_mem_cons.mp h
    exact hx.append (ih hxs)

theorem commaSeparated {f g : α → List Char} {xs : List α} (h : ∀ x ∈ xs, Shows (f x) (g x)) :
    Shows (commaSeparated (xs.map f)) (xs.flatMap g) := by
  cases xs with
  | nil => exact of_plain (by simp [Json.commaSeparated])
  | cons x xs =>
    obtain ⟨hx, hxs⟩ := List.forall_mem_cons.mp h
    rw [List.map_cons, commaSeparated_cons, List.flatMap_map]
    exact hx.append (flatMap fun y hy => (hxs y hy).cons (by decide))

end Shows

section Strings

theorem plain_digitChar {n : Nat} (h : n < 16) : Plain (Nat.digitChar n) := by
  revert n
  decide

theorem shows_of_ascii {c : Char} {piece : List Char} (hc : c.toNat < 128)
    (h : piece.all (Plain ·) = true) : Shows piece [c] := by
  have hplain := all_plain_iff.mp h
  refine ⟨fun d hd => (hplain d hd).1, ?_⟩
  have hbeyond : beyondAscii c = false := by
    simp only [beyondAscii, decide_eq_false_iff_not]
    omega
  rw [(Shows.of_plain hplain).kept, List.filter_cons_of_neg (by simp [hbeyond])]

-- What is escaped is of ASCII, and so is the escape.
theorem shows_escapeChar (c : Char) : Shows (escapeChar c) [c] := by
  unfold escapeChar
  split
  next h => exact shows_of_ascii (by rw [h]; decide) (by decide)
  split
  next h => exact shows_of_ascii (by rw [h]; decide) (by decide)
  split
  next h => exact shows_of_ascii (by rw [h]; decide) (by decide)
  split
  next h => exact shows_of_ascii (by rw [h]; decide) (by decide)
  split
  next h => exact shows_of_ascii (by rw [h]; decide) (by decide)
  split
  next h => exact shows_of_ascii (by omega) (by decide)
  split
  next h => exact shows_of_ascii (by omega) (by decide)
  split
  next h =>
    have hhigh := plain_digitChar (n := c.toNat / 16) (by omega)
    have hlow := plain_digitChar (n := c.toNat % 16) (by omega)
    have hmarks : ∀ d ∈ ['\\', 'u', '0', '0'], Plain d := all_plain_iff.mp (by decide)
    have hdigits : ∀ d ∈ [Nat.digitChar (c.toNat / 16), Nat.digitChar (c.toNat % 16)], Plain d :=
      List.forall_mem_cons.mpr ⟨hhigh, List.forall_mem_singleton.mpr hlow⟩
    exact shows_of_ascii (by omega)
      (all_plain_iff.mpr (List.forall_mem_append.mpr ⟨hmarks, hdigits⟩))
  next h => exact ⟨List.forall_mem_singleton.mpr (by omega), rfl⟩

theorem shows_stringChars (text : List Char) : Shows (stringChars text) text := by
  have htext : Shows (text.flatMap escapeChar) (text.flatMap fun c => [c]) :=
    Shows.flatMap fun c _ => shows_escapeChar c
  rw [List.flatMap_singleton'] at htext
  exact (htext.concat (by decide)).cons (by decide)

end Strings

section Numbers

theorem plain_toDigits {n : Nat} : ∀ c ∈ Nat.toDigits 10 n, Plain c :=
  fun _ hc => plain_of_isDigit (Nat.isDigit_of_mem_toDigits (by decide) (by decide) hc)

theorem plain_digitsOf (n : Int) : ∀ c ∈ digitsOf n, Plain c := by
  cases n with
  | ofNat n => exact plain_toDigits
  | negSucc n => exact List.forall_mem_cons.mpr ⟨by decide, plain_toDigits⟩

theorem plain_zeros (n : Nat) : ∀ c ∈ List.replicate n '0', Plain c := by
  intro c hc
  rw [List.eq_of_mem_replicate hc]
  decide

theorem plain_write (f : FloatFormat) {ds : List Char} (hds : ∀ c ∈ ds, Plain c) (point : Int) :
    ∀ c ∈ f.write ds point, Plain c := by
  have htake (n : Nat) : ∀ c ∈ ds.take n, Plain c := fun c hc => hds c (List.mem_of_mem_take hc)
  have hdrop (n : Nat) : ∀ c ∈ ds.drop n, Plain c := fun c hc => hds c (List.mem_of_mem_drop hc)
  have hpoint : Plain '.' := by decide
  unfold FloatFormat.write
  split
  · refine List.forall_mem_append.mpr ⟨List.forall_mem_append.mpr ⟨htake _, plain_zeros _⟩,
      List.forall_mem_cons.mpr ⟨hpoint, ?_⟩⟩
    split
    · exact all_plain_iff.mp (by decide)
    · exact hdrop _
  · split
    · exact List.forall_mem_append.mpr
        ⟨List.forall_mem_append.mpr ⟨all_plain_iff.mp (by decide), plain_zeros _⟩, hds⟩
    · have hsign : ∀ c ∈ (if 0 < point then ['+'] else []), Plain c := by
        split <;> exact all_plain_iff.mp (by decide)
      have hfraction : ∀ c ∈ (if (ds.drop 1).isEmpty then [] else '.' :: ds.drop 1), Plain c := by
        split
        · exact all_plain_iff.mp (by decide)
        · exact List.forall_mem_cons.mpr ⟨hpoint, hdrop 1⟩
      exact List.forall_mem_append.mpr ⟨List.forall_mem_append.mpr
        ⟨List.forall_mem_append.mpr ⟨htake 1, hfraction⟩,
          List.forall_mem_cons.mpr ⟨by decide, hsign⟩⟩, plain_digitsOf (point - 1)⟩

theorem plain_floatChars (x : Float) : ∀ c ∈ floatChars x, Plain c := by
  have hsign : ∀ c ∈ (if 1 <<< 63 ≤ x.toBits.toNat then ['-'] else []), Plain c := by
    split <;> exact all_plain_iff.mp (by decide)
  simp only [floatChars]
  split
  · exact List.forall_mem_append.mpr ⟨hsign, all_plain_iff.mp (by decide)⟩
  · exact List.forall_mem_append.mpr ⟨hsign, plain_write _ plain_toDigits _⟩

theorem shows_number (n : Number) : Shows n.chars [] := by
  cases n with
  | integer n => exact .of_plain (plain_digitsOf n)
  | float x => exact .of_plain (plain_floatChars x)

end Numbers

section Documents

mutual

-- All strings of a document, keys included.
def texts : Json → List String
  | .string s => [s]
  | .array items => textsOfItems items
  | .object entries => textsOfEntries entries
  | _ => []

def textsOfItems : List Json → List String
  | [] => []
  | item :: items => item.texts ++ textsOfItems items

def textsOfEntries : List (String × Json) → List String
  | [] => []
  | (key, value) :: entries => key :: (value.texts ++ textsOfEntries entries)

end

-- The characters of all strings, one string after the other.
def textChars (json : Json) : List Char :=
  json.texts.flatMap String.toList

theorem textChars_array (items : List Json) :
    (Json.array items).textChars = items.flatMap textChars := by
  rw [textChars, texts]
  induction items with
  | nil => rfl
  | cons x items ih => rw [textsOfItems, List.flatMap_append, ih, List.flatMap_cons, textChars]

theorem textChars_object (entries : List (String × Json)) :
    (Json.object entries).textChars = entries.flatMap fun e => e.1.toList ++ e.2.textChars := by
  rw [textChars, texts]
  induction entries with
  | nil => rfl
  | cons e entries ih =>
    rw [textsOfEntries, List.flatMap_cons, List.flatMap_append, ih, List.flatMap_cons, textChars,
      List.append_assoc]

theorem shows_chars (json : Json) : Shows json.chars json.textChars := by
  induction json using inductionOnParts with
  | null => exact .of_plain (all_plain_iff.mp (by decide))
  | bool b => cases b <;> exact .of_plain (all_plain_iff.mp (by decide))
  | number n => exact shows_number n
  | string s =>
    rw [chars, textChars, texts, List.flatMap_singleton]
    exact shows_stringChars s.toList
  | array items ih =>
    rw [chars, itemsChars_eq_map, textChars_array]
    exact ((Shows.commaSeparated ih).concat (by decide)).cons (by decide)
  | object entries ih =>
    rw [chars, entriesChars_eq_map, List.map_map, textChars_object]
    refine ((Shows.commaSeparated fun e he => ?_).concat (by decide)).cons (by decide)
    exact (shows_stringChars e.1.toList).append ((ih e he).cons (by decide))

end Documents

end EmbeddedStyles.Json
