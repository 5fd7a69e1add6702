import EmbeddedStyles.Text.Units
import Mathlib.Data.List.Basic

namespace EmbeddedStyles.Text

theorem toList_loop (bytes : ByteArray) (i : Nat) (taken : List UInt8) :
    ByteArray.toList.loop bytes i taken = taken.reverse ++ bytes.data.toList.drop i := by
  fun_induction ByteArray.toList.loop bytes i taken with
  | case1 i taken h ih =>
    have hi : i < bytes.data.toList.length := by simpa using h
    have hget : bytes.get! i = bytes.data.toList[i] := by
      have hi' : i < bytes.data.size := by simpa using h
      simp [ByteArray.get!, getElem!_pos bytes.data i hi']
    rw [ih, List.drop_eq_getElem_cons hi, hget]
    simp
  | case2 i taken h =>
    rw [List.drop_of_length_le (by simpa using h)]
    simp

theorem toList_eq_data (bytes : ByteArray) : bytes.toList = bytes.data.toList := by
  rw [ByteArray.toList, toList_loop]
  rfl

theorem toList_toUTF8 (text : String) :
    text.toUTF8.toList = text.toList.flatMap String.utf8EncodeChar := by
  have hencode : text.toUTF8 = (text.toList.flatMap String.utf8EncodeChar).toByteArray :=
    String.utf8Encode_toList.symm
  rw [toList_eq_data, hencode, List.toList_data_toByteArray]

theorem toList_toUTF8_inj {a b : String} : a.toUTF8.toList = b.toUTF8.toList ↔ a = b := by
  constructor
  · intro h
    rw [toList_eq_data, toList_eq_data, Array.toList_inj] at h
    exact String.toByteArray_inj.mp (ByteArray.ext h)
  · rintro rfl
    rfl

theorem size8_toList (text : String) : size8 text.toList = text.utf8ByteSize := by
  have hbytes : text.utf8ByteSize = text.toUTF8.toList.length := by
    rw [toList_eq_data]
    rfl
  rw [hbytes, toList_toUTF8, List.length_flatMap]
  induction text.toList with
  | nil => rfl
  | cons c cs ih => simp [ih]

theorem size8_eq_zero_iff {cs : List Char} : size8 cs = 0 ↔ cs = [] := by
  cases cs with
  | nil => simp
  | cons c cs =>
    have hc := c.utf8Size_pos
    simp only [size8_cons, reduceCtorEq, iff_false]
    omega

theorem size8_cons_eq_iff {c : Char} {cs : List Char} {n : Nat} :
    size8 (c :: cs) = n ↔ c.utf8Size ≤ n ∧ size8 cs = n - c.utf8Size := by
  rw [size8_cons]
  omega

theorem toNat_of_mem_utf8EncodeChar {c : Char} {b : UInt8} (h : b ∈ String.utf8EncodeChar c)
    (hb : b.toNat < 128) : c.toNat = b.toNat := by
  have hv : c.val.toNat = c.toNat := rfl
  simp only [String.utf8EncodeChar, hv] at h
  split at h
  · obtain rfl := List.mem_singleton.mp h
    simp only [UInt8.toNat_ofNat'] at hb ⊢
    omega
  · -- All bytes of a wider character are at least 128.
    exfalso
    split at h
    · simp only [List.mem_cons, List.not_mem_nil, or_false] at h
      rcases h with rfl | rfl <;> simp only [UInt8.toNat_ofNat'] at hb <;> omega
    · split at h
      · simp only [List.mem_cons, List.not_mem_nil, or_false] at h
        rcases h with rfl | rfl | rfl <;> simp only [UInt8.toNat_ofNat'] at hb <;> omega
      · simp only [List.mem_cons, List.not_mem_nil, or_false] at h
        rcases h with rfl | rfl | rfl | rfl <;> simp only [UInt8.toNat_ofNat'] at hb <;> omega

-- A character below 128 is one byte, which occurs in no other character.
theorem ofNat_mem_toUTF8_iff {c : Char} (h : c.toNat < 128) (text : String) :
    UInt8.ofNat c.toNat ∈ text.toUTF8.toList ↔ c ∈ text.toList := by
  have hbyte : (UInt8.ofNat c.toNat).toNat = c.toNat := by
    rw [UInt8.toNat_ofNat', Nat.mod_eq_of_lt (by omega)]
  rw [toList_toUTF8, List.mem_flatMap]
  constructor
  · rintro ⟨d, hd, hb⟩
    have hcode : d.toNat = c.toNat := (toNat_of_mem_utf8EncodeChar hb (by omega)).trans hbyte
    rwa [Char.toNat_inj.mp hcode] at hd
  · intro hc
    have hencode : String.utf8EncodeChar c = [UInt8.ofNat c.toNat] := by
      simp only [String.utf8EncodeChar]
      exact if_pos (Nat.le_of_lt_succ h)
    exact ⟨c, hc, by rw [hencode]; exact List.mem_singleton_self _⟩

def slash : UInt8 := 47

theorem slash_mem_toUTF8_iff (text : String) :
    slash ∈ text.toUTF8.toList ↔ '/' ∈ text.toList :=
  ofNat_mem_toUTF8_iff (c := '/') (by decide) text

-- The bytes of a text are read as the text.
theorem fromUTF8?_toUTF8 (text : String) :
    String.fromUTF8? ⟨text.toUTF8.toList.toArray⟩ = some text := by
  have hbytes : (⟨text.toUTF8.toList.toArray⟩ : ByteArray) = text.toUTF8 := by
    rw [toList_eq_data]
  rw [hbytes, String.fromUTF8?]
  exact dif_pos text.isValidUTF8

theorem toList_toUTF8_append (a b : String) :
    (a ++ b).toUTF8.toList = a.toUTF8.toList ++ b.toUTF8.toList := by
  simp only [toList_toUTF8, String.toList_append, List.flatMap_append]

theorem toList_toUTF8_intercalate (names : List String) :
    ("/".intercalate names).toUTF8.toList =
      [slash].intercalate (names.map fun name => name.toUTF8.toList) := by
  induction names with
  | nil => simp
  | cons name names ih =>
    cases names with
    | nil => simp
    | cons next names =>
      have hslash : "/".toUTF8.toList = [slash] := by
        rw [toList_toUTF8]
        decide
      rw [String.intercalate_cons_cons, toList_toUTF8_append, toList_toUTF8_append, ih, hslash,
        List.map_cons, List.map_cons, List.map_cons, List.intercalate_cons_cons]

end EmbeddedStyles.Text
