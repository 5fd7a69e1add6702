import EmbeddedStyles.Proofs.Json.Compact
import EmbeddedStyles.Proofs.Json.OrderedDecoding
import EmbeddedStyles.Source.Json

namespace EmbeddedStyles.Json

open Source (natJson)

variable {α : Type} {d : Decoder α} {toJson : α → Json}

-- From the document that is written for some data, the decoder makes the data.
def Decoder.Inverts (d : Decoder α) (toJson : α → Json) : Prop :=
  ∀ x, d.value (toJson x) = .ok x

theorem Decoder.value_list_map {xs : List α} (h : ∀ x ∈ xs, d.value (toJson x) = .ok x) :
    d.list.value (.array (xs.map toJson)) = .ok xs := by
  refine mapM_eq_ok_iff.mpr ?_
  rw [List.forall₂_map_left_iff, List.forall₂_same]
  exact h

theorem Decoder.Inverts.entries (h : d.Inverts toJson) (xs : List (String × α)) :
    d.entries.value (.object (xs.map fun x => (x.1, toJson x.2))) = .ok xs := by
  refine Decoder.value_entries_eq_ok_iff.mpr ?_
  rw [List.forall₂_map_left_iff, List.forall₂_same]
  exact fun x _ => ⟨rfl, h x.2⟩

theorem Decoder.Inverts.optional (h : d.Inverts toJson) (hnull : ∀ x, toJson x ≠ .null)
    (x : Option α) : d.optional.value ((x.map toJson).getD .null) = .ok x := by
  cases x with
  | none => rfl
  | some x =>
    rw [Option.map_some, Option.getD_some, d.optional_value_of_ne (hnull x), h x]
    rfl

theorem Decoder.string_inverts : Decoder.string.Inverts Json.string :=
  fun _ => rfl

theorem Decoder.u32_inverts : Decoder.u32.Inverts fun n => natJson n.toNat := by
  intro n
  have hlt : (n.toNat : Int) < 4294967296 := by
    have := n.toNat_lt
    omega
  simp [Decoder.u32, Decoder.map, Decoder.natural, natJson, Decoder.toNatural, hlt]

theorem Decoder.u64_value_natJson {n : Nat} (h : n < UInt64.size) :
    Decoder.u64.value (natJson n) = .ok n := by
  have hlt : (n : Int) < 18446744073709551616 := by
    have hsize : n < 18446744073709551616 := h
    omega
  simp [Decoder.u64, Decoder.natural, natJson, Decoder.toNatural, hlt]

theorem restorable_natJson_of_lt {limit n : Nat} (h : n < UInt64.size) :
    (natJson n).Restorable limit :=
  restorable_number (.inl ⟨by omega, by omega⟩)

theorem restorable_natJson {limit : Nat} (n : UInt32) : (natJson n.toNat).Restorable limit :=
  restorable_natJson_of_lt (Nat.lt_trans n.toNat_lt (by decide))

end EmbeddedStyles.Json
