import EmbeddedStyles.Metadata
import EmbeddedStyles.Proofs.Json.Agreement
import EmbeddedStyles.Proofs.Json.OrderedDecoding

namespace EmbeddedStyles

open Json (Decoder Record Field orderEntries)
open Source (Position Span Replacement)

section Agreement

theorem Source.Position.decoder_agrees : Position.decoder.Agrees := by
  refine Record.decoder_agrees ?_
  simp only [Position.record, List.forall_mem_cons]
  exact ⟨Decoder.u32_agrees.map _, Decoder.u32_agrees.map _, by simp⟩

theorem Source.Span.decoder_agrees : Span.decoder.Agrees := by
  refine Record.decoder_agrees ?_
  simp only [Span.record, List.forall_mem_cons]
  exact ⟨Position.decoder_agrees.map _, Position.decoder_agrees.map _, by simp⟩

theorem Source.Replacement.decoder_agrees : Replacement.decoder.Agrees := by
  refine Record.decoder_agrees ?_
  simp only [Replacement.record, List.forall_mem_cons]
  exact ⟨Span.decoder_agrees.map _, Decoder.u32_agrees.map _, by simp⟩

theorem Rule.decoder_agrees : Rule.decoder.Agrees := by
  have hstring : Decoder.string.Agrees := Decoder.stringAs_agrees _
  refine Record.decoder_agrees ?_
  simp only [Rule.record, List.forall_mem_cons]
  exact ⟨hstring.map _, hstring.map _, Position.decoder_agrees.optional.map _,
    hstring.optional.map _, by simp⟩

theorem Metadata.decoder_agrees : Metadata.decoder.Agrees := by
  refine Record.decoder_agrees ?_
  simp only [Metadata.record, List.forall_mem_cons]
  exact ⟨Rule.decoder_agrees.entries.map _, Replacement.decoder_agrees.list.map _, by simp⟩

theorem Metadata.ofText_eq_ok_iff {text : String} {json : Json} {m : Metadata}
    (h : Json.parse text = .ok json) : ofText text = .ok m ↔ decoder.value json = .ok m := by
  rw [← decoder_agrees.ofText_eq_ok_iff h, ofText]
  split <;> simp_all

theorem Metadata.ofJson_eq_ok_iff {json : Json} {m : Metadata} :
    ofJson json = .ok m ↔ decoder.value json.sorted = .ok m := by
  rw [ofJson]
  split <;> simp_all

end Agreement

section Order

theorem Source.Position.decoder_follows : Position.decoder.Follows id :=
  Record.decoder_follows_of_pair rfl rfl Decoder.u32_follows Decoder.u32_follows
    (fun _ _ _ => rfl) (fun _ _ => rfl) fun _ _ => rfl

theorem Source.Span.decoder_follows : Span.decoder.Follows id :=
  Record.decoder_follows_of_pair rfl rfl Position.decoder_follows Position.decoder_follows
    (fun _ _ _ => rfl) (fun _ _ => rfl) fun _ _ => rfl

theorem Source.Replacement.decoder_follows : Replacement.decoder.Follows id :=
  Record.decoder_follows_of_pair rfl rfl Span.decoder_follows Decoder.u32_follows
    (fun _ _ _ => rfl) (fun _ _ => rfl) fun _ _ => rfl

theorem Rule.decoder_follows : Rule.decoder.Follows id := by
  refine Record.Orderly.decoder_follows (φ := id) ⟨rfl, rfl, ?_, ?_⟩ (by simp)
  · simp only [Rule.record, List.forall_mem_cons]
    refine ⟨?_, ?_, ?_, ?_, by simp⟩
    · exact Field.follows_of_map Decoder.string_follows (fun _ => rfl) fun _ _ _ _ _ => rfl
    · exact Field.follows_of_map Decoder.string_follows (fun _ => rfl) fun _ _ _ _ _ => rfl
    · exact Field.follows_of_map Position.decoder_follows.optional (fun _ => rfl)
        fun _ _ _ _ _ => rfl
    · exact Field.follows_of_map Decoder.string_follows.optional (fun _ => rfl)
        fun _ _ _ _ _ => rfl
  · simp only [Rule.record, List.pairwise_cons, List.forall_mem_cons, List.not_mem_nil,
      IsEmpty.forall_iff, implies_true, and_true, List.Pairwise.nil]
    refine ⟨⟨?_, ?_, ?_⟩, ⟨?_, ?_⟩, ?_⟩ <;>
      exact Field.apart_of_map (fun _ _ _ => rfl) (fun _ _ => rfl) fun _ _ => rfl

theorem Rules.put_of_notMem {selector : String} {rules : Rules}
    (h : selector ∉ rules.map Prod.fst) (rule : Rule) :
    put selector rule rules = rules ++ [(selector, rule)] := by
  induction rules with
  | nil => rfl
  | cons e rules ih =>
    rw [List.map_cons, List.mem_cons, not_or] at h
    rw [put, if_neg (Ne.symm h.1), ih h.2, List.cons_append]

theorem Rules.foldl_put (entries : List (String × Rule)) (rules : Rules)
    (h : ((rules ++ entries).map Prod.fst).Nodup) :
    entries.foldl (fun rules entry => put entry.1 entry.2 rules) rules = rules ++ entries := by
  induction entries generalizing rules with
  | nil => simp
  | cons e entries ih =>
    have hfresh : e.1 ∉ rules.map Prod.fst := by
      rw [List.map_append, List.map_cons] at h
      exact fun hmem => List.disjoint_of_nodup_append h hmem List.mem_cons_self
    rw [List.foldl_cons, put_of_notMem hfresh, ih _ (by simpa using h), List.append_assoc]
    rfl

-- Where no selector is repeated, rules are kept as they come.
theorem Rules.ofEntries_of_nodup {entries : List (String × Rule)}
    (h : (entries.map Prod.fst).Nodup) : ofEntries entries = entries :=
  foldl_put entries [] h

namespace Metadata

-- The rules of a draft in the order of their selectors.
def Draft.ordered (s : Draft) : Draft :=
  { s with rules := s.rules.map orderEntries }

theorem orderly : record.Orderly Draft.ordered := by
  refine ⟨rfl, rfl, ?_, ?_⟩
  · simp only [record, List.forall_mem_cons]
    refine ⟨?_, ?_, by simp⟩
    · refine Field.follows_of_map Rule.decoder_follows.entries
        (fun s => by simp [Draft.ordered]) ?_
      intro json xs s hdistinct hxs
      obtain ⟨es, rfl, hkeys⟩ := Decoder.keys_of_value_entries hxs
      have hnodup : (xs.map Prod.fst).Nodup := hkeys ▸ hdistinct.1
      have hordered := Rules.ofEntries_of_nodup (Json.ordered_orderEntries xs).nodup
      simp [Draft.ordered, hordered, Rules.ofEntries_of_nodup hnodup]
    · exact Field.follows_of_map Replacement.decoder_follows.list (fun _ => rfl)
        fun _ _ _ _ _ => rfl
  · exact List.pairwise_pair.mpr
      (Field.apart_of_map (fun _ _ _ => rfl) (fun _ _ => rfl) fun _ _ => rfl)

theorem decoder_follows : decoder.Follows fun m => { m with rules := orderEntries m.rules } := by
  refine orderly.decoder_follows ?_
  rintro ⟨rules, replacements⟩ m
  cases rules <;> simp [record, Draft.ordered, orderEntries]

end Metadata

end Order

end EmbeddedStyles
