import EmbeddedStyles.Lint
import EmbeddedStyles.Proofs.Json.Inversion
import EmbeddedStyles.Proofs.Json.Records
import EmbeddedStyles.Proofs.Json.Thorough

namespace EmbeddedStyles.Lint

open Json (Decoder Record Field orderEntries sortedEntries lookup_cons lookupLast)
open Source (natJson)

section Extra

variable {σ α : Type} {r : Record σ α} {es : List (String × Json)} {key : String}

theorem foldl_keep (es : List (String × Json)) :
    es.foldl (fun extra e => keep e.1 e.2 extra) [] = orderEntries (sortedEntries es) := by
  rw [Json.sortedEntries_eq_map, orderEntries, List.foldl_map]
  rfl

-- What is kept of the entries of an object that are no fields.
def kept (r : Record σ α) (es : List (String × Json)) : Extra :=
  orderEntries (sortedEntries (r.foreign es))

theorem extra_of_objectValue {extra : σ → Extra} {keepIn : String → Json → σ → σ}
    (hfields : ∀ f ∈ r.fields, f.Leaves extra) (hextra : r.extra = some keepIn)
    (hkeep : ∀ key json s, extra (keepIn key json s) = keep key json (extra s))
    (hstart : extra r.start = []) {s : σ} (h : r.objectValue r.start es = .ok s) :
    extra s = kept r es := by
  rw [Record.kept_of_objectValue hfields hextra hkeep h, hstart, foldl_keep, kept]

theorem exists_of_mem_kept {e : String × Json} (h : e ∈ kept r es) :
    ∃ e' ∈ es, r.field? e'.1 = none ∧ e = (e'.1, e'.2.sorted) := by
  obtain ⟨e', he', rfl⟩ := Json.exists_of_mem_sorted h
  obtain ⟨hmem, hfield⟩ := List.mem_filter.mp he'
  exact ⟨e', hmem, by simpa using hfield, rfl⟩

theorem field?_of_mem_kept {e : String × Json} (h : e ∈ kept r es) : r.field? e.1 = none := by
  obtain ⟨e', -, hfield, rfl⟩ := exists_of_mem_kept h
  exact hfield

theorem lookup_kept (h : r.field? key = none) (es : List (String × Json)) :
    (kept r es).lookup key = (lookupLast key es).map Json.sorted := by
  have hforeign : (r.foreign es).reverse.lookup key = es.reverse.lookup key := by
    rw [Record.foreign, ← List.filter_reverse]
    exact Json.lookup_filter (p := fun key => (r.field? key).isNone) (by simp [h]) _
  rw [kept, Json.lookup_orderEntries, lookupLast, Json.sortedEntries_eq_map, ← List.map_reverse,
    Json.lookup_map, hforeign, lookupLast]

theorem notMem_keys_kept (h : r.field? key ≠ none) : key ∉ (kept r es).map Prod.fst := by
  intro hmem
  obtain ⟨e, he, rfl⟩ := List.mem_map.mp hmem
  exact h (field?_of_mem_kept he)

theorem foldl_keep_kept (r : Record σ α) (es : List (String × Json)) :
    (kept r es).foldl (fun extra e => keep e.1 e.2 extra) [] = kept r es := by
  rw [foldl_keep, kept, Json.sortedEntries_orderEntries, Json.sortedEntries_sortedEntries,
    Json.orderEntries_of_ordered (Json.ordered_orderEntries _)]

-- What was kept is kept again as it is.
theorem objectValue_kept (put : Extra → σ) {keepIn : String → Json → σ → σ}
    (hextra : r.extra = some keepIn)
    (hput : ∀ key json extra, keepIn key json (put extra) = put (keep key json extra))
    (es : List (String × Json)) :
    r.objectValue (put []) (kept r es) = .ok (put (kept r es)) := by
  rw [Record.objectValue_of_foreign hextra fun e => field?_of_mem_kept,
    List.foldl_hom put fun extra e => hput e.1 e.2 extra, foldl_keep_kept]

theorem restorable_of_mem_kept {limit : Nat} (h : ∀ e ∈ es, e.2.Restorable limit)
    {e : String × Json} (he : e ∈ kept r es) : e.2.Restorable limit := by
  obtain ⟨e', hmem, -, rfl⟩ := exists_of_mem_kept he
  exact (h e' hmem).sorted

end Extra

theorem eq_natJson_of_u32 {json : Json} {n : UInt32} (h : Decoder.u32.value json = .ok n) :
    json = natJson n.toNat := by
  obtain ⟨k, hk, hn⟩ := bind_eq_ok_iff.mp h
  cases hn
  cases json with
  | number x =>
    cases x with
    | integer i =>
      simp only [Decoder.natural, Decoder.toNatural] at hk
      split at hk
      next hrange =>
        cases hk
        simp only [Bool.and_eq_true, decide_eq_true_eq] at hrange
        obtain ⟨hzero, hlt⟩ := hrange
        have hsmall : i.toNat < UInt32.size := by omega
        rw [natJson, UInt32.toNat_ofNat_of_lt' hsmall, Int.toNat_of_nonneg hzero]
      next => cases hk
    | float => cases hk
  | _ => cases hk

namespace Warning

variable {es : List (String × Json)} {w : Warning}

-- What a warning has from the entries of its object.
structure Read (es : List (String × Json)) (w : Warning) : Prop where
  line : lookupLast "line" es = some (natJson w.line.toNat)
  column : lookupLast "column" es = some (natJson w.column.toNat)
  extra : w.extra = kept record es

theorem holds_line : record.Holds "line" Decoder.u32 Draft.line where
  start := rfl
  field := ⟨_, _, _, rfl, fun _ => rfl, fun _ _ => rfl⟩
  others := by
    simp only [record, List.forall_mem_cons]
    exact ⟨fun hne => absurd rfl hne, fun _ => Field.leaves_of_map fun _ _ => rfl, by simp⟩
  extra _ hkeep _ _ _ := by
    cases hkeep
    rfl

theorem holds_column : record.Holds "column" Decoder.u32 Draft.column where
  start := rfl
  field := ⟨_, _, _, rfl, fun _ => rfl, fun _ _ => rfl⟩
  others := by
    simp only [record, List.forall_mem_cons]
    exact ⟨fun _ => Field.leaves_of_map fun _ _ => rfl, fun hne => absurd rfl hne, by simp⟩
  extra _ hkeep _ _ _ := by
    cases hkeep
    rfl

theorem leaves_extra : ∀ f ∈ record.fields, f.Leaves Draft.extra := by
  simp only [record, List.forall_mem_cons]
  exact ⟨Field.leaves_of_map fun _ _ => rfl, Field.leaves_of_map fun _ _ => rfl, by simp⟩

theorem read_of_value {json : Json} (h : decoder.value json = .ok w) :
    ∃ es, json = .object es ∧ Read es w := by
  cases json with
  | object es =>
    obtain ⟨s, hs, hw⟩ := bind_eq_ok_iff.mp h
    obtain ⟨line, hline, hw⟩ := bind_eq_ok_iff.mp hw
    obtain ⟨column, hcolumn, hw⟩ := bind_eq_ok_iff.mp hw
    cases hw
    obtain ⟨json, hlast, hjson⟩ := holds_line.exists_of_required hs hline
    obtain ⟨json', hlast', hjson'⟩ := holds_column.exists_of_required hs hcolumn
    exact ⟨es, rfl, eq_natJson_of_u32 hjson ▸ hlast, eq_natJson_of_u32 hjson' ▸ hlast',
      extra_of_objectValue leaves_extra rfl (fun _ _ _ => rfl) rfl hs⟩
  | _ => cases h

theorem Read.nodup_keys (h : Read es w) :
    ("line" :: "column" :: w.extra.map Prod.fst).Nodup := by
  have hline : "line" ∉ w.extra.map Prod.fst := h.extra ▸ notMem_keys_kept (by decide)
  have hcolumn : "column" ∉ w.extra.map Prod.fst := h.extra ▸ notMem_keys_kept (by decide)
  have hextra : (w.extra.map Prod.fst).Nodup := h.extra ▸ (Json.ordered_orderEntries _).nodup
  simp [hline, hcolumn, hextra]

-- An object and the one that is written for what was read off it: no key comes twice, and under
-- each key stands the last value that stood there.
inductive Rewritten : Json → Json → Prop
  | object {es es' : List (String × Json)} (hkeys : (es'.map Prod.fst).Nodup)
      (hvalues : ∀ key, es'.lookup key = (lookupLast key es).map Json.sorted) :
      Rewritten (.object es) (.object es')

theorem Read.rewritten (h : Read es w) : Rewritten (.object es) w.toJson := by
  refine .object h.nodup_keys fun key => ?_
  by_cases hline : key = "line"
  · subst hline
    simp [h.line, natJson, Json.sorted]
  · by_cases hcolumn : key = "column"
    · subst hcolumn
      simp [lookup_cons, h.column, natJson, Json.sorted]
    · have hfield : record.field? key = none := by
        simp [Record.field?, record, Ne.symm hline, Ne.symm hcolumn]
      rw [lookup_cons, if_neg hline, lookup_cons, if_neg hcolumn, h.extra,
        lookup_kept hfield]

theorem Read.decoder_toJson (h : Read es w) : decoder.value w.toJson = .ok w := by
  have hobject : record.objectValue record.start (("line", natJson w.line.toNat) ::
      ("column", natJson w.column.toNat) :: w.extra) =
      .ok ⟨some w.line, some w.column, w.extra⟩ := by
    rw [Record.objectValue_cons_of_field rfl rfl (Decoder.u32_inverts w.line),
      Record.objectValue_cons_of_field rfl rfl (Decoder.u32_inverts w.column), h.extra]
    exact objectValue_kept (Draft.mk (some w.line) (some w.column)) rfl (fun _ _ _ => rfl) es
  exact bind_eq_ok_iff.mpr ⟨_, hobject, rfl⟩

theorem Read.restorable_toJson {limit : Nat} (h : Read es w)
    (hes : (Json.object es).Restorable limit) : w.toJson.Restorable limit := by
  obtain ⟨limit, rfl⟩ := hes.exists_limit_of_object
  rw [Json.restorable_object_iff] at hes
  rw [toJson, Json.restorable_object_iff, List.forall_mem_cons, List.forall_mem_cons, h.extra]
  exact ⟨Json.restorable_natJson _, Json.restorable_natJson _,
    fun e => restorable_of_mem_kept hes⟩

end Warning

namespace Result

variable {es : List (String × Json)} {r : Result}

-- What a result has from the entries of its object.
structure Read (es : List (String × Json)) (r : Result) : Prop where
  source : r.source = none ∧ (lookupLast "source" es = none ∨ lookupLast "source" es = some .null) ∨
    ∃ source, r.source = some source ∧ lookupLast "source" es = some (.string source)
  warnings : r.warnings = [] ∧ lookupLast "warnings" es = none ∨
    ∃ docs, lookupLast "warnings" es = some (.array docs) ∧
      docs.mapM Warning.decoder.value = .ok r.warnings
  extra : r.extra = kept record es

theorem holds_source : record.Holds "source" Decoder.string.optional Draft.source where
  start := rfl
  field := ⟨_, _, _, rfl, fun _ => rfl, fun _ _ => rfl⟩
  others := by
    simp only [record, List.forall_mem_cons]
    exact ⟨fun hne => absurd rfl hne, fun _ => Field.leaves_of_map fun _ _ => rfl, by simp⟩
  extra _ hkeep _ _ _ := by
    cases hkeep
    rfl

theorem holds_warnings : record.Holds "warnings" Warning.decoder.list Draft.warnings where
  start := rfl
  field := ⟨_, _, _, rfl, fun _ => rfl, fun _ _ => rfl⟩
  others := by
    simp only [record, List.forall_mem_cons]
    exact ⟨fun _ => Field.leaves_of_map fun _ _ => rfl, fun hne => absurd rfl hne, by simp⟩
  extra _ hkeep _ _ _ := by
    cases hkeep
    rfl

theorem leaves_extra : ∀ f ∈ record.fields, f.Leaves Draft.extra := by
  simp only [record, List.forall_mem_cons]
  exact ⟨Field.leaves_of_map fun _ _ => rfl, Field.leaves_of_map fun _ _ => rfl, by simp⟩

theorem read_of_value {json : Json} (h : decoder.value json = .ok r) :
    ∃ es, json = .object es ∧ Read es r := by
  cases json with
  | object es =>
    obtain ⟨s, hs, hr⟩ := bind_eq_ok_iff.mp h
    cases hr
    refine ⟨es, rfl, ?_, ?_, extra_of_objectValue leaves_extra rfl (fun _ _ _ => rfl) rfl hs⟩
    · obtain ⟨hnone, hsource⟩ | ⟨json, source, hsome, hvalue, hsource⟩ := holds_source.get_eq hs
      · exact .inl ⟨by simp [hsource], .inl hnone⟩
      · simp only [hsource, Option.getD_some]
        cases json with
        | null =>
          cases hvalue
          exact .inl ⟨rfl, .inr hsome⟩
        | string source =>
          cases hvalue
          exact .inr ⟨source, rfl, hsome⟩
        | _ => cases hvalue
    · obtain ⟨hnone, hwarnings⟩ | ⟨json, warnings, hsome, hvalue, hwarnings⟩ :=
        holds_warnings.get_eq hs
      · exact .inl ⟨by simp [hwarnings], hnone⟩
      · cases json with
        | array docs =>
          rw [hwarnings]
          exact .inr ⟨docs, hsome, hvalue⟩
        | _ => cases hvalue
  | _ => cases h

theorem Read.exists_doc (h : Read es r) {w : Warning} (hw : w ∈ r.warnings) :
    ∃ docs es', ("warnings", Json.array docs) ∈ es ∧ Json.object es' ∈ docs ∧
      Warning.Read es' w := by
  obtain ⟨hnone, -⟩ | ⟨docs, hlast, hdocs⟩ := h.warnings
  · rw [hnone] at hw
    cases hw
  · obtain ⟨doc, hdoc, hvalue⟩ := Json.exists_of_mem_mapM hdocs hw
    obtain ⟨es', rfl, hread⟩ := Warning.read_of_value hvalue
    exact ⟨docs, es', Json.mem_of_lookupLast hlast, hdoc, hread⟩

theorem Read.decoder_toJson (h : Read es r) : decoder.value r.toJson = .ok r := by
  have hwarnings : Warning.decoder.list.value (.array (r.warnings.map Warning.toJson)) =
      .ok r.warnings := by
    refine Decoder.value_list_map fun w hw => ?_
    obtain ⟨_, _, -, -, hread⟩ := h.exists_doc hw
    exact hread.decoder_toJson
  have hextra (source : Option (Option String)) : record.objectValue ⟨source, none, []⟩
      (("warnings", .array (r.warnings.map Warning.toJson)) :: r.extra) =
      .ok ⟨source, some r.warnings, r.extra⟩ := by
    rw [Record.objectValue_cons_of_field rfl rfl hwarnings, h.extra]
    exact objectValue_kept (Draft.mk source (some r.warnings)) rfl (fun _ _ _ => rfl) es
  obtain ⟨source, warnings, extra⟩ := r
  cases source with
  | none => exact bind_eq_ok_iff.mpr ⟨_, hextra none, rfl⟩
  | some source =>
    have hsource : Decoder.string.optional.value (.string source) = .ok (some source) := rfl
    have hfirst (rest : List (String × Json)) :
        record.objectValue record.start (("source", .string source) :: rest) =
          record.objectValue ⟨some (some source), none, []⟩ rest := by
      rw [Record.objectValue_cons_of_field rfl rfl hsource]
      rfl
    exact bind_eq_ok_iff.mpr ⟨_, (hfirst _).trans (hextra (some (some source))), rfl⟩

theorem Read.restorable_toJson {limit : Nat} (h : Read es r)
    (hes : (Json.object es).Restorable (limit + 2)) : r.toJson.Restorable (limit + 2) := by
  rw [Json.restorable_object_iff] at hes
  have hwarnings : (Json.array (r.warnings.map Warning.toJson)).Restorable (limit + 1) := by
    rw [Json.restorable_array_iff, List.forall_mem_map]
    intro w hw
    obtain ⟨docs, es', hdocs, hdoc, hread⟩ := h.exists_doc hw
    exact hread.restorable_toJson (Json.restorable_array_iff.mp (hes _ hdocs) _ hdoc)
  have hextra : ∀ e ∈ r.extra, e.2.Restorable (limit + 1) := by
    rw [h.extra]
    exact fun e => restorable_of_mem_kept hes
  rw [toJson, Json.restorable_object_iff]
  cases r.source with
  | none => exact List.forall_mem_cons.mpr ⟨hwarnings, hextra⟩
  | some source =>
    exact List.forall_mem_cons.mpr
      ⟨Json.restorable_string source, List.forall_mem_cons.mpr ⟨hwarnings, hextra⟩⟩

-- An object and the one that is written for what was read off it. No key comes twice. Under each
-- key stands the last value that stood there, the warnings one by one; a source that is null is
-- left out, and warnings that are missing are none.
inductive Rewritten : Json → Json → Prop
  | object {es es' : List (String × Json)} (hkeys : (es'.map Prod.fst).Nodup)
      (hsource : es'.lookup "source" = lookupLast "source" es ∨
        lookupLast "source" es = some .null ∧ es'.lookup "source" = none)
      (hwarnings : lookupLast "warnings" es = none ∧ es'.lookup "warnings" = some (.array []) ∨
        ∃ docs docs', lookupLast "warnings" es = some (.array docs) ∧
          es'.lookup "warnings" = some (.array docs') ∧ List.Forall₂ Warning.Rewritten docs docs')
      (hothers : ∀ key, key ≠ "source" → key ≠ "warnings" →
        es'.lookup key = (lookupLast key es).map Json.sorted) :
      Rewritten (.object es) (.object es')

theorem Read.rewritten (h : Read es r) : Rewritten (.object es) r.toJson := by
  have hsource : "source" ∉ r.extra.map Prod.fst := h.extra ▸ notMem_keys_kept (by decide)
  have hwarnings : "warnings" ∉ r.extra.map Prod.fst := h.extra ▸ notMem_keys_kept (by decide)
  have hextra : (r.extra.map Prod.fst).Nodup := h.extra ▸ (Json.ordered_orderEntries _).nodup
  refine .object ?_ ?_ ?_ ?_
  · cases r.source <;> simp [hsource, hwarnings, hextra]
  · obtain ⟨hnone, hlast | hlast⟩ | ⟨source, hsome, hlast⟩ := h.source
    · simp [hnone, hlast, lookup_cons, Json.lookup_eq_none_iff.mpr hsource]
    · simp [hnone, hlast, lookup_cons, Json.lookup_eq_none_iff.mpr hsource]
    · simp [hsome, hlast]
  · have hlookup : ((r.source.map fun source => ("source", Json.string source)).toList ++
        ("warnings", .array (r.warnings.map Warning.toJson)) :: r.extra).lookup "warnings" =
          some (.array (r.warnings.map Warning.toJson)) := by
      cases r.source <;> simp [lookup_cons]
    rw [hlookup]
    obtain ⟨hnone, hlast⟩ | ⟨docs, hlast, hdocs⟩ := h.warnings
    · exact .inl ⟨hlast, by simp [hnone]⟩
    · refine .inr ⟨docs, _, hlast, rfl, ?_⟩
      rw [List.forall₂_map_right_iff]
      refine (Json.mapM_eq_ok_iff.mp hdocs).imp fun doc w hw => ?_
      obtain ⟨es', rfl, hread⟩ := Warning.read_of_value hw
      exact hread.rewritten
  · intro key hkey hkey'
    have hfield : record.field? key = none := by
      simp [Record.field?, record, Ne.symm hkey, Ne.symm hkey']
    have hfirst : (r.source.map fun source => ("source", Json.string source)).toList.lookup key =
        none := by
      cases r.source <;> simp [lookup_cons, hkey]
    rw [List.lookup_append, hfirst, Option.none_or, lookup_cons, if_neg hkey', h.extra,
      lookup_kept hfield]

end Result

section Text

theorem Warning.decoder_agrees : Warning.decoder.Agrees := by
  refine Record.decoder_agrees ?_
  simp only [Warning.record, List.forall_mem_cons]
  exact ⟨Decoder.u32_agrees.map _, Decoder.u32_agrees.map _, by simp⟩

theorem Warning.decoder_thorough : Warning.decoder.Thorough := by
  refine Record.decoder_thorough rfl ?_
  simp only [Warning.record, List.forall_mem_cons]
  exact ⟨Decoder.u32_thorough.map _, Decoder.u32_thorough.map _, by simp⟩

namespace Result

theorem decoder_agrees : decoder.Agrees := by
  refine Record.decoder_agrees ?_
  simp only [record, List.forall_mem_cons]
  exact ⟨(Decoder.stringAs_agrees _).optional.map _, Warning.decoder_agrees.list.map _, by simp⟩

theorem decoder_thorough : decoder.Thorough := by
  refine Record.decoder_thorough rfl ?_
  simp only [record, List.forall_mem_cons]
  exact ⟨(Decoder.stringAs_thorough _).optional.map _, Warning.decoder_thorough.list.map _, by simp⟩

variable {text : String} {rs : List Result}

-- Results are read off documents, one off each.
theorem exists_docs (h : parseMany text = .ok rs) :
    ∃ docs, Json.parse text = .ok (.array docs) ∧ docs.mapM decoder.value = .ok rs := by
  obtain ⟨json, hparse⟩ := decoder_thorough.list.exists_parse h
  have hvalue := (decoder_agrees.list.ofText_eq_ok_iff hparse rs).mp h
  cases json with
  | array docs => exact ⟨docs, hparse, hvalue⟩
  | _ => cases hvalue

theorem forall₂_rewritten {docs : List Json} (h : docs.mapM decoder.value = .ok rs) :
    List.Forall₂ Rewritten docs (rs.map toJson) := by
  rw [List.forall₂_map_right_iff]
  refine (Json.mapM_eq_ok_iff.mp h).imp fun doc r hr => ?_
  obtain ⟨es, rfl, hread⟩ := read_of_value hr
  exact hread.rewritten

theorem restorable_of_docs {docs : List Json} (h : docs.mapM decoder.value = .ok rs) {limit : Nat}
    (hdocs : (Json.array docs).Restorable (limit + 3)) :
    (Json.array (rs.map toJson)).Restorable (limit + 3) := by
  rw [Json.restorable_array_iff] at hdocs ⊢
  rw [List.forall_mem_map]
  intro r hr
  obtain ⟨doc, hdoc, hvalue⟩ := Json.exists_of_mem_mapM h hr
  obtain ⟨es, rfl, hread⟩ := read_of_value hvalue
  exact hread.restorable_toJson (hdocs _ hdoc)

theorem decoder_list_toJson {docs : List Json} (h : docs.mapM decoder.value = .ok rs) :
    decoder.list.value (.array (rs.map toJson)) = .ok rs := by
  refine Decoder.value_list_map fun r hr => ?_
  obtain ⟨doc, -, hvalue⟩ := Json.exists_of_mem_mapM h hr
  obtain ⟨es, -, hread⟩ := read_of_value hvalue
  exact hread.decoder_toJson

-- Reading results loses nothing: what is written for them has the entries of the documents they
-- were read off and, where all numbers are integers of 64 bits, is read as the same results again.
theorem parseMany_lossless (text : String) (rs : List Result) (h : parseMany text = .ok rs) :
    ∃ docs, Json.parse text = .ok (.array docs) ∧
      List.Forall₂ Rewritten docs (rs.map toJson) ∧
      ((∀ n ∈ (Json.array docs).numbers, n.Whole) →
        Json.parse (Json.array (rs.map toJson)).compact = .ok (.array (rs.map toJson)) ∧
        parseMany (Json.array (rs.map toJson)).compact = .ok rs) := by
  obtain ⟨docs, hparse, hdocs⟩ := exists_docs h
  refine ⟨docs, hparse, forall₂_rewritten hdocs, ?_⟩
  intro hwhole
  obtain ⟨rest, hvalue, -⟩ := Json.finish_eq_ok_iff.mp hparse
  have hrestorable := restorable_of_docs hdocs ⟨hwhole, Json.depth_le_of_value hvalue⟩
  have hparse' := Json.parse_compact hrestorable
  exact ⟨hparse', (decoder_agrees.list.ofText_eq_ok_iff hparse' rs).mpr (decoder_list_toJson hdocs)⟩

-- Keys that are repeated, inside a value as well, a source that is null and warnings that are
-- missing.
def repeatedDocs : List Json := [
  .object [("source", .null), ("b", .string "1"), ("a", .array []),
    ("b", .object [("d", .null), ("c", .number (.integer 1)), ("d", .number (.float (-0.0)))])],
  .object [
    ("warnings", .array [.object [("text", .string "\""), ("line", natJson 3),
      ("text", .string "😀"), ("column", natJson 4)]]),
    ("source", .string "a.js")]]

def repeatedResults : List Result := [
  ⟨none, [], [("a", .array []),
    ("b", .object [("c", .number (.integer 1)), ("d", .number (.float (-0.0)))])]⟩,
  ⟨some "a.js", [⟨3, 4, [("text", .string "😀")]⟩], []⟩]

theorem parse_repeatedDocs :
    Json.parse (Json.array repeatedDocs).compact = .ok (.array repeatedDocs) ∧
      ∀ n ∈ (Json.array repeatedDocs).numbers, n.Whole := by
  have hnumbers : (Json.array repeatedDocs).numbers =
      [.integer 1, .float (-0.0), .integer 3, .integer 4] := rfl
  have hwhole : ∀ n ∈ (Json.array repeatedDocs).numbers, n.Whole := by
    simp only [hnumbers, List.forall_mem_cons]
    exact ⟨.inl ⟨by decide, by decide⟩, .inr rfl, .inl ⟨by decide, by decide⟩,
      .inl ⟨by decide, by decide⟩, by simp⟩
  exact ⟨Json.parse_compact ⟨hwhole, by decide⟩, hwhole⟩

theorem parseMany_lossless_repeatedDocs :
    parseMany (Json.array repeatedDocs).compact = .ok repeatedResults ∧
    (Json.array (repeatedResults.map toJson)).compact =
      "[\x7b\"warnings\":[],\"a\":[],\"b\":\x7b\"c\":1,\"d\":-0.0\x7d\x7d," ++
      "\x7b\"source\":\"a.js\",\"warnings\":[\x7b\"line\":3,\"column\":4,\"text\":\"😀\"\x7d]\x7d]" ∧
    parseMany (Json.array (repeatedResults.map toJson)).compact = .ok repeatedResults := by
  obtain ⟨hparse, hwhole⟩ := parse_repeatedDocs
  have hread : parseMany (Json.array repeatedDocs).compact = .ok repeatedResults :=
    (decoder_agrees.list.ofText_eq_ok_iff hparse _).mpr rfl
  obtain ⟨docs, hdocs, -, hagain⟩ := parseMany_lossless _ _ hread
  cases Except.ok.inj (hparse.symm.trans hdocs)
  exact ⟨hread, by decide +kernel, (hagain hwhole).2⟩

end Result

end Text

end EmbeddedStyles.Lint
