import EmbeddedStyles.Proofs.Json.Compact
import EmbeddedStyles.Proofs.Json.Records
import EmbeddedStyles.Proofs.Metadata.Decoding
import EmbeddedStyles.Proofs.Session.Extraction
import EmbeddedStyles.Proofs.Stylesheet.Order

namespace EmbeddedStyles

namespace Rules

variable {selector : String} {rules : Rules}

theorem keys_put_of_mem (h : selector ∈ rules.map Prod.fst) (rule : Rule) :
    (put selector rule rules).map Prod.fst = rules.map Prod.fst := by
  induction rules with
  | nil => cases h
  | cons e rules ih =>
    rw [put]
    split
    · rfl
    next hne =>
      have hmem := (List.mem_cons.mp h).resolve_left (Ne.symm hne)
      rw [List.map_cons, List.map_cons, ih hmem]

theorem nodup_put (h : (rules.map Prod.fst).Nodup) (selector : String) (rule : Rule) :
    ((put selector rule rules).map Prod.fst).Nodup := by
  by_cases hmem : selector ∈ rules.map Prod.fst
  · rw [keys_put_of_mem hmem]
    exact h
  · rw [put_of_notMem hmem, List.map_append, List.map_singleton, ← List.concat_eq_append]
    exact h.concat hmem

theorem nodup_ofEntries (entries : List (String × Rule)) :
    ((ofEntries entries).map Prod.fst).Nodup :=
  List.foldlRecOn (motive := fun rules : Rules => (rules.map Prod.fst).Nodup) entries _
    List.nodup_nil fun _ h entry _ => nodup_put h entry.1 entry.2

end Rules

namespace Metadata

-- No selector comes twice in a report that was read.
theorem nodup_of_value {json : Json} {m : Metadata} (h : decoder.value json = .ok m) :
    (m.rules.map Prod.fst).Nodup := by
  have hfields : ∀ f ∈ record.fields, ∀ json set, f.decoder.value json = .ok set →
      ∀ s : Draft, ((s.rules.getD []).map Prod.fst).Nodup →
        (((set s).rules.getD []).map Prod.fst).Nodup := by
    simp only [record, List.forall_mem_cons]
    refine ⟨?_, ?_, by simp⟩
    · intro json set hset s _
      obtain ⟨xs, -, rfl⟩ := Json.Decoder.value_map_eq_ok_iff.mp hset
      exact Rules.nodup_ofEntries xs
    · intro json set hset s hs
      obtain ⟨xs, -, rfl⟩ := Json.Decoder.value_map_eq_ok_iff.mp hset
      exact hs
  obtain ⟨s, hs, hm⟩ := Json.Record.exists_of_value hfields (fun _ hkeep => by cases hkeep)
    List.nodup_nil h
  cases hm
  exact hs

theorem ofJson_eq_ok_iff_of_parse {text : String} {json : Json} {m' : Metadata}
    (hparse : Json.parse text = .ok json) (hdistinct : json.Distinct) :
    ofJson json = .ok m' ↔
      ∃ m, ofText text = .ok m ∧ { m with rules := Json.orderEntries m.rules } = m' := by
  simp only [ofJson_eq_ok_iff, decoder_follows json m' hdistinct, ofText_eq_ok_iff hparse]

theorem perm_of_ofText {text : String} {json : Json} {m : Metadata}
    (hparse : Json.parse text = .ok json) (h : ofText text = .ok m) :
    (Json.orderEntries m.rules).Perm m.rules :=
  Json.orderEntries_perm (nodup_of_value ((ofText_eq_ok_iff hparse).mp h))

end Metadata

-- Reports that differ in the order of their rules alone leave the same behind.
theorem Session.settle_congr {s : Session} (hsource : s.ruleOrder = .source) (file : Path)
    {m m' : Metadata} (hreplacements : m'.replacements = m.replacements)
    (hperm : m'.rules.Perm m.rules) (hstarts : (m.ruleList.map Rule.startOrOrigin).Nodup) :
    s.settle file (.ok (some m')) = s.settle file (.ok (some m)) := by
  have hrules : RuleOrder.source.arrange m.ruleList = RuleOrder.source.arrange m'.ruleList :=
    RuleOrder.arrange_source_congr (hperm.map Prod.snd).symm hstarts
  simp only [settle, stylesheet, hsource, hrules, hreplacements, hperm.length_eq]

-- A text and the document in it are read as a report or refused together. The two reports have the
-- same replacements and the same rules, and a session that lays rules out by their starts makes the
-- same of them, whichever compiler reads which.
theorem Metadata.readers_agree (text : String) (json : Json) (hparse : Json.parse text = .ok json)
    (hdistinct : json.Distinct) :
    ((∃ m, ofText text = .ok m) ↔ ∃ m', ofJson json = .ok m') ∧
    ∀ m m', ofText text = .ok m → ofJson json = .ok m' →
      m'.replacements = m.replacements ∧ m'.rules.Perm m.rules ∧
      ((m.ruleList.map Rule.startOrOrigin).Nodup →
        ∀ (s : Session), s.ruleOrder = .source →
        ∀ {σ σ' : Type} (compiler : Compiler σ) (compiler' : Compiler σ') (state : σ) (state' : σ')
          (source : String) (file : Path),
          (compiler state source file).1 = .ok (some m) →
          (compiler' state' source file).1 = .ok (some m') →
          (s.extract compiler' state' source file).1 = (s.extract compiler state source file).1 ∧
          (s.extract compiler' state' source file).2.1 =
            (s.extract compiler state source file).2.1) := by
  refine ⟨?_, ?_⟩
  · simp only [ofJson_eq_ok_iff_of_parse hparse hdistinct]
    constructor
    · rintro ⟨m, hm⟩
      exact ⟨_, m, hm, rfl⟩
    · rintro ⟨_, m, hm, -⟩
      exact ⟨m, hm⟩
  · intro m m' hm hm'
    obtain ⟨m₀, hm₀, rfl⟩ := (ofJson_eq_ok_iff_of_parse hparse hdistinct).mp hm'
    cases Except.ok.inj (hm₀.symm.trans hm)
    have hperm := perm_of_ofText hparse hm
    refine ⟨rfl, hperm, ?_⟩
    intro hstarts s hsource σ σ' compiler compiler' state state' source file hanswer hanswer'
    apply Session.extract_congr
    rw [hanswer, hanswer']
    exact Session.settle_congr hsource file rfl hperm hstarts

-- A report with a field that nobody wants, the later selector and the later start first, and a
-- start that is given as an array.
def Metadata.crossedReport : Json :=
  .object [
    ("version", .number (.integer 2)),
    ("rules", .object [
      (".b", .object [("displayName", .string "b"), ("cssText", .string "d"),
        ("start", .array [.number (.integer 2), .number (.integer 4)])]),
      (".a", .object [("cssText", .string "c"), ("displayName", .string "a"),
        ("start", .null)])])]

theorem Metadata.parse_crossedReport : Json.parse crossedReport.compact = .ok crossedReport := by
  have hnumbers : crossedReport.numbers = [.integer 2, .integer 2, .integer 4] := rfl
  refine Json.parse_compact ⟨?_, by decide⟩
  simp only [hnumbers, List.forall_mem_cons]
  exact ⟨.inl ⟨by decide, by decide⟩, .inl ⟨by decide, by decide⟩, .inl ⟨by decide, by decide⟩,
    by simp⟩

theorem Metadata.readers_agree_crossedReport :
    Json.parse crossedReport.compact = .ok crossedReport ∧ crossedReport.Distinct ∧
    ∃ m m', ofText crossedReport.compact = .ok m ∧ ofJson crossedReport = .ok m' ∧
      m.rules.map Prod.fst = [".b", ".a"] ∧ m'.rules.map Prod.fst = [".a", ".b"] ∧
      m'.rules.Perm m.rules ∧
      (Session.extract {} (fun _ _ _ => (.ok (some m'), ())) () "css`d`" ⟨"a.js"⟩).1 =
        (Session.extract {} (fun _ _ _ => (.ok (some m), ())) () "css`d`" ⟨"a.js"⟩).1 := by
  have hdistinct : crossedReport.Distinct := by
    simp [crossedReport, Json.Distinct, Json.DistinctEntries, Json.DistinctItems]
  have hread : ofText crossedReport.compact =
      .ok ⟨[(".b", ⟨"b", "d", some ⟨2, 4⟩, none⟩), (".a", ⟨"a", "c", none, none⟩)], []⟩ :=
    (ofText_eq_ok_iff parse_crossedReport).mpr rfl
  have hread' : ofJson crossedReport =
      .ok ⟨[(".a", ⟨"a", "c", none, none⟩), (".b", ⟨"b", "d", some ⟨2, 4⟩, none⟩)], []⟩ :=
    ofJson_eq_ok_iff.mpr rfl
  obtain ⟨-, hagree⟩ := readers_agree _ _ parse_crossedReport hdistinct
  obtain ⟨-, hperm, hextract⟩ := hagree _ _ hread hread'
  exact ⟨parse_crossedReport, hdistinct, _, _, hread, hread', rfl, rfl, hperm,
    (hextract (by decide) {} rfl _ _ () () _ _ rfl rfl).1⟩

end EmbeddedStyles
