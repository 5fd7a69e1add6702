import EmbeddedStyles.Proofs.Json.Records
import EmbeddedStyles.Proofs.Metadata.Decoding
import EmbeddedStyles.Proofs.Worker.Call

namespace EmbeddedStyles

open Json (Decoder Record Field orderEntries)
open Source (Position Span Replacement natJson)

section Reports

namespace Metadata

-- The selectors of a report, in the order in which they stand there.
def selectors (fields : List (String × Json)) : List String :=
  match fields.lookup "rules" with
  | some (.object rules) => rules.map Prod.fst
  | _ => []

-- The rules of a report are those that stand under their key.
theorem rules_of_objectValue {s s' : Draft} {fields : List (String × Json)}
    (hkeys : (fields.map Prod.fst).Nodup) (hdistinct : Json.DistinctEntries fields)
    (h : record.objectValue s fields = .ok s') :
    fields.lookup "rules" = none ∧ s'.rules = s.rules ∨
      ∃ es xs, fields.lookup "rules" = some (.object es) ∧ (es.map Prod.fst).Nodup ∧
        xs.map Prod.fst = es.map Prod.fst ∧ s'.rules = some (Rules.ofEntries xs) := by
  induction fields generalizing s with
  | nil =>
    cases h
    exact .inl ⟨rfl, rfl⟩
  | cons e fields ih =>
    obtain ⟨key, json⟩ := e
    obtain ⟨hfresh, htail⟩ := List.nodup_cons.mp hkeys
    rw [Record.objectValue_cons_eq_ok_iff rfl] at h
    obtain ⟨hfield, h⟩ | ⟨f, set, hfield, -, hset, h⟩ := h
    · have hkey : "rules" ≠ key := by
        rintro rfl
        simp [Record.field?, record] at hfield
      rw [Json.lookup_cons, if_neg hkey]
      exact ih htail hdistinct.2 h
    · have hname : f.name = key := by simpa using List.find?_some hfield
      have hmem := List.mem_of_find?_eq_some hfield
      simp only [record, List.mem_cons, List.not_mem_nil, or_false] at hmem
      rcases hmem with rfl | rfl
      · obtain ⟨xs, hxs, rfl⟩ := Decoder.value_map_eq_ok_iff.mp hset
        obtain ⟨es, rfl, hes⟩ := Decoder.keys_of_value_entries hxs
        have hlookup := Json.lookup_eq_none_iff.mpr hfresh
        obtain ⟨-, hrules⟩ | ⟨_, _, hsome, -⟩ := ih htail hdistinct.2 h
        · exact .inr ⟨es, xs, by rw [Json.lookup_cons, if_pos hname], hdistinct.1.1, hes, hrules⟩
        · rw [← hname] at hlookup
          cases hlookup.symm.trans hsome
      · obtain ⟨xs, -, rfl⟩ := Decoder.value_map_eq_ok_iff.mp hset
        have hkey : "rules" ≠ key := by
          rintro rfl
          simp at hname
        rw [Json.lookup_cons, if_neg hkey]
        exact (ih htail hdistinct.2 h :)

theorem keys_rules {fields : List (String × Json)} {m : Metadata}
    (hdistinct : (Json.object fields).Distinct) (h : decoder.value (.object fields) = .ok m) :
    m.rules.map Prod.fst = selectors fields ∧ (selectors fields).Nodup := by
  obtain ⟨s, hs, hm⟩ := bind_eq_ok_iff.mp h
  cases hm
  obtain ⟨hlookup, hrules⟩ | ⟨es, xs, hlookup, hnodup, hkeys, hrules⟩ :=
    rules_of_objectValue hdistinct.1 hdistinct.2 hs
  · rw [selectors, hlookup, hrules]
    exact ⟨rfl, List.nodup_nil⟩
  · rw [selectors, hlookup, hrules, Option.getD_some, Rules.ofEntries_of_nodup (hkeys ▸ hnodup)]
    exact ⟨hkeys, hnodup⟩

end Metadata

end Reports

namespace Worker

-- A reply that holds a report and nothing else.
def Reply.reporting (id : Nat) (report : Json) : Json :=
  .object [("id", natJson id), ("metadata", report)]

theorem Reply.reads_reporting (id : Nat) {report : Json} (h : report ≠ .null) :
    Reply.decoder.Reads (Reply.reporting id report) ⟨some id, some report.sorted, none, none⟩ := by
  have hid : Decoder.u64.optional.Reads (natJson id) (some id) :=
    (Decoder.reads_natural (le_of_eq rfl) "u64" id).optional (by simp)
  have hreport : Decoder.any.optional.Reads report (some report.sorted) :=
    (Decoder.reads_any report).optional h
  have hentries : Reply.record.ReadsEntries Reply.record.start
      [("id", natJson id), ("metadata", report)]
      ⟨some (some id), some (some report.sorted), none, none⟩ := by
    refine .cons rfl rfl (hid.map fun x (s : Reply.Draft) => { s with id := some x }) ?_
    refine .cons rfl rfl (hreport.map fun x (s : Reply.Draft) => { s with metadata := some x }) ?_
    exact .nil _
  exact hentries.decoder rfl

namespace Client

-- The line is the one that the call reads for its request.
def Call.Reads (launcher : Launcher) (c : Client) (call : Call) (line : String) : Prop :=
  ∃ p attempts unread, AtHand launcher c p attempts ∧ p.behaviour.refusal p.heard = none ∧
    (heardBy p (call.request c)).unread = .text line :: unread

theorem Call.Reads.make_eq {launcher : Launcher} {c : Client} {call : Call} {line : String}
    {report : Json} (hline : call.Reads launcher c line) (hreport : report ≠ .null)
    (hparse : Json.parse line = .ok (Reply.reporting c.nextId report)) :
    (call.make launcher c).1 = do return some (← Metadata.ofJson report) := by
  obtain ⟨p, attempts, unread, hp, hwritten, hunread⟩ := hline
  have hreply := (Reply.reads_reporting c.nextId hreport).ofText hparse
  have hanswer := (answer_eq_ok_iff (heardBy p (call.request c)) _ c.nextId _).mpr
    ⟨.text line, unread, hunread, ⟨line, rfl, hreply, rfl, rfl⟩, rfl⟩
  rw [hp.make_of_answer hwritten hanswer]
  have hsame : Metadata.ofJson report.sorted = Metadata.ofJson report := by
    rw [Metadata.ofJson, Metadata.ofJson, Json.sorted_sorted]
  rw [← hsame]
  cases report with
  | null => exact absurd rfl hreport
  | _ => rfl

theorem Call.Reads.make_of_valid {launcher : Launcher} {c : Client} {call : Call} {line : String}
    {fields : List (String × Json)} {m : Metadata} (hline : call.Reads launcher c line)
    (hparse : Json.parse line = .ok (Reply.reporting c.nextId (.object fields)))
    (hdistinct : (Json.object fields).Distinct)
    (hvalid : Metadata.decoder.value (.object fields) = .ok m) :
    (call.make launcher c).1 = .ok (some { m with rules := orderEntries m.rules }) := by
  have hordered := Metadata.decoder_follows.value_sorted hdistinct hvalid
  rw [hline.make_eq (by simp) hparse, Metadata.ofJson, hordered]
  rfl

-- A call returns the rules of the report in the order of their selectors, which is the order of the
-- report only if the selectors stand there in order.
theorem rules_ordered_by_selector (launcher : Launcher) (c : Client) (call : Call) {line : String}
    {fields : List (String × Json)} {m : Metadata} (hline : call.Reads launcher c line)
    (hparse : Json.parse line = .ok (Reply.reporting c.nextId (.object fields)))
    (hdistinct : (Json.object fields).Distinct)
    (hvalid : Metadata.decoder.value (.object fields) = .ok m) :
    m.rules.map Prod.fst = Metadata.selectors fields ∧
    ∃ m', (call.make launcher c).1 = .ok (some m') ∧ m'.replacements = m.replacements ∧
      m'.rules.Perm m.rules ∧ (m'.rules.map Prod.fst).Pairwise (· < ·) ∧
      (m'.rules.map Prod.fst = Metadata.selectors fields ↔
        (Metadata.selectors fields).Pairwise (· < ·)) := by
  obtain ⟨hselectors, hnodup⟩ := Metadata.keys_rules hdistinct hvalid
  have hordered : ((orderEntries m.rules).map Prod.fst).Pairwise (· < ·) :=
    List.pairwise_map.mpr (Json.ordered_orderEntries m.rules)
  refine ⟨hselectors, _, hline.make_of_valid hparse hdistinct hvalid, rfl,
    Json.orderEntries_perm (hselectors ▸ hnodup), hordered, ?_⟩
  rw [← hselectors]
  constructor
  · intro hsame
    exact hsame ▸ hordered
  · intro hsorted
    rw [Json.orderEntries_of_ordered (List.pairwise_map.mp hsorted)]

-- A worker that reports two rules, the later selector first.
def reporter : Behaviour where
  output
    | [] => [.text "\x7b\"ready\":true\x7d"]
    | _ => [.text line]
  exit _ := ⟨0, ""⟩
  refusal _ := none
where
  line : String :=
    "\x7b\"id\":1,\"metadata\":\x7b\"rules\":\x7b" ++
      "\".b\":\x7b\"displayName\":\"b\",\"cssText\":\"d\"\x7d," ++
      "\".a\":\x7b\"displayName\":\"a\",\"cssText\":\"c\"\x7d\x7d\x7d\x7d"

def reportedFile : Call := ⟨"css`d`", ⟨"a.js"⟩⟩

-- The report that stands in the line.
def twoRules : List (String × Json) := [
  ("rules", .object [
    (".b", .object [("displayName", .string "b"), ("cssText", .string "d")]),
    (".a", .object [("displayName", .string "a"), ("cssText", .string "c")])])]

theorem reads_reporter : reportedFile.Reads (fun _ => .ok reporter) {} reporter.line := by
  have hready : (Ready.decoder.ofText "\x7b\"ready\":true\x7d").toOption.map Ready.ready =
      some true := by
    decide +kernel
  have hgreets : (Line.text "\x7b\"ready\":true\x7d").Greets := by
    refine ⟨_, rfl, ?_⟩
    cases h : Ready.decoder.ofText "\x7b\"ready\":true\x7d" with
    | error failure => simp [h, Except.toOption] at hready
    | ok ready =>
      obtain ⟨ready⟩ := ready
      simpa [h, Except.toOption] using hready
  exact ⟨_, _, [], .started rfl rfl rfl hgreets, rfl, rfl⟩

-- Documents may hold floats and are not compared, but this one can be told by its form.
def isTwoRulesReply : Json → Bool
  | .object [("id", .number (.integer (.ofNat 1))), ("metadata", .object [("rules", .object [
      (".b", .object [("displayName", .string "b"), ("cssText", .string "d")]),
      (".a", .object [("displayName", .string "a"), ("cssText", .string "c")])])])] => true
  | _ => false

theorem parse_reporter_line :
    Json.parse reporter.line = .ok (Reply.reporting 1 (.object twoRules)) := by
  have h : (Json.parse reporter.line).toOption.map isTwoRulesReply = some true := by
    decide +kernel
  cases hparse : Json.parse reporter.line with
  | error failure => simp [hparse, Except.toOption] at h
  | ok json =>
    simp only [hparse, Except.toOption, Option.map_some, Option.some.injEq] at h
    unfold isTwoRulesReply at h
    split at h
    next => rfl
    next => cases h

theorem distinct_twoRules : (Json.object twoRules).Distinct := by
  simp [twoRules, Json.Distinct, Json.DistinctEntries]

theorem value_twoRules : Metadata.decoder.value (.object twoRules) =
    .ok ⟨[(".b", ⟨"b", "d", none, none⟩), (".a", ⟨"a", "c", none, none⟩)], []⟩ := by
  rfl

theorem rules_ordered_by_selector_reporter :
    ∃ m', (reportedFile.make (fun _ => .ok reporter) {}).1 = .ok (some m') ∧
      m'.rules.Perm [(".b", ⟨"b", "d", none, none⟩), (".a", ⟨"a", "c", none, none⟩)] ∧
      (m'.rules.map Prod.fst).Pairwise (· < ·) := by
  obtain ⟨-, m', hmake, -, hperm, hordered, -⟩ := rules_ordered_by_selector _ _ _ reads_reporter
    parse_reporter_line distinct_twoRules value_twoRules
  exact ⟨m', hmake, hperm, hordered⟩

-- The later selector comes first in the report and last in what is returned.
theorem reported_order_lost :
    ∃ line fields m m', reportedFile.Reads (fun _ => .ok reporter) {} line ∧
      Json.parse line = .ok (Reply.reporting 1 (.object fields)) ∧
      (Json.object fields).Distinct ∧ Metadata.decoder.value (.object fields) = .ok m ∧
      Metadata.selectors fields = [".b", ".a"] ∧
      (reportedFile.make (fun _ => .ok reporter) {}).1 = .ok (some m') ∧
      m'.rules.map Prod.fst = [".a", ".b"] := by
  have hmake := reads_reporter.make_of_valid parse_reporter_line distinct_twoRules value_twoRules
  exact ⟨_, _, _, _, reads_reporter, parse_reporter_line, distinct_twoRules, value_twoRules, rfl,
    hmake, by decide⟩

end Client

end Worker

end EmbeddedStyles
