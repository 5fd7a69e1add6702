import EmbeddedStyles.Check
import EmbeddedStyles.Proofs.Json.RoundTrip
import EmbeddedStyles.Proofs.Session.Extraction

namespace EmbeddedStyles.Check

open Lint (Severity Warning)
open Source (natJson)

-- The warning with its column in the source, as far as the session knows the file.
def corrected (session : Session) (file : Path) (w : Warning) : Warning :=
  match session.replacements? file with
  | some rs => { w with column := rs.correctColumn w.line w.column }
  | none => w

-- The warnings that a check reports, each with its file.
def reported (session : Session) (workspace : Path) (outDir : Option Path) (threshold : Threshold)
    (results : List Lint.Result) : List (Path × Warning) :=
  results.flatMap fun result =>
    match result.source with
    | none => []
    | some source =>
      let file := sourcePath source workspace outDir
      let warnings := result.warnings.map (corrected session file)
      (warnings.filter fun w => threshold = .warning || w.severity = .error).map fun w => (file, w)

-- The text under a key of the warning, if a text is there.
def textOr (default key : String) (w : Warning) : String :=
  match w.extra.lookup key with
  | some (.string text) => text
  | _ => default

-- A warning in the JSON report. The file is named as it is seen from the workspace if it is below.
def entry (workspace file : Path) (w : Warning) : Json :=
  .object [
    ("type", .string (if textOr "" "severity" w = "error" then "Error" else "Warning")),
    ("filename", .string ((file.relativeTo? workspace).getD file).text),
    ("line", natJson w.line.toNat),
    ("column", natJson w.column.toNat),
    ("message", .string (textOr "" "text" w)),
    ("rule", .string (textOr "unknown" "rule" w))]

-- All warnings of all files, each with its file.
def flattened (files : List (Path × List Warning)) : List (Path × Warning) :=
  files.flatMap fun file => file.2.map fun w => (file.1, w)

theorem mapResult?_of_source (session : Session) (workspace : Path) (outDir : Option Path)
    {result : Lint.Result} {source : String} (hsource : result.source = some source) :
    session.mapResult? workspace outDir result =
      some (sourcePath source workspace outDir,
        { result with
          source := some (sourcePath source workspace outDir).text
          warnings :=
            result.warnings.map (corrected session (sourcePath source workspace outDir)) }) := by
  cases hrs : session.replacements? (sourcePath source workspace outDir) with
  | none =>
    have hid : corrected session (sourcePath source workspace outDir) = id := by
      funext w
      simp [corrected, hrs]
    simp [Session.mapResult?, Session.correctResult?, Session.correct?, hsource, hrs, hid]
  | some rs =>
    have hcorrect : corrected session (sourcePath source workspace outDir) =
        fun w => { w with column := rs.correctColumn w.line w.column } := by
      funext w
      simp only [corrected, hrs]
    rw [Session.mapResult?_of_replacements? hsource hrs, hcorrect]

theorem included_eq (threshold : Threshold) :
    included threshold = fun w => threshold = .warning || w.severity = .error := by
  funext w
  cases threshold <;> simp [included]

-- What is shown, file by file, is what is reported, result by result.
theorem flattened_shown (session : Session) (workspace : Path) (outDir : Option Path)
    (threshold : Threshold) (results : List Lint.Result) :
    flattened (shown threshold (session.mapResults workspace outDir results)) =
      reported session workspace outDir threshold results := by
  induction results with
  | nil => rfl
  | cons result results ih =>
    simp only [flattened, shown, Session.mapResults, reported, List.flatMap_cons,
      List.filterMap_cons] at ih ⊢
    cases hsource : result.source with
    | none =>
      have hskip : session.mapResult? workspace outDir result = none := by
        simp [Session.mapResult?, hsource]
      simpa [hskip] using ih
    | some source =>
      simp only [mapResult?_of_source session workspace outDir hsource, List.map_cons,
        List.flatMap_cons, included_eq] at ih ⊢
      rw [ih]

theorem countSeverity_eq (severity : Severity) (files : List (Path × List Warning)) :
    countSeverity severity files = (flattened files).countP (·.2.severity = severity) := by
  induction files with
  | nil => rfl
  | cons file files ih =>
    have hstep : countSeverity severity (file :: files) =
        file.2.countP (·.severity = severity) + countSeverity severity files := rfl
    have hflattened : flattened (file :: files) =
        file.2.map (fun w => (file.1, w)) ++ flattened files := rfl
    rw [hstep, ih, hflattened, List.countP_append, List.countP_map]
    rfl

theorem getD_text? (default key : String) (w : Warning) :
    (w.text? key).getD default = textOr default key w := by
  rw [Warning.text?, textOr]
  split
  next text hlookup => simp [hlookup, Json.asString?]
  next hlookup =>
    cases hfound : w.extra.lookup key with
    | none => rfl
    | some json => cases json <;> simp_all [Json.asString?]

theorem textOr_severity_eq_error_iff (w : Warning) :
    textOr "" "severity" w = "error" ↔ w.severity = .error := by
  rw [Warning.severity_eq_error_iff, textOr]
  split
  next text hlookup => simp [hlookup]
  next hother => simpa using hother "error"

theorem toJson_eq_entry (workspace file : Path) :
    Report.toJson (file.relativeTo workspace).text = entry workspace file := by
  funext w
  have hlabel : Report.label w.severity = if w.severity = .error then "Error" else "Warning" := by
    cases w.severity <;> rfl
  simp only [Report.toJson, Report.message, Report.rule, Warning.message?, Warning.rule?, entry,
    hlabel, getD_text?, textOr_severity_eq_error_iff]
  rfl

theorem reportText_json (workspace : Path) (styled : List StyledFile)
    (files : List (Path × List Warning)) (summary : Summary) :
    reportText .json workspace styled files summary =
      (Json.array ((flattened files).map fun x => entry workspace x.1 x.2)).pretty ++ "\n" := by
  simp only [reportText, flattened, List.map_flatMap, List.map_map, Function.comp_def,
    toJson_eq_entry]

theorem exact_natJson (n : UInt32) : (Json.Number.integer n.toNat).Exact := by
  have h : n.toNat < UInt64.size := Nat.lt_trans n.toNat_lt (by decide)
  constructor <;> omega

theorem readable_entries (depth : Nat) (workspace : Path) (warnings : List (Path × Warning)) :
    Json.ReadableItems (depth + 1) (warnings.map fun x => entry workspace x.1 x.2) := by
  induction warnings with
  | nil => trivial
  | cons x warnings ih =>
    refine ⟨?_, ih⟩
    simp only [entry, natJson, Json.Readable, Json.ReadableEntries, exact_natJson, and_self]

-- The JSON report is read back as the list of its entries.
theorem parse_report (workspace : Path) (warnings : List (Path × Warning)) :
    Json.parse (Json.array (warnings.map fun x => entry workspace x.1 x.2)).pretty =
      .ok (.array (warnings.map fun x => entry workspace x.1 x.2)) :=
  Json.parse_pretty (readable_entries 125 workspace warnings)

-- What is left of a check when it succeeds on the linter's results: they could be read, the counts
-- are those of what is shown, and a JSON report stands alone.
theorem conclude_of_ok {σ : Type} {o : Options} {workspace : Path} {count : Nat} {tree : FileTree}
    {p : Pass σ} {path : Path} {outcome : Outcome} {summary : Summary}
    (hconclude : conclude o workspace count tree p = outcome) (hpath : o.results = some path)
    (hok : outcome.result = .ok summary) :
    ∃ results, readResults outcome.tree (workspace.join path) = .ok results ∧
      summary = ⟨count, p.styled.length, p.failed,
        countSeverity .error
          (shown o.threshold (p.session.mapResults workspace (outDir? o workspace) results)),
        countSeverity .warning
          (shown o.threshold (p.session.mapResults workspace (outDir? o workspace) results)),
        o.failOnWarnings⟩ ∧
      (o.output = .json → outcome.stdout =
        reportText .json workspace p.styled
          (shown o.threshold (p.session.mapResults workspace (outDir? o workspace) results))
          summary) := by
  simp only [conclude, hpath] at hconclude
  split at hconclude
  · subst hconclude
    cases hok
  · split at hconclude
    · subst hconclude
      cases hok
    · rename_i results hread
      subst hconclude
      cases hok
      refine ⟨results, hread, rfl, ?_⟩
      intro hjson
      simp [hjson]

theorem failed_iff (summary : Summary) (warnings : List (Path × Warning))
    (herrors : summary.errorCount = warnings.countP (·.2.severity = .error))
    (hothers : summary.warningCount = warnings.countP (·.2.severity ≠ .error)) :
    summary.failed = true ↔
      (∃ x ∈ warnings, x.2.severity = .error) ∨
        summary.failOnWarnings = true ∧ warnings ≠ [] := by
  have hsome : (∃ x ∈ warnings, x.2.severity = .error) ↔ 0 < summary.errorCount := by
    simp [herrors, List.countP_pos_iff]
  have hnonempty : warnings ≠ [] ↔ 0 < summary.errorCount + summary.warningCount := by
    have hlength := List.length_eq_countP_add_countP (fun x : Path × Warning =>
      decide (x.2.severity = .error)) (l := warnings)
    simp only [decide_eq_true_eq] at hlength
    rw [herrors, hothers, ← List.length_pos_iff, hlength]
  rw [hsome, hnonempty]
  simp only [Summary.failed, Bool.or_eq_true, Bool.and_eq_true, decide_eq_true_eq]
  grind

-- The counts, the verdict and the JSON report of a check that succeeds on the linter's results.
theorem check_reports_once {σ : Type} (o : Options) (workspace : Path) (files : List Path)
    (session session' : Session) (compiler : Compiler σ) (state state' : σ) (tree : FileTree)
    {path : Path} {outcome : Outcome} {summary : Summary}
    (hcheck : check o workspace files session compiler state tree = (outcome, session', state'))
    (hpath : o.results = some path) (hok : outcome.result = .ok summary) :
    ∃ results, readResults outcome.tree (workspace.join path) = .ok results ∧
      ∃ warnings, warnings =
          reported session' workspace (outDir? o workspace) o.threshold results ∧
        summary.errorCount = warnings.countP (·.2.severity = .error) ∧
        summary.warningCount = warnings.countP (·.2.severity ≠ .error) ∧
        (summary.failed = true ↔
          (∃ x ∈ warnings, x.2.severity = .error) ∨ o.failOnWarnings = true ∧ warnings ≠ []) ∧
        (o.output = .json → ∃ text, outcome.stdout = text ++ "\n" ∧
          Json.parse text = .ok (.array (warnings.map fun x => entry workspace x.1 x.2))) := by
  obtain ⟨hconclude, hsession, -⟩ : _ ∧ _ ∧ _ := by simpa [check] using hcheck
  obtain ⟨results, hread, hsummary, hstdout⟩ := conclude_of_ok hconclude hpath hok
  rw [hsession] at hsummary hstdout
  have hopposite : (fun x : Path × Warning => decide (x.2.severity = .warning)) =
      fun x => decide (x.2.severity ≠ .error) := by
    funext x
    cases x.2.severity <;> rfl
  obtain ⟨warnings, hwarnings⟩ : ∃ warnings, warnings =
      reported session' workspace (outDir? o workspace) o.threshold results := ⟨_, rfl⟩
  have herrors : summary.errorCount = warnings.countP (·.2.severity = .error) := by
    rw [hsummary, countSeverity_eq, flattened_shown, hwarnings]
  have hothers : summary.warningCount = warnings.countP (·.2.severity ≠ .error) := by
    simp only [hsummary, countSeverity_eq, flattened_shown, hwarnings, hopposite]
  have hstrict : o.failOnWarnings = summary.failOnWarnings := by rw [hsummary]
  refine ⟨results, hread, warnings, hwarnings, herrors, hothers, ?_, ?_⟩
  · rw [hstrict]
    exact failed_iff summary warnings herrors hothers
  · intro hjson
    refine ⟨_, ?_, parse_report workspace warnings⟩
    rw [hstdout hjson, reportText_json, flattened_shown, hwarnings]

-- A workspace with a file whose template has an interpolation, and what a linter said about it.
def lintedFile : FileTree where
  root := .dir [("w", .dir [
    ("a.js", .file "const a = css`x${y}z`;".toUTF8 false),
    ("lint.json", .file lint.toUTF8 false)])]
  workingDir := []
where
  lint : String :=
    "[\x7b\"source\":\"a.js\",\"warnings\":[" ++
      "\x7b\"line\":1,\"column\":17,\"severity\":\"error\",\"text\":\"\\\"é\"\x7d," ++
      "\x7b\"line\":1,\"column\":2,\"rule\":\"r\"\x7d]\x7d," ++
    "\x7b\"warnings\":[\x7b\"line\":1,\"column\":1\x7d]\x7d]"

def interpolated : Metadata where
  rules := [(".a", ⟨"a", "xpz", some ⟨1, 14⟩, none⟩)]
  replacements := [⟨⟨⟨1, 15⟩, ⟨1, 18⟩⟩, 1⟩]

def lintedCheck : Outcome × Session × Unit :=
  check { results := some ⟨"lint.json"⟩, output := .json } ⟨"/w"⟩ [⟨"/w/a.js"⟩] {}
    (fun _ _ _ => (.ok (some interpolated), ())) () lintedFile

-- What can be told of a reported warning: its file, its column and what its fields hold.
def told (x : Path × Warning) : Severity × String × UInt32 × String × String :=
  (x.2.severity, x.1.text, x.2.column, textOr "" "text" x.2, textOr "unknown" "rule" x.2)

theorem countP_told (p : Severity → Bool) (warnings : List (Path × Warning)) :
    warnings.countP (fun x => p x.2.severity) = (warnings.map told).countP (fun t => p t.1) := by
  rw [List.countP_map]
  rfl

theorem check_reports_once_linted :
    ∃ outcome session summary, ∃ warnings : List (Path × Warning),
      lintedCheck = (outcome, session, ()) ∧ outcome.result = .ok summary ∧
      warnings.map told = [(.error, "/w/a.js", 20, "\"é", "unknown"),
        (.warning, "/w/a.js", 2, "", "r")] ∧
      summary.errorCount = warnings.countP (·.2.severity = .error) ∧
      summary.errorCount = 1 ∧ summary.warningCount = 1 ∧ summary.failed = true ∧
      ∃ text, outcome.stdout = text ++ "\n" ∧
        Json.parse text = .ok (.array (warnings.map fun x => entry ⟨"/w"⟩ x.1 x.2)) := by
  have hisOk : lintedCheck.1.result.isOk = true := by decide +kernel
  have hreported : ((readResults lintedCheck.1.tree ⟨"/w/lint.json"⟩).toOption.map fun results =>
      (reported lintedCheck.2.1 ⟨"/w"⟩ none .warning results).map told) =
      some [(.error, "/w/a.js", 20, "\"é", "unknown"), (.warning, "/w/a.js", 2, "", "r")] := by
    decide +kernel
  obtain ⟨⟨outcome, session, _⟩, hlinted⟩ : ∃ x, lintedCheck = x := ⟨_, rfl⟩
  rw [hlinted] at hisOk hreported
  cases hok : outcome.result with
  | error error => simp [hok, Except.isOk, Except.toBool] at hisOk
  | ok summary =>
    obtain ⟨results, hread, warnings, hwarnings, herrors, hothers, hfailed, hreport⟩ :=
      check_reports_once _ _ _ _ _ _ _ _ _ hlinted rfl hok
    have hjoin : (⟨"/w"⟩ : Path).join ⟨"lint.json"⟩ = ⟨"/w/lint.json"⟩ := by decide
    rw [hjoin] at hread
    have htold : warnings.map told =
        [(.error, "/w/a.js", 20, "\"é", "unknown"), (.warning, "/w/a.js", 2, "", "r")] := by
      simpa [hread, Except.toOption, hwarnings, outDir?] using hreported
    have hone : summary.errorCount = 1 := by
      rw [herrors, countP_told (· = .error), htold]
      rfl
    have hother : summary.warningCount = 1 := by
      rw [hothers, countP_told (· ≠ .error), htold]
      rfl
    have herror : ∃ x ∈ warnings, x.2.severity = .error := by
      have hpos : 0 < warnings.countP (·.2.severity = .error) := by omega
      simpa using List.countP_pos_iff.mp hpos
    exact ⟨outcome, session, summary, warnings, hlinted, hok, htold, herrors, hone, hother,
      hfailed.mpr (.inl herror), hreport rfl⟩

end EmbeddedStyles.Check
