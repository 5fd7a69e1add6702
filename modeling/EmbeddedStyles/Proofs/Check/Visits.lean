import EmbeddedStyles.Proofs.Check.Report
import EmbeddedStyles.Proofs.Session.Extraction
import EmbeddedStyles.Proofs.Stylesheet.Layout
import EmbeddedStyles.Proofs.Stylesheet.Order

namespace EmbeddedStyles

theorem Session.isEmpty_stylesheet (s : Session) (m : Metadata) :
    (s.stylesheet m).isEmpty = m.rules.isEmpty := by
  have hperm := s.ruleOrder.perm_arrange m.ruleList
  rw [stylesheet, Stylesheet.isEmpty_synthesize, hperm.isEmpty_eq, Metadata.ruleList]
  simp

namespace Check

open Source (Replacements)

-- What becomes of a file in a pass.
inductive Route where
  | unreadable (cause : FileError)
  -- The compiler is not asked about a source without a marker, if markers matter.
  | unmarked (source : String)
  | asked (source : String) (answer : Except CompileError (Option Metadata))

structure Visit where
  path : Path
  route : Route

namespace Visit

-- The source of the file and the compiler's report on it.
def report? (v : Visit) : Option (String × Metadata) :=
  match v.route with
  | .asked source (.ok (some m)) => some (source, m)
  | _ => none

def isFailed (v : Visit) : Bool :=
  match v.route with
  | .asked _ (.error _) => true
  | _ => false

-- Whether the compiler reported a rule.
def isStyled (v : Visit) : Bool :=
  v.report?.any fun x => !x.2.rules.isEmpty

-- The styled file that comes of the visit.
def styledFile? (v : Visit) (session : Session) (workspace : Path) : Option StyledFile :=
  match v.report? with
  | some (source, m) =>
    if m.rules.isEmpty then none
    else some ⟨v.path, v.path.relativeTo workspace, source, session.stylesheet m⟩
  | none => none

-- The replacements reported for a file, if this is the file.
def replacements? (v : Visit) (file : Path) : Option Replacements :=
  if v.path.same file then v.report?.map fun x => x.2.replacements else none

end Visit

variable {σ : Type}

-- Visits a file with the compiler in some state, and gives the state in which it leaves it.
def visit (markerCheck : Bool) (compiler : Compiler σ) (tree : FileTree) (state : σ)
    (path : Path) : Visit × σ :=
  match tree.readText path with
  | .error cause => (⟨path, .unreadable cause⟩, state)
  | .ok source =>
    if !markerCheck || Marker.hasMarker source then
      let (answer, state) := compiler state source path
      (⟨path, .asked source answer⟩, state)
    else (⟨path, .unmarked source⟩, state)

-- Visits files in turn. The compiler goes on from the state in which the visit before left it.
def visits (markerCheck : Bool) (compiler : Compiler σ) (tree : FileTree) :
    σ → List Path → List Visit
  | _, [] => []
  | state, path :: files =>
    let (v, state) := visit markerCheck compiler tree state path
    v :: visits markerCheck compiler tree state files

-- The replacements reported for a file last.
def latest? (vs : List Visit) (file : Path) : Option Replacements :=
  (vs.filterMap (·.replacements? file)).getLast?

-- What a pass keeps of the files visited so far, in a session that was given at its start.
structure Pass.Accounts (session : Session) (workspace : Path) (vs : List Visit) (p : Pass σ) :
    Prop where
  ruleOrder : p.session.ruleOrder = session.ruleOrder
  markerCheck : p.session.markerCheck = session.markerCheck
  styled : p.styled = vs.filterMap (·.styledFile? session workspace)
  failed : p.failed = vs.countP (·.isFailed)
  remembered : ∀ file,
    p.session.replacements? file = (latest? vs file).or (session.replacements? file)

theorem latest?_concat (vs : List Visit) (v : Visit) (file : Path) :
    latest? (vs ++ [v]) file = (v.replacements? file).or (latest? vs file) := by
  cases h : v.replacements? file <;> simp [latest?, h]

theorem Pass.accounts_nil (session : Session) (workspace : Path) (state : σ) :
    Pass.Accounts session workspace [] { session, state } where
  ruleOrder := rfl
  markerCheck := rfl
  styled := rfl
  failed := rfl
  remembered _ := rfl

variable {session : Session} {workspace : Path} {vs : List Visit} {p : Pass σ}

-- A visit without a report leaves the styled files and the memory as they are.
theorem Pass.Accounts.concat_unreported (h : p.Accounts session workspace vs) {v : Visit}
    (hv : v.report? = none) {p' : Pass σ} (hsession : p'.session = p.session)
    (hstyled : p'.styled = p.styled)
    (hfailed : p'.failed = p.failed + if v.isFailed then 1 else 0) :
    p'.Accounts session workspace (vs ++ [v]) where
  ruleOrder := by rw [hsession, h.ruleOrder]
  markerCheck := by rw [hsession, h.markerCheck]
  styled := by simp [hstyled, h.styled, Visit.styledFile?, hv]
  failed := by simp [hfailed, h.failed, List.countP_singleton]
  remembered file := by simp [hsession, h.remembered, latest?_concat, Visit.replacements?, hv]

-- A report is remembered, and its file is styled if it has rules.
theorem Pass.Accounts.concat_reported (h : p.Accounts session workspace vs) {path : Path}
    {source : String} {m : Metadata} {p' : Pass σ}
    (hsession : p'.session = p.session.remember path m.replacements)
    (hstyled : p'.styled = p.styled ++
      if m.rules.isEmpty then [] else
        [⟨path, path.relativeTo workspace, source, p.session.stylesheet m⟩])
    (hfailed : p'.failed = p.failed) :
    p'.Accounts session workspace (vs ++ [⟨path, .asked source (.ok (some m))⟩]) where
  ruleOrder := by rw [hsession, ← h.ruleOrder]; rfl
  markerCheck := by rw [hsession, ← h.markerCheck]; rfl
  styled := by
    have hstylesheet : p.session.stylesheet m = session.stylesheet m := by
      rw [Session.stylesheet, h.ruleOrder]
      rfl
    rw [hstyled, h.styled, hstylesheet, List.filterMap_append]
    by_cases hrules : m.rules = [] <;>
      simp [Visit.styledFile?, Visit.report?, hrules]
  failed := by simp [hfailed, h.failed, Visit.isFailed]
  remembered file := by
    rw [hsession, Session.replacements?_remember, h.remembered, latest?_concat]
    cases hsame : path.same file <;> simp [Visit.replacements?, Visit.report?, hsame]

-- One more file is one more visit, and the compiler is left in the same state by both.
theorem Pass.Accounts.add (h : p.Accounts session workspace vs) (compiler : Compiler σ)
    (tree : FileTree) (path : Path) :
    (p.add compiler tree workspace path).Accounts session workspace
        (vs ++ [(visit session.markerCheck compiler tree p.state path).1]) ∧
      (p.add compiler tree workspace path).state =
        (visit session.markerCheck compiler tree p.state path).2 := by
  cases hread : tree.readText path with
  | error cause =>
    rw [Pass.add, visit, hread]
    exact ⟨h.concat_unreported rfl rfl rfl rfl, rfl⟩
  | ok source =>
    have hasks : (!session.markerCheck || Marker.hasMarker source) = p.session.asks source := by
      rw [← h.markerCheck]
      rfl
    cases hasked : p.session.asks source with
    | false =>
      have hvisit : visit session.markerCheck compiler tree p.state path =
          (⟨path, .unmarked source⟩, p.state) := by
        simp [visit, hread, hasks, hasked]
      have hadd : p.add compiler tree workspace path = p := by
        simp [Pass.add, hread, Session.extract, hasked]
      rw [hvisit, hadd]
      exact ⟨h.concat_unreported rfl rfl rfl rfl, rfl⟩
    | true =>
      obtain ⟨answer, state, hanswer⟩ :
          ∃ answer state, compiler p.state source path = (answer, state) := ⟨_, _, rfl⟩
      have hvisit : visit session.markerCheck compiler tree p.state path =
          (⟨path, .asked source answer⟩, state) := by
        simp [visit, hread, hasks, hasked, hanswer]
      rw [hvisit, Pass.add, hread]
      simp only [Session.extract, hasked, hanswer, if_true]
      cases answer with
      | error error => exact ⟨h.concat_unreported rfl rfl rfl rfl, rfl⟩
      | ok found =>
        cases found with
        | none => exact ⟨h.concat_unreported rfl rfl rfl rfl, rfl⟩
        | some m =>
          simp only [Session.settle, Session.isEmpty_stylesheet]
          cases hrules : m.rules.isEmpty with
          | true => exact ⟨h.concat_reported rfl (by simp [hrules]) rfl, rfl⟩
          | false => exact ⟨h.concat_reported rfl (by simp [hrules]) rfl, rfl⟩

-- The visits of a list of files join those that were made before.
theorem Pass.Accounts.extractFiles (h : p.Accounts session workspace vs) (compiler : Compiler σ)
    (tree : FileTree) (files : List Path) :
    (extractFiles p compiler tree workspace files).Accounts session workspace
      (vs ++ visits session.markerCheck compiler tree p.state files) := by
  induction files generalizing p vs with
  | nil =>
    rw [visits, List.append_nil]
    exact h
  | cons path files ih =>
    obtain ⟨hadd, hstate⟩ := h.add compiler tree path
    simpa [visits, hstate, Check.extractFiles] using ih hadd

theorem path_visit (markerCheck : Bool) (compiler : Compiler σ) (tree : FileTree) (state : σ)
    (path : Path) : (visit markerCheck compiler tree state path).1.path = path := by
  unfold visit
  split
  · rfl
  · split <;> rfl

theorem paths_visits (markerCheck : Bool) (compiler : Compiler σ) (tree : FileTree) (state : σ)
    (files : List Path) :
    (visits markerCheck compiler tree state files).map (·.path) = files := by
  induction files generalizing state with
  | nil => rfl
  | cons path files ih => simp [visits, path_visit, ih]

theorem isSome_styledFile? (v : Visit) (session : Session) (workspace : Path) :
    (v.styledFile? session workspace).isSome = v.isStyled := by
  cases h : v.report? with
  | none => simp [Visit.styledFile?, Visit.isStyled, h]
  | some x =>
    by_cases hrules : x.2.rules = [] <;> simp [Visit.styledFile?, Visit.isStyled, h, hrules]

-- The counts in a summary are those of the pass, whatever is written and reported after it.
theorem counts_of_conclude {o : Options} {count : Nat} {tree : FileTree} {summary : Summary}
    (h : (conclude o workspace count tree p).result = .ok summary) :
    summary.fileCount = count ∧ summary.styledFileCount = p.styled.length ∧
      summary.failedCount = p.failed := by
  cases hresults : o.results with
  | none =>
    simp only [conclude, hresults] at h
    split at h
    · cases h
    · cases h
      exact ⟨rfl, rfl, rfl⟩
  | some path =>
    obtain ⟨_, -, rfl, -⟩ := conclude_of_ok rfl hresults h
    exact ⟨rfl, rfl, rfl⟩

theorem exists_summary_of_conclude {o : Options} (houtDir : o.outDir = none)
    (hresults : o.results = none) (count : Nat) (tree : FileTree) (p : Pass σ) :
    ∃ summary, (conclude o workspace count tree p).result = .ok summary := by
  simp [conclude, outDir?, houtDir, hresults]

-- A check visits each file of its list once and keeps account of what it finds: the styled files
-- are those on which the compiler reported a rule, in the order of the list and each with what is
-- its own, the failed ones are those that the compiler refused, and what was reported last for a
-- file is what is remembered for it, rules or not.
theorem check_accounts (o : Options) {workspace : Path} {files : List Path} {session : Session}
    {compiler : Compiler σ} {state : σ} {tree : FileTree} {vs : List Visit} {p : Pass σ}
    (hvs : vs = visits session.markerCheck compiler tree state files)
    (hp : p = extractFiles { session, state } compiler tree workspace files) :
    vs.map (·.path) = files ∧
    p.styled = vs.filterMap (·.styledFile? session workspace) ∧
    p.styled.length = vs.countP (·.isStyled) ∧
    p.failed = vs.countP (·.isFailed) ∧
    (∀ file,
      p.session.replacements? file = (latest? vs file).or (session.replacements? file)) ∧
    ∃ outcome, check o workspace files session compiler state tree = (outcome, p.session, p.state) ∧
      (∀ summary, outcome.result = .ok summary →
        summary.fileCount = files.length ∧ summary.styledFileCount = p.styled.length ∧
          summary.failedCount = p.failed) ∧
      (o.outDir = none → o.results = none → ∃ summary, outcome.result = .ok summary) := by
  have haccounts : p.Accounts session workspace vs := by
    rw [hp, hvs, ← List.nil_append (visits _ _ _ _ _)]
    exact (Pass.accounts_nil session workspace state).extractFiles compiler tree files
  have hlength : p.styled.length = vs.countP (·.isStyled) := by
    simp [haccounts.styled, List.length_filterMap_eq_countP, isSome_styledFile?]
  refine ⟨hvs ▸ paths_visits _ _ _ _ _, haccounts.styled, hlength, haccounts.failed,
    haccounts.remembered, conclude o workspace files.length tree p, by rw [check, hp], ?_, ?_⟩
  · intro summary hok
    exact counts_of_conclude hok
  · intro houtDir hresults
    exact exists_summary_of_conclude houtDir hresults _ _ _

-- A file with a marker, one without, and one that is no text.
def touredFiles : FileTree where
  root := .dir [("w", .dir [
    ("a.js", .file "const a = css`d`;".toUTF8 false),
    ("b.js", .file "const b = 1;".toUTF8 false),
    ("c.js", .file ⟨#[0xff]⟩ false)])]
  workingDir := []

-- A compiler that reports a rule at first, then fails, and then reports replacements alone.
def fading : Compiler Nat :=
  fun calls _ file =>
    (match calls with
      | 0 => .ok (some ⟨[(".a", ⟨"a", "d", some ⟨1, 14⟩, none⟩)], []⟩)
      | 1 => .error (.failed file.text "unexpected token")
      | _ => .ok (some ⟨[], [⟨⟨⟨1, 15⟩, ⟨1, 18⟩⟩, 1⟩]⟩), calls + 1)

def tour : List Path :=
  [⟨"/w/a.js"⟩, ⟨"/w/b.js"⟩, ⟨"/w/c.js"⟩, ⟨"/w/d.js"⟩, ⟨"/w/a.js"⟩, ⟨"/w/./a.js"⟩]

theorem check_accounts_tour :
    ∃ outcome session summary,
      check {} ⟨"/w"⟩ tour {} fading 0 touredFiles = (outcome, session, 3) ∧
      outcome.result = .ok summary ∧ summary.fileCount = 6 ∧ summary.styledFileCount = 1 ∧
      summary.failedCount = 1 ∧
      session.replacements? ⟨"/w/a.js"⟩ = some [⟨⟨⟨1, 15⟩, ⟨1, 18⟩⟩, 1⟩] := by
  obtain ⟨-, -, hstyled, hfailed, hmemory, outcome, hcheck, hcounts, hends⟩ :=
    @check_accounts Nat {} ⟨"/w"⟩ tour {} fading 0 touredFiles _ _ rfl rfl
  obtain ⟨summary, hok⟩ := hends rfl rfl
  obtain ⟨hfiles, hstyledCount, hfailedCount⟩ := hcounts summary hok
  have hstate : (extractFiles { session := {}, state := 0 } fading touredFiles ⟨"/w"⟩ tour).state
      = 3 := by
    decide +kernel
  refine ⟨outcome, _, summary, hstate ▸ hcheck, hok, hfiles, ?_, ?_, ?_⟩
  · rw [hstyledCount, hstyled]
    decide +kernel
  · rw [hfailedCount, hfailed]
    decide +kernel
  · rw [hmemory]
    decide +kernel

end Check

end EmbeddedStyles
