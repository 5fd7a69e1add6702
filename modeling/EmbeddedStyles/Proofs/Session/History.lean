import EmbeddedStyles.Proofs.Session.Extraction
import Mathlib.Data.List.Induction

namespace EmbeddedStyles.Session

open Source (Replacements)

-- The calls on a session. Warnings may be of any type that has positions.
inductive Action (ω : Type) where
  | extract (source : String) (file : Path)
  | correctResult (file : Path) (result : Lint.Result)
  | correct (file : Path) (warnings : List ω)
  | lookup (file : Path)
  | forget (file : Path)
  | clear

inductive Answer (ω : Type) where
  | extraction (extraction : Extraction)
  | result (corrected : Option Lint.Result)
  | warnings (corrected : Option (List ω))
  | replacements (found : Option Replacements)
  | none

-- A session between two calls, and the state its compiler is in.
structure Moment (σ : Type) where
  session : Session
  state : σ

variable {σ ω : Type} [Located ω]

def act (compiler : Compiler σ) (now : Moment σ) : Action ω → Answer ω × Moment σ
  | .extract source file =>
    let (extraction, session, state) := now.session.extract compiler now.state source file
    (.extraction extraction, ⟨session, state⟩)
  | .correctResult file result => (.result (now.session.correctResult? file result), now)
  | .correct file warnings => (.warnings (now.session.correct? file warnings), now)
  | .lookup file => (.replacements (now.session.replacements? file), now)
  | .forget file =>
    (.replacements (now.session.replacements? file),
      { now with session := now.session.forget file })
  | .clear => (.none, { now with session := now.session.clear })

def run (compiler : Compiler σ) (now : Moment σ) (actions : List (Action ω)) : Moment σ :=
  actions.foldl (fun now action => (act compiler now action).2) now

theorem run_concat (compiler : Compiler σ) (now : Moment σ) (actions : List (Action ω))
    (action : Action ω) :
    run compiler now (actions ++ [action]) =
      (act compiler (run compiler now actions) action).2 := by
  simp [run]

-- The call extracts styles from the file and the compiler's report has these replacements.
def Reports (compiler : Compiler σ) (now : Moment σ) (action : Action ω) (file : Path)
    (rs : Replacements) : Prop :=
  ∃ source spelling css ruleCount replacementCount m,
    action = .extract source spelling ∧ spelling.same file = true ∧
    (act compiler now action).1 = .extraction (.styles css ruleCount replacementCount) ∧
    (compiler now.state source spelling).1 = .ok (some m) ∧ m.replacements = rs

-- The call takes the file out of the memory.
def Erases (action : Action ω) (file : Path) : Prop :=
  action = .clear ∨ ∃ spelling, action = .forget spelling ∧ spelling.same file = true

-- The call decides what is remembered for the file, whatever was before.
def Decides (compiler : Compiler σ) (now : Moment σ) (action : Action ω) (file : Path) : Prop :=
  Erases action file ∨ ∃ rs, Reports compiler now action file rs

section Step

variable {compiler : Compiler σ} {now : Moment σ} {action : Action ω} {file : Path}
  {rs : Replacements}

theorem replacements?_act_of_reports (h : Reports compiler now action file rs) :
    (act compiler now action).2.session.replacements? file = some rs := by
  obtain ⟨source, spelling, css, rules, count, m, rfl, hsame, hstyles, hanswer, rfl⟩ := h
  rcases now.session.extract_cases compiler now.state source spelling with
    ⟨m', hasks, -⟩ | ⟨hkind, -⟩
  · simp [act, extract_of_report hasks hanswer, replacements?_remember, hsame]
  · simp only [act, Answer.extraction.injEq] at hstyles
    rw [hstyles] at hkind
    cases hkind

theorem replacements?_act_of_erases (h : Erases action file) :
    (act compiler now action).2.session.replacements? file = none := by
  rcases h with rfl | ⟨spelling, rfl, hsame⟩
  · rfl
  · simp [act, replacements?_forget, hsame]

-- An extraction of another file, or without a report, leaves the entry as it was, and so does
-- every call that only looks.
theorem replacements?_act_of_not_decides (h : ¬ Decides compiler now action file) :
    (act compiler now action).2.session.replacements? file = now.session.replacements? file := by
  cases action with
  | extract source spelling =>
    rcases now.session.extract_cases compiler now.state source spelling with
      ⟨m, hasks, hanswer⟩ | ⟨-, hsession⟩
    · have hother : ¬ spelling.same file = true := by
        intro hsame
        have hstyles := extract_of_report hasks hanswer
        exact h (.inr ⟨m.replacements, source, spelling, now.session.stylesheet m, m.rules.length,
          m.replacements.length, m, rfl, hsame, by rw [act, hstyles], hanswer, rfl⟩)
      simp [act, extract_of_report hasks hanswer, replacements?_remember, hother]
    · simp [act, hsession]
  | correctResult file result => rfl
  | correct file warnings => rfl
  | lookup file => rfl
  | forget spelling =>
    have hother : ¬ spelling.same file = true := fun hsame => h (.inl (.inr ⟨spelling, rfl, hsame⟩))
    simp [act, replacements?_forget, hother]
  | clear => exact absurd (.inl (.inl rfl)) h

theorem replacements?_act_eq_some_iff :
    (act compiler now action).2.session.replacements? file = some rs ↔
      Reports compiler now action file rs ∨
        now.session.replacements? file = some rs ∧ ¬ Decides compiler now action file := by
  constructor
  · intro h
    by_cases hdecides : Decides compiler now action file
    · rcases hdecides with herases | ⟨rs', hreports⟩
      · rw [replacements?_act_of_erases herases] at h
        cases h
      · rw [replacements?_act_of_reports hreports] at h
        cases h
        exact .inl hreports
    · rw [replacements?_act_of_not_decides hdecides] at h
      exact .inr ⟨h, hdecides⟩
  · rintro (hreports | ⟨h, hdecides⟩)
    · exact replacements?_act_of_reports hreports
    · rw [replacements?_act_of_not_decides hdecides, h]

end Step

-- What is remembered after a run is what some call of it reported that no later call decided anew.
-- The induction is on the last call: it reports, or the call found before it still counts.
theorem replacements?_run_eq_some_iff (compiler : Compiler σ) {start : Moment σ}
    (hstart : start.session.memory = []) (actions : List (Action ω)) (file : Path)
    (rs : Replacements) :
    (run compiler start actions).session.replacements? file = some rs ↔
      ∃ earlier action later, actions = earlier ++ action :: later ∧
        Reports compiler (run compiler start earlier) action file rs ∧
        ∀ between next rest, later = between ++ next :: rest →
          ¬ Decides compiler (run compiler start (earlier ++ action :: between)) next file := by
  induction actions using List.reverseRecOn with
  | nil => simp [run, replacements?, hstart]
  | append_singleton actions last ih =>
    rw [run_concat, replacements?_act_eq_some_iff, ih]
    constructor
    · rintro (hreports | ⟨⟨earlier, action, later, rfl, hreports, hlater⟩, hlast⟩)
      · exact ⟨actions, last, [], rfl, hreports, by simp⟩
      · refine ⟨earlier, action, later ++ [last], by simp, hreports, ?_⟩
        intro between next rest hsplit
        cases rest using List.reverseRecOn with
        | nil =>
          obtain ⟨rfl, hnext⟩ := List.append_inj' hsplit rfl
          cases hnext
          exact hlast
        | append_singleton rest last' =>
          rw [← List.cons_append, ← List.append_assoc] at hsplit
          exact hlater between next rest (List.append_inj' hsplit rfl).1
    · rintro ⟨earlier, action, later, hsplit, hreports, hlater⟩
      cases later using List.reverseRecOn with
      | nil =>
        obtain ⟨rfl, hlast⟩ := List.append_inj' hsplit rfl
        cases hlast
        exact .inl hreports
      | append_singleton later last' =>
        rw [← List.cons_append, ← List.append_assoc] at hsplit
        obtain ⟨rfl, hlast⟩ := List.append_inj' hsplit rfl
        cases hlast
        refine .inr ⟨⟨earlier, action, later, rfl, hreports, ?_⟩, hlater later last [] rfl⟩
        intro between next rest hbetween
        exact hlater between next (rest ++ [last]) (by simp [hbetween])

-- Whether a call asks the compiler, in a session that passes over files without a marker or not.
def Action.asks (markerCheck : Bool) : Action ω → Bool
  | .extract source _ => !markerCheck || Marker.hasMarker source
  | _ => false

-- Counting the compiler's calls changes nothing else, and a step adds its own call.
theorem act_counted (compiler : Compiler σ) (session : Session) (state : σ) (calls : Nat)
    (action : Action ω) :
    (act compiler.counted ⟨session, state, calls⟩ action).2 =
      ⟨(act compiler ⟨session, state⟩ action).2.session,
        (act compiler ⟨session, state⟩ action).2.state,
        calls + if action.asks session.markerCheck then 1 else 0⟩ := by
  cases action with
  | extract source file =>
    by_cases hasks : session.asks source = true
    · have hasks' : (Action.extract source file : Action ω).asks session.markerCheck = true := hasks
      simp [act, extract, hasks, hasks', Compiler.counted]
    · have hasks' : ¬ (Action.extract source file : Action ω).asks session.markerCheck = true :=
        hasks
      simp [act, extract, hasks, hasks']
  | correctResult file result => rfl
  | correct file warnings => rfl
  | lookup file => rfl
  | forget file => rfl
  | clear => rfl

theorem markerCheck_act (compiler : Compiler σ) (now : Moment σ) (action : Action ω) :
    (act compiler now action).2.session.markerCheck = now.session.markerCheck := by
  cases action with
  | extract source file =>
    rcases now.session.extract_cases compiler now.state source file with
      ⟨m, hasks, hanswer⟩ | ⟨-, hsession⟩
    · rw [act, extract_of_report hasks hanswer]
      rfl
    · simp [act, hsession]
  | correctResult file result => rfl
  | correct file warnings => rfl
  | lookup file => rfl
  | forget file => rfl
  | clear => rfl

theorem run_counted (compiler : Compiler σ) (session : Session) (state : σ) (calls : Nat)
    (actions : List (Action ω)) :
    run compiler.counted ⟨session, state, calls⟩ actions =
      ⟨(run compiler ⟨session, state⟩ actions).session,
        (run compiler ⟨session, state⟩ actions).state,
        calls + actions.countP (Action.asks session.markerCheck)⟩ := by
  induction actions generalizing session state calls with
  | nil => rfl
  | cons action actions ih =>
    have hrun : run compiler.counted ⟨session, state, calls⟩ (action :: actions) =
        run compiler.counted (act compiler.counted ⟨session, state, calls⟩ action).2 actions := rfl
    rw [hrun, act_counted, ih, markerCheck_act, List.countP_cons, Nat.add_right_comm, Nat.add_assoc]
    rfl

-- An extraction that ends without styles, or a call that only looks.
def Passive (compiler : Compiler σ) (now : Moment σ) : Action ω → Prop
  | .extract source file =>
    (now.session.extract compiler now.state source file).1.isStyles = false
  | .correctResult _ _ | .correct _ _ | .lookup _ => True
  | .forget _ | .clear => False

theorem session_act_of_passive {compiler : Compiler σ} {now : Moment σ} {action : Action ω}
    (h : Passive compiler now action) : (act compiler now action).2.session = now.session := by
  cases action with
  | extract source file =>
    rcases now.session.extract_cases compiler now.state source file with
      ⟨m, hasks, hanswer⟩ | ⟨-, hsession⟩
    · rw [Passive, extract_of_report hasks hanswer] at h
      cases h
    · exact hsession
  | correctResult file result => rfl
  | correct file warnings => rfl
  | lookup file => rfl
  | forget file => exact h.elim
  | clear => exact h.elim

-- A session that was just made.
def fresh (ruleOrder : RuleOrder) (markerCheck : Bool) (state : σ) : Moment σ :=
  ⟨{ ruleOrder, markerCheck }, state⟩

-- After any run of calls on a new session, a file has the replacements reported by the last
-- extraction of its styles, if it was not forgotten since; no other kind of call changes the
-- memory; and the compiler was asked once for each extraction from a source with a marker, or for
-- each extraction at all if markers do not matter.
theorem memory_run (ruleOrder : RuleOrder) (markerCheck : Bool) (compiler : Compiler σ) (state : σ)
    (actions : List (Action ω)) :
    (∀ file rs,
      (run compiler (fresh ruleOrder markerCheck state) actions).session.replacements? file =
          some rs ↔
      ∃ earlier action later, actions = earlier ++ action :: later ∧
        Reports compiler (run compiler (fresh ruleOrder markerCheck state) earlier) action file rs ∧
        ∀ between next rest, later = between ++ next :: rest →
          ¬ Decides compiler
            (run compiler (fresh ruleOrder markerCheck state) (earlier ++ action :: between))
            next file) ∧
    (∀ earlier action later, actions = earlier ++ action :: later →
      Passive compiler (run compiler (fresh ruleOrder markerCheck state) earlier) action →
        (run compiler (fresh ruleOrder markerCheck state) (earlier ++ [action])).session =
          (run compiler (fresh ruleOrder markerCheck state) earlier).session) ∧
    run compiler.counted (fresh ruleOrder markerCheck (state, 0)) actions =
      ⟨(run compiler (fresh ruleOrder markerCheck state) actions).session,
        (run compiler (fresh ruleOrder markerCheck state) actions).state,
        actions.countP (Action.asks markerCheck)⟩ := by
  refine ⟨fun file rs => replacements?_run_eq_some_iff compiler rfl actions file rs, ?_, ?_⟩
  · intro earlier action later _ hpassive
    rw [run_concat, session_act_of_passive hpassive]
  · rw [fresh, run_counted, Nat.zero_add]
    rfl

-- A file whose styles are extracted twice, under two spellings, among calls that decide nothing.
def twice : List (Action Source.Position) :=
  [.extract "css`d`" ⟨"x/a.js"⟩, .correct ⟨"x/a.js"⟩ [⟨1, 1⟩], .extract "plain" ⟨"x/a.js"⟩,
    .extract "css`d`" ⟨"x//a.js"⟩, .forget ⟨"x/b.js"⟩]

-- A compiler whose reports differ from call to call.
def numbering : Compiler UInt32 :=
  fun calls _ _ => (.ok (some ⟨[], [⟨⟨⟨1, calls⟩, ⟨1, calls⟩⟩, 1⟩]⟩), calls + 1)

theorem memory_run_twice :
    (∃ earlier action later, twice = earlier ++ action :: later ∧
      Reports numbering (run numbering (fresh .source true 0) earlier) action ⟨"x/a.js"⟩
        [⟨⟨⟨1, 1⟩, ⟨1, 1⟩⟩, 1⟩]) ∧
      (run numbering.counted (fresh .source true (0, 0)) twice).state.2 = 2 := by
  obtain ⟨hmemory, -, hcalls⟩ := memory_run .source true numbering 0 twice
  constructor
  · obtain ⟨earlier, action, later, hsplit, hreports, -⟩ :=
      (hmemory ⟨"x/a.js"⟩ [⟨⟨⟨1, 1⟩, ⟨1, 1⟩⟩, 1⟩]).mp (by decide +kernel)
    exact ⟨earlier, action, later, hsplit, hreports⟩
  · rw [hcalls]
    decide +kernel

end EmbeddedStyles.Session
