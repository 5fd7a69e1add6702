import EmbeddedStyles.Proofs.Worker.Call

namespace EmbeddedStyles.Worker

-- What makes a line useless as the reply to the request with the number.
inductive Line.Faulty (id : Nat) : Line → Prop
  | garbled : Faulty id .garbled
  | unparsable {content : String} {failure : Json.Failure}
      (hread : Reply.decoder.ofText content = .error failure) : Faulty id (.text content)
  | protocolError {content : String} {reply : Reply} {reason : String}
      (hread : Reply.decoder.ofText content = .ok reply)
      (hreason : reply.protocolError = some reason) : Faulty id (.text content)
  | missingId {content : String} {reply : Reply}
      (hread : Reply.decoder.ofText content = .ok reply) (hid : reply.id = none) :
      Faulty id (.text content)
  | wrongId {content : String} {reply : Reply} {other : Nat}
      (hread : Reply.decoder.ofText content = .ok reply) (hid : reply.id = some other)
      (hother : other ≠ id) : Faulty id (.text content)

theorem Line.Answers.not_faulty {line : Line} {id : Nat} {reply : Reply}
    (h : line.Answers id reply) : ¬ line.Faulty id := by
  obtain ⟨content, rfl, hread, hprotocol, hid⟩ := h
  intro hfaulty
  cases hfaulty with
  | unparsable hread' => simp [hread] at hread'
  | protocolError hread' hreason =>
    cases hread.symm.trans hread'
    simp [hprotocol] at hreason
  | missingId hread' hid' =>
    cases hread.symm.trans hread'
    simp [hid] at hid'
  | wrongId hread' hid' hother =>
    cases hread.symm.trans hread'
    exact hother (Option.some.inj (hid'.symm.trans hid))

theorem Line.faulty_of_not_answers {line : Line} {id : Nat}
    (h : ∀ reply, ¬ line.Answers id reply) : line.Faulty id := by
  cases line with
  | garbled => exact .garbled
  | text content =>
    cases hread : Reply.decoder.ofText content with
    | error failure => exact .unparsable hread
    | ok reply =>
      cases hprotocol : reply.protocolError with
      | some reason => exact .protocolError hread hprotocol
      | none =>
        cases hid : reply.id with
        | none => exact .missingId hread hid
        | some other =>
          by_cases hother : other = id
          · exact absurd ⟨content, rfl, hread, hprotocol, hother ▸ hid⟩ (h reply)
          · exact .wrongId hread hid hother

-- The launcher without its first attempts.
def Launcher.skip (launcher : Launcher) (attempts : Nat) : Launcher :=
  fun attempt => launcher (attempts + attempt)

namespace Client

-- All that can break between a client and its workers in one call.
inductive Breakdown (launcher : Launcher) (c : Client) (call : Call) : Prop
  | spawn {cause : FileError} (hidle : c.worker = none)
      (hlaunch : launcher c.attempts = .error cause)
  | unready {b : Behaviour} (hidle : c.worker = none) (hlaunch : launcher c.attempts = .ok b)
      (hgreeting : ∀ line unread, b.output [] = line :: unread → ¬ line.Greets)
  | write {p : Process} {attempts : Nat} {cause : FileError} (hp : AtHand launcher c p attempts)
      (hrefusal : p.behaviour.refusal p.heard = some cause)
  | exit {p : Process} {attempts : Nat} (hp : AtHand launcher c p attempts)
      (hwritten : p.behaviour.refusal p.heard = none)
      (hsilent : p.unread ++ p.behaviour.output (p.heard ++ [call.request c]) = [])
  | reply {p : Process} {attempts : Nat} {line : Line} {unread : List Line}
      (hp : AtHand launcher c p attempts) (hwritten : p.behaviour.refusal p.heard = none)
      (hline : p.unread ++ p.behaviour.output (p.heard ++ [call.request c]) = line :: unread)
      (hfaulty : line.Faulty c.nextId)

variable {launcher : Launcher} {c : Client} {call : Call}

theorem AtHand.unique {p q : Process} {attempts attempts' : Nat}
    (hp : AtHand launcher c p attempts) (hq : AtHand launcher c q attempts') : p = q := by
  have h := congrArg Prod.fst (hp.ready_eq.symm.trans hq.ready_eq)
  exact Except.ok.inj h

theorem breakdown_of_start {error : Error} (hidle : c.worker = none)
    (hstart : start launcher c.attempts = .error error) : Breakdown launcher c call := by
  cases hlaunch : launcher c.attempts with
  | error cause => exact .spawn hidle hlaunch
  | ok b =>
    refine .unready hidle hlaunch ?_
    intro line unread houtput hgreets
    have hok := (start_eq_ok_iff launcher c.attempts _).mpr
      ⟨b, line, unread, hlaunch, houtput, hgreets, rfl⟩
    rw [hok] at hstart
    cases hstart

theorem breakdown_of_answer {p : Process} {attempts : Nat} {error : Error}
    (hp : AtHand launcher c p attempts) (hwritten : p.behaviour.refusal p.heard = none)
    (hanswer : answer (heardBy p (call.request c)) c.nextId = .error error) :
    Breakdown launcher c call := by
  cases hlines : p.unread ++ p.behaviour.output (p.heard ++ [call.request c]) with
  | nil => exact .exit hp hwritten hlines
  | cons line unread =>
    refine .reply hp hwritten hlines (Line.faulty_of_not_answers ?_)
    intro reply hanswers
    have hok := (answer_eq_ok_iff (heardBy p (call.request c)) _ c.nextId reply).mpr
      ⟨line, unread, hlines, hanswers, rfl⟩
    rw [hok] at hanswer
    cases hanswer

-- A call that is answered found nothing broken.
theorem not_breakdown_of_answer {p q : Process} {attempts : Nat} {reply : Reply}
    (hp : AtHand launcher c p attempts) (hwritten : p.behaviour.refusal p.heard = none)
    (hanswer : answer (heardBy p (call.request c)) c.nextId = .ok (reply, q)) :
    ¬ Breakdown launcher c call := by
  obtain ⟨line, unread, hlines, hanswers, -⟩ := (answer_eq_ok_iff _ q _ reply).mp hanswer
  intro hbroken
  cases hbroken with
  | spawn hidle hlaunch =>
    cases hp with
    | running hworker => simp [hidle] at hworker
    | started _ hlaunch' _ _ => simp [hlaunch] at hlaunch'
  | unready hidle hlaunch hgreeting =>
    cases hp with
    | running hworker => simp [hidle] at hworker
    | started _ hlaunch' houtput hgreets =>
      cases hlaunch.symm.trans hlaunch'
      exact hgreeting _ _ houtput hgreets
  | write hp' hrefusal =>
    cases hp.unique hp'
    simp [hwritten] at hrefusal
  | exit hp' _ hsilent =>
    cases hp.unique hp'
    simp [heardBy, hsilent] at hlines
  | reply hp' _ hline hfaulty =>
    cases hp.unique hp'
    obtain ⟨rfl, -⟩ := List.cons.inj (hline.symm.trans hlines)
    exact hanswers.not_faulty hfaulty

theorem unavailable_iff_breakdown (launcher : Launcher) (c : Client) (call : Call) :
    (∃ reason, (call.make launcher c).1 = .error (.unavailable reason)) ↔
      Breakdown launcher c call := by
  have hending := ending_make launcher c call
  generalize call.make launcher c = result at hending ⊢
  cases hending with
  | unstarted hidle hstart => exact ⟨fun _ => breakdown_of_start hidle hstart, fun _ => ⟨_, rfl⟩⟩
  | unwritten hp hrefusal => exact ⟨fun _ => .write hp hrefusal, fun _ => ⟨_, rfl⟩⟩
  | unanswered hp hwritten hanswer =>
    exact ⟨fun _ => breakdown_of_answer hp hwritten hanswer, fun _ => ⟨_, rfl⟩⟩
  | answered hp hwritten hanswer =>
    constructor
    · rintro ⟨reason, h⟩
      exact absurd h (outcome_ne_unavailable _ _ reason)
    · intro hbroken
      exact absurd hbroken (not_breakdown_of_answer hp hwritten hanswer)

theorem isRunning_make_iff (launcher : Launcher) (c : Client) (call : Call) :
    (call.make launcher c).2.isRunning = false ↔
      ∃ reason, (call.make launcher c).1 = .error (.unavailable reason) := by
  have hending := ending_make launcher c call
  generalize call.make launcher c = result at hending ⊢
  cases hending with
  | unstarted hidle hstart => simp [isRunning]
  | unwritten hp hrefusal => simp [isRunning]
  | unanswered hp hwritten hanswer => simp [isRunning]
  | answered hp hwritten hanswer => simp [isRunning, outcome_ne_unavailable]

-- A worker is kept unless the call found the compiler unavailable, whatever was said of the file.
theorem worker_make_of_running (launcher : Launcher) (c : Client) (call : Call) (p : Process)
    (hworker : c.worker = some p)
    (h : ∀ reason, (call.make launcher c).1 ≠ .error (.unavailable reason)) :
    ∃ unread, (call.make launcher c).2.worker =
      some ⟨p.behaviour, p.heard ++ [call.request c], unread⟩ := by
  have hending := ending_make launcher c call
  generalize call.make launcher c = result at hending h ⊢
  cases hending with
  | unstarted hidle hstart => exact absurd rfl (h _)
  | unwritten hp hrefusal => exact absurd rfl (h _)
  | unanswered hp hwritten hanswer => exact absurd rfl (h _)
  | answered hp hwritten hanswer =>
    cases hp.unique (.running hworker)
    obtain ⟨line, unread, hunread, hanswers, rfl⟩ := (answer_eq_ok_iff _ _ _ _).mp hanswer
    exact ⟨unread, rfl⟩

-- What the calls of a run return.
def outcomes (launcher : Launcher) :
    Client → List Call → List (Except CompileError (Option Metadata))
  | _, [] => []
  | c, call :: calls =>
    (call.make launcher c).1 :: outcomes launcher (call.make launcher c).2 calls

-- The client `d`, had there been attempts and requests before.
def preceded (attempts : Nat) (sent : List Request) (d : Client) : Client :=
  { d with attempts := attempts + d.attempts, sent := sent ++ d.sent }

theorem ready_preceded (launcher : Launcher) (attempts : Nat) (sent : List Request) (d : Client) :
    (preceded attempts sent d).ready launcher =
      ((d.ready (launcher.skip attempts)).1,
        preceded attempts sent (d.ready (launcher.skip attempts)).2) := by
  cases hworker : d.worker with
  | none =>
    simp only [ready, preceded, hworker]
    rfl
  | some p => simp only [ready, preceded, hworker]

theorem ask_preceded (attempts : Nat) (sent : List Request) (d : Client) (p : Process)
    (source : String) (file : Path) :
    (preceded attempts sent d).ask p source file =
      ((d.ask p source file).1, preceded attempts sent (d.ask p source file).2) := by
  cases hheard : p.hear ⟨d.nextId, file.text, source⟩ with
  | error cause => simp only [ask, preceded, hheard]
  | ok q =>
    cases hanswer : answer q d.nextId with
    | error error => simp only [ask, preceded, hheard, hanswer, List.append_assoc]
    | ok found => simp only [ask, preceded, hheard, hanswer, List.append_assoc]

-- What came before a client makes no difference to a call.
theorem make_preceded (launcher : Launcher) (attempts : Nat) (sent : List Request) (d : Client)
    (call : Call) :
    call.make launcher (preceded attempts sent d) =
      ((call.make (launcher.skip attempts) d).1,
        preceded attempts sent (call.make (launcher.skip attempts) d).2) := by
  simp only [Call.make, compile, request, ready_preceded]
  rcases d.ready (launcher.skip attempts) with ⟨error | p, d'⟩
  · rfl
  · simp only [ask_preceded]
    rcases d'.ask p call.source call.file with ⟨error | reply, d''⟩ <;> rfl

theorem outcomes_preceded (launcher : Launcher) (attempts : Nat) (sent : List Request) (d : Client)
    (calls : List Call) :
    outcomes launcher (preceded attempts sent d) calls =
      outcomes (launcher.skip attempts) d calls := by
  induction calls generalizing d with
  | nil => rfl
  | cons call calls ih => simp only [outcomes, make_preceded, ih]

theorem run_preceded (launcher : Launcher) (attempts : Nat) (sent : List Request) (d : Client)
    (calls : List Call) :
    run launcher (preceded attempts sent d) calls =
      preceded attempts sent (run (launcher.skip attempts) d calls) := by
  induction calls generalizing d with
  | nil => rfl
  | cons call calls ih =>
    have hstep : run launcher (preceded attempts sent d) (call :: calls) =
        run launcher (call.make launcher (preceded attempts sent d)).2 calls := rfl
    rw [hstep, make_preceded, ih]
    rfl

-- A client without a worker is a new one that had something before it.
theorem preceded_of_idle (hidle : c.worker = none) :
    preceded c.attempts c.sent { nextId := c.nextId } = c := by
  cases c
  simp only at hidle
  simp [preceded, hidle]

theorem outcomes_of_idle (launcher : Launcher) (hidle : c.worker = none) (calls : List Call) :
    outcomes launcher c calls =
      outcomes (launcher.skip c.attempts) { nextId := c.nextId } calls := by
  have h := outcomes_preceded launcher c.attempts c.sent { nextId := c.nextId } calls
  rwa [preceded_of_idle hidle] at h

theorem sent_run_of_idle (launcher : Launcher) (hidle : c.worker = none) (calls : List Call) :
    (run launcher c calls).sent =
      c.sent ++ (run (launcher.skip c.attempts) { nextId := c.nextId } calls).sent := by
  have h := run_preceded launcher c.attempts c.sent { nextId := c.nextId } calls
  rw [preceded_of_idle hidle] at h
  rw [h, preceded]

-- One attempt is made to start a worker where none is running.
theorem attempts_make_of_idle (launcher : Launcher) (hidle : c.worker = none) (call : Call) :
    (call.make launcher c).2.attempts = c.attempts + 1 := by
  have hending := ending_make launcher c call
  generalize call.make launcher c = result at hending ⊢
  have hattempts : ∀ {p attempts}, AtHand launcher c p attempts → attempts = c.attempts + 1 := by
    intro p attempts hp
    cases hp with
    | running hworker => simp [hidle] at hworker
    | started => rfl
  cases hending with
  | unstarted _ _ => rfl
  | unwritten hp _ => exact hattempts hp
  | unanswered hp _ _ => exact hattempts hp
  | answered hp _ _ => exact hattempts hp

-- On a client in any state, and so after any calls: a call leaves no worker exactly when it returns
-- that the compiler is unavailable, which is exactly when something broke. A running worker is kept
-- by every other call, one that reports a failure or an invalid report included. After a call that
-- found the compiler unavailable, the next call makes one attempt to start a process, and it and
-- all that follow return and send what a new client would that has the same number to give and
-- meets the processes from that attempt on.
theorem worker_lifecycle {launcher : Launcher} {c c' : Client} {call : Call}
    {answer : Except CompileError (Option Metadata)}
    (hcall : call.make launcher c = (answer, c')) :
    (c'.isRunning = false ↔ ∃ reason, answer = .error (.unavailable reason)) ∧
    ((∃ reason, answer = .error (.unavailable reason)) ↔ Breakdown launcher c call) ∧
    (∀ p, c.worker = some p → (∀ reason, answer ≠ .error (.unavailable reason)) →
      ∃ unread, c'.worker = some ⟨p.behaviour, p.heard ++ [call.request c], unread⟩) ∧
    ((∃ reason, answer = .error (.unavailable reason)) → ∀ next calls,
      (next.make launcher c').2.attempts = c'.attempts + 1 ∧
      outcomes launcher c' (next :: calls) =
        outcomes (launcher.skip c'.attempts) { nextId := c'.nextId } (next :: calls) ∧
      (run launcher c' (next :: calls)).sent = c'.sent ++
        (run (launcher.skip c'.attempts) { nextId := c'.nextId } (next :: calls)).sent) := by
  have hrunning := isRunning_make_iff launcher c call
  have hbroken := unavailable_iff_breakdown launcher c call
  have hkept := worker_make_of_running launcher c call
  rw [hcall] at hrunning hbroken hkept
  refine ⟨hrunning, hbroken, hkept, ?_⟩
  intro hunavailable next calls
  have hidle : c'.worker = none := by simpa [isRunning] using hrunning.mpr hunavailable
  exact ⟨attempts_make_of_idle launcher hidle next, outcomes_of_idle launcher hidle _,
    sent_run_of_idle launcher hidle _⟩

-- A process that reports a failure for the first request it hears and ends at the second.
def failingOnce : Playlist where
  ready := some (.text "\x7b\"ready\":true\x7d")
  replies := [.text "\x7b\"id\":$ID,\"error\":\"no\"\x7d"]
  exit := ⟨1, "out"⟩

def failing : Launcher := fun _ => .ok failingOnce.behaviour

def bFile : Call := ⟨"css`e`", ⟨"b.js"⟩⟩

-- The first call keeps the worker, the second loses it, and the third meets a new one.
theorem worker_lifecycle_failing :
    ∃ c c', run failing {} [bFile] = c ∧ c.isRunning = true ∧
      bFile.make failing c = (.error (.unavailable "node exited with code 1: out"), c') ∧
      c'.isRunning = false ∧ Breakdown failing c bFile ∧
      outcomes failing c' [bFile] = outcomes (failing.skip c'.attempts) { nextId := 3 } [bFile] ∧
      outcomes failing c' [bFile] = [.error (.failed "b.js" "no")] := by
  obtain ⟨c, hc⟩ : ∃ c, run failing {} [bFile] = c := ⟨_, rfl⟩
  obtain ⟨answer, c', hcall⟩ : ∃ answer c', bFile.make failing c = (answer, c') := ⟨_, _, rfl⟩
  have hrunning : c.isRunning = true := by rw [← hc]; decide +kernel
  have hanswer : (bFile.make failing c).1 =
      .error (.unavailable "node exited with code 1: out") := by rw [← hc]; decide +kernel
  have hnext : (bFile.make failing c).2.nextId = 3 := by rw [← hc]; decide +kernel
  have hthird : outcomes failing (bFile.make failing c).2 [bFile] =
      [.error (.failed "b.js" "no")] := by rw [← hc]; decide +kernel
  rw [hcall] at hanswer hnext hthird
  cases hanswer
  obtain ⟨hidle, hbroken, -, hlater⟩ := worker_lifecycle hcall
  obtain ⟨-, houtcomes, -⟩ := hlater ⟨_, rfl⟩ bFile []
  rw [hnext] at houtcomes
  exact ⟨c, c', hc, hrunning, hcall, hidle.mpr ⟨_, rfl⟩, hbroken.mp ⟨_, rfl⟩, houtcomes, hthird⟩

end Client

end EmbeddedStyles.Worker
