import EmbeddedStyles.Proofs.Json.Reading
import EmbeddedStyles.Worker.Client

namespace EmbeddedStyles.Worker

-- The line says that the process is ready.
def Line.Greets (line : Line) : Prop :=
  ∃ text, line = .text text ∧ Ready.decoder.ofText text = .ok ⟨true⟩

-- The line is a reply to the request with the number.
def Line.Answers (line : Line) (id : Nat) (reply : Reply) : Prop :=
  ∃ text, line = .text text ∧ Reply.decoder.ofText text = .ok reply ∧
    reply.protocolError = none ∧ reply.id = some id

namespace Client

theorem nextLine_eq_ok_iff (p p' : Process) (text : String) :
    nextLine p = .ok (text, p') ↔
      ∃ unread, p.unread = .text text :: unread ∧ p' = { p with unread } := by
  rcases p with ⟨b, heard, lines⟩
  rcases lines with _ | ⟨line, lines⟩
  · simp [nextLine, Process.read]
  · cases line with
    | text line => simp [nextLine, Process.read, and_assoc, eq_comm]
    | garbled => simp [nextLine, Process.read]

theorem readReply_eq_ok_iff (id : Nat) (text : String) (reply : Reply) :
    readReply id text = .ok reply ↔ (Line.text text).Answers id reply := by
  cases hread : Reply.decoder.ofText text with
  | error failure => simp [readReply, Line.Answers, hread]
  | ok found =>
    rcases hprotocol : found.protocolError with _ | reason
    · rcases hid : found.id with _ | other
      · simp only [readReply, Line.Answers, hread, hprotocol, hid]
        grind
      · by_cases hother : other = id <;> simp only [readReply, Line.Answers, hread, hprotocol, hid]
          <;> grind
    · simp only [readReply, Line.Answers, hread, hprotocol]
      grind

theorem answer_eq_ok_iff (p p' : Process) (id : Nat) (reply : Reply) :
    answer p id = .ok (reply, p') ↔
      ∃ line unread, p.unread = line :: unread ∧ line.Answers id reply ∧
        p' = { p with unread } := by
  constructor
  · intro h
    obtain ⟨⟨text, q⟩, hline, h⟩ := bind_eq_ok_iff.mp h
    obtain ⟨found, hreply, h⟩ := bind_eq_ok_iff.mp h
    obtain ⟨unread, hunread, hq⟩ := (nextLine_eq_ok_iff p q text).mp hline
    cases h
    exact ⟨_, unread, hunread, (readReply_eq_ok_iff id text reply).mp hreply, hq⟩
  · rintro ⟨line, unread, hunread, ⟨text, rfl, hanswers⟩, rfl⟩
    have hline := (nextLine_eq_ok_iff p _ text).mpr ⟨unread, hunread, rfl⟩
    have hreply := (readReply_eq_ok_iff id text reply).mpr ⟨text, rfl, hanswers⟩
    simp [answer, hline, hreply]

theorem greet_eq_ok_iff (p p' : Process) :
    greet p = .ok p' ↔
      ∃ line unread, p.unread = line :: unread ∧ line.Greets ∧ p' = { p with unread } := by
  constructor
  · intro h
    obtain ⟨⟨text, q⟩, hline, h⟩ := bind_eq_ok_iff.mp h
    obtain ⟨unread, hunread, hq⟩ := (nextLine_eq_ok_iff p q text).mp hline
    cases hread : Ready.decoder.ofText text with
    | error failure => simp [hread] at h
    | ok found =>
      obtain ⟨ready⟩ := found
      cases ready with
      | false => simp [hread] at h
      | true =>
        simp only [hread, if_true, Except.ok.injEq] at h
        exact ⟨_, unread, hunread, ⟨text, rfl, hread⟩, h ▸ hq⟩
  · rintro ⟨line, unread, hunread, ⟨text, rfl, hread⟩, rfl⟩
    have hline := (nextLine_eq_ok_iff p _ text).mpr ⟨unread, hunread, rfl⟩
    simp [greet, hline, hread]

theorem start_eq_ok_iff (launcher : Launcher) (attempt : Nat) (p : Process) :
    start launcher attempt = .ok p ↔
      ∃ b line unread, launcher attempt = .ok b ∧ b.output [] = line :: unread ∧ line.Greets ∧
        p = ⟨b, [], unread⟩ := by
  cases hlaunch : launcher attempt with
  | error cause => simp [start, hlaunch]
  | ok b => simp [start, hlaunch, greet_eq_ok_iff, Process.start]

-- A file to be compiled, with its text.
structure Call where
  source : String
  file : Path

def Call.make (launcher : Launcher) (c : Client) (call : Call) :
    Except CompileError (Option Metadata) × Client :=
  compile launcher c call.source call.file

-- The request that the call makes on a client.
def Call.request (call : Call) (c : Client) : Request :=
  ⟨c.nextId, call.file.text, call.source⟩

-- A process after it has heard a request.
def heardBy (p : Process) (r : Request) : Process :=
  ⟨p.behaviour, p.heard ++ [r], p.unread ++ p.behaviour.output (p.heard ++ [r])⟩

-- The process that a request goes to, with the number of attempts to start one by then: the worker
-- that is running, or a new one that has said it is ready.
inductive AtHand (launcher : Launcher) (c : Client) : Process → Nat → Prop
  | running {p : Process} (hworker : c.worker = some p) : AtHand launcher c p c.attempts
  | started {b : Behaviour} {line : Line} {unread : List Line} (hidle : c.worker = none)
      (hlaunch : launcher c.attempts = .ok b) (houtput : b.output [] = line :: unread)
      (hgreets : line.Greets) : AtHand launcher c ⟨b, [], unread⟩ (c.attempts + 1)

theorem AtHand.ready_eq {launcher : Launcher} {c : Client} {p : Process} {attempts : Nat}
    (h : AtHand launcher c p attempts) : c.ready launcher = (.ok p, { c with attempts }) := by
  cases h with
  | running hworker =>
    cases c
    cases hworker
    rfl
  | started hidle hlaunch houtput hgreets =>
    have hstart := (start_eq_ok_iff launcher c.attempts _).mpr
      ⟨_, _, _, hlaunch, houtput, hgreets, rfl⟩
    simp only [ready, hidle, hstart]

-- How a call can end, with what it returns and the client it leaves.
inductive Ending (launcher : Launcher) (c : Client) (call : Call) :
    Except CompileError (Option Metadata) × Client → Prop
  | unstarted {error : Error} (hidle : c.worker = none)
      (hstart : start launcher c.attempts = .error error) :
      Ending launcher c call
        (.error (.unavailable error.message), { c with attempts := c.attempts + 1, worker := none })
  | unwritten {p : Process} {attempts : Nat} {cause : FileError}
      (hp : AtHand launcher c p attempts) (hrefusal : p.behaviour.refusal p.heard = some cause) :
      Ending launcher c call
        (.error (.unavailable
          (Error.protocol ("failed to write to node stdin: " ++ cause.message)).message),
          { c with nextId := c.nextId + 1, attempts, worker := none })
  | unanswered {p : Process} {attempts : Nat} {error : Error} (hp : AtHand launcher c p attempts)
      (hwritten : p.behaviour.refusal p.heard = none)
      (hanswer : answer (heardBy p (call.request c)) c.nextId = .error error) :
      Ending launcher c call
        (.error (.unavailable error.message),
          ⟨c.nextId + 1, attempts, none, c.sent ++ [call.request c]⟩)
  | answered {p q : Process} {attempts : Nat} {reply : Reply} (hp : AtHand launcher c p attempts)
      (hwritten : p.behaviour.refusal p.heard = none)
      (hanswer : answer (heardBy p (call.request c)) c.nextId = .ok (reply, q)) :
      Ending launcher c call
        (outcome call.file reply,
          ⟨c.nextId + 1, attempts, some q, c.sent ++ [call.request c]⟩)

theorem AtHand.make_of_answer {launcher : Launcher} {c : Client} {p q : Process} {attempts : Nat}
    {call : Call} {reply : Reply} (hp : AtHand launcher c p attempts)
    (hwritten : p.behaviour.refusal p.heard = none)
    (hanswer : answer (heardBy p (call.request c)) c.nextId = .ok (reply, q)) :
    call.make launcher c = (outcome call.file reply,
      ⟨c.nextId + 1, attempts, some q, c.sent ++ [call.request c]⟩) := by
  simp only [heardBy, Call.request] at hanswer
  simp only [Call.make, compile, request, hp.ready_eq, ask, Process.hear, hwritten, hanswer,
    Call.request]

theorem AtHand.ending {launcher : Launcher} {c : Client} {p : Process} {attempts : Nat}
    (hp : AtHand launcher c p attempts) (call : Call) :
    Ending launcher c call (call.make launcher c) := by
  cases hrefusal : p.behaviour.refusal p.heard with
  | some cause =>
    simp only [Call.make, compile, request, hp.ready_eq, ask, Process.hear, hrefusal]
    exact .unwritten hp hrefusal
  | none =>
    cases hanswer : answer (heardBy p (call.request c)) c.nextId with
    | error error =>
      have h := Ending.unanswered hp hrefusal hanswer
      simp only [heardBy, Call.request] at hanswer h
      simpa only [Call.make, compile, request, hp.ready_eq, ask, Process.hear, hrefusal, hanswer]
        using h
    | ok found =>
      rw [hp.make_of_answer hrefusal hanswer]
      exact .answered hp hrefusal hanswer

theorem ending_make (launcher : Launcher) (c : Client) (call : Call) :
    Ending launcher c call (call.make launcher c) := by
  cases hworker : c.worker with
  | some p => exact (AtHand.running hworker).ending call
  | none =>
    cases hstart : start launcher c.attempts with
    | error error =>
      have h : Ending launcher c call _ := .unstarted hworker hstart
      simpa only [Call.make, compile, request, ready, hworker, hstart] using h
    | ok p =>
      obtain ⟨b, line, unread, hlaunch, houtput, hgreets, rfl⟩ :=
        (start_eq_ok_iff launcher c.attempts p).mp hstart
      exact (AtHand.started hworker hlaunch houtput hgreets).ending call

-- An error in the reply is an error of the file whatever else the reply holds, a report that is
-- missing or null means that the file has no styles, and any other report is read.
theorem outcome_cases (file : Path) (reply : Reply) :
    (∃ message, reply.error = some message ∧
      outcome file reply = .error (.failed file.text message)) ∨
    (reply.error = none ∧ (reply.metadata = none ∨ reply.metadata = some .null) ∧
      outcome file reply = .ok none) ∨
    ∃ json, reply.error = none ∧ reply.metadata = some json ∧ json ≠ .null ∧
      outcome file reply = do return some (← Metadata.ofJson json) := by
  unfold outcome
  split
  next _ message herror => exact .inl ⟨message, herror, rfl⟩
  next herror hmetadata => exact .inr (.inl ⟨herror, .inl hmetadata, rfl⟩)
  next herror hmetadata => exact .inr (.inl ⟨herror, .inr hmetadata, rfl⟩)
  next json hnull herror hmetadata =>
    exact .inr (.inr ⟨json, herror, hmetadata, hnull, rfl⟩)

-- What a reply says about a file never makes the compiler unavailable.
theorem outcome_ne_unavailable (file : Path) (reply : Reply) (reason : String) :
    outcome file reply ≠ .error (.unavailable reason) := by
  intro h
  obtain ⟨message, -, houtcome⟩ | ⟨-, -, houtcome⟩ | ⟨json, -, -, -, houtcome⟩ :=
    outcome_cases file reply
  · cases houtcome.symm.trans h
  · cases houtcome.symm.trans h
  · rw [houtcome, Metadata.ofJson] at h
    cases hread : Metadata.decoder.value json.sorted <;> simp [hread] at h

-- The client after a run of calls.
def run (launcher : Launcher) (c : Client) (calls : List Call) : Client :=
  calls.foldl (fun c call => (call.make launcher c).2) c

-- What every call keeps, a run keeps.
theorem run_keeps {launcher : Launcher} {P : Client → Prop}
    (hstep : ∀ c (call : Call), P c → P (call.make launcher c).2) {c : Client} (hc : P c)
    (calls : List Call) : P (run launcher c calls) := by
  induction calls generalizing c with
  | nil => exact hc
  | cons call calls ih => exact ih (hstep c call hc)

end Client

end EmbeddedStyles.Worker
