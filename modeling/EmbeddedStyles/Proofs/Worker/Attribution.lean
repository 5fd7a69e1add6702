import EmbeddedStyles.Proofs.Worker.Call

namespace EmbeddedStyles.Worker

-- The number of the request that a line answers, if it carries one.
def Line.id? : Line → Option Nat
  | .text content =>
    match Reply.decoder.ofText content with
    | .ok reply => reply.id
    | .error _ => none
  | .garbled => none

theorem Line.Answers.id?_eq {line : Line} {id : Nat} {reply : Reply}
    (h : line.Answers id reply) : line.id? = some id := by
  obtain ⟨text, rfl, hread, -, hid⟩ := h
  simp only [id?, hread, hid]

-- The lines that a process prints on hearing requests, without the one that says it is ready.
def Behaviour.replies (b : Behaviour) (heard : List Request) : List Line :=
  if heard = [] then (b.output []).tail else b.output heard

-- Lines carry no numbers but those of requests that the process has heard. It may print any number
-- of lines for a request and some of them late, but none before it knows the request.
def Behaviour.Candid (b : Behaviour) : Prop :=
  ∀ heard, ∀ line ∈ b.replies heard, ∀ id, line.id? = some id → id ∈ heard.map Request.id

-- The same of the lines of a process that are still to be read.
def Process.Candid (p : Process) : Prop :=
  ∀ line ∈ p.unread, ∀ id, line.id? = some id → id ∈ p.heard.map Request.id

namespace Client

section Processes

variable {launcher : Launcher} {c : Client} {p q : Process} {attempts : Nat}

theorem AtHand.candid (hp : AtHand launcher c p attempts)
    (hlaunched : ∀ attempt b, launcher attempt = .ok b → b.Candid)
    (hworker : ∀ p, c.worker = some p → p.Candid) : p.Candid := by
  cases hp with
  | running h => exact hworker p h
  | started hidle hlaunch houtput hgreets =>
    intro line hline
    exact hlaunched _ _ hlaunch [] line (by simpa [Behaviour.replies, houtput] using hline)

theorem candid_heardBy (hp : p.Candid) (hb : p.behaviour.Candid) (r : Request) :
    (heardBy p r).Candid := by
  intro line hline id hid
  rcases List.mem_append.mp hline with hold | hnew
  · have hmem := hp line hold id hid
    simp only [heardBy, List.map_append, List.mem_append]
    exact .inl hmem
  · exact hb (p.heard ++ [r]) line (by simpa [Behaviour.replies] using hnew) id hid

theorem candid_of_answer {id : Nat} {reply : Reply} (hp : p.Candid)
    (hanswer : answer p id = .ok (reply, q)) : q.Candid := by
  obtain ⟨line, unread, hunread, -, rfl⟩ := (answer_eq_ok_iff p q id reply).mp hanswer
  intro line' hline
  exact hp line' (hunread ▸ List.mem_cons_of_mem line hline)

-- What is unread when a request is sent is refused, so the reply is the first line that the process
-- prints on hearing the request.
theorem output_of_answer {r : Request} {reply : Reply} (hp : p.Candid)
    (hr : r.id ∉ p.heard.map Request.id)
    (hanswer : answer (heardBy p r) r.id = .ok (reply, q)) :
    ∃ line unread, p.behaviour.output (p.heard ++ [r]) = line :: unread ∧
      line.Answers r.id reply ∧ q = ⟨p.behaviour, p.heard ++ [r], unread⟩ := by
  obtain ⟨line, unread, hunread, hanswers, rfl⟩ := (answer_eq_ok_iff _ q r.id reply).mp hanswer
  cases hold : p.unread with
  | nil =>
    simp only [heardBy, hold, List.nil_append] at hunread
    exact ⟨line, unread, hunread, hanswers, rfl⟩
  | cons first rest =>
    simp only [heardBy, hold, List.cons_append, List.cons.injEq] at hunread
    have hmem := hp first (by simp [hold]) r.id (hunread.1 ▸ hanswers.id?_eq)
    exact absurd hmem hr

end Processes

-- What is known of a client after any calls, as long as requests can be written.
structure Sound (launcher : Launcher) (c : Client) : Prop where
  nextId : c.nextId = c.sent.length + 1
  ids : c.sent.map Request.id = List.range' 1 c.sent.length
  started : ∀ p, c.worker = some p → ∃ attempt, launcher attempt = .ok p.behaviour
  heard : ∀ p, c.worker = some p → p.heard ⊆ c.sent

theorem sound_new (launcher : Launcher) : Sound launcher {} where
  nextId := rfl
  ids := rfl
  started := by simp
  heard := by simp

namespace Sound

variable {launcher : Launcher} {c : Client} {p : Process} {attempts : Nat}

theorem notMem_heard (h : Sound launcher c) (hheard : p.heard ⊆ c.sent) :
    c.nextId ∉ p.heard.map Request.id := by
  intro hmem
  have hsent : c.nextId ∈ c.sent.map Request.id := List.map_subset _ hheard hmem
  rw [h.ids, List.mem_range'_1, h.nextId] at hsent
  omega

theorem atHand (h : Sound launcher c) (hp : AtHand launcher c p attempts) :
    (∃ attempt, launcher attempt = .ok p.behaviour) ∧ p.heard ⊆ c.sent := by
  cases hp with
  | running hworker => exact ⟨h.started p hworker, h.heard p hworker⟩
  | started hidle hlaunch houtput hgreets => exact ⟨⟨_, hlaunch⟩, by simp⟩

theorem ids_concat (h : Sound launcher c) (call : Call) :
    (c.sent ++ [call.request c]).map Request.id =
      List.range' 1 (c.sent ++ [call.request c]).length := by
  simp [h.ids, Call.request, h.nextId, List.range'_concat, Nat.add_comm]

-- A call on a sound client leaves a sound client. It numbers at most one request, and the worker it
-- leaves has heard that one and those it had heard before.
theorem make (h : Sound launcher c)
    (hwrites : ∀ attempt b, launcher attempt = .ok b → ∀ heard, b.refusal heard = none)
    (call : Call) : Sound launcher (call.make launcher c).2 := by
  have hending := ending_make launcher c call
  generalize call.make launcher c = result at hending ⊢
  cases hending with
  | unstarted hidle hstart => exact ⟨h.nextId, h.ids, by simp, by simp⟩
  | unwritten hp hrefusal =>
    obtain ⟨⟨attempt, hlaunch⟩, -⟩ := h.atHand hp
    rw [hwrites attempt _ hlaunch] at hrefusal
    cases hrefusal
  | unanswered hp hwritten hanswer =>
    exact ⟨by simp [h.nextId], h.ids_concat call, by simp, by simp⟩
  | answered hp hwritten hanswer =>
    obtain ⟨hlaunched, hheard⟩ := h.atHand hp
    obtain ⟨line, unread, hunread, -, rfl⟩ := (answer_eq_ok_iff _ _ _ _).mp hanswer
    refine ⟨by simp [h.nextId], h.ids_concat call, ?_, ?_⟩
    · rintro q ⟨rfl⟩
      exact hlaunched
    · rintro q ⟨rfl⟩
      exact List.append_subset.mpr
        ⟨List.subset_append_of_subset_left _ hheard, List.subset_append_right _ _⟩

end Sound

-- A call leaves a worker whose unread lines are candid, if its processes are.
theorem candid_make {launcher : Launcher} {c : Client}
    (hlaunched : ∀ attempt b, launcher attempt = .ok b → b.Candid) (h : Sound launcher c)
    (hworker : ∀ p, c.worker = some p → p.Candid) (call : Call) :
    ∀ p, (call.make launcher c).2.worker = some p → p.Candid := by
  have hending := ending_make launcher c call
  generalize call.make launcher c = result at hending ⊢
  cases hending with
  | unstarted hidle hstart => simp
  | unwritten hp hrefusal => simp
  | unanswered hp hwritten hanswer => simp
  | answered hp hwritten hanswer =>
    rintro q ⟨rfl⟩
    obtain ⟨⟨attempt, hlaunch⟩, -⟩ := h.atHand hp
    have hheard := candid_heardBy (hp.candid hlaunched hworker) (hlaunched attempt _ hlaunch)
      (call.request c)
    exact candid_of_answer hheard hanswer

theorem sound_run {launcher : Launcher}
    (hwrites : ∀ attempt b, launcher attempt = .ok b → ∀ heard, b.refusal heard = none)
    (calls : List Call) : Sound launcher (run launcher {} calls) :=
  run_keeps (fun _ call h => h.make hwrites call) (sound_new launcher) calls

theorem candid_run {launcher : Launcher}
    (hwrites : ∀ attempt b, launcher attempt = .ok b → ∀ heard, b.refusal heard = none)
    (hlaunched : ∀ attempt b, launcher attempt = .ok b → b.Candid) (calls : List Call) :
    ∀ p, (run launcher {} calls).worker = some p → p.Candid := by
  have hkept := run_keeps (P := fun c => Sound launcher c ∧ ∀ p, c.worker = some p → p.Candid)
    (fun c call h => ⟨h.1.make hwrites call, candid_make hlaunched h.1 h.2 call⟩)
    ⟨sound_new launcher, by simp⟩ calls
  exact hkept.2

-- For processes of any behaviour to which requests can be written: the requests that were sent are
-- numbered 1, 2, 3, ... across all processes, and a call sends at most one. If the processes are
-- candid, a call that finds the compiler available returns what the first line says that the
-- process printed on hearing this call's request.
theorem reply_of_own_request {launcher : Launcher}
    (hwrites : ∀ attempt b, launcher attempt = .ok b → ∀ heard, b.refusal heard = none)
    (earlier : List Call) (call : Call) {c c' : Client}
    {answer : Except CompileError (Option Metadata)} (hc : run launcher {} earlier = c)
    (hcall : call.make launcher c = (answer, c')) :
    c'.sent.map Request.id = List.range' 1 c'.sent.length ∧
    (c'.sent = c.sent ∨ c'.sent = c.sent ++ [call.request c]) ∧
    ((∀ attempt b, launcher attempt = .ok b → b.Candid) →
      (∀ reason, answer ≠ .error (.unavailable reason)) →
      ∃ b heard text unread reply, c'.sent = c.sent ++ [call.request c] ∧
        c'.worker = some ⟨b, heard ++ [call.request c], unread⟩ ∧
        b.output (heard ++ [call.request c]) = .text text :: unread ∧
        Reply.decoder.ofText text = .ok reply ∧ reply.id = some (call.request c).id ∧
        answer = outcome call.file reply) := by
  have hsound : Sound launcher c := hc ▸ sound_run hwrites earlier
  have hsound' := hsound.make hwrites call
  have hending := ending_make launcher c call
  rw [hcall] at hsound' hending
  refine ⟨hsound'.ids, ?_, ?_⟩
  · cases hending with
    | unstarted hidle hstart => exact .inl rfl
    | unwritten hp hrefusal => exact .inl rfl
    | unanswered hp hwritten hanswer => exact .inr rfl
    | answered hp hwritten hanswer => exact .inr rfl
  · intro hlaunched hanswered
    have hworker : ∀ p, c.worker = some p → p.Candid := hc ▸ candid_run hwrites hlaunched earlier
    cases hending with
    | unstarted hidle hstart => exact absurd rfl (hanswered _)
    | unwritten hp hrefusal => exact absurd rfl (hanswered _)
    | unanswered hp hwritten hanswer => exact absurd rfl (hanswered _)
    | answered hp hwritten hanswer =>
      obtain ⟨line, unread, houtput, ⟨text, rfl, hread, -, hid⟩, rfl⟩ :=
        output_of_answer (hp.candid hlaunched hworker) (hsound.notMem_heard (hsound.atHand hp).2)
          hanswer
      exact ⟨_, _, text, unread, _, rfl, rfl, houtput, hread, hid, rfl⟩

-- A process that prints the reply to request 1 twice, so that the second copy is unread when
-- request 2 comes, and that reports a rule for request 3 if it is the first it hears.
def repeating : Behaviour where
  output heard :=
    match heard.map Request.id with
    | [] => [.text "\x7b\"ready\":true\x7d"]
    | [1] => [.text "\x7b\"id\":1\x7d", .text "\x7b\"id\":1\x7d"]
    | [3] => [.text report]
    | _ => []
  exit _ := ⟨0, ""⟩
  refusal _ := none
where
  report : String :=
    "\x7b\"id\":3,\"metadata\":\x7b\"rules\":" ++
      "\x7b\".a\":\x7b\"displayName\":\"a\",\"cssText\":\"d\"\x7d\x7d\x7d\x7d"

theorem candid_repeating : repeating.Candid := by
  intro heard line hline id hid
  simp only [Behaviour.replies, repeating] at hline
  split at hline
  · cases hline
  · next hne =>
    split at hline
    · next hnil => exact absurd (List.map_eq_nil_iff.mp hnil) hne
    · next hone =>
      have hline : line = .text "\x7b\"id\":1\x7d" := by simpa using hline
      have hread : line.id? = some 1 := by rw [hline]; decide +kernel
      rw [hread] at hid
      cases hid
      simp [hone]
    · next hthree =>
      have hline : line = .text repeating.report := by simpa using hline
      have hread : line.id? = some 3 := by rw [hline]; decide +kernel
      rw [hread] at hid
      cases hid
      simp [hthree]
    · cases hline

def aFile : Call := ⟨"css`d`", ⟨"a.js"⟩⟩

def relaunching : Launcher := fun _ => .ok repeating

def reportedRule : Metadata :=
  ⟨[(".a", ⟨"a", "d", none, none⟩)], []⟩

-- The second call reads the copy and fails, and the third gets its report from a new process.
theorem reply_of_own_request_third :
    ∃ c c', run relaunching {} [aFile, aFile] = c ∧ c.isRunning = false ∧
      aFile.make relaunching c = (.ok (some reportedRule), c') ∧
      c'.sent.map Request.id = [1, 2, 3] ∧
      ∃ b heard text unread reply report,
        c'.worker = some ⟨b, heard ++ [aFile.request c], unread⟩ ∧
        b.output (heard ++ [aFile.request c]) = .text text :: unread ∧
        Reply.decoder.ofText text = .ok reply ∧ reply.id = some (aFile.request c).id ∧
        reply.metadata = some report ∧ Metadata.ofJson report = .ok reportedRule := by
  obtain ⟨c, hc⟩ : ∃ c, run relaunching {} [aFile, aFile] = c := ⟨_, rfl⟩
  obtain ⟨answer, c', hcall⟩ : ∃ answer c', aFile.make relaunching c = (answer, c') :=
    ⟨_, _, rfl⟩
  have hidle : c.isRunning = false := by rw [← hc]; decide +kernel
  have hanswer : (aFile.make relaunching c).1.toOption = some (some reportedRule) := by
    rw [← hc]
    decide +kernel
  have hsent : (aFile.make relaunching c).2.sent.length = 3 := by rw [← hc]; decide +kernel
  rw [hcall] at hanswer hsent
  obtain rfl : answer = .ok (some reportedRule) := by
    cases answer <;> simp_all [Except.toOption]
  have hlaunched : ∀ attempt b, relaunching attempt = .ok b → b = repeating := by
    rintro - b ⟨rfl⟩
    rfl
  obtain ⟨hids, -, hreply⟩ := reply_of_own_request
    (fun attempt b h heard => by rw [hlaunched attempt b h]; rfl) [aFile, aFile] aFile hc hcall
  obtain ⟨b, heard, text, unread, reply, -, hworker, houtput, hread, hid, houtcome⟩ :=
    hreply (fun attempt b h => hlaunched attempt b h ▸ candid_repeating) (by simp)
  -- The answer is a report, so of what a reply can say it is the last.
  obtain ⟨report, hmetadata, hreport⟩ : ∃ report, reply.metadata = some report ∧
      Metadata.ofJson report = .ok reportedRule := by
    obtain ⟨message, -, hcase⟩ | ⟨-, -, hcase⟩ | ⟨report, -, hmetadata, -, hcase⟩ :=
      outcome_cases aFile.file reply
    · cases houtcome.trans hcase
    · cases houtcome.trans hcase
    · obtain ⟨m, hm, hsome⟩ := bind_eq_ok_iff.mp (houtcome.trans hcase).symm
      cases hsome
      exact ⟨report, hmetadata, hm⟩
  rw [hsent] at hids
  exact ⟨c, c', hc, hidle, hcall, hids, b, heard, text, unread, reply, report, hworker, houtput,
    hread, hid, hmetadata, hreport⟩

end Client

end EmbeddedStyles.Worker
