import EmbeddedStyles.FileTree
import EmbeddedStyles.Session
import EmbeddedStyles.Worker.Process

namespace EmbeddedStyles.Worker

inductive Error where
  | spawnFailed (cause : FileError)
  | processFailed (exit : Exit)
  | notFound (program : Path)
  | scriptFailed (reason : String)
  | protocol (reason : String)
  | parse (reason : String)

def Error.message : Error → String
  | .spawnFailed cause => "failed to spawn node: " ++ cause.message
  | .processFailed exit =>
    let code := exit.code
    let stderr := exit.stderr
    s!"node exited with code {code}: {stderr}"
  | .notFound program => "node binary not found at: " ++ program.text
  | .scriptFailed reason => "failed to prepare node runner script: " ++ reason
  | .protocol reason => "node runner protocol error: " ++ reason
  | .parse reason => "failed to parse node response: " ++ reason

-- What comes of the attempts to start a worker, counted from zero: a process, or the system's
-- reason for refusing it.
abbrev Launcher := Nat → Except FileError Behaviour

-- A worker is started when a file is to be compiled and none is running, and kept for later files
-- until something goes wrong with it. What it says about a file is no reason to give it up.
structure Client where
  -- The program counts in 64-bit words, of which no run gets to the last: at a request a nanosecond
  -- it would take more than five hundred years.
  nextId : Nat := 1
  -- How often a worker was to be started.
  attempts : Nat := 0
  worker : Option Process := none
  -- All requests so far, whichever worker they went to.
  sent : List Request := []

namespace Client

def isRunning (c : Client) : Bool :=
  c.worker.isSome

-- The next line of a process, or what its absence means.
def nextLine (p : Process) : Except Error (String × Process) :=
  match p.read with
  | (.ok (.text line), p) => .ok (line, p)
  | (.ok .garbled, _) =>
    .error (.protocol ("failed to read node response: " ++ FileError.notText.message))
  | (.error exit, _) => .error (.processFailed exit)

-- Waits for a process to say that it is ready.
def greet (p : Process) : Except Error Process := do
  let (line, p) ← nextLine p
  match Ready.decoder.ofText line with
  | .error failure =>
    .error (.parse ("invalid ready response: " ++ failure.message line.toList))
  | .ok ready =>
    if ready.ready then .ok p
    else .error (.protocol ("unexpected node ready response: " ++ line))

-- What a line means as the reply to a request.
def readReply (id : Nat) (line : String) : Except Error Reply :=
  match Reply.decoder.ofText line with
  | .error failure =>
    let reason := failure.message line.toList
    .error (.parse s!"invalid response: {reason} ({line})")
  | .ok reply =>
    match reply.protocolError, reply.id with
    | some reason, _ => .error (.protocol reason)
    | none, none => .error (.protocol ("missing response id: " ++ line))
    | none, some other =>
      if other = id then .ok reply
      else .error (.protocol s!"unexpected response id {other}, expected {id}")

def start (launcher : Launcher) (attempt : Nat) : Except Error Process :=
  match launcher attempt with
  | .error cause => .error (.spawnFailed cause)
  | .ok behaviour => greet (.start behaviour)

-- The running worker, or a new one.
def ready (launcher : Launcher) (c : Client) : Except Error Process × Client :=
  match c.worker with
  | some p => (.ok p, c)
  | none => (start launcher c.attempts, { c with attempts := c.attempts + 1 })

-- The next line of a process, read as the reply to a request.
def answer (p : Process) (id : Nat) : Except Error (Reply × Process) := do
  let (line, p) ← nextLine p
  let reply ← readReply id line
  return (reply, p)

-- Sends a request to a worker and reads one line for it.
def ask (c : Client) (p : Process) (source : String) (file : Path) : Except Error Reply × Client :=
  let request : Request := ⟨c.nextId, file.text, source⟩
  let c := { c with nextId := c.nextId + 1 }
  match p.hear request with
  | .error cause =>
    (.error (.protocol ("failed to write to node stdin: " ++ cause.message)),
      { c with worker := none })
  | .ok p =>
    let c := { c with sent := c.sent ++ [request] }
    match answer p request.id with
    | .error error => (.error error, { c with worker := none })
    | .ok (reply, p) => (.ok reply, { c with worker := some p })

def request (launcher : Launcher) (c : Client) (source : String) (file : Path) :
    Except Error Reply × Client :=
  match c.ready launcher with
  | (.error error, c) => (.error error, { c with worker := none })
  | (.ok p, c) => c.ask p source file

-- What a reply says about the file.
def outcome (file : Path) (reply : Reply) : Except CompileError (Option Metadata) :=
  match reply.error, reply.metadata with
  | some message, _ => .error (.failed file.text message)
  | none, none => .ok none
  | none, some .null => .ok none
  | none, some json => do return some (← Metadata.ofJson json)

def compile (launcher : Launcher) : Compiler Client := fun c source file =>
  match c.request launcher source file with
  | (.error error, c) => (.error (.unavailable error.message), c)
  | (.ok reply, c) => (outcome file reply, c)

end Client

end EmbeddedStyles.Worker
