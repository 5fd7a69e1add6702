import EmbeddedStyles.FileTree
import EmbeddedStyles.Source.Lines
import EmbeddedStyles.Worker.Message

namespace EmbeddedStyles.Worker

-- A line of output without its end, or bytes that are no text.
inductive Line where
  | text (line : String)
  | garbled
  deriving DecidableEq, Repr

-- How a process ends: with a code, and with what it wrote about it. A process that is killed has no
-- code, which counts as minus one.
structure Exit where
  code : Int
  stderr : String
  deriving DecidableEq, Repr

-- A process, by the requests it has heard so far: the lines it prints on hearing the last of them,
-- or at the start, and how it ends once nobody waits for more of its lines in vain.
structure Behaviour where
  output : List Request → List Line
  exit : List Request → Exit
  -- Why no further request can be written to it, if that is so.
  refusal : List Request → Option FileError

-- Lines are delivered in order, and a process whose lines have all been read has ended.
structure Process where
  behaviour : Behaviour
  heard : List Request
  unread : List Line

namespace Process

def start (b : Behaviour) : Process :=
  ⟨b, [], b.output []⟩

-- Writes a request to the process.
def hear (p : Process) (request : Request) : Except FileError Process :=
  match p.behaviour.refusal p.heard with
  | some cause => .error cause
  | none =>
    let heard := p.heard ++ [request]
    .ok { p with heard, unread := p.unread ++ p.behaviour.output heard }

-- The next line, or how the process ended.
def read (p : Process) : Except Exit Line × Process :=
  match p.unread with
  | line :: unread => (.ok line, { p with unread })
  | [] => (.error (p.behaviour.exit p.heard), p)

end Process

-- What is printed in one go, a newline added at the end.
inductive Printed where
  | text (text : String)
  | bytes (bytes : List UInt8)

def Line.ofChars (cs : List Char) : Line :=
  .text (String.ofList (Source.withoutReturn cs))

def Line.ofBytes (bytes : List UInt8) : Line :=
  match String.fromUTF8? ⟨bytes.toArray⟩ with
  | some s => .ofChars s.toList
  | none => .garbled

def Printed.lines : Printed → List Line
  | .text s => (s.toList.splitOn '\n').map Line.ofChars
  | .bytes bs => (bs.splitOn 10).map Line.ofBytes

-- Puts a sequence in the place of each occurrence of another. An occurrence takes all its elements,
-- so `bound` never runs out when it exceeds the number of elements.
def substitute {α : Type} [BEq α] (name value : List α) : (bound : Nat) → List α → List α
  | 0, xs => xs
  | _ + 1, [] => []
  | bound + 1, x :: xs =>
    if name.isPrefixOf (x :: xs) then
      value ++ substitute name value bound ((x :: xs).drop name.length)
    else x :: substitute name value bound xs

-- A process that plays from a list: the line that says it is ready, then one answer for each
-- request, with the request's number in the place of `$ID`. It ends at once if it is never ready
-- and otherwise at the first request for which no answer is left.
structure Playlist where
  ready : Option Printed
  replies : List Printed
  exit : Exit

-- The number of a request, where it is to be printed.
def Printed.number (id : Nat) : Printed → Printed
  | .text s =>
    let cs := s.toList
    .text (String.ofList (substitute ['$', 'I', 'D'] (Nat.toDigits 10 id) (cs.length + 1) cs))
  | .bytes bs =>
    .bytes (substitute (['$', 'I', 'D'].flatMap String.utf8EncodeChar)
      ((Nat.toDigits 10 id).flatMap String.utf8EncodeChar) (bs.length + 1) bs)

def Playlist.output (p : Playlist) (heard : List Request) : List Line :=
  match heard.getLast? with
  | none => (p.ready.map Printed.lines).getD []
  | some request =>
    ((p.replies[heard.length - 1]?).map fun reply => (reply.number request.id).lines).getD []

def Playlist.behaviour (p : Playlist) : Behaviour :=
  ⟨p.output, fun _ => p.exit, fun _ => none⟩

-- Processes started one after the other, the last list of all being played again and again.
def Playlist.supply (lists : List Playlist) (index : Nat) : Behaviour :=
  match lists[min index (lists.length - 1)]? with
  | some list => list.behaviour
  | none => ⟨fun _ => [], fun _ => ⟨0, ""⟩, fun _ => none⟩

end EmbeddedStyles.Worker
