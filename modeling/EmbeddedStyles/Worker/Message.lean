import EmbeddedStyles.Metadata

namespace EmbeddedStyles.Worker

open Json (Decoder Record)

structure Request where
  id : Nat
  filename : String
  source : String
  deriving DecidableEq, Repr

def Request.toJson (r : Request) : Json :=
  .object [
    ("id", Source.natJson r.id),
    ("filename", .string r.filename),
    ("source", .string r.source)]

-- The line without its newline.
def Request.line (r : Request) : String :=
  r.toJson.compact

-- What is written to a worker.
def Request.bytes (r : Request) : List UInt8 :=
  r.line.toUTF8.toList ++ "\n".toUTF8.toList

structure Reply where
  id : Option Nat
  metadata : Option Json
  error : Option String
  protocolError : Option String

namespace Reply

structure Draft where
  id : Option (Option Nat)
  metadata : Option (Option Json)
  error : Option (Option String)
  protocolError : Option (Option String)

-- In an object everything may be left out.
def record : Record Draft Reply where
  name := "NodeResponse"
  fields := [
    ⟨"id", (·.id.isSome), Decoder.u64.optional.map fun x s => { s with id := some x }, false⟩,
    ⟨"metadata", (·.metadata.isSome),
      Decoder.any.optional.map fun x s => { s with metadata := some x }, false⟩,
    ⟨"error", (·.error.isSome),
      Decoder.string.optional.map fun x s => { s with error := some x }, false⟩,
    ⟨"protocolError", (·.protocolError.isSome),
      Decoder.string.optional.map fun x s => { s with protocolError := some x }, false⟩]
  start := ⟨none, none, none, none⟩
  extra := none
  complete s := .ok ⟨s.id.getD none, s.metadata.getD none, s.error.getD none,
    s.protocolError.getD none⟩

def decoder : Decoder Reply := record.decoder

end Reply

structure Ready where
  ready : Bool

def Ready.record : Record (Option Bool) Ready where
  name := "NodeReady"
  fields := [⟨"ready", Option.isSome, Decoder.bool.map fun x _ => some x, false⟩]
  start := none
  extra := none
  complete s := do return ⟨← Json.required "ready" s⟩

def Ready.decoder : Decoder Ready := Ready.record.decoder

end EmbeddedStyles.Worker
