import EmbeddedStyles.Json.Decoder
import EmbeddedStyles.Json.Printer
import EmbeddedStyles.Source.Replacement

namespace EmbeddedStyles.Source

open Json (Decoder Record Field)

def natJson (n : Nat) : Json :=
  .number (.integer n)

namespace Position

structure Draft where
  line : Option UInt32
  column : Option UInt32

def record : Record Draft Position where
  name := "Position"
  fields := [
    ⟨"line", (·.line.isSome), Decoder.u32.map fun n s => { s with line := some n }, false⟩,
    ⟨"column", (·.column.isSome), Decoder.u32.map fun n s => { s with column := some n }, false⟩]
  start := ⟨none, none⟩
  extra := none
  complete s := do
    let line ← Json.required "line" s.line
    let column ← Json.required "column" s.column
    return ⟨line, column⟩

def decoder : Decoder Position := record.decoder

def toJson (p : Position) : Json :=
  .object [("line", natJson p.line.toNat), ("column", natJson p.column.toNat)]

end Position

namespace Span

structure Draft where
  start : Option Position
  stop : Option Position

def record : Record Draft Span where
  name := "Location"
  fields := [
    ⟨"start", (·.start.isSome), Position.decoder.map fun p s => { s with start := some p }, false⟩,
    ⟨"end", (·.stop.isSome), Position.decoder.map fun p s => { s with stop := some p }, false⟩]
  start := ⟨none, none⟩
  extra := none
  complete s := do
    let start ← Json.required "start" s.start
    let stop ← Json.required "end" s.stop
    return ⟨start, stop⟩

def decoder : Decoder Span := record.decoder

def toJson (s : Span) : Json :=
  .object [("start", s.start.toJson), ("end", s.stop.toJson)]

end Span

namespace Replacement

structure Draft where
  span : Option Span
  length : Option UInt32

def record : Record Draft Replacement where
  name := "Replacement"
  fields := [
    ⟨"original", (·.span.isSome), Span.decoder.map fun p s => { s with span := some p }, false⟩,
    ⟨"length", (·.length.isSome), Decoder.u32.map fun n s => { s with length := some n }, false⟩]
  start := ⟨none, none⟩
  extra := none
  complete s := do
    let span ← Json.required "original" s.span
    let length ← Json.required "length" s.length
    return ⟨span, length⟩

def decoder : Decoder Replacement := record.decoder

def toJson (r : Replacement) : Json :=
  .object [("original", r.span.toJson), ("length", natJson r.length.toNat)]

end Replacement

end EmbeddedStyles.Source
