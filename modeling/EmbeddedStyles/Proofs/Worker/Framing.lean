import EmbeddedStyles.Proofs.Json.Agreement
import EmbeddedStyles.Proofs.Json.Characters
import EmbeddedStyles.Proofs.Json.Inversion
import EmbeddedStyles.Proofs.Text.Bytes
import EmbeddedStyles.Proofs.Worker.Call

namespace EmbeddedStyles.Worker

open Json (Decoder Record)

section Lines

def newline : UInt8 := 10

theorem splitOn_flatMap {lines : List (List UInt8)} (h : ∀ line ∈ lines, newline ∉ line) :
    (lines.flatMap (· ++ [newline])).splitOn newline = lines ++ [[]] := by
  induction lines with
  | nil => rfl
  | cons line lines ih =>
    obtain ⟨hline, hlines⟩ := List.forall_mem_cons.mp h
    rw [List.flatMap_cons, List.append_assoc, List.singleton_append,
      List.splitOn_append_cons_self_of_not_mem hline, ih hlines, List.cons_append]

-- The lines of a stream. A newline ends a line, so nothing is left after the last one.
def streamLines (stream : List UInt8) : List Line :=
  let parts := stream.splitOn newline
  (if parts.getLast? = some [] then parts.dropLast else parts).map Line.ofBytes

theorem streamLines_flatMap {lines : List (List UInt8)} (h : ∀ line ∈ lines, newline ∉ line) :
    streamLines (lines.flatMap (· ++ [newline])) = lines.map Line.ofBytes := by
  simp [streamLines, splitOn_flatMap h]

end Lines

namespace Request

-- A line has no control characters, though the file name and the source may be full of them.
theorem visible_line {r : Request} {c : Char} (h : c ∈ r.line.toList) : 32 ≤ c.toNat := by
  rw [line, Json.compact, String.toList_ofList] at h
  exact (Json.shows_chars r.toJson).visible c h

theorem notMem_line {c : Char} (hc : c.toNat < 32) (r : Request) : c ∉ r.line.toList :=
  fun h => absurd (visible_line h) (by omega)

theorem newline_notMem_line (r : Request) : newline ∉ r.line.toUTF8.toList :=
  fun h => notMem_line (c := '\n') (by decide) r
    ((Text.ofNat_mem_toUTF8_iff (c := '\n') (by decide) r.line).mp h)

theorem bytes_eq (r : Request) : r.bytes = r.line.toUTF8.toList ++ [newline] := by
  have hend : "\n".toUTF8.toList = [newline] := by
    rw [Text.toList_toUTF8]
    decide
  rw [bytes, hend]

theorem ofBytes_line (r : Request) : Line.ofBytes r.line.toUTF8.toList = .text r.line := by
  have hreturn : r.line.toList.getLast? ≠ some '\r' := fun h =>
    notMem_line (c := '\r') (by decide) r (List.mem_of_getLast? h)
  rw [Line.ofBytes, Text.fromUTF8?_toUTF8]
  simp only [Line.ofChars, Source.withoutReturn, if_neg hreturn, String.ofList_toList]

structure Draft where
  id : Option Nat
  filename : Option String
  source : Option String

-- A request as it is understood on the other side.
def record : Record Draft Request where
  name := "NodeRequest"
  fields := [
    ⟨"id", (·.id.isSome), Decoder.u64.map fun n s => { s with id := some n }, false⟩,
    ⟨"filename", (·.filename.isSome),
      Decoder.string.map fun x s => { s with filename := some x }, false⟩,
    ⟨"source", (·.source.isSome), Decoder.string.map fun x s => { s with source := some x }, false⟩]
  start := ⟨none, none, none⟩
  extra := none
  complete s := do
    let id ← Json.required "id" s.id
    let filename ← Json.required "filename" s.filename
    let source ← Json.required "source" s.source
    return ⟨id, filename, source⟩

def decoder : Decoder Request := record.decoder

theorem decoder_agrees : decoder.Agrees := by
  have hstring : Decoder.string.Agrees := Decoder.stringAs_agrees _
  refine Record.decoder_agrees ?_
  simp only [record, List.forall_mem_cons, List.not_mem_nil, IsEmpty.forall_iff, implies_true,
    and_true]
  exact ⟨(Decoder.natural_agrees _ _).map _, hstring.map _, hstring.map _⟩

variable {r : Request}

theorem decoder_toJson (h : r.id < UInt64.size) : decoder.value r.toJson = .ok r := by
  simp [decoder, record, Record.decoder, toJson, Record.objectValue, Record.field?, Decoder.map,
    Decoder.u64_value_natJson h, Decoder.string_inverts _, Json.required]

theorem restorable_toJson (h : r.id < UInt64.size) : r.toJson.Restorable Json.maxDepth := by
  rw [toJson, Json.maxDepth, Json.restorable_object_iff]
  simp [Json.restorable_natJson_of_lt h, Json.restorable_string]

theorem parse_line (h : r.id < UInt64.size) : Json.parse r.line = .ok r.toJson :=
  Json.parse_compact (restorable_toJson h)

theorem ofText_line (h : r.id < UInt64.size) : decoder.ofText r.line = .ok r :=
  (decoder_agrees.ofText_eq_ok_iff (parse_line h) r).mpr (decoder_toJson h)

end Request

-- The request on a line, if it is one.
def Line.request? : Line → Option Request
  | .text line => (Request.decoder.ofText line).toOption
  | .garbled => none

theorem Line.request?_line {r : Request} (h : r.id < UInt64.size) :
    (Line.text r.line).request? = some r := by
  rw [Line.request?, Request.ofText_line h]
  rfl

-- The requests on all lines of a stream, unless a line is none.
def readRequests (stream : List UInt8) : Option (List Request) :=
  (streamLines stream).mapM Line.request?

theorem readRequests_flatMap {requests : List Request}
    (h : ∀ r ∈ requests, r.id < UInt64.size) :
    readRequests (requests.flatMap Request.bytes) = some requests := by
  have hbytes : Request.bytes = fun r => r.line.toUTF8.toList ++ [newline] :=
    funext Request.bytes_eq
  have hfree : ∀ line ∈ requests.map fun r => r.line.toUTF8.toList, newline ∉ line :=
    List.forall_mem_map.mpr fun r _ => r.newline_notMem_line
  have hlines := streamLines_flatMap hfree
  rw [List.flatMap_map, ← hbytes, List.map_map] at hlines
  rw [readRequests, hlines]
  clear hfree hlines
  induction requests with
  | nil => rfl
  | cons r requests ih =>
    obtain ⟨hr, hrequests⟩ := List.forall_mem_cons.mp h
    rw [List.map_cons, List.mapM_cons, ih hrequests, Function.comp_apply, Request.ofBytes_line,
      Line.request?_line hr]
    rfl

namespace Client

section Numbers

variable {launcher : Launcher} {c : Client}

-- Requests are numbered below the number that is to be given next.
def Numbered (c : Client) : Prop :=
  ∀ r ∈ c.sent, r.id < c.nextId

theorem numbered_make (h : Numbered c) (call : Call) : Numbered (call.make launcher c).2 := by
  have hold : ∀ r ∈ c.sent, r.id < c.nextId + 1 := fun r hr => Nat.lt_succ_of_lt (h r hr)
  have hsent : ∀ r ∈ c.sent ++ [call.request c], r.id < c.nextId + 1 :=
    List.forall_mem_append.mpr ⟨hold, List.forall_mem_singleton.mpr (Nat.lt_succ_self c.nextId)⟩
  have hending := ending_make launcher c call
  generalize call.make launcher c = result at hending ⊢
  cases hending with
  | unstarted hidle hstart => exact h
  | unwritten hp hrefusal => exact hold
  | unanswered hp hwritten hanswer => exact hsent
  | answered hp hwritten hanswer => exact hsent

theorem nextId_make_le (launcher : Launcher) (c : Client) (call : Call) :
    (call.make launcher c).2.nextId ≤ c.nextId + 1 := by
  have hending := ending_make launcher c call
  generalize call.make launcher c = result at hending ⊢
  cases hending <;> simp

theorem nextId_run_le (launcher : Launcher) (c : Client) (calls : List Call) :
    (run launcher c calls).nextId ≤ c.nextId + calls.length := by
  induction calls generalizing c with
  | nil => exact Nat.le_refl _
  | cons call calls ih =>
    have hstep := nextId_make_le launcher c call
    have hrest := ih (call.make launcher c).2
    rw [List.length_cons]
    exact Nat.le_trans hrest (by omega)

theorem id_lt_of_run {calls : List Call} (h : calls.length < UInt64.size) :
    ∀ r ∈ (run launcher {} calls).sent, r.id < UInt64.size := by
  have hnumbered : Numbered (run launcher {} calls) :=
    run_keeps (P := Numbered) (fun _ call hc => numbered_make hc call) (by simp [Numbered]) calls
  have hnext := nextId_run_le launcher {} calls
  intro r hr
  have hid := hnumbered r hr
  simp only at hnext
  omega

end Numbers

-- What is written for a request is one document without a newline, and the newline that ends it.
-- The document has the number, the file name and the source as they are, so the requests are read
-- back from any stream of them, that of a run among others.
theorem requests_framed :
    (∀ r : Request, r.id < UInt64.size →
      r.bytes = r.line.toUTF8.toList ++ [newline] ∧ newline ∉ r.line.toUTF8.toList ∧
      Json.parse r.line = .ok (.object [("id", Source.natJson r.id),
        ("filename", .string r.filename), ("source", .string r.source)]) ∧
      Request.decoder.ofText r.line = .ok r) ∧
    (∀ requests : List Request, (∀ r ∈ requests, r.id < UInt64.size) →
      readRequests (requests.flatMap Request.bytes) = some requests) ∧
    ∀ (launcher : Launcher) (calls : List Call), calls.length < UInt64.size →
      readRequests ((run launcher {} calls).sent.flatMap Request.bytes) =
        some (run launcher {} calls).sent :=
  ⟨fun r h => ⟨r.bytes_eq, r.newline_notMem_line, Request.parse_line h, Request.ofText_line h⟩,
    fun _ h => readRequests_flatMap h,
    fun _ _ h => readRequests_flatMap (id_lt_of_run h)⟩

-- Control characters, a quote, a backslash, a line separator and a character of four bytes.
def strangeFile : Call := ⟨"\r\n\t\x00\x1f\"\\\u2028😀", ⟨"a\n.js"⟩⟩

-- A process that ends at its first request, so that every request goes to a new one.
def brief : Playlist where
  ready := some (.text "\x7b\"ready\":true\x7d")
  replies := []
  exit := ⟨0, ""⟩

def relaunchingBrief : Launcher := fun _ => .ok brief.behaviour

theorem requests_framed_strange :
    ∃ requests, (run relaunchingBrief {} [strangeFile, strangeFile]).sent = requests ∧
      requests.map Request.id = [1, 2] ∧
      requests.map Request.line = [
        "\x7b\"id\":1,\"filename\":\"a\\n.js\"," ++
          "\"source\":\"\\r\\n\\t\\u0000\\u001f\\\"\\\\\u2028😀\"\x7d",
        "\x7b\"id\":2,\"filename\":\"a\\n.js\"," ++
          "\"source\":\"\\r\\n\\t\\u0000\\u001f\\\"\\\\\u2028😀\"\x7d"] ∧
      readRequests (requests.flatMap Request.bytes) = some requests ∧
      readRequests (requests.reverse.flatMap Request.bytes) = some requests.reverse ∧
      ∀ r ∈ requests, r.id < UInt64.size ∧ Request.decoder.ofText r.line = .ok r := by
  obtain ⟨requests, hsent⟩ :
      ∃ requests, (run relaunchingBrief {} [strangeFile, strangeFile]).sent = requests := ⟨_, rfl⟩
  have hids : requests.map Request.id = [1, 2] := by rw [← hsent]; decide +kernel
  have hsmall : ∀ r ∈ requests, r.id < UInt64.size := by rw [← hsent]; decide +kernel
  obtain ⟨hone, hmany, hrun⟩ := requests_framed
  have hstream := hrun relaunchingBrief [strangeFile, strangeFile] (by decide)
  have hreverse := hmany requests.reverse fun r hr => hsmall r (List.mem_reverse.mp hr)
  rw [hsent] at hstream
  refine ⟨requests, hsent, hids, ?_, hstream, hreverse, fun r hr => ⟨hsmall r hr, ?_⟩⟩
  · rw [← hsent]
    decide +kernel
  · exact (hone r (hsmall r hr)).2.2.2

end Client

end EmbeddedStyles.Worker
