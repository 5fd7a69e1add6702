import EmbeddedStyles.Proofs.Worker.Framing

namespace EmbeddedStyles.Worker

namespace Readline

-- The line separator and the paragraph separator.
def isSeparator (c : Char) : Bool :=
  c = '\u2028' || c = '\u2029'

def endsLine (c : Char) : Bool :=
  c = '\n' || c = '\r' || isSeparator c

-- A carriage return and the newline after it are one end.
def lines : List Char → List (List Char)
  | [] => [[]]
  | '\r' :: '\n' :: cs => [] :: lines cs
  | c :: cs => if endsLine c then [] :: lines cs else (lines cs).modifyHead (c :: ·)

theorem lines_ne_nil (cs : List Char) : lines cs ≠ [] := by
  fun_induction lines cs with
  | case4 c cs hends hreturn ih => simpa using ih
  | _ => simp

theorem lines_cons {c : Char} (h : c ≠ '\r') (cs : List Char) :
    lines (c :: cs) = if endsLine c then [] :: lines cs else (lines cs).modifyHead (c :: ·) := by
  rw [lines]
  intro rest hc
  exact absurd hc h

variable {cs : List Char}

-- Without carriage returns every end of a line is a single character.
theorem length_lines (h : '\r' ∉ cs) : (lines cs).length = cs.countP endsLine + 1 := by
  induction cs with
  | nil => rfl
  | cons c cs ih =>
    obtain ⟨hc, hcs⟩ := not_or.mp fun hm => h (List.mem_cons.mpr hm)
    rw [lines_cons (Ne.symm hc)]
    split
    next hends => rw [List.length_cons, ih hcs, List.countP_cons_of_pos hends]
    next hends => rw [List.length_modifyHead, ih hcs, List.countP_cons_of_neg hends]

theorem lines_append (h : '\r' ∉ cs) (rest : List Char) :
    lines (cs ++ '\n' :: rest) = lines cs ++ lines rest := by
  induction cs with
  | nil => rfl
  | cons c cs ih =>
    obtain ⟨hc, hcs⟩ := not_or.mp fun hm => h (List.mem_cons.mpr hm)
    rw [List.cons_append, lines_cons (Ne.symm hc), lines_cons (Ne.symm hc), ih hcs]
    split
    · rfl
    · cases hlines : lines cs with
      | nil => exact absurd hlines (lines_ne_nil cs)
      | cons first others => rfl

theorem lines_of_unbroken (h : ∀ c ∈ cs, endsLine c = false) : lines cs = [cs] := by
  induction cs with
  | nil => rfl
  | cons c cs ih =>
    obtain ⟨hc, hcs⟩ := List.forall_mem_cons.mp h
    have hreturn : c ≠ '\r' := by
      rintro rfl
      exact absurd hc (by decide)
    rw [lines_cons hreturn, hc, ih hcs]
    rfl

theorem lines_eq_singleton_iff (h : '\r' ∉ cs) :
    lines cs = [cs] ↔ ∀ c ∈ cs, endsLine c = false := by
  constructor
  · intro hone c hc
    have hlength := length_lines h
    rw [hone, List.length_singleton, Nat.right_eq_add, List.countP_eq_zero] at hlength
    simpa using hlength c hc
  · exact lines_of_unbroken

theorem filter_eq_nil_iff_unbroken {p : Char → Bool} :
    cs.filter p = [] ↔ ∀ c ∈ cs, p c = false := by
  simp only [List.filter_eq_nil_iff, Bool.not_eq_true]

end Readline

namespace Request

open Readline

theorem textChars_toJson (r : Request) : r.toJson.textChars =
    "id".toList ++ "filename".toList ++ r.filename.toList ++ "source".toList ++
      r.source.toList := by
  simp [toJson, Json.textChars, Json.texts, Json.textsOfEntries, Source.natJson]

-- Nothing beyond ASCII is escaped, and the names of the fields are of ASCII.
theorem filter_beyondAscii_line (r : Request) : r.line.toList.filter Json.beyondAscii =
    (r.filename.toList ++ r.source.toList).filter Json.beyondAscii := by
  have hkept := (Json.shows_chars r.toJson).kept
  have hid : "id".toList.filter Json.beyondAscii = [] := by decide
  have hfilename : "filename".toList.filter Json.beyondAscii = [] := by decide
  have hsource : "source".toList.filter Json.beyondAscii = [] := by decide
  rw [line, Json.compact, String.toList_ofList, hkept, textChars_toJson]
  simp only [List.filter_append, hid, hfilename, hsource, List.nil_append, List.append_nil]

theorem beyondAscii_of_isSeparator {c : Char} (h : isSeparator c = true) :
    Json.beyondAscii c = true := by
  simp only [isSeparator, Bool.or_eq_true, decide_eq_true_eq] at h
  rcases h with rfl | rfl <;> decide

-- The separators on the line are those of the file name and the source.
theorem filter_isSeparator_line (r : Request) : r.line.toList.filter isSeparator =
    (r.filename.toList ++ r.source.toList).filter isSeparator := by
  have hnarrow (cs : List Char) :
      cs.filter isSeparator = (cs.filter Json.beyondAscii).filter isSeparator := by
    rw [List.filter_filter]
    refine List.filter_congr fun c _ => ?_
    cases hc : isSeparator c with
    | false => rfl
    | true => rw [beyondAscii_of_isSeparator hc]; rfl
  rw [hnarrow, filter_beyondAscii_line, ← hnarrow]

theorem endsLine_of_mem_line {r : Request} {c : Char} (h : c ∈ r.line.toList) :
    endsLine c = isSeparator c := by
  have hvisible := visible_line h
  have hnewline : c ≠ '\n' := by rintro rfl; exact absurd hvisible (by decide)
  have hreturn : c ≠ '\r' := by rintro rfl; exact absurd hvisible (by decide)
  simp [endsLine, hnewline, hreturn]

theorem filter_endsLine_line (r : Request) : r.line.toList.filter endsLine =
    (r.filename.toList ++ r.source.toList).filter isSeparator := by
  rw [List.filter_congr fun c hc => endsLine_of_mem_line hc, filter_isSeparator_line]

theorem unbroken_line_iff (r : Request) : (∀ c ∈ r.line.toList, endsLine c = false) ↔
    ∀ c ∈ r.filename.toList ++ r.source.toList, isSeparator c = false := by
  rw [← filter_eq_nil_iff_unbroken, filter_endsLine_line, filter_eq_nil_iff_unbroken]

-- The newlines and carriage returns of a file are escaped, so only its separators can end a line of
-- the reader before the request does. They all do.
theorem line_broken_at_separators (r : Request) :
    '\n' ∉ r.line.toList ∧ '\r' ∉ r.line.toList ∧
    r.line.toList.filter endsLine = (r.filename.toList ++ r.source.toList).filter isSeparator ∧
    ((∀ c ∈ r.line.toList, endsLine c = false) ↔
      ∀ c ∈ r.filename.toList ++ r.source.toList, isSeparator c = false) ∧
    (lines r.line.toList = [r.line.toList] ↔
      ∀ c ∈ r.filename.toList ++ r.source.toList, isSeparator c = false) ∧
    (lines r.line.toList).length =
      (r.filename.toList ++ r.source.toList).countP isSeparator + 1 := by
  have hreturn : '\r' ∉ r.line.toList := notMem_line (by decide) r
  refine ⟨notMem_line (by decide) r, hreturn, r.filter_endsLine_line, r.unbroken_line_iff, ?_, ?_⟩
  · exact (lines_eq_singleton_iff hreturn).trans r.unbroken_line_iff
  · rw [length_lines hreturn, List.countP_eq_length_filter, filter_endsLine_line,
      ← List.countP_eq_length_filter]

-- A template with a line separator in it, which is a valid character there.
def separated : Request := ⟨1, "a.js", "css`\u2028`"⟩

-- The reader sees two lines, neither of which is a document.
theorem line_of_separated_broken :
    separated.id < UInt64.size ∧ '\u2028' ∈ separated.line.toList ∧ endsLine '\u2028' = true ∧
    (lines separated.line.toList).map String.ofList =
      ["\x7b\"id\":1,\"filename\":\"a.js\",\"source\":\"css`", "`\"\x7d"] ∧
    ∀ text ∈ lines separated.line.toList, (Json.ofChars text).toOption.isNone = true := by
  decide +kernel

-- The reader goes through the requests of a stream one by one, as each ends with a newline.
theorem lines_flatMap (requests : List Request) :
    lines (requests.flatMap fun r => r.line.toList ++ ['\n']) =
      requests.flatMap (fun r => lines r.line.toList) ++ [[]] := by
  induction requests with
  | nil => rfl
  | cons r requests ih =>
    rw [List.flatMap_cons, List.append_assoc, List.singleton_append,
      lines_append (notMem_line (by decide) r), ih, List.flatMap_cons, List.append_assoc]

end Request

end EmbeddedStyles.Worker
