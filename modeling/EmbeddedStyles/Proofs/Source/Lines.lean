import EmbeddedStyles.Proofs.Text.Bytes
import EmbeddedStyles.Proofs.Text.Split
import EmbeddedStyles.Source.Lines

namespace EmbeddedStyles.Source

open Text (size8)

section Slices

variable {n start stop : Nat} {cs rest part : List Char}

-- Bytes can be dropped if they are those of the first characters.
theorem dropBytes_eq_some_iff :
    dropBytes n cs = some rest ↔ ∃ before, cs = before ++ rest ∧ size8 before = n := by
  fun_induction dropBytes n cs with
  | case1 cs => simp [Text.size8_eq_zero_iff]
  | case2 n => simp
  | case3 n c cs hfits ih =>
    rw [ih]
    constructor
    · rintro ⟨before, hcs, hsize⟩
      exact ⟨c :: before, by rw [hcs, List.cons_append],
        Text.size8_cons_eq_iff.mpr ⟨hfits, hsize⟩⟩
    · rintro ⟨before, hcs, hsize⟩
      obtain ⟨rfl, -⟩ | ⟨before, rfl, htail⟩ := List.cons_eq_append_iff.mp hcs
      · simp at hsize
      · exact ⟨before, htail, (Text.size8_cons_eq_iff.mp hsize).2⟩
  | case4 n c cs hwide =>
    constructor
    · simp
    · rintro ⟨before, hcs, hsize⟩
      obtain ⟨rfl, -⟩ | ⟨before, rfl, -⟩ := List.cons_eq_append_iff.mp hcs
      · simp at hsize
      · exact absurd (Text.size8_cons_eq_iff.mp hsize).1 hwide

theorem takeBytes_eq_some_iff :
    takeBytes n cs = some part ↔ ∃ after, cs = part ++ after ∧ size8 part = n := by
  fun_induction takeBytes n cs generalizing part with
  | case1 cs =>
    constructor
    · rintro ⟨rfl⟩
      exact ⟨cs, rfl, rfl⟩
    · rintro ⟨after, -, hsize⟩
      rw [Text.size8_eq_zero_iff.mp hsize]
  | case2 n =>
    constructor
    · simp
    · rintro ⟨after, hnil, hsize⟩
      obtain ⟨rfl, -⟩ := List.append_eq_nil_iff.mp hnil.symm
      simp at hsize
  | case3 n c cs hfits ih =>
    rw [Option.map_eq_some_iff]
    constructor
    · rintro ⟨part, hpart, rfl⟩
      obtain ⟨after, hcs, hsize⟩ := ih.mp hpart
      exact ⟨after, by rw [hcs, List.cons_append], Text.size8_cons_eq_iff.mpr ⟨hfits, hsize⟩⟩
    · rintro ⟨after, hcs, hsize⟩
      obtain ⟨rfl, -⟩ | ⟨part, rfl, htail⟩ := List.cons_eq_append_iff.mp hcs
      · simp at hsize
      · exact ⟨part, ih.mpr ⟨after, htail, (Text.size8_cons_eq_iff.mp hsize).2⟩, rfl⟩
  | case4 n c cs hwide =>
    constructor
    · simp
    · rintro ⟨after, hcs, hsize⟩
      obtain ⟨rfl, -⟩ | ⟨part, rfl, -⟩ := List.cons_eq_append_iff.mp hcs
      · simp at hsize
      · exact absurd (Text.size8_cons_eq_iff.mp hsize).1 hwide

theorem slice_eq_some_iff :
    slice start stop cs = some part ↔
      ∃ before after, cs = before ++ part ++ after ∧ size8 before = start ∧
        start + size8 part = stop := by
  rw [slice]
  split
  next hle =>
    rw [Option.bind_eq_some_iff]
    constructor
    · rintro ⟨rest, hdrop, htake⟩
      obtain ⟨before, rfl, rfl⟩ := dropBytes_eq_some_iff.mp hdrop
      obtain ⟨after, rfl, hsize⟩ := takeBytes_eq_some_iff.mp htake
      exact ⟨before, after, by rw [List.append_assoc], rfl, by omega⟩
    · rintro ⟨before, after, rfl, rfl, rfl⟩
      refine ⟨part ++ after, dropBytes_eq_some_iff.mpr ⟨before, by rw [List.append_assoc], rfl⟩,
        takeBytes_eq_some_iff.mpr ⟨after, rfl, by omega⟩⟩
  next hgt =>
    constructor
    · simp
    · rintro ⟨before, after, -, -, hstop⟩
      omega

theorem withoutReturn_eq_iff {cs line : List Char} :
    withoutReturn cs = line ↔ cs = line ++ ['\r'] ∨ cs = line ∧ cs.getLast? ≠ some '\r' := by
  rw [withoutReturn]
  split
  next hlast =>
    obtain ⟨line', rfl⟩ := List.getLast?_eq_some_iff.mp hlast
    simp
  next hlast =>
    constructor
    · rintro rfl
      exact .inr ⟨rfl, hlast⟩
    · rintro (rfl | ⟨rfl, -⟩)
      · simp at hlast
      · rfl

end Slices

section Offsets

-- The offsets at which parts start, one byte after each part being that of its newline.
def partStarts (offset : Nat) : List (List Char) → List Nat
  | [] => []
  | part :: parts => offset :: partStarts (offset + size8 part + 1) parts

theorem startsAfterNewlines_eq (offset : Nat) (cs : List Char) :
    offset :: startsAfterNewlines offset cs = partStarts offset (cs.splitOn '\n') := by
  induction cs generalizing offset with
  | nil => rfl
  | cons c cs ih =>
    simp only [startsAfterNewlines, List.splitOn_cons_eq_if_modifyHead, beq_iff_eq]
    split
    next hc =>
      have hsize : c.utf8Size = 1 := by
        rw [hc]
        rfl
      rw [ih, hsize]
      rfl
    next hc =>
      -- The character belongs to the first part, which moves only the later ones.
      have hrest := ih (offset + c.utf8Size)
      obtain ⟨part, parts, hparts⟩ := List.exists_cons_of_ne_nil (List.splitOn_ne_nil '\n' cs)
      rw [hparts] at hrest ⊢
      simp only [partStarts, List.cons.injEq, true_and] at hrest
      simp only [List.modifyHead_cons, partStarts, Text.size8_cons, hrest, Nat.add_assoc]

theorem length_partStarts (offset : Nat) (parts : List (List Char)) :
    (partStarts offset parts).length = parts.length := by
  induction parts generalizing offset with
  | nil => rfl
  | cons part parts ih => rw [partStarts, List.length_cons, ih, List.length_cons]

theorem partStarts_bounds {offset start : Nat} {parts : List (List Char)}
    (h : start ∈ partStarts offset parts) :
    offset ≤ start ∧ start ≤ offset + size8 (['\n'].intercalate parts) := by
  induction parts generalizing offset with
  | nil => simp [partStarts] at h
  | cons part parts ih =>
    rcases List.mem_cons.mp h with rfl | h
    · exact ⟨le_rfl, Nat.le_add_right _ _⟩
    · cases parts with
      | nil => simp [partStarts] at h
      | cons next parts =>
        obtain ⟨hlow, hhigh⟩ := ih h
        have hnewline : '\n'.utf8Size = 1 := rfl
        simp only [List.intercalate_cons_cons, Text.size8_append, Text.size8_cons, Text.size8_nil,
          hnewline] at hhigh ⊢
        omega

theorem partStarts_increasing (offset : Nat) (parts : List (List Char)) :
    (partStarts offset parts).Pairwise (· < ·) := by
  induction parts generalizing offset with
  | nil => exact .nil
  | cons part parts ih =>
    refine .cons (fun start hstart => ?_) (ih _)
    have hlow := (partStarts_bounds hstart).1
    omega

-- Where a part stands: after the bytes before its start, and up to the byte before the start of the
-- next part or to the end of the text.
theorem exists_place_of_part {parts : List (List Char)} {k : Nat} {part : List Char}
    (hpart : parts[k]? = some part) (offset : Nat) :
    ∃ before after, ['\n'].intercalate parts = before ++ part ++ after ∧
      (partStarts offset parts)[k]? = some (offset + size8 before) ∧
      ((partStarts offset parts)[k + 1]?.map (· - 1)).getD
        (offset + size8 (['\n'].intercalate parts)) = offset + size8 before + size8 part := by
  induction parts generalizing offset k with
  | nil => simp at hpart
  | cons first parts ih =>
    cases k with
    | zero =>
      obtain rfl : first = part := by simpa using hpart
      cases parts with
      | nil => exact ⟨[], [], by simp, by simp [partStarts], by simp [partStarts]⟩
      | cons next parts =>
        exact ⟨[], '\n' :: ['\n'].intercalate (next :: parts), by simp [List.intercalate_cons_cons],
          by simp [partStarts], by simp [partStarts]⟩
    | succ k =>
      cases parts with
      | nil => simp at hpart
      | cons next parts =>
        obtain ⟨before, after, hjoin, hstart, hstop⟩ :=
          ih (by simpa using hpart) (offset + size8 first + 1)
        have hnewline : '\n'.utf8Size = 1 := rfl
        have hbefore : offset + size8 (first ++ '\n' :: before) =
            offset + size8 first + 1 + size8 before := by
          rw [Text.size8_append, Text.size8_cons, hnewline]
          omega
        have hwhole : offset + size8 (['\n'].intercalate (first :: next :: parts)) =
            offset + size8 first + 1 + size8 (['\n'].intercalate (next :: parts)) := by
          rw [List.intercalate_cons_cons, Text.size8_append, Text.size8_append, Text.size8_cons,
            Text.size8_nil, hnewline]
          omega
        refine ⟨first ++ '\n' :: before, after, ?_, ?_, ?_⟩
        · rw [List.intercalate_cons_cons, hjoin]
          simp
        · rw [hbefore]
          exact hstart
        · rw [hbefore, hwhole]
          exact hstop

end Offsets

namespace LineIndex

variable {index : LineIndex} {cs line : List Char} {n : Nat}

-- The bytes of a line with its return: from the start of the line up to the newline or to the end.
def span? (index : LineIndex) : Nat → Option (Nat × Nat)
  | 0 => none
  | n + 1 => index.starts[n]?.map fun start =>
    (start, (index.starts[n + 1]?.map (· - 1)).getD index.size)

theorem lineChars?_eq_some_iff :
    index.lineChars? cs n = some line ↔ size8 cs = index.size ∧
      ∃ start stop part, index.span? n = some (start, stop) ∧
        slice start stop cs = some part ∧ withoutReturn part = line := by
  unfold lineChars?
  split
  next hsize => simp [hsize]
  next hsize =>
    rw [not_not] at hsize
    cases n with
    | zero => simp [span?]
    | succ n =>
      cases hstart : index.starts[n]? <;> simp [hsize, span?, hstart, Option.bind_eq_some_iff]

theorem span?_eq_none_iff : index.span? n = none ↔ n = 0 ∨ index.lineCount < n := by
  cases n with
  | zero => simp [span?]
  | succ n =>
    simp only [span?, Option.map_eq_none_iff, List.getElem?_eq_none_iff, lineCount]
    omega

theorem starts_ofChars (cs : List Char) :
    (ofChars cs).starts = partStarts 0 (cs.splitOn '\n') :=
  startsAfterNewlines_eq 0 cs

theorem lineCount_ofChars (cs : List Char) :
    (ofChars cs).lineCount = (cs.splitOn '\n').length := by
  rw [lineCount, starts_ofChars, length_partStarts]

-- In the text that was indexed a line is where it is looked for.
theorem slice_span_ofChars {part : List Char} (hpart : (cs.splitOn '\n')[n]? = some part) :
    ∃ start stop, (ofChars cs).span? (n + 1) = some (start, stop) ∧
      slice start stop cs = some part := by
  obtain ⟨before, after, hjoin, hstart, hstop⟩ := exists_place_of_part hpart 0
  rw [List.intercalate_splitOn] at hjoin hstop
  rw [← starts_ofChars] at hstart hstop
  simp only [Nat.zero_add] at hstart hstop
  refine ⟨size8 before, size8 before + size8 part, ?_,
    slice_eq_some_iff.mpr ⟨before, after, hjoin, rfl, rfl⟩⟩
  have hsize : (ofChars cs).size = size8 cs := rfl
  rw [span?, hstart, Option.map_some, hsize, hstop]

theorem lineChars?_zero : index.lineChars? cs 0 = none := by
  unfold lineChars?
  split <;> rfl

theorem lineChars?_ofChars (cs : List Char) (n : Nat) :
    (ofChars cs).lineChars? cs (n + 1) = (cs.splitOn '\n')[n]?.map withoutReturn := by
  cases hpart : (cs.splitOn '\n')[n]? with
  | none =>
    have hspan : (ofChars cs).span? (n + 1) = none := by
      rw [span?_eq_none_iff, lineCount_ofChars]
      exact .inr (Nat.lt_succ_of_le (List.getElem?_eq_none_iff.mp hpart))
    rw [Option.map_none, Option.eq_none_iff_forall_ne_some]
    intro line hline
    obtain ⟨-, start, stop, part, hsome, -⟩ := lineChars?_eq_some_iff.mp hline
    rw [hspan] at hsome
    cases hsome
  | some part =>
    obtain ⟨start, stop, hspan, hslice⟩ := slice_span_ofChars hpart
    exact lineChars?_eq_some_iff.mpr ⟨rfl, start, stop, part, hspan, hslice, rfl⟩

-- The part of a text between two offsets of bytes, neither of which cuts a character in two.
def Cut (text : String) (start stop : Nat) (part : String) : Prop :=
  ∃ before after, text = before ++ part ++ after ∧ before.utf8ByteSize = start ∧
    start + part.utf8ByteSize = stop

-- The line that a part holds: a return at its end, one of them if there are several, is left out.
def Holds (part line : String) : Prop :=
  part = line ++ "\r" ∨ part = line ∧ ∀ shorter, part ≠ shorter ++ "\r"

theorem cut_iff {text part : String} {start stop : Nat} :
    Cut text start stop part ↔ slice start stop text.toList = some part.toList := by
  rw [slice_eq_some_iff]
  simp only [Cut, ← Text.size8_toList]
  constructor
  · rintro ⟨before, after, rfl, hstart, hstop⟩
    exact ⟨before.toList, after.toList, by simp, hstart, hstop⟩
  · rintro ⟨before, after, htext, hstart, hstop⟩
    refine ⟨String.ofList before, String.ofList after, ?_, by simpa using hstart, hstop⟩
    rw [← String.toList_inj, htext]
    simp

theorem holds_iff {part line : String} :
    Holds part line ↔ withoutReturn part.toList = line.toList := by
  have hreturn (s : String) : part = s ++ "\r" ↔ part.toList = s.toList ++ ['\r'] := by
    rw [← String.toList_inj, String.toList_append]
    rfl
  rw [withoutReturn_eq_iff, Holds, hreturn, String.toList_inj]
  refine or_congr_right (and_congr_right fun _ => ?_)
  rw [ne_eq, List.getLast?_eq_some_iff, not_exists]
  simp only [ne_eq, hreturn]
  constructor
  · intro h shorter
    simpa using h (String.ofList shorter)
  · intro h shorter
    exact h shorter.toList

theorem exists_text_iff {P : List Char → Prop} :
    (∃ text : String, P text.toList) ↔ ∃ cs, P cs :=
  ⟨fun ⟨text, h⟩ => ⟨text.toList, h⟩, fun ⟨cs, h⟩ => ⟨String.ofList cs, by simpa using h⟩⟩

theorem line?_eq_some_iff {index : LineIndex} {text line : String} {n : UInt32} :
    index.line? text n = some line ↔
      index.lineChars? text.toList n.toNat = some line.toList := by
  rw [line?, Option.map_eq_some_iff]
  constructor
  · rintro ⟨cs, hline, rfl⟩
    rw [hline, String.toList_ofList]
  · intro h
    exact ⟨line.toList, h, String.ofList_toList⟩

-- The index of a text has a line for each part into which newlines split it, one more than there
-- are newlines, and finds in the text the line that the part holds, so there is none only for
-- numbers that count no part. The lines start at increasing offsets in the text. In any text the
-- line with a number is what the part holds that stands where the line stood in the text that was
-- indexed, and there is such a line only if the texts have the same size and no character is cut in
-- two.
theorem line?_ofText (text : String) :
    (ofText text).lineCount = (text.toList.splitOn '\n').length ∧
    (text.toList.splitOn '\n').length = text.toList.count '\n' + 1 ∧
    (∀ (n : UInt32) (line : String), (ofText text).line? text n = some line ↔
      ∃ (k : Nat) (part : String), n.toNat = k + 1 ∧
        (text.toList.splitOn '\n')[k]? = some part.toList ∧ Holds part line) ∧
    (∀ n : UInt32, (ofText text).line? text n = none ↔
      n = 0 ∨ (text.toList.splitOn '\n').length < n.toNat) ∧
    ((ofText text).starts.Pairwise (· < ·) ∧
      ∀ start ∈ (ofText text).starts, start ≤ text.utf8ByteSize) ∧
    (∀ (other : String) (n : UInt32) (line : String), (ofText text).line? other n = some line ↔
      other.utf8ByteSize = text.utf8ByteSize ∧
      ∃ (start stop : Nat) (part : String), (ofText text).span? n.toNat = some (start, stop) ∧
        Cut other start stop part ∧ Holds part line) := by
  refine ⟨lineCount_ofChars _, Text.length_splitOn '\n' _, fun n line => ?_, fun n => ?_,
    ⟨?_, fun start hstart => ?_⟩, fun other n line => ?_⟩
  · rw [line?_eq_some_iff, ofText]
    cases hn : n.toNat with
    | zero => simp [lineChars?_zero]
    | succ k =>
      rw [lineChars?_ofChars, Option.map_eq_some_iff, ← exists_text_iff]
      simp only [holds_iff, Nat.add_right_cancel_iff]
      constructor
      · rintro ⟨part, hpart⟩
        exact ⟨k, part, rfl, hpart⟩
      · rintro ⟨_, part, rfl, hpart⟩
        exact ⟨part, hpart⟩
  · rw [line?, Option.map_eq_none_iff, ofText, ← UInt32.toNat_inj]
    cases hn : n.toNat with
    | zero => simp [lineChars?_zero]
    | succ k =>
      rw [lineChars?_ofChars, Option.map_eq_none_iff, List.getElem?_eq_none_iff, ← Nat.lt_succ_iff]
      simp
  · rw [ofText, starts_ofChars]
    exact partStarts_increasing 0 _
  · rw [ofText, starts_ofChars] at hstart
    have hhigh := (partStarts_bounds hstart).2
    rwa [List.intercalate_splitOn, Nat.zero_add, Text.size8_toList] at hhigh
  · have hsize : (ofText text).size = text.utf8ByteSize := Text.size8_toList text
    rw [line?_eq_some_iff, lineChars?_eq_some_iff, Text.size8_toList, hsize]
    refine and_congr_right fun _ => exists_congr fun start => exists_congr fun stop => ?_
    simp only [cut_iff, holds_iff]
    exact exists_text_iff.symm

end LineIndex

end EmbeddedStyles.Source
