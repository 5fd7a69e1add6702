import EmbeddedStyles.Proofs.Json.Reading

namespace EmbeddedStyles.Json

variable {α : Type} {read : List Char → Except Failure (α × List Char)} {gap ending : List Char}

-- The reader takes the piece off the front of a text and makes `x` of it.
def Takes (read : List Char → Except Failure (α × List Char)) (piece : List Char) (x : α) : Prop :=
  ∀ rest, Delimited rest → read (piece ++ rest) = .ok (x, rest)

-- The piece starts with a character that is neither a blank nor the end of an array.
def Solid (piece : List Char) : Prop :=
  ∃ c cs, piece = c :: cs ∧ isBlank c = false ∧ c ≠ ']'

theorem skipBlanks_solid {piece : List Char} (h : Solid piece) (rest : List Char) :
    skipBlanks (piece ++ rest) = piece ++ rest := by
  obtain ⟨c, cs, rfl, hblank, -⟩ := h
  exact skipBlanks_cons hblank (cs ++ rest)

theorem commaSeparated_cons (piece : List Char) (pieces : List (List Char)) :
    commaSeparated (piece :: pieces) = piece ++ pieces.flatMap (',' :: ·) := by
  induction pieces generalizing piece with
  | nil => simp [commaSeparated]
  | cons next pieces ih =>
    rw [commaSeparated, List.intercalate_cons_cons, ← commaSeparated, ih, List.flatMap_cons,
      List.append_assoc, List.singleton_append, List.cons_append]

-- What follows a part of a container cannot belong to a number.
theorem delimited_parts {rest : List Char} (h : Delimited rest) (pieces : List (List Char)) :
    Delimited (pieces.flatMap (',' :: ·) ++ rest) := by
  cases pieces with
  | nil => exact h
  | cons piece pieces => exact delimited_cons (by decide) (by decide) (by decide) (by decide) _

section Arrays

theorem delimited_bracket (rest : List Char) : Delimited (']' :: rest) :=
  delimited_cons (by decide) (by decide) (by decide) (by decide) rest

theorem nextItem_done (hending : Blank ending) (first : Bool) (rest : List Char) :
    nextItem first (ending ++ ']' :: rest) = .ok (.done rest) := by
  rw [nextItem, skipBlanks_append hending, skipBlanks_cons (by decide)]
  rfl

theorem nextItem_first (hgap : Blank gap) {piece : List Char} (h : Solid piece)
    (rest : List Char) : nextItem true (gap ++ piece ++ rest) = .ok (.more () (piece ++ rest)) := by
  rw [nextItem, List.append_assoc, skipBlanks_append hgap, skipBlanks_solid h]
  obtain ⟨c, cs, rfl, -, hclose⟩ := h
  simp [hclose]

theorem nextItem_next (hgap : Blank gap) {piece : List Char} (h : Solid piece) (rest : List Char) :
    nextItem false (',' :: (gap ++ piece ++ rest)) = .ok (.more () (piece ++ rest)) := by
  rw [nextItem, skipBlanks_cons (by decide)]
  simp only [List.append_assoc, skipBlanks_append hgap, skipBlanks_solid h]
  obtain ⟨c, cs, rfl, -, hclose⟩ := h
  simp [hclose]

theorem items_next (hgap : Blank gap) (hending : Blank ending) {pieces : List (List Char)}
    {xs : List α} (h : List.Forall₂ (fun piece x => Solid piece ∧ Takes read piece x) pieces xs)
    {bound : Nat} (hbound : pieces.length < bound) (rest : List Char) :
    items read bound false
      ((pieces.map (gap ++ ·)).flatMap (',' :: ·) ++ (ending ++ ']' :: rest)) = .ok (xs, rest) := by
  induction h generalizing bound with
  | nil =>
    obtain ⟨bound, rfl⟩ := Nat.exists_eq_add_of_lt hbound
    simp [items, nextItem_done hending]
  | @cons piece x pieces xs hpiece _ ih =>
    obtain ⟨bound, rfl⟩ : ∃ n, bound = n + 1 := ⟨bound - 1, by omega⟩
    have hrest := delimited_parts (delimited_of_blank hending (delimited_bracket rest))
      (pieces.map (gap ++ ·))
    rw [List.map_cons, List.flatMap_cons, List.append_assoc, List.cons_append, items,
      nextItem_next hgap hpiece.1]
    simp only [ok_bind, hpiece.2 _ hrest, ih (by simpa using hbound), pure_eq_ok]

theorem items_commaSeparated (hgap : Blank gap) (hending : Blank ending)
    {pieces : List (List Char)} {xs : List α}
    (h : List.Forall₂ (fun piece x => Solid piece ∧ Takes read piece x) pieces xs)
    {bound : Nat} (hbound : pieces.length < bound) (rest : List Char) :
    items read bound true
      (commaSeparated (pieces.map (gap ++ ·)) ++ (ending ++ ']' :: rest)) = .ok (xs, rest) := by
  obtain ⟨bound, rfl⟩ : ∃ n, bound = n + 1 := ⟨bound - 1, by omega⟩
  cases h with
  | nil => simp [items, commaSeparated, nextItem_done hending]
  | @cons piece x pieces xs hpiece hpieces =>
    have hrest := delimited_parts (delimited_of_blank hending (delimited_bracket rest))
      (pieces.map (gap ++ ·))
    rw [List.map_cons, commaSeparated_cons, List.append_assoc, items, nextItem_first hgap hpiece.1]
    simp only [ok_bind, hpiece.2 _ hrest,
      items_next hgap hending hpieces (by simpa using hbound), pure_eq_ok]

end Arrays

section Objects

theorem delimited_brace (rest : List Char) : Delimited ('\x7d' :: rest) :=
  delimited_cons (by decide) (by decide) (by decide) (by decide) rest

theorem nextKey_done (hending : Blank ending) (first : Bool) (rest : List Char) :
    nextKey first (ending ++ '\x7d' :: rest) = .ok (.done rest) := by
  rw [nextKey, skipBlanks_append hending, skipBlanks_cons (by decide)]
  rfl

theorem nextKey_first (hgap : Blank gap) (key : String) (rest : List Char) :
    nextKey true (gap ++ (stringChars key.toList ++ rest)) = .ok (.more key rest) := by
  rw [nextKey, skipBlanks_append hgap, stringChars, List.cons_append, skipBlanks_cons (by decide),
    List.append_assoc]
  simp [readString_escaped]

theorem nextKey_next (hgap : Blank gap) (key : String) (rest : List Char) :
    nextKey false (',' :: (gap ++ (stringChars key.toList ++ rest))) = .ok (.more key rest) := by
  rw [nextKey, skipBlanks_cons (by decide)]
  simp only [skipBlanks_append hgap, stringChars, List.cons_append, List.append_assoc]
  rw [skipBlanks_cons (by decide)]
  simp [readString_escaped]

theorem colon_cons (rest : List Char) : colon (':' :: rest) = .ok rest := by
  rw [colon, skipBlanks_cons (by decide)]
  rfl

-- The entry of an object, with blanks before it.
def entryPiece (gap : List Char) (entry : String × List Char) : List Char :=
  gap ++ (stringChars entry.1.toList ++ ':' :: entry.2)

theorem entries_next (hgap : Blank gap) (hending : Blank ending)
    {pieces : List (String × List Char)} {xs : List (String × α)}
    (h : List.Forall₂ (fun piece x => piece.1 = x.1 ∧ Takes read piece.2 x.2) pieces xs)
    {bound : Nat} (hbound : pieces.length < bound) (rest : List Char) :
    entries read bound false
      ((pieces.map (entryPiece gap)).flatMap (',' :: ·) ++ (ending ++ '\x7d' :: rest)) =
        .ok (xs, rest) := by
  induction h generalizing bound with
  | nil =>
    obtain ⟨bound, rfl⟩ := Nat.exists_eq_add_of_lt hbound
    simp [entries, nextKey_done hending]
  | @cons piece x pieces xs hpiece _ ih =>
    obtain ⟨bound, rfl⟩ : ∃ n, bound = n + 1 := ⟨bound - 1, by omega⟩
    have hrest := delimited_parts (delimited_of_blank hending (delimited_brace rest))
      (pieces.map (entryPiece gap))
    simp only [List.map_cons, List.flatMap_cons, List.append_assoc, List.cons_append, entryPiece]
    rw [entries, nextKey_next hgap]
    simp only [ok_bind, colon_cons, hpiece.2 _ hrest, ih (by simpa using hbound), pure_eq_ok,
      hpiece.1]

theorem entries_commaSeparated (hgap : Blank gap) (hending : Blank ending)
    {pieces : List (String × List Char)} {xs : List (String × α)}
    (h : List.Forall₂ (fun piece x => piece.1 = x.1 ∧ Takes read piece.2 x.2) pieces xs)
    {bound : Nat} (hbound : pieces.length < bound) (rest : List Char) :
    entries read bound true
      (commaSeparated (pieces.map (entryPiece gap)) ++ (ending ++ '\x7d' :: rest)) =
        .ok (xs, rest) := by
  obtain ⟨bound, rfl⟩ : ∃ n, bound = n + 1 := ⟨bound - 1, by omega⟩
  cases h with
  | nil => simp [entries, commaSeparated, nextKey_done hending]
  | @cons piece x pieces xs hpiece hpieces =>
    have hrest := delimited_parts (delimited_of_blank hending (delimited_brace rest))
      (pieces.map (entryPiece gap))
    simp only [List.map_cons, commaSeparated_cons, List.append_assoc, List.cons_append, entryPiece]
    rw [entries, nextKey_first hgap]
    simp only [ok_bind, colon_cons, hpiece.2 _ hrest,
      entries_next hgap hending hpieces (by simpa using hbound), pure_eq_ok, hpiece.1]

end Objects

section Documents

theorem length_le_commaSeparated (pieces : List (List Char)) :
    pieces.length ≤ (commaSeparated pieces).length + 1 := by
  cases pieces with
  | nil => simp
  | cons piece pieces =>
    have hparts : pieces.length ≤ (pieces.flatMap (',' :: ·)).length := by
      induction pieces with
      | nil => simp
      | cons next pieces ih =>
        simp only [List.flatMap_cons, List.length_append, List.length_cons]
        omega
    rw [commaSeparated_cons]
    simp only [List.length_cons, List.length_append]
    omega

theorem takes_array (hgap : Blank gap) (hending : Blank ending) {depth : Nat}
    {pieces : List (List Char)} {xs : List Json}
    (h : List.Forall₂ (fun piece x => Solid piece ∧ Takes (value depth) piece x) pieces xs) :
    Takes (value (depth + 1))
      ('[' :: (commaSeparated (pieces.map (gap ++ ·)) ++ (ending ++ [']']))) (.array xs) := by
  intro rest _
  have hlength := length_le_commaSeparated (pieces.map (gap ++ ·))
  have hbound : pieces.length <
      (commaSeparated (pieces.map (gap ++ ·)) ++ (ending ++ ']' :: rest)).length + 1 := by
    simp only [List.length_map, List.length_append, List.length_cons] at hlength ⊢
    omega
  have hitems := items_commaSeparated hgap hending h hbound rest
  simp only [List.cons_append, List.append_assoc, List.nil_append, value,
    skipBlanks_cons (show isBlank '[' = false by decide), hitems, ok_bind, pure_eq_ok]

theorem takes_object (hgap : Blank gap) (hending : Blank ending) {depth : Nat}
    {pieces : List (String × List Char)} {xs : List (String × Json)}
    (h : List.Forall₂ (fun piece x => piece.1 = x.1 ∧ Takes (value depth) piece.2 x.2) pieces xs) :
    Takes (value (depth + 1))
      ('\x7b' :: (commaSeparated (pieces.map (entryPiece gap)) ++ (ending ++ ['\x7d'])))
      (.object xs) := by
  intro rest _
  have hlength := length_le_commaSeparated (pieces.map (entryPiece gap))
  have hbound : pieces.length <
      (commaSeparated (pieces.map (entryPiece gap)) ++ (ending ++ '\x7d' :: rest)).length + 1 := by
    simp only [List.length_map, List.length_append, List.length_cons] at hlength ⊢
    omega
  have hentries := entries_commaSeparated hgap hending h hbound rest
  simp only [List.cons_append, List.append_assoc, List.nil_append, value,
    skipBlanks_cons (show isBlank '\x7b' = false by decide), hentries, ok_bind, pure_eq_ok]

theorem value_of_scalar {c : Char} (hblank : isBlank c = false) (harray : c ≠ '[')
    (hobject : c ≠ '\x7b') (depth : Nat) (cs : List Char) :
    value depth (c :: cs) = scalar (c :: cs) := by
  cases depth <;>
  · rw [value, skipBlanks_cons hblank]
    split
    next h => exact absurd (List.cons.inj h).1 harray
    next h => exact absurd (List.cons.inj h).1 hobject
    next => rfl

-- Whether a document is read back: numbers are exact and containers stand no deeper than allowed.
mutual

def Readable : (depth : Nat) → Json → Prop
  | _, .null => True
  | _, .bool _ => True
  | _, .number n => n.Exact
  | _, .string _ => True
  | 0, .array _ => False
  | 0, .object _ => False
  | depth + 1, .array items => ReadableItems depth items
  | depth + 1, .object entries => ReadableEntries depth entries

def ReadableItems : (depth : Nat) → List Json → Prop
  | _, [] => True
  | depth, item :: items => Readable depth item ∧ ReadableItems depth items

def ReadableEntries : (depth : Nat) → List (String × Json) → Prop
  | _, [] => True
  | depth, (_, item) :: entries => Readable depth item ∧ ReadableEntries depth entries

end

theorem takes_null (depth : Nat) : Takes (value depth) nullChars .null := by
  intro rest _
  rw [nullChars, List.cons_append, value_of_scalar (by decide) (by decide) (by decide)]
  rfl

theorem takes_bool (depth : Nat) (b : Bool) : Takes (value depth) (boolChars b) (.bool b) := by
  intro rest _
  cases b <;>
  · simp only [boolChars, if_true, Bool.false_eq_true, if_false, List.cons_append]
    rw [value_of_scalar (by decide) (by decide) (by decide)]
    rfl

theorem takes_string (depth : Nat) (s : String) :
    Takes (value depth) (stringChars s.toList) (.string s) := by
  intro rest _
  rw [stringChars, List.cons_append, List.append_assoc,
    value_of_scalar (by decide) (by decide) (by decide)]
  simp [scalar, readString_escaped]

theorem Number.Exact.solid {n : Number} (h : n.Exact) :
    Solid n.chars ∧ n.chars.head? ≠ some '[' ∧ n.chars.head? ≠ some '\x7b' := by
  obtain ⟨c, cs, hchars, hdigit | rfl⟩ := h.exists_cons
  · have hne : ∀ d : Char, d.isDigit = false → c ≠ d := fun _ => ne_of_isDigit hdigit
    have hblank : isBlank c = false := by
      simp [isBlank, hne ' ' (by decide), hne '\n' (by decide), hne '\t' (by decide),
        hne '\r' (by decide)]
    rw [hchars]
    exact ⟨⟨c, cs, rfl, hblank, hne ']' (by decide)⟩, by simpa using hne '[' (by decide),
      by simpa using hne '\x7b' (by decide)⟩
  · rw [hchars]
    exact ⟨⟨'-', cs, rfl, by decide, by decide⟩, by simp, by simp⟩

theorem takes_number (depth : Nat) {n : Number} (h : n.Exact) :
    Takes (value depth) n.chars (.number n) := by
  intro rest hrest
  obtain ⟨⟨c, cs, hchars, hblank, -⟩, harray, hobject⟩ := h.solid
  have hscalar := scalar_number h hrest
  rw [hchars] at harray hobject hscalar ⊢
  rw [List.cons_append, value_of_scalar hblank (by simpa using harray) (by simpa using hobject)]
  exact hscalar

theorem blank_newline (indent : Nat) : Blank (newline indent) := by
  intro c hc
  rcases List.mem_cons.mp hc with rfl | hc
  · decide
  · rw [List.eq_of_mem_replicate hc]
    decide

-- The parts of the entries of an object on lines of their own.
def prettyPieces (indent : Nat) (entries : List (String × Json)) : List (String × List Char) :=
  entries.map fun entry => (entry.1, ' ' :: prettyChars indent entry.2)

theorem prettyEntries_eq (indent : Nat) (entries : List (String × Json)) :
    (prettyEntries indent entries).map (newline indent ++ ·) =
      (prettyPieces indent entries).map (entryPiece (newline indent)) := by
  induction entries with
  | nil => rfl
  | cons entry entries ih => simp [prettyEntries, prettyPieces, entryPiece, ih]

theorem exists_onLines (opening closing : Char) (indent : Nat) (pieces : List (List Char)) :
    ∃ ending, Blank ending ∧ onLines opening closing indent pieces =
      opening :: (commaSeparated (pieces.map (newline (indent + 1) ++ ·)) ++
        (ending ++ [closing])) := by
  cases pieces with
  | nil => exact ⟨[], by simp [Blank], rfl⟩
  | cons piece pieces => exact ⟨newline indent, blank_newline indent, by simp [onLines]⟩

theorem value_of_blank {gap : List Char} (h : Blank gap) (depth : Nat) (cs : List Char) :
    value depth (gap ++ cs) = value depth cs := by
  cases depth <;> simp only [value, skipBlanks_append h]

mutual

theorem takes_prettyChars (depth indent : Nat) : (json : Json) → Readable depth json →
    Solid (prettyChars indent json) ∧ Takes (value depth) (prettyChars indent json) json
  | .null, _ => ⟨⟨_, _, rfl, by decide, by decide⟩, takes_null depth⟩
  | .bool true, _ => ⟨⟨_, _, rfl, by decide, by decide⟩, takes_bool depth true⟩
  | .bool false, _ => ⟨⟨_, _, rfl, by decide, by decide⟩, takes_bool depth false⟩
  | .number n, h => by
    have hexact : n.Exact := by simpa only [Readable] using h
    exact ⟨hexact.solid.1, takes_number depth hexact⟩
  | .string s, _ => ⟨⟨_, _, rfl, by decide, by decide⟩, takes_string depth s⟩
  | .array items, h => by
    obtain ⟨ending, hending, hlines⟩ :=
      exists_onLines '[' ']' indent (prettyItems (indent + 1) items)
    rw [prettyChars, hlines]
    refine ⟨⟨_, _, rfl, by decide, by decide⟩, ?_⟩
    cases depth with
    | zero => exact absurd h (by simp [Readable])
    | succ depth =>
      have hitems : ReadableItems depth items := by simpa only [Readable] using h
      exact takes_array (blank_newline _) hending
        (takes_prettyItems depth (indent + 1) items hitems)
  | .object entries, h => by
    obtain ⟨ending, hending, hlines⟩ :=
      exists_onLines '\x7b' '\x7d' indent (prettyEntries (indent + 1) entries)
    rw [prettyChars, hlines, prettyEntries_eq]
    refine ⟨⟨_, _, rfl, by decide, by decide⟩, ?_⟩
    cases depth with
    | zero => exact absurd h (by simp [Readable])
    | succ depth =>
      have hentries : ReadableEntries depth entries := by simpa only [Readable] using h
      exact takes_object (blank_newline _) hending
        (takes_prettyEntries depth (indent + 1) entries hentries)

theorem takes_prettyItems (depth indent : Nat) : (items : List Json) → ReadableItems depth items →
    List.Forall₂ (fun piece x => Solid piece ∧ Takes (value depth) piece x)
      (prettyItems indent items) items
  | [], _ => .nil
  | item :: items, h => by
    simp only [ReadableItems] at h
    exact .cons (takes_prettyChars depth indent item h.1) (takes_prettyItems depth indent items h.2)

theorem takes_prettyEntries (depth indent : Nat) : (entries : List (String × Json)) →
    ReadableEntries depth entries →
    List.Forall₂ (fun piece x => piece.1 = x.1 ∧ Takes (value depth) piece.2 x.2)
      (prettyPieces indent entries) entries
  | [], _ => .nil
  | (key, item) :: entries, h => by
    simp only [ReadableEntries] at h
    obtain ⟨-, htakes⟩ := takes_prettyChars depth indent item h.1
    refine .cons ⟨rfl, ?_⟩ (takes_prettyEntries depth indent entries h.2)
    intro rest hrest
    have hgap : Blank [' '] := by simp [Blank, isBlank]
    exact (value_of_blank hgap depth _).trans (htakes rest hrest)

end

-- A document that is written and read again is the same document.
theorem parse_pretty {json : Json} (h : Readable maxDepth json) : parse json.pretty = .ok json := by
  obtain ⟨-, htakes⟩ := takes_prettyChars maxDepth 0 json h
  have hread := htakes [] delimited_nil
  rw [List.append_nil] at hread
  simp [parse, pretty, ofChars, finish, hread, skipBlanks]

end Documents

end EmbeddedStyles.Json
