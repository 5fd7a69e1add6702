import EmbeddedStyles.Proofs.Config.Comments
import EmbeddedStyles.Proofs.Text.Split

namespace EmbeddedStyles.Config

-- What may stand between the quotes of a string. A backslash takes the next character with it.
inductive Quoted : List Char → Prop
  | nil : Quoted []
  | plain {c : Char} {cs : List Char} (hquote : c ≠ '"') (hbackslash : c ≠ '\\')
      (h : Quoted cs) : Quoted (c :: cs)
  | escape {cs : List Char} (c : Char) (h : Quoted cs) : Quoted ('\\' :: c :: cs)

-- What follows the quote of a string that is not closed. The last backslash may have nothing to
-- take.
def Unclosed (cs : List Char) : Prop :=
  Quoted cs ∨ ∃ front, Quoted front ∧ cs = front ++ ['\\']

inductive Piece where
  | plain (c : Char)
  | slash
  | string (body : List Char)
  | line (body : List Char)
  | block (body : List Char)
  | openString (body : List Char)
  | openBlock (body : List Char)
  deriving DecidableEq, Repr

namespace Piece

def text : Piece → List Char
  | .plain c => [c]
  | .slash => ['/']
  | .string body => '"' :: (body ++ ['"'])
  | .line body => '/' :: '/' :: body
  | .block body => '/' :: '*' :: (body ++ ['*', '/'])
  | .openString body => '"' :: body
  | .openBlock body => '/' :: '*' :: body

def isComment : Piece → Bool
  | .line _ | .block _ | .openBlock _ => true
  | _ => false

-- Whether it is a piece that stands in front of a text. A line comment goes up to the newline, and
-- what is left open goes to the end.
inductive Before : Piece → List Char → Prop
  | plain {c : Char} {rest : List Char} (hquote : c ≠ '"') (hslash : c ≠ '/') :
      Before (.plain c) rest
  | slash {rest : List Char} (hslash : rest.head? ≠ some '/') (hstar : rest.head? ≠ some '*') :
      Before .slash rest
  | string {body rest : List Char} (h : Quoted body) : Before (.string body) rest
  | line {body rest : List Char} (h : '\n' ∉ body) (hrest : rest = [] ∨ rest.head? = some '\n') :
      Before (.line body) rest
  | block {body rest : List Char} (h : ¬ ['*', '/'] <:+: body) : Before (.block body) rest
  | openString {body : List Char} (h : Unclosed body) : Before (.openString body) []
  | openBlock {body : List Char} (h : ¬ ['*', '/'] <:+: body) : Before (.openBlock body) []

end Piece

-- The pieces of a text, from left to right.
inductive Pieces : List Char → List Piece → Prop
  | nil : Pieces [] []
  | cons {p : Piece} {rest : List Char} {ps : List Piece} (hp : p.Before rest)
      (h : Pieces rest ps) : Pieces (p.text ++ rest) (p :: ps)

section Reading

variable {cs body rest : List Char}

-- Reads a string after its first quote, up to the quote that closes it.
def readQuoted : List Char → Option (List Char × List Char)
  | [] => none
  | '"' :: cs => some ([], cs)
  | '\\' :: cs =>
    match cs with
    | [] => none
    | c :: cs => (readQuoted cs).map fun (body, rest) => ('\\' :: c :: body, rest)
  | c :: cs => (readQuoted cs).map fun (body, rest) => (c :: body, rest)

-- Reads a block comment after its first mark, up to the mark that closes it.
def readBlock : List Char → Option (List Char × List Char)
  | [] => none
  | '*' :: '/' :: cs => some ([], cs)
  | c :: cs => (readBlock cs).map fun (body, rest) => (c :: body, rest)

-- The body of a string is read through, whatever follows.
theorem readQuoted_append (h : Quoted body) (rest : List Char) :
    readQuoted (body ++ rest) = (readQuoted rest).map fun (tail, rest) => (body ++ tail, rest) := by
  induction h with
  | nil => simp
  | plain hquote hbackslash _ ih => simp [readQuoted, ih, Function.comp_def]
  | escape c _ ih => simp [readQuoted, ih, Function.comp_def]

theorem readQuoted_eq_some_iff :
    readQuoted cs = some (body, rest) ↔ Quoted body ∧ cs = body ++ '"' :: rest := by
  constructor
  · intro h
    fun_induction readQuoted cs generalizing body with
    | case1 => cases h
    | case2 cs =>
      cases h
      exact ⟨.nil, rfl⟩
    | case3 => cases h
    | case4 c cs ih =>
      obtain ⟨⟨body, rest⟩, hread, heq⟩ := Option.map_eq_some_iff.mp h
      cases heq
      obtain ⟨hbody, rfl⟩ := ih hread
      exact ⟨.escape c hbody, rfl⟩
    | case5 c cs hquote hbackslash ih =>
      obtain ⟨⟨body, rest⟩, hread, heq⟩ := Option.map_eq_some_iff.mp h
      cases heq
      obtain ⟨hbody, rfl⟩ := ih hread
      exact ⟨.plain hquote hbackslash hbody, rfl⟩
  · rintro ⟨h, rfl⟩
    simp [readQuoted_append h, readQuoted]

theorem readQuoted_eq_none_iff : readQuoted cs = none ↔ Unclosed cs := by
  constructor
  · intro h
    fun_induction readQuoted cs with
    | case1 => exact .inl .nil
    | case2 cs => cases h
    | case3 => exact .inr ⟨[], .nil, rfl⟩
    | case4 c cs ih =>
      rcases ih (Option.map_eq_none_iff.mp h) with hquoted | ⟨front, hfront, rfl⟩
      · exact .inl (.escape c hquoted)
      · exact .inr ⟨_, .escape c hfront, rfl⟩
    | case5 c cs hquote hbackslash ih =>
      rcases ih (Option.map_eq_none_iff.mp h) with hquoted | ⟨front, hfront, rfl⟩
      · exact .inl (.plain hquote hbackslash hquoted)
      · exact .inr ⟨_, .plain hquote hbackslash hfront, rfl⟩
  · rintro (hquoted | ⟨front, hfront, rfl⟩)
    · have hread := readQuoted_append hquoted []
      simpa [readQuoted] using hread
    · simp [readQuoted_append hfront, readQuoted]

theorem readBlock_cons {c : Char} (h : ¬ (c = '*' ∧ cs.head? = some '/')) :
    readBlock (c :: cs) = (readBlock cs).map fun (body, rest) => (c :: body, rest) := by
  rw [readBlock]
  rintro ds rfl rfl
  exact h ⟨rfl, rfl⟩

theorem readBlock_eq_some_iff :
    readBlock cs = some (body, rest) ↔
      ¬ ['*', '/'] <:+: body ∧ cs = body ++ '*' :: '/' :: rest := by
  constructor
  · intro h
    fun_induction readBlock cs generalizing body with
    | case1 => cases h
    | case2 cs =>
      cases h
      simp
    | case3 c cs hopen ih =>
      obtain ⟨⟨body, rest⟩, hread, heq⟩ := Option.map_eq_some_iff.mp h
      cases heq
      obtain ⟨hbody, rfl⟩ := ih hread
      refine ⟨?_, rfl⟩
      rw [closing_infix_cons_iff]
      rintro (⟨rfl, hhead⟩ | hinfix)
      · obtain ⟨ds, rfl⟩ := List.head?_eq_some_iff.mp hhead
        exact hopen _ rfl rfl
      · exact hbody hinfix
  · rintro ⟨h, rfl⟩
    induction body with
    | nil => rfl
    | cons c body ih =>
      rw [closing_infix_cons_iff, not_or, ← head?_append_closing body rest] at h
      rw [List.cons_append, readBlock_cons h.1, ih h.2]
      rfl

theorem readBlock_eq_none_iff : readBlock cs = none ↔ ¬ ['*', '/'] <:+: cs := by
  induction cs with
  | nil => simp [readBlock]
  | cons c cs ih =>
    rw [closing_infix_cons_iff]
    by_cases hclosing : c = '*' ∧ cs.head? = some '/'
    · obtain ⟨rfl, hhead⟩ := hclosing
      obtain ⟨ds, rfl⟩ := List.head?_eq_some_iff.mp hhead
      simp [readBlock]
    · rw [readBlock_cons hclosing, Option.map_eq_none_iff, ih]
      simp [hclosing]

-- The piece with which a text starts, and what follows it.
def first? : List Char → Option (Piece × List Char)
  | [] => none
  | '"' :: cs =>
    match readQuoted cs with
    | some (body, rest) => some (.string body, rest)
    | none => some (.openString cs, [])
  | '/' :: '/' :: cs => some (.line (cs.takeWhile (· ≠ '\n')), cs.dropWhile (· ≠ '\n'))
  | '/' :: '*' :: cs =>
    match readBlock cs with
    | some (body, rest) => some (.block body, rest)
    | none => some (.openBlock cs, [])
  | '/' :: cs => some (.slash, cs)
  | c :: cs => some (.plain c, cs)

theorem before_of_first? {p : Piece} (h : first? cs = some (p, rest)) :
    p.Before rest ∧ cs = p.text ++ rest := by
  unfold first? at h
  split at h
  case h_1 => cases h
  case h_2 cs =>
    cases hread : readQuoted cs with
    | some read =>
      obtain ⟨body, rest'⟩ := read
      rw [hread] at h
      cases h
      obtain ⟨hbody, rfl⟩ := readQuoted_eq_some_iff.mp hread
      exact ⟨.string hbody, by simp [Piece.text]⟩
    | none =>
      rw [hread] at h
      cases h
      exact ⟨.openString (readQuoted_eq_none_iff.mp hread), by simp [Piece.text]⟩
  case h_3 cs =>
    cases h
    refine ⟨.line ?_ ?_, by simp [Piece.text]⟩
    · intro hmem
      simpa using List.mem_takeWhile_imp hmem
    · have hstop := List.head?_dropWhile_not (· ≠ '\n') cs
      cases hrest : cs.dropWhile (· ≠ '\n') with
      | nil => exact .inl rfl
      | cons c rest =>
        rw [hrest] at hstop
        exact .inr (by simpa using hstop)
  case h_4 cs =>
    cases hread : readBlock cs with
    | some read =>
      obtain ⟨body, rest'⟩ := read
      rw [hread] at h
      cases h
      obtain ⟨hbody, rfl⟩ := readBlock_eq_some_iff.mp hread
      exact ⟨.block hbody, by simp [Piece.text]⟩
    | none =>
      rw [hread] at h
      cases h
      exact ⟨.openBlock (readBlock_eq_none_iff.mp hread), by simp [Piece.text]⟩
  case h_5 cs hslash hstar =>
    cases h
    refine ⟨.slash ?_ ?_, rfl⟩
    · rintro hhead
      obtain ⟨ds, rfl⟩ := List.head?_eq_some_iff.mp hhead
      exact hslash ds rfl
    · rintro hhead
      obtain ⟨ds, rfl⟩ := List.head?_eq_some_iff.mp hhead
      exact hstar ds rfl
  case h_6 c cs hquote _ _ hslash =>
    cases h
    exact ⟨.plain hquote hslash, rfl⟩

theorem first?_text_append {p : Piece} (h : p.Before rest) :
    first? (p.text ++ rest) = some (p, rest) := by
  cases h with
  | plain hquote hslash => simp [Piece.text, first?, hslash]
  | slash hslash hstar =>
    cases rest with
    | nil => rfl
    | cons c rest =>
      rw [List.head?_cons, ne_eq, Option.some_inj] at hslash hstar
      simp [Piece.text, first?, hslash, hstar]
  | @string body _ h =>
    have hread : readQuoted (body ++ '"' :: rest) = some (body, rest) :=
      readQuoted_eq_some_iff.mpr ⟨h, rfl⟩
    simp [Piece.text, first?, hread]
  | @line body _ h hrest =>
    have hstop : ∀ c ∈ rest.head?, decide (c ≠ '\n') = false := by
      rcases hrest with rfl | hhead
      · simp
      · simp [hhead]
    have hbody : ∀ c ∈ body, decide (c ≠ '\n') = true := by
      simpa using List.forall_mem_ne'.mpr h
    obtain ⟨htake, hdrop⟩ := (Text.eq_append_run_iff hstop).mp ⟨rfl, hbody⟩
    simp only [Piece.text, List.cons_append, first?, htake, hdrop]
  | @block body _ h =>
    have hread : readBlock (body ++ '*' :: '/' :: rest) = some (body, rest) :=
      readBlock_eq_some_iff.mpr ⟨h, rfl⟩
    simp [Piece.text, first?, hread]
  | openString h =>
    simp [Piece.text, first?, readQuoted_eq_none_iff.mpr h]
  | openBlock h =>
    simp [Piece.text, first?, readBlock_eq_none_iff.mpr h]

theorem exists_first? (h : cs ≠ []) : ∃ p rest, first? cs = some (p, rest) := by
  unfold first?
  split
  case h_1 => exact absurd rfl h
  case h_2 cs => cases readQuoted cs <;> exact ⟨_, _, rfl⟩
  case h_4 cs => cases readBlock cs <;> exact ⟨_, _, rfl⟩
  all_goals exact ⟨_, _, rfl⟩

theorem Piece.text_ne_nil (p : Piece) : p.text ≠ [] := by
  cases p <;> simp [Piece.text]

theorem exists_pieces (cs : List Char) : ∃ ps, Pieces cs ps := by
  induction hn : cs.length using Nat.strong_induction_on generalizing cs with
  | _ n ih =>
    cases cs with
    | nil => exact ⟨[], .nil⟩
    | cons c cs =>
      obtain ⟨p, rest, hfirst⟩ := exists_first? (List.cons_ne_nil c cs)
      obtain ⟨hp, htext⟩ := before_of_first? hfirst
      have hlength := congrArg List.length htext
      have hpos := List.length_pos_iff.mpr p.text_ne_nil
      rw [List.length_append] at hlength
      obtain ⟨ps, hps⟩ := ih rest.length (by omega) rest rfl
      exact ⟨p :: ps, htext ▸ .cons hp hps⟩

theorem Pieces.unique {ps qs : List Piece} (h : Pieces cs ps) (h' : Pieces cs qs) : ps = qs := by
  induction h generalizing qs with
  | nil =>
    generalize hcs : ([] : List Char) = ds at h'
    cases h' with
    | nil => rfl
    | @cons q => exact absurd (List.append_eq_nil_iff.mp hcs.symm).1 q.text_ne_nil
  | @cons p rest ps hp _ ih =>
    generalize hcs : p.text ++ rest = ds at h'
    cases h' with
    | nil => exact absurd (List.append_eq_nil_iff.mp hcs).1 p.text_ne_nil
    | @cons q rest' qs hq hqs =>
      -- The first piece is read off the text, which is the same for both.
      have hfirst := first?_text_append hp
      rw [hcs, first?_text_append hq] at hfirst
      cases hfirst
      rw [ih hqs]

end Reading

section Stripping

variable {cs body rest : List Char} {p : Piece} {ps : List Piece}

theorem stripFrom_string_append (h : Quoted body) (cs : List Char) :
    stripFrom .string (body ++ cs) = body ++ stripFrom .string cs := by
  induction h with
  | nil => rfl
  | plain hquote hbackslash _ ih =>
    rw [List.cons_append, stripFrom.eq_def]
    simp [hquote, hbackslash, ih]
  | escape c _ ih => simp [stripFrom, ih]

theorem stripFrom_string_quote (cs : List Char) :
    stripFrom .string ('"' :: cs) = '"' :: stripFrom .plain cs := by
  rw [stripFrom.eq_def]
  rfl

theorem stripFrom_plain_quote (cs : List Char) :
    stripFrom .plain ('"' :: cs) = '"' :: stripFrom .string cs := by
  rw [stripFrom.eq_def]
  rfl

theorem stripFrom_block_open (h : ¬ ['*', '/'] <:+: body) : stripFrom .block body = [] := by
  induction body with
  | nil => simp [stripFrom]
  | cons c body ih =>
    rw [closing_infix_cons_iff, not_or] at h
    rw [stripFrom_block_cons h.1, ih h.2]

-- A piece is kept or taken out as a whole.
theorem stripFrom_text_append (h : p.Before rest) :
    stripFrom .plain (p.text ++ rest) =
      (if p.isComment then [] else p.text) ++ stripFrom .plain rest := by
  cases h with
  | @plain c _ hquote hslash =>
    rw [Piece.text, List.singleton_append, stripFrom.eq_def]
    simp [Piece.isComment, hquote, hslash]
  | slash hslash hstar =>
    rw [Piece.text, List.singleton_append, stripFrom.eq_def]
    cases rest with
    | nil => simp [Piece.isComment]
    | cons c rest =>
      rw [List.head?_cons, ne_eq, Option.some_inj] at hslash hstar
      simp [Piece.isComment, hslash, hstar]
  | @string body _ h =>
    simp [Piece.text, Piece.isComment, stripFrom_plain_quote, stripFrom_string_quote,
      stripFrom_string_append h]
  | @line body _ h hrest =>
    have hline : stripFrom .line rest = stripFrom .plain rest := by
      rcases hrest with rfl | hhead
      · rfl
      · obtain ⟨ds, rfl⟩ := List.head?_eq_some_iff.mp hhead
        rw [stripFrom.eq_def, stripFrom.eq_def .plain]
        rfl
    simp [Piece.text, Piece.isComment, stripFrom, stripFrom_line_append h, hline]
  | @block body _ h =>
    simp [Piece.text, Piece.isComment, stripFrom, stripFrom_block h]
  | @openString body h =>
    have hstring : stripFrom .string body = body := by
      rcases h with hquoted | ⟨front, hfront, rfl⟩
      · simpa [stripFrom] using stripFrom_string_append hquoted []
      · simp [stripFrom_string_append hfront, stripFrom]
    simp [Piece.text, Piece.isComment, stripFrom_plain_quote, hstring, stripFrom]
  | openBlock h =>
    simp [Piece.text, Piece.isComment, stripFrom, stripFrom_block_open h]

theorem Pieces.eq_text (h : Pieces cs ps) : cs = ps.flatMap Piece.text := by
  induction h with
  | nil => rfl
  | cons _ _ ih => rw [List.flatMap_cons, ← ih]

theorem Pieces.stripComments_eq (h : Pieces cs ps) :
    stripComments cs = (ps.filter (!·.isComment)).flatMap Piece.text := by
  induction h with
  | nil => rfl
  | @cons p rest ps hp _ ih =>
    rw [stripComments] at ih ⊢
    rw [stripFrom_text_append hp, ih, List.filter_cons]
    cases p.isComment <;> simp

-- Every text has its pieces in exactly one way, and without comments it is what the other pieces
-- have in it.
theorem stripComments_pieces (cs : List Char) :
    (∃! ps, Pieces cs ps) ∧
    ∀ ps, Pieces cs ps → cs = ps.flatMap Piece.text ∧
      stripComments cs = (ps.filter (!·.isComment)).flatMap Piece.text := by
  refine ⟨?_, fun ps h => ⟨h.eq_text, h.stripComments_eq⟩⟩
  obtain ⟨ps, hps⟩ := exists_pieces cs
  exact ⟨ps, hps, fun qs hqs => hqs.unique hps⟩

-- A mark in a string, a comment with a slash after its mark and a quote in it, and an open string.
example : stripComments "\"//\\\"\"/*/\"**/ / \"/*".toList = "\"//\\\"\" / \"/*".toList := by
  decide +kernel

-- What is left begins with the same character, if no comment may begin there.
theorem head?_stripComments (h : rest.head? ≠ some '/') :
    (stripComments rest).head? = rest.head? := by
  cases rest with
  | nil => rfl
  | cons c rest =>
    rw [List.head?_cons, ne_eq, Option.some_inj] at h
    rw [stripComments, stripFrom_plain_cons h]
    rfl

-- A piece that is kept stands in front of what is left, too.
theorem Piece.Before.stripped (h : p.Before rest) (hp : p.isComment = false) :
    p.Before (stripComments rest) := by
  cases h with
  | plain hquote hslash => exact .plain hquote hslash
  | slash hslash hstar =>
    have hhead := head?_stripComments hslash
    exact .slash (hhead ▸ hslash) (hhead ▸ hstar)
  | string h => exact .string h
  | openString h => exact .openString h
  | line _ _ => cases hp
  | block _ => cases hp
  | openBlock _ => cases hp

theorem Pieces.stripped (h : Pieces cs ps) :
    Pieces (stripComments cs) (ps.filter (!·.isComment)) := by
  induction h with
  | nil => exact .nil
  | @cons p rest ps hp _ ih =>
    rw [stripComments, stripFrom_text_append hp, List.filter_cons, ← stripComments]
    cases hcomment : p.isComment with
    | true => simpa using ih
    | false => simpa using Pieces.cons (hp.stripped hcomment) ih

-- Once the comments are gone, none is left or newly made: what is left has the kept pieces of the
-- text and no others, and nothing is taken out of it.
theorem stripComments_idem (cs : List Char) :
    stripComments (stripComments cs) = stripComments cs ∧
    ∀ ps, Pieces cs ps → Pieces (stripComments cs) (ps.filter (!·.isComment)) := by
  refine ⟨?_, fun ps h => h.stripped⟩
  obtain ⟨ps, hps⟩ := exists_pieces cs
  rw [hps.stripped.stripComments_eq, hps.stripComments_eq, List.filter_filter]
  simp only [Bool.and_self]

end Stripping

end EmbeddedStyles.Config
