import EmbeddedStyles.Config
import EmbeddedStyles.Proofs.Json.Agreement
import EmbeddedStyles.Proofs.Json.Compact
import EmbeddedStyles.Proofs.Json.Spacing.Containers

namespace EmbeddedStyles.Config

open Json (Blank Decoder Inserted Record Scan)

-- A comment with both its marks. The newline that ends a line comment belongs to it.
inductive Comment : List Char → Prop
  | line {body : List Char} (h : '\n' ∉ body) : Comment ('/' :: '/' :: (body ++ ['\n']))
  | block {body : List Char} (h : ¬ ['*', '/'] <:+: body) :
      Comment ('/' :: '*' :: (body ++ ['*', '/']))

section Stripping

variable {s : Scan} {c : Char} {cs ds body : List Char}

-- What is left of the comments after a place where the scan of the tokens stands.
def stripAt : Scan → List Char → List Char
  | .between, cs => stripFrom .plain cs
  | .word, cs => stripFrom .plain cs
  | .string, cs => stripFrom .string cs
  | .escape, [] => []
  | .escape, c :: cs => c :: stripFrom .string cs

theorem stripAt_nil (s : Scan) : stripAt s [] = [] := by
  cases s <;> simp [stripAt, stripFrom]

theorem stripFrom_plain_cons (h : c ≠ '/') (cs : List Char) :
    stripFrom .plain (c :: cs) = c :: stripAt (Scan.between.next c) cs := by
  rw [stripFrom.eq_def]
  by_cases hquote : c = '"'
  · simp [Scan.next, stripAt, hquote]
  · cases hword : Json.isWordChar c <;> simp [Scan.next, stripAt, hquote, hword, h]

theorem stripFrom_string_cons (c : Char) (cs : List Char) :
    stripFrom .string (c :: cs) = c :: stripAt (Scan.string.next c) cs := by
  rw [stripFrom.eq_def]
  by_cases hquote : c = '"'
  · simp [Scan.next, stripAt, hquote]
  · by_cases hbackslash : c = '\\'
    · cases cs <;> simp [Scan.next, stripAt, hbackslash]
    · simp [Scan.next, stripAt, hquote, hbackslash]

-- The two scans take the same characters for those of strings.
theorem stripAt_cons (h : s.inString = true ∨ c ≠ '/') (cs : List Char) :
    stripAt s (c :: cs) = c :: stripAt (s.next c) cs := by
  cases s with
  | between => exact stripFrom_plain_cons (by simpa [Scan.inString] using h) cs
  | word => exact stripFrom_plain_cons (by simpa [Scan.inString] using h) cs
  | string => exact stripFrom_string_cons c cs
  | escape => rfl

theorem stripAt_of_clean (h : s.Clean cs) : stripAt s cs = cs := by
  induction cs generalizing s with
  | nil => exact stripAt_nil s
  | cons c cs ih => rw [stripAt_cons h.1, ih h.2]

theorem stripComments_of_clean (h : Scan.between.Clean cs) : stripComments cs = cs :=
  stripAt_of_clean h

theorem stripFrom_line_append (h : '\n' ∉ body) (cs : List Char) :
    stripFrom .line (body ++ cs) = stripFrom .line cs := by
  induction body with
  | nil => rfl
  | cons c body ih =>
    rw [List.mem_cons, not_or] at h
    simp [stripFrom, Ne.symm h.1, ih h.2]

theorem stripFrom_line (h : '\n' ∉ body) (cs : List Char) :
    stripFrom .line (body ++ '\n' :: cs) = '\n' :: stripFrom .plain cs := by
  rw [stripFrom_line_append h]
  rfl

-- The mark that closes a comment stands at the start of a text or further on.
theorem closing_infix_cons_iff :
    ['*', '/'] <:+: c :: cs ↔ (c = '*' ∧ cs.head? = some '/') ∨ ['*', '/'] <:+: cs := by
  cases cs with
  | nil => simp [List.infix_cons_iff]
  | cons d cs => simp [List.infix_cons_iff, eq_comm]

-- A star at the end of the body stands before the closing star and not before a slash.
theorem head?_append_closing (body cs : List Char) :
    (body ++ '*' :: '/' :: cs).head? = some '/' ↔ body.head? = some '/' := by
  cases body <;> simp

theorem stripFrom_block_cons (h : ¬ (c = '*' ∧ cs.head? = some '/')) :
    stripFrom .block (c :: cs) = stripFrom .block cs := by
  rw [stripFrom.eq_def]
  dsimp only
  by_cases hstar : c = '*'
  · rw [if_pos hstar]
    split
    next => exact absurd ⟨hstar, rfl⟩ h
    next => rfl
  · rw [if_neg hstar]

theorem stripFrom_block (h : ¬ ['*', '/'] <:+: body) (cs : List Char) :
    stripFrom .block (body ++ '*' :: '/' :: cs) = stripFrom .plain cs := by
  induction body with
  | nil => simp [stripFrom]
  | cons c body ih =>
    rw [closing_infix_cons_iff, not_or, ← head?_append_closing body cs] at h
    rw [List.cons_append, stripFrom_block_cons h.1, ih h.2]

-- A comment leaves a newline or nothing.
theorem Comment.exists_gap {piece : List Char} (h : Comment piece) :
    ∃ gap, Blank gap ∧ ∀ cs, stripFrom .plain (piece ++ cs) = gap ++ stripFrom .plain cs := by
  cases h with
  | line hbody =>
    refine ⟨['\n'], by simp [Blank, Json.isBlank], fun cs => ?_⟩
    simpa [stripFrom] using stripFrom_line hbody cs
  | block hbody =>
    refine ⟨[], by simp [Blank], fun cs => ?_⟩
    simpa [stripFrom] using stripFrom_block hbody cs

theorem stripAt_of_atBoundary (h : s.AtBoundary cs) (ds : List Char) :
    stripAt s ds = stripFrom .plain ds := by
  rcases h with rfl | ⟨rfl, -⟩ <;> rfl

theorem inserted_stripAt (hclean : s.Clean cs) (h : Inserted Comment s cs ds) :
    Inserted Blank s cs (stripAt s ds) := by
  induction h with
  | nil s =>
    rw [stripAt_nil]
    exact .nil s
  | keep _ ih =>
    rw [stripAt_cons hclean.1]
    exact .keep (ih hclean.2)
  | insert hs hpiece _ ih =>
    obtain ⟨gap, hgap, hstrip⟩ := hpiece.exists_gap
    rw [stripAt_of_atBoundary hs, hstrip, ← stripAt_of_atBoundary hs]
    exact .insert hs hgap (ih hclean)

theorem inserted_stripComments (hclean : Scan.between.Clean cs)
    (h : Inserted Comment .between cs ds) : Inserted Blank .between cs (stripComments ds) :=
  inserted_stripAt hclean h

end Stripping

section Reading

theorem decoder_agrees : decoder.Agrees := by
  have hstrings : Decoder.string.list.Agrees := (Decoder.stringAs_agrees _).list
  refine Record.decoder_agrees ?_
  simp only [record, List.forall_mem_cons]
  exact ⟨hstrings.map _, hstrings.map _, (Decoder.variant_agrees _).optional.map _,
    Decoder.bool_agrees.optional.map _, (Decoder.stringAs_agrees _).optional.map _, by simp⟩

-- A configuration is what its decoder makes of the document that the comments leave.
theorem parse_eq_ok_iff {text : String} {json : Json} {c : Config}
    (h : Json.parse (String.ofList (stripComments text.toList)) = .ok json) :
    parse text = .ok c ↔ decoder.value json = .ok c := by
  rw [← decoder_agrees.ofText_eq_ok_iff h, parse]
  split <;> simp_all

-- A document has no comments, and its configuration is what the decoder makes of it. Comments
-- between the tokens never change the configuration.
theorem parse_commented (text : String) (json : Json) (h : Json.parse text = .ok json) :
    String.ofList (stripComments text.toList) = text ∧
    (parse text).toOption = (decoder.value json).toOption ∧
    ∀ text' : String, Inserted Comment .between text.toList text'.toList →
      (parse text').toOption = (parse text).toOption := by
  have hclean : Scan.between.Clean text.toList := Json.clean_of_ofChars h
  have hplain : String.ofList (stripComments text.toList) = text := by
    rw [stripComments_of_clean hclean, String.ofList_toList]
  have hparse : (parse text).toOption = (decoder.value json).toOption := by
    apply toOption_congr
    intro c
    exact parse_eq_ok_iff (by rw [hplain, h])
  refine ⟨hplain, hparse, ?_⟩
  intro text' hinserted
  have hplain' : Json.parse (String.ofList (stripComments text'.toList)) = .ok json := by
    rw [Json.parse, String.toList_ofList]
    exact Json.ofChars_of_inserted h (inserted_stripComments hclean hinserted)
  rw [hparse]
  apply toOption_congr
  intro c
  exact parse_eq_ok_iff hplain'

-- One pattern has the marks of comments in it, the other a quote and then a mark.
def markedPatterns : Json :=
  .object [("exclude", .array [.string "src/**/*.ts", .string "\"//"])]

theorem parse_commented_markedPatterns :
    Json.parse ("\x7b\"exclude\":" ++ "[\"src/**/*.ts\",\"\\\"//\"]\x7d") = .ok markedPatterns ∧
    (parse ("/* all **/" ++ "\x7b\"exclude\":" ++ "/**/" ++ "// \"two\n" ++
      "[\"src/**/*.ts\",\"\\\"//\"]\x7d")).toOption =
      some { exclude := ["src/**/*.ts", "\"//"] } := by
  have htext : markedPatterns.compact =
      "\x7b\"exclude\":" ++ "[\"src/**/*.ts\",\"\\\"//\"]\x7d" := by
    decide +kernel
  have hnumbers : markedPatterns.numbers = [] := rfl
  have hdoc : Json.parse markedPatterns.compact = .ok markedPatterns :=
    Json.parse_compact ⟨by simp [hnumbers], by decide⟩
  rw [htext] at hdoc
  obtain ⟨-, hparse, hcommented⟩ := parse_commented _ _ hdoc
  refine ⟨hdoc, ?_⟩
  rw [hcommented, hparse]
  · rfl
  · simp only [String.toList_append, List.append_assoc]
    refine .insert (.inl rfl) (@Comment.block [' ', 'a', 'l', 'l', ' ', '*'] (by decide)) ?_
    refine .keep_append _ ?_
    refine .insert (.inl rfl) (@Comment.block [] (by decide)) ?_
    refine .insert (.inl rfl) (@Comment.line [' ', '"', 't', 'w', 'o'] (by decide)) ?_
    exact .refl _ _

end Reading

end EmbeddedStyles.Config
