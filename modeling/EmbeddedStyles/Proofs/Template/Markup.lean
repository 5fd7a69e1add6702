import EmbeddedStyles.Metadata
import EmbeddedStyles.Proofs.Text.Cursor
import EmbeddedStyles.Stylesheet
import Mathlib.Algebra.Order.Ring.Int
import Mathlib.Data.List.Forall2

namespace EmbeddedStyles.Template

open Source (Replacement)
open Text

-- An interpolation and its placeholder. Neither goes over the end of a line.
structure Hole where
  expr : List Char
  placeholder : List Char
  expr_ne_nil : expr ≠ []
  expr_inLine : '\n' ∉ expr
  placeholder_inLine : '\n' ∉ placeholder

inductive Piece where
  | char (c : Char)
  | hole (h : Hole)

def Piece.source : Piece → List Char
  | .char c => [c]
  | .hole h => h.expr

def Piece.css : Piece → List Char
  | .char c => [c]
  | .hole h => h.placeholder

-- The text of a template in the source.
def sourceOf (pieces : List Piece) : List Char :=
  pieces.flatMap Piece.source

-- The text of a template with placeholders.
def cssOf (pieces : List Piece) : List Char :=
  pieces.flatMap Piece.css

-- A template and the source text between the template before it and this one.
structure Passage where
  lead : List Char
  pieces : List Piece

def Passage.source (p : Passage) : List Char :=
  p.lead ++ sourceOf p.pieces

-- The templates, each with all the source text before it.
def placed (before : List Char) : List Passage → List (List Char × List Piece)
  | [] => []
  | p :: ps => (before ++ p.lead, p.pieces) :: placed (before ++ p.source) ps

-- The holes of a template, each with all the source text before it.
def holes (before : List Char) : List Piece → List (List Char × Hole)
  | [] => []
  | .char c :: ps => holes (before ++ [c]) ps
  | .hole h :: ps => (before, h) :: holes (before ++ h.expr) ps

-- One template ends on an earlier line than another starts on.
def Above (a b : List Char × List Piece) : Prop :=
  lineAfter (a.1 ++ sourceOf a.2) < lineAfter b.1

-- A rule tells of the template after a text: where it starts, counting lines from one and columns
-- from zero, and what it holds. Its header fits in front of the start.
structure Describes (t : List Char × List Piece) (rule : Rule) : Prop where
  start : ∃ p, rule.start = some p ∧ p.line.toNat = lineAfter t.1 ∧ p.column.toNat = columnAfter t.1
  cssText : rule.cssText.toList = cssOf t.2
  name : '\n' ∉ rule.displayName.toList
  room : units16 (Stylesheet.header rule) ≤ columnAfter t.1

-- A replacement tells of the hole after a text, the last column of the interpolation included.
structure Records (t : List Char × Hole) (r : Replacement) : Prop where
  startLine : r.span.start.line.toNat = lineAfter t.1
  startColumn : r.span.start.column.toNat = columnAfter t.1
  stopLine : r.span.stop.line = r.span.start.line
  stopColumn : r.span.stop.column.toNat + 1 = columnAfter t.1 + units16 t.2.expr
  length : r.length.toNat = units16 t.2.placeholder
  fits : columnAfter t.1 + units16 t.2.placeholder < 2 ^ 32

-- A report with a rule for each template, in any order, and a replacement for each hole, in the
-- order of the source.
structure Reports (m : Metadata) (passages : List Passage) : Prop where
  rules : ∃ rules, m.ruleList.Perm rules ∧ List.Forall₂ Describes (placed [] passages) rules
  replacements : List.Forall₂ Records
    ((placed [] passages).flatMap fun t => holes t.1 t.2) m.replacements

section Pairing

variable {α β : Type} {R : α → β → Prop}

theorem exists_left_of_mem {as : List α} {bs : List β} (h : List.Forall₂ R as bs) {b : β}
    (hb : b ∈ bs) : ∃ a ∈ as, R a b := by
  induction h with
  | nil => simp at hb
  | cons hab _ ih =>
    rcases List.mem_cons.mp hb with rfl | hb
    · exact ⟨_, by simp, hab⟩
    · obtain ⟨a, ha, hr⟩ := ih hb
      exact ⟨a, List.mem_cons_of_mem _ ha, hr⟩

theorem exists_append_of_append_left {as₁ as₂ : List α} {bs : List β}
    (h : List.Forall₂ R (as₁ ++ as₂) bs) :
    ∃ bs₁ bs₂, bs = bs₁ ++ bs₂ ∧ List.Forall₂ R as₁ bs₁ ∧ List.Forall₂ R as₂ bs₂ := by
  induction as₁ generalizing bs with
  | nil => exact ⟨[], bs, rfl, .nil, h⟩
  | cons a as₁ ih =>
    cases h with
    | cons hab htail =>
      obtain ⟨bs₁, bs₂, rfl, h₁, h₂⟩ := ih htail
      exact ⟨_ :: bs₁, bs₂, rfl, .cons hab h₁, h₂⟩

theorem pairwise_right {S : α → α → Prop} {T : β → β → Prop} {as : List α} {bs : List β}
    (h : List.Forall₂ R as bs) (hs : as.Pairwise S)
    (hst : ∀ {a a' b b'}, R a b → R a' b' → S a a' → T b b') : bs.Pairwise T := by
  induction h with
  | nil => exact .nil
  | cons hab htail ih =>
    cases hs with
    | cons hhead hs =>
      refine .cons (fun b hb => ?_) (ih hs)
      obtain ⟨a, ha, hr⟩ := exists_left_of_mem htail hb
      exact hst hab hr (hhead a ha)

end Pairing

@[simp] theorem sourceOf_nil : sourceOf [] = [] := rfl

@[simp] theorem cssOf_nil : cssOf [] = [] := rfl

@[simp] theorem sourceOf_char (c : Char) (ps : List Piece) :
    sourceOf (.char c :: ps) = c :: sourceOf ps := rfl

@[simp] theorem cssOf_char (c : Char) (ps : List Piece) :
    cssOf (.char c :: ps) = c :: cssOf ps := rfl

@[simp] theorem sourceOf_hole (h : Hole) (ps : List Piece) :
    sourceOf (.hole h :: ps) = h.expr ++ sourceOf ps := rfl

@[simp] theorem cssOf_hole (h : Hole) (ps : List Piece) :
    cssOf (.hole h :: ps) = h.placeholder ++ cssOf ps := rfl

@[simp] theorem sourceOf_append (ps qs : List Piece) :
    sourceOf (ps ++ qs) = sourceOf ps ++ sourceOf qs := by
  simp [sourceOf]

@[simp] theorem cssOf_append (ps qs : List Piece) :
    cssOf (ps ++ qs) = cssOf ps ++ cssOf qs := by
  simp [cssOf]

-- Placeholders keep the lines of a template.
theorem count_newline_cssOf (ps : List Piece) :
    (cssOf ps).count '\n' = (sourceOf ps).count '\n' := by
  induction ps with
  | nil => rfl
  | cons p ps ih =>
    cases p with
    | char c => simp [List.count_cons, ih]
    | hole h =>
      simp [ih, List.count_eq_zero_of_not_mem h.expr_inLine,
        List.count_eq_zero_of_not_mem h.placeholder_inLine]

theorem newline_mem_cssOf_iff (ps : List Piece) : '\n' ∈ cssOf ps ↔ '\n' ∈ sourceOf ps := by
  rw [← List.count_pos_iff, ← List.count_pos_iff, count_newline_cssOf]

theorem lineAfter_append_cssOf (before : List Char) (ps : List Piece) :
    lineAfter (before ++ cssOf ps) = lineAfter (before ++ sourceOf ps) := by
  rw [lineAfter_append, lineAfter_append, count_newline_cssOf]

theorem holes_append (before : List Char) (ps qs : List Piece) :
    holes before (ps ++ qs) = holes before ps ++ holes (before ++ sourceOf ps) qs := by
  induction ps generalizing before with
  | nil => simp [holes]
  | cons p ps ih =>
    cases p with
    | char c => simp [holes, ih]
    | hole h => simp [holes, ih]

-- Every hole comes after the text in front of its template, and inside the template.
theorem exists_of_mem_holes {before : List Char} {ps : List Piece} {t : List Char × Hole}
    (ht : t ∈ holes before ps) :
    ∃ u v, t.1 = before ++ u ∧ sourceOf ps = u ++ v := by
  induction ps generalizing before with
  | nil => simp [holes] at ht
  | cons p ps ih =>
    cases p with
    | char c =>
      obtain ⟨u, v, hu, hv⟩ := ih ht
      exact ⟨c :: u, v, by simp [hu], by simp [hv]⟩
    | hole h =>
      rcases List.mem_cons.mp ht with rfl | ht
      · exact ⟨[], sourceOf (.hole h :: ps), by simp, rfl⟩
      · obtain ⟨u, v, hu, hv⟩ := ih ht
        exact ⟨h.expr ++ u, v, by simp [hu], by simp [hv]⟩

theorem Above.trans {a b c : List Char × List Piece} (hab : Above a b) (hbc : Above b c) :
    Above a c := by
  have hb := lineAfter_le_append b.1 (sourceOf b.2)
  unfold Above at *
  omega

instance : Trans Above Above Above := ⟨Above.trans⟩

-- Each placed template lies in the source at the end of the text before it.
theorem source_eq_of_mem_placed {before : List Char} {ps : List Passage}
    {t : List Char × List Piece} (ht : t ∈ placed before ps) :
    ∃ after, before ++ ps.flatMap Passage.source = t.1 ++ sourceOf t.2 ++ after := by
  induction ps generalizing before with
  | nil => simp [placed] at ht
  | cons p ps ih =>
    rcases List.mem_cons.mp ht with rfl | ht
    · exact ⟨ps.flatMap Passage.source, by simp [Passage.source]⟩
    · obtain ⟨after, hafter⟩ := ih ht
      exact ⟨after, by simpa using hafter⟩

end EmbeddedStyles.Template
