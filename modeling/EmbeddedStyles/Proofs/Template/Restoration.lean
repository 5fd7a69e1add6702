import EmbeddedStyles.Proofs.Source.Correction
import EmbeddedStyles.Proofs.Template.Markup

namespace EmbeddedStyles.Template

open Source (Replacement Replacements)
open Text

-- All lines that come up while the holes are filled in from the left have columns that are words.
def Fits (before : List Char) (ps : List Piece) : Prop :=
  ∀ filled pending, ps = filled ++ pending →
    columnAfter (before ++ sourceOf filled ++ cssOf pending) + 1 < 2 ^ 32

theorem Fits.of_char {before : List Char} {c : Char} {ps : List Piece}
    (h : Fits before (.char c :: ps)) : Fits (before ++ [c]) ps := by
  intro filled pending hps
  simpa using h (.char c :: filled) pending (by simp [hps])

theorem Fits.of_hole {before : List Char} {hole : Hole} {ps : List Piece}
    (h : Fits before (.hole hole :: ps)) : Fits (before ++ hole.expr) ps := by
  intro filled pending hps
  simpa using h (.hole hole :: filled) pending (by simp [hps])

-- Short texts fit.
theorem fits_of_units16_lt {before : List Char} {ps : List Piece}
    (h : units16 before + units16 (sourceOf ps) + units16 (cssOf ps) + 1 < 2 ^ 32) :
    Fits before ps := by
  rintro filled pending rfl
  have hle := columnAfter_le_units16 (before ++ sourceOf filled ++ cssOf pending)
  simp only [sourceOf_append, cssOf_append, units16_append] at h hle
  omega

namespace Records

variable {before : List Char} {hole : Hole} {r : Replacement}

theorem singleLine (h : Records (before, hole) r) : r.span.singleLine = true := by
  simp [Source.Span.singleLine, h.stopLine]

theorem placeholderEnd (h : Records (before, hole) r) :
    r.placeholderEnd.toNat = columnAfter before + units16 hole.placeholder := by
  have hf := h.fits
  rw [Replacement.toNat_placeholderEnd, h.startColumn, h.length]
  simp only [Source.maxColumn] at hf ⊢
  omega

theorem drift (h : Records (before, hole) r) :
    r.drift = (units16 hole.expr : Int) - units16 hole.placeholder := by
  have hstop := h.stopColumn
  rw [Replacement.drift, Source.Span.width, h.startColumn, h.length]
  dsimp only at hstop ⊢
  omega

-- The character that `ps` leads up to goes to where it stands once the hole is filled in. If it is
-- on a later line then the hole is not on its line and makes no difference to its column.
theorem correctColumn_fill (h : Records (before, hole) r) (ps : List Piece) {line column : UInt32}
    (hline : line.toNat = lineAfter (before ++ hole.expr ++ sourceOf ps))
    (hcolumn : column.toNat = columnAfter (before ++ hole.placeholder ++ cssOf ps) + 1)
    (hfits : columnAfter (before ++ hole.expr ++ cssOf ps) + 1 < 2 ^ 32) :
    (r.correctColumn line column).toNat = columnAfter (before ++ hole.expr ++ cssOf ps) + 1 := by
  by_cases hn : '\n' ∈ sourceOf ps
  · have hne : line ≠ r.span.start.line := by
      intro he
      have hlt := (lineAfter_lt_append_iff (before ++ hole.expr) (sourceOf ps)).mpr hn
      have hs : line.toNat = lineAfter before := by rw [he]; exact h.startLine
      rw [lineAfter_append_of_notMem hole.expr_inLine] at hlt
      omega
    have hn' := (newline_mem_cssOf_iff ps).mpr hn
    rw [columnAfter_append_of_mem hn'] at hcolumn ⊢
    rw [Replacement.correctColumn_of_ne hne, hcolumn]
  · have hn' : '\n' ∉ cssOf ps := fun hm => hn ((newline_mem_cssOf_iff ps).mp hm)
    rw [columnAfter_append_of_notMem hn',
      columnAfter_append_of_notMem hole.placeholder_inLine] at hcolumn
    rw [columnAfter_append_of_notMem hn',
      columnAfter_append_of_notMem hole.expr_inLine] at hfits ⊢
    have hl : line = r.span.start.line := by
      apply UInt32.toNat_inj.mp
      rw [hline, lineAfter_append_of_notMem hn, lineAfter_append_of_notMem hole.expr_inLine]
      exact h.startLine.symm
    have hpast : r.placeholderEnd.toNat < column.toNat := by
      rw [h.placeholderEnd]
      omega
    have hmoved := Replacement.toNat_correctColumn_beyond hl hpast (by rw [h.drift]; omega)
    rw [h.drift] at hmoved
    omega

end Records

-- The replacements of the pieces in front of a character take its column in the text with
-- placeholders to its column in the source. The induction moves one piece at a time over to the
-- source text, so that the line is always filled in up to `before`.
theorem correctColumn_fill_all {before : List Char} {ps : List Piece} {rs : Replacements}
    (hrs : List.Forall₂ Records (holes before ps) rs) (hfits : Fits before ps)
    {line column : UInt32} (hline : line.toNat = lineAfter (before ++ sourceOf ps))
    (hcolumn : column.toNat = columnAfter (before ++ cssOf ps) + 1) :
    (rs.correctColumn line column).toNat = columnAfter (before ++ sourceOf ps) + 1 := by
  induction ps generalizing before rs column with
  | nil =>
    cases hrs
    simpa using hcolumn
  | cons p ps ih =>
    cases p with
    | char c =>
      have hr := ih hrs hfits.of_char (by simpa using hline) (by simpa using hcolumn)
      simpa using hr
    | hole h =>
      cases hrs with
      | cons hr hrs =>
        rename_i r rs
        have hfill := hr.correctColumn_fill ps (by simpa using hline)
          (by simpa using hcolumn) (by simpa using hfits [.hole h] ps rfl)
        have hrest := ih hrs hfits.of_hole (by simpa using hline) hfill
        simpa using hrest

-- A position in front of all holes of a template is left alone.
theorem correctColumn_of_before {before : List Char} {ps : List Piece} {rs : Replacements}
    (hrs : List.Forall₂ Records (holes before ps) rs) {line column : UInt32}
    (h : line.toNat < lineAfter before ∨
      line.toNat = lineAfter before ∧ column.toNat < columnAfter before) :
    rs.correctColumn line column = column := by
  apply Source.Replacements.correctColumn_of_fixed
  intro r hr
  obtain ⟨t, ht, hrec⟩ := exists_left_of_mem hrs hr
  obtain ⟨u, v, hu, -⟩ := exists_of_mem_holes ht
  by_cases hl : line = r.span.start.line
  · have hstart := hrec.startLine
    rw [← hl, hu] at hstart
    have hle := lineAfter_le_append before u
    have hcol := columnAfter_le_append before u (by omega)
    apply Replacement.correctColumn_of_lt
    rw [hrec.startColumn, hu]
    omega
  · exact Replacement.correctColumn_of_ne hl column

-- The hole that draws a warning about the character before it to itself: it follows right away, its
-- placeholder is not empty, and the character is one unit wide and no newline.
def drawnTo (c : Char) : List Piece → Option Hole
  | .hole h :: _ => if c ≠ '\n' ∧ width16 c = 1 ∧ h.placeholder ≠ [] then some h else none
  | _ => none

-- Past its own holes a character is where it belongs, and the ones after it leave it there if none
-- draws it.
theorem correctColumn_of_drawnTo_none {before : List Char} {c : Char} {rest : List Piece}
    {rs : Replacements} (hrs : List.Forall₂ Records (holes before (.char c :: rest)) rs)
    (hdrawn : drawnTo c rest = none) {line column : UInt32}
    (hline : line.toNat = lineAfter before) (hcolumn : column.toNat = columnAfter before + 1) :
    rs.correctColumn line column = column := by
  have hrs' : List.Forall₂ Records (holes (before ++ [c]) rest) rs := hrs
  by_cases hc : c = '\n'
  · subst hc
    apply correctColumn_of_before hrs'
    left
    rw [hline, lineAfter_lt_append_iff]
    simp
  have hcl : lineAfter (before ++ [c]) = lineAfter before :=
    lineAfter_append_of_notMem (by simpa using Ne.symm hc) before
  have hcc := columnAfter_concat hc before
  by_cases hw : width16 c = 1
  · cases rest with
    | nil =>
      cases hrs
      rfl
    | cons p rest =>
      cases p with
      | char d =>
        -- The next character keeps the holes away.
        have hd := width16_pos d
        have hnext : List.Forall₂ Records (holes (before ++ [c] ++ [d]) rest) rs := hrs
        apply correctColumn_of_before hnext
        by_cases hdn : d = '\n'
        · subst hdn
          left
          rw [hline, ← hcl, lineAfter_lt_append_iff]
          simp
        · right
          rw [lineAfter_append_of_notMem (by simpa using Ne.symm hdn), columnAfter_concat hdn]
          omega
      | hole h =>
        have hempty : h.placeholder = [] := by simpa [drawnTo, hc, hw] using hdrawn
        cases hrs with
        | cons hr hrs =>
          have hexpr := units16_pos h.expr_ne_nil
          have hend := hr.placeholderEnd
          rw [hempty, units16_nil] at hend
          rw [Source.Replacements.correctColumn_cons,
            Replacement.correctColumn_at_end (by omega) line]
          apply correctColumn_of_before hrs
          right
          rw [lineAfter_append_of_notMem h.expr_inLine, columnAfter_append_of_notMem h.expr_inLine]
          omega
  · have hpos := width16_pos c
    apply correctColumn_of_before hrs'
    right
    omega

-- A hole that draws a character pins it to the end of its interpolation, and there it stays.
theorem correctColumn_of_drawnTo_some {before : List Char} {c : Char} {rest : List Piece}
    {rs : Replacements} (hrs : List.Forall₂ Records (holes before (.char c :: rest)) rs)
    {h : Hole} (hdrawn : drawnTo c rest = some h) {line column : UInt32}
    (hline : line.toNat = lineAfter before) (hcolumn : column.toNat = columnAfter before + 1) :
    (rs.correctColumn line column).toNat = columnAfter before + units16 h.expr - 1 := by
  cases rest with
  | nil => simp [drawnTo] at hdrawn
  | cons p rest =>
    cases p with
    | char d => simp [drawnTo] at hdrawn
    | hole h' =>
      simp only [drawnTo, Option.ite_none_right_eq_some, Option.some.injEq] at hdrawn
      obtain ⟨⟨hc, hw, hne⟩, rfl⟩ := hdrawn
      have hcl : lineAfter (before ++ [c]) = lineAfter before :=
        lineAfter_append_of_notMem (by simpa using Ne.symm hc) before
      have hcc := columnAfter_concat hc before
      have hexpr := units16_pos h'.expr_ne_nil
      have hplace := units16_pos hne
      cases hrs with
      | cons hr hrs =>
        rename_i r rs
        have hl : line = r.span.start.line :=
          UInt32.toNat_inj.mp (by rw [hline, ← hcl]; exact hr.startLine.symm)
        have hend := hr.placeholderEnd
        have hstart := hr.startColumn
        have hstop := hr.stopColumn
        have hpin := Replacement.toNat_pinned hr.singleLine
        dsimp only at hstart hstop
        rw [Source.Replacements.correctColumn_cons,
          Replacement.correctColumn_inside hl (by omega) (by omega)]
        have hstay : Replacements.correctColumn rs line r.pinned = r.pinned := by
          apply correctColumn_of_before hrs
          right
          rw [lineAfter_append_of_notMem h'.expr_inLine,
            columnAfter_append_of_notMem h'.expr_inLine]
          omega
        rw [hstay]
        omega

end EmbeddedStyles.Template
