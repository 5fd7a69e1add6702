import EmbeddedStyles.Proofs.Session.Extraction
import EmbeddedStyles.Proofs.Stylesheet.Layout
import EmbeddedStyles.Proofs.Stylesheet.Order
import EmbeddedStyles.Proofs.Template.Restoration

namespace EmbeddedStyles.Template

open Source (Replacement Replacements)
open Stylesheet (Buffer addRule opened footer)
open Text

-- The way is clear for a template if what is written ends above it, or at the start of its line.
def Clear (b : Buffer) (t : List Char × List Piece) : Prop :=
  lineAfter b.text < lineAfter t.1 ∨ lineAfter b.text = lineAfter t.1 ∧ columnAfter b.text = 0

theorem clear_empty (t : List Char × List Piece) : Clear .empty t := by
  have h : 1 ≤ lineAfter t.1 := Nat.le_add_left 1 _
  unfold Clear Buffer.empty
  rw [lineAfter_nil, columnAfter_nil]
  omega

namespace Describes

variable {b : Buffer} {t : List Char × List Piece} {rule : Rule}

theorem line_startOrOrigin (h : Describes t rule) :
    rule.startOrOrigin.line.toNat = lineAfter t.1 := by
  obtain ⟨p, hp, hl, -⟩ := h.start
  simp [Rule.startOrOrigin, hp, hl]

theorem column_startOrOrigin (h : Describes t rule) :
    rule.startOrOrigin.column.toNat = columnAfter t.1 := by
  obtain ⟨p, hp, -, hc⟩ := h.start
  simp [Rule.startOrOrigin, hp, hc]

theorem room_of_clear (h : Describes t rule) (hclear : Clear b t) : Stylesheet.Room b rule := by
  refine ⟨h.name, ?_, ?_⟩
  · rw [h.line_startOrOrigin]
    unfold Clear at hclear
    omega
  · have hroom := h.room
    rw [h.line_startOrOrigin, h.column_startOrOrigin]
    unfold Clear at hclear
    split <;> omega

-- Once a template is written the buffer ends on the line on which the template ends in the source.
theorem lineAfter_addRule (h : Describes t rule) (hb : b.Exact) (hclear : Clear b t) :
    lineAfter (addRule b rule).text = lineAfter (t.1 ++ sourceOf t.2) := by
  have hroom := h.room_of_clear hclear
  rw [Stylesheet.text_addRule, lineAfter_append_of_notMem Stylesheet.newline_notMem_footer,
    lineAfter_append, Stylesheet.lineAfter_opened hb hroom, h.cssText, h.line_startOrOrigin,
    count_newline_cssOf, lineAfter_append]

end Describes

-- Every template stands in the stylesheet where it stands in the source. The templates that are
-- still to come find the way clear, since each ends above the next.
theorem foldl_addRule_lands {ts : List (List Char × List Piece)} {rules : List Rule}
    (hrules : List.Forall₂ Describes ts rules) (habove : ts.Pairwise Above) {b : Buffer}
    (hb : b.Exact) (hclear : ∀ t ∈ ts, Clear b t) {t : List Char × List Piece} (ht : t ∈ ts) :
    ∃ lead follow, (rules.foldl addRule b).text = lead ++ cssOf t.2 ++ follow ∧
      lineAfter lead = lineAfter t.1 ∧ columnAfter lead = columnAfter t.1 := by
  induction hrules generalizing b with
  | nil => simp at ht
  | @cons head rule ts rules hhead htail ih =>
    have hroom := hhead.room_of_clear (hclear head (by simp))
    rcases List.mem_cons.mp ht with rfl | ht
    · obtain ⟨follow, hfollow⟩ := Stylesheet.text_prefix_foldl_addRule rules (addRule b rule)
      refine ⟨(opened b rule).text, footer ++ follow, ?_, ?_, ?_⟩
      · rw [List.foldl_cons, ← hfollow, Stylesheet.text_addRule, hhead.cssText]
        simp
      · rw [Stylesheet.lineAfter_opened hb hroom, hhead.line_startOrOrigin]
      · rw [Stylesheet.columnAfter_opened hb hroom, hhead.column_startOrOrigin]
    · refine ih habove.of_cons (Stylesheet.exact_addRule hb rule) ?_ ht
      intro next hnext
      left
      rw [hhead.lineAfter_addRule hb (hclear head (by simp))]
      exact (List.pairwise_cons.mp habove).1 next hnext

-- A true report is laid out in the order of the source.
theorem Reports.exists_arranged {m : Metadata} {passages : List Passage} (h : Reports m passages)
    (habove : (placed [] passages).Pairwise Above) :
    ∃ rules, RuleOrder.source.arrange m.ruleList = rules ∧
      List.Forall₂ Describes (placed [] passages) rules := by
  obtain ⟨rules, hperm, hrules⟩ := h.rules
  refine ⟨rules, RuleOrder.arrange_source_of_perm hperm ?_, hrules⟩
  refine pairwise_right hrules habove ?_
  intro t t' rule rule' hr hr' ht
  rw [hr.line_startOrOrigin, hr'.line_startOrOrigin]
  exact Nat.lt_of_le_of_lt (lineAfter_le_append t.1 (sourceOf t.2)) ht

-- The holes of a template stand on its lines.
theorem line_of_records {t : List Char × List Piece} {x : List Char × Hole} {r : Replacement}
    (hx : x ∈ holes t.1 t.2) (hr : Records x r) :
    lineAfter t.1 ≤ r.span.start.line.toNat ∧
      r.span.start.line.toNat ≤ lineAfter (t.1 ++ sourceOf t.2) := by
  obtain ⟨u, v, hu, hv⟩ := exists_of_mem_holes hx
  rw [hr.startLine, hu, hv, ← List.append_assoc]
  exact ⟨lineAfter_le_append _ _, lineAfter_le_append _ _⟩

theorem exists_of_mem_records {ts : List (List Char × List Piece)} {rs : Replacements}
    (hrs : List.Forall₂ Records (ts.flatMap fun t => holes t.1 t.2) rs) {r : Replacement}
    (hr : r ∈ rs) :
    ∃ t ∈ ts, lineAfter t.1 ≤ r.span.start.line.toNat ∧
      r.span.start.line.toNat ≤ lineAfter (t.1 ++ sourceOf t.2) := by
  obtain ⟨x, hx, hrec⟩ := exists_left_of_mem hrs hr
  obtain ⟨t, ht, hx⟩ := List.mem_flatMap.mp hx
  exact ⟨t, ht, line_of_records hx hrec⟩

-- On the lines of a template only its own replacements count.
theorem exists_own_replacements {ts : List (List Char × List Piece)} {rs : Replacements}
    (hrs : List.Forall₂ Records (ts.flatMap fun t => holes t.1 t.2) rs)
    (habove : ts.Pairwise Above) {t : List Char × List Piece} (ht : t ∈ ts) :
    ∃ own : Replacements, List.Forall₂ Records (holes t.1 t.2) own ∧
      ∀ line column : UInt32, lineAfter t.1 ≤ line.toNat →
        line.toNat ≤ lineAfter (t.1 ++ sourceOf t.2) →
        rs.correctColumn line column = own.correctColumn line column := by
  obtain ⟨upper, lower, rfl⟩ := List.append_of_mem ht
  rw [List.flatMap_append, List.flatMap_cons] at hrs
  obtain ⟨rs₁, rest, rfl, h₁, hrest⟩ := exists_append_of_append_left hrs
  obtain ⟨own, rs₂, rfl, hown, h₂⟩ := exists_append_of_append_left hrest
  refine ⟨own, hown, ?_⟩
  intro line column hfirst hlast
  obtain ⟨-, hlower, hupper⟩ := List.pairwise_append.mp habove
  have hskip₁ : ∀ r ∈ rs₁, r.span.start.line ≠ line := by
    rintro r hr rfl
    obtain ⟨t', ht', -, hle⟩ := exists_of_mem_records h₁ hr
    have hab : Above t' t := hupper t' ht' t (by simp)
    unfold Above at hab
    omega
  have hskip₂ : ∀ r ∈ rs₂, r.span.start.line ≠ line := by
    rintro r hr rfl
    obtain ⟨t', ht', hge, -⟩ := exists_of_mem_records h₂ hr
    have hab : Above t t' := (List.pairwise_cons.mp hlower).1 t' ht'
    unfold Above at hab
    omega
  rw [Source.Replacements.correctColumn_append, Source.Replacements.correctColumn_append,
    Source.Replacements.correctColumn_of_other_lines hskip₁,
    Source.Replacements.correctColumn_of_other_lines hskip₂]

-- What becomes of the column of a character of a template.
theorem correctColumn_character {ts : List (List Char × List Piece)} {rs : Replacements}
    (hrs : List.Forall₂ Records (ts.flatMap fun t => holes t.1 t.2) rs)
    (habove : ts.Pairwise Above) {before : List Char} {first rest : List Piece} {c : Char}
    (ht : (before, first ++ .char c :: rest) ∈ ts) (hfits : Fits before first)
    {line column : UInt32} (hline : line.toNat = lineAfter (before ++ sourceOf first))
    (hcolumn : column.toNat = columnAfter (before ++ cssOf first) + 1) :
    (drawnTo c rest = none → (rs.correctColumn line column).toNat =
      columnAfter (before ++ sourceOf first) + 1) ∧
    ∀ h, drawnTo c rest = some h → (rs.correctColumn line column).toNat =
      columnAfter (before ++ sourceOf first) + units16 h.expr - 1 := by
  obtain ⟨own, hown, hsame⟩ := exists_own_replacements hrs habove ht
  have hfirst : lineAfter before ≤ line.toNat := by
    rw [hline]
    exact lineAfter_le_append _ _
  have hlast : line.toNat ≤ lineAfter (before ++ sourceOf (first ++ .char c :: rest)) := by
    rw [hline, sourceOf_append, ← List.append_assoc]
    exact lineAfter_le_append _ _
  rw [hsame line column hfirst hlast]
  rw [holes_append] at hown
  obtain ⟨rs₁, rs₂, rfl, h₁, h₂⟩ := exists_append_of_append_left hown
  rw [Source.Replacements.correctColumn_append]
  have hfill := correctColumn_fill_all h₁ hfits hline hcolumn
  constructor
  · intro hnone
    rw [correctColumn_of_drawnTo_none h₂ hnone hline hfill, hfill]
  · intro h hsome
    exact correctColumn_of_drawnTo_some h₂ hsome hline hfill

-- Extraction and correction undo each other. Given a true report of templates that lie one above
-- the other, the stylesheet has each plain character of a template on its line of the source, and
-- a warning about the character, columns of warnings counting from one, is moved to where the
-- character is in the source, or to the end of the interpolation that draws it.
theorem correctResult?_character {σ : Type} (s : Session) (compiler : Compiler σ) (state : σ)
    (file : Path) {source : String} {m : Metadata} {passages : List Passage} {tail : List Char}
    (hsource : source.toList = passages.flatMap Passage.source ++ tail)
    (habove : (placed [] passages).IsChain Above) (hreport : Reports m passages)
    (horder : s.ruleOrder = .source) (hasks : s.asks source = true)
    (hanswer : (compiler state source file).1 = .ok (some m)) :
    ∃ css s', s.extract compiler state source file =
        (.styles css m.rules.length m.replacements.length, s', (compiler state source file).2) ∧
      ∀ before first c rest, (before, first ++ .char c :: rest) ∈ placed [] passages →
        Fits before first →
        ∃ lead after follow,
          source.toList = before ++ sourceOf first ++ c :: after ∧
          css.toList = lead ++ cssOf (first ++ .char c :: rest) ++ follow ∧
          lineAfter lead = lineAfter before ∧ columnAfter lead = columnAfter before ∧
          lineAfter (lead ++ cssOf first) = lineAfter (before ++ sourceOf first) ∧
          ∀ (result : Lint.Result) (i : Nat) (w : Lint.Warning), result.warnings[i]? = some w →
            w.line.toNat = lineAfter (lead ++ cssOf first) →
            w.column.toNat = columnAfter (lead ++ cssOf first) + 1 →
            ∃ (corrected : Lint.Result) (column : UInt32),
              s'.correctResult? file result = some corrected ∧
              corrected.warnings[i]? = some { w with column } ∧
              (drawnTo c rest = none →
                column.toNat = columnAfter (before ++ sourceOf first) + 1) ∧
              ∀ h, drawnTo c rest = some h →
                column.toNat = columnAfter (before ++ sourceOf first) + units16 h.expr - 1 := by
  have hpairs : (placed [] passages).Pairwise Above := List.isChain_iff_pairwise.mp habove
  obtain ⟨rules, harranged, hrules⟩ := hreport.exists_arranged hpairs
  refine ⟨_, _, Session.extract_of_report hasks hanswer, ?_⟩
  intro before first c rest ht hfits
  obtain ⟨lead, follow, hcss, hl, hc⟩ := foldl_addRule_lands hrules hpairs Buffer.exact_empty
    (fun t _ => clear_empty t) ht
  obtain ⟨after, hafter⟩ := source_eq_of_mem_placed ht
  have hline : lineAfter (lead ++ cssOf first) = lineAfter (before ++ sourceOf first) := by
    rw [lineAfter_append_congr hl, lineAfter_append_cssOf]
  refine ⟨lead, sourceOf rest ++ after ++ tail, follow, ?_, ?_, hl, hc, hline, ?_⟩
  · rw [hsource]
    simpa using congrArg (· ++ tail) hafter
  · rw [Session.stylesheet, horder, harranged]
    simpa [Stylesheet.synthesize, Stylesheet.layout] using hcss
  · intro result i w hw hwline hwcolumn
    obtain ⟨corrected, hcorrected, hget⟩ :=
      Session.getElem?_correctResult?_remember s file m.replacements hw
    rw [columnAfter_append_congr hc] at hwcolumn
    exact ⟨corrected, _, hcorrected, hget,
      correctColumn_character hreport.replacements hpairs ht hfits (hwline.trans hline) hwcolumn⟩

-- A wide character in front of a long placeholder, with an empty placeholder after it.
def sampleLine : List Piece := [
  .char '\n', .char ' ', .char ' ', .char '🎨',
  .hole ⟨"$\x7bw\x7d".toList, "long-name".toList, by decide, by decide, by decide⟩,
  .hole ⟨"$\x7bv\x7d".toList, "".toList, by decide, by decide, by decide⟩]

def sample : List Passage := [
  ⟨"const a = css`".toList, [
    .char 'x', .hole ⟨"$\x7by\x7d".toList, "p".toList, by decide, by decide, by decide⟩,
    .char 'z']⟩,
  ⟨"`;\nconst b = css`".toList, sampleLine ++ [.char ';', .char '\n']⟩]

def sampleSource : String :=
  "const a = css`x$\x7by\x7dz`;\nconst b = css`\n  🎨$\x7bw\x7d$\x7bv\x7d;\n`;"

def sampleReport : Metadata := ⟨[
  (".b", ⟨"b", "\n  🎨long-name;\n", some ⟨2, 14⟩, none⟩),
  (".a", ⟨"a", "xpz", some ⟨1, 14⟩, none⟩)],
  [⟨⟨⟨1, 15⟩, ⟨1, 18⟩⟩, 1⟩, ⟨⟨⟨3, 4⟩, ⟨3, 7⟩⟩, 9⟩, ⟨⟨⟨3, 8⟩, ⟨3, 11⟩⟩, 0⟩]⟩

theorem reports_sample : Reports sampleReport sample where
  rules := by
    refine ⟨_, List.Perm.swap _ _ _, ?_⟩
    exact .cons ⟨⟨_, rfl, by decide, by decide⟩, by decide, by decide, by decide⟩
      (.cons ⟨⟨_, rfl, by decide, by decide⟩, by decide, by decide, by decide⟩ .nil)
  replacements :=
    .cons ⟨by decide, by decide, by decide, by decide, by decide, by decide⟩
      (.cons ⟨by decide, by decide, by decide, by decide, by decide, by decide⟩
        (.cons ⟨by decide, by decide, by decide, by decide, by decide, by decide⟩ .nil))

-- The semicolon is at column 14 of its line in the stylesheet and at column 13 in the source.
theorem correctResult?_character_sample :
    sampleSource.toList = sample.flatMap Passage.source ++ "`;".toList ∧
    (placed [] sample).IsChain Above ∧ Reports sampleReport sample ∧
    ∃ css s', ({} : Session).extract (fun (_ : Unit) _ _ => (.ok (some sampleReport), ())) ()
        sampleSource ⟨"a.js"⟩ = (.styles css 2 3, s', ()) ∧
      ∃ corrected column, s'.correctResult? ⟨"a.js"⟩ ⟨none, [⟨3, 14, []⟩], []⟩ = some corrected ∧
        corrected.warnings[0]? = some ⟨3, column, []⟩ ∧ column.toNat = 13 := by
  have hsource : sampleSource.toList = sample.flatMap Passage.source ++ "`;".toList := by decide
  have habove : (placed [] sample).IsChain Above :=
    .cons_cons (by decide : lineAfter _ < lineAfter _) (.singleton _)
  obtain ⟨css, s', hextract, hall⟩ := correctResult?_character {}
    (fun (_ : Unit) _ _ => (.ok (some sampleReport), ())) () ⟨"a.js"⟩ hsource habove
    reports_sample rfl (by decide +kernel) rfl
  refine ⟨hsource, habove, reports_sample, css, s', hextract, ?_⟩
  obtain ⟨lead, after, follow, -, -, -, hcolumn, hline, hwarning⟩ := hall _ sampleLine ';'
    [.char '\n'] (List.mem_cons_of_mem _ (List.mem_singleton.mpr rfl))
    (fits_of_units16_lt (by decide))
  obtain ⟨corrected, column, hcorrected, hget, hplain, -⟩ :=
    hwarning ⟨none, [⟨3, 14, []⟩], []⟩ 0 ⟨3, 14, []⟩ rfl (by rw [hline]; decide)
      (by rw [columnAfter_append_congr hcolumn]; decide)
  exact ⟨corrected, column, hcorrected, hget, hplain rfl⟩

-- A lone template whose first character has a placeholder after it.
def lone : List Passage := [
  ⟨"const a = css`".toList, [
    .char 'x', .hole ⟨"$\x7by\x7d".toList, "p".toList, by decide, by decide, by decide⟩,
    .char 'z']⟩]

def loneReport : Metadata :=
  ⟨[(".a", ⟨"a", "xpz", some ⟨1, 14⟩, none⟩)], [⟨⟨⟨1, 15⟩, ⟨1, 18⟩⟩, 1⟩]⟩

-- The character is at column 15 of the first line both in the source and in the stylesheet, and a
-- warning about it is moved to column 17.
theorem character_before_placeholder_moves :
    "const a = css`x$\x7by\x7dz`;".toList = lone.flatMap Passage.source ++ "`;".toList ∧
    (placed [] lone).IsChain Above ∧ Reports loneReport lone ∧
    ∃ css s', ({} : Session).extract (fun (_ : Unit) _ _ => (.ok (some loneReport), ())) ()
        "const a = css`x$\x7by\x7dz`;" ⟨"a.js"⟩ = (.styles css 1 1, s', ()) ∧
      css.toList = ".a \x7b          xpz \x7d".toList ∧
      (s'.correctResult? ⟨"a.js"⟩ ⟨none, [⟨1, 15, []⟩], []⟩).map
        (fun r => r.warnings.map fun w => (w.line, w.column)) = some [(1, 17)] := by
  have hreport : Reports loneReport lone :=
    ⟨⟨_, .refl _, .cons ⟨⟨_, rfl, by decide, by decide⟩, by decide, by decide, by decide⟩ .nil⟩,
      .cons ⟨by decide, by decide, by decide, by decide, by decide, by decide⟩ .nil⟩
  have hextract : ({} : Session).extract (fun (_ : Unit) _ _ => (.ok (some loneReport), ())) ()
      "const a = css`x$\x7by\x7dz`;" ⟨"a.js"⟩ = (.styles (Session.stylesheet {} loneReport) 1 1,
        Session.remember {} ⟨"a.js"⟩ loneReport.replacements, ()) :=
    Session.extract_of_report (by decide +kernel) rfl
  refine ⟨by decide, .singleton _, hreport, _, _, hextract, ?_, by decide⟩
  have harranged : RuleOrder.source.arrange loneReport.ruleList = loneReport.ruleList :=
    List.mergeSort_singleton _
  simp only [Session.stylesheet, Stylesheet.synthesize, String.toList_ofList, harranged]
  decide

end EmbeddedStyles.Template
