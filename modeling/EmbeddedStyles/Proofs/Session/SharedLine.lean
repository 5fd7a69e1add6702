import EmbeddedStyles.Proofs.Session.Extraction
import EmbeddedStyles.Proofs.Source.Correction
import EmbeddedStyles.Proofs.Stylesheet.Layout

namespace EmbeddedStyles.Session

open Source (Replacement Replacements)
open Stylesheet (layout opened addRule footer)
open Text

-- What replacements on the line of a column, all beside the column, make of it.
theorem correctColumn_beside (rs : Replacements) (line column : UInt32) (hpos : 0 < column.toNat)
    (hbeside : ∀ r ∈ rs, r.span.start.line = line → r.span.singleLine = true ∧
      (r.span.stop.column.toNat < column.toNat ∨ column.toNat ≤ r.span.start.column.toNat)) :
    (∀ first : Replacements, first <+: rs → first.correctColumn line column = column) ↔
      ∀ r ∈ rs, r.span.start.line = line → r.Spares column := by
  rw [Source.Replacements.correctColumn_prefix_fixed_iff]
  refine forall₂_congr fun r hr => ?_
  by_cases hline : r.span.start.line = line
  · obtain ⟨hsingle, hside⟩ := hbeside r hr hline
    rw [Replacement.correctColumn_eq_self_iff_spares hline.symm hsingle hpos hside]
    simp [hline]
  · simp [Replacement.correctColumn_of_ne (Ne.symm hline), hline]

-- Each character of a rule's text stands in the stylesheet as far from the start of the text as it
-- is in the text, on one line.
theorem exists_character_of_layout (earlier later : List Rule) {rule : Rule}
    (htext : '\n' ∉ rule.cssText.toList) {u v : List Char} {c : Char}
    (hsplit : rule.cssText.toList = u ++ c :: v) :
    ∃ before after, (layout (earlier ++ rule :: later)).text = before ++ c :: after ∧
      lineAfter before = lineAfter (opened (layout earlier) rule).text ∧
      columnAfter before = columnAfter (opened (layout earlier) rule).text + units16 u := by
  have hu : '\n' ∉ u := by
    rw [hsplit] at htext
    exact fun hm => htext (List.mem_append_left _ hm)
  obtain ⟨after, hafter⟩ :=
    Stylesheet.text_prefix_foldl_addRule later (addRule (layout earlier) rule)
  refine ⟨(opened (layout earlier) rule).text ++ u, v ++ footer ++ after, ?_,
    lineAfter_append_of_notMem hu _, columnAfter_append_of_notMem hu _⟩
  rw [Stylesheet.text_addRule, hsplit] at hafter
  simpa [layout] using hafter.symm

-- A rule lands at its start, and every replacement of its line is beside its text. Then a warning
-- about the text keeps its column exactly if the moves of the line cancel out. No step moves it
-- exactly if each replacement of the line spares its column, and beyond all placeholders of the
-- line it is the drifts that have to cancel out.
theorem correctResult?_beside_interpolations {σ : Type} (s : Session) (compiler : Compiler σ)
    (state : σ) (source : String) (file : Path) {m : Metadata} {earlier later : List Rule}
    {rule : Rule} (horder : s.ruleOrder = .source) (hasks : s.asks source = true)
    (hanswer : (compiler state source file).1 = .ok (some m))
    (hrules : RuleOrder.source.arrange m.ruleList = earlier ++ rule :: later)
    (htext : '\n' ∉ rule.cssText.toList)
    (hline : lineAfter (opened (layout earlier) rule).text = rule.startOrOrigin.line.toNat)
    (hcolumn : columnAfter (opened (layout earlier) rule).text = rule.startOrOrigin.column.toNat)
    (hbeside : ∀ r ∈ m.replacements, r.span.start.line = rule.startOrOrigin.line →
      r.span.singleLine = true ∧
        (r.span.stop.column.toNat < rule.startOrOrigin.column.toNat ∨
          rule.startOrOrigin.column.toNat + units16 rule.cssText.toList ≤
            r.span.start.column.toNat)) :
    ∃ css s', s.extract compiler state source file =
        (.styles css m.rules.length m.replacements.length, s', (compiler state source file).2) ∧
      (∀ u c v, rule.cssText.toList = u ++ c :: v →
        ∃ before after, css.toList = before ++ c :: after ∧
          lineAfter before = rule.startOrOrigin.line.toNat ∧
          columnAfter before = rule.startOrOrigin.column.toNat + units16 u) ∧
      ∀ (result : Lint.Result) (i : Nat) (w : Lint.Warning), result.warnings[i]? = some w →
        w.line = rule.startOrOrigin.line →
        rule.startOrOrigin.column.toNat < w.column.toNat →
        w.column.toNat ≤ rule.startOrOrigin.column.toNat + units16 rule.cssText.toList →
        ∃ (corrected : Lint.Result) (column : UInt32),
          s'.correctResult? file result = some corrected ∧
          corrected.warnings[i]? = some { w with column } ∧
          (column = w.column ↔
            Source.Replacements.netMove w.line w.column.toNat m.replacements = 0) ∧
          ((∀ r ∈ m.replacements, r.span.start.line = w.line → r.Spares w.column) →
            column = w.column) ∧
          ((∀ first : Replacements, first <+: m.replacements →
              first.correctColumn w.line w.column = w.column) ↔
            ∀ r ∈ m.replacements, r.span.start.line = w.line → r.Spares w.column) ∧
          (Source.Replacements.Passes w.line w.column m.replacements →
            (column = w.column ↔ Source.Replacements.driftOn w.line m.replacements = 0)) := by
  refine ⟨_, _, extract_of_report hasks hanswer, ?_, ?_⟩
  · intro u c v hsplit
    obtain ⟨before, after, hcss, hl, hc⟩ :=
      exists_character_of_layout earlier later htext hsplit
    refine ⟨before, after, ?_, hl.trans hline, by rw [hc, hcolumn]⟩
    simpa [stylesheet, horder, hrules, Stylesheet.synthesize] using hcss
  · intro result i w hw hwline hleft hright
    obtain ⟨corrected, hcorrected, hget⟩ :=
      getElem?_correctResult?_remember s file m.replacements hw
    have hexact := correctColumn_beside m.replacements w.line w.column (by omega) (by
      intro r hr hrline
      obtain ⟨hsingle, hside⟩ := hbeside r hr (hrline.trans hwline)
      exact ⟨hsingle, by omega⟩)
    refine ⟨corrected, _, hcorrected, hget,
      Source.Replacements.correctColumn_eq_self_iff m.replacements w.line w.column, ?_, hexact, ?_⟩
    · intro hspared
      exact hexact.mpr hspared m.replacements List.prefix_rfl
    · intro hpasses
      have hsum := Source.Replacements.toNat_correctColumn_of_passes hpasses
      rw [← UInt32.toNat_inj]
      omega

-- Two templates on one line, an interpolation of four columns in the left one.
def pairSource : String :=
  "const a = css`x$\x7by\x7dz`, secondRule = css`d`;"

def leftRule (cssText : String) : Rule :=
  ⟨"a", cssText, some ⟨1, 14⟩, none⟩

def rightRule : Rule :=
  ⟨"b", "d", some ⟨1, 40⟩, none⟩

def pairReport (cssText : String) (length : UInt32) : Metadata :=
  ⟨[(".a", leftRule cssText), (".b", rightRule)], [⟨⟨⟨1, 15⟩, ⟨1, 18⟩⟩, length⟩]⟩

theorem arrange_pairReport (cssText : String) (length : UInt32) :
    RuleOrder.source.arrange (pairReport cssText length).ruleList =
      [leftRule cssText] ++ rightRule :: [] := by
  have hbefore : (leftRule cssText).startOrOrigin.before rightRule.startOrOrigin = true := rfl
  exact List.mergeSort_of_pairwise (.cons (by simpa using hbefore) (.cons (by simp) .nil))

-- A placeholder as wide as the interpolation leaves the right template alone.
theorem correctResult?_beside_interpolations_pair :
    ∃ css s', ({} : Session).extract
        (fun (_ : Unit) _ _ => (.ok (some (pairReport "xppppz" 4)), ())) () pairSource ⟨"a.js"⟩ =
        (.styles css 2 1, s', ()) ∧
      ∃ corrected column, s'.correctResult? ⟨"a.js"⟩ ⟨none, [⟨1, 41, []⟩], []⟩ = some corrected ∧
        corrected.warnings[0]? = some ⟨1, column, []⟩ ∧ column = 41 := by
  obtain ⟨css, s', hextract, -, hall⟩ := correctResult?_beside_interpolations {}
    (fun (_ : Unit) _ _ => (.ok (some (pairReport "xppppz" 4)), ())) () pairSource ⟨"a.js"⟩
    rfl (by decide +kernel) rfl (arrange_pairReport "xppppz" 4) (by decide) (by decide) (by decide)
    (by decide)
  refine ⟨css, s', hextract, ?_⟩
  obtain ⟨corrected, column, hcorrected, hget, -, hkept, -⟩ :=
    hall ⟨none, [⟨1, 41, []⟩], []⟩ 0 ⟨1, 41, []⟩ rfl rfl (by decide) (by decide)
  refine ⟨corrected, column, hcorrected, hget, hkept ?_⟩
  intro r hr hline
  obtain rfl : r = ⟨⟨⟨1, 15⟩, ⟨1, 18⟩⟩, 4⟩ := List.mem_singleton.mp hr
  exact Or.inr (Or.inr (Or.inl ⟨by decide, Or.inl rfl⟩))

-- With a placeholder of one column the right template still lands at its start, column 40 from
-- zero. A warning about its only character, at column 41 from one, is moved by three columns.
theorem template_on_shared_line_moves :
    (∀ r ∈ (pairReport "xpz" 1).replacements,
      r.span.singleLine = true ∧ r.span.stop.column.toNat < 40) ∧
    lineAfter (opened (layout [leftRule "xpz"]) rightRule).text = 1 ∧
    columnAfter (opened (layout [leftRule "xpz"]) rightRule).text = 40 ∧
    ∃ css s', ({} : Session).extract
        (fun (_ : Unit) _ _ => (.ok (some (pairReport "xpz" 1)), ())) () pairSource ⟨"a.js"⟩ =
        (.styles css 2 1, s', ()) ∧
      css.toList = ".a \x7b          xpz \x7d.b \x7b                 d \x7d".toList ∧
      (s'.correctResult? ⟨"a.js"⟩ ⟨none, [⟨1, 41, []⟩], []⟩).map
        (fun r => r.warnings.map fun w => (w.line, w.column)) = some [(1, 44)] := by
  have hextract : ({} : Session).extract
      (fun (_ : Unit) _ _ => (.ok (some (pairReport "xpz" 1)), ())) () pairSource ⟨"a.js"⟩ =
      (.styles (stylesheet {} (pairReport "xpz" 1)) 2 1,
        remember {} ⟨"a.js"⟩ (pairReport "xpz" 1).replacements, ()) :=
    extract_of_report (by decide +kernel) rfl
  refine ⟨by decide, by decide, by decide, _, _, hextract, ?_, by decide⟩
  simp only [stylesheet, Stylesheet.synthesize, String.toList_ofList, arrange_pairReport]
  decide

end EmbeddedStyles.Session
