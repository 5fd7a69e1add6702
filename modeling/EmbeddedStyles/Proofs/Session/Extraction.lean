import EmbeddedStyles.Session
import Mathlib.Data.List.Basic

namespace EmbeddedStyles.Session

variable {σ : Type} {s : Session} {compiler : Compiler σ} {state : σ} {source : String}
  {file : Path}

-- A report is laid out and its replacements are remembered.
theorem extract_of_report {m : Metadata} (hasks : s.asks source = true)
    (hanswer : (compiler state source file).1 = .ok (some m)) :
    s.extract compiler state source file =
      (.styles (s.stylesheet m) m.rules.length m.replacements.length,
        s.remember file m.replacements, (compiler state source file).2) := by
  simp [extract, hasks, hanswer, settle]

-- Answers that settle alike are extracted and remembered alike.
theorem extract_congr {σ' : Type} {compiler' : Compiler σ'} {state' : σ'}
    (h : s.settle file (compiler' state' source file).1 =
      s.settle file (compiler state source file).1) :
    (s.extract compiler' state' source file).1 = (s.extract compiler state source file).1 ∧
      (s.extract compiler' state' source file).2.1 =
        (s.extract compiler state source file).2.1 := by
  cases hasks : s.asks source with
  | false => simp [extract, hasks]
  | true => simp [extract, hasks, h]

-- Without a report nothing is remembered and nothing forgotten.
theorem extract_cases (s : Session) (compiler : Compiler σ) (state : σ) (source : String)
    (file : Path) :
    (∃ m, s.asks source = true ∧ (compiler state source file).1 = .ok (some m)) ∨
      (s.extract compiler state source file).1.isStyles = false ∧
        (s.extract compiler state source file).2.1 = s := by
  by_cases hasks : s.asks source = true
  · cases hanswer : (compiler state source file).1 with
    | error error => exact .inr (by simp [extract, hasks, hanswer, settle, Extraction.isStyles])
    | ok found =>
      cases found with
      | none => exact .inr (by simp [extract, hasks, hanswer, settle, Extraction.isStyles])
      | some m => exact .inl ⟨m, hasks, rfl⟩
  · exact .inr (by simp [extract, hasks, Extraction.isStyles])

-- Two spellings of a path lead to the same replacements.
theorem replacements?_congr (s : Session) {p q : Path} (h : p.same q = true) :
    s.replacements? p = s.replacements? q := by
  have hcomponents := (Path.same_iff p q).mp h
  simp only [replacements?, Path.same, hcomponents]

theorem mapResult?_of_replacements? {workspace : Path} {outDir : Option Path}
    {result : Lint.Result} (hsource : result.source = some source) {rs : Source.Replacements}
    (hrs : s.replacements? (sourcePath source workspace outDir) = some rs) :
    s.mapResult? workspace outDir result =
      some (sourcePath source workspace outDir,
        { result with
          source := some (sourcePath source workspace outDir).text
          warnings := result.warnings.map fun w =>
            { w with column := rs.correctColumn w.line w.column } }) := by
  simp [mapResult?, hsource, correctResult?, correct?, hrs, Located.correct_warning]

theorem correctResult?_remember (s : Session) (file : Path) (rs : Source.Replacements)
    (result : Lint.Result) :
    (s.remember file rs).correctResult? file result =
      some { result with warnings := result.warnings.map fun w =>
        { w with column := rs.correctColumn w.line w.column } } := by
  simp [correctResult?, correct?, replacements?_remember, Located.correct_warning]

-- Each warning keeps its place in the result and all but its column.
theorem getElem?_correctResult?_remember (s : Session) (file : Path) (rs : Source.Replacements)
    {result : Lint.Result} {i : Nat} {w : Lint.Warning} (hw : result.warnings[i]? = some w) :
    ∃ corrected, (s.remember file rs).correctResult? file result = some corrected ∧
      corrected.warnings[i]? = some { w with column := rs.correctColumn w.line w.column } := by
  refine ⟨_, correctResult?_remember s file rs result, ?_⟩
  rw [List.getElem?_map, hw, Option.map_some]

end EmbeddedStyles.Session
