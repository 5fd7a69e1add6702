import EmbeddedStyles.Proofs.Check.Report
import Mathlib.Data.List.Forall2

namespace EmbeddedStyles.Check

open Lint (Warning)
open Source (Replacements)

-- A warning and what becomes of it, given what is remembered for its file.
structure Moved (memory : Option Replacements) (w w' : Warning) : Prop where
  line : w'.line = w.line
  extra : w'.extra = w.extra
  column_of_some : ∀ rs, memory = some rs → w'.column = rs.correctColumn w.line w.column
  column_of_none : memory = none → w'.column = w.column

-- A result and the entry that is made of it.
structure Mapped (session : Session) (workspace : Path) (outDir : Option Path) (r : Lint.Result)
    (entry : Path × Lint.Result) : Prop where
  path : ∃ source, r.source = some source ∧ entry.1 = sourcePath source workspace outDir
  source : entry.2.source = some entry.1.text
  extra : entry.2.extra = r.extra
  warnings : List.Forall₂ (Moved (session.replacements? entry.1)) r.warnings entry.2.warnings

theorem moved_corrected (session : Session) (file : Path) (w : Warning) :
    Moved (session.replacements? file) w (corrected session file w) := by
  cases hmemory : session.replacements? file with
  | none => constructor <;> simp [corrected, hmemory]
  | some rs => constructor <;> simp [corrected, hmemory]

variable {session : Session} {workspace : Path} {outDir : Option Path}

theorem mapped_of_mapResult? {r : Lint.Result} {entry : Path × Lint.Result}
    (h : session.mapResult? workspace outDir r = some entry) :
    Mapped session workspace outDir r entry := by
  cases hsource : r.source with
  | none => simp [Session.mapResult?, hsource] at h
  | some source =>
    rw [mapResult?_of_source session workspace outDir hsource] at h
    cases h
    refine ⟨⟨source, hsource, rfl⟩, rfl, rfl, ?_⟩
    rw [List.forall₂_map_right_iff, List.forall₂_same]
    exact fun w _ => moved_corrected session _ w

theorem isSome_mapResult? (session : Session) (workspace : Path) (outDir : Option Path)
    (r : Lint.Result) : (session.mapResult? workspace outDir r).isSome = r.source.isSome := by
  simp [Session.mapResult?]

theorem forall₂_mapResults (session : Session) (workspace : Path) (outDir : Option Path)
    (rs : List Lint.Result) :
    List.Forall₂ (Mapped session workspace outDir) (rs.filter (·.source.isSome))
      (session.mapResults workspace outDir rs) := by
  induction rs with
  | nil => exact .nil
  | cons r rs ih =>
    rw [List.filter_cons, ← isSome_mapResult? session workspace outDir, Session.mapResults,
      List.filterMap_cons]
    cases h : session.mapResult? workspace outDir r with
    | none => exact ih
    | some entry => exact .cons (mapped_of_mapResult? h) ih

-- Mapping makes one entry of each result that has a source, in the order of the results, and the
-- entry of a result is what is made of it alone.
theorem mapResults_frame (session : Session) (workspace : Path) (outDir : Option Path)
    (rs : List Lint.Result) :
    List.Forall₂ (Mapped session workspace outDir) (rs.filter (·.source.isSome))
      (session.mapResults workspace outDir rs) ∧
    ∀ before r after, session.mapResults workspace outDir (before ++ r :: after) =
      session.mapResults workspace outDir before ++ session.mapResults workspace outDir [r] ++
        session.mapResults workspace outDir after := by
  refine ⟨forall₂_mapResults session workspace outDir rs, ?_⟩
  intro before r after
  rw [← List.singleton_append, ← List.append_assoc]
  simp only [Session.mapResults, List.filterMap_append]

end EmbeddedStyles.Check
