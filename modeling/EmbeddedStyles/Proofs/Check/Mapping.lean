import EmbeddedStyles.Check
import EmbeddedStyles.Proofs.Path.Stylesheets
import EmbeddedStyles.Proofs.Session.Extraction

namespace EmbeddedStyles.Check

open EmbeddedStyles.Path (Below Trimmed cssEnding inner resolved spelled)

variable {σ : Type}

-- What one more file does to a pass: nothing that matters here, or its replacements are remembered
-- and it may be styled.
theorem Pass.add_cases (p : Pass σ) (compiler : Compiler σ) (tree : FileTree)
    (workspace path : Path) :
    ((p.add compiler tree workspace path).styled = p.styled ∧
        (p.add compiler tree workspace path).session = p.session) ∨
      ∃ rs, (p.add compiler tree workspace path).session = p.session.remember path rs ∧
        ((p.add compiler tree workspace path).styled = p.styled ∨
          ∃ source css, (p.add compiler tree workspace path).styled =
            p.styled ++ [⟨path, path.relativeTo workspace, source, css⟩]) := by
  simp only [Pass.add]
  cases tree.readText path with
  | error cause => exact .inl ⟨rfl, rfl⟩
  | ok source =>
    rcases p.session.extract_cases compiler p.state source path with
      ⟨m, hasks, hanswer⟩ | ⟨hkind, hsession⟩
    · refine .inr ⟨m.replacements, ?_⟩
      simp only [Session.extract_of_report hasks hanswer]
      split
      · exact ⟨rfl, .inl rfl⟩
      · exact ⟨rfl, .inr ⟨source, _, rfl⟩⟩
    · refine .inl ?_
      cases hextraction : (p.session.extract compiler p.state source path).1 with
      | nothing => simp only [hextraction, hsession, and_self]
      | failed error => simp only [hextraction, hsession, and_self]
      | styles css rules replacements =>
        rw [hextraction] at hkind
        cases hkind

-- Every styled file is seen from the workspace and has replacements that are remembered.
structure Pass.Tracked (workspace : Path) (p : Pass σ) : Prop where
  relative : ∀ file ∈ p.styled, file.relative = file.path.relativeTo workspace
  remembered : ∀ file ∈ p.styled, (p.session.replacements? file.path).isSome = true

theorem Pass.Tracked.add {workspace : Path} {p : Pass σ} (h : p.Tracked workspace)
    (compiler : Compiler σ) (tree : FileTree) (path : Path) :
    (p.add compiler tree workspace path).Tracked workspace := by
  rcases p.add_cases compiler tree workspace path with ⟨hstyled, hsession⟩ | ⟨rs, hsession, hstyled⟩
  · exact ⟨hstyled ▸ h.relative, by rw [hstyled, hsession]; exact h.remembered⟩
  · have hkept : ∀ file ∈ p.styled,
        ((p.session.remember path rs).replacements? file.path).isSome = true := by
      intro file hfile
      rw [Session.replacements?_remember]
      split
      · rfl
      · exact h.remembered file hfile
    rcases hstyled with hstyled | ⟨source, css, hstyled⟩
    · exact ⟨hstyled ▸ h.relative, by rw [hstyled, hsession]; exact hkept⟩
    · constructor
      · intro file hfile
        rw [hstyled, List.mem_append, List.mem_singleton] at hfile
        rcases hfile with hfile | rfl
        · exact h.relative file hfile
        · rfl
      · intro file hfile
        rw [hstyled, List.mem_append, List.mem_singleton] at hfile
        rw [hsession]
        rcases hfile with hfile | rfl
        · exact hkept file hfile
        · simp [Session.replacements?_remember]

theorem Pass.Tracked.extractFiles {workspace : Path} {p : Pass σ} (h : p.Tracked workspace)
    (compiler : Compiler σ) (tree : FileTree) (files : List Path) :
    (extractFiles p compiler tree workspace files).Tracked workspace := by
  induction files generalizing p with
  | nil => exact h
  | cons path files ih => exact ih (h.add compiler tree path)

-- In a pass over all files, which starts with none that is styled.
theorem tracked_extractFiles (session : Session) (state : σ) (compiler : Compiler σ)
    (tree : FileTree) (workspace : Path) (files : List Path) :
    (extractFiles { session, state } compiler tree workspace files).Tracked workspace := by
  refine Pass.Tracked.extractFiles ⟨?_, ?_⟩ compiler tree files <;> simp

theorem cssPath_eq_join {file : StyledFile} {front : List (List Char)} {last : List Char}
    (h : file.relative = ⟨String.ofList (spelled front last)⟩) (outDir : Path) :
    cssPath outDir file = outDir.join ⟨String.ofList (spelled front (last ++ cssEnding))⟩ := by
  have htext : file.relative.text ++ ".css" =
      String.ofList (spelled front (last ++ cssEnding)) := by
    rw [h, ← Path.spelled_append]
    exact (String.ofList_append).symm
  rw [cssPath, htext]

-- A file below the workspace and its stylesheet below the output directory, component by component.
theorem exists_components_cssPath {workspace : Path} (habs : workspace.isAbsolute = true)
    {file : StyledFile} (hrelative : file.relative = file.path.relativeTo workspace)
    (hbelow : file.path.Below workspace) (outDir : Path) :
    ∃ front last, Trimmed front last ∧
      file.path.components = workspace.components ++ inner (front ++ [last]) ∧
      (cssPath outDir file).components =
        outDir.components ++ inner (front ++ [last ++ cssEnding]) := by
  obtain ⟨front, last, htrimmed, hspelled, hcomponents⟩ := hbelow.exists_relativeTo habs
  refine ⟨front, last, htrimmed, hcomponents, ?_⟩
  rw [cssPath_eq_join (hrelative.trans hspelled), htrimmed.append_cssEnding.components_join]

-- Different files have different stylesheets.
theorem same_of_same_cssPath {workspace outDir : Path} (habs : workspace.isAbsolute = true)
    {file other : StyledFile} (hfile : file.relative = file.path.relativeTo workspace)
    (hother : other.relative = other.path.relativeTo workspace)
    (hbelow : file.path.Below workspace) (hbelow' : other.path.Below workspace)
    (h : (cssPath outDir other).same (cssPath outDir file) = true) :
    other.path.same file.path = true := by
  obtain ⟨front, last, htrimmed, hpath, htarget⟩ :=
    exists_components_cssPath habs hfile hbelow outDir
  obtain ⟨front', last', htrimmed', hpath', htarget'⟩ :=
    exists_components_cssPath habs hother hbelow' outDir
  rw [Path.same_iff, htarget, htarget', htrimmed.inner_append_cssEnding,
    htrimmed'.inner_append_cssEnding] at h
  obtain ⟨hfront, hlast⟩ := List.append_inj' (List.append_cancel_left h) rfl
  obtain rfl : last' = last := by simpa using hlast
  rw [Path.same_iff, hpath, hpath', htrimmed.inner_concat, htrimmed'.inner_concat, hfront]

-- For an absolute workspace and any output directory: whatever spelling the linter uses for the
-- stylesheet of a file below the workspace, its result goes to that file and is corrected with the
-- replacements remembered for it, and no other file has a stylesheet there.
theorem mapResults_cssPath {workspace : Path} (habs : workspace.isAbsolute = true) (outDir : Path)
    (session : Session) (compiler : Compiler σ) (state : σ) (tree : FileTree) (files : List Path)
    {p : Pass σ} (hp : p = extractFiles { session, state } compiler tree workspace files)
    {file : StyledFile} (hfile : file ∈ p.styled) (hbelow : file.path.Below workspace) :
    (∀ source, (resolved source workspace).same (cssPath outDir file) = true →
      (sourcePath source workspace (some outDir)).same file.path = true ∧
      ∃ rs, p.session.replacements? file.path = some rs ∧
        ∀ (earlier later : List Lint.Result) (result : Lint.Result), result.source = some source →
          p.session.mapResults workspace (some outDir) (earlier ++ result :: later) =
            p.session.mapResults workspace (some outDir) earlier ++
              (sourcePath source workspace (some outDir),
                { result with
                  source := some (sourcePath source workspace (some outDir)).text
                  warnings := result.warnings.map fun w =>
                    { w with column := rs.correctColumn w.line w.column } }) ::
              p.session.mapResults workspace (some outDir) later) ∧
    ∀ other ∈ p.styled, other.path.Below workspace → other.path.same file.path = false →
      (cssPath outDir other).same (cssPath outDir file) = false := by
  have htracked : p.Tracked workspace := by
    rw [hp]
    exact tracked_extractFiles session state compiler tree workspace files
  refine ⟨?_, ?_⟩
  · intro source hsource
    obtain ⟨front, last, htrimmed, hpath, htarget⟩ :=
      exists_components_cssPath habs (htracked.relative file hfile) hbelow outDir
    have hback : (sourcePath source workspace (some outDir)).same file.path = true := by
      rw [Path.same_iff, hpath]
      rw [Path.same_iff, htarget] at hsource
      exact Path.components_sourcePath habs htrimmed hsource
    obtain ⟨rs, hrs⟩ := Option.isSome_iff_exists.mp (htracked.remembered file hfile)
    refine ⟨hback, rs, hrs, ?_⟩
    intro earlier later result hresult
    have hrs' : p.session.replacements? (sourcePath source workspace (some outDir)) = some rs := by
      rw [Session.replacements?_congr p.session hback, hrs]
    simp only [Session.mapResults, List.filterMap_append, List.filterMap_cons,
      Session.mapResult?_of_replacements? hresult hrs']
  · intro other hother hbelow' hdifferent
    by_contra h
    rw [Bool.not_eq_false] at h
    have hsame := same_of_same_cssPath habs (htracked.relative file hfile)
      (htracked.relative other hother) hbelow hbelow' h
    rw [hsame] at hdifferent
    cases hdifferent

-- A workspace with two files, of which one has the name of a stylesheet.
def twoFiles : FileTree where
  root := .dir [("w", .dir [("a.js", styled), ("b.css", styled)])]
  workingDir := []
where
  styled : FileNode := .file "const a = css`x${y}z`;".toUTF8 false

def oneRule : Metadata where
  rules := [(".a", ⟨"a", "xpz", some ⟨1, 14⟩, none⟩)]
  replacements := [⟨⟨⟨1, 15⟩, ⟨1, 18⟩⟩, 1⟩]

def twoFilesPass : Pass Unit :=
  extractFiles { session := {}, state := () } (fun _ _ _ => (.ok (some oneRule), ())) twoFiles
    ⟨"/w"⟩ [⟨"/w//b.css"⟩, ⟨"/w/a.js"⟩]

-- What the linter says about the character after the placeholder.
def oneWarning : Lint.Result :=
  ⟨some "out/.//b.css.css/", [⟨1, 17, []⟩], []⟩

theorem mapResults_cssPath_two_files :
    ∃ file ∈ twoFilesPass.styled, file.path = ⟨"/w//b.css"⟩ ∧
      (sourcePath "out/.//b.css.css/" ⟨"/w"⟩ (some ⟨"/w/out"⟩)).same file.path = true ∧
      (twoFilesPass.session.mapResults ⟨"/w"⟩ (some ⟨"/w/out"⟩) [oneWarning]).map
        (fun r => (r.1.text, r.2.warnings.map fun w => (w.line, w.column))) =
        [("/w/b.css", [(1, 20)])] ∧
      ∃ other ∈ twoFilesPass.styled, other.path = ⟨"/w/a.js"⟩ ∧
        (cssPath ⟨"/w/out"⟩ other).same (cssPath ⟨"/w/out"⟩ file) = false := by
  have hstyled : twoFilesPass.styled.map (fun file => (file.path, file.relative)) =
      [(⟨"/w//b.css"⟩, ⟨"b.css"⟩), (⟨"/w/a.js"⟩, ⟨"a.js"⟩)] := by
    decide +kernel
  obtain ⟨file, hfile, hb⟩ := List.mem_map.mp (hstyled ▸ List.mem_cons_self)
  obtain ⟨other, hother, ha⟩ :=
    List.mem_map.mp (hstyled ▸ List.mem_cons_of_mem _ List.mem_cons_self)
  obtain ⟨hpath, hrelative⟩ := Prod.mk.inj hb
  obtain ⟨hpath', -⟩ := Prod.mk.inj ha
  have hbelow : file.path.Below ⟨"/w"⟩ := ⟨.normal "b.css".toList, [], by rw [hpath]; decide⟩
  have hbelow' : other.path.Below ⟨"/w"⟩ := ⟨.normal "a.js".toList, [], by rw [hpath']; decide⟩
  obtain ⟨hback, hdifferent⟩ := mapResults_cssPath (by decide) ⟨"/w/out"⟩ _ _ () twoFiles _
    (show twoFilesPass = _ from rfl) hfile hbelow
  have htarget : (resolved "out/.//b.css.css/" ⟨"/w"⟩).same (cssPath ⟨"/w/out"⟩ file) = true := by
    rw [cssPath, hrelative]
    decide
  obtain ⟨hsame, rs, hrs, hmap⟩ := hback _ htarget
  have hremembered :
      twoFilesPass.session.replacements? ⟨"/w//b.css"⟩ = some oneRule.replacements := by
    decide +kernel
  obtain rfl : oneRule.replacements = rs := by
    rw [hpath] at hrs
    exact Option.some.inj (hremembered.symm.trans hrs)
  refine ⟨file, hfile, hpath, hsame, ?_, other, hother, hpath', ?_⟩
  · have hresult := hmap [] [] oneWarning rfl
    rw [List.nil_append] at hresult
    rw [hresult]
    decide +kernel
  · exact hdifferent other hother hbelow' (by rw [hpath, hpath']; decide)

end EmbeddedStyles.Check
