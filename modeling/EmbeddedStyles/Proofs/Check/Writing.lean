import EmbeddedStyles.Proofs.Check.Mapping
import EmbeddedStyles.Proofs.FileTree.Joining
import EmbeddedStyles.Proofs.FileTree.Writing
import EmbeddedStyles.Proofs.Run.Discovery

namespace EmbeddedStyles.Check

open EmbeddedStyles.Path (Trimmed cssEnding inner isBlankSegment spelled)

-- A file below the workspace, with its path seen from there, which does not lead up.
structure StyledFile.Inside (file : StyledFile) (workspace : Path) : Prop where
  below : file.path.Below workspace
  relative : file.relative = file.path.relativeTo workspace
  downward : .parent ∉ file.relative.components

-- The files to which the paths of the stylesheets lead.
def targets (tree : FileTree) (outDir : Path) (files : List StyledFile) : Set (List FileName) :=
  {chain | ∃ file ∈ files, ∃ names,
    tree.resolve (cssPath outDir file) = .ok names ∧ chain = names.map .ofText}

section Steps

variable {tree tree' : FileTree} {outDir : Path} {file : StyledFile} {files : List StyledFile}
  {result : Except Error Unit} {touched : Set (List FileName)}

theorem targets_of_grows (h : tree.Grows touched tree') {files' : List StyledFile}
    (hfiles : files ⊆ files') : targets tree outDir files ⊆ targets tree' outDir files' := by
  rintro chain ⟨file, hfile, names, hnames, rfl⟩
  exact ⟨file, hfiles hfile, names, h.resolve hnames, rfl⟩

-- Directories are made, and then at most the file that is written is touched.
theorem writeInto_grows {parent target : Path} {css : String}
    {made : Except FileError Unit × FileTree} (hdirs : tree.Grows ∅ made.2)
    (h : writeInto parent target css made = (result, tree')) :
    tree.Grows {chain | ∃ names, tree'.resolve target = .ok names ∧ chain = names.map .ofText}
      tree' ∧
      (result = .ok () → ∃ names executable, tree'.resolve target = .ok names ∧
        tree'.root.get? names = some (.file css.toUTF8 executable)) := by
  obtain ⟨made, tree₁⟩ := made
  cases made with
  | error cause =>
    obtain ⟨rfl, rfl⟩ := Prod.mk.inj h
    exact ⟨hdirs.mono (Set.empty_subset _), by simp⟩
  | ok _ =>
    cases hwrite : tree₁.writeText target css with
    | error cause =>
      rw [writeInto, hwrite] at h
      obtain ⟨rfl, rfl⟩ := Prod.mk.inj h
      exact ⟨hdirs.mono (Set.empty_subset _), by simp⟩
    | ok tree₂ =>
      rw [writeInto, hwrite] at h
      obtain ⟨rfl, rfl⟩ := Prod.mk.inj h
      obtain ⟨names, executable, hresolve, hfile, hgrows⟩ := FileTree.exists_of_writeText hwrite
      refine ⟨(hdirs.mono (Set.empty_subset _)).trans (hgrows.mono ?_),
        fun _ => ⟨names, executable, hresolve, hfile⟩⟩
      rintro chain rfl
      exact ⟨names, hresolve, rfl⟩

theorem writeFile_grows (h : writeFile tree outDir file = (result, tree')) :
    tree.Grows (targets tree' outDir [file]) tree' ∧
      (result = .ok () → ∃ names executable, tree'.resolve (cssPath outDir file) = .ok names ∧
        tree'.root.get? names = some (.file file.css.toUTF8 executable)) := by
  rw [writeFile] at h
  obtain ⟨hgrows, hfile⟩ := writeInto_grows (tree.addDirs_grows _) h
  refine ⟨hgrows.mono ?_, hfile⟩
  rintro chain ⟨names, hnames, rfl⟩
  exact ⟨file, by simp, names, hnames, rfl⟩

-- The first file is written or not, and only in the first case there is more to do.
theorem writeCss_cons_cases (h : writeCss outDir tree (file :: files) = (result, tree')) :
    (∃ error, writeFile tree outDir file = (.error error, tree') ∧ result = .error error) ∨
      ∃ tree₁, writeFile tree outDir file = (.ok (), tree₁) ∧
        writeCss outDir tree₁ files = (result, tree') := by
  rw [writeCss] at h
  generalize writeFile tree outDir file = step at h ⊢
  obtain ⟨written, tree₁⟩ := step
  cases written with
  | error error =>
    obtain ⟨rfl, rfl⟩ := Prod.mk.inj h
    exact .inl ⟨error, rfl, rfl⟩
  | ok _ => exact .inr ⟨tree₁, rfl, h⟩

theorem writeCss_grows (h : writeCss outDir tree files = (result, tree')) :
    tree.Grows (targets tree' outDir files) tree' := by
  induction files generalizing tree with
  | nil =>
    obtain ⟨rfl, rfl⟩ := Prod.mk.inj h
    exact (FileTree.Grows.refl tree).mono (Set.empty_subset _)
  | cons file files ih =>
    rcases writeCss_cons_cases h with ⟨error, hfile, -⟩ | ⟨tree₁, hfile, hrest⟩
    · exact (writeFile_grows hfile).1.mono (targets_of_grows (.refl tree') (by simp))
    · have hgrows := ih hrest
      refine ((writeFile_grows hfile).1.mono ?_).trans (hgrows.mono ?_)
      · exact targets_of_grows hgrows (by simp)
      · exact targets_of_grows (.refl tree') (by simp)

-- A failure stands between files that were written and files that were not tried.
theorem exists_failing {error : Error} (h : writeCss outDir tree files = (.error error, tree')) :
    ∃ before failing after tree₁, files = before ++ failing :: after ∧
      writeCss outDir tree before = (.ok (), tree₁) ∧
      writeFile tree₁ outDir failing = (.error error, tree') := by
  induction files generalizing tree with
  | nil => cases (Prod.mk.inj h).1
  | cons file files ih =>
    rcases writeCss_cons_cases h with ⟨error', hfile, herror⟩ | ⟨tree₁, hfile, hrest⟩
    · obtain rfl := Except.error.inj herror
      exact ⟨[], file, files, tree, rfl, rfl, hfile⟩
    · obtain ⟨before, failing, after, tree₂, rfl, hbefore, hfailing⟩ := ih hrest
      refine ⟨file :: before, failing, after, tree₂, rfl, ?_, hfailing⟩
      rw [writeCss, hfile, followedBy, hbefore]

end Steps

section Places

variable {workspace outDir : Path} {file other : StyledFile}

theorem StyledFile.Inside.exists_trimmed (hworkspace : workspace.text ≠ "")
    (h : file.Inside workspace) (outDir : Path) :
    ∃ front last, Trimmed front last ∧ file.relative.components = inner (front ++ [last]) ∧
      ∀ tree : FileTree, tree.location (cssPath outDir file) = tree.location outDir ++
        ((front ++ [last ++ cssEnding]).filter (!isBlankSegment ·)).map String.ofList := by
  obtain ⟨c, rest, hcomponents⟩ := h.below
  have hbase := Path.components_ne_nil hworkspace
  obtain ⟨front, last, htrimmed, hrelative, -⟩ :=
    Path.exists_relativeTo? hbase (List.cons_ne_nil c rest) hcomponents
  have hspelled : file.relative = ⟨String.ofList (spelled front last)⟩ := by
    rw [h.relative, Path.relativeTo, hrelative, Option.getD_some]
  have hinner : file.relative.components = inner (front ++ [last]) := by
    rw [hspelled, Path.components, String.toList_ofList, htrimmed.componentsOf_spelled]
  have hdown : .parent ∉ inner (front ++ [last ++ cssEnding]) := by
    have hdown := h.downward
    rw [hinner, htrimmed.inner_concat] at hdown
    rw [htrimmed.inner_append_cssEnding]
    simp only [List.mem_append, List.mem_singleton, not_or] at hdown ⊢
    exact ⟨hdown.1, by simp⟩
  refine ⟨front, last, htrimmed, hinner, fun tree => ?_⟩
  rw [cssPath_eq_join hspelled, FileTree.location_join htrimmed.append_cssEnding hdown]

-- Stylesheets of different files are in different places.
theorem same_of_location_eq (hworkspace : workspace.text ≠ "") (hfile : file.Inside workspace)
    (hother : other.Inside workspace) {tree : FileTree}
    (h : tree.location (cssPath outDir file) = tree.location (cssPath outDir other)) :
    file.relative.same other.relative = true := by
  obtain ⟨front, last, htrimmed, hinner, hlocation⟩ := hfile.exists_trimmed hworkspace outDir
  obtain ⟨front', last', htrimmed', hinner', hlocation'⟩ := hother.exists_trimmed hworkspace outDir
  rw [hlocation, hlocation'] at h
  have hsegments := List.map_injective_iff.mpr (fun _ _ => String.ofList_injective)
    (List.append_cancel_left h)
  have hcss : inner (front ++ [last ++ cssEnding]) = inner (front' ++ [last' ++ cssEnding]) := by
    rw [Path.inner, Path.inner, hsegments]
  rw [htrimmed.inner_append_cssEnding, htrimmed'.inner_append_cssEnding] at hcss
  obtain ⟨hfront, hlast⟩ := List.append_inj' hcss rfl
  obtain rfl : last = last' := by simpa using hlast
  rw [Path.same_iff, hinner, hinner', htrimmed.inner_concat, htrimmed'.inner_concat, hfront]

theorem exists_getLast?_location (hworkspace : workspace.text ≠ "") (h : file.Inside workspace)
    (tree : FileTree) (outDir : Path) :
    ∃ name : List Char, (tree.location (cssPath outDir file)).getLast? =
      some (String.ofList (name ++ cssEnding)) := by
  obtain ⟨front, last, htrimmed, -, hlocation⟩ := h.exists_trimmed hworkspace outDir
  refine ⟨last, ?_⟩
  rw [hlocation, List.filter_append, List.filter_cons_of_pos
    (by simp [Path.isBlankSegment_cssEnding])]
  simp

end Places

section Runs

variable {tree tree' : FileTree} {workspace outDir : Path} {file : StyledFile}
  {files others : List StyledFile} (hworkspace : workspace.text ≠ "")
include hworkspace

-- A stylesheet stays as it is while those of other files are written.
theorem readBytes_cssPath_of_grows (hfile : file.Inside workspace)
    (hothers : ∀ other ∈ others, other.Inside workspace)
    (hdifferent : ∀ other ∈ others, file.relative.same other.relative = false)
    (hlinks : ∀ other ∈ file :: others, tree.LinkFree (cssPath outDir other))
    (hgrows : tree.Grows (targets tree' outDir others) tree') {content : ByteArray}
    (hread : tree.readBytes (cssPath outDir file) = .ok content) :
    tree'.readBytes (cssPath outDir file) = .ok content := by
  obtain ⟨names, executable, hnames, hget⟩ := FileTree.exists_of_readBytes hread
  have hfree : names.map .ofText ∉ targets tree' outDir others := by
    rintro ⟨other, hother, names', hnames', heq⟩
    obtain rfl := List.map_injective_iff.mpr FileName.ofText_injective heq
    have hplace := (hlinks file (by simp)).eq_location hnames
    have hplace' :=
      ((hlinks other (List.mem_cons_of_mem _ hother)).of_grows hgrows).eq_location hnames'
    rw [FileTree.location_of_grows hgrows] at hplace'
    have hsame := same_of_location_eq hworkspace hfile (hothers other hother)
      (hplace.symm.trans hplace')
    rw [hdifferent other hother] at hsame
    cases hsame
  exact FileTree.readBytes_of_resolve (hgrows.resolve hnames) ((hgrows.root.files hfree).mpr hget)

theorem readBytes_cssPath_of_writeCss (hfiles : ∀ file ∈ files, file.Inside workspace)
    (hdistinct : files.Pairwise fun a b => a.relative.same b.relative = false)
    (hlinks : ∀ file ∈ files, tree.LinkFree (cssPath outDir file))
    (h : writeCss outDir tree files = (.ok (), tree')) :
    ∀ file ∈ files, tree'.readBytes (cssPath outDir file) = .ok file.css.toUTF8 := by
  induction files generalizing tree with
  | nil => simp
  | cons file files ih =>
    obtain ⟨hdifferent, hdistinct⟩ := List.pairwise_cons.mp hdistinct
    obtain ⟨hfile, hothers⟩ := List.forall_mem_cons.mp hfiles
    rcases writeCss_cons_cases h with ⟨error, -, herror⟩ | ⟨tree₁, hwritten, hrest⟩
    · cases herror
    obtain ⟨hgrows, hheld⟩ := writeFile_grows hwritten
    have hlinks₁ : ∀ other ∈ file :: files, tree₁.LinkFree (cssPath outDir other) :=
      fun other hother => (hlinks other hother).of_grows hgrows
    refine List.forall_mem_cons.mpr ⟨?_, ?_⟩
    · obtain ⟨names, executable, hnames, hget⟩ := hheld rfl
      exact readBytes_cssPath_of_grows hworkspace hfile hothers hdifferent hlinks₁
        (writeCss_grows hrest) (FileTree.readBytes_of_resolve hnames hget)
    · exact ih hothers hdistinct (List.forall_mem_cons.mp hlinks₁).2 hrest

end Runs

-- No name of a stylesheet ends with one of the extensions.
def SparesStylesheets (extensions : List String) : Prop :=
  ∀ extension ∈ extensions, ∀ name : List Char, ¬ extension.toList <:+ name ++ cssEnding

theorem sparesStylesheets_defaultExtensions : SparesStylesheets Config.defaultExtensions := by
  intro extension hextension name hsuffix
  have hapart : ∀ extension ∈ Config.defaultExtensions,
      ¬ extension.toList <:+ cssEnding ∧ ¬ cssEnding <:+ extension.toList := by
    decide +kernel
  obtain ⟨hshort, hlong⟩ := hapart extension hextension
  rcases List.suffix_or_suffix_of_suffix hsuffix (List.suffix_append name cssEnding) with h | h
  · exact hshort h
  · exact hlong h

-- No source is where a stylesheet is, even if both are in the workspace.
theorem notMem_targets_of_hasExtension {tree : FileTree} {workspace outDir : Path}
    {files : List StyledFile} {extensions names : List String} (hworkspace : workspace.text ≠ "")
    (hspares : SparesStylesheets extensions) (hfiles : ∀ file ∈ files, file.Inside workspace)
    (hlinks : ∀ file ∈ files, tree.LinkFree (cssPath outDir file))
    (hextension : Run.hasExtension extensions (names.getLast?.getD "") = true) :
    names.map .ofText ∉ targets tree outDir files := by
  rintro ⟨file, hfile, names', hnames', heq⟩
  obtain rfl := List.map_injective_iff.mpr FileName.ofText_injective heq
  obtain ⟨name, hname⟩ := exists_getLast?_location hworkspace (hfiles file hfile) tree outDir
  rw [(hlinks file hfile).eq_location hnames', hname] at hextension
  simp only [Run.hasExtension, List.any_eq_true, Option.getD_some, String.toList_ofList,
    List.isSuffixOf_iff_suffix] at hextension
  obtain ⟨extension, hmem, hsuffix⟩ := hextension
  exact hspares extension hmem name hsuffix

theorem readBytes_of_discover {tree tree' : FileTree} {workspace outDir : Path}
    {entries : List (FileName × FileNode)} {files : List StyledFile} {extensions : List String}
    (hdir : tree.node workspace = .ok (.dir entries)) (hwf : (FileNode.dir entries).WellFormed)
    (hspares : SparesStylesheets extensions) (hfiles : ∀ file ∈ files, file.Inside workspace)
    (hlinks : ∀ file ∈ files, tree.LinkFree (cssPath outDir file))
    (hgrows : tree.Grows (targets tree' outDir files) tree') {globs : List Glob} {p : Path}
    (hp : p ∈ Run.discover tree workspace extensions globs) :
    tree'.readBytes p = tree.readBytes p := by
  obtain ⟨names, rfl, hne, hproper, ⟨content, executable, hfile⟩, hextension⟩ :=
    Run.exists_of_mem_discover hdir hwf hp
  obtain ⟨above, habove, hget⟩ := FileTree.exists_of_node hdir
  have hworkspace := FileTree.text_ne_empty_of_resolve habove
  have hold : tree.root.get? (above ++ names) = some (.file content executable) := by
    rw [FileNode.get?_append, hget]
    exact hfile
  have hfree : (above ++ names).map .ofText ∉ targets tree' outDir files := by
    refine notMem_targets_of_hasExtension hworkspace hspares hfiles ?_ ?_
    · exact fun file hfile => (hlinks file hfile).of_grows hgrows
    · rwa [List.getLast?_append_of_ne_nil _ hne]
  have hnew : tree'.root.get? (above ++ names) = some (.file content executable) :=
    (hgrows.root.files hfree).mpr hold
  -- In both trees the path leads to the same names, or is refused for its length.
  have hresolve := FileTree.resolve_below habove hne hproper hold (by simp)
  have hresolve' := FileTree.resolve_below (hgrows.resolve habove) hne hproper hnew (by simp)
  refine FileTree.readBytes_congr (hresolve'.trans hresolve.symm) ?_
  intro names' hnames'
  rw [hresolve] at hnames'
  obtain ⟨-, -, hnames'⟩ := bind_eq_ok_iff.mp hnames'
  split at hnames'
  · obtain rfl := Except.ok.inj hnames'
    exact ⟨content, executable, hold, hnew⟩
  · cases hnames'

-- For any output directory that is reached without links: once all stylesheets are written, each is
-- as it should be, and no other file has changed. After a failure the same holds of the stylesheets
-- before it and of the files that are none of these. Sources stay as they are in either case, the
-- workspace being no empty path and their names not ending like those of stylesheets.
theorem writeCss_keeps {tree tree' : FileTree} {workspace outDir : Path} {files : List StyledFile}
    {result : Except Error Unit} (hworkspace : workspace.text ≠ "")
    (hfiles : ∀ file ∈ files, file.Inside workspace)
    (hdistinct : files.Pairwise fun a b => a.relative.same b.relative = false)
    (hlinks : ∀ file ∈ files, tree.LinkFree (cssPath outDir file))
    (hwrite : writeCss outDir tree files = (result, tree')) :
    (result = .ok () →
      (∀ file ∈ files, tree'.readBytes (cssPath outDir file) = .ok file.css.toUTF8) ∧
      ∀ chain ∉ targets tree' outDir files, ∀ content executable,
        tree'.root.lookup? chain = some (.file content executable) ↔
          tree.root.lookup? chain = some (.file content executable)) ∧
    (∀ error, result = .error error → ∃ before failing after tree₁,
      files = before ++ failing :: after ∧
      writeCss outDir tree before = (.ok (), tree₁) ∧
      writeFile tree₁ outDir failing = (.error error, tree') ∧
      (∀ file ∈ before, tree'.readBytes (cssPath outDir file) = .ok file.css.toUTF8) ∧
      ∀ chain ∉ targets tree' outDir (before ++ [failing]), ∀ content executable,
        tree'.root.lookup? chain = some (.file content executable) ↔
          tree.root.lookup? chain = some (.file content executable)) ∧
    (∀ entries extensions globs, tree.node workspace = .ok (.dir entries) →
      (FileNode.dir entries).WellFormed → SparesStylesheets extensions →
      ∀ p ∈ Run.discover tree workspace extensions globs,
        tree'.readBytes p = tree.readBytes p) ∧
    SparesStylesheets Config.defaultExtensions := by
  refine ⟨?_, ?_, ?_, sparesStylesheets_defaultExtensions⟩
  · rintro rfl
    refine ⟨readBytes_cssPath_of_writeCss hworkspace hfiles hdistinct hlinks hwrite, ?_⟩
    intro chain hchain content executable
    exact (writeCss_grows hwrite).root.files hchain
  · rintro error rfl
    obtain ⟨before, failing, after, tree₁, rfl, hbefore, hfailing⟩ := exists_failing hwrite
    have hgrows := writeCss_grows hbefore
    have hgrows' := (writeFile_grows hfailing).1
    obtain ⟨hdistinct, -, hapart⟩ := List.pairwise_append.mp hdistinct
    obtain ⟨hfiles, hrest⟩ := List.forall_mem_append.mp hfiles
    obtain ⟨hlinks, hlinksRest⟩ := List.forall_mem_append.mp hlinks
    refine ⟨before, failing, after, tree₁, rfl, hbefore, hfailing, ?_, ?_⟩
    · intro file hfile
      have hread :=
        readBytes_cssPath_of_writeCss hworkspace hfiles hdistinct hlinks hbefore file hfile
      refine readBytes_cssPath_of_grows hworkspace (hfiles file hfile) ?_ ?_ ?_ hgrows' hread
      · simpa using hrest failing (by simp)
      · simpa using hapart file hfile failing (by simp)
      · intro other hother
        rcases List.mem_cons.mp hother with rfl | hother
        · exact (hlinks other hfile).of_grows hgrows
        · obtain rfl := List.mem_singleton.mp hother
          exact (hlinksRest other (by simp)).of_grows hgrows
    · intro chain hchain content executable
      have hwhole : tree.Grows (targets tree' outDir (before ++ [failing])) tree' :=
        (hgrows.mono (targets_of_grows hgrows' (by simp))).trans
          (hgrows'.mono (targets_of_grows (.refl tree') (by simp)))
      exact hwhole.root.files hchain
  · intro entries extensions globs hdir hwf hspares p hp
    exact readBytes_of_discover hdir hwf hspares hfiles hlinks (writeCss_grows hwrite) hp

-- A workspace with two sources, where one stylesheet was written before.
def sharedEntries : List (FileName × FileNode) :=
  [("a.ts", .file "const a = css`d`;".toUTF8 false),
    ("a.ts.css", .file "old".toUTF8 false),
    ("notes.css", .file "kept".toUTF8 false)]

def sharedTree : FileTree where
  root := .dir [("w", .dir sharedEntries)]
  workingDir := ["w"]

-- The stylesheets go to the workspace itself, which is reached by a detour.
def sharedFiles : List StyledFile :=
  [⟨⟨"/w/a.ts"⟩, ⟨"a.ts"⟩, "const a = css`d`;", ".a"⟩,
    ⟨⟨"/w/src//a.ts"⟩, ⟨"src//a.ts"⟩, "const b = css`d`;", ".b"⟩]

theorem wellFormed_sharedEntries : (FileNode.dir sharedEntries).WellFormed := by
  refine .dir (by decide +kernel) (by decide +kernel) ?_
  simp only [sharedEntries, List.forall_mem_cons]
  exact ⟨.file _ _, .file _ _, .file _ _, by simp⟩

theorem writeCss_keeps_shared :
    ∃ tree', writeCss ⟨"../w/"⟩ sharedTree sharedFiles = (.ok (), tree') ∧
      tree'.readBytes ⟨"../w/a.ts.css"⟩ = .ok ".a".toUTF8 ∧
      tree'.readBytes ⟨"../w/src//a.ts.css"⟩ = .ok ".b".toUTF8 ∧
      tree'.readBytes ⟨"/w/a.ts"⟩ = sharedTree.readBytes ⟨"/w/a.ts"⟩ := by
  have hfiles : ∀ file ∈ sharedFiles, file.Inside ⟨"/w"⟩ := by
    simp only [sharedFiles, List.forall_mem_cons]
    refine ⟨⟨⟨_, _, rfl⟩, by decide +kernel, by decide +kernel⟩,
      ⟨⟨_, _, rfl⟩, by decide +kernel, by decide +kernel⟩, by simp⟩
  have hdistinct : sharedFiles.Pairwise fun a b => a.relative.same b.relative = false := by
    decide +kernel
  have hlinks : ∀ file ∈ sharedFiles, sharedTree.LinkFree (cssPath ⟨"../w/"⟩ file) := by
    decide +kernel
  have hok : (writeCss ⟨"../w/"⟩ sharedTree sharedFiles).1.isOk = true := by decide +kernel
  cases hwrite : writeCss ⟨"../w/"⟩ sharedTree sharedFiles with
  | mk result tree' =>
    rw [hwrite] at hok
    cases result with
    | error error => cases hok
    | ok _ =>
      obtain ⟨hwritten, -, hsources, hdefaults⟩ :=
        writeCss_keeps (by decide) hfiles hdistinct hlinks hwrite
      obtain ⟨hheld, -⟩ := hwritten rfl
      have hdir : sharedTree.node ⟨"/w"⟩ = .ok (.dir sharedEntries) := by rfl
      have hfound : (⟨"/w/a.ts"⟩ : Path) ∈
          Run.discover sharedTree ⟨"/w"⟩ Config.defaultExtensions [] :=
        List.mem_mergeSort.mpr (by decide +kernel)
      simp only [sharedFiles, List.forall_mem_cons] at hheld
      exact ⟨tree', rfl, hheld.1, hheld.2.1,
        hsources _ _ [] hdir wellFormed_sharedEntries hdefaults _ hfound⟩

end EmbeddedStyles.Check
