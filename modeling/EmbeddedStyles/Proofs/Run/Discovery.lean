import EmbeddedStyles.Run
import EmbeddedStyles.Proofs.FileTree.Listing
import EmbeddedStyles.Proofs.FileTree.Walking
import EmbeddedStyles.Proofs.Glob.Directories
import EmbeddedStyles.Proofs.Json.OrderedDecoding
import EmbeddedStyles.Proofs.Path.Order
import Mathlib.Data.List.Sort

namespace EmbeddedStyles

theorem Glob.mem_iff_of_parseAll {texts : List String} {globs : List Glob}
    (h : parseAll texts = .ok globs) {g : Glob} :
    g ∈ globs ↔ ∃ text ∈ texts, parse text = .ok g := by
  obtain ⟨globs', hglobs, hrest⟩ := bind_eq_ok_iff.mp h
  obtain ⟨-, -, hpure⟩ := bind_eq_ok_iff.mp hrest
  obtain rfl : globs' = globs := by simpa using hpure
  have hparsed := Json.mapM_eq_ok_iff.mp hglobs
  clear h hglobs hrest hpure
  induction hparsed with
  | nil => simp
  | cons hparse _ ih => simp [ih, hparse, eq_comm]

namespace Run

open EmbeddedStyles.Path (Component ProperName compareComponents)

-- The directories in which nothing is looked for.
def ignoredDirs : List String :=
  ["node_modules", "dist", ".styled-lint"]

theorem parse_defaultIgnores :
    defaultIgnores.map Glob.parse = ignoredDirs.map fun d => .ok (Glob.inside d) := rfl

-- The globs of a run are those of the given patterns and those of the ignored directories.
theorem mem_ignoreGlobs {exclude ignore : List String} {globs : List Glob}
    (h : ignoreGlobs exclude ignore = .ok globs) {g : Glob} :
    g ∈ globs ↔ (∃ text ∈ exclude ++ ignore, Glob.parse text = .ok g) ∨
      ∃ d ∈ ignoredDirs, g = Glob.inside d := by
  have hdefaults : (∃ text ∈ defaultIgnores, Glob.parse text = .ok g) ↔
      ∃ d ∈ ignoredDirs, g = Glob.inside d := by
    have hmem : .ok g ∈ defaultIgnores.map Glob.parse ↔
        (.ok g : Except Glob.Error Glob) ∈ ignoredDirs.map fun d => .ok (Glob.inside d) := by
      rw [parse_defaultIgnores]
    simpa [eq_comm] using hmem
  rw [Glob.mem_iff_of_parseAll h, ← hdefaults]
  simp only [List.mem_append, or_and_right, exists_or]

-- What decides about a file, by the names that lead to it.
def selects (extensions : List String) (ignores : List Glob) (names : List String) : Bool :=
  hasExtension extensions (names.getLast?.getD "") &&
    !ignores.any (·.accepts ("/".intercalate names))

def namesLE (a b : List String) : Bool :=
  (compareComponents (a.map Component.ofName) (b.map Component.ofName)).isLE

theorem namesLE_trans (a b c : List String) (hab : namesLE a b = true) (hbc : namesLE b c = true) :
    namesLE a c = true :=
  Std.TransCmp.isLE_trans hab hbc

theorem namesLE_total (a b : List String) : (namesLE a b || namesLE b a) = true := by
  have hswap : compareComponents (b.map Component.ofName) (a.map Component.ofName) =
      (compareComponents (a.map Component.ofName) (b.map Component.ofName)).swap :=
    Std.OrientedCmp.eq_swap
  rw [namesLE, namesLE, hswap]
  cases compareComponents (a.map Component.ofName) (b.map Component.ofName) <;> rfl

theorem namesLE_antisymm (a b : List String) (hab : namesLE a b = true) (hba : namesLE b a = true) :
    a = b :=
  List.map_injective_iff.mpr Path.ofName_injective
    (Std.LawfulEqCmp.eq_of_compare (Std.OrientedCmp.isLE_antisymm hab hba))

-- The files below a directory that are selected, in order.
def found (dir : FileNode) (extensions : List String) (ignores : List Glob) : List (List String) :=
  ((dir.filesBelow []).filter (selects extensions ignores)).mergeSort namesLE

section

variable {dir dir' : FileNode} {extensions : List String} {ignores ignores' : List Glob}

theorem mem_found {names : List String} :
    names ∈ found dir extensions ignores ↔
      names ∈ dir.filesBelow [] ∧ selects extensions ignores names = true := by
  rw [found, List.mem_mergeSort, List.mem_filter]

theorem pairwise_found : (found dir extensions ignores).Pairwise (namesLE · ·) :=
  List.pairwise_mergeSort namesLE_trans namesLE_total _

theorem nodup_found (h : dir.WellFormed) : (found dir extensions ignores).Nodup :=
  (List.mergeSort_perm _ _).nodup_iff.mpr ((FileNode.nodup_filesBelow_nil h).filter _)

-- Another order of the files that were walked gives the same list.
theorem found_congr (h : (dir.filesBelow []).Perm (dir'.filesBelow [])) :
    found dir extensions ignores = found dir' extensions ignores := by
  refine List.Perm.eq_of_pairwise (fun a b _ _ => namesLE_antisymm a b) pairwise_found
    pairwise_found ?_
  exact (List.mergeSort_perm _ _).trans ((h.filter _).trans (List.mergeSort_perm _ _).symm)

theorem found_sublist (h : ∀ g ∈ ignores, g ∈ ignores') :
    (found dir extensions ignores').Sublist (found dir extensions ignores) := by
  have hselects : ∀ names, selects extensions ignores' names = true →
      selects extensions ignores names = true := by
    intro names hnames
    simp only [selects, Bool.and_eq_true, Bool.not_eq_true', List.any_eq_false] at hnames ⊢
    exact ⟨hnames.1, fun g hg => hnames.2 g (h g hg)⟩
  have hsubperm : (found dir extensions ignores').Subperm (found dir extensions ignores) :=
    ((List.mergeSort_perm _ _).subperm.trans
      (List.monotone_filter_right _ hselects).subperm).trans (List.mergeSort_perm _ _).symm.subperm
  have : Std.Antisymm fun a b => namesLE a b = true := ⟨namesLE_antisymm⟩
  exact List.sublist_of_subperm_of_pairwise hsubperm pairwise_found pairwise_found

end

-- What a file is like that is found: it is no link and lies behind no link, its name has one of the
-- extensions, no given pattern takes its path, and it lies in no ignored directory.
structure Sought (dir : FileNode) (extensions patterns names : List String) : Prop where
  isFile : ∃ content executable, dir.get? names = some (.file content executable)
  extension : ∃ extension ∈ extensions, ∃ name, names.getLast? = some name ∧
    extension.toList <:+ name.toList
  unmatched : ∀ pattern ∈ patterns, ∀ g, Glob.parse pattern = .ok g →
    g.accepts ("/".intercalate names) = false
  outside : ∀ d ∈ ignoredDirs, d ∉ names.dropLast

section

variable {tree : FileTree} {workspace : Path} {entries : List (FileName × FileNode)}
  {extensions exclude ignore : List String} {globs : List Glob}

theorem ne_nil_of_mem_filesBelow {names : List String}
    (h : names ∈ (FileNode.dir entries).filesBelow []) : names ≠ [] := by
  rintro rfl
  rw [FileNode.mem_filesBelow_nil_iff, FileNode.fileChains_dir] at h
  simp at h

theorem properName_of_mem_filesBelow (hwf : (FileNode.dir entries).WellFormed)
    {names : List String} (h : names ∈ (FileNode.dir entries).filesBelow []) :
    ∀ name ∈ names, ProperName name := by
  intro name hname
  rw [FileNode.mem_filesBelow_nil_iff] at h
  have hproper := FileNode.proper_of_mem_fileChains hwf h (.ofText name) (List.mem_map_of_mem hname)
  exact hproper.properName

theorem eligible_below (hworkspace : workspace.text ≠ "") {names : List String} (hne : names ≠ [])
    (hnames : ∀ name ∈ names, ProperName name) :
    eligible workspace extensions globs (workspace.below names) =
      selects extensions globs names := by
  rw [eligible, selects, Path.fileName?_below hnames hne,
    Path.relativeTo_below hnames hne hworkspace]

theorem filesBelow_eq_map (hdir : tree.node workspace = .ok (.dir entries)) :
    tree.filesBelow workspace = ((FileNode.dir entries).filesBelow []).map workspace.below := by
  simp only [FileTree.filesBelow, hdir]
  refine List.map_congr_left fun names hnames => ?_
  have hne := ne_nil_of_mem_filesBelow hnames
  rw [if_neg (by simpa using hne), Path.below]

-- Below the workspace, files are selected and ordered by their names alone.
theorem discover_eq_map (hdir : tree.node workspace = .ok (.dir entries))
    (hproper : ∀ names ∈ (FileNode.dir entries).filesBelow [], ∀ name ∈ names, ProperName name) :
    discover tree workspace extensions globs =
      (found (.dir entries) extensions globs).map workspace.below := by
  obtain ⟨_, hnames, -⟩ := FileTree.exists_of_node hdir
  have hworkspace := FileTree.text_ne_empty_of_resolve hnames
  have hfilter : (tree.filesBelow workspace).filter (eligible workspace extensions globs) =
      (((FileNode.dir entries).filesBelow []).filter (selects extensions globs)).map
        workspace.below := by
    rw [filesBelow_eq_map hdir, List.filter_map]
    refine congrArg (List.map workspace.below) (List.filter_congr fun names hnames => ?_)
    exact eligible_below hworkspace (ne_nil_of_mem_filesBelow hnames) (hproper names hnames)
  rw [discover, hfilter, found]
  refine (List.map_mergeSort fun a ha b hb => ?_).symm
  have ha' := (List.mem_filter.mp ha).1
  have hb' := (List.mem_filter.mp hb).1
  rw [Path.compare, Path.components_below (hproper a ha') (ne_nil_of_mem_filesBelow ha'),
    Path.components_below (hproper b hb') (ne_nil_of_mem_filesBelow hb'),
    Path.compareComponents_append_left, namesLE]

-- A file that is found has proper names, a node below the workspace, and an extension.
theorem exists_of_mem_discover (hdir : tree.node workspace = .ok (.dir entries))
    (hwf : (FileNode.dir entries).WellFormed) {p : Path}
    (hp : p ∈ discover tree workspace extensions globs) :
    ∃ names, p = workspace.below names ∧ names ≠ [] ∧ (∀ name ∈ names, ProperName name) ∧
      (∃ content executable,
        (FileNode.dir entries).get? names = some (.file content executable)) ∧
      hasExtension extensions (names.getLast?.getD "") = true := by
  rw [discover_eq_map hdir fun _ => properName_of_mem_filesBelow hwf] at hp
  obtain ⟨names, hfound, rfl⟩ := List.mem_map.mp hp
  obtain ⟨hmem, hselected⟩ := mem_found.mp hfound
  rw [selects, Bool.and_eq_true] at hselected
  exact ⟨names, rfl, ne_nil_of_mem_filesBelow hmem, properName_of_mem_filesBelow hwf hmem,
    (FileNode.mem_fileChains_iff hwf).mp (FileNode.mem_filesBelow_nil_iff.mp hmem), hselected.1⟩

-- What the globs of a run leave, told by the given patterns and the names on the way.
theorem any_accepts_eq_false_iff (hglobs : ignoreGlobs exclude ignore = .ok globs)
    {names : List String} (hne : names ≠ []) (hnames : ∀ name ∈ names, ProperName name) :
    (globs.any fun g => g.accepts ("/".intercalate names)) = false ↔
      (∀ pattern ∈ exclude ++ ignore, ∀ g, Glob.parse pattern = .ok g →
        g.accepts ("/".intercalate names) = false) ∧ ∀ d ∈ ignoredDirs, d ∉ names.dropLast := by
  have hinside : ∀ d ∈ ignoredDirs, (Glob.inside d).accepts ("/".intercalate names) = true ↔
      d ∈ names.dropLast := by
    intro d hd
    have hfree : ∀ d ∈ ignoredDirs, '/' ∉ d.toList := by decide +kernel
    exact Glob.inside_accepts_intercalate (hfree d hd) (fun name hn => (hnames name hn).free) hne
  simp only [List.any_eq_false, mem_ignoreGlobs hglobs, Bool.not_eq_true]
  constructor
  · intro h
    refine ⟨fun pattern hp g hg => h g (.inl ⟨pattern, hp, hg⟩), fun d hd hmem => ?_⟩
    have haccepts := (hinside d hd).mpr hmem
    rw [h _ (.inr ⟨d, hd, rfl⟩)] at haccepts
    exact Bool.false_ne_true haccepts
  · rintro ⟨hgiven, houtside⟩ g (⟨pattern, hp, hg⟩ | ⟨d, hd, rfl⟩)
    · exact hgiven pattern hp g hg
    · exact Bool.eq_false_iff.mpr fun haccepts => houtside d hd ((hinside d hd).mp haccepts)

theorem mem_found_iff_sought (hglobs : ignoreGlobs exclude ignore = .ok globs)
    (hwf : (FileNode.dir entries).WellFormed) {names : List String} :
    names ∈ found (.dir entries) extensions globs ↔
      Sought (.dir entries) extensions (exclude ++ ignore) names := by
  have hfile : names ∈ (FileNode.dir entries).filesBelow [] ↔ ∃ content executable,
      (FileNode.dir entries).get? names = some (.file content executable) := by
    rw [FileNode.mem_filesBelow_nil_iff, FileNode.mem_fileChains_iff hwf, FileNode.get?]
  have hselects (h : names ∈ (FileNode.dir entries).filesBelow []) :
      selects extensions globs names = true ↔
        (∃ extension ∈ extensions, ∃ name, names.getLast? = some name ∧
          extension.toList <:+ name.toList) ∧
        (globs.any fun g => g.accepts ("/".intercalate names)) = false := by
    obtain ⟨front, last, rfl⟩ :=
      List.eq_nil_or_concat' names |>.resolve_left (ne_nil_of_mem_filesBelow h)
    simp [selects, hasExtension]
  rw [mem_found]
  constructor
  · rintro ⟨hmem, hselected⟩
    obtain ⟨hextension, hglobal⟩ := (hselects hmem).mp hselected
    obtain ⟨hunmatched, houtside⟩ := (any_accepts_eq_false_iff hglobs
      (ne_nil_of_mem_filesBelow hmem) (properName_of_mem_filesBelow hwf hmem)).mp hglobal
    exact ⟨hfile.mp hmem, hextension, hunmatched, houtside⟩
  · intro h
    have hmem := hfile.mpr h.isFile
    refine ⟨hmem, (hselects hmem).mpr ⟨h.extension, ?_⟩⟩
    exact (any_accepts_eq_false_iff hglobs (ne_nil_of_mem_filesBelow hmem)
      (properName_of_mem_filesBelow hwf hmem)).mpr ⟨h.unmatched, h.outside⟩

theorem pairwise_discover (hdir : tree.node workspace = .ok (.dir entries))
    (hwf : (FileNode.dir entries).WellFormed) :
    (discover tree workspace extensions globs).Pairwise fun p q => p.compare q = .lt := by
  rw [discover_eq_map hdir fun _ => properName_of_mem_filesBelow hwf, List.pairwise_map]
  refine (pairwise_found.and (nodup_found hwf)).imp_of_mem ?_
  rintro a b ha hb ⟨hle, hne⟩
  have ha' := (mem_found.mp ha).1
  have hb' := (mem_found.mp hb).1
  rw [Path.compare, Path.components_below (properName_of_mem_filesBelow hwf ha')
    (ne_nil_of_mem_filesBelow ha'), Path.components_below (properName_of_mem_filesBelow hwf hb')
    (ne_nil_of_mem_filesBelow hb'), Path.compareComponents_append_left]
  rw [namesLE] at hle
  cases hcompare : compareComponents (a.map Component.ofName) (b.map Component.ofName) with
  | lt => rfl
  | gt => simp [hcompare] at hle
  | eq =>
    have hmap := Std.LawfulEqCmp.eq_of_compare hcompare
    exact absurd (List.map_injective_iff.mpr Path.ofName_injective hmap) hne

-- The files that are found are exactly those sought, in strict order. Neither the order in which
-- directories list their entries nor the place of the workspace matters, and more patterns leave
-- fewer files.
theorem discover_exact (hglobs : ignoreGlobs exclude ignore = .ok globs)
    (hdir : tree.node workspace = .ok (.dir entries)) (hwf : (FileNode.dir entries).WellFormed) :
    (discover tree workspace extensions globs).Pairwise (fun p q => p.compare q = .lt) ∧
    (∀ p, p ∈ discover tree workspace extensions globs ↔
      ∃ names, Sought (.dir entries) extensions (exclude ++ ignore) names ∧
        p = workspace.below names) ∧
    (∀ tree' workspace' entries', tree'.node workspace' = .ok (.dir entries') →
      FileNode.Relisted entries entries' → ∃ chains : List (List String),
        discover tree workspace extensions globs = chains.map workspace.below ∧
        discover tree' workspace' extensions globs = chains.map workspace'.below) ∧
    (∀ exclude' ignore' globs', ignoreGlobs exclude' ignore' = .ok globs' → exclude ⊆ exclude' →
      ignore ⊆ ignore' → (discover tree workspace extensions globs').Sublist
        (discover tree workspace extensions globs)) := by
  have hproper := fun names => @properName_of_mem_filesBelow entries hwf names
  refine ⟨pairwise_discover hdir hwf, fun p => ?_, ?_, ?_⟩
  · rw [discover_eq_map hdir hproper, List.mem_map]
    simp only [mem_found_iff_sought hglobs hwf, eq_comm]
  · intro tree' workspace' entries' hdir' hrelisted
    have hperm : ((FileNode.dir entries).filesBelow []).Perm
        ((FileNode.dir entries').filesBelow []) := hrelisted.perm.filterMap _
    have hproper' := fun names hnames => hproper names (hperm.mem_iff.mpr hnames)
    refine ⟨found (.dir entries) extensions globs, discover_eq_map hdir hproper, ?_⟩
    rw [discover_eq_map hdir' hproper', found_congr hperm]
  · intro exclude' ignore' globs' hglobs' hexclude hignore
    have hsubset : ∀ g ∈ globs, g ∈ globs' := by
      intro g hg
      rw [mem_ignoreGlobs hglobs']
      refine ((mem_ignoreGlobs hglobs).mp hg).imp_left ?_
      rintro ⟨text, htext, hparse⟩
      refine ⟨text, ?_, hparse⟩
      rcases List.mem_append.mp htext with h | h
      · exact List.mem_append_left _ (hexclude h)
      · exact List.mem_append_right _ (hignore h)
    rw [discover_eq_map hdir hproper, discover_eq_map hdir hproper]
    exact (found_sublist hsubset).map _

end

-- A workspace inside a directory that would be ignored below it, with a file that is called like
-- an ignored directory, a link, and a name that is no text.
def crowdedEntries : List (FileName × FileNode) :=
  [("src", .dir [
      ("skipped.ts", .file ⟨#[]⟩ false),
      ("linked.ts", .link "a.ts"),
      ("dist", .dir [("c.ts", .file ⟨#[]⟩ false)]),
      (⟨⟨#[0xff, 0x2e, 0x74, 0x73]⟩⟩, .file ⟨#[]⟩ false),
      ("a.ts", .file ⟨#[]⟩ true)]),
    ("dist", .file ⟨#[]⟩ false)]

def crowdedTree : FileTree where
  root := .dir [("node_modules", .dir [("app", .dir crowdedEntries)])]
  workingDir := ["node_modules"]

theorem wellFormed_crowdedEntries : (FileNode.dir crowdedEntries).WellFormed := by
  refine .dir (by decide +kernel) (by decide +kernel) ?_
  simp only [crowdedEntries, List.forall_mem_cons]
  refine ⟨.dir (by decide +kernel) (by decide +kernel) ?_, .file _ _, by simp⟩
  simp only [List.forall_mem_cons]
  refine ⟨.file _ _, .link _, .dir (by decide +kernel) (by decide +kernel) ?_, .file _ _,
    .file _ _, by simp⟩
  simp only [List.forall_mem_cons]
  exact ⟨.file _ _, by simp⟩

theorem exists_ignoreGlobs {exclude ignore : List String}
    (h : (ignoreGlobs exclude ignore).isOk = true) :
    ∃ globs, ignoreGlobs exclude ignore = .ok globs := by
  cases hglobs : ignoreGlobs exclude ignore with
  | ok globs => exact ⟨globs, rfl⟩
  | error error =>
    rw [hglobs] at h
    cases h

theorem discover_exact_crowded : ∃ globs globs',
    ignoreGlobs ["**/skip*"] [] = .ok globs ∧
    ignoreGlobs ["**/skip*"] ["src/?.ts"] = .ok globs' ∧
    crowdedTree.node ⟨"app"⟩ = .ok (.dir crowdedEntries) ∧
    (FileNode.dir crowdedEntries).WellFormed ∧
    (∀ p ∈ ([⟨"app/dist"⟩, ⟨"app/src/a.ts"⟩] : List Path),
      p ∈ discover crowdedTree ⟨"app"⟩ [".ts", "dist"] globs) ∧
    (discover crowdedTree ⟨"app"⟩ [".ts", "dist"] globs').Sublist
      (discover crowdedTree ⟨"app"⟩ [".ts", "dist"] globs) := by
  obtain ⟨globs, hglobs⟩ := @exists_ignoreGlobs ["**/skip*"] [] (by decide +kernel)
  obtain ⟨globs', hglobs'⟩ := @exists_ignoreGlobs ["**/skip*"] ["src/?.ts"] (by decide +kernel)
  have hdir : crowdedTree.node ⟨"app"⟩ = .ok (.dir crowdedEntries) := by rfl
  obtain ⟨-, hmem, -, hmore⟩ := @discover_exact crowdedTree ⟨"app"⟩ crowdedEntries
    [".ts", "dist"] _ _ globs hglobs hdir wellFormed_crowdedEntries
  refine ⟨globs, globs', hglobs, hglobs', hdir, wellFormed_crowdedEntries, ?_,
    hmore _ _ _ hglobs' (by simp) (by simp)⟩
  have hunmatched : ∀ names ∈ [["dist"], ["src", "a.ts"]], ∀ pattern ∈ ["**/skip*"] ++ [],
      ∀ g, Glob.parse pattern = .ok g → g.accepts ("/".intercalate names) = false := by
    intro names hnames pattern hpattern g hg
    obtain rfl : pattern = "**/skip*" := by simpa using hpattern
    have hglob : Glob.parse "**/skip*" = .ok ⟨"**/skip*", _⟩ := rfl
    rw [hglob] at hg
    obtain rfl := Except.ok.inj hg
    revert names
    decide +kernel
  have hdist : Sought (.dir crowdedEntries) [".ts", "dist"] (["**/skip*"] ++ []) ["dist"] :=
    ⟨⟨_, _, rfl⟩, ⟨"dist", by decide +kernel, "dist", rfl, by decide +kernel⟩,
      hunmatched ["dist"] (by simp), by decide +kernel⟩
  have hsrc : Sought (.dir crowdedEntries) [".ts", "dist"] (["**/skip*"] ++ []) ["src", "a.ts"] :=
    ⟨⟨_, _, rfl⟩, ⟨".ts", by decide +kernel, "a.ts", rfl, by decide +kernel⟩,
      hunmatched ["src", "a.ts"] (by simp), by decide +kernel⟩
  simp only [List.forall_mem_cons]
  exact ⟨(hmem _).mpr ⟨["dist"], hdist, by decide +kernel⟩,
    (hmem _).mpr ⟨["src", "a.ts"], hsrc, by decide +kernel⟩, by simp⟩

end Run

end EmbeddedStyles
