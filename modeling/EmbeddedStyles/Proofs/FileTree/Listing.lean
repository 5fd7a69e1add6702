import EmbeddedStyles.FileTree
import EmbeddedStyles.Proofs.Path.Names
import EmbeddedStyles.Proofs.Text.Bytes
import Mathlib.Data.List.Nodup
import Mathlib.Data.List.Perm.Basic

namespace EmbeddedStyles

namespace FileName

-- What every name in a directory is like: it is one segment of a path, and not one that means
-- something else there.
structure Proper (name : FileName) : Prop where
  free : Text.slash ∉ name.bytes.data
  notEmpty : name ≠ ofText ""
  notCurrent : name ≠ ofText "."
  notParent : name ≠ ofText ".."

instance (name : FileName) : Decidable name.Proper :=
  decidable_of_iff (Text.slash ∉ name.bytes.data ∧ name ≠ ofText "" ∧ name ≠ ofText "." ∧
    name ≠ ofText "..") ⟨fun ⟨h₁, h₂, h₃, h₄⟩ => ⟨h₁, h₂, h₃, h₄⟩,
    fun h => ⟨h.free, h.notEmpty, h.notCurrent, h.notParent⟩⟩

theorem ofText_injective : Function.Injective ofText := by
  intro a b h
  exact String.toByteArray_inj.mp (FileName.mk.inj h)

theorem text?_eq_some_iff {name : FileName} {text : String} :
    name.text? = some text ↔ name = ofText text := by
  rw [text?, String.fromUTF8?]
  constructor
  · intro h
    split at h
    · rw [← Option.some_inj.mp h]
      rfl
    · cases h
  · rintro rfl
    have hvalid : (ofText text).bytes.IsValidUTF8 := text.isValidUTF8
    rw [dif_pos hvalid]
    rfl

-- The texts of a chain of names, if all of them are texts.
theorem mapM_text?_eq_some_iff {chain : List FileName} {names : List String} :
    chain.mapM text? = some names ↔ chain = names.map ofText := by
  induction chain generalizing names with
  | nil => simp [eq_comm]
  | cons name chain ih =>
    rw [List.mapM_cons]
    simp only [Option.pure_def, Option.bind_eq_bind, Option.bind_eq_some_iff, text?_eq_some_iff, ih]
    constructor
    · rintro ⟨text, rfl, texts, rfl, h⟩
      rw [← Option.some_inj.mp h]
      rfl
    · intro h
      obtain ⟨text, texts, rfl, htext, htexts⟩ := List.map_eq_cons_iff.mp h.symm
      exact ⟨text, htext.symm, texts, htexts.symm, rfl⟩

theorem Proper.properName {text : String} (h : (ofText text).Proper) : Path.ProperName text where
  free := by
    have hfree := h.free
    rwa [← Array.mem_toList_iff, ← Text.toList_eq_data, ofText, Text.slash_mem_toUTF8_iff] at hfree
  notBlank := by
    have hempty : text ≠ "" := fun ht => h.notEmpty (by rw [ht])
    have hdot : text ≠ "." := fun ht => h.notCurrent (by rw [ht])
    have hdot' : text.toList ≠ ['.'] := fun ht => hdot (String.toList_inj.mp ht)
    simp [Path.isBlankSegment, hempty, hdot']
  notParent ht := by
    have htext : text = ".." := String.toList_inj.mp ht
    exact h.notParent (by rw [htext])

end FileName

namespace FileNode

-- Proves something of all nodes from what directories hold.
@[elab_as_elim]
theorem inductionOnEntries {motive : FileNode → Prop}
    (file : ∀ content executable, motive (.file content executable))
    (link : ∀ target, motive (.link target))
    (dir : ∀ entries, (∀ e ∈ entries, motive e.2) → motive (.dir entries)) (node : FileNode) :
    motive node := by
  refine @FileNode.rec motive (fun entries => ∀ e ∈ entries, motive e.2) (fun e => motive e.2)
    file link dir ?_ ?_ ?_ node
  · simp
  · intro e entries he hentries
    exact List.forall_mem_cons.mpr ⟨he, hentries⟩
  · intro _ node hnode
    exact hnode

inductive WellFormed : FileNode → Prop
  | file (content : ByteArray) (executable : Bool) : WellFormed (.file content executable)
  | link (target : String) : WellFormed (.link target)
  | dir {entries : List (FileName × FileNode)} (distinct : (entries.map Prod.fst).Nodup)
      (proper : ∀ e ∈ entries, e.1.Proper) (inside : ∀ e ∈ entries, WellFormed e.2) :
      WellFormed (.dir entries)

theorem WellFormed.of_dir {entries : List (FileName × FileNode)}
    (h : (FileNode.dir entries).WellFormed) :
    (entries.map Prod.fst).Nodup ∧ (∀ e ∈ entries, e.1.Proper) ∧ ∀ e ∈ entries, WellFormed e.2 := by
  cases h with
  | dir distinct proper inside => exact ⟨distinct, proper, inside⟩

theorem fileChains_dir (entries : List (FileName × FileNode)) :
    (FileNode.dir entries).fileChains =
      entries.flatMap fun e => e.2.fileChains.map (e.1 :: ·) := by
  rw [fileChains]
  induction entries with
  | nil => rfl
  | cons e entries ih => rw [entryChains, List.flatMap_cons, ih]

theorem child?_eq_some_iff {entries : List (FileName × FileNode)}
    (h : (entries.map Prod.fst).Nodup) {name : FileName} {node : FileNode} :
    child? name (.dir entries) = some node ↔ (name, node) ∈ entries := by
  rw [child?]
  induction entries with
  | nil => simp
  | cons e entries ih =>
    rw [List.map_cons, List.nodup_cons] at h
    by_cases he : e.1 = name
    · have hother : (name, node) ∉ entries := fun hm =>
        h.1 (he ▸ List.mem_map_of_mem (f := Prod.fst) hm)
      rw [List.find?_cons_of_pos (by simpa using he), List.mem_cons]
      simp [hother, Prod.ext_iff, he, eq_comm]
    · rw [List.find?_cons_of_neg (by simpa using he), ih h.2, List.mem_cons]
      simp [Prod.ext_iff, Ne.symm he]

-- The walk finds what can be looked up, and nothing else.
theorem mem_fileChains_iff {node : FileNode} (h : node.WellFormed) {chain : List FileName} :
    chain ∈ node.fileChains ↔
      ∃ content executable, node.lookup? chain = some (.file content executable) := by
  induction node using inductionOnEntries generalizing chain with
  | file content executable =>
    cases chain with
    | nil => simp [fileChains, lookup?]
    | cons name chain => simp [fileChains, lookup?, child?]
  | link target => cases chain <;> simp [fileChains, lookup?, child?]
  | dir entries ih =>
    obtain ⟨distinct, proper, inside⟩ := h.of_dir
    rw [fileChains_dir, List.mem_flatMap]
    cases chain with
    | nil => simp [lookup?]
    | cons name chain =>
      simp only [lookup?, Option.bind_eq_some_iff, child?_eq_some_iff distinct, List.mem_map,
        List.cons_eq_cons]
      constructor
      · rintro ⟨e, he, rest, hrest, rfl, rfl⟩
        obtain ⟨content, executable, hlookup⟩ := (ih e he (inside e he)).mp hrest
        exact ⟨content, executable, e.2, he, hlookup⟩
      · rintro ⟨content, executable, node, hnode, hlookup⟩
        exact ⟨(name, node), hnode, chain,
          (ih _ hnode (inside _ hnode)).mpr ⟨content, executable, hlookup⟩, rfl, rfl⟩

theorem proper_of_mem_fileChains {node : FileNode} (h : node.WellFormed) {chain : List FileName}
    (hchain : chain ∈ node.fileChains) : ∀ name ∈ chain, name.Proper := by
  induction node using inductionOnEntries generalizing chain with
  | file content executable =>
    obtain rfl := List.mem_singleton.mp (by simpa [fileChains] using hchain)
    simp
  | link target => simp [fileChains] at hchain
  | dir entries ih =>
    obtain ⟨distinct, proper, inside⟩ := h.of_dir
    rw [fileChains_dir, List.mem_flatMap] at hchain
    obtain ⟨e, he, hmap⟩ := hchain
    obtain ⟨rest, hrest, rfl⟩ := List.mem_map.mp hmap
    exact List.forall_mem_cons.mpr ⟨proper e he, ih e he (inside e he) hrest⟩

theorem nodup_fileChains {node : FileNode} (h : node.WellFormed) : node.fileChains.Nodup := by
  induction node using inductionOnEntries with
  | file content executable => simp [fileChains]
  | link target => simp [fileChains]
  | dir entries ih =>
    obtain ⟨distinct, proper, inside⟩ := h.of_dir
    rw [fileChains_dir, List.nodup_flatMap]
    refine ⟨?_, ?_⟩
    · intro e he
      exact (ih e he (inside e he)).map (List.cons_injective)
    · -- Chains through different entries differ in their first name.
      refine (List.pairwise_map.mp distinct).imp ?_
      intro a b hab chain ha hb
      obtain ⟨rest, -, rfl⟩ := List.mem_map.mp ha
      obtain ⟨rest', -, heq⟩ := List.mem_map.mp hb
      exact hab (List.cons_eq_cons.mp heq).1.symm

-- The same entries, those of the directories among them included, listed in another order.
inductive Relisted : List (FileName × FileNode) → List (FileName × FileNode) → Prop
  | nil : Relisted [] []
  | cons (e : FileName × FileNode) {entries entries' : List (FileName × FileNode)} :
      Relisted entries entries' → Relisted (e :: entries) (e :: entries')
  | inside (name : FileName) {inner inner' entries entries' : List (FileName × FileNode)} :
      Relisted inner inner' → Relisted entries entries' →
        Relisted ((name, .dir inner) :: entries) ((name, .dir inner') :: entries')
  | swap (e f : FileName × FileNode) (entries : List (FileName × FileNode)) :
      Relisted (e :: f :: entries) (f :: e :: entries)
  | trans {entries₁ entries₂ entries₃ : List (FileName × FileNode)} :
      Relisted entries₁ entries₂ → Relisted entries₂ entries₃ → Relisted entries₁ entries₃

theorem Relisted.perm {entries entries' : List (FileName × FileNode)}
    (h : Relisted entries entries') :
    (FileNode.dir entries).fileChains.Perm (FileNode.dir entries').fileChains := by
  simp only [fileChains_dir]
  induction h with
  | nil => exact .refl _
  | cons e _ ih =>
    rw [List.flatMap_cons, List.flatMap_cons]
    exact ih.append_left _
  | inside name _ _ ihinner ih =>
    rw [List.flatMap_cons, List.flatMap_cons, fileChains_dir, fileChains_dir]
    exact (ihinner.map _).append ih
  | swap e f entries =>
    simp only [List.flatMap_cons, ← List.append_assoc]
    exact List.perm_append_comm.append_right _
  | trans _ _ ih₁ ih₂ => exact ih₁.trans ih₂

section Texts

variable {node : FileNode}

theorem mem_filesBelow_nil_iff {names : List String} :
    names ∈ node.filesBelow [] ↔ names.map .ofText ∈ node.fileChains := by
  simp only [filesBelow, List.mem_filterMap, List.nil_append, Option.map_id_fun', id_eq,
    FileName.mapM_text?_eq_some_iff]
  simp

theorem nodup_filesBelow_nil (h : node.WellFormed) : (node.filesBelow []).Nodup := by
  refine (nodup_fileChains h).filterMap ?_
  intro chain chain' names hnames hnames'
  simp only [List.nil_append, Option.map_id_fun', id_eq, Option.mem_def,
    FileName.mapM_text?_eq_some_iff] at hnames hnames'
  rw [hnames, hnames']

end Texts

end FileNode

end EmbeddedStyles
