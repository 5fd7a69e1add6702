import EmbeddedStyles.FileTree
import Mathlib.Data.Set.Basic

namespace EmbeddedStyles

namespace FileNode

theorem lookup?_append (node : FileNode) (chain rest : List FileName) :
    node.lookup? (chain ++ rest) = (node.lookup? chain).bind (·.lookup? rest) := by
  induction chain generalizing node with
  | nil => rfl
  | cons name chain ih =>
    rw [List.cons_append, lookup?, lookup?]
    cases node.child? name with
    | none => rfl
    | some inner => exact ih inner

theorem get?_append (node : FileNode) (names rest : List String) :
    node.get? (names ++ rest) = (node.get? names).bind (·.get? rest) := by
  rw [get?, List.map_append, lookup?_append]
  rfl

theorem exists_dir_of_child? {node child : FileNode} {name : FileName}
    (h : node.child? name = some child) : ∃ entries, node = .dir entries := by
  cases node with
  | dir entries => exact ⟨entries, rfl⟩
  | file content executable => cases h
  | link target => cases h

-- Nodes of one kind: files and directories may hold something else.
inductive Alike : FileNode → FileNode → Prop
  | file (content content' : ByteArray) (executable executable' : Bool) :
      Alike (.file content executable) (.file content' executable')
  | link (target : String) : Alike (.link target) (.link target)
  | dir (entries entries' : List (FileName × FileNode)) : Alike (.dir entries) (.dir entries')

theorem Alike.refl (node : FileNode) : Alike node node := by
  cases node with
  | file content executable => exact .file _ _ _ _
  | link target => exact .link _
  | dir entries => exact .dir _ _

theorem Alike.trans {a b c : FileNode} (hab : Alike a b) (hbc : Alike b c) : Alike a c := by
  cases hab <;> cases hbc <;> constructor

-- A tree that has grown into another. Files at touched chains may be new or changed, other files
-- are not, and no link is new.
structure Grows (touched : Set (List FileName)) (old new : FileNode) : Prop where
  kept : ∀ {chain node}, old.lookup? chain = some node →
    ∃ node', new.lookup? chain = some node' ∧ Alike node node'
  files : ∀ {chain}, chain ∉ touched → ∀ {content executable},
    new.lookup? chain = some (.file content executable) ↔
      old.lookup? chain = some (.file content executable)
  links : ∀ {chain target}, new.lookup? chain = some (.link target) →
    old.lookup? chain = some (.link target)

namespace Grows

variable {touched touched' : Set (List FileName)} {a b c : FileNode}

theorem refl (node : FileNode) : Grows ∅ node node where
  kept h := ⟨_, h, .refl _⟩
  files _ := Iff.rfl
  links h := h

theorem mono (h : Grows touched a b) (hsub : touched ⊆ touched') : Grows touched' a b where
  kept := h.kept
  files hchain := h.files fun hm => hchain (hsub hm)
  links := h.links

theorem trans (hab : Grows touched a b) (hbc : Grows touched b c) : Grows touched a c where
  kept h := by
    obtain ⟨node, hnode, halike⟩ := hab.kept h
    obtain ⟨node', hnode', halike'⟩ := hbc.kept hnode
    exact ⟨node', hnode', halike.trans halike'⟩
  files hchain := (hbc.files hchain).trans (hab.files hchain)
  links h := hab.links (hbc.links h)

end Grows

-- Nodes that are put into a tree.
inductive Leaf : FileNode → Prop
  | file (content : ByteArray) (executable : Bool) : Leaf (.file content executable)
  | emptyDir : Leaf (.dir [])

theorem Leaf.lookup?_cons {new : FileNode} (h : Leaf new) (name : FileName) (rest : List FileName) :
    new.lookup? (name :: rest) = none := by
  cases h <;> rfl

theorem lookup?_put_cons (entries : List (FileName × FileNode)) (new : FileNode) (name : String)
    (names : List String) (other : FileName) (chain : List FileName) :
    (put (.dir entries) new (name :: names)).lookup? (other :: chain) =
      if FileName.ofText name = other then
        (((child? name (.dir entries)).getD (.dir [])).put new names).lookup? chain
      else lookup? (.dir entries) (other :: chain) := by
  simp only [put, lookup?, child?_putEntry]
  split <;> rfl

-- Where a node can be put without a loss: at a file, if it is a file, and at the name of nothing in
-- a directory.
inductive Fits (new : FileNode) : FileNode → List String → Prop
  | replace (content : ByteArray) (executable : Bool)
      (h : ∃ content' executable', new = .file content' executable') :
      Fits new (.file content executable) []
  | add {entries : List (FileName × FileNode)} {name : String}
      (h : child? name (.dir entries) = none) : Fits new (.dir entries) [name]
  | inside {entries : List (FileName × FileNode)} {name : String} {inner : FileNode}
      {names : List String} (h : child? name (.dir entries) = some inner)
      (fits : Fits new inner names) : Fits new (.dir entries) (name :: names)

namespace Fits

variable {old new : FileNode}

theorem extend {dir names : List String} {inner : FileNode} (h : old.get? dir = some inner)
    (hfits : Fits new inner names) : Fits new old (dir ++ names) := by
  induction dir generalizing old with
  | nil =>
    obtain rfl := Option.some_inj.mp h
    exact hfits
  | cons name dir ih =>
    obtain ⟨next, hnext, hrest⟩ := Option.bind_eq_some_iff.mp h
    obtain ⟨entries, rfl⟩ := exists_dir_of_child? hnext
    exact .inside hnext (ih hrest)

theorem of_file {content : ByteArray} {executable : Bool} {names : List String}
    (h : old.get? names = some (.file content executable)) (content' : ByteArray)
    (executable' : Bool) : Fits (.file content' executable') old names := by
  rw [← List.append_nil names]
  exact extend h (.replace _ _ ⟨_, _, rfl⟩)

theorem of_dir {dir : List String} {entries : List (FileName × FileNode)} {last : String}
    (h : old.get? dir = some (.dir entries)) (hlast : child? last (.dir entries) = none) :
    Fits new old (dir ++ [last]) :=
  extend h (.add hlast)

-- After a node was put, a chain leads to that node, or to one of the directories above it, or to
-- where it led before.
theorem lookup?_put {names : List String} (h : Fits new old names) (hleaf : Leaf new)
    (chain : List FileName) :
    (chain = names.map .ofText ∧ (old.put new names).lookup? chain = some new ∧
      ∀ node, old.lookup? chain = some node → Alike node new) ∨
    (∃ entries entries', old.lookup? chain = some (.dir entries) ∧
      (old.put new names).lookup? chain = some (.dir entries')) ∨
    (old.put new names).lookup? chain = old.lookup? chain := by
  induction h generalizing chain with
  | replace content executable h =>
    obtain ⟨content', executable', rfl⟩ := h
    cases chain with
    | nil =>
      refine .inl ⟨rfl, rfl, fun node hnode => ?_⟩
      obtain rfl := Option.some_inj.mp hnode
      exact .file _ _ _ _
    | cons name chain => exact .inr (.inr rfl)
  | @add entries name h =>
    cases chain with
    | nil => exact .inr (.inl ⟨_, _, rfl, rfl⟩)
    | cons other chain =>
      rw [lookup?_put_cons, put]
      by_cases hname : FileName.ofText name = other
      · subst hname
        have hold : lookup? (.dir entries) (.ofText name :: chain) = none := by
          rw [lookup?, h]
          rfl
        rw [if_pos rfl, hold]
        cases chain with
        | nil => exact .inl ⟨rfl, rfl, by simp⟩
        | cons next chain => exact .inr (.inr (hleaf.lookup?_cons _ _))
      · rw [if_neg hname]
        exact .inr (.inr rfl)
  | @inside entries name inner names h _ ih =>
    cases chain with
    | nil => exact .inr (.inl ⟨_, _, rfl, rfl⟩)
    | cons other chain =>
      rw [lookup?_put_cons, h, Option.getD_some]
      by_cases hname : FileName.ofText name = other
      · subst hname
        have hold : lookup? (.dir entries) (.ofText name :: chain) = inner.lookup? chain := by
          rw [lookup?, h]
          rfl
        rw [if_pos rfl, hold, List.map_cons]
        simpa using ih chain
      · rw [if_neg hname]
        exact .inr (.inr rfl)

-- A directory that is put touches no file.
theorem grows {names : List String} (h : Fits new old names) (hleaf : Leaf new)
    {touched : Set (List FileName)}
    (htouched : names.map .ofText ∈ touched ∨ new = .dir []) :
    Grows touched old (old.put new names) where
  kept {chain node} hnode := by
    rcases h.lookup?_put hleaf chain with ⟨-, hput, halike⟩ | ⟨_, _, hold, hput⟩ | hput
    · exact ⟨new, hput, halike node hnode⟩
    · obtain rfl := Option.some_inj.mp (hnode.symm.trans hold)
      exact ⟨_, hput, .dir _ _⟩
    · exact ⟨node, hput.trans hnode, .refl _⟩
  files {chain} hchain content executable := by
    rcases h.lookup?_put hleaf chain with ⟨rfl, hput, halike⟩ | ⟨_, _, hold, hput⟩ | hput
    · obtain rfl := htouched.resolve_left hchain
      refine ⟨fun hfile => ?_, fun hfile => ?_⟩
      · rw [hput] at hfile
        cases hfile
      · cases halike _ hfile
    · rw [hput, hold]
      simp
    · rw [hput]
  links {chain target} hlink := by
    rcases h.lookup?_put hleaf chain with ⟨-, hput, -⟩ | ⟨_, _, hold, hput⟩ | hput
    · rw [hput] at hlink
      obtain rfl := Option.some_inj.mp hlink
      cases hleaf
    · rw [hput] at hlink
      cases hlink
    · rwa [hput] at hlink

end Fits

end FileNode

-- The working directory stays where it is.
structure FileTree.Grows (touched : Set (List FileName)) (t t' : FileTree) : Prop where
  workingDir : t'.workingDir = t.workingDir
  root : t.root.Grows touched t'.root

namespace FileTree.Grows

variable {touched touched' : Set (List FileName)} {t t₁ t₂ : FileTree}

theorem refl (t : FileTree) : Grows ∅ t t :=
  ⟨rfl, .refl _⟩

theorem mono (h : Grows touched t t₁) (hsub : touched ⊆ touched') : Grows touched' t t₁ :=
  ⟨h.workingDir, h.root.mono hsub⟩

theorem trans (h : Grows touched t t₁) (h' : Grows touched t₁ t₂) : Grows touched t t₂ :=
  ⟨h'.workingDir.trans h.workingDir, h.root.trans h'.root⟩

end FileTree.Grows

end EmbeddedStyles
