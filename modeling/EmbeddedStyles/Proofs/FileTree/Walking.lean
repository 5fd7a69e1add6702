import EmbeddedStyles.Proofs.FileTree.Growth
import EmbeddedStyles.Proofs.Json.Reading
import Mathlib.Data.List.Infix

namespace EmbeddedStyles.FileTree

-- A segment that is looked up in a directory.
structure Ordinary (segment : String) : Prop where
  notEmpty : segment ≠ ""
  notCurrent : segment ≠ "."
  notParent : segment ≠ ".."
  fits : segment.utf8ByteSize ≤ maxName

-- Where a link is followed from.
def linkStart (above : List String) (target : String) : List String :=
  if target.toList.head? = some Path.separator then [] else above

-- Follows a link, if there may be one more.
def followLink (root : FileNode) : Nat → List String → List String → Except FileError Place
  | 0, _, _ => .error .tooManyLinks
  | links + 1, above, segments => walk root links above segments

section

variable {root : FileNode} {links : Nat} {above : List String}

theorem walk_of_node {node : FileNode} (h : root.get? above.reverse = some node)
    (segments : List String) :
    walk root links above segments =
      walkSegments root (followLink root links) node above segments := by
  cases links with
  | zero =>
    rw [walk, h]
    rfl
  | succ links =>
    rw [walk, h]
    rfl

theorem walk_of_none (h : root.get? above.reverse = none) (segments : List String) :
    walk root links above segments = .error .notFound := by
  rw [walk, h]

theorem walk_nil {node : FileNode} (h : root.get? above.reverse = some node) :
    walk root links above [] = .ok (.found above.reverse) := by
  rw [walk_of_node h, walkSegments]

theorem get?_reverse_cons {entries : List (FileName × FileNode)}
    (hdir : root.get? above.reverse = some (.dir entries)) (segment : String) :
    root.get? (segment :: above).reverse = FileNode.child? segment (.dir entries) := by
  rw [List.reverse_cons, FileNode.get?_append, hdir]
  simp [FileNode.get?, FileNode.lookup?]

-- One step of the walk, from a directory.
theorem walk_cons {entries : List (FileName × FileNode)}
    (hdir : root.get? above.reverse = some (.dir entries)) (segment : String)
    (rest : List String) :
    walk root links above (segment :: rest) =
      if segment = "" || segment = "." then walk root links above rest
      else if segment = ".." then walk root links above.tail rest
      else if maxName < segment.utf8ByteSize then .error .nameTooLong
      else
        match root.get? (segment :: above).reverse with
        | none =>
          if rest.isEmpty then .ok (.missing (segment :: above).reverse) else .error .notFound
        | some (.link target) =>
          followLink root links (linkStart above target) (segmentsOf target ++ rest)
        | some _ => walk root links (segment :: above) rest := by
  rw [walk_of_node hdir, walkSegments]
  split
  · rw [walk_of_node hdir]
  split
  · cases hup : root.get? above.tail.reverse with
    | none => rw [walk_of_none hup]
    | some node => rw [walk_of_node hup]
  split
  · rfl
  rw [get?_reverse_cons hdir]
  cases hchild : FileNode.child? segment (.dir entries) with
  | none => rfl
  | some node =>
    have hnode : root.get? (segment :: above).reverse = some node :=
      (get?_reverse_cons hdir segment).trans hchild
    cases node with
    | link target => rfl
    | file content executable => exact (walk_of_node hnode rest).symm
    | dir inner => exact (walk_of_node hnode rest).symm

theorem walk_cons_of_not_dir {node : FileNode} (h : root.get? above.reverse = some node)
    (hdir : ∀ entries, node ≠ .dir entries) (segment : String) (rest : List String) :
    walk root links above (segment :: rest) = .error .notDirectory := by
  rw [walk_of_node h]
  cases node with
  | dir entries => exact absurd rfl (hdir entries)
  | file content executable => rw [walkSegments]; simp
  | link target => rw [walkSegments]; simp

theorem exists_dir_of_walk_cons {segment : String} {rest : List String} {place : Place}
    (h : walk root links above (segment :: rest) = .ok place) :
    ∃ entries, root.get? above.reverse = some (.dir entries) := by
  cases hnode : root.get? above.reverse with
  | none =>
    rw [walk_of_none hnode] at h
    cases h
  | some node =>
    by_contra hdir
    rw [walk_cons_of_not_dir hnode fun entries he => hdir ⟨entries, by rw [he]⟩] at h
    cases h

-- Where there is no directory to start from, all segments fail alike.
theorem walk_cons_congr {segment segment' : String} {rest rest' : List String}
    (h : ∀ entries, root.get? above.reverse = some (.dir entries) →
      walk root links above (segment :: rest) = walk root links above (segment' :: rest')) :
    walk root links above (segment :: rest) = walk root links above (segment' :: rest') := by
  cases hnode : root.get? above.reverse with
  | none => rw [walk_of_none hnode, walk_of_none hnode]
  | some node =>
    by_cases hdir : ∃ entries, node = .dir entries
    · obtain ⟨entries, rfl⟩ := hdir
      exact h entries hnode
    · have hdir' : ∀ entries, node ≠ .dir entries := fun entries he => hdir ⟨entries, he⟩
      rw [walk_cons_of_not_dir hnode hdir', walk_cons_of_not_dir hnode hdir']

end

-- A walk that ends at a place, the segments above the current directory given innermost first.
inductive Walk (root : FileNode) : (links : Nat) → (above segments : List String) → Place → Prop
  | done {links : Nat} {above : List String} {node : FileNode}
      (h : root.get? above.reverse = some node) : Walk root links above [] (.found above.reverse)
  | skip {links : Nat} {above rest : List String} {segment : String} {place : Place}
      {entries : List (FileName × FileNode)} (hdir : root.get? above.reverse = some (.dir entries))
      (h : segment = "" ∨ segment = ".") (next : Walk root links above rest place) :
      Walk root links above (segment :: rest) place
  | up {links : Nat} {above rest : List String} {place : Place}
      {entries : List (FileName × FileNode)} (hdir : root.get? above.reverse = some (.dir entries))
      (next : Walk root links above.tail rest place) : Walk root links above (".." :: rest) place
  | absent {links : Nat} {above : List String} {segment : String}
      {entries : List (FileName × FileNode)} (hdir : root.get? above.reverse = some (.dir entries))
      (h : Ordinary segment) (hnone : root.get? (segment :: above).reverse = none) :
      Walk root links above [segment] (.missing (segment :: above).reverse)
  | link {links : Nat} {above rest : List String} {segment target : String} {place : Place}
      {entries : List (FileName × FileNode)} (hdir : root.get? above.reverse = some (.dir entries))
      (h : Ordinary segment) (hlink : root.get? (segment :: above).reverse = some (.link target))
      (next : Walk root links (linkStart above target) (segmentsOf target ++ rest) place) :
      Walk root (links + 1) above (segment :: rest) place
  | enter {links : Nat} {above rest : List String} {segment : String} {place : Place}
      {node : FileNode} {entries : List (FileName × FileNode)}
      (hdir : root.get? above.reverse = some (.dir entries)) (h : Ordinary segment)
      (hnode : root.get? (segment :: above).reverse = some node)
      (hlink : ∀ target, node ≠ .link target)
      (next : Walk root links (segment :: above) rest place) :
      Walk root links above (segment :: rest) place

section

variable {root root' : FileNode} {links : Nat} {above segments rest : List String} {place : Place}
  {touched : Set (List FileName)}

theorem walk_cons_ordinary {entries : List (FileName × FileNode)}
    (hdir : root.get? above.reverse = some (.dir entries)) {segment : String}
    (h : Ordinary segment) (rest : List String) :
    walk root links above (segment :: rest) =
      match root.get? (segment :: above).reverse with
      | none =>
        if rest.isEmpty then .ok (.missing (segment :: above).reverse) else .error .notFound
      | some (.link target) =>
        followLink root links (linkStart above target) (segmentsOf target ++ rest)
      | some _ => walk root links (segment :: above) rest := by
  rw [walk_cons hdir, if_neg (by simp [h.notEmpty, h.notCurrent]), if_neg h.notParent,
    if_neg (Nat.not_lt.mpr h.fits)]

theorem walk_enter {entries : List (FileName × FileNode)}
    (hdir : root.get? above.reverse = some (.dir entries)) {segment : String}
    (h : Ordinary segment) {node : FileNode}
    (hnode : root.get? (segment :: above).reverse = some node)
    (hlink : ∀ target, node ≠ .link target) (rest : List String) :
    walk root links above (segment :: rest) = walk root links (segment :: above) rest := by
  rw [walk_cons_ordinary hdir h, hnode]
  cases node with
  | link target => exact absurd rfl (hlink target)
  | file content executable => rfl
  | dir entries => rfl

theorem Walk.walk_eq (h : Walk root links above segments place) :
    walk root links above segments = .ok place := by
  induction h with
  | done h => exact walk_nil h
  | skip hdir h _ ih => rw [walk_cons hdir, if_pos (by simpa using h), ih]
  | up hdir _ ih => rw [walk_cons hdir, if_neg (by decide), if_pos rfl, ih]
  | absent hdir h hnone =>
    rw [walk_cons_ordinary hdir h, hnone]
    rfl
  | link hdir h hlink _ ih =>
    rw [walk_cons_ordinary hdir h, hlink]
    exact ih
  | enter hdir h hnode hlink _ ih => rw [walk_enter hdir h hnode hlink, ih]

-- The induction is on the links that are left and, between two links, on the segments.
theorem Walk.of_walk (h : walk root links above segments = .ok place) :
    Walk root links above segments place := by
  induction links using Nat.strong_induction_on generalizing above segments with
  | _ links ihlinks =>
    induction segments generalizing above with
    | nil =>
      cases hnode : root.get? above.reverse with
      | none => simp [walk_of_none hnode] at h
      | some node =>
        rw [walk_nil hnode] at h
        cases h
        exact .done hnode
    | cons segment rest ih =>
      obtain ⟨entries, hdir⟩ := exists_dir_of_walk_cons h
      by_cases hskip : segment = "" ∨ segment = "."
      · rw [walk_cons hdir, if_pos (by simpa using hskip)] at h
        exact .skip hdir hskip (ih h)
      by_cases hup : segment = ".."
      · rw [walk_cons hdir, if_neg (by simpa using hskip), if_pos hup] at h
        exact hup ▸ .up hdir (ih h)
      by_cases hlong : maxName < segment.utf8ByteSize
      · rw [walk_cons hdir, if_neg (by simpa using hskip), if_neg hup, if_pos hlong] at h
        cases h
      have hordinary : Ordinary segment :=
        ⟨fun he => hskip (.inl he), fun he => hskip (.inr he), hup, Nat.le_of_not_lt hlong⟩
      cases hchild : root.get? (segment :: above).reverse with
      | none =>
        rw [walk_cons_ordinary hdir hordinary, hchild] at h
        cases rest with
        | nil =>
          cases h
          exact .absent hdir hordinary hchild
        | cons next rest => simp at h
      | some child =>
        by_cases hlink : ∃ target, child = .link target
        · obtain ⟨target, rfl⟩ := hlink
          rw [walk_cons_ordinary hdir hordinary, hchild] at h
          cases links with
          | zero => cases h
          | succ links =>
            exact .link hdir hordinary hchild (ihlinks links (Nat.lt_succ_self _) h)
        · have hlink' : ∀ target, child ≠ .link target := fun target he => hlink ⟨target, he⟩
          rw [walk_enter hdir hordinary hchild hlink'] at h
          exact .enter hdir hordinary hchild hlink' (ih h)

theorem walk_eq_ok_iff :
    walk root links above segments = .ok place ↔ Walk root links above segments place :=
  ⟨Walk.of_walk, Walk.walk_eq⟩

-- What is known of a place: there is a node, or a directory that has no such name.
def Place.Valid (root : FileNode) : Place → Prop
  | .found names => ∃ node, root.get? names = some node
  | .missing names => ∃ (dir : List String) (last : String) (entries : _), names = dir ++ [last] ∧
      root.get? dir = some (.dir entries) ∧ FileNode.child? last (.dir entries) = none

def Place.names : Place → List String
  | .found names => names
  | .missing names => names

theorem Walk.valid (h : Walk root links above segments place) : place.Valid root := by
  induction h with
  | done h => exact ⟨_, h⟩
  | @absent _ above segment _ hdir _ hnone =>
    exact ⟨above.reverse, segment, _, List.reverse_cons, hdir,
      (get?_reverse_cons hdir segment).symm.trans hnone⟩
  | skip _ _ _ ih => exact ih
  | up _ _ ih => exact ih
  | link _ _ _ _ ih => exact ih
  | enter _ _ _ _ _ ih => exact ih

theorem exists_dir_of_grows (hgrows : root.Grows touched root') {names : List String}
    {entries : List (FileName × FileNode)} (h : root.get? names = some (.dir entries)) :
    ∃ entries', root'.get? names = some (.dir entries') := by
  obtain ⟨node, hnode, halike⟩ := hgrows.kept h
  cases halike
  exact ⟨_, hnode⟩

-- What a path leads to stays there, and what was missing is found when it is there.
theorem Walk.grows (h : Walk root links above segments place) (hgrows : root.Grows touched root')
    {node : FileNode} (hnode : root'.get? place.names = some node) :
    Walk root' links above segments (.found place.names) := by
  induction h with
  | done h => exact .done hnode
  | skip hdir h _ ih =>
    obtain ⟨_, hdir'⟩ := exists_dir_of_grows hgrows hdir
    exact .skip hdir' h (ih hnode)
  | up hdir _ ih =>
    obtain ⟨_, hdir'⟩ := exists_dir_of_grows hgrows hdir
    exact .up hdir' (ih hnode)
  | absent hdir h hnone =>
    obtain ⟨_, hdir'⟩ := exists_dir_of_grows hgrows hdir
    refine .enter hdir' h hnode ?_ (.done hnode)
    rintro target rfl
    have hlink : root.get? (_ :: _).reverse = some (.link target) := hgrows.links hnode
    rw [hnone] at hlink
    cases hlink
  | link hdir h hlink _ ih =>
    obtain ⟨_, hdir'⟩ := exists_dir_of_grows hgrows hdir
    obtain ⟨_, hlink', halike⟩ := hgrows.kept hlink
    cases halike
    exact .link hdir' h hlink' (ih hnode)
  | enter hdir h hchild hlink _ ih =>
    obtain ⟨_, hdir'⟩ := exists_dir_of_grows hgrows hdir
    obtain ⟨_, hchild', halike⟩ := hgrows.kept hchild
    refine .enter hdir' h hchild' ?_ (ih hnode)
    rintro target rfl
    cases halike
    exact hlink target rfl

-- Where a segment leads if it is no link, innermost first.
def descendOne (above : List String) (segment : String) : List String :=
  if segment = "" ∨ segment = "." then above
  else if segment = ".." then above.tail
  else segment :: above

def descend (above segments : List String) : List String :=
  segments.foldl descendOne above

theorem Ordinary.descendOne_eq {segment : String} (h : Ordinary segment) (above : List String) :
    descendOne above segment = segment :: above := by
  rw [descendOne, if_neg (not_or.mpr ⟨h.notEmpty, h.notCurrent⟩), if_neg h.notParent]

-- Nothing on the way is a link.
def Unlinked (root : FileNode) (above segments : List String) : Prop :=
  ∀ front, front <+: segments →
    ∀ target, root.get? (descend above front).reverse ≠ some (.link target)

instance (node? : Option FileNode) : Decidable (∀ target, node? ≠ some (.link target)) :=
  match node? with
  | some (.link target) => isFalse fun h => h target rfl
  | some (.file _ _) => isTrue (by simp)
  | some (.dir _) => isTrue (by simp)
  | none => isTrue (by simp)

instance : Decidable (Unlinked root above segments) :=
  decidable_of_iff (∀ front ∈ segments.inits,
    ∀ target, root.get? (descend above front).reverse ≠ some (.link target))
    (by simp only [List.mem_inits, Unlinked])

theorem Unlinked.tail {segment : String} (h : Unlinked root above (segment :: rest)) :
    Unlinked root (descendOne above segment) rest :=
  fun front hfront => h (segment :: front) (List.cons_prefix_cons.mpr ⟨rfl, hfront⟩)

theorem Walk.names_eq (h : Walk root links above segments place)
    (hlinks : Unlinked root above segments) : place.names = (descend above segments).reverse := by
  induction h with
  | done h => rfl
  | skip hdir h _ ih =>
    have hstep := hlinks.tail
    rw [descendOne, if_pos h] at hstep
    rw [descend, List.foldl_cons, descendOne, if_pos h]
    exact ih hstep
  | up hdir _ ih => exact ih hlinks.tail
  | absent hdir h hnone =>
    rw [descend, List.foldl_cons, h.descendOne_eq]
    rfl
  | @link _ above rest segment target _ _ hdir h hlink _ _ =>
    have hone := hlinks [segment] (List.prefix_append [segment] rest) target
    rw [descend, List.foldl_cons, h.descendOne_eq] at hone
    exact absurd hlink hone
  | enter hdir h hchild hlink _ ih =>
    have hstep := hlinks.tail
    rw [h.descendOne_eq] at hstep
    rw [descend, List.foldl_cons, h.descendOne_eq]
    exact ih hstep

-- After the first segments have led somewhere, the others lead on from there, perhaps through
-- fewer links.
theorem Walk.exists_walk_append (h : Walk root links above segments place) {names : List String}
    (hplace : place = .found names) :
    ∃ left, ∀ rest,
      walk root links above (segments ++ rest) = walk root left names.reverse rest := by
  induction h with
  | done h =>
    cases hplace
    exact ⟨_, fun rest => by rw [List.nil_append, List.reverse_reverse]⟩
  | skip hdir h _ ih =>
    obtain ⟨left, hleft⟩ := ih hplace
    refine ⟨left, fun rest => ?_⟩
    rw [List.cons_append, walk_cons hdir, if_pos (by simpa using h), hleft]
  | up hdir _ ih =>
    obtain ⟨left, hleft⟩ := ih hplace
    refine ⟨left, fun rest => ?_⟩
    rw [List.cons_append, walk_cons hdir, if_neg (by decide), if_pos rfl, hleft]
  | absent hdir h hnone => cases hplace
  | link hdir h hlink _ ih =>
    obtain ⟨left, hleft⟩ := ih hplace
    refine ⟨left, fun rest => ?_⟩
    rw [List.cons_append, walk_cons_ordinary hdir h, hlink, ← hleft, List.append_assoc]
    rfl
  | enter hdir h hchild hlink _ ih =>
    obtain ⟨left, hleft⟩ := ih hplace
    refine ⟨left, fun rest => ?_⟩
    rw [List.cons_append, walk_enter hdir h hchild hlink, hleft]

-- Names that lead to something that is no link are followed, unless one of them is too long.
theorem walk_names {node : FileNode} {names : List String}
    (hnames : ∀ name ∈ names, name ≠ "" ∧ name ≠ "." ∧ name ≠ "..")
    (hnode : root.get? (above.reverse ++ names) = some node)
    (hlink : ∀ target, node ≠ .link target) :
    walk root links above names =
      if ∀ name ∈ names, name.utf8ByteSize ≤ maxName then .ok (.found (above.reverse ++ names))
      else .error .nameTooLong := by
  induction names generalizing above with
  | nil =>
    rw [List.append_nil] at hnode
    rw [walk_nil hnode, if_pos (by simp), List.append_nil]
  | cons name names ih =>
    have happend : above.reverse ++ name :: names = (name :: above).reverse ++ names := by simp
    obtain ⟨parent, hparent, hrest⟩ := Option.bind_eq_some_iff.mp
      ((FileNode.get?_append root above.reverse (name :: names)).symm.trans hnode)
    obtain ⟨child, hchild, hnode'⟩ := Option.bind_eq_some_iff.mp hrest
    obtain ⟨entries, rfl⟩ := FileNode.exists_dir_of_child? hchild
    have hchild' : root.get? (name :: above).reverse = some child :=
      (get?_reverse_cons hparent name).trans hchild
    have hnotLink : ∀ target, child ≠ .link target := by
      rintro target rfl
      cases names with
      | nil => exact hlink target (Option.some_inj.mp hnode').symm
      | cons next names => cases hnode'
    obtain ⟨hempty, hcurrent, hup⟩ := hnames name (by simp)
    by_cases hlong : maxName < name.utf8ByteSize
    · rw [walk_cons hparent, if_neg (by simp [hempty, hcurrent]), if_neg hup, if_pos hlong,
        if_neg (by simp; omega)]
    · have hordinary : Ordinary name := ⟨hempty, hcurrent, hup, Nat.le_of_not_lt hlong⟩
      rw [walk_enter hparent hordinary hchild' hnotLink, happend,
        ih (fun n hn => hnames n (List.mem_cons_of_mem _ hn)) (happend ▸ hnode)]
      simp [hordinary.fits]

end

-- Where paths start.
def start (t : FileTree) (p : Path) : List String :=
  if p.isAbsolute then [] else t.workingDir.reverse

-- Nothing on the way of a path is a link, as far as there is anything.
def LinkFree (t : FileTree) (p : Path) : Prop :=
  Unlinked t.root (t.start p) (segmentsOf p.text)

instance (t : FileTree) (p : Path) : Decidable (t.LinkFree p) :=
  inferInstanceAs (Decidable (Unlinked t.root (t.start p) (segmentsOf p.text)))

-- The names to which a path leads if there are no links.
def location (t : FileTree) (p : Path) : List String :=
  (descend (t.start p) (segmentsOf p.text)).reverse

section

variable {t t' : FileTree} {p : Path} {names : List String} {touched : Set (List FileName)}

theorem place_eq_ok_iff {place : Place} :
    t.place p = .ok place ↔ checkPath p = .ok () ∧
      Walk t.root maxLinks (t.start p) (segmentsOf p.text) place := by
  rw [FileTree.place, bind_eq_ok_iff, ← walk_eq_ok_iff]
  exact ⟨fun ⟨_, h⟩ => h, fun h => ⟨(), h⟩⟩

theorem resolve_eq_ok_iff : t.resolve p = .ok names ↔ t.place p = .ok (.found names) := by
  rw [resolve, bind_eq_ok_iff]
  constructor
  · rintro ⟨place, hplace, h⟩
    cases place with
    | found names' => rw [hplace, Except.ok.inj h]
    | missing names' => cases h
  · intro h
    exact ⟨_, h, rfl⟩

theorem text_ne_empty_of_resolve (h : t.resolve p = .ok names) : p.text ≠ "" := by
  intro hempty
  have hcheck := (place_eq_ok_iff.mp (resolve_eq_ok_iff.mp h)).1
  simp [checkPath, hempty] at hcheck

theorem exists_node_of_resolve (h : t.resolve p = .ok names) :
    ∃ node, t.root.get? names = some node ∧ t.node p = .ok node := by
  obtain ⟨node, hnode⟩ := (place_eq_ok_iff.mp (resolve_eq_ok_iff.mp h)).2.valid
  refine ⟨node, hnode, ?_⟩
  rw [FileTree.node, h, ok_bind, hnode]

theorem readBytes_of_resolve {content : ByteArray} {executable : Bool}
    (h : t.resolve p = .ok names) (hfile : t.root.get? names = some (.file content executable)) :
    t.readBytes p = .ok content := by
  obtain ⟨node, hnode, hp⟩ := exists_node_of_resolve h
  obtain rfl := Option.some_inj.mp (hfile.symm.trans hnode)
  rw [readBytes, hp, ok_bind]

theorem exists_of_node {node : FileNode} (h : t.node p = .ok node) :
    ∃ names, t.resolve p = .ok names ∧ t.root.get? names = some node := by
  obtain ⟨names, hnames, h⟩ := bind_eq_ok_iff.mp h
  cases hnode : t.root.get? names with
  | none =>
    rw [hnode] at h
    cases h
  | some node' =>
    rw [hnode] at h
    cases h
    exact ⟨names, hnames, hnode⟩

theorem exists_of_readBytes {content : ByteArray} (h : t.readBytes p = .ok content) :
    ∃ names executable, t.resolve p = .ok names ∧
      t.root.get? names = some (.file content executable) := by
  obtain ⟨node, hnode, h⟩ := bind_eq_ok_iff.mp h
  obtain ⟨names, hnames, hget⟩ := exists_of_node hnode
  cases node with
  | file content' executable =>
    obtain rfl := Except.ok.inj h
    exact ⟨names, executable, hnames, hget⟩
  | link target => cases h
  | dir entries => cases h

-- Reading gives the same where a path leads to the same file.
theorem readBytes_congr (hresolve : t'.resolve p = t.resolve p)
    (hfile : ∀ names, t.resolve p = .ok names → ∃ content executable,
      t.root.get? names = some (.file content executable) ∧
      t'.root.get? names = some (.file content executable)) :
    t'.readBytes p = t.readBytes p := by
  cases hnames : t.resolve p with
  | error cause => rw [readBytes, readBytes, node, node, hresolve, hnames]; rfl
  | ok names =>
    obtain ⟨content, executable, hold, hnew⟩ := hfile names hnames
    rw [readBytes_of_resolve hnames hold, readBytes_of_resolve (hresolve.trans hnames) hnew]

theorem start_of_grows (h : t.Grows touched t') (p : Path) : t'.start p = t.start p := by
  rw [start, start, h.workingDir]

theorem resolve_of_grows (h : t.Grows touched t') {place : Place} (hplace : t.place p = .ok place)
    {node : FileNode} (hnode : t'.root.get? place.names = some node) :
    t'.resolve p = .ok place.names := by
  obtain ⟨hcheck, hwalk⟩ := place_eq_ok_iff.mp hplace
  refine resolve_eq_ok_iff.mpr (place_eq_ok_iff.mpr ⟨hcheck, ?_⟩)
  rw [start_of_grows h]
  exact hwalk.grows h.root hnode

theorem Grows.resolve (h : t.Grows touched t') (hnames : t.resolve p = .ok names) :
    t'.resolve p = .ok names := by
  obtain ⟨node, hnode, -⟩ := exists_node_of_resolve hnames
  obtain ⟨node', hnode', -⟩ := h.root.kept hnode
  exact resolve_of_grows h (resolve_eq_ok_iff.mp hnames) hnode'

theorem LinkFree.of_grows (hlinks : t.LinkFree p) (h : t.Grows touched t') : t'.LinkFree p := by
  intro front hfront target hlink
  rw [start_of_grows h] at hlink
  exact hlinks front hfront target (h.root.links hlink)

theorem LinkFree.eq_location (hlinks : t.LinkFree p) (h : t.resolve p = .ok names) :
    names = t.location p :=
  (place_eq_ok_iff.mp (resolve_eq_ok_iff.mp h)).2.names_eq hlinks

theorem location_of_grows (h : t.Grows touched t') (p : Path) : t'.location p = t.location p := by
  rw [location, location, start_of_grows h]

end

end EmbeddedStyles.FileTree
