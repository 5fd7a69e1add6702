import EmbeddedStyles.Proofs.FileTree.Walking
import EmbeddedStyles.Proofs.Path.Names

namespace EmbeddedStyles

theorem Path.isAbsolute_join {base : Path} (hbase : base.text ≠ "") {other : Path}
    (hother : other.isAbsolute = false) : (base.join other).isAbsolute = base.isAbsolute := by
  have hhead : other.text.toList.head? ≠ some separator := by simpa [isAbsolute] using hother
  obtain ⟨c, cs, hcs⟩ := List.exists_cons_of_ne_nil (l := base.text.toList) (by simpa using hbase)
  simp only [isAbsolute, join, String.toList_ofList, joinChars, hhead, hcs, if_false]
  split <;> simp

theorem Path.ProperName.plain {name : String} (h : ProperName name) :
    name ≠ "" ∧ name ≠ "." ∧ name ≠ ".." := by
  refine ⟨?_, ?_, ?_⟩
  · rintro rfl
    exact absurd h.notBlank (by decide)
  · rintro rfl
    exact absurd h.notBlank (by decide)
  · rintro rfl
    exact h.notParent rfl

namespace FileTree

open EmbeddedStyles.Path (Trimmed spelled segments inner isBlankSegment ProperName)

section

variable {root : FileNode} {links : Nat} {above xs ys : List String}

theorem walk_append_blank (hys : ys ≠ []) :
    walk root links above (xs ++ "" :: ys) = walk root links above (xs ++ ys) := by
  induction links using Nat.strong_induction_on generalizing above xs with
  | _ links ihlinks =>
    induction xs generalizing above with
    | nil =>
      obtain ⟨y, ys, rfl⟩ := List.exists_cons_of_ne_nil hys
      refine walk_cons_congr fun entries hdir => ?_
      rw [walk_cons hdir, if_pos (by simp)]
    | cons x xs ih =>
      refine walk_cons_congr fun entries hdir => ?_
      have hmore : (xs ++ "" :: ys).isEmpty = (xs ++ ys).isEmpty := by
        rw [List.isEmpty_eq_false_iff.mpr (by simp : xs ++ "" :: ys ≠ []),
          List.isEmpty_eq_false_iff.mpr (by simp [hys] : xs ++ ys ≠ [])]
      have hlinked : ∀ target, followLink root links (linkStart above target)
          (segmentsOf target ++ (xs ++ "" :: ys)) =
          followLink root links (linkStart above target) (segmentsOf target ++ (xs ++ ys)) := by
        intro target
        cases links with
        | zero => rfl
        | succ links =>
          rw [← List.append_assoc, ← List.append_assoc]
          exact ihlinks links (Nat.lt_succ_self _)
      rw [List.append_eq, List.append_eq, walk_cons hdir, walk_cons hdir, ih, ih, ih, hmore]
      simp only [hlinked]

end

theorem segmentsOf_ofList (cs : List Char) :
    segmentsOf (String.ofList cs) = (segments cs).map String.ofList := by
  rw [segmentsOf, String.toList_ofList]

variable {t : FileTree} {base : Path}

-- A joined path has the segments of the other one after those of the base, but perhaps for a blank
-- one at their end.
theorem exists_segmentsOf_join (hbase : base.text ≠ "") {other : List Char}
    (hother : other.head? ≠ some Path.separator) :
    ∃ kept, segmentsOf (base.join ⟨String.ofList other⟩).text =
        kept ++ (segments other).map String.ofList ∧
      (segmentsOf base.text = kept ∨ segmentsOf base.text = kept ++ [""]) := by
  obtain ⟨kept, hsegments, -, hkept⟩ :=
    Path.exists_segments_joinChars (by simpa using hbase : base.text.toList ≠ []) hother
  refine ⟨kept.map String.ofList, ?_, ?_⟩
  · rw [Path.join, String.toList_ofList, segmentsOf_ofList, hsegments, List.map_append]
  · rw [segmentsOf]
    rcases hkept with h | h
    · exact .inl (by rw [h])
    · exact .inr (by rw [h]; simp)

theorem start_join (hbase : base.text ≠ "") {other : List Char}
    (hother : other.head? ≠ some Path.separator) (t : FileTree) :
    t.start (base.join ⟨String.ofList other⟩) = t.start base := by
  have habsolute : (⟨String.ofList other⟩ : Path).isAbsolute = false := by
    simpa [Path.isAbsolute] using hother
  rw [start, start, Path.isAbsolute_join hbase habsolute]

-- From where the base leads, names go on.
theorem exists_place_below {above names : List String} (hbase : t.resolve base = .ok above)
    (hne : names ≠ []) (hnames : ∀ name ∈ names, ProperName name) :
    ∃ left, t.place (base.below names) = (do
      checkPath (base.below names)
      walk t.root left above.reverse names) := by
  obtain ⟨front, last, htrimmed, hsegments, hpath⟩ := Path.exists_trimmed hnames hne
  have htext := text_ne_empty_of_resolve hbase
  have hwalk := (place_eq_ok_iff.mp (resolve_eq_ok_iff.mp hbase)).2
  obtain ⟨left, hleft⟩ := hwalk.exists_walk_append rfl
  obtain ⟨kept, hjoined, hkept⟩ := exists_segmentsOf_join htext htrimmed.head?_spelled
  have hstart := start_join htext htrimmed.head?_spelled t
  have hparts : (segments (spelled front last)).map String.ofList = names := by
    rw [htrimmed.segments_spelled, ← hsegments]
    simp
  rw [← hpath, ← Path.below] at hjoined hstart
  rw [hparts] at hjoined
  have hfollow : t.follow (base.below names) (segmentsOf (base.below names).text) =
      walk t.root left above.reverse names := by
    rw [hjoined, ← hleft]
    change walk t.root maxLinks (t.start (base.below names)) (kept ++ names) = _
    rw [hstart]
    rcases hkept with h | h
    · rw [h]
    · rw [h, List.append_assoc, List.singleton_append, walk_append_blank hne]
  exact ⟨left, by rw [place, hfollow]⟩

-- Names below a directory lead to their node, unless the path or one of them is too long.
theorem resolve_below {above names : List String} {node : FileNode}
    (hbase : t.resolve base = .ok above) (hne : names ≠ [])
    (hnames : ∀ name ∈ names, ProperName name)
    (hnode : t.root.get? (above ++ names) = some node) (hlink : ∀ target, node ≠ .link target) :
    t.resolve (base.below names) = (do
      checkPath (base.below names)
      if ∀ name ∈ names, name.utf8ByteSize ≤ maxName then .ok (above ++ names)
      else .error .nameTooLong) := by
  obtain ⟨left, hplace⟩ := exists_place_below hbase hne hnames
  have hnode' : t.root.get? (above.reverse.reverse ++ names) = some node := by
    rw [List.reverse_reverse]
    exact hnode
  rw [walk_names (fun name hname => (hnames name hname).plain) hnode' hlink,
    List.reverse_reverse] at hplace
  rw [resolve, hplace]
  cases checkPath (base.below names) with
  | error cause => rfl
  | ok _ =>
    simp only [ok_bind]
    split <;> rfl

-- Without parents among them, segments lead down by those that are not blank.
theorem descend_map_ofList {parts : List (List Char)} (hup : ∀ part ∈ parts, part ≠ ['.', '.'])
    (above : List String) :
    descend above (parts.map String.ofList) =
      ((parts.filter (!isBlankSegment ·)).map String.ofList).reverse ++ above := by
  induction parts generalizing above with
  | nil => rfl
  | cons part parts ih =>
    have hrest := ih fun p hp => hup p (List.mem_cons_of_mem _ hp)
    have hblank : (String.ofList part = "" ∨ String.ofList part = ".") ↔
        isBlankSegment part = true := by
      rw [← String.toList_inj, ← String.toList_inj, String.toList_ofList, isBlankSegment,
        Bool.or_eq_true, decide_eq_true_iff, decide_eq_true_iff]
      rfl
    have hparent : String.ofList part ≠ ".." := by
      rw [ne_eq, ← String.toList_inj, String.toList_ofList]
      exact hup part (by simp)
    rw [List.map_cons, descend, List.foldl_cons, ← descend, descendOne]
    by_cases hb : isBlankSegment part = true
    · rw [if_pos (hblank.mpr hb), hrest, List.filter_cons_of_neg (by simpa using hb)]
    · rw [if_neg (mt hblank.mp hb), if_neg hparent, hrest,
        List.filter_cons_of_pos (by simpa using hb)]
      simp

theorem parent_notMem_inner_iff {parts : List (List Char)} :
    .parent ∉ inner parts ↔ ∀ part ∈ parts, part ≠ ['.', '.'] := by
  constructor
  · rintro h part hpart rfl
    refine h (List.mem_map.mpr ⟨['.', '.'], List.mem_filter.mpr ⟨hpart, rfl⟩, rfl⟩)
  · intro h hmem
    obtain ⟨part, hpart, hsegment⟩ := List.mem_map.mp hmem
    rw [Path.ofSegment, if_neg (h part (List.mem_of_mem_filter hpart))] at hsegment
    cases hsegment

-- A trimmed path without parents leads down from where the base leads.
theorem location_join {front : List (List Char)} {last : List Char} (h : Trimmed front last)
    (hup : .parent ∉ inner (front ++ [last])) (t : FileTree) (base : Path) :
    t.location (base.join ⟨String.ofList (spelled front last)⟩) =
      t.location base ++ ((front ++ [last]).filter (!isBlankSegment ·)).map String.ofList := by
  have hdown := descend_map_ofList (parent_notMem_inner_iff.mp hup)
  by_cases hbase : base.text = ""
  · have hjoin : base.join ⟨String.ofList (spelled front last)⟩ =
        ⟨String.ofList (spelled front last)⟩ := by
      simp [Path.join, Path.joinChars, hbase]
    have hstart : t.start ⟨String.ofList (spelled front last)⟩ = t.workingDir.reverse := by
      rw [start, if_neg]
      simpa [Path.isAbsolute] using h.head?_spelled
    have hlocation : t.location base = t.workingDir := by
      simp [location, start, Path.isAbsolute, hbase, segmentsOf, segments,
        descend, descendOne]
    rw [hjoin, hlocation, location, hstart, segmentsOf_ofList, h.segments_spelled, hdown]
    simp
  · obtain ⟨kept, hjoined, hkept⟩ := exists_segmentsOf_join hbase h.head?_spelled
    have hlocation : descend (t.start base) kept = (t.location base).reverse := by
      rw [location, List.reverse_reverse]
      rcases hkept with hkept | hkept
      · rw [hkept]
      · rw [hkept, descend, descend, List.foldl_append]
        rfl
    rw [location, start_join hbase h.head?_spelled, hjoined, descend, List.foldl_append, ← descend,
      ← descend, hlocation, h.segments_spelled, hdown]
    simp

end FileTree

end EmbeddedStyles
