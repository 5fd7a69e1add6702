import EmbeddedStyles.Proofs.Path.Stylesheets

namespace EmbeddedStyles.Path

-- A name that a directory can have.
structure ProperName (name : String) : Prop where
  free : separator ∉ name.toList
  notBlank : isBlankSegment name.toList = false
  notParent : name.toList ≠ ['.', '.']

-- The path that names lead to, from a directory on.
def below (base : Path) (names : List String) : Path :=
  base.join ⟨"/".intercalate names⟩

def Component.ofName (name : String) : Component :=
  .normal name.toList

theorem ofName_injective : Function.Injective Component.ofName := by
  intro a b h
  exact String.toList_inj.mp (Component.normal.inj h)

theorem toList_intercalate_slash (names : List String) :
    ("/".intercalate names).toList = [separator].intercalate (names.map String.toList) :=
  String.toList_intercalate

section

variable {names : List String} (hnames : ∀ name ∈ names, ProperName name)
include hnames

theorem inner_map_toList : inner (names.map String.toList) = names.map Component.ofName := by
  induction names with
  | nil => rfl
  | cons name names ih =>
    have hname := hnames name (by simp)
    rw [List.map_cons, List.map_cons, inner_cons hname.notBlank, ofSegment, if_neg hname.notParent,
      ih fun n hn => hnames n (List.mem_cons_of_mem _ hn), Component.ofName]

theorem exists_trimmed (hne : names ≠ []) :
    ∃ front last, Trimmed front last ∧ names.map String.toList = front ++ [last] ∧
      (⟨"/".intercalate names⟩ : Path) = ⟨String.ofList (spelled front last)⟩ := by
  obtain ⟨front, last, rfl⟩ := List.eq_nil_or_concat' names |>.resolve_left hne
  have htext : "/".intercalate (front ++ [last]) =
      String.ofList (spelled (front.map String.toList) last.toList) := by
    rw [← String.toList_inj, toList_intercalate_slash, String.toList_ofList, spelled]
    simp
  refine ⟨front.map String.toList, last.toList, ⟨?_, ?_, ?_⟩, by simp, by rw [htext]⟩
  · intro segment hs
    obtain ⟨name, hname, rfl⟩ : ∃ name ∈ front ++ [last], String.toList name = segment := by
      rcases List.mem_append.mp hs with hs | hs
      · obtain ⟨name, hname, rfl⟩ := List.mem_map.mp hs
        exact ⟨name, List.mem_append_left _ hname, rfl⟩
      · exact ⟨last, by simp, (List.mem_singleton.mp hs).symm⟩
    exact (hnames name hname).free
  · intro segment hs
    obtain ⟨name, hname, rfl⟩ := List.mem_map.mp (List.mem_of_mem_head? hs)
    exact (hnames name (List.mem_append_left _ hname)).notBlank
  · exact (hnames last (by simp)).notBlank

theorem components_below (hne : names ≠ []) (base : Path) :
    (base.below names).components = base.components ++ names.map Component.ofName := by
  obtain ⟨front, last, htrimmed, hsegments, hpath⟩ := exists_trimmed hnames hne
  rw [below, hpath, htrimmed.components_join, ← hsegments, inner_map_toList hnames]

theorem fileName?_below (hne : names ≠ []) (base : Path) :
    (base.below names).fileName? = names.getLast? := by
  obtain ⟨front, last, rfl⟩ := List.eq_nil_or_concat' names |>.resolve_left hne
  have hlast : ((base.below (front ++ [last])).components).getLast? =
      some (Component.ofName last) := by
    rw [components_below hnames hne]
    simp
  simp only [fileName?, hlast, Component.ofName]
  simp

end

-- The segments that are left once the components of the first ones are dropped.
theorem exists_dropComponents (as bs : List (List Char)) :
    ∃ blanks, (∀ segment ∈ blanks, isBlankSegment segment = true) ∧
      dropComponents (inner as).length (as ++ bs) = blanks ++ bs := by
  induction as with
  | nil => exact ⟨[], by simp, by simp [dropComponents]⟩
  | cons segment as ih =>
    obtain ⟨blanks, hblanks, hdrop⟩ := ih
    by_cases hb : isBlankSegment segment = true
    · rw [inner_cons_blank hb]
      cases hlength : (inner as).length with
      | zero =>
        -- Nothing is dropped, and all that is there is blank.
        rw [hlength] at hdrop
        have happend : as = blanks := by simpa [dropComponents] using hdrop
        refine ⟨segment :: as, ?_, by simp [dropComponents]⟩
        intro s hs
        rcases List.mem_cons.mp hs with rfl | hs
        · exact hb
        · exact hblanks s (happend ▸ hs)
      | succ n =>
        refine ⟨blanks, hblanks, ?_⟩
        rw [List.cons_append, dropComponents, if_pos hb, ← hlength, hdrop]
    · refine ⟨blanks, hblanks, ?_⟩
      have hb' : isBlankSegment segment = false := by simpa using hb
      rw [inner_cons hb', List.length_cons, List.cons_append, dropComponents, if_neg hb, hdrop]

theorem trimSegments_blanks_append {blanks front : List (List Char)} {last : List Char}
    (hblanks : ∀ segment ∈ blanks, isBlankSegment segment = true) (h : Trimmed front last) :
    trimSegments (blanks ++ (front ++ [last])) = front ++ [last] := by
  obtain ⟨first, rest, hsplit, hfirst, -⟩ := h.exists_first
  have hdrop : (blanks ++ (front ++ [last])).dropWhile isBlankSegment = front ++ [last] := by
    rw [List.dropWhile_append_of_pos hblanks, hsplit, List.dropWhile_cons_of_neg (by simp [hfirst])]
  rw [trimSegments, hdrop, dropBlankEnd, List.reverse_append, List.reverse_singleton,
    List.singleton_append, List.dropWhile_cons_of_neg (by simp [h.last])]
  simp

-- The segments of a joined path are those of the base, but perhaps for a blank one at their end,
-- and those of the other path.
theorem exists_segments_joinChars {base other : List Char} (hbase : base ≠ [])
    (hother : other.head? ≠ some separator) :
    ∃ kept, segments (joinChars base other) = kept ++ segments other ∧ kept ≠ [] ∧
      (segments base = kept ∨ segments base = kept ++ [[]]) := by
  by_cases hlast : base.getLast? = some separator
  · obtain ⟨front, rfl⟩ := List.getLast?_eq_some_iff.mp hlast
    refine ⟨segments front, ?_, segments_ne_nil front, .inr (segments_append front [])⟩
    have hj : joinChars (front ++ [separator]) other = front ++ separator :: other := by
      simp [joinChars, hother]
    rw [hj, segments_append]
  · have hj : joinChars base other = base ++ separator :: other := by
      simp [joinChars, hother, hbase, hlast]
    exact ⟨segments base, by rw [hj, segments_append], segments_ne_nil base, .inl rfl⟩

theorem components_ne_nil {p : Path} (h : p.text ≠ "") : p.components ≠ [] := by
  have hcs : p.text.toList ≠ [] := by simpa using h
  rw [components, componentsOf]
  cases hs : segments p.text.toList with
  | nil => exact absurd hs (segments_ne_nil _)
  | cons first rest =>
    rw [componentsOfSegments]
    by_cases hroot : (decide (first = []) && !rest.isEmpty) = true
    · simp [hroot]
    · rw [if_neg hroot]
      by_cases hdot : first = ['.']
      · simp [hdot]
      · have hfirst : first ≠ [] := by
          rintro rfl
          have hrest : rest = [] := by simpa using hroot
          exact segments_ne_singleton_nil hcs (by rw [hs, hrest])
        rw [if_neg hdot, inner_cons (by simp [isBlankSegment, hfirst, hdot])]
        simp

-- A first segment that is empty is the root, and a dot in front counts too.
theorem length_componentsOfSegments {first : List Char} {rest : List (List Char)}
    (hroot : first = [] → rest ≠ []) :
    (componentsOfSegments (first :: rest)).length =
      if first = [] ∨ first = ['.'] then (inner rest).length + 1
      else (inner (first :: rest)).length := by
  by_cases hempty : first = []
  · simp [componentsOfSegments, hempty, hroot hempty]
  · by_cases hdot : first = ['.'] <;> simp [componentsOfSegments, hempty, hdot]

-- Dropping the components of the base leaves the other path as it was spelled.
theorem dropFirst_joinChars {base : List Char} (hbase : base ≠ []) {front : List (List Char)}
    {last : List Char} (h : Trimmed front last) {n : Nat}
    (hn : (componentsOf base).length = n + 1) :
    dropFirst (n + 1) (joinChars base (spelled front last)) = spelled front last := by
  obtain ⟨kept, hsegments, hkept, hbase'⟩ := exists_segments_joinChars hbase h.head?_spelled
  rw [h.segments_spelled] at hsegments
  obtain ⟨first, rest, rfl⟩ := List.exists_cons_of_ne_nil hkept
  -- The base has the segments that were kept, a blank one at the end apart.
  obtain ⟨rest', hrest, hinner⟩ : ∃ rest', segments base = first :: rest' ∧
      inner rest' = inner rest := by
    rcases hbase' with hs | hs
    · exact ⟨rest, hs, rfl⟩
    · refine ⟨rest ++ [[]], by simpa using hs, ?_⟩
      rw [inner_append, inner_cons_blank rfl, inner_nil, List.append_nil]
  have hroot : first = [] → rest' ≠ [] := by
    rintro rfl rfl
    exact segments_ne_singleton_nil hbase hrest
  rw [componentsOf, hrest, length_componentsOfSegments hroot] at hn
  have htrim : ∀ blanks, (∀ segment ∈ blanks, isBlankSegment segment = true) →
      [separator].intercalate (trimSegments (blanks ++ (front ++ [last]))) =
        spelled front last := by
    intro blanks hblanks
    rw [trimSegments_blanks_append hblanks h, spelled]
  have hisFirst : (decide (first = []) && !(rest ++ (front ++ [last])).isEmpty ||
      decide (first = ['.'])) = decide (first = [] ∨ first = ['.']) := by
    have hmore : (rest ++ (front ++ [last])).isEmpty = false := by simp
    rw [hmore, Bool.not_false, Bool.and_true, Bool.decide_or]
  simp only [dropFirst, hsegments, List.cons_append, hisFirst]
  by_cases hfirst : first = [] ∨ first = ['.']
  · rw [if_pos hfirst, hinner] at hn
    obtain ⟨blanks, hblanks, hdrop⟩ := exists_dropComponents rest (front ++ [last])
    rw [if_pos (by simpa using hfirst), ← Nat.add_right_cancel hn, hdrop, htrim blanks hblanks]
  · have hcons : inner (first :: rest') = inner (first :: rest) := by
      rw [← List.singleton_append, inner_append, hinner, ← inner_append, List.singleton_append]
    rw [if_neg hfirst, hcons] at hn
    obtain ⟨blanks, hblanks, hdrop⟩ := exists_dropComponents (first :: rest) (front ++ [last])
    rw [if_neg (by simpa using hfirst), ← List.cons_append, ← hn, hdrop, htrim blanks hblanks]

theorem relativeTo_below {names : List String} (hnames : ∀ name ∈ names, ProperName name)
    (hne : names ≠ []) {base : Path} (hbase : base.text ≠ "") :
    (base.below names).relativeTo base = ⟨"/".intercalate names⟩ := by
  obtain ⟨n, hn⟩ := Nat.exists_eq_add_one_of_ne_zero
    (mt List.length_eq_zero_iff.mp (components_ne_nil hbase))
  have hprefix : base.components.isPrefixOf (base.below names).components = true := by
    rw [List.isPrefixOf_iff_prefix, components_below hnames hne]
    exact List.prefix_append _ _
  obtain ⟨front, last, htrimmed, -, hpath⟩ := exists_trimmed hnames hne
  rw [relativeTo, relativeTo?, if_pos hprefix, hn, Option.getD_some, below, hpath, join,
    String.toList_ofList, String.toList_ofList,
    dropFirst_joinChars (by simpa using hbase) htrimmed hn]

end EmbeddedStyles.Path
