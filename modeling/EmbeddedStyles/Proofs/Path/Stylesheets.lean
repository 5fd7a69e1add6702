import EmbeddedStyles.Session
import EmbeddedStyles.Proofs.Path.Relative

namespace EmbeddedStyles.Path

open Text

-- What the name of a stylesheet has after the name of its file.
def cssEnding : List Char := ['.', 'c', 's', 's']

theorem isBlankSegment_cssEnding (cs : List Char) : isBlankSegment (cs ++ cssEnding) = false := by
  have hempty : cs ++ cssEnding ≠ [] := by simp [cssEnding]
  have hdot : cs ++ cssEnding ≠ ['.'] := fun h => by
    have hlength := congrArg List.length h
    simp [cssEnding] at hlength
  simp [isBlankSegment, hempty, hdot]

-- With the ending a segment is a name, even after two dots.
theorem ofSegment_cssEnding (cs : List Char) :
    ofSegment (cs ++ cssEnding) = .normal (cs ++ cssEnding) := by
  have hdots : cs ++ cssEnding ≠ ['.', '.'] := fun h => by
    have hlength := congrArg List.length h
    simp [cssEnding] at hlength
  simp [ofSegment, hdots]

theorem eq_of_ofSegment_eq_normal {segment name : List Char}
    (h : ofSegment segment = .normal name) : segment = name := by
  rw [ofSegment] at h
  split at h
  · cases h
  · simpa using h

theorem root_notMem_inner (segments : List (List Char)) : .root ∉ inner segments := by
  intro h
  obtain ⟨segment, -, hs⟩ := List.mem_map.mp h
  rw [ofSegment] at hs
  split at hs <;> cases hs

theorem spelled_append (front : List (List Char)) (last cs : List Char) :
    spelled front last ++ cs = spelled front (last ++ cs) :=
  intercalate_concat_append front last cs

namespace Trimmed

variable {front : List (List Char)} {last : List Char}

theorem inner_concat (h : Trimmed front last) :
    inner (front ++ [last]) = inner front ++ [ofSegment last] := by
  rw [inner_append, inner_singleton h.last]

theorem append_cssEnding (h : Trimmed front last) : Trimmed front (last ++ cssEnding) where
  free segment hs := by
    rcases List.mem_append.mp hs with hfront | hlast
    · exact h.free segment (List.mem_append_left _ hfront)
    · have hfree : separator ∉ last := h.free last (by simp)
      rw [List.mem_singleton.mp hlast, List.mem_append, not_or]
      exact ⟨hfree, by decide⟩
  first := h.first
  last := isBlankSegment_cssEnding last

theorem of_append_cssEnding (h : Trimmed front (last ++ cssEnding))
    (hlast : isBlankSegment last = false) : Trimmed front last where
  free segment hs := by
    rcases List.mem_append.mp hs with hfront | hs
    · exact h.free segment (List.mem_append_left _ hfront)
    · have hfree : separator ∉ last ++ cssEnding := h.free _ (by simp)
      rw [List.mem_singleton.mp hs]
      exact fun hm => hfree (List.mem_append_left _ hm)
  first := h.first
  last := hlast

theorem inner_append_cssEnding (h : Trimmed front last) :
    inner (front ++ [last ++ cssEnding]) = inner front ++ [.normal (last ++ cssEnding)] := by
  rw [h.append_cssEnding.inner_concat, ofSegment_cssEnding]

end Trimmed

-- The path a source of a result stands for, seen from the workspace.
def resolved (source : String) (workspace : Path) : Path :=
  if (⟨source⟩ : Path).isAbsolute then ⟨source⟩ else workspace.join ⟨source⟩

theorem isAbsolute_resolved {workspace : Path} (h : workspace.isAbsolute = true) (source : String) :
    (resolved source workspace).isAbsolute = true := by
  rw [resolved]
  split
  · assumption
  next hsource =>
    cases hw : workspace.text.toList with
    | nil => simp [isAbsolute, hw] at h
    | cons c cs =>
      obtain rfl : c = separator := by simpa [isAbsolute, hw] using h
      have hhead : source.toList.head? ≠ some separator := by simpa [isAbsolute] using hsource
      simp only [isAbsolute, join, String.toList_ofList, joinChars, hhead, hw, if_false]
      split <;> simp

theorem sourcePath_of_relativeTo? {workspace outDir : Path} {source : String}
    {front : List (List Char)} {last : List Char}
    (h : (resolved source workspace).relativeTo? outDir =
      some ⟨String.ofList (spelled front (last ++ cssEnding))⟩) :
    sourcePath source workspace (some outDir) =
      workspace.join ⟨String.ofList (spelled front last)⟩ := by
  have hsuffix : cssEnding.isSuffixOf (spelled front (last ++ cssEnding)) = true := by
    rw [List.isSuffixOf_iff_suffix, ← spelled_append]
    exact List.suffix_append _ _
  have hstrip : (spelled front (last ++ cssEnding)).take
      ((spelled front (last ++ cssEnding)).length - cssEnding.length) = spelled front last := by
    rw [← spelled_append]
    simp
  simp only [cssEnding] at h hsuffix hstrip
  rw [resolved] at h
  simp only [sourcePath, Option.bind_some, h, String.toList_ofList, hsuffix, if_true, hstrip]

-- From the components of a stylesheet's path back to those of its file, whatever the spelling.
theorem components_sourcePath {workspace outDir : Path} (habs : workspace.isAbsolute = true)
    {front : List (List Char)} {last : List Char} (htrimmed : Trimmed front last) {source : String}
    (hsource : (resolved source workspace).components =
      outDir.components ++ inner (front ++ [last ++ cssEnding])) :
    (sourcePath source workspace (some outDir)).components =
      workspace.components ++ inner (front ++ [last]) := by
  have hout : outDir.components ≠ [] := by
    obtain ⟨rest, hroot⟩ := components_of_isAbsolute (isAbsolute_resolved habs source)
    intro hnil
    rw [hnil, List.nil_append, hroot] at hsource
    exact root_notMem_inner _ (hsource ▸ List.mem_cons_self)
  have hne : inner (front ++ [last ++ cssEnding]) ≠ [] := by
    simp [htrimmed.inner_append_cssEnding]
  obtain ⟨spelling, name, hspelling, hrelative, hinner⟩ := exists_relativeTo? hout hne hsource
  -- The spelling below the output directory may differ between the names, but ends the same way.
  rw [hspelling.inner_concat, htrimmed.inner_append_cssEnding] at hinner
  obtain ⟨hfront, hname⟩ := List.append_inj' hinner rfl
  obtain rfl := eq_of_ofSegment_eq_normal (List.singleton_inj.mp hname)
  have hstripped := hspelling.of_append_cssEnding htrimmed.last
  rw [sourcePath_of_relativeTo? hrelative, hstripped.components_join, hstripped.inner_concat,
    htrimmed.inner_concat, hfront]

end EmbeddedStyles.Path
