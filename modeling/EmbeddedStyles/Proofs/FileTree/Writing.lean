import EmbeddedStyles.Proofs.FileTree.Walking

namespace EmbeddedStyles.FileTree

variable {t t' : FileTree} {p : Path}

-- A directory that was made is put where a directory had no such name.
theorem exists_of_makeDir (h : t.makeDir p = .ok t') :
    ∃ (dir : List String) (last : String) (entries : List (FileName × FileNode)),
      t.root.get? dir = some (.dir entries) ∧ FileNode.child? last (.dir entries) = none ∧
      t' = { t with root := t.root.put (.dir []) (dir ++ [last]) } := by
  rw [makeDir] at h
  obtain ⟨_, -, h⟩ := bind_eq_ok_iff.mp h
  split at h
  · cases h
  next last above _ =>
    obtain ⟨place, -, h⟩ := bind_eq_ok_iff.mp h
    cases place with
    | missing names => cases h
    | found dir =>
      simp only at h
      split at h
      next entries hdir =>
        split at h
        · cases h
        split at h
        · cases h
        split at h
        · cases h
        next hfree =>
          exact ⟨dir, last, entries, hdir, by simpa using hfree, (Except.ok.inj h).symm⟩
      next => cases h

theorem makeDir_grows (h : t.makeDir p = .ok t') : t.Grows ∅ t' := by
  obtain ⟨dir, last, entries, hdir, hlast, rfl⟩ := exists_of_makeDir h
  exact ⟨rfl, (FileNode.Fits.of_dir hdir hlast).grows .emptyDir (.inr rfl)⟩

theorem addDir_grows (t : FileTree) (p : Path) : t.Grows ∅ (t.addDir p).2 := by
  rw [addDir]
  split
  next h => exact makeDir_grows h
  next => exact .refl t

theorem addDirsBounded_grows (bound : Nat) (t : FileTree) (p : Path) :
    t.Grows ∅ (addDirsBounded bound t p).2 := by
  induction bound generalizing p with
  | zero => exact .refl t
  | succ bound ih =>
    rw [addDirsBounded]
    split
    · exact .refl t
    split
    · exact .refl t
    next above _ _ =>
      have habove := ih above
      split
      next t₁ h =>
        rw [h] at habove
        exact habove
      next t₁ h =>
        rw [h] at habove
        exact habove.trans (addDir_grows t₁ p)
    · exact addDir_grows t p

theorem addDirs_grows (t : FileTree) (p : Path) : t.Grows ∅ (t.addDirs p).2 :=
  addDirsBounded_grows _ t p

-- A text that was written is at the place to which its path leads afterwards.
theorem exists_of_writeText {text : String} (h : t.writeText p text = .ok t') :
    ∃ names executable, t'.resolve p = .ok names ∧
      t'.root.get? names = some (.file text.toUTF8 executable) ∧
      t.Grows {names.map .ofText} t' := by
  rw [writeText] at h
  obtain ⟨place, hplace, h⟩ := bind_eq_ok_iff.mp h
  obtain ⟨executable, hfits, rfl⟩ : ∃ executable,
      FileNode.Fits (.file text.toUTF8 executable) t.root place.names ∧
      t' = { t with root := t.root.put (.file text.toUTF8 executable) place.names } := by
    cases place with
    | found names =>
      simp only at h
      split at h
      next content executable hfile =>
        exact ⟨executable, .of_file hfile _ _, (Except.ok.inj h).symm⟩
      next => cases h
    | missing names =>
      obtain ⟨dir, last, entries, rfl, hdir, hlast⟩ := (place_eq_ok_iff.mp hplace).2.valid
      exact ⟨false, .of_dir hdir hlast, (Except.ok.inj h).symm⟩
  have hgrows : t.Grows {place.names.map .ofText}
      { t with root := t.root.put (.file text.toUTF8 executable) place.names } :=
    ⟨rfl, hfits.grows (.file _ _) (.inl rfl)⟩
  have hthere := FileNode.get?_put t.root (.file text.toUTF8 executable) place.names
  exact ⟨place.names, executable, resolve_of_grows hgrows hplace hthere, hthere, hgrows⟩

end EmbeddedStyles.FileTree
