import EmbeddedStyles.Session
import Mathlib.Data.List.Nodup

namespace EmbeddedStyles

open Source (Position)

namespace Source.Position

theorem before_iff (a b : Position) :
    a.before b = true ↔ a.line.toNat < b.line.toNat ∨
      a.line.toNat = b.line.toNat ∧ a.column.toNat ≤ b.column.toNat := by
  simp [before, UInt32.lt_iff_toNat_lt, UInt32.le_iff_toNat_le, ← UInt32.toNat_inj]

theorem before_trans {a b c : Position} (hab : a.before b = true) (hbc : b.before c = true) :
    a.before c = true := by
  rw [before_iff] at *
  omega

theorem before_total (a b : Position) : (a.before b || b.before a) = true := by
  rw [Bool.or_eq_true, before_iff, before_iff]
  omega

theorem before_antisymm {a b : Position} (hab : a.before b = true) (hba : b.before a = true) :
    a = b := by
  rw [before_iff] at hab hba
  obtain ⟨line, column⟩ := a
  obtain ⟨line', column'⟩ := b
  simp only [Position.mk.injEq, ← UInt32.toNat_inj]
  dsimp only at hab hba
  omega

end Source.Position

namespace RuleOrder

theorem perm_arrange (order : RuleOrder) (rules : List Rule) :
    (order.arrange rules).Perm rules := by
  cases order with
  | source => exact List.mergeSort_perm _ _
  | compiler => exact List.Perm.refl _

theorem pairwise_arrange_source (rules : List Rule) :
    (source.arrange rules).Pairwise
      fun a b => a.startOrOrigin.before b.startOrOrigin = true := by
  apply List.pairwise_mergeSort
  · intro a b c
    exact Position.before_trans
  · intro a b
    exact Position.before_total a.startOrOrigin b.startOrOrigin

-- Rules on different lines come out in the order of their lines.
theorem arrange_source_of_perm {rules sorted : List Rule} (hperm : rules.Perm sorted)
    (hsorted : sorted.Pairwise fun a b =>
      a.startOrOrigin.line.toNat < b.startOrOrigin.line.toNat) :
    source.arrange rules = sorted := by
  have hp := (perm_arrange source rules).trans hperm
  refine hp.eq_of_pairwise ?_ (pairwise_arrange_source rules) ?_
  · intro a b ha hb hab hba
    -- Two rules on one line are the same rule.
    have hlines : (sorted.map fun rule => rule.startOrOrigin.line.toNat).Nodup :=
      List.pairwise_map.mpr (hsorted.imp fun h => Nat.ne_of_lt h)
    apply List.inj_on_of_nodup_map hlines (hp.subset ha) hb
    rw [Position.before_iff] at hab hba
    omega
  · exact hsorted.imp fun h => by
      rw [Position.before_iff]
      exact Or.inl h

-- Rules that start at different places have one arrangement, in whatever order they come.
theorem arrange_source_congr {rules rules' : List Rule} (hperm : rules.Perm rules')
    (hstarts : (rules.map Rule.startOrOrigin).Nodup) :
    source.arrange rules = source.arrange rules' := by
  have hleft := perm_arrange source rules
  have hright := (perm_arrange source rules').trans hperm.symm
  refine (hleft.trans hright.symm).eq_of_pairwise ?_ (pairwise_arrange_source rules)
    (pairwise_arrange_source rules')
  intro a b ha hb hab hba
  exact List.inj_on_of_nodup_map hstarts (hleft.subset ha) (hright.subset hb)
    (Position.before_antisymm hab hba)

end RuleOrder

end EmbeddedStyles
