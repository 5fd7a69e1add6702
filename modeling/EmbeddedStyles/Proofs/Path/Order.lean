import EmbeddedStyles.Path
import Mathlib.Data.List.Basic

namespace EmbeddedStyles.Path

open Std (LawfulEqCmp OrientedCmp ReflCmp TransCmp)

namespace Component

def text : Component → String
  | .normal name => String.ofList name
  | _ => ""

theorem compare_eq_compareLex :
    Component.compare = compareLex (compareOn rank) (compareOn text) := by
  funext a b
  cases a <;> cases b <;> rfl

instance : TransCmp Component.compare :=
  compare_eq_compareLex ▸ inferInstance

instance : LawfulEqCmp Component.compare where
  eq_of_compare {a b} h := by
    rw [compare_eq_compareLex, compareLex_eq_eq] at h
    have hrank : a.rank = b.rank := LawfulEqCmp.eq_of_compare h.1
    have htext : a.text = b.text := LawfulEqCmp.eq_of_compare h.2
    cases a <;> cases b <;> simp_all [rank, text, String.ofList_inj]

end Component

theorem compareComponents_eq_compareLex :
    compareComponents = List.compareLex Component.compare := by
  funext as bs
  induction as generalizing bs with
  | nil => cases bs <;> rfl
  | cons a as ih =>
    cases bs with
    | nil => rfl
    | cons b bs => rw [compareComponents, List.compareLex_cons_cons, ih]

instance : TransCmp compareComponents :=
  compareComponents_eq_compareLex ▸ inferInstance

instance : LawfulEqCmp compareComponents :=
  compareComponents_eq_compareLex ▸ inferInstance

theorem compareComponents_append_left (cs as bs : List Component) :
    compareComponents (cs ++ as) (cs ++ bs) = compareComponents as bs := by
  induction cs with
  | nil => rfl
  | cons c cs ih =>
    have hself : c.compare c = .eq := ReflCmp.compare_self
    rw [List.cons_append, List.cons_append, compareComponents, hself, ih]
    rfl

end EmbeddedStyles.Path
