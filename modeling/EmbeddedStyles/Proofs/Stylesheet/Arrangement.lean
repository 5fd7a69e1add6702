import EmbeddedStyles.Proofs.Session.Extraction
import EmbeddedStyles.Proofs.Stylesheet.Order

namespace EmbeddedStyles

open Source (Position)

namespace RuleOrder

-- The rules that start at a place, as they come.
def startingAt (place : Position) (rules : List Rule) : List Rule :=
  rules.filter fun rule => rule.startOrOrigin = place

-- The same rules in another order, though not those that start at one place.
structure Rearranged (rules rules' : List Rule) : Prop where
  perm : rules'.Perm rules
  ties : ∀ place, startingAt place rules' = startingAt place rules

-- By line and then by column.
def InOrder (rules : List Rule) : Prop :=
  rules.Pairwise fun a b => a.startOrOrigin.before b.startOrOrigin = true

instance (rules : List Rule) : Decidable (InOrder rules) :=
  inferInstanceAs (Decidable (rules.Pairwise _))

namespace Rearranged

variable {rules rules' rules'' : List Rule}

theorem symm (h : Rearranged rules rules') : Rearranged rules' rules :=
  ⟨h.perm.symm, fun place => (h.ties place).symm⟩

theorem trans (h : Rearranged rules rules') (h' : Rearranged rules' rules'') :
    Rearranged rules rules'' :=
  ⟨h'.perm.trans h.perm, fun place => (h'.ties place).trans (h.ties place)⟩

-- Neighbours that start at different places may change places.
theorem swap {a b : Rule} (h : a.startOrOrigin ≠ b.startOrOrigin) (rules : List Rule) :
    Rearranged (a :: b :: rules) (b :: a :: rules) := by
  refine ⟨.swap a b rules, fun place => ?_⟩
  by_cases ha : a.startOrOrigin = place
  · have hb : b.startOrOrigin ≠ place := fun hb => h (ha.trans hb.symm)
    simp [startingAt, ha, hb]
  · simp [startingAt, List.filter_cons, ha]

theorem cons (h : Rearranged rules rules') (a : Rule) :
    Rearranged (a :: rules) (a :: rules') := by
  refine ⟨h.perm.cons a, fun place => ?_⟩
  have hties := h.ties place
  by_cases ha : a.startOrOrigin = place <;> simpa [startingAt, List.filter_cons, ha] using hties

theorem of_cons {a : Rule} (h : Rearranged (a :: rules) (a :: rules')) :
    Rearranged rules rules' := by
  refine ⟨h.perm.cons_inv, fun place => ?_⟩
  have hties := h.ties place
  by_cases ha : a.startOrOrigin = place <;> simpa [startingAt, List.filter_cons, ha] using hties

end Rearranged

-- The first rule starts no later than any other.
theorem InOrder.head_before {a b : Rule} {rules rules' : List Rule} (h : InOrder (a :: rules))
    (hperm : (b :: rules').Perm (a :: rules)) :
    a.startOrOrigin.before b.startOrOrigin = true := by
  rcases List.mem_cons.mp (hperm.subset (List.mem_cons_self (a := b))) with rfl | hb
  · rw [Position.before_iff]
    omega
  · exact (List.pairwise_cons.mp h).1 b hb

-- Two arrangements start at the same place, and the rules of that place come in the same order.
theorem InOrder.head_eq {a b : Rule} {rules rules' : List Rule} (h : InOrder (a :: rules))
    (h' : InOrder (b :: rules')) (hsame : Rearranged (a :: rules) (b :: rules')) : a = b := by
  have hplace : a.startOrOrigin = b.startOrOrigin :=
    Position.before_antisymm (h.head_before hsame.perm) (h'.head_before hsame.perm.symm)
  have hties := hsame.ties a.startOrOrigin
  simp only [startingAt, List.filter_cons, hplace, decide_true, if_true] at hties
  exact (List.cons.inj hties).1.symm

-- Rules can be put in order in one way only.
theorem InOrder.eq_of_rearranged {rules rules' : List Rule} (h : InOrder rules)
    (h' : InOrder rules') (hsame : Rearranged rules rules') : rules' = rules := by
  induction rules generalizing rules' with
  | nil => exact hsame.perm.eq_nil
  | cons a rules ih =>
    cases rules' with
    | nil => exact absurd hsame.perm.symm.eq_nil (by simp)
    | cons b rules' =>
      obtain rfl := h.head_eq h' hsame
      rw [ih (List.pairwise_cons.mp h).2 (List.pairwise_cons.mp h').2 hsame.of_cons]

-- Sorting keeps every sequence of rules that is in order already, and so all rules of one place.
theorem rearranged_arrange_source (rules : List Rule) :
    Rearranged rules (source.arrange rules) := by
  have hperm := perm_arrange source rules
  refine ⟨hperm, fun place => ?_⟩
  have hties : (startingAt place rules).Pairwise fun a b =>
      a.startOrOrigin.before b.startOrOrigin = true := by
    refine List.pairwise_of_forall_mem_list fun a ha b hb => ?_
    have ha' : a.startOrOrigin = place := by simpa using (List.mem_filter.mp ha).2
    have hb' : b.startOrOrigin = place := by simpa using (List.mem_filter.mp hb).2
    rw [ha', hb', Position.before_iff]
    omega
  have hkept : (startingAt place rules).Sublist (source.arrange rules) := by
    apply List.sublist_mergeSort
    · intro a b c
      exact Position.before_trans
    · intro a b
      exact Position.before_total a.startOrOrigin b.startOrOrigin
    · exact hties
    · exact List.filter_sublist
  have hsub := hkept.filter fun rule => decide (rule.startOrOrigin = place)
  rw [startingAt, List.filter_filter] at hsub
  simp only [Bool.and_self] at hsub
  exact (hsub.eq_of_length (hperm.filter _).length_eq.symm).symm

theorem arrange_source_eq {rules sorted : List Rule} (hsorted : InOrder sorted)
    (h : Rearranged rules sorted) : source.arrange rules = sorted :=
  hsorted.eq_of_rearranged (pairwise_arrange_source rules)
    (h.symm.trans (rearranged_arrange_source rules))

end RuleOrder

namespace Session

open RuleOrder (InOrder Rearranged)

-- Two reports with the same replacements, and with the same rules but for the order of those that
-- start at different places, are extracted alike. The stylesheet is that of the only arrangement by
-- source which keeps the order of rules that start at one place.
theorem extract_source_order {σ σ' : Type} (s : Session) (hsource : s.ruleOrder = .source)
    {m m' : Metadata} (hreplacements : m'.replacements = m.replacements)
    (hrules : Rearranged m.ruleList m'.ruleList) (compiler : Compiler σ) (compiler' : Compiler σ')
    (state : σ) (state' : σ') (source source' : String) (file : Path)
    (hasks : s.asks source = true) (hasks' : s.asks source' = true)
    (hanswer : (compiler state source file).1 = .ok (some m))
    (hanswer' : (compiler' state' source' file).1 = .ok (some m')) :
    ∃ sorted, InOrder sorted ∧ Rearranged m.ruleList sorted ∧
      (∀ other, InOrder other → Rearranged m.ruleList other → other = sorted) ∧
      (s.extract compiler state source file).1 =
        .styles (Stylesheet.synthesize sorted) m.rules.length m.replacements.length ∧
      (s.extract compiler' state' source' file).1 = (s.extract compiler state source file).1 ∧
      (s.extract compiler' state' source' file).2.1 = (s.extract compiler state source file).2.1 ∧
      ∀ other, (s.extract compiler state source file).2.1.replacements? other =
        if file.same other then some m.replacements else s.replacements? other := by
  have hsorted : InOrder (RuleOrder.source.arrange m.ruleList) :=
    RuleOrder.pairwise_arrange_source m.ruleList
  have harranged := RuleOrder.rearranged_arrange_source m.ruleList
  have hsame : RuleOrder.source.arrange m'.ruleList = RuleOrder.source.arrange m.ruleList :=
    RuleOrder.arrange_source_eq hsorted (hrules.symm.trans harranged)
  have hcount : m'.rules.length = m.rules.length := by
    simpa [Metadata.ruleList] using hrules.perm.length_eq
  rw [extract_of_report hasks hanswer, extract_of_report hasks' hanswer']
  refine ⟨_, hsorted, harranged, ?_, ?_, ?_, ?_, ?_⟩
  · intro other hother hsame
    exact (RuleOrder.arrange_source_eq hother hsame).symm
  · simp only [stylesheet, hsource]
  · simp only [stylesheet, hsource, hsame, hcount, hreplacements]
  · simp only [hreplacements]
  · intro other
    exact replacements?_remember s file other m.replacements

-- Two rules without a start, and one that starts further down.
def unplacedRule (name : String) : Rule :=
  ⟨name, "d", none, none⟩

def placedRule : Rule :=
  ⟨"c", "e", some ⟨2, 4⟩, none⟩

-- The placed rule is reported first or between the others, and is laid out after them.
def reportedFirst : Metadata :=
  ⟨[(".c", placedRule), (".b", unplacedRule "b"), (".a", unplacedRule "a")], []⟩

def reportedSecond : Metadata :=
  ⟨[(".b", unplacedRule "b"), (".c", placedRule), (".a", unplacedRule "a")], []⟩

theorem extract_source_order_unplaced :
    Rearranged reportedFirst.ruleList reportedSecond.ruleList ∧
    ∃ css, (({} : Session).extract (fun (_ : Unit) _ _ => (.ok (some reportedFirst), ())) ()
        "css`d`" ⟨"a.js"⟩).1 = .styles css 3 0 ∧
      (({} : Session).extract (fun (_ : Unit) _ _ => (.ok (some reportedSecond), ())) ()
        "css`e`" ⟨"a.js"⟩).1 = .styles css 3 0 ∧
      css.toList = ".b \x7bd \x7d.a \x7bd \x7d\n.c \x7be \x7d".toList := by
  have hswap (name : String) (rules : List Rule) :
      Rearranged (placedRule :: unplacedRule name :: rules)
        (unplacedRule name :: placedRule :: rules) :=
    .swap (show placedRule.startOrOrigin ≠ Position.origin by decide) rules
  have hrules : Rearranged reportedFirst.ruleList reportedSecond.ruleList := hswap _ _
  have hreplacements : reportedSecond.replacements = reportedFirst.replacements := rfl
  have hsorted : InOrder [unplacedRule "b", unplacedRule "a", placedRule] := by decide
  obtain ⟨sorted, -, -, hunique, hfirst, hsecond, -⟩ :=
    extract_source_order {} rfl hreplacements hrules
      (fun (_ : Unit) _ _ => (.ok (some reportedFirst), ()))
      (fun (_ : Unit) _ _ => (.ok (some reportedSecond), ())) () () "css`d`" "css`e`" ⟨"a.js"⟩
      (by decide +kernel) (by decide +kernel) rfl rfl
  obtain rfl := hunique _ hsorted (hrules.trans ((hswap "a" []).cons _))
  exact ⟨hrules, _, hfirst, hsecond.trans hfirst, by decide⟩

end Session

end EmbeddedStyles
