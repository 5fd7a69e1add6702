import EmbeddedStyles.Proofs.Options.Settings
import Mathlib.Data.List.Pairwise
import Mathlib.Data.List.Perm.Basic

namespace EmbeddedStyles.Options

section Order

variable {s t : Setting}

-- Settings that may be made in either order.
def Setting.Commutes (s t : Setting) : Prop :=
  ∀ o : Options, t.put (s.put o) = s.put (t.put o)

theorem Setting.Commutes.symm (h : s.Commutes t) : t.Commutes s :=
  fun o => (h o).symm

instance : Std.Symm Setting.Commutes :=
  ⟨fun _ _ => Setting.Commutes.symm⟩

theorem Setting.commutes_of_name (h : t.name = s.name → t.name = .valued .ignore) :
    s.Commutes t := by
  intro o
  cases s <;> cases t <;> first | rfl | simp [Setting.name] at h

theorem Distinct.perm {settings settings' : List Setting} (h : Distinct settings)
    (hperm : settings.Perm settings') : Distinct settings' :=
  (hperm.pairwise_iff fun hst hname => hname ▸ hst hname.symm).mp h

theorem foldl_put_perm {settings settings' : List Setting} (h : Distinct settings)
    (hperm : settings.Perm settings') (o : Options) :
    settings.foldl (fun o s => s.put o) o = settings'.foldl (fun o s => s.put o) o := by
  have hpairs : settings.Pairwise Setting.Commutes := h.imp Setting.commutes_of_name
  have hall : ∀ s ∈ settings, ∀ t ∈ settings, s.Commutes t := fun s hs t ht =>
    hpairs.forall_of_forall (fun _ _ _ => rfl) hs ht
  exact hperm.foldl_eq' (fun s hs t ht o => hall s hs t ht o) o

end Order

-- What may be chosen on a command line: a value for some options, some flags, and patterns.
structure Choice where
  workspace : Option Path := none
  config : Option Path := none
  output : Option Report.Format := none
  threshold : Option Threshold := none
  outDir : Option Path := none
  results : Option Path := none
  ignore : List String := []
  node : Option Path := none
  ruleOrder : Option RuleOrder := none
  emitCss : Bool := false
  failOnWarnings : Bool := false
  verbose : Bool := false

namespace Choice

-- What is chosen of the options and flags that are given once at most.
def once (c : Choice) : List (Option Setting) :=
  [c.workspace.map .workspace, c.config.map .config, c.output.map .output,
    c.threshold.map .threshold, c.outDir.map .outDir, c.results.map .results, c.node.map .node,
    c.ruleOrder.map .ruleOrder, if c.emitCss then some .emitCss else none,
    if c.failOnWarnings then some .failOnWarnings else none,
    if c.verbose then some .verbose else none]

-- All that is chosen, in some order.
def settings (c : Choice) : List Setting :=
  c.once.filterMap id ++ c.ignore.map .ignore

-- The options that are meant, with the default where nothing is chosen.
def options (c : Choice) : Options where
  workspace := c.workspace.getD ⟨"."⟩
  config := c.config
  output := c.output.getD .human
  threshold := c.threshold.getD .warning
  emitCss := c.emitCss
  outDir := c.outDir
  results := c.results
  failOnWarnings := c.failOnWarnings
  ignore := c.ignore
  node := c.node
  ruleOrder := c.ruleOrder
  verbose := c.verbose

theorem distinct_settings (c : Choice) : Distinct c.settings := by
  rw [Distinct, settings, List.pairwise_append]
  refine ⟨?_, ?_, ?_⟩
  · rw [List.pairwise_filterMap, once]
    simp only [List.pairwise_cons, List.forall_mem_cons, id, Option.map_eq_some_iff,
      forall_exists_index, and_imp, forall_apply_eq_imp_iff₂, Setting.name]
    simp
  · rw [List.pairwise_map]
    exact List.pairwise_of_forall fun _ _ _ => rfl
  · rintro s - t ht -
    obtain ⟨pattern, -, rfl⟩ := List.mem_map.mp ht
    rfl

-- A setting is made if there is one.
def made (o : Options) (s? : Option Setting) : Options :=
  s?.elim o fun s => s.put o

theorem foldl_put_filterMap (settings : List (Option Setting)) (o : Options) :
    (settings.filterMap id).foldl (fun o s => s.put o) o = settings.foldl made o := by
  induction settings generalizing o with
  | nil => rfl
  | cons s? settings ih =>
    cases s? with
    | none => exact ih o
    | some s => exact ih (s.put o)

theorem foldl_put_patterns (patterns : List String) (o : Options) :
    (patterns.map Setting.ignore).foldl (fun o s => s.put o) o = o := by
  induction patterns with
  | nil => rfl
  | cons pattern patterns ih => exact ih

-- What is chosen of an option replaces what was there before.
theorem foldl_put_settings (c : Choice) :
    c.settings.foldl (fun o s => s.put o) {} = { c.options with ignore := [] } := by
  have hworkspace (o : Options) : made o (c.workspace.map .workspace) =
      { o with workspace := c.workspace.getD o.workspace } := by cases c.workspace <;> rfl
  have hconfig (o : Options) : made o (c.config.map .config) =
      { o with config := c.config.or o.config } := by cases c.config <;> rfl
  have houtput (o : Options) : made o (c.output.map .output) =
      { o with output := c.output.getD o.output } := by cases c.output <;> rfl
  have hthreshold (o : Options) : made o (c.threshold.map .threshold) =
      { o with threshold := c.threshold.getD o.threshold } := by cases c.threshold <;> rfl
  have houtDir (o : Options) : made o (c.outDir.map .outDir) =
      { o with outDir := c.outDir.or o.outDir } := by cases c.outDir <;> rfl
  have hresults (o : Options) : made o (c.results.map .results) =
      { o with results := c.results.or o.results } := by cases c.results <;> rfl
  have hnode (o : Options) : made o (c.node.map .node) =
      { o with node := c.node.or o.node } := by cases c.node <;> rfl
  have hruleOrder (o : Options) : made o (c.ruleOrder.map .ruleOrder) =
      { o with ruleOrder := c.ruleOrder.or o.ruleOrder } := by cases c.ruleOrder <;> rfl
  have hemitCss (o : Options) : made o (if c.emitCss then some .emitCss else none) =
      { o with emitCss := c.emitCss || o.emitCss } := by cases c.emitCss <;> rfl
  have hfail (o : Options) : made o (if c.failOnWarnings then some .failOnWarnings else none) =
      { o with failOnWarnings := c.failOnWarnings || o.failOnWarnings } := by
    cases c.failOnWarnings <;> rfl
  have hverbose (o : Options) : made o (if c.verbose then some .verbose else none) =
      { o with verbose := c.verbose || o.verbose } := by cases c.verbose <;> rfl
  rw [settings, List.foldl_append, foldl_put_patterns, foldl_put_filterMap, once]
  simp only [List.foldl_cons, List.foldl_nil, hworkspace, hconfig, houtput, hthreshold, houtDir,
    hresults, hnode, hruleOrder, hemitCss, hfail, hverbose, Option.or_none, Bool.or_false, options]

end Choice

-- Whatever is chosen, in whatever order and spelling it is written: the command line is read, and
-- gives the values and flags that were chosen, the defaults for all else, and the patterns in the
-- order in which they stand on the line.
theorem parse_of_choice (c : Choice) {settings : List Setting} {groups : List (List String)}
    (horder : settings.Perm c.settings) (hwritten : List.Forall₂ Setting.Written settings groups) :
    parse groups.flatten = .ok { c.options with ignore := patterns settings } := by
  have hdistinct : Distinct settings := c.distinct_settings.perm horder.symm
  rw [parse_of_written hdistinct hwritten, foldl_put_perm hdistinct horder, c.foldl_put_settings]

-- Values that look like options or hold an equals sign, an empty one, and patterns apart.
def mixedChoice : Choice where
  workspace := some ⟨"-a=b"⟩
  config := some ⟨""⟩
  output := some .humanVerbose
  ignore := ["--json", "output"]
  ruleOrder := some .compiler
  emitCss := true
  verbose := true

def mixedSettings : List Setting := [
  .ignore "output", .verbose, .config ⟨""⟩, .ruleOrder .compiler, .ignore "--json",
  .output .humanVerbose, .emitCss, .workspace ⟨"-a=b"⟩]

def mixedGroups : List (List String) := [
  ["--ignore", "output"], ["-v"], ["--config", ""], ["--rule-order=compiler"],
  ["--ignore=--json"], ["--output", "human-verbose"], ["--emit-css"], ["--workspace=-a=b"]]

theorem parse_of_choice_mixed :
    mixedSettings.Perm mixedChoice.settings ∧
      List.Forall₂ Setting.Written mixedSettings mixedGroups ∧
      parse mixedGroups.flatten = .ok {
        workspace := ⟨"-a=b"⟩
        config := some ⟨""⟩
        output := .humanVerbose
        ignore := ["output", "--json"]
        ruleOrder := some .compiler
        emitCss := true
        verbose := true } := by
  have horder : mixedSettings.Perm mixedChoice.settings := by decide
  have hcompiler := @Setting.Written.attached (.ruleOrder .compiler) "compiler" rfl
  have hjson := @Setting.Written.attached (.ignore "--json") "--json" rfl
  have hdir := @Setting.Written.attached (.workspace ⟨"-a=b"⟩) "-a=b" rfl
  have hwritten : List.Forall₂ Setting.Written mixedSettings mixedGroups :=
    .cons (.apart rfl (by decide)) <| .cons .letter <| .cons (.apart rfl (by decide)) <|
      .cons hcompiler <| .cons hjson <| .cons (.apart rfl (by decide)) <| .cons (.flag rfl) <|
      .cons hdir .nil
  exact ⟨horder, hwritten, parse_of_choice mixedChoice horder hwritten⟩

end EmbeddedStyles.Options
