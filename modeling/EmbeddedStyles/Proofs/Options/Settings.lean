import EmbeddedStyles.Options
import EmbeddedStyles.Proofs.Json.Reading

namespace EmbeddedStyles.Options

section Spelling

def Name.long : Name → String
  | .valued .workspace => "workspace"
  | .valued .config => "config"
  | .valued .output => "output"
  | .valued .threshold => "threshold"
  | .valued .outDir => "out-dir"
  | .valued .results => "results"
  | .valued .ignore => "ignore"
  | .valued .node => "node"
  | .valued .ruleOrder => "rule-order"
  | .flag .emitCss => "emit-css"
  | .flag .failOnWarnings => "fail-on-warnings"
  | .flag .verbose => "verbose"
  | .flag .help => "help"
  | .flag .version => "version"

def formatName : Report.Format → String
  | .human => "human"
  | .humanVerbose => "human-verbose"
  | .json => "json"
  | .machine => "machine"

def thresholdName : Threshold → String
  | .error => "error"
  | .warning => "warning"

def ruleOrderName : RuleOrder → String
  | .source => "source"
  | .compiler => "compiler"

theorem lookup_long (name : Name) : names.lookup name.long = some name := by
  cases name with
  | valued option => cases option <;> rfl
  | flag flag => cases flag <;> rfl

theorem long_ne_nil (name : Name) : name.long.toList ≠ [] := by
  cases name with
  | valued option => cases option <;> decide
  | flag flag => cases flag <;> decide

theorem equals_notMem_long (name : Name) : '=' ∉ name.long.toList := by
  cases name with
  | valued option => cases option <;> decide
  | flag flag => cases flag <;> decide

theorem choose_formatName (format : Report.Format) :
    choose formats (formatName format) = .ok format := by
  cases format <;> rfl

theorem choose_thresholdName (least : Threshold) :
    choose thresholds (thresholdName least) = .ok least := by
  cases least <;> rfl

theorem choose_ruleOrderName (order : RuleOrder) :
    choose ruleOrders (ruleOrderName order) = .ok order := by
  cases order <;> rfl

end Spelling

-- One thing that is chosen on a command line.
inductive Setting where
  | workspace (dir : Path)
  | config (file : Path)
  | output (format : Report.Format)
  | threshold (least : Threshold)
  | outDir (dir : Path)
  | results (file : Path)
  | ignore (pattern : String)
  | node (program : Path)
  | ruleOrder (order : RuleOrder)
  | emitCss
  | failOnWarnings
  | verbose
  deriving DecidableEq, Repr

namespace Setting

def name : Setting → Name
  | .workspace _ => .valued .workspace
  | .config _ => .valued .config
  | .output _ => .valued .output
  | .threshold _ => .valued .threshold
  | .outDir _ => .valued .outDir
  | .results _ => .valued .results
  | .ignore _ => .valued .ignore
  | .node _ => .valued .node
  | .ruleOrder _ => .valued .ruleOrder
  | .emitCss => .flag .emitCss
  | .failOnWarnings => .flag .failOnWarnings
  | .verbose => .flag .verbose

-- The text to which an option is set. A flag has none.
def value? : Setting → Option String
  | .workspace path => some path.text
  | .config path => some path.text
  | .output format => some (formatName format)
  | .threshold least => some (thresholdName least)
  | .outDir path => some path.text
  | .results path => some path.text
  | .ignore pattern => some pattern
  | .node path => some path.text
  | .ruleOrder order => some (ruleOrderName order)
  | .emitCss => none
  | .failOnWarnings => none
  | .verbose => none

-- The arguments with which a setting may be written. A value that starts with a dash is attached.
inductive Written : Setting → List String → Prop
  | attached {s : Setting} {value : String} (hvalue : s.value? = some value) :
      Written s ["--" ++ s.name.long ++ "=" ++ value]
  | apart {s : Setting} {value : String} (hvalue : s.value? = some value)
      (hdash : value.toList.head? ≠ some '-') : Written s ["--" ++ s.name.long, value]
  | flag {s : Setting} (hvalue : s.value? = none) : Written s ["--" ++ s.name.long]
  | letter : Written .verbose ["-v"]

def pattern? : Setting → Option String
  | .ignore pattern => some pattern
  | _ => none

-- The options with the setting made. Patterns are gathered apart, since their order counts.
def put : Setting → Options → Options
  | .workspace path, o => { o with workspace := path }
  | .config path, o => { o with config := some path }
  | .output format, o => { o with output := format }
  | .threshold least, o => { o with threshold := least }
  | .outDir path, o => { o with outDir := some path }
  | .results path, o => { o with results := some path }
  | .ignore _, o => o
  | .node path, o => { o with node := some path }
  | .ruleOrder order, o => { o with ruleOrder := some order }
  | .emitCss, o => { o with emitCss := true }
  | .failOnWarnings, o => { o with failOnWarnings := true }
  | .verbose, o => { o with verbose := true }

def add (s : Setting) (o : Options) : Options :=
  { s.put o with ignore := o.ignore ++ s.pattern?.toList }

@[simp] theorem put_ignored (s : Setting) (o : Options) (patterns : List String) :
    s.put { o with ignore := patterns } = { s.put o with ignore := patterns } := by
  cases s <;> rfl

@[simp] theorem ignore_put (s : Setting) (o : Options) : (s.put o).ignore = o.ignore := by
  cases s <;> rfl

theorem add_of_pattern_none {s : Setting} (h : s.pattern? = none) (o : Options) :
    s.add o = s.put o := by
  rw [add, h, Option.toList_none, List.append_nil, ← ignore_put s o]

theorem exists_option_of_value {s : Setting} {value : String} (h : s.value? = some value) :
    ∃ option, s.name = .valued option ∧ ∀ o, setValue o option value = .ok (s.add o) := by
  cases s with
  | emitCss | failOnWarnings | verbose => cases h
  | ignore pattern =>
    cases h
    exact ⟨_, rfl, fun o => rfl⟩
  | _ =>
    cases h
    refine ⟨_, rfl, fun o => ?_⟩
    rw [add_of_pattern_none (by rfl)]
    simp only [setValue, choose_formatName, choose_thresholdName, choose_ruleOrderName, ok_bind,
      pure_eq_ok, put]

end Setting

section Reading

variable {p q : Progress} {s : Setting} {value : String}

-- The setting can still be made.
def Progress.Admits (q : Progress) (s : Setting) : Prop :=
  s.name ∈ q.seen → s.name = .valued .ignore

-- The progress with one more setting made.
def Progress.after (q : Progress) (s : Setting) : Progress :=
  { q with options := s.add q.options, seen := s.name :: q.seen }

theorem mark_eq (h : q.Admits s) :
    q.mark s.name = .ok { q with seen := s.name :: q.seen } := by
  rw [Progress.mark, if_neg]
  simpa [Progress.Admits] using h

theorem give_eq {option : Valued} (h : q.Admits s) (hname : s.name = .valued option)
    (hset : ∀ o, setValue o option value = .ok (s.add o)) :
    q.give option value = .ok (q.after s) := by
  rw [Progress.give, ← hname, mark_eq h, ok_bind, hset, ok_bind]
  rfl

theorem exists_flag_of_value_none (h : s.value? = none) :
    ∃ flag, s.name = .flag flag ∧ ∀ {p q : Progress}, p.settle = .ok q → q.Admits s →
      p.raise flag = .ok (q.after s) := by
  cases s with
  | emitCss | failOnWarnings | verbose =>
    refine ⟨_, rfl, fun {p q} hp hq => ?_⟩
    have hmark := mark_eq hq
    rw [Setting.name] at hmark
    rw [Progress.raise, hp, ok_bind, Progress.after, Setting.add_of_pattern_none (by rfl)]
    simp only [hmark, ok_bind]
    rfl
  | _ => cases h

-- A name ends where the line ends or a value follows.
theorem cut_long (name : Name) {rest : List Char} (hrest : ∀ c ∈ rest.head?, c = '=') :
    (name.long.toList ++ rest).takeWhile (· ≠ '=') = name.long.toList ∧
      (name.long.toList ++ rest).dropWhile (· ≠ '=') = rest := by
  refine (Text.eq_append_run_iff fun c hc => ?_).mp ⟨rfl, fun c hc => ?_⟩
  · simp [hrest c hc]
  · have hne : c ≠ '=' := fun h => equals_notMem_long name (h ▸ hc)
    simpa using hne

theorem long_attached (p : Progress) (name : Name) (value : String) :
    p.long (name.long.toList ++ '=' :: value.toList) =
      match name with
      | .valued option => do (← p.settle).give option value
      | .flag _ => .error .tooManyValues := by
  obtain ⟨htake, hdrop⟩ := @cut_long name ('=' :: value.toList) (by simp)
  rw [Progress.long, htake, hdrop, String.ofList_toList, lookup_long]
  cases name with
  | valued option => simp only [String.ofList_toList]
  | flag flag => rfl

theorem long_bare (p : Progress) (name : Name) :
    p.long name.long.toList =
      match name with
      | .valued option => do return { (← p.settle) with pending := some (option, none) }
      | .flag flag => p.raise flag := by
  obtain ⟨htake, hdrop⟩ := @cut_long name [] (by simp)
  rw [List.append_nil] at htake hdrop
  rw [Progress.long, htake, hdrop, String.ofList_toList, lookup_long]
  cases name <;> rfl

theorem take_dashes {argument : String} {cs : List Char} (hopen : p.onlyOperands = false)
    (hcs : cs ≠ []) (hargument : argument.toList = '-' :: '-' :: cs) :
    p.take argument = p.long cs := by
  unfold Progress.take
  rw [if_neg (by simp [hopen]), hargument]
  cases cs with
  | nil => exact absurd rfl hcs
  | cons c cs => rfl

theorem take_operand (hopen : p.onlyOperands = false) (hdash : value.toList.head? ≠ some '-') :
    p.take value = p.operand value := by
  unfold Progress.take
  rw [if_neg (by simp [hopen])]
  split
  next h => simp [h] at hdash
  next h => simp [h] at hdash
  next h => simp [h] at hdash
  next => rfl

theorem take_attached (hopen : p.onlyOperands = false) (name : Name) (value : String) :
    p.take ("--" ++ name.long ++ "=" ++ value) =
      p.long (name.long.toList ++ '=' :: value.toList) :=
  take_dashes hopen (by simp) (by simp [String.toList_append])

theorem take_bare (hopen : p.onlyOperands = false) (name : Name) :
    p.take ("--" ++ name.long) = p.long name.long.toList :=
  take_dashes hopen (long_ne_nil name) (by simp [String.toList_append])

theorem settle_of_pending_none (h : q.pending = none) : q.settle = .ok q := by
  rw [Progress.settle, h]

theorem options_of_mark {name : Name} (h : p.mark name = .ok q) :
    q.pending = p.pending ∧ q.onlyOperands = p.onlyOperands := by
  rw [Progress.mark] at h
  split at h
  · cases h
  · cases h
    exact ⟨rfl, rfl⟩

theorem pending_of_settle (h : p.settle = .ok q) :
    q.pending = none ∧ q.onlyOperands = p.onlyOperands := by
  rw [Progress.settle] at h
  split at h
  next hp =>
    cases h
    exact ⟨hp, rfl⟩
  next => cases h
  next =>
    obtain ⟨marked, hmark, h⟩ := bind_eq_ok_iff.mp h
    obtain ⟨o, -, h⟩ := bind_eq_ok_iff.mp h
    cases h
    exact options_of_mark hmark

-- The arguments of one setting are taken as that setting, once whatever was open is settled.
theorem exists_of_written {group : List String} (hopen : p.onlyOperands = false)
    (hp : p.settle = .ok q) (hq : q.Admits s) (hw : s.Written group) :
    ∃ p', group.foldlM Progress.take p = .ok p' ∧ p'.onlyOperands = false ∧
      p'.settle = .ok (q.after s) := by
  obtain ⟨hpending, honly⟩ := pending_of_settle hp
  have hopen' : q.onlyOperands = false := honly.trans hopen
  have hsettled : (q.after s).settle = .ok (q.after s) := settle_of_pending_none hpending
  cases hw with
  | @attached _ value hvalue =>
    obtain ⟨option, hname, hset⟩ := Setting.exists_option_of_value hvalue
    refine ⟨q.after s, ?_, hopen', hsettled⟩
    rw [List.foldlM_cons, take_attached hopen, long_attached, hname]
    simp only [hp, ok_bind, give_eq hq hname hset, List.foldlM_nil, pure_eq_ok]
  | @apart _ value hvalue hdash =>
    obtain ⟨option, hname, hset⟩ := Setting.exists_option_of_value hvalue
    refine ⟨{ q with pending := some (option, some value) }, ?_, hopen', ?_⟩
    · rw [List.foldlM_cons, take_bare hopen, long_bare, hname]
      have hoperand := @take_operand { q with pending := some (option, none) } value hopen' hdash
      simp only [hp, ok_bind, pure_eq_ok, List.foldlM_cons, List.foldlM_nil, hoperand]
      rfl
    · have hq' : { q with pending := none } = q := by rw [← hpending]
      rw [Progress.settle]
      simp only [hq']
      exact give_eq hq hname hset
  | flag hvalue =>
    obtain ⟨flag, hname, hraise⟩ := exists_flag_of_value_none hvalue
    refine ⟨q.after s, ?_, hopen', hsettled⟩
    rw [List.foldlM_cons, take_bare hopen, long_bare, hname]
    simp only [hraise hp hq, ok_bind, List.foldlM_nil, pure_eq_ok]
  | letter =>
    obtain ⟨flag, hname, hraise⟩ := @exists_flag_of_value_none .verbose rfl
    cases hname
    refine ⟨q.after .verbose, ?_, hopen', hsettled⟩
    have htake : p.take "-v" = p.short ['v'] := by
      unfold Progress.take
      rw [if_neg (by simp [hopen])]
      rfl
    have hletter : letters.lookup 'v' = some .verbose := rfl
    rw [List.foldlM_cons, htake, Progress.short, hletter]
    simp only [hraise hp hq, ok_bind, Progress.short, List.foldlM_nil, pure_eq_ok]

-- No name but that of a pattern comes twice.
def Distinct (settings : List Setting) : Prop :=
  settings.Pairwise fun s t => t.name = s.name → t.name = .valued .ignore

-- A line of settings is taken setting by setting.
theorem exists_of_all_written {settings : List Setting} {groups : List (List String)}
    (hopen : p.onlyOperands = false) (hp : p.settle = .ok q)
    (hq : ∀ s ∈ settings, q.Admits s) (hdistinct : Distinct settings)
    (hw : List.Forall₂ Setting.Written settings groups) :
    ∃ p', groups.flatten.foldlM Progress.take p = .ok p' ∧
      p'.settle = .ok (settings.foldl Progress.after q) := by
  induction hw generalizing p q with
  | nil => exact ⟨p, rfl, hp⟩
  | @cons s group settings groups hs _ ih =>
    obtain ⟨hs_admitted, hrest⟩ := List.forall_mem_cons.mp hq
    obtain ⟨hs_apart, hdistinct⟩ := List.pairwise_cons.mp hdistinct
    obtain ⟨p₁, hgroup, hopen₁, hp₁⟩ := exists_of_written hopen hp hs_admitted hs
    have hadmitted : ∀ t ∈ settings, (q.after s).Admits t := by
      intro t ht hseen
      rcases List.mem_cons.mp hseen with hsame | hseen
      · exact hs_apart t ht hsame
      · exact hrest t ht hseen
    obtain ⟨p₂, hgroups, hp₂⟩ := ih hopen₁ hp₁ hadmitted hdistinct
    refine ⟨p₂, ?_, hp₂⟩
    rw [List.flatten_cons, List.foldlM_append, hgroup, ok_bind, hgroups]

theorem options_foldl_after (settings : List Setting) (q : Progress) :
    (settings.foldl Progress.after q).options =
      settings.foldl (fun o s => s.add o) q.options := by
  induction settings generalizing q with
  | nil => rfl
  | cons s settings ih => exact ih (q.after s)

-- The ignored patterns, from left to right.
def patterns (settings : List Setting) : List String :=
  settings.filterMap Setting.pattern?

theorem foldl_add (settings : List Setting) (o : Options) :
    settings.foldl (fun o s => s.add o) o =
      { settings.foldl (fun o s => s.put o) o with ignore := o.ignore ++ patterns settings } := by
  induction settings generalizing o with
  | nil => simp [patterns]
  | cons s settings ih =>
    have hput (o : Options) (ignored : List String) :
        settings.foldl (fun o s => s.put o) { o with ignore := ignored } =
          { settings.foldl (fun o s => s.put o) o with ignore := ignored } := by
      clear ih
      induction settings generalizing o with
      | nil => rfl
      | cons s settings ih => rw [List.foldl_cons, Setting.put_ignored, ih, List.foldl_cons]
    have hpatterns : patterns (s :: settings) = s.pattern?.toList ++ patterns settings := by
      cases hs : s.pattern? <;> simp [patterns, hs]
    rw [List.foldl_cons, ih, Setting.add, hput, List.foldl_cons, hpatterns, List.append_assoc]

theorem parse_of_written {settings : List Setting} {groups : List (List String)}
    (hdistinct : Distinct settings) (hw : List.Forall₂ Setting.Written settings groups) :
    parse groups.flatten =
      .ok { settings.foldl (fun o s => s.put o) {} with ignore := patterns settings } := by
  obtain ⟨p, hline, hp⟩ := @exists_of_all_written {} {} _ _ rfl rfl
    (by simp [Progress.Admits]) hdistinct hw
  rw [parse, hline, ok_bind, hp, ok_bind, options_foldl_after, foldl_add]
  rfl

end Reading

end EmbeddedStyles.Options
