import EmbeddedStyles.Session
import EmbeddedStyles.Proofs.Source.ClosedForm

namespace EmbeddedStyles

open Source (Replacement Replacements)
open Source.Replacements (onLine)

-- What is asked of anything with a line and a column: setting the column does that and no more.
class LawfulLocated (α : Type) [Located α] : Prop where
  line_withColumn (x : α) (c : UInt32) : Located.line (Located.withColumn x c) = Located.line x
  column_withColumn (x : α) (c : UInt32) : Located.column (Located.withColumn x c) = c
  withColumn_withColumn (x : α) (c d : UInt32) :
    Located.withColumn (Located.withColumn x c) d = Located.withColumn x d
  withColumn_column (x : α) : Located.withColumn x (Located.column x) = x

attribute [simp] LawfulLocated.line_withColumn LawfulLocated.column_withColumn
  LawfulLocated.withColumn_withColumn LawfulLocated.withColumn_column

instance : LawfulLocated Lint.Warning where
  line_withColumn _ _ := rfl
  column_withColumn _ _ := rfl
  withColumn_withColumn _ _ _ := rfl
  withColumn_column _ := rfl

instance : LawfulLocated Source.Position where
  line_withColumn _ _ := rfl
  column_withColumn _ _ := rfl
  withColumn_withColumn _ _ _ := rfl
  withColumn_column _ := rfl

-- The rule for a column on the line of a replacement: beyond the placeholder it drifts, inside it
-- goes to the end of the span, or to its start if the span goes on on other lines.
def Source.Replacement.adjust (r : Replacement) (column : UInt32) : UInt32 :=
  if r.placeholderEnd < column then clampColumn (column.toNat + r.drift)
  else if r.span.start.column ≤ column ∧ column < r.placeholderEnd then
    if r.span.singleLine then UInt32.ofNat (r.span.stop.column.toNat - 1) else r.span.start.column
  else column

theorem Source.Replacement.correctColumn_eq_adjust (r : Replacement) (line column : UInt32) :
    r.correctColumn line column = if line = r.span.start.line then r.adjust column else column := by
  by_cases hline : line = r.span.start.line
  · simp [correctColumn, adjust, pinned, hline]
  · rw [correctColumn_of_ne hline, if_neg hline]

namespace Located

variable {α : Type} [Located α]

-- What one replacement does to one warning.
def adjustBy (r : Replacement) (x : α) : α :=
  if line x = r.span.start.line then withColumn x (r.adjust (column x)) else x

-- Each replacement in turn adjusts all warnings before the next one comes.
def sweep (rs : Replacements) (xs : List α) : List α :=
  rs.foldl (fun xs r => xs.map (adjustBy r)) xs

@[simp] theorem sweep_nil (xs : List α) : sweep [] xs = xs := rfl

@[simp] theorem sweep_cons (r : Replacement) (rs : Replacements) (xs : List α) :
    sweep (r :: rs) xs = sweep rs (xs.map (adjustBy r)) := rfl

variable [LawfulLocated α]

@[simp] theorem correct_nil (x : α) : correct [] x = x := by
  simp [correct]

-- The first replacement adjusts the warning, which stays on its line, and the others go on from
-- there.
theorem correct_cons (r : Replacement) (rs : Replacements) (x : α) :
    correct (r :: rs) x = correct rs (adjustBy r x) := by
  rw [correct, Replacements.correctColumn_cons, Replacement.correctColumn_eq_adjust, adjustBy]
  by_cases hline : line x = r.span.start.line
  · simp [correct, hline]
  · simp [correct, hline]

theorem sweep_eq_map_correct (rs : Replacements) (xs : List α) :
    sweep rs xs = xs.map (correct rs) := by
  induction rs generalizing xs with
  | nil =>
    have hid : correct ([] : Replacements) = (id : α → α) := funext correct_nil
    rw [sweep_nil, hid, List.map_id]
  | cons r rs ih =>
    rw [sweep_cons, ih, List.map_map]
    exact List.map_congr_left fun x _ => (correct_cons r rs x).symm

omit [LawfulLocated α] in
-- Of all replacements those that start on the line of a warning decide, in their order.
theorem correct_congr {rs rs' : Replacements} {x : α}
    (h : onLine (line x) rs = onLine (line x) rs') : correct rs x = correct rs' x := by
  rw [correct, correct, ← Replacements.correctColumn_onLine, h, Replacements.correctColumn_onLine]

end Located

namespace Session

open Located (correct line sweep)

variable {α : Type} [Located α]

theorem correct?_of_replacements? {s : Session} {file : Path} {rs : Replacements}
    (h : s.replacements? file = some rs) (xs : List α) :
    s.correct? file xs = some (xs.map (correct rs)) := by
  rw [correct?, h]
  rfl

-- Picking warnings by their places and correcting them may be done in either order.
theorem correct?_pick (s : Session) (file : Path) (xs : List α) (order : List Nat) :
    s.correct? file (order.filterMap (xs[·]?)) =
      (s.correct? file xs).map fun ys => order.filterMap (ys[·]?) := by
  simp only [correct?, Option.map_map]
  congr 1
  funext rs
  simp [List.map_filterMap, List.getElem?_map]

-- A session corrects the warnings of a file as if each of its replacements swept over all of them
-- in turn. A warning is corrected by the replacements of its own line alone, so that lists of
-- replacements which agree line by line correct everything alike; and warnings in any other order
-- give the same results in that order.
theorem correct?_eq_sweep [LawfulLocated α] (s : Session) (file : Path) (xs : List α) :
    s.correct? file xs = (s.replacements? file).map (fun rs => sweep rs xs) ∧
    (∀ (rs rs' : Replacements) (x : α), onLine (line x) rs = onLine (line x) rs' →
      correct rs x = correct rs' x) ∧
    (∀ (s' : Session) (file' : Path) (rs rs' : Replacements), s.replacements? file = some rs →
      s'.replacements? file' = some rs' → (∀ l, onLine l rs = onLine l rs') →
      s.correct? file xs = s'.correct? file' xs) ∧
    ∀ order : List Nat, s.correct? file (order.filterMap (xs[·]?)) =
      (s.correct? file xs).map fun ys => order.filterMap (ys[·]?) := by
  refine ⟨?_, fun rs rs' x => Located.correct_congr, ?_, s.correct?_pick file xs⟩
  · rw [correct?]
    congr 1
    funext rs
    exact (Located.sweep_eq_map_correct rs xs).symm
  · intro s' file' rs rs' hrs hrs' hlines
    rw [correct?_of_replacements? hrs, correct?_of_replacements? hrs']
    congr 1
    exact List.map_congr_left fun x _ => Located.correct_congr (hlines (line x))

def crowdedSession : Session :=
  ({} : Session).remember ⟨"a.js"⟩ Replacements.crowded

-- The replacement of the second line after those of the first.
def regroupedSession : Session :=
  ({} : Session).remember ⟨"b.js"⟩ (onLine 1 Replacements.crowded ++ onLine 2 Replacements.crowded)

def crowdedWarnings : List Lint.Warning :=
  [⟨1, 25, []⟩, ⟨2, 8, []⟩, ⟨1, 50, [("rule", .string "color")]⟩]

theorem correct?_eq_sweep_crowded :
    crowdedSession.correct? ⟨"a.js"⟩ crowdedWarnings =
      some (sweep Replacements.crowded crowdedWarnings) ∧
    (sweep Replacements.crowded crowdedWarnings).map (·.column) = [32, 5, 53] ∧
    crowdedSession.correct? ⟨"a.js"⟩ crowdedWarnings =
      regroupedSession.correct? ⟨"b.js"⟩ crowdedWarnings ∧
    crowdedSession.correct? ⟨"a.js"⟩ ([2, 0, 1].filterMap (crowdedWarnings[·]?)) =
      (crowdedSession.correct? ⟨"a.js"⟩ crowdedWarnings).map fun ys =>
        [2, 0, 1].filterMap (ys[·]?) := by
  obtain ⟨hsweep, -, hlines, horder⟩ := correct?_eq_sweep crowdedSession ⟨"a.js"⟩ crowdedWarnings
  have hregrouped : ∀ l, onLine l Replacements.crowded =
      onLine l (onLine 1 Replacements.crowded ++ onLine 2 Replacements.crowded) := by
    intro l
    by_cases h1 : 1 = l
    · subst h1
      decide
    · by_cases h2 : 2 = l
      · subst h2
        decide
      · simp [onLine, Replacements.crowded, h1, h2]
  exact ⟨hsweep, by decide, hlines regroupedSession ⟨"b.js"⟩ _ _ rfl rfl hregrouped,
    horder [2, 0, 1]⟩

end Session

end EmbeddedStyles
