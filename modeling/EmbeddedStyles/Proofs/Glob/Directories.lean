import EmbeddedStyles.Glob
import EmbeddedStyles.Proofs.Text.Bytes

namespace EmbeddedStyles.Glob

open Text (slash)

namespace Expression

def Matches : Expression → List UInt8 → Prop
  | .empty, bs => bs = []
  | .byte b, bs => bs = [b]
  | .any, bs => ∃ b, bs = [b]
  | .run, _ => True
  | .optional b, bs => bs = [] ∨ bs = [b]
  | .oneOf negated ranges, bs => ∃ b, inRanges negated ranges b = true ∧ bs = [b]
  | .seq first second, bs => ∃ xs ys, bs = xs ++ ys ∧ first.Matches xs ∧ second.Matches ys
  | .alt first second, bs => first.Matches bs ∨ second.Matches bs
  | .group inside, bs => inside.Matches bs

end Expression

theorem afterOne_iff {ok : UInt8 → Bool} {rest : List UInt8 → Bool} {bs : List UInt8} :
    afterOne ok rest bs = true ↔ ∃ b ys, bs = b :: ys ∧ ok b = true ∧ rest ys = true := by
  cases bs <;> simp [afterOne]

theorem afterRun_iff {rest : List UInt8 → Bool} {bs : List UInt8} :
    afterRun rest bs = true ↔ ∃ xs ys, bs = xs ++ ys ∧ rest ys = true := by
  induction bs with
  | nil => simp [afterRun]
  | cons b bs ih =>
    rw [afterRun, Bool.or_eq_true, ih]
    constructor
    · rintro (h | ⟨xs, ys, rfl, h⟩)
      · exact ⟨[], b :: bs, rfl, h⟩
      · exact ⟨b :: xs, ys, rfl, h⟩
    · rintro ⟨xs, ys, hsplit, h⟩
      cases xs with
      | nil =>
        rw [List.nil_append] at hsplit
        exact .inl (hsplit ▸ h)
      | cons x xs =>
        rw [List.cons_append, List.cons_eq_cons] at hsplit
        exact .inr ⟨xs, ys, hsplit.2, h⟩

namespace Expression

-- An expression takes some first bytes that it matches and leaves the others to what comes after.
theorem accepts_iff (e : Expression) (rest : List UInt8 → Bool) (bs : List UInt8) :
    e.accepts rest bs = true ↔ ∃ xs ys, bs = xs ++ ys ∧ e.Matches xs ∧ rest ys = true := by
  induction e generalizing rest bs with
  | empty => simp [accepts, Matches]
  | byte b => simp [accepts, Matches, afterOne_iff]
  | any =>
    simp only [accepts, Matches, afterOne_iff, true_and]
    constructor
    · rintro ⟨b, ys, rfl, h⟩
      exact ⟨[b], ys, rfl, ⟨b, rfl⟩, h⟩
    · rintro ⟨xs, ys, rfl, ⟨b, rfl⟩, h⟩
      exact ⟨b, ys, rfl, h⟩
  | run => simp [accepts, Matches, afterRun_iff]
  | optional b =>
    simp only [accepts, Matches, Bool.or_eq_true, afterOne_iff, decide_eq_true_eq]
    constructor
    · rintro (h | ⟨b, ys, rfl, rfl, h⟩)
      · exact ⟨[], bs, rfl, .inl rfl, h⟩
      · exact ⟨[b], ys, rfl, .inr rfl, h⟩
    · rintro ⟨xs, ys, rfl, rfl | rfl, h⟩
      · exact .inl h
      · exact .inr ⟨b, ys, rfl, rfl, h⟩
  | oneOf negated ranges =>
    simp only [accepts, Matches, afterOne_iff]
    constructor
    · rintro ⟨b, ys, rfl, hb, h⟩
      exact ⟨[b], ys, rfl, ⟨b, hb, rfl⟩, h⟩
    · rintro ⟨xs, ys, rfl, ⟨b, hb, rfl⟩, h⟩
      exact ⟨b, ys, rfl, hb, h⟩
  | seq first second ihf ihs =>
    simp only [accepts, Matches, ihf, ihs]
    constructor
    · rintro ⟨xs, zs, rfl, hx, ys, rest, rfl, hy, h⟩
      exact ⟨xs ++ ys, rest, by simp, ⟨xs, ys, rfl, hx, hy⟩, h⟩
    · rintro ⟨zs, rest, rfl, ⟨xs, ys, rfl, hx, hy⟩, h⟩
      exact ⟨xs, ys ++ rest, by simp, hx, ys, rest, rfl, hy, h⟩
  | alt first second ihf ihs =>
    simp only [accepts, Matches, Bool.or_eq_true, ihf, ihs]
    constructor
    · rintro (⟨xs, ys, rfl, hx, h⟩ | ⟨xs, ys, rfl, hx, h⟩)
      · exact ⟨xs, ys, rfl, .inl hx, h⟩
      · exact ⟨xs, ys, rfl, .inr hx, h⟩
    · rintro ⟨xs, ys, rfl, hx | hx, h⟩
      · exact .inl ⟨xs, ys, rfl, hx, h⟩
      · exact .inr ⟨xs, ys, rfl, hx, h⟩
  | group inside ih => exact ih rest bs

theorem takes_iff (e : Expression) (bs : List UInt8) : e.takes bs = true ↔ e.Matches bs := by
  rw [takes_eq_accepts, accepts_iff]
  simp

theorem sequence_cons_matches (e : Expression) (es : List Expression) (bs : List UInt8) :
    (sequence (e :: es)).Matches bs ↔
      ∃ xs ys, bs = xs ++ ys ∧ e.Matches xs ∧ (sequence es).Matches ys := by
  cases es with
  | nil => simp [sequence, Matches]
  | cons next es => rfl

theorem ofBytes_matches (literal bs : List UInt8) :
    (ofBytes literal).Matches bs ↔ bs = literal := by
  induction literal generalizing bs with
  | nil => rfl
  | cons b literal ih =>
    have hcons : (ofBytes (b :: literal)).Matches bs ↔
        ∃ xs ys, bs = xs ++ ys ∧ (byte b).Matches xs ∧ (ofBytes literal).Matches ys :=
      sequence_cons_matches (.byte b) (literal.map .byte) bs
    rw [hcons]
    simp [ih, Matches]

end Expression

namespace Token

open Expression

theorem separator_matches (bs : List UInt8) : separator.Matches bs ↔ bs = [slash] := by
  have hbytes : bytesOf Path.separator = [slash] := by decide +kernel
  rw [separator, ofBytes_matches, hbytes]

-- Directories in front: nothing, or anything that ends with a separator.
theorem recursiveStart_matches {e : Expression} (h : recursiveStart.expression? = some e)
    (bs : List UInt8) : e.Matches bs ↔ bs = [] ∨ ∃ xs, bs = xs ++ [slash] := by
  obtain rfl := Option.some_inj.mp h
  have hbyte : Path.separator.toUInt8 = slash := by decide
  simp only [Matches, separator_matches, hbyte, true_and]
  constructor
  · rintro ((rfl | rfl) | ⟨xs, ys, rfl, rfl⟩)
    · exact .inl rfl
    · exact .inr ⟨[], rfl⟩
    · exact .inr ⟨xs, rfl⟩
  · rintro (rfl | ⟨xs, rfl⟩)
    · exact .inl (.inl rfl)
    · exact .inr ⟨xs, [slash], rfl, rfl⟩

theorem recursiveEnd_matches {e : Expression} (h : recursiveEnd.expression? = some e)
    (bs : List UInt8) : e.Matches bs ↔ ∃ ys, bs = slash :: ys := by
  obtain rfl := Option.some_inj.mp h
  simp [Matches, separator_matches]

-- Characters that stand for themselves take their own bytes.
theorem sequence_literals_matches (cs : List Char) (es : List Expression) (bs : List UInt8) :
    (sequence ((cs.map literal).filterMap expression? ++ es)).Matches bs ↔
      ∃ ys, bs = (String.ofList cs).toUTF8.toList ++ ys ∧ (sequence es).Matches ys := by
  induction cs generalizing bs with
  | nil => simp
  | cons c cs ih =>
    have hbytes : (String.ofList (c :: cs)).toUTF8.toList =
        bytesOf c ++ (String.ofList cs).toUTF8.toList := by
      rw [bytesOf, Text.toList_toUTF8, Text.toList_toUTF8, Text.toList_toUTF8]
      simp
    have hcons : (List.map literal (c :: cs)).filterMap expression? ++ es =
        ofBytes (bytesOf c) :: ((cs.map literal).filterMap expression? ++ es) := rfl
    rw [hcons, sequence_cons_matches, hbytes]
    simp only [ofBytes_matches, ih]
    constructor
    · rintro ⟨xs, zs, rfl, rfl, ys, rfl, h⟩
      exact ⟨ys, by simp, h⟩
    · rintro ⟨ys, rfl, h⟩
      exact ⟨bytesOf c, _, by rw [List.append_assoc], rfl, ys, rfl, h⟩

end Token

-- The glob for everything in directories of one name.
def inside (name : String) : Glob where
  text := "**/" ++ name ++ "/**"
  tokens := .recursiveStart :: name.toList.map .literal ++ [.recursiveEnd]

theorem inside_accepts_iff (name path : String) :
    (inside name).accepts path = true ↔
      ∃ xs ys, path.toUTF8.toList = xs ++ name.toUTF8.toList ++ slash :: ys ∧
        (xs = [] ∨ ∃ zs, xs = zs ++ [slash]) := by
  obtain ⟨front, hfront⟩ : ∃ e, Token.recursiveStart.expression? = some e := ⟨_, rfl⟩
  obtain ⟨back, hback⟩ : ∃ e, Token.recursiveEnd.expression? = some e := ⟨_, rfl⟩
  have hexpression : (inside name).expression =
      .sequence (front :: ((name.toList.map .literal).filterMap Token.expression? ++ [back])) := by
    have hbranch : (inside name).tokens.filterMap Token.expression? =
        front :: ((name.toList.map .literal).filterMap Token.expression? ++ [back]) := by
      simp [inside, hfront, hback]
    rw [Glob.expression]
    split
    next h => simp [inside] at h
    next => simp [Token.branch?, hbranch]
  rw [accepts, Expression.takes_iff, hexpression, Expression.sequence_cons_matches]
  simp only [Token.recursiveStart_matches hfront, Token.sequence_literals_matches,
    String.ofList_toList, Expression.sequence, Token.recursiveEnd_matches hback]
  constructor
  · rintro ⟨xs, rest, hpath, hxs, tail, rfl, ys, rfl⟩
    exact ⟨xs, ys, by rw [hpath, List.append_assoc], hxs⟩
  · rintro ⟨xs, ys, hpath, hxs⟩
    exact ⟨xs, _, by rw [hpath, List.append_assoc], hxs, _, rfl, ys, rfl⟩

theorem mem_dropLast_iff {α : Type} {x : α} {xs : List α} :
    x ∈ xs.dropLast ↔ ∃ before after, xs = before ++ x :: after ∧ after ≠ [] := by
  constructor
  · intro h
    obtain ⟨before, after, hsplit⟩ := List.append_of_mem h
    have hne : xs ≠ [] := by
      rintro rfl
      simp at h
    refine ⟨before, after ++ [xs.getLast hne], ?_, by simp⟩
    conv_lhs => rw [← List.dropLast_append_getLast hne, hsplit]
    simp
  · rintro ⟨before, after, rfl, hafter⟩
    rw [List.dropLast_append_of_ne_nil (by simp), List.dropLast_cons_of_ne_nil hafter]
    simp

-- Of a path that is put together from names, the glob sees the names of its directories.
theorem inside_accepts_intercalate {name : String} {names : List String}
    (hname : '/' ∉ name.toList) (hnames : ∀ n ∈ names, '/' ∉ n.toList) (hne : names ≠ []) :
    (inside name).accepts ("/".intercalate names) = true ↔ name ∈ names.dropLast := by
  rw [inside_accepts_iff, mem_dropLast_iff]
  constructor
  · rintro ⟨xs, ys, hpath, hxs⟩
    have hfree : slash ∉ name.toUTF8.toList := by rwa [Text.slash_mem_toUTF8_iff]
    -- Both sides are cut at the separators.
    rw [Text.toList_toUTF8_intercalate] at hpath
    have hsplit := congrArg (List.splitOn slash) hpath
    rw [List.splitOn_intercalate _ ?_ (by simpa using hne)] at hsplit
    · obtain ⟨before, hbefore⟩ : ∃ before, (xs ++ name.toUTF8.toList ++ slash :: ys).splitOn slash =
          before ++ name.toUTF8.toList :: ys.splitOn slash := by
        rcases hxs with rfl | ⟨zs, rfl⟩
        · exact ⟨[], List.splitOn_append_cons_self_of_not_mem hfree ys⟩
        · refine ⟨zs.splitOn slash, ?_⟩
          rw [List.append_assoc, List.append_assoc, List.singleton_append,
            List.splitOn_append_cons_self, List.splitOn_append_cons_self_of_not_mem hfree]
      rw [hbefore, List.map_eq_append_iff] at hsplit
      obtain ⟨front, rest, rfl, -, hrest⟩ := hsplit
      obtain ⟨name', after, rfl, hname', hafter⟩ := List.map_eq_cons_iff.mp hrest
      obtain rfl := Text.toList_toUTF8_inj.mp hname'
      refine ⟨front, after, rfl, ?_⟩
      rintro rfl
      exact List.splitOn_ne_nil slash ys hafter.symm
    · intro bytes hbytes
      obtain ⟨n, hn, rfl⟩ := List.mem_map.mp hbytes
      rw [Text.slash_mem_toUTF8_iff]
      exact hnames n hn
  · rintro ⟨before, after, rfl, hafter⟩
    have hslash : "/".toUTF8.toList = [slash] := by decide +kernel
    have hrest : "/".intercalate (name :: after) = name ++ "/" ++ "/".intercalate after :=
      String.intercalate_cons_of_ne_nil hafter
    by_cases hbefore : before = []
    · refine ⟨[], ("/".intercalate after).toUTF8.toList, ?_, .inl rfl⟩
      rw [hbefore, List.nil_append, hrest, Text.toList_toUTF8_append, Text.toList_toUTF8_append,
        hslash]
      simp
    · refine ⟨("/".intercalate before ++ "/").toUTF8.toList,
        ("/".intercalate after).toUTF8.toList, ?_,
        .inr ⟨("/".intercalate before).toUTF8.toList, ?_⟩⟩
      · rw [String.intercalate_append_of_ne_nil hbefore (by simp), hrest]
        simp only [Text.toList_toUTF8_append, hslash, List.append_assoc, List.cons_append,
          List.nil_append]
      · rw [Text.toList_toUTF8_append, hslash]

end EmbeddedStyles.Glob
