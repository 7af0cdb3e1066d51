import Mathlib.Data.List.TakeWhile
import TurboScript.Regex.Complete

/- Scanning a text for the matches of a pattern (`mod_regex.c`).

   `regex.find_all`, `regex.split` and `regex.replace` have a loop each, which restarts the matcher
   on the rest of the text and ends at an empty match. They divide a text in one way
   (`scan_agree`). Copies, lists and buffers are allocated without failure. -/
namespace TurboScript.Regex.Scan

/-- What the matcher reads of a text of the interpreter: it ends at a NUL. -/
def cText (text : List Char) : CString :=
  ⟨text.takeWhile (· ≠ '\x00'), fun h => by simpa using List.mem_takeWhile_imp h⟩

section Matcher
variable {malloc : Nat → Bool} {p : List Char} {e : Expr} {text : CString}

theorem reMatchp_inside {i n : Nat} (hacc : reCompile p = .ok true)
    (h : reMatchp malloc p text = .ok (some (i, n))) : i + n ≤ text.chars.length := by
  obtain ⟨e, rfl⟩ := tree_of_accepted hacc
  unfold reMatchp at h
  by_cases hneg : intOf text.chars.length < 0
  · rw [if_pos hneg] at h
    cases h
  · rw [if_neg hneg] at h
    obtain ⟨_, hle, _⟩ := intOf_nonneg hneg
    obtain ⟨hi, hrun⟩ := searchLoop_some hle _ _ _ _ h
    exact Nat.le_trans (forward_expr _ _ malloc e _ _ hi hrun).2 hle

theorem searchLoop_safe {textLen : Nat} (hlen : textLen ≤ text.chars.length)
    (hmax : textLen < 2147483647) (n idx : Nat) (hidx : idx ≤ textLen + 1)
    (hn : textLen + 1 < n + idx) :
    ∃ r, searchLoop malloc e.render text textLen n idx = .ok r := by
  induction n generalizing idx with
  | zero => omega
  | succ n ih =>
    by_cases hle : idx ≤ textLen
    · rw [searchLoop_step hlen hle]
      split
      · split <;> exact ⟨_, rfl⟩
      · rw [if_neg (by omega : ¬idx = 2147483647)]
        split
        · exact ⟨_, rfl⟩
        · exact ih (idx + 1) (by omega) (by omega)
    · rw [searchLoop, if_neg hle]
      exact ⟨_, rfl⟩

theorem reMatchp_safe (hacc : reCompile p = .ok true)
    (hmax : intOf text.chars.length ≠ 2147483647) : ∃ r, reMatchp malloc p text = .ok r := by
  obtain ⟨e, rfl⟩ := tree_of_accepted hacc
  unfold reMatchp
  by_cases hneg : intOf text.chars.length < 0
  · exact ⟨_, if_pos hneg⟩
  · obtain ⟨hint, hle, _⟩ := intOf_nonneg hneg
    rw [if_neg hneg]
    exact searchLoop_safe hle (by omega) _ 0 (Nat.zero_le _) (by simp)

/-- A pattern that matches nowhere: a character behind the end. -/
def behindEnd : Expr := .single (.anchor .eol (.item (.plain '.' rfl) none .empty))

theorem behindEnd_run (malloc : Nat → Bool) (text : List Char) (textLen pos : Nat) :
    behindEnd.run malloc text textLen pos = none := by
  by_cases h : pos = textLen <;> simp [behindEnd, Expr.run, Sequence.run, Anchor.once, Atom.once, eat, h]

theorem searchLoop_overflows (htext : 2147483647 ≤ text.chars.length) (n idx : Nat)
    (hidx : idx ≤ 2147483647) (hn : 2147483647 < n + idx) :
    searchLoop malloc behindEnd.render text 2147483647 n idx = .error .overflow := by
  induction n generalizing idx with
  | zero => omega
  | succ n ih =>
    rw [searchLoop_step htext hidx, behindEnd_run]
    simp only
    rw [if_neg (by decide)]
    split
    · rfl
    · exact ih (idx + 1) (by omega) (by omega)

/-- `re_matchp` runs without a fault on every accepted pattern, unless the length of the text is
the largest `int`: there the increment of its index overflows. -/
theorem search_safe_iff (text : CString) :
    (∀ malloc p, reCompile p = .ok true → ∃ r, reMatchp malloc p text = .ok r) ↔
      intOf text.chars.length ≠ 2147483647 := by
  constructor
  · intro h hmax
    obtain ⟨r, hr⟩ := h (fun _ => true) behindEnd.render (by decide +kernel)
    obtain ⟨_, hle, _⟩ := intOf_nonneg (n := text.chars.length) (by omega)
    have hnat : (intOf text.chars.length).toNat = 2147483647 := by omega
    unfold reMatchp at hr
    rw [if_neg (by omega), hnat, searchLoop_overflows (hnat ▸ hle) _ 0 (by omega) (by omega)] at hr
    cases hr
  · exact fun hmax _ _ hacc => reMatchp_safe hacc hmax

end Matcher

section Loops
variable (malloc : Nat → Bool) (p text : List Char)

def regexFind (cursor : Nat) : Option (Nat × Nat) :=
  if text.length ≤ cursor ∨ 2147483647 < text.length - cursor then none
  else if reCompile p = .ok true then
    match reMatchp malloc p (cText (text.drop cursor)) with
    | .ok (some (i, n)) => if n = 0 then none else some (cursor + i, cursor + i + n)
    | .ok none => none
    -- only on a text of 2^31 - 1 characters, where the matcher's index overflows
    | .error _ => none
  else none

variable {malloc p text}

theorem regexFind_bounds {cursor start stop : Nat}
    (h : regexFind malloc p text cursor = some (start, stop)) :
    cursor ≤ start ∧ start < stop ∧ stop ≤ text.length := by
  unfold regexFind at h
  split at h
  · cases h
  · rename_i hcursor
    split at h
    · rename_i hacc
      split at h
      · rename_i i n hm
        have hin := reMatchp_inside hacc hm
        have hlen := ((text.drop cursor).takeWhile_sublist (· ≠ '\x00')).length_le
        rw [List.length_drop] at hlen
        have hin : i + n ≤ ((text.drop cursor).takeWhile (· ≠ '\x00')).length := hin
        split at h
        · cases h
        · cases h
          omega
      · cases h
      · cases h
    · cases h

theorem regexFind_sound {e : Expr} (he : e.render = p) {cursor start stop : Nat}
    (h : regexFind malloc p text cursor = some (start, stop)) :
    e.Matches (cText (text.drop cursor)).chars (cText (text.drop cursor)).chars.length
      (start - cursor) (stop - cursor) := by
  subst he
  unfold regexFind at h
  split at h
  · cases h
  · rename_i hcursor
    split at h
    · split at h
      · rename_i i n hm
        have hlen := ((text.drop cursor).takeWhile_sublist (· ≠ '\x00')).length_le
        rw [List.length_drop] at hlen
        have hint := intOf_small (n := (cText (text.drop cursor)).chars.length) (by
          simp only [cText]
          omega)
        unfold reMatchp at hm
        rw [hint, if_neg (by omega), Int.toNat_natCast] at hm
        obtain ⟨hi, hrun⟩ := searchLoop_some (Nat.le_refl _) _ _ _ _ hm
        split at h
        · cases h
        · cases h
          rw [Nat.add_sub_cancel_left, Nat.add_assoc, Nat.add_sub_cancel_left]
          exact sound_expr _ _ malloc e _ _ hi hrun
      · cases h
      · cases h
    · cases h

def slice (text : List Char) (start stop : Nat) : List Char := (text.drop start).take (stop - start)

theorem slice_drop {start stop : Nat} (h : start ≤ stop) :
    slice text start stop ++ text.drop stop = text.drop start := by
  have hsplit := List.take_append_drop (stop - start) (text.drop start)
  rwa [List.drop_drop, Nat.add_sub_cancel' h] at hsplit

variable (malloc p text)

/-- The loop of `fn_regex_find_all`. -/
def findAll (cursor : Nat) : List (List Char) :=
  match _h : regexFind malloc p text cursor with
  | none => []
  | some (start, stop) => slice text start stop :: findAll stop
termination_by text.length - cursor
decreasing_by have := regexFind_bounds _h; omega

/-- The loop of `fn_regex_split`. -/
def split (limit : Int) (cursor splits : Nat) : List (List Char) :=
  if limit ≤ 0 ∨ splits < limit then
    match _h : regexFind malloc p text cursor with
    | none => [text.drop cursor]
    | some (start, stop) => slice text cursor start :: split limit stop (splits + 1)
  else [text.drop cursor]
termination_by text.length - cursor
decreasing_by have := regexFind_bounds _h; omega

/-- The loop of `fn_regex_replace`. -/
def replace (limit : Int) (replacement : List Char) (cursor replacements : Nat) : List Char :=
  if limit ≤ 0 ∨ replacements < limit then
    match _h : regexFind malloc p text cursor with
    | none => text.drop cursor
    | some (start, stop) =>
      slice text cursor start ++ (replacement ++ replace limit replacement stop (replacements + 1))
  else text.drop cursor
termination_by text.length - cursor
decreasing_by have := regexFind_bounds _h; omega

/-- A nonempty part of the text that matches on the rest of the text from some place on. -/
def Occurs (e : Expr) (w : List Char) : Prop :=
  ∃ c i, w ≠ [] ∧ w = slice text (c + i) (c + i + w.length) ∧
    e.Matches (cText (text.drop c)).chars (cText (text.drop c)).chars.length i (i + w.length)

theorem findAll_sound {e : Expr} (he : e.render = p) (cursor : Nat) :
    ∀ w ∈ findAll malloc p text cursor, Occurs text e w := by
  fun_induction findAll malloc p text cursor with
  | case1 => simp
  | case2 cursor start stop hfind ih =>
    obtain ⟨hstart, hstop, hlen⟩ := regexFind_bounds hfind
    have hlength : (slice text start stop).length = stop - start := by simp [slice]; omega
    refine List.forall_mem_cons.mpr ⟨⟨cursor, start - cursor, ?_, ?_, ?_⟩, ih⟩
    · exact List.ne_nil_of_length_pos (by omega)
    · rw [hlength, Nat.add_sub_cancel' hstart, Nat.add_sub_cancel' (Nat.le_of_lt hstop)]
    · rw [hlength, show start - cursor + (stop - start) = stop - cursor by omega]
      exact regexFind_sound he hfind

/-- Pieces with what stood behind each of them. -/
def rejoin (pieces seps : List (List Char)) : List Char :=
  (List.zipWith (· ++ ·) pieces (seps ++ [[]])).flatten

theorem split_ne_nil (limit : Int) (cursor splits : Nat) : split malloc p text limit cursor splits ≠ [] := by
  rw [split]
  split
  · split <;> simp
  · simp

/-- **One division of the text.** From any place on, `find_all` lists nonempty matches; the pieces of
`split` with the first of them between the pieces are the text, with all of them if there is no
limit, and `replace` is the pieces with the replacement between them. -/
theorem scan_agree (limit : Int) (replacement : List Char) (cursor splits : Nat) :
    let pieces := split malloc p text limit cursor splits
    let found := findAll malloc p text cursor
    (∀ e : Expr, e.render = p → ∀ w ∈ found, Occurs text e w) ∧
      rejoin pieces (found.take (pieces.length - 1)) = text.drop cursor ∧
      replace malloc p text limit replacement cursor splits = replacement.intercalate pieces ∧
      pieces.length ≤ found.length + 1 ∧ (limit ≤ 0 → pieces.length = found.length + 1) ∧
      (0 < limit → splits ≤ limit → splits + pieces.length ≤ limit + 1) := by
  intro pieces found
  subst pieces found
  refine ⟨fun e he => findAll_sound malloc p text he cursor, ?_⟩
  have hend (cursor : Nat) : rejoin [text.drop cursor] [] = text.drop cursor := by simp [rejoin]
  fun_induction split malloc p text limit cursor splits with
  | case1 cursor splits hlimit hfind =>
    have hfound : findAll malloc p text cursor = [] := by
      rw [findAll]
      split <;> simp_all
    have hreplace : replace malloc p text limit replacement cursor splits = text.drop cursor := by
      rw [replace, if_pos hlimit]
      split <;> simp_all
    simp [hfound, hreplace, hend, List.intercalate]
  | case2 cursor splits hlimit start stop hfind ih =>
    obtain ⟨hstart, hstop, hlen⟩ := regexFind_bounds hfind
    have hfound : findAll malloc p text cursor = slice text start stop :: findAll malloc p text stop := by
      rw [findAll]
      split <;> simp_all
    have hreplace : replace malloc p text limit replacement cursor splits = slice text cursor start ++
        (replacement ++ replace malloc p text limit replacement stop (splits + 1)) := by
      rw [replace, if_pos hlimit]
      split <;> simp_all
    obtain ⟨hjoin, hrep, hle, hall, hlim⟩ := ih
    obtain ⟨p, ps, hp⟩ := List.exists_cons_of_ne_nil (split_ne_nil malloc p text limit stop (splits + 1))
    rw [hp] at hjoin hrep hle hall hlim
    rw [hfound, hreplace, hrep, hp]
    refine ⟨?_, by simp [List.intercalate], by simpa using hle, by simpa using hall, ?_⟩
    · simp only [rejoin, List.length_cons, Nat.add_sub_cancel, List.take_succ_cons, List.cons_append,
        List.zipWith_cons_cons, List.flatten_cons] at hjoin ⊢
      rw [hjoin, List.append_assoc, slice_drop (Nat.le_of_lt hstop), slice_drop hstart]
    · intro hpos hle'
      simp at hlim ⊢
      omega
  | case3 cursor splits hlimit =>
    rw [replace, if_neg hlimit]
    refine ⟨hend cursor, by simp [List.intercalate], by simp, fun h => absurd h (by omega), ?_⟩
    simp

end Loops

end TurboScript.Regex.Scan
