import TurboScript.Exprtk.Value
import TurboScript.Syntax.Pieces

/- Regular expression literals: the scanner and the parser find the same closing slash.

   The scanner finds the end of a literal with a flag for the escape and a flag for the class
   (`scanRegexLiteral`); the parser scans the token again, two bytes for an escape, and copies
   the pattern into a buffer as it goes (`exprtkMakeRegexLiteral`). `patternLoop_regexBody` is
   the step from the one to the other, `regex_scanners_agree` what follows for every token. -/
namespace TurboScript.Syntax
open Lib Exprtk

inductive Overrun where
  | overrun
  deriving DecidableEq, Repr

/-- `pattern[pattern_len++] = c`. -/
def push (cap : Nat) (pattern : List Char) (c : Char) : Except Overrun (List Char) :=
  if pattern.length < cap then .ok (pattern ++ [c]) else .error .overrun

/-- The loop of `exprtk_make_regex_literal`, from index `p` of the token on: the index of the
closing slash, the pattern, and what stands behind the slash. -/
def patternLoop (cap : Nat) : List Char → Nat → Bool → List Char →
    Except Overrun (Option (Nat × List Char × List Char))
  | [], _, _, _ => .ok none
  | c :: rest, p, inClass, pattern =>
    match c, rest with
    | '\\', d :: rest =>
      if d = '/' then do
        let pattern ← push cap pattern '/'
        patternLoop cap rest (p + 2) inClass pattern
      else do
        let pattern ← push cap pattern '\\'
        let pattern ← push cap pattern d
        patternLoop cap rest (p + 2) inClass pattern
    | c, rest =>
      if c = '[' then do
        let pattern ← push cap pattern c
        patternLoop cap rest (p + 1) true pattern
      else if c = ']' ∧ inClass = true then do
        let pattern ← push cap pattern c
        patternLoop cap rest (p + 1) false pattern
      else if c = '/' ∧ inClass = false then .ok (some (p, pattern, rest))
      else do
        let pattern ← push cap pattern c
        patternLoop cap rest (p + 1) inClass pattern

inductive Made (D : Type) where
  | null
  | parseError (message : String)
  | node (n : Node D)

def stringNode {D : Type} (l : List Char) : Node D := .string (String.ofList l)

/-- `exprtk_make_regex_literal`, on the text of the token. -/
def exprtkMakeRegexLiteral (D : Type) (token : List Char) : Except Overrun (Made D) :=
  if token.length < 2 then .ok .null
  else do
    match ← patternLoop (token.length + 1) token.tail 1 false [] with
    | none => .ok (.parseError "Invalid regex literal")
    | some (_, pattern, flags) =>
      -- the NUL behind the pattern
      let _ ← push (token.length + 1) pattern '\x00'
      if 0 < flags.length then .ok (.node (.functionCall "RegExp" [stringNode pattern, stringNode flags]))
      else .ok (.node (.functionCall "RegExp" [stringNode pattern]))

/-- A body with every escaped slash replaced by the slash. -/
def slashUnescaped : List Char → List Char
  | [] => []
  | [c] => [c]
  | c :: d :: rest =>
    if c = '\\' then
      if d = '/' then '/' :: slashUnescaped rest else c :: d :: slashUnescaped rest
    else c :: slashUnescaped (d :: rest)

/-! One byte of a literal, for both scanners. -/

/-- Inside a class, behind the byte `c`. -/
def classAfter (c : Char) (inClass : Bool) : Bool :=
  if c = '[' then true else if c = ']' ∧ inClass = true then false else inClass

/-- A byte that stands for itself: no escape, no end of the line, not the closing slash. -/
def Plain (c : Char) (inClass : Bool) : Prop :=
  c ≠ '\n' ∧ c ≠ '\r' ∧ c ≠ '\\' ∧ ¬(c = '/' ∧ inClass = false)

section Bytes
variable {cap p : Nat} {c d : Char} {rest pattern : List Char} {inClass : Bool}

theorem push_ok (h : pattern.length < cap) : push cap pattern c = .ok (pattern ++ [c]) := by
  rw [push, if_pos h]

theorem regexBody_plain (h : Plain c inClass) : regexBody (c :: rest) false inClass =
      (regexBody rest false (classAfter c inClass)).map (· + 1) := by
  obtain ⟨hn, hr, hesc, hslash⟩ := h
  rw [regexBody, if_neg (by simp [hn, hr])]
  simp only [Bool.false_eq_true, if_false, hesc, hslash, classAfter]
  by_cases hopen : c = '['
  · simp only [hopen, if_true]
  · by_cases hclose : c = ']' ∧ inClass = true
    · simp only [if_neg hopen, if_pos hclose]
    · simp only [if_neg hopen, if_neg hclose]

theorem patternLoop_plain (h : Plain c inClass) (hcap : pattern.length < cap) :
    patternLoop cap (c :: rest) p inClass pattern =
      patternLoop cap rest (p + 1) (classAfter c inClass) (pattern ++ [c]) := by
  obtain ⟨_, _, hesc, hslash⟩ := h
  rw [patternLoop]
  · simp only [hslash, push_ok hcap, classAfter, if_false]
    by_cases hopen : c = '['
    · simp only [if_pos hopen]
      rfl
    · by_cases hclose : c = ']' ∧ inClass = true
      · simp only [if_neg hopen, if_pos hclose]
        rfl
      · simp only [if_neg hopen, if_neg hclose]
        rfl
  · intro d _ hc
    exact absurd hc hesc

theorem patternLoop_close :
    patternLoop cap ('/' :: rest) p false pattern = .ok (some (p, pattern, rest)) := by
  cases rest <;> rfl

theorem regexBody_escape (hn : d ≠ '\n') (hr : d ≠ '\r') : regexBody ('\\' :: d :: rest) false inClass =
      (regexBody rest false inClass).map (· + 2) := by
  have hinner : regexBody (d :: rest) true inClass = (regexBody rest false inClass).map (· + 1) := by
    rw [regexBody, if_neg (by simp [hn, hr]), if_pos rfl]
  rw [regexBody, if_neg (by decide), if_neg (by decide), if_pos rfl, hinner, Option.map_map]
  rfl

theorem patternLoop_escape (hcap : pattern.length + 1 < cap) :
    patternLoop cap ('\\' :: d :: rest) p inClass pattern = patternLoop cap rest (p + 2) inClass
        (pattern ++ if d = '/' then ['/'] else ['\\', d]) := by
  rw [patternLoop]
  by_cases hslash : d = '/'
  · rw [if_pos hslash, if_pos hslash, push_ok (by omega)]
    rfl
  · rw [if_neg hslash, if_neg hslash, push_ok (by omega)]
    show (push cap (pattern ++ ['\\']) d >>= fun pattern =>
      patternLoop cap rest (p + 2) inClass pattern) = _
    rw [push_ok (by simp only [List.length_append, List.length_singleton]; omega)]
    simp only [List.append_assoc]
    rfl

end Bytes

theorem slashUnescaped_cons {c : Char} (h : c ≠ '\\') (rest : List Char) :
    slashUnescaped (c :: rest) = c :: slashUnescaped rest := by
  cases rest with
  | nil => rfl
  | cons d rest => rw [slashUnescaped, if_neg h]

theorem slashUnescaped_escape (d : Char) (rest : List Char) : slashUnescaped ('\\' :: d :: rest) =
      (if d = '/' then ['/'] else ['\\', d]) ++ slashUnescaped rest := by
  rw [slashUnescaped, if_pos rfl]
  by_cases h : d = '/'
  · simp [h]
  · simp [h]

theorem slashUnescaped_length_le (l : List Char) : (slashUnescaped l).length ≤ l.length := by
  fun_induction slashUnescaped l <;> simp only [List.length_cons, List.length_nil] at * <;> omega

/-! The two scanners. -/

theorem regexBody_cases {s : List Char} {inClass : Bool} {k : Nat}
    (h : regexBody s false inClass = some k) :
    (∃ rest, s = '/' :: rest ∧ inClass = false ∧ k = 0) ∨
    (∃ c rest j, s = c :: rest ∧ Plain c inClass ∧ k = j + 1 ∧
      regexBody rest false (classAfter c inClass) = some j) ∨
    ∃ d rest j, s = '\\' :: d :: rest ∧ (d ≠ '\n' ∧ d ≠ '\r') ∧ k = j + 2 ∧
      regexBody rest false inClass = some j := by
  cases s with
  | nil => cases h
  | cons c rest =>
    have hline : ¬(c = '\n' ∨ c = '\r') := by
      intro hline
      rw [regexBody, if_pos hline] at h
      cases h
    by_cases hesc : c = '\\'
    · subst hesc
      cases rest with
      | nil => simp [regexBody] at h
      | cons d rest =>
        have hd : d ≠ '\n' ∧ d ≠ '\r' := by
          constructor <;>
          · rintro rfl
            simp [regexBody] at h
        rw [regexBody_escape hd.1 hd.2] at h
        obtain ⟨j, hj, rfl⟩ := Option.map_eq_some_iff.mp h
        exact .inr (.inr ⟨d, rest, j, rfl, hd, rfl, hj⟩)
    · by_cases hslash : c = '/' ∧ inClass = false
      · obtain ⟨rfl, rfl⟩ := hslash
        obtain rfl : 0 = k := by simpa [regexBody] using h
        exact .inl ⟨rest, rfl, rfl, rfl⟩
      · have hplain : Plain c inClass := by
          rw [not_or] at hline
          exact ⟨hline.1, hline.2, hesc, hslash⟩
        rw [regexBody_plain hplain] at h
        obtain ⟨j, hj, rfl⟩ := Option.map_eq_some_iff.mp h
        exact .inr (.inl ⟨c, rest, j, rfl, hplain, rfl, hj⟩)

/-- Where the scanner finds the closing slash, the parser's loop finds it, with the body's
slashes unescaped in a buffer that the body fits. -/
theorem patternLoop_regexBody {cap : Nat} : ∀ (n : Nat) {s : List Char} {inClass : Bool} {k p : Nat}
    {pattern : List Char}, s.length ≤ n → regexBody s false inClass = some k → pattern.length + k < cap →
      patternLoop cap s p inClass pattern =
        .ok (some (p + k, pattern ++ slashUnescaped (s.take k), s.drop (k + 1))) := by
  intro n
  induction n with
  | zero =>
    intro s inClass k p pattern hs h hcap
    obtain rfl : s = [] := List.eq_nil_of_length_eq_zero (by omega)
    cases h
  | succ n ih =>
    intro s inClass k p pattern hs h hcap
    obtain ⟨rest, rfl, rfl, rfl⟩ | ⟨c, rest, j, rfl, hplain, rfl, hj⟩ |
      ⟨d, rest, j, rfl, _, rfl, hj⟩ := regexBody_cases h
    · rw [patternLoop_close]
      simp [slashUnescaped]
    · rw [List.length_cons] at hs
      rw [patternLoop_plain hplain (by omega), ih (by omega) hj (by simp; omega),
        List.take_succ_cons, slashUnescaped_cons hplain.2.2.1, List.drop_succ_cons,
        List.append_assoc, show p + 1 + j = p + (j + 1) by omega]
      rfl
    · rw [List.length_cons, List.length_cons] at hs
      have hlen : (if d = '/' then ['/'] else ['\\', d]).length ≤ 2 := by split <;> simp
      rw [patternLoop_escape (by omega), ih (by omega) hj (by
          rw [List.length_append]; omega),
        List.take_succ_cons, List.take_succ_cons, slashUnescaped_escape, List.append_assoc,
        show p + 2 + j = p + (j + 2) by omega]
      rfl

theorem regexBody_local : ∀ (n : Nat) {s : List Char} {inClass : Bool} {k : Nat}, s.length ≤ n →
    regexBody s false inClass = some k → s = s.take k ++ '/' :: s.drop (k + 1) ∧
        ∀ behind, regexBody (s.take k ++ '/' :: behind) false inClass = some k := by
  intro n
  induction n with
  | zero =>
    intro s inClass k hs h
    obtain rfl : s = [] := List.eq_nil_of_length_eq_zero (by omega)
    cases h
  | succ n ih =>
    intro s inClass k hs h
    obtain ⟨rest, rfl, rfl, rfl⟩ | ⟨c, rest, j, rfl, hplain, rfl, hj⟩ |
      ⟨d, rest, j, rfl, hd, rfl, hj⟩ := regexBody_cases h
    · exact ⟨rfl, fun behind => rfl⟩
    · rw [List.length_cons] at hs
      obtain ⟨hsplit, hlocal⟩ := ih (by omega) hj
      refine ⟨congrArg (c :: ·) hsplit, fun behind => ?_⟩
      rw [List.take_succ_cons, List.cons_append, regexBody_plain hplain, hlocal]
      rfl
    · rw [List.length_cons, List.length_cons] at hs
      obtain ⟨hsplit, hlocal⟩ := ih (by omega) hj
      refine ⟨congrArg ('\\' :: d :: ·) hsplit, fun behind => ?_⟩
      rw [List.take_succ_cons, List.take_succ_cons, List.cons_append, List.cons_append,
        regexBody_escape hd.1 hd.2, hlocal]
      rfl

theorem literal_made {body flags : List Char}
    (h : regexBody (body ++ '/' :: flags) false false = some body.length) (D : Type) :
    patternLoop (('/' :: (body ++ '/' :: flags)).length + 1) (body ++ '/' :: flags) 1 false [] =
        .ok (some (1 + body.length, slashUnescaped body, flags)) ∧
      exprtkMakeRegexLiteral D ('/' :: (body ++ '/' :: flags)) =
        .ok (.node (.functionCall "RegExp" (stringNode (slashUnescaped body) ::
          if flags = [] then [] else [stringNode flags]))) := by
  have hlen := slashUnescaped_length_le body
  have hloop := @patternLoop_regexBody (('/' :: (body ++ '/' :: flags)).length + 1)
    (body ++ '/' :: flags).length _ _ _ 1 [] (Nat.le_refl _) h
    (by simp only [List.length_nil, List.length_cons, List.length_append]; omega)
  rw [List.take_left, ← List.drop_drop, List.drop_left, List.nil_append] at hloop
  refine ⟨hloop, ?_⟩
  unfold exprtkMakeRegexLiteral
  rw [if_neg (by simp only [List.length_cons, List.length_append]; omega), List.tail_cons, hloop]
  show (push _ (slashUnescaped body) '\x00' >>= fun _ => _) = _
  rw [push_ok (by simp only [List.length_cons, List.length_append]; omega)]
  cases flags with
  | nil | cons => rfl

/-! The tokens. -/

theorem regex_token {input : List Char} {lexer next : Lexer} {t : Token}
    (h : exprtkLexerNext input lexer = some (.token t, next)) (ht : t.type = .regex) :
    (∃ rest, input.drop t.start = '/' :: rest) ∧ scanRegexLiteral (input.drop t.start) = some t.length := by
  obtain ⟨mid, m, rule, hpick, hact⟩ := passes_token _ _ h
  obtain ⟨hmem, _, hm, hmatch, _⟩ := pick_match hpick
  cases rule with
  | fixed text type =>
    cases hact
    subst ht
    exact absurd rfl (fixedToken_special _ hmem).1
  | slash =>
    rw [Rule.act] at hact
    split at hact
    · cases hscan : scanRegexLiteral (input.drop mid.cursor) with
      | none =>
        rw [hscan] at hact
        cases hact
      | some length =>
        rw [hscan] at hact
        cases hact
        obtain ⟨_, htext⟩ := drop_of_take_eq (matches_slash.mp hmatch) hm
        exact ⟨⟨_, htext⟩, hscan⟩
    · cases hact
      cases ht
  | string | template | ident =>
    cases hact
    cases ht
  | number =>
    cases hact
    change (numberToken _).1 = .regex at ht
    unfold numberToken at ht
    split at ht <;> cases ht
  | lineComment | blockComment | newline | blanks => cases hact

/-- On every token of a regular expression the parser finds the closing slash where the
scanner found it, stays inside its buffer, and makes the call of `RegExp` with the body, its
escaped slashes unescaped, and the trailing letters, if there are any. -/
theorem regex_scanners_agree (D : Type) (input : List Char) (lexer next : Lexer) (t : Token)
    (h : exprtkLexerNext input lexer = some (.token t, next)) (ht : t.type = .regex) :
    ∃ body flags, (input.drop t.start).take t.length = '/' :: (body ++ '/' :: flags) ∧
      regexBody (input.drop (t.start + 1)) false false = some body.length ∧
      patternLoop (t.length + 1) (body ++ '/' :: flags) 1 false [] =
        .ok (some (1 + body.length, slashUnescaped body, flags)) ∧
      exprtkMakeRegexLiteral D ((input.drop t.start).take t.length) =
        .ok (.node (.functionCall "RegExp" (stringNode (slashUnescaped body) ::
          if flags = [] then [] else [stringNode flags]))) ∧
      (∀ c ∈ flags, isalpha c = true) ∧
      ∀ c, input[t.start + t.length]? = some c → isalpha c = false := by
  obtain ⟨⟨rest, htext⟩, hscan⟩ := regex_token h ht
  have hrest : input.drop (t.start + 1) = rest := by
    rw [← List.drop_drop, htext]
    rfl
  rw [htext] at hscan
  obtain ⟨k, hk, hlength⟩ := Option.map_eq_some_iff.mp hscan
  rw [List.tail_cons] at hk
  rw [List.drop_succ_cons] at hlength
  obtain ⟨hsplit, hlocal⟩ := regexBody_local rest.length (Nat.le_refl _) hk
  have hlt := regexBody_lt hk
  have hbody : (rest.take k).length = k := by
    rw [List.length_take]
    omega
  generalize hflags : (rest.drop (k + 1)).takeWhile isalpha = flags at hlength
  have hbehind : rest.drop (k + 1) = flags ++ (rest.drop (k + 1)).dropWhile isalpha := by
    rw [← hflags, List.takeWhile_append_dropWhile]
  have hwhole : rest = (rest.take k ++ '/' :: flags) ++ (rest.drop (k + 1)).dropWhile isalpha := by
    rw [List.append_assoc, List.cons_append, ← hbehind]
    exact hsplit
  have hlen : t.length = (rest.take k ++ '/' :: flags).length + 1 := by
    rw [← hlength, List.length_append, List.length_cons, hbody]
    omega
  have htoken : (input.drop t.start).take t.length = '/' :: (rest.take k ++ '/' :: flags) := by
    have htake := congrArg (List.take (rest.take k ++ '/' :: flags).length) hwhole
    rw [htext, hlen, List.take_succ_cons, htake, List.take_left]
  obtain ⟨hloop, hmade⟩ := @literal_made (rest.take k) flags (by rw [hlocal, hbody]) D
  refine ⟨rest.take k, flags, htoken, by rw [hrest, hk, hbody], by rw [hlen, ← List.length_cons,
    hloop], by rw [htoken, hmade], ?_, ?_⟩
  · intro c hc
    rw [← hflags] at hc
    exact List.all_eq_true.mp List.all_takeWhile c hc
  · intro c hc
    have hdrop : input.drop (t.start + t.length) = (rest.drop (k + 1)).dropWhile isalpha := by
      have hskip := congrArg (List.drop (rest.take k ++ '/' :: flags).length) hwhole
      rw [← List.drop_drop, htext, hlen, List.drop_succ_cons, hskip, List.drop_left]
    have hnot := List.head?_dropWhile_not isalpha (rest.drop (k + 1))
    rw [← hdrop, List.head?_drop, hc] at hnot
    simpa using hnot

/-- The literal `/a\/[/]/i`, behind an `=`. -/
theorem regex_scanners_agree_class : ∃ body flags,
    ("=/a\\/[/]/i;".toList.drop 1).take 9 = '/' :: (body ++ '/' :: flags) ∧
      regexBody ("=/a\\/[/]/i;".toList.drop 2) false false = some body.length ∧
      patternLoop 10 (body ++ '/' :: flags) 1 false [] =
        .ok (some (1 + body.length, slashUnescaped body, flags)) ∧
      exprtkMakeRegexLiteral Unit (("=/a\\/[/]/i;".toList.drop 1).take 9) =
        .ok (.node (.functionCall "RegExp" (stringNode (slashUnescaped body) ::
          if flags = [] then [] else [stringNode flags]))) ∧
      (∀ c ∈ flags, isalpha c = true) ∧
      ∀ c, "=/a\\/[/]/i;".toList[1 + 9]? = some c → isalpha c = false :=
  regex_scanners_agree Unit "=/a\\/[/]/i;".toList
    ⟨1, ⟨1, 2⟩, some .equal, ""⟩ ⟨10, ⟨1, 11⟩, some .regex, ""⟩ ⟨.regex, 1, 9, none, ⟨1, 2⟩⟩
    (by decide +kernel) rfl

end TurboScript.Syntax
