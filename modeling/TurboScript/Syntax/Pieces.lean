import Mathlib.Data.List.Infix
import Mathlib.Logic.Relation
import TurboScript.Syntax.Lexer

/- The pieces of a text: what one pass of the scanner consumes.

   `pieceAt` says, from the text at the cursor and the token before it alone, whether a pass
   returns a token or skips a comment, a newline or blanks, and how long that is. Every piece
   has a byte at least and lies inside the text (`pieceAt_bounds`), a skipped piece is what it
   is called (`pieceAt_skip`), and a pass does what the piece says (`lexStart_piece`,
   `lexStart_none`). -/
namespace TurboScript.Syntax
open Lib

inductive PieceKind where
  | token (t : TokenType)
  | lineComment
  | blockComment (closed : Bool)
  | newline
  | blanks
  deriving DecidableEq, Repr

structure Piece where
  kind : PieceKind
  length : Nat
  deriving DecidableEq, Repr

/-- How many bytes stand before the closing of a comment, or before the end, and whether the
comment is closed. -/
def commentBody : List Char → Nat × Bool
  | [] => (0, false)
  | c :: rest =>
    if c = '*' ∧ rest.head? = some '/' then (0, true)
    else ((commentBody rest).1 + 1, (commentBody rest).2)

def commentLength (s : List Char) : Nat :=
  if (commentBody s).2 then (commentBody s).1 + 2 else (commentBody s).1

/-- The piece that a rule's match of `n` bytes comes to. -/
def Rule.piece (rule : Rule) (last : Option TokenType) (text : List Char) (n : Nat) : Option Piece :=
  match rule with
  | .fixed _ t => some ⟨.token t, n⟩
  | .slash =>
    if regexCanStartAfter last then (scanRegexLiteral text).map fun n => ⟨.token .regex, n⟩
    else some ⟨.token .divide, n⟩
  | .string => some ⟨.token .string, n⟩
  | .template => some ⟨.token .template, n⟩
  | .lineComment => some ⟨.lineComment, n⟩
  | .blockComment =>
    some ⟨.blockComment (commentBody (text.drop n)).2, n + commentLength (text.drop n)⟩
  | .newline => some ⟨.newline, n⟩
  | .blanks => some ⟨.blanks, n⟩
  | .number => some ⟨.token (numberToken (text.take n)).1, n⟩
  | .ident => some ⟨.token .variable, n⟩

def pieceAt (last : Option TokenType) (text : List Char) : Option Piece :=
  (pick Rule.rx text rules).bind fun found => found.2.piece last text found.1

/-! The rules. -/

section Rules
variable {text : List Char} {n : Nat} {rule : Rule}

theorem rules_nonempty : ∀ rule ∈ rules, rule.rx.nullable = false := by decide +kernel

theorem pick_match (h : pick Rule.rx text rules = some (n, rule)) :
    rule ∈ rules ∧ 0 < n ∧ n ≤ text.length ∧ rule.rx.Matches (text.take n) ∧
      ∀ m, m ≤ text.length → rule.rx.Matches (text.take m) → m ≤ n := by
  obtain ⟨hlong, _, front, back, heq, _⟩ := pick_spec h
  have hmem : rule ∈ rules := by simp [heq]
  obtain ⟨hn, hmatch, hmax⟩ := Rx.longest_spec hlong
  refine ⟨hmem, ?_, hn, hmatch, hmax⟩
  by_contra hzero
  obtain rfl : n = 0 := by omega
  rw [List.take_zero, ← Rx.nullable_iff, rules_nonempty rule hmem] at hmatch
  cases hmatch

variable {x : List Char}

theorem matches_slash : Rule.slash.rx.Matches x ↔ x = ['/'] := Rx.matches_word

theorem matches_blockComment : Rule.blockComment.rx.Matches x ↔ x = ['/', '*'] := Rx.matches_word

theorem matches_newline : Rule.newline.rx.Matches x ↔ x = ['\n'] :=
  Rx.matches_word

theorem matches_blanks : Rule.blanks.rx.Matches x ↔ x ≠ [] ∧ ∀ c ∈ x, isBlank c = true := Rx.matches_plus

theorem matches_lineComment :
    Rule.lineComment.rx.Matches x ↔ ∃ body, x = '/' :: '/' :: body ∧ '\n' ∉ body := by
  have hbody : ∀ body : List Char, (∀ c ∈ body, (c != '\n') = true) ↔ '\n' ∉ body := by
    intro body
    constructor
    · intro h hmem
      simpa using h _ hmem
    · intro h c hc
      simpa using fun heq : c = '\n' => h (heq ▸ hc)
  show (Rx.seq (.word ['/', '/']) (.many fun c => c != '\n')).Matches x ↔ _
  simp only [Rx.matches_seq, Rx.matches_word, Rx.matches_many, hbody]
  constructor
  · rintro ⟨y, z, rfl, rfl, hz⟩
    exact ⟨z, rfl, hz⟩
  · rintro ⟨body, rfl, h⟩
    exact ⟨['/', '/'], body, rfl, rfl, h⟩

theorem drop_of_take_eq {w : List Char} (h : text.take n = w) (hn : n ≤ text.length) :
    n = w.length ∧ text = w ++ text.drop n := by
  constructor
  · rw [← h, List.length_take, Nat.min_eq_left hn]
  · rw [← h, List.take_append_drop]

end Rules

/-! Comments. -/

theorem commentBody_le (s : List Char) : (commentBody s).1 ≤ s.length := by
  induction s with
  | nil => exact Nat.le_refl 0
  | cons c rest ih =>
    rw [commentBody]
    split
    · exact Nat.zero_le _
    · exact Nat.succ_le_succ ih

theorem commentBody_splits (s : List Char) : s = s.take (commentBody s).1 ++
      (if (commentBody s).2 then '*' :: '/' :: s.drop ((commentBody s).1 + 2) else []) := by
  induction s with
  | nil => rfl
  | cons c rest ih =>
    rw [commentBody]
    by_cases h : c = '*' ∧ rest.head? = some '/'
    · rw [if_pos h]
      obtain ⟨rfl, hhead⟩ := h
      cases rest with
      | nil => cases hhead
      | cons d rest =>
        obtain rfl : d = '/' := by simpa using hhead
        rfl
    · rw [if_neg h, List.take_succ_cons, List.cons_append]
      exact congrArg (c :: ·) ih

theorem commentBody_open (s : List Char) : ¬['*', '/'] <:+: s.take (commentBody s).1 := by
  induction s with
  | nil => simp [commentBody]
  | cons c rest ih =>
    rw [commentBody]
    by_cases h : c = '*' ∧ rest.head? = some '/'
    · simp [if_pos h]
    · rw [if_neg h, List.take_succ_cons, List.infix_cons_iff]
      intro hclose
      cases hclose with
      | inr hclose => exact ih hclose
      | inl hclose =>
        obtain ⟨hc, hrest⟩ := List.cons_prefix_cons.mp hclose
        refine h ⟨hc.symm, ?_⟩
        obtain ⟨tail, htail⟩ := hrest
        cases rest with
        | nil => simp at htail
        | cons d rest =>
          cases hn : (commentBody (d :: rest)).1 with
          | zero => simp [hn] at htail
          | succ k =>
            rw [hn, List.take_succ_cons] at htail
            simpa using (List.cons.inj htail).1.symm

theorem commentLength_le (s : List Char) : commentLength s ≤ s.length := by
  have hle := commentBody_le s
  have hsplit := congrArg List.length (commentBody_splits s)
  unfold commentLength
  split
  · rename_i h
    simp only [h, if_true, List.length_append, List.length_take, List.length_cons] at hsplit
    omega
  · exact hle

theorem take_commentLength (s : List Char) : s.take (commentLength s) =
      s.take (commentBody s).1 ++ if (commentBody s).2 then ['*', '/'] else [] := by
  have hsplit := commentBody_splits s
  have hle := commentBody_le s
  unfold commentLength
  cases hclosed : (commentBody s).2 with
  | true =>
    rw [hclosed, if_pos rfl] at hsplit
    have hbody : (s.take (commentBody s).1).length = (commentBody s).1 := by
      rw [List.length_take]
      omega
    have htake := congrArg (List.take ((s.take (commentBody s).1).length + 2)) hsplit
    rw [List.take_length_add_append, hbody] at htake
    rw [if_pos rfl, if_pos rfl, htake]
    rfl
  | false => simp

/-! Regular expressions. -/

theorem regexBody_lt {s : List Char} : ∀ {escaped inClass : Bool} {k : Nat},
    regexBody s escaped inClass = some k → k < s.length := by
  induction s with
  | nil => intro _ _ _ h; cases h
  | cons c rest ih =>
    intro escaped inClass k h
    have hnext : ∀ {escaped inClass : Bool},
        (regexBody rest escaped inClass).map (· + 1) = some k → k < (c :: rest).length := by
      intro escaped inClass hmap
      obtain ⟨j, hj, rfl⟩ := Option.map_eq_some_iff.mp hmap
      exact Nat.succ_lt_succ (ih hj)
    rw [regexBody] at h
    split at h
    · cases h
    · split at h
      · exact hnext h
      · split at h
        · exact hnext h
        · split at h
          · exact hnext h
          · split at h
            · exact hnext h
            · split at h
              · obtain rfl : 0 = k := by simpa using h
                exact Nat.succ_pos _
              · exact hnext h

theorem scanRegexLiteral_bounds {text : List Char} {n : Nat} (h : scanRegexLiteral text = some n) :
    0 < n ∧ n ≤ text.length := by
  obtain ⟨k, hk, rfl⟩ := Option.map_eq_some_iff.mp h
  have hlt := regexBody_lt hk
  have hflags := ((List.takeWhile_prefix isalpha (l := text.drop (k + 2)))).length_le
  rw [List.length_drop] at hflags
  rw [List.length_tail] at hlt
  omega

/-! Pieces. -/

section Pieces
variable {last : Option TokenType} {text : List Char} {piece : Piece}

theorem pieceAt_eq_some (h : pieceAt last text = some piece) :
    ∃ n rule, pick Rule.rx text rules = some (n, rule) ∧ rule.piece last text n = some piece := by
  obtain ⟨⟨n, rule⟩, hpick, hpiece⟩ := Option.bind_eq_some_iff.mp h
  exact ⟨n, rule, hpick, hpiece⟩

theorem pieceAt_bounds (h : pieceAt last text = some piece) :
    0 < piece.length ∧ piece.length ≤ text.length := by
  obtain ⟨n, rule, hpick, hpiece⟩ := pieceAt_eq_some h
  obtain ⟨_, hpos, hle, _⟩ := pick_match hpick
  cases rule with
  | slash =>
    rw [Rule.piece] at hpiece
    split at hpiece
    · obtain ⟨m, hm, rfl⟩ := Option.map_eq_some_iff.mp hpiece
      exact scanRegexLiteral_bounds hm
    · cases hpiece
      exact ⟨hpos, hle⟩
  | blockComment =>
    cases hpiece
    have hcomment := commentLength_le (text.drop n)
    rw [List.length_drop] at hcomment
    exact ⟨Nat.add_pos_left hpos _, show n + commentLength (text.drop n) ≤ _ by omega⟩
  | fixed | string | template | lineComment | newline | blanks | number | ident =>
    cases hpiece
    exact ⟨hpos, hle⟩

/-! Skipped pieces. -/

/-- What may be skipped at the front of a text: a blank, a newline, a comment up to the end of
its line, a comment up to the closing that comes first, or, where there is no closing, the rest
of the text. -/
inductive Skip : List Char → List Char → Prop where
  | blank {c : Char} {rest : List Char} (h : isBlank c = true) : Skip (c :: rest) rest
  | newline {rest : List Char} : Skip ('\n' :: rest) rest
  | lineComment {body rest : List Char} (hbody : '\n' ∉ body)
      (hend : rest = [] ∨ rest.head? = some '\n') : Skip ('/' :: '/' :: (body ++ rest)) rest
  | blockComment {body rest : List Char} (hbody : ¬['*', '/'] <:+: body) :
      Skip ('/' :: '*' :: (body ++ '*' :: '/' :: rest)) rest
  | openComment {body : List Char} (hbody : ¬['*', '/'] <:+: body) :
      Skip ('/' :: '*' :: body) []

def Skips : List Char → List Char → Prop := Relation.ReflTransGen Skip

theorem skips_blanks {x rest : List Char} (h : ∀ c ∈ x, isBlank c = true) : Skips (x ++ rest) rest := by
  induction x with
  | nil => exact .refl
  | cons c x ih =>
    obtain ⟨hc, hx⟩ := List.forall_mem_cons.mp h
    exact .head (.blank hc) (ih hx)

theorem skip_comment (s : List Char) : Skip ('/' :: '*' :: s) (s.drop (commentLength s)) := by
  have hsplit := commentBody_splits s
  have hopen := commentBody_open s
  unfold commentLength
  cases hclosed : (commentBody s).2 with
  | true =>
    rw [hclosed, if_pos rfl] at hsplit
    rw [if_pos rfl]
    have h := @Skip.blockComment _ (s.drop ((commentBody s).1 + 2)) hopen
    rwa [← hsplit] at h
  | false =>
    simp only [hclosed, Bool.false_eq_true, if_false, List.append_nil] at hsplit ⊢
    rw [← hsplit] at hopen
    have hlen : s.drop (commentBody s).1 = [] := by
      rw [List.drop_eq_nil_iff]
      have hlength := congrArg List.length hsplit
      rw [List.length_take] at hlength
      omega
    rw [hlen]
    exact .openComment hopen

theorem skip_lineComment {text : List Char} {n : Nat} (hn : n ≤ text.length)
    (hmatch : Rule.lineComment.rx.Matches (text.take n))
    (hmax : ∀ m, m ≤ text.length → Rule.lineComment.rx.Matches (text.take m) → m ≤ n) :
    Skip text (text.drop n) := by
  obtain ⟨body, htake, hbody⟩ := matches_lineComment.mp hmatch
  have hend : text.drop n = [] ∨ (text.drop n).head? = some '\n' := by
    cases hrest : text.drop n with
    | nil => exact .inl rfl
    | cons c rest =>
      refine .inr ?_
      by_contra hc
      have hlt : n < text.length := by
        by_contra hge
        rw [List.drop_eq_nil_of_le (by omega)] at hrest
        cases hrest
      have hget : text[n]? = some c := by
        rw [← List.head?_drop, hrest]
        rfl
      have hlonger : Rule.lineComment.rx.Matches (text.take (n + 1)) := by
        rw [List.take_add_one, hget, htake]
        refine matches_lineComment.mpr ⟨body ++ [c], by simp, ?_⟩
        simp only [List.mem_append, List.mem_singleton, not_or]
        exact ⟨hbody, fun heq => hc (by rw [← heq]; rfl)⟩
      have := hmax (n + 1) hlt hlonger
      omega
  have h := Skip.lineComment hbody hend
  have htext : '/' :: '/' :: (body ++ text.drop n) = text := by
    rw [← List.cons_append, ← List.cons_append, ← htake, List.take_append_drop]
  rwa [htext] at h

theorem pieceAt_skip (h : pieceAt last text = some piece)
    (hkind : ∀ t, piece.kind ≠ .token t) : Skips text (text.drop piece.length) := by
  obtain ⟨n, rule, hpick, hpiece⟩ := pieceAt_eq_some h
  obtain ⟨_, _, hn, hmatch, hmax⟩ := pick_match hpick
  cases rule with
  | slash =>
    rw [Rule.piece] at hpiece
    split at hpiece
    · obtain ⟨m, _, rfl⟩ := Option.map_eq_some_iff.mp hpiece
      exact absurd rfl (hkind _)
    · cases hpiece
      exact absurd rfl (hkind _)
  | fixed | string | template | number | ident =>
    cases hpiece
    exact absurd rfl (hkind _)
  | lineComment =>
    cases hpiece
    exact .single (skip_lineComment hn hmatch hmax)
  | blockComment =>
    cases hpiece
    obtain ⟨rfl, htext⟩ := drop_of_take_eq (matches_blockComment.mp hmatch) hn
    have h := skip_comment (text.drop 2)
    rw [List.drop_drop] at h
    have hfront : '/' :: '*' :: text.drop 2 = text := htext.symm
    rw [hfront] at h
    exact .single h
  | newline =>
    cases hpiece
    obtain ⟨rfl, htext⟩ := drop_of_take_eq (matches_newline.mp hmatch) hn
    rw [htext]
    exact .single .newline
  | blanks =>
    cases hpiece
    have h := @skips_blanks _ (text.drop n) (matches_blanks.mp hmatch).2
    rwa [List.take_append_drop] at h

end Pieces

/-! Passes. -/

def PieceKind.last (kind : PieceKind) (last : Option TokenType) : Option TokenType :=
  match kind with
  | .token t => some t
  | _ => last

/-- What the loop of a block comment does to the position. -/
def Position.comment (pos : Position) (s : List Char) : Position :=
  let inside := (s.take (commentBody s).1).foldl Position.byte pos
  if (commentBody s).2 then ⟨(inside.byte '*').line, toInt ((inside.byte '*').column + 2)⟩
  else inside

theorem commentLoop_eq (s : List Char) : ∀ (cursor : Nat) (pos : Position),
    commentLoop s cursor pos = (cursor + commentLength s, pos.comment s) := by
  induction s with
  | nil => exact fun _ _ => rfl
  | cons c rest ih =>
    intro cursor pos
    rw [commentLoop]
    unfold commentLength Position.comment
    rw [commentBody]
    by_cases h : c = '*' ∧ rest.head? = some '/'
    · obtain ⟨rfl, hhead⟩ := h
      simp [hhead]
    · simp only [if_neg h, ih, List.take_succ_cons, List.foldl_cons, commentLength,
        Position.comment, Prod.mk.injEq, and_true]
      split <;> omega

def Position.across (pos : Position) (piece : Piece) (text : List Char) : Position :=
  match piece.kind with
  | .token _ => pos.forward piece.length
  | .lineComment => pos
  | .blockComment _ => pos.comment (text.drop 2)
  | .newline => ⟨toInt (pos.line + 1), 1⟩
  | .blanks => pos.forward piece.length

def Lexer.across (lexer : Lexer) (piece : Piece) (text : List Char) : Lexer :=
  { lexer with
    cursor := lexer.cursor + piece.length
    position := lexer.position.across piece text
    lastToken := piece.kind.last lexer.lastToken }

section Passes
variable {input : List Char} {lexer : Lexer} {piece : Piece}

theorem act_piece {rule : Rule} {text : List Char} {n : Nat} (hn : n ≤ text.length)
    (hmatch : rule.rx.Matches (text.take n))
    (h : rule.piece lexer.lastToken text n = some piece) :
    match piece.kind with
    | .token t => ∃ value, rule.act lexer text n =
        .returns (.token ⟨t, lexer.cursor, piece.length, value, lexer.position⟩) (lexer.across piece text)
    | _ => rule.act lexer text n = .again (lexer.across piece text) := by
  cases rule with
  | slash =>
    rw [Rule.piece] at h
    by_cases hstart : regexCanStartAfter lexer.lastToken = true
    · rw [if_pos hstart] at h
      obtain ⟨m, hm, rfl⟩ := Option.map_eq_some_iff.mp h
      refine ⟨none, ?_⟩
      simp only [Rule.act, hstart, hm, if_true]
      rfl
    · rw [if_neg hstart] at h
      cases h
      refine ⟨none, ?_⟩
      simp only [Rule.act, hstart, Bool.false_eq_true, if_false]
      rfl
  | fixed | string | template | ident =>
    cases h
    exact ⟨none, rfl⟩
  | number =>
    cases h
    exact ⟨_, rfl⟩
  | lineComment | newline | blanks =>
    cases h
    rfl
  | blockComment =>
    cases h
    obtain ⟨rfl, _⟩ := drop_of_take_eq (matches_blockComment.mp hmatch) hn
    simp only [Rule.act, commentLoop_eq, Lexer.across, Position.across, Nat.add_assoc]
    rfl

theorem lexStart_piece (h : pieceAt lexer.lastToken (input.drop lexer.cursor) = some piece) :
    match piece.kind with
    | .token t => ∃ value, lexStart input lexer =
        .returns (.token ⟨t, lexer.cursor, piece.length, value, lexer.position⟩)
          (lexer.across piece (input.drop lexer.cursor))
    | _ => lexStart input lexer = .again (lexer.across piece (input.drop lexer.cursor)) := by
  obtain ⟨n, rule, hpick, hpiece⟩ := pieceAt_eq_some h
  obtain ⟨_, _, hn, hmatch, _⟩ := pick_match hpick
  have hact : lexStart input lexer = rule.act lexer (input.drop lexer.cursor) n := by
    unfold lexStart
    rw [hpick]
  rw [hact]
  exact act_piece hn hmatch hpiece

theorem lexStart_none (h : pieceAt lexer.lastToken (input.drop lexer.cursor) = none) :
    ∃ message, lexStart input lexer = .returns
      (if input.drop lexer.cursor = [] then .eof lexer.position else .error)
      { lexer with error := message } := by
  unfold lexStart
  cases hpick : pick Rule.rx (input.drop lexer.cursor) rules with
  | none =>
    refine ⟨lexer.error, ?_⟩
    by_cases hend : input.drop lexer.cursor = []
    · simp only [hend, if_true]
    · simp only [hend, if_false]
  | some found =>
    obtain ⟨n, rule⟩ := found
    obtain ⟨_, hpos, hn, _⟩ := pick_match hpick
    have hne : input.drop lexer.cursor ≠ [] := List.ne_nil_of_length_pos (by omega)
    simp only [pieceAt, hpick, Option.bind_some] at h
    cases rule with
    | slash =>
      rw [Rule.piece] at h
      by_cases hstart : regexCanStartAfter lexer.lastToken = true
      · rw [if_pos hstart, Option.map_eq_none_iff] at h
        refine ⟨"Unterminated regex literal at line " ++ toString lexer.position.line, ?_⟩
        simp only [Rule.act, hstart, h, if_true, hne, if_false]
      · rw [if_neg hstart] at h
        cases h
    | fixed | string | template | lineComment | blockComment | newline | blanks | number | ident =>
      cases h

/-! The tokens of a call. -/

/-- The type of a rule whose token is fixed. -/
def Rule.fixedToken : Rule → Option TokenType
  | .fixed _ t => some t
  | _ => none

theorem fixedToken_special : ∀ rule ∈ rules,
    rule.fixedToken ≠ some .regex ∧ rule.fixedToken ≠ some .integer ∧
      rule.fixedToken ≠ some .string ∧ rule.fixedToken ≠ some .template := by
  decide +kernel

theorem act_token {rule : Rule} {text : List Char} {n : Nat} {t : Token} {next : Lexer}
    (h : rule.act lexer text n = .returns (.token t) next) :
    t.start = lexer.cursor ∧ t.position = lexer.position := by
  have hret : ∀ {type : TokenType} {length : Nat} {value : Option NumValue},
      lexer.ret type length value = .returns (.token t) next →
        t.start = lexer.cursor ∧ t.position = lexer.position := by
    intro type length value h
    cases h
    exact ⟨rfl, rfl⟩
  cases rule with
  | slash =>
    rw [Rule.act] at h
    split at h
    · split at h
      · exact hret h
      · cases h
    · exact hret h
  | fixed | string | template | number | ident => exact hret h
  | lineComment | blockComment | newline | blanks => cases h

theorem passes_token {t : Token} {next : Lexer} : ∀ (n : Nat) (lexer : Lexer),
    passes input n lexer = some (.token t, next) →
      ∃ mid m rule, pick Rule.rx (input.drop mid.cursor) rules = some (m, rule) ∧
        rule.act mid (input.drop mid.cursor) m = .returns (.token t) next := by
  intro n
  induction n with
  | zero =>
    intro lexer h
    cases h
  | succ n ih =>
    intro lexer h
    rw [passes] at h
    cases hpass : lexStart input lexer with
    | again mid =>
      rw [hpass] at h
      exact ih mid h
    | returns result last =>
      rw [hpass] at h
      cases h
      unfold lexStart at hpass
      cases hpick : pick Rule.rx (input.drop lexer.cursor) rules with
      | none =>
        simp only [hpick] at hpass
        split at hpass <;> cases hpass
      | some found =>
        rw [hpick] at hpass
        exact ⟨lexer, found.1, found.2, hpick, hpass⟩

end Passes

end TurboScript.Syntax
