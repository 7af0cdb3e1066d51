import Mathlib.Data.List.TakeWhile
import TurboScript.Syntax.Pieces

/- Lines and columns of the tokens.

   The position of a byte is one more than the newlines before it, and one more than the bytes
   since the last of them (`lineOf`, `columnOf`). The scanner keeps a line and a column of its
   own, and some pieces move them by something else: a line comment does not move the column,
   a closed block comment moves it by one too few, or sets it one too high if it has a newline,
   and a newline inside a string or a template counts as a column. `Drift.after` adds these up,
   `walk` follows the pieces of a text, and `positions_true_iff` says that the position of a
   token is true if and only if the pieces before it add up to nothing. -/
namespace TurboScript.Syntax
open Lib

def lineOf (before : List Char) : Nat := 1 + before.count '\n'

def columnOf (before : List Char) : Nat := 1 + (before.reverse.takeWhile (· != '\n')).length

structure Drift where
  line : Int
  column : Int
  deriving DecidableEq, Repr

def Drift.after (d : Drift) (kind : PieceKind) (before piece : List Char) : Drift :=
  match kind with
  | .token _ =>
    ⟨d.line - piece.count '\n', d.column + (columnOf before + piece.length - columnOf (before ++ piece))⟩
  | .lineComment => ⟨d.line, d.column - piece.length⟩
  | .blockComment closed =>
    ⟨d.line, (if '\n' ∈ piece then 0 else d.column - 2) + if closed then 1 else 0⟩
  | .newline => ⟨d.line, 0⟩
  | .blanks => d

structure Walk where
  cursor : Nat
  last : Option TokenType
  drift : Drift
  deriving DecidableEq, Repr

def Walk.next (input : List Char) (w : Walk) : Option Walk :=
  (pieceAt w.last (input.drop w.cursor)).map fun piece =>
    ⟨w.cursor + piece.length, piece.kind.last w.last,
      w.drift.after piece.kind (input.take w.cursor) ((input.drop w.cursor).take piece.length)⟩

/-- The first `k` pieces of a text. -/
def walk (input : List Char) : Nat → Option Walk
  | 0 => some ⟨0, none, ⟨0, 0⟩⟩
  | k + 1 => (walk input k).bind fun w => w.next input

/-- The position of the byte at `i`. -/
def TruePosition (input : List Char) (i : Nat) (pos : Position) : Prop :=
  pos.line = lineOf (input.take i) ∧ pos.column = columnOf (input.take i)

/-- The line and the column are `int`s, and the lexer is not ahead of them. -/
def Walk.Clear (input : List Char) (w : Walk) : Prop :=
  lineOf (input.take w.cursor) < 2147483648 ∧ columnOf (input.take w.cursor) < 2147483648 ∧
    (4294967296 : Int) ∣ w.drift.line ∧ (4294967296 : Int) ∣ w.drift.column

/-! True positions. -/

theorem lineOf_append (x y : List Char) : lineOf (x ++ y) = lineOf x + y.count '\n' := by
  unfold lineOf
  rw [List.count_append]
  omega

theorem columnOf_append (x y : List Char) :
    columnOf (x ++ y) = if '\n' ∈ y then columnOf y else columnOf x + y.length := by
  unfold columnOf
  rw [List.reverse_append, List.takeWhile_append]
  by_cases h : '\n' ∈ y
  · have hstop : (y.reverse.takeWhile (· != '\n')).length ≠ y.reverse.length := by
      intro heq
      have hall := (List.takeWhile_prefix (· != '\n') (l := y.reverse)).eq_of_length heq
      rw [List.takeWhile_eq_self_iff] at hall
      simpa using hall '\n' (List.mem_reverse.mpr h)
    rw [if_neg hstop, if_pos h]
  · have hall : y.reverse.takeWhile (· != '\n') = y.reverse := by
      rw [List.takeWhile_eq_self_iff]
      intro c hc
      have hne : c ≠ '\n' := fun heq => h (heq ▸ List.mem_reverse.mp hc)
      simpa using hne
    rw [hall, if_pos rfl, if_neg h, List.length_append, List.length_reverse]
    omega

theorem columnOf_concat (x : List Char) (c : Char) :
    columnOf (x ++ [c]) = if c = '\n' then 1 else columnOf x + 1 := by
  rw [columnOf_append]
  by_cases h : c = '\n'
  · subst h
    rfl
  · rw [if_neg (by simpa using fun heq : '\n' = c => h heq.symm), if_neg h]
    rfl

/-! Sums of `int`s. -/

theorem toInt_toInt_add (a b : Int) : toInt (toInt a + b) = toInt (a + b) := by
  unfold toInt
  exact Int.bmod_add_bmod

theorem toInt_add_toInt (a b : Int) : toInt (a + toInt b) = toInt (a + b) := by
  unfold toInt
  exact Int.add_bmod_bmod

theorem toInt_eq_iff (n : Nat) (d : Int) : toInt (n + d) = n ↔ n < 2147483648 ∧ (4294967296 : Int) ∣ d := by
  have hmod : toInt (n + d) = if ((n : Int) + d) % 4294967296 < 2147483648
      then ((n : Int) + d) % 4294967296 else ((n : Int) + d) % 4294967296 - 4294967296 := rfl
  rw [hmod]
  split <;> omega

/-! The lexer's position over a text. -/

theorem foldl_byte (s : List Char) (line column : Int) : s.foldl Position.byte ⟨toInt line, toInt column⟩ =
      ⟨toInt (line + s.count '\n'), toInt (if '\n' ∈ s then columnOf s else column + s.length)⟩ := by
  induction s using List.reverseRecOn with
  | nil => simp
  | append_singleton s c ih =>
    rw [List.foldl_append, ih, List.foldl_cons, List.foldl_nil, Position.byte, columnOf_concat]
    by_cases hc : c = '\n'
    · subst hc
      simp only [if_true, toInt_toInt_add, List.count_append, List.count_singleton_self,
        List.mem_append, List.mem_singleton, or_true, Int.add_assoc, Int.natCast_add]
      rfl
    · by_cases hs : '\n' ∈ s <;>
        simp [hc, hs, toInt_toInt_add, List.count_append, Ne.symm hc, Int.add_assoc]

theorem pieceAt_text {last : Option TokenType} {text : List Char} {piece : Piece}
    (h : pieceAt last text = some piece) :
    match piece.kind with
    | .token _ => True
    | .lineComment => '\n' ∉ text.take piece.length
    | .blockComment closed => ∃ s, text = '/' :: '*' :: s ∧ closed = (commentBody s).2 ∧
        piece.length = 2 + commentLength s
    | .newline => text.take piece.length = ['\n']
    | .blanks => '\n' ∉ text.take piece.length := by
  obtain ⟨n, rule, hpick, hpiece⟩ := pieceAt_eq_some h
  obtain ⟨_, _, hn, hmatch, _⟩ := pick_match hpick
  cases rule with
  | slash =>
    rw [Rule.piece] at hpiece
    split at hpiece
    · obtain ⟨m, _, rfl⟩ := Option.map_eq_some_iff.mp hpiece
      trivial
    · cases hpiece
      trivial
  | fixed | string | template | number | ident =>
    cases hpiece
    trivial
  | lineComment =>
    cases hpiece
    obtain ⟨body, htake, hbody⟩ := matches_lineComment.mp hmatch
    simp only [htake, List.mem_cons, not_or]
    exact ⟨by decide, by decide, hbody⟩
  | blockComment =>
    cases hpiece
    obtain ⟨rfl, htext⟩ := drop_of_take_eq (matches_blockComment.mp hmatch) hn
    exact ⟨text.drop 2, htext, rfl, rfl⟩
  | newline =>
    cases hpiece
    exact matches_newline.mp hmatch
  | blanks =>
    cases hpiece
    intro hmem
    exact absurd ((matches_blanks.mp hmatch).2 _ hmem) (by decide)

/-! The lexer behind a walk. -/

/-- The lexer stands where the walk ends, and is ahead of its true position by the drift. -/
structure Tracks (input : List Char) (w : Walk) (lexer : Lexer) : Prop where
  cursor : lexer.cursor = w.cursor
  last : lexer.lastToken = w.last
  position : lexer.position = ⟨toInt (lineOf (input.take w.cursor) + w.drift.line),
    toInt (columnOf (input.take w.cursor) + w.drift.column)⟩

section Comment
variable (before body : List Char) {tail : List Char}

theorem lineOf_comment (htail : '\n' ∉ tail) :
    lineOf (before ++ '/' :: '*' :: (body ++ tail)) = lineOf before + body.count '\n' := by
  rw [lineOf_append, List.count_cons_of_ne (by decide), List.count_cons_of_ne (by decide),
    List.count_append, List.count_eq_zero.mpr htail]
  rfl

theorem columnOf_comment (htail : '\n' ∉ tail) : columnOf (before ++ '/' :: '*' :: (body ++ tail)) =
      if '\n' ∈ body then columnOf body + tail.length
      else columnOf before + (body.length + 2 + tail.length) := by
  have happend : before ++ '/' :: '*' :: (body ++ tail) = (before ++ ['/', '*']) ++ body ++ tail := by
    simp
  rw [happend, columnOf_append, if_neg htail, columnOf_append]
  by_cases hbody : '\n' ∈ body
  · simp only [if_pos hbody]
  · rw [if_neg hbody, if_neg hbody, columnOf_append, if_neg (by decide)]
    simp only [List.length_cons, List.length_nil]
    omega

theorem newline_mem_comment (htail : '\n' ∉ tail) : '\n' ∈ '/' :: '*' :: (body ++ tail) ↔ '\n' ∈ body := by
  simp [htail]

end Comment

theorem comment_drift (before s : List Char) (d : Drift) {piece : List Char}
    (hpiece : piece = '/' :: '*' :: s.take (commentLength s)) :
    Position.comment ⟨toInt (lineOf before + d.line), toInt (columnOf before + d.column)⟩ s =
      ⟨toInt (lineOf (before ++ piece) + (d.after (.blockComment (commentBody s).2) before piece).line),
        toInt (columnOf (before ++ piece) +
          (d.after (.blockComment (commentBody s).2) before piece).column)⟩ := by
  rw [take_commentLength] at hpiece
  unfold Position.comment
  rw [foldl_byte]
  generalize s.take (commentBody s).1 = body at hpiece ⊢
  subst hpiece
  cases (commentBody s).2 with
  | true =>
    have htail : '\n' ∉ ['*', '/'] := by decide
    have hstar : ∀ pos : Position, pos.byte '*' = ⟨pos.line, toInt (pos.column + 1)⟩ :=
      fun pos => if_neg (by decide)
    simp only [if_true, Drift.after, lineOf_comment _ _ htail, columnOf_comment _ _ htail,
      newline_mem_comment _ htail, hstar, toInt_toInt_add]
    congr 2
    · omega
    · -- the loop has added one too many at the closing, and nothing at the opening
      by_cases hbody : '\n' ∈ body
      · simp only [if_pos hbody, List.length_cons, List.length_nil]
        omega
      · simp only [if_neg hbody, List.length_cons, List.length_nil]
        omega
  | false =>
    have htail : '\n' ∉ ([] : List Char) := List.not_mem_nil
    simp only [Bool.false_eq_true, if_false, Drift.after, lineOf_comment _ _ htail,
      columnOf_comment _ _ htail, newline_mem_comment _ htail]
    congr 2
    · omega
    · by_cases hbody : '\n' ∈ body
      · simp only [if_pos hbody, List.length_nil]
        omega
      · simp only [if_neg hbody, List.length_nil]
        omega

theorem forward_drift (before piece : List Char) (d : Drift) :
    Position.forward ⟨toInt (lineOf before + d.line), toInt (columnOf before + d.column)⟩ piece.length =
      ⟨toInt (lineOf (before ++ piece) + (d.line - piece.count '\n')), toInt (columnOf (before ++ piece) +
          (d.column + (columnOf before + piece.length - columnOf (before ++ piece))))⟩ := by
  unfold Position.forward
  rw [toInt_add_toInt, toInt_toInt_add, lineOf_append]
  refine congrArg₂ Position.mk (congrArg toInt ?_) (congrArg toInt ?_) <;> omega

theorem across_drift {last : Option TokenType} {before text : List Char} {piece : Piece} (d : Drift)
    (h : pieceAt last text = some piece) :
    Position.across ⟨toInt (lineOf before + d.line), toInt (columnOf before + d.column)⟩ piece text =
      ⟨toInt (lineOf (before ++ text.take piece.length) +
          (d.after piece.kind before (text.take piece.length)).line),
        toInt (columnOf (before ++ text.take piece.length) +
          (d.after piece.kind before (text.take piece.length)).column)⟩ := by
  have hlen : (text.take piece.length).length = piece.length := by
    rw [List.length_take]
    exact Nat.min_eq_left (pieceAt_bounds h).2
  have htext := pieceAt_text h
  unfold Position.across
  cases hkind : piece.kind with
  | token t =>
    have hforward := forward_drift before (text.take piece.length) d
    rw [hlen] at hforward
    dsimp only [Drift.after]
    rw [hforward, hlen]
  | lineComment =>
    rw [hkind] at htext
    dsimp only [Drift.after]
    rw [lineOf_append, columnOf_append, if_neg htext, List.count_eq_zero.mpr htext, hlen]
    congr 2
    omega
  | blockComment closed =>
    rw [hkind] at htext
    obtain ⟨s, rfl, rfl, hlength⟩ := htext
    have hpiece : ('/' :: '*' :: s).take piece.length = '/' :: '*' :: s.take (commentLength s) := by
      rw [hlength, Nat.add_comm]
      rfl
    exact comment_drift before s d hpiece
  | newline =>
    rw [hkind] at htext
    dsimp only [Drift.after]
    rw [htext, lineOf_append, columnOf_append, if_pos (List.mem_singleton.mpr rfl),
      List.count_singleton_self, toInt_toInt_add]
    exact congrArg₂ Position.mk (congrArg toInt (by omega)) (by decide)
  | blanks =>
    rw [hkind] at htext
    have hforward := forward_drift before (text.take piece.length) d
    rw [hlen, columnOf_append, if_neg htext, List.count_eq_zero.mpr htext, hlen] at hforward
    dsimp only [Drift.after]
    rw [hforward, columnOf_append, if_neg htext, hlen]
    congr 2
    · omega
    · omega

section Run
variable {input : List Char} {w : Walk} {lexer : Lexer} {piece : Piece}

theorem tracks_init (input : List Char) : Tracks input ⟨0, none, ⟨0, 0⟩⟩ exprtkLexerInit where
  cursor := rfl
  last := rfl
  position := by
    rw [List.take_zero]
    rfl

theorem Tracks.next (h : Tracks input w lexer)
    (hpiece : pieceAt lexer.lastToken (input.drop lexer.cursor) = some piece) :
    ∃ w', w.next input = some w' ∧ Tracks input w' (lexer.across piece (input.drop lexer.cursor)) := by
  rw [h.last, h.cursor] at hpiece
  refine ⟨_, by rw [Walk.next, hpiece]; rfl, ?_⟩
  have hdrift := @across_drift _ (input.take w.cursor) _ _ w.drift hpiece
  constructor
  · show lexer.cursor + piece.length = w.cursor + piece.length
    rw [h.cursor]
  · show piece.kind.last lexer.lastToken = piece.kind.last w.last
    rw [h.last]
  · show lexer.position.across piece (input.drop lexer.cursor) = _
    dsimp only
    rw [h.position, h.cursor, hdrift, List.take_add]

theorem Tracks.position_iff (h : Tracks input w lexer) :
    TruePosition input w.cursor lexer.position ↔ w.Clear input := by
  unfold TruePosition Walk.Clear
  rw [h.position]
  dsimp only
  rw [toInt_eq_iff, toInt_eq_iff]
  constructor
  · intro hpos
    exact ⟨hpos.1.1, hpos.2.1, hpos.1.2, hpos.2.2⟩
  · intro hclear
    exact ⟨⟨hclear.1, hclear.2.2.1⟩, hclear.2.1, hclear.2.2.2⟩

/-- A lexer that a walk over the text leads to. -/
def OnWalk (input : List Char) (lexer : Lexer) : Prop :=
  ∃ k w, walk input k = some w ∧ Tracks input w lexer

theorem OnWalk.next (h : OnWalk input lexer)
    (hpiece : pieceAt lexer.lastToken (input.drop lexer.cursor) = some piece) :
    OnWalk input (lexer.across piece (input.drop lexer.cursor)) := by
  obtain ⟨k, w, hw, htracks⟩ := h
  obtain ⟨w', hw', htracks'⟩ := htracks.next hpiece
  exact ⟨k + 1, w', by rw [walk, hw, Option.bind_some, hw'], htracks'⟩

theorem walk_le {k : Nat} : ∀ {w : Walk}, walk input k = some w → w.cursor ≤ input.length := by
  induction k with
  | zero =>
    intro w h
    cases h
    exact Nat.zero_le _
  | succ k ih =>
    intro w h
    obtain ⟨v, hv, hnext⟩ := Option.bind_eq_some_iff.mp h
    obtain ⟨piece, hpiece, rfl⟩ := Option.map_eq_some_iff.mp hnext
    have hle := (pieceAt_bounds hpiece).2
    have hv := ih hv
    rw [List.length_drop] at hle
    show v.cursor + piece.length ≤ input.length
    omega

/-- A walk ends at `start`, and the position is true if and only if that walk is clear. -/
def Placed (input : List Char) (start : Nat) (pos : Position) : Prop :=
  ∃ k w, walk input k = some w ∧ w.cursor = start ∧ (TruePosition input start pos ↔ w.Clear input)

theorem OnWalk.placed (h : OnWalk input lexer) : Placed input lexer.cursor lexer.position := by
  obtain ⟨k, w, hw, htracks⟩ := h
  refine ⟨k, w, hw, htracks.cursor.symm, ?_⟩
  rw [htracks.cursor]
  exact htracks.position_iff

theorem OnWalk.le (h : OnWalk input lexer) : lexer.cursor ≤ input.length := by
  obtain ⟨k, w, hw, htracks⟩ := h
  rw [htracks.cursor]
  exact walk_le hw

theorem passes_placed {result : Lexed} {next : Lexer} : ∀ (n : Nat) (lexer : Lexer),
    OnWalk input lexer → passes input n lexer = some (result, next) →
      match result with
      | .token t => Placed input t.start t.position ∧ OnWalk input next
      | .eof pos => Placed input input.length pos
      | .error => True := by
  intro n
  induction n with
  | zero =>
    intro lexer _ h
    cases h
  | succ n ih =>
    intro lexer hwalk h
    rw [passes] at h
    cases hpiece : pieceAt lexer.lastToken (input.drop lexer.cursor) with
    | none =>
      obtain ⟨message, hpass⟩ := lexStart_none hpiece
      rw [hpass] at h
      cases h
      by_cases hend : input.drop lexer.cursor = []
      · rw [if_pos hend]
        have hle := hwalk.le
        rw [List.drop_eq_nil_iff] at hend
        have hplaced := hwalk.placed
        rwa [show lexer.cursor = input.length by omega] at hplaced
      · rw [if_neg hend]
        trivial
    | some piece =>
      have hpass := lexStart_piece hpiece
      have hnext := hwalk.next hpiece
      cases hkind : piece.kind with
      | token t =>
        rw [hkind] at hpass
        obtain ⟨value, hpass⟩ := hpass
        rw [hpass] at h
        cases h
        exact ⟨hwalk.placed, hnext⟩
      | lineComment | blockComment | newline | blanks =>
        rw [hkind] at hpass
        dsimp only at hpass
        rw [hpass] at h
        exact ih _ hnext h

theorem lexAll_placed : ∀ (n : Nat) (lexer : Lexer) (tokens : List Token) (last : Lexed),
    OnWalk input lexer → lexAll input n lexer = some (tokens, last) →
      (∀ t ∈ tokens, Placed input t.start t.position) ∧
        ∀ pos, last = .eof pos → Placed input input.length pos := by
  intro n
  induction n with
  | zero =>
    intro lexer tokens last _ h
    cases h
  | succ n ih =>
    intro lexer tokens last hwalk h
    rw [lexAll] at h
    cases hcall : exprtkLexerNext input lexer with
    | none =>
      rw [hcall] at h
      cases h
    | some found =>
      obtain ⟨result, next⟩ := found
      have hplaced := passes_placed _ _ hwalk hcall
      rw [hcall] at h
      cases result with
      | token t =>
        obtain ⟨⟨rest, final⟩, hrest, hfound⟩ := Option.map_eq_some_iff.mp h
        cases hfound
        obtain ⟨htokens, hend⟩ := ih next rest final hplaced.2 hrest
        exact ⟨List.forall_mem_cons.mpr ⟨hplaced.1, htokens⟩, hend⟩
      | eof pos =>
        cases h
        exact ⟨by simp, fun p hp => by injection hp with hp; exact hp ▸ hplaced⟩
      | error =>
        cases h
        exact ⟨by simp, fun p hp => by cases hp⟩

end Run

/-- In every run, the position of a token, and the position of the end, is true if and only if
the line and the column fit an `int` and the pieces before it leave no drift. -/
theorem positions_true_iff (input : List Char) (n : Nat) (tokens : List Token) (last : Lexed)
    (h : lexAll input n exprtkLexerInit = some (tokens, last)) :
    (∀ t ∈ tokens, ∃ k w, walk input k = some w ∧ w.cursor = t.start ∧
      (TruePosition input t.start t.position ↔ w.Clear input)) ∧
    ∀ pos, last = .eof pos → ∃ k w, walk input k = some w ∧ w.cursor = input.length ∧
      (TruePosition input input.length pos ↔ w.Clear input) :=
  lexAll_placed n exprtkLexerInit tokens last ⟨0, _, rfl, tracks_init input⟩ h

/-- A comment on the line moves the name behind it one column to the left. -/
theorem comment_shifts_column :
    lexAll "/**/ x".toList 7 exprtkLexerInit =
        some ([⟨.variable, 5, 1, none, ⟨1, 5⟩⟩], .eof ⟨1, 6⟩) ∧
      ¬TruePosition "/**/ x".toList 5 ⟨1, 5⟩ := by
  refine ⟨by decide +kernel, fun h => ?_⟩
  have hcolumn : columnOf ("/**/ x".toList.take 5) = 6 := by decide +kernel
  have h := h.2
  rw [hcolumn] at h
  exact absurd h (by decide)

/-- Two names on two lines. -/
theorem positions_true_lines :
    (∀ t ∈ ([⟨.variable, 0, 1, none, ⟨1, 1⟩⟩, ⟨.variable, 3, 1, none, ⟨2, 2⟩⟩] : List Token),
      ∃ k w, walk "a\n b".toList k = some w ∧ w.cursor = t.start ∧
        (TruePosition "a\n b".toList t.start t.position ↔ w.Clear "a\n b".toList)) ∧
    ∀ pos, Lexed.eof ⟨2, 3⟩ = .eof pos → ∃ k w, walk "a\n b".toList k = some w ∧
      w.cursor = "a\n b".toList.length ∧
        (TruePosition "a\n b".toList "a\n b".toList.length pos ↔ w.Clear "a\n b".toList) :=
  positions_true_iff "a\n b".toList 5 _ _ (by decide +kernel)

end TurboScript.Syntax
