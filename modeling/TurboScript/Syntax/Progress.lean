import TurboScript.Syntax.Pieces

/- The scanner makes progress and loses nothing.

   A pass moves the cursor forward inside the text, or ends the call (`pass_cases`). So a call
   ends, and what it skips before its token is blanks, newlines and comments (`passes_spec`);
   the calls end after one more than the text has bytes at most, and their tokens lie in the
   text in order, apart from each other (`lexer_progress`). -/
namespace TurboScript.Syntax

/-- The lexers that any number of passes leads to, also behind calls that returned 0 or -1. -/
inductive Reached (input : List Char) : Lexer → Prop where
  | init : Reached input exprtkLexerInit
  | again {lexer next : Lexer} (h : Reached input lexer)
      (hpass : lexStart input lexer = .again next) : Reached input next
  | returns {lexer next : Lexer} {result : Lexed} (h : Reached input lexer)
      (hpass : lexStart input lexer = .returns result next) : Reached input next

/-- From `i` on, the tokens have a byte or more each, lie inside the text in order, and what
stands before and between them is skipped. So is what stands behind them, up to where the last
call stopped: at the end of the text, if it returned 0. -/
def Covers (input : List Char) (last : Lexed) : Nat → List Token → Prop
  | i, [] => ∃ stop, i ≤ stop ∧ stop ≤ input.length ∧ Skips (input.drop i) (input.drop stop) ∧
      ∀ position, last = .eof position → stop = input.length
  | i, t :: tokens => i ≤ t.start ∧ Skips (input.drop i) (input.drop t.start) ∧ 0 < t.length ∧
      t.start + t.length ≤ input.length ∧ Covers input last (t.start + t.length) tokens

section Calls
variable {input : List Char} {lexer : Lexer}

theorem pass_cases (h : lexer.cursor ≤ input.length) :
    (∃ next, lexStart input lexer = .again next ∧ lexer.cursor < next.cursor ∧
      next.cursor ≤ input.length ∧ Skips (input.drop lexer.cursor) (input.drop next.cursor)) ∨
    (∃ t next, lexStart input lexer = .returns (.token t) next ∧ t.start = lexer.cursor ∧
      0 < t.length ∧ next.cursor = t.start + t.length ∧ next.cursor ≤ input.length) ∨
    ∃ last next, lexStart input lexer = .returns last next ∧ (∀ t, last ≠ .token t) ∧
      next.cursor = lexer.cursor ∧ ∀ position, last = .eof position → lexer.cursor = input.length := by
  cases hpiece : pieceAt lexer.lastToken (input.drop lexer.cursor) with
  | none =>
    obtain ⟨message, hpass⟩ := lexStart_none hpiece
    refine .inr (.inr ⟨_, _, hpass, ?_, rfl, ?_⟩)
    · intro t
      by_cases hend : input.drop lexer.cursor = [] <;> simp [hend]
    · intro position hlast
      by_cases hend : input.drop lexer.cursor = []
      · rw [List.drop_eq_nil_iff] at hend
        omega
      · simp [hend] at hlast
  | some piece =>
    obtain ⟨hpos, hle⟩ := pieceAt_bounds hpiece
    rw [List.length_drop] at hle
    have hpass := lexStart_piece hpiece
    have hskip := pieceAt_skip hpiece
    have hcursor : (lexer.across piece (input.drop lexer.cursor)).cursor =
        lexer.cursor + piece.length := rfl
    rw [List.drop_drop] at hskip
    cases hkind : piece.kind with
    | token t =>
      rw [hkind] at hpass
      obtain ⟨value, hpass⟩ := hpass
      exact .inr (.inl ⟨_, _, hpass, rfl, hpos, rfl, by omega⟩)
    | lineComment | blockComment | newline | blanks =>
      rw [hkind] at hpass hskip
      exact .inl ⟨_, hpass, by omega, by omega, hskip (by simp)⟩

/-- What a call does: it skips up to `stop`, and then its token begins, or it stops there. -/
def CallSpec (input : List Char) (lexer : Lexer) (result : Lexed) (next : Lexer) : Prop :=
  ∃ stop, lexer.cursor ≤ stop ∧ stop ≤ input.length ∧ Skips (input.drop lexer.cursor) (input.drop stop) ∧
    match result with
    | .token t => t.start = stop ∧ 0 < t.length ∧ t.start + t.length ≤ input.length ∧
        next.cursor = t.start + t.length
    | .eof _ => stop = input.length
    | .error => True

theorem passes_spec : ∀ (n : Nat) (lexer : Lexer), lexer.cursor ≤ input.length →
    input.length - lexer.cursor < n → ∃ result next, passes input n lexer = some (result, next) ∧
        CallSpec input lexer result next := by
  intro n
  induction n with
  | zero =>
    intro lexer h hn
    omega
  | succ n ih =>
    intro lexer h hn
    rw [passes]
    obtain ⟨next, hpass, hlt, hle, hskip⟩ | ⟨t, next, hpass, hstart, hpos, hcursor, hle⟩ |
      ⟨last, next, hpass, hlast, hcursor, hend⟩ := pass_cases h
    · obtain ⟨result, final, hrun, stop, hstop, hin, hskips, hresult⟩ := ih next hle (by omega)
      rw [hpass]
      exact ⟨result, final, hrun, stop, by omega, hin, hskip.trans hskips, hresult⟩
    · rw [hpass]
      exact ⟨_, _, rfl, lexer.cursor, Nat.le_refl _, h, .refl, hstart, hpos, by omega, hcursor⟩
    · rw [hpass]
      refine ⟨_, _, rfl, lexer.cursor, Nat.le_refl _, h, .refl, ?_⟩
      cases last with
      | token t => exact absurd rfl (hlast t)
      | eof position => exact hend position rfl
      | error => trivial

theorem lexAll_covers : ∀ (n : Nat) (lexer : Lexer), lexer.cursor ≤ input.length →
    input.length - lexer.cursor < n →
      ∃ tokens last, lexAll input n lexer = some (tokens, last) ∧ (∀ t, last ≠ .token t) ∧
        Covers input last lexer.cursor tokens := by
  intro n
  induction n with
  | zero =>
    intro lexer h hn
    omega
  | succ n ih =>
    intro lexer h hn
    obtain ⟨result, next, hcall, stop, hstop, hin, hskip, hresult⟩ :=
      passes_spec (input.length + 1) lexer h (by omega)
    have hnext : exprtkLexerNext input lexer = some (result, next) := hcall
    rw [lexAll, hnext]
    cases result with
    | token t =>
      obtain ⟨rfl, hpos, hle, hcursor⟩ := hresult
      obtain ⟨tokens, last, hrun, hlast, hcovers⟩ := ih next (by omega) (by omega)
      rw [hcursor] at hcovers
      refine ⟨t :: tokens, last, ?_, hlast, hstop, hskip, hpos, hle, hcovers⟩
      simp only [hrun, Option.map_some]
    | eof position =>
      exact ⟨[], _, rfl, by simp, stop, hstop, hin, hskip, fun _ _ => hresult⟩
    | error => exact ⟨[], _, rfl, by simp, stop, hstop, hin, hskip, by simp⟩

end Calls

/-- On every text, calls from the start end with 0 or -1, after one more call than the text
has bytes at most; their tokens cover ranges of the text that have a byte or more, in order
and apart, and what stands before, between and behind them is blanks, newlines and comments;
and no pass leaves the cursor behind the end. -/
theorem lexer_progress (input : List Char) :
    (∃ tokens last, lexAll input (input.length + 1) exprtkLexerInit = some (tokens, last) ∧
      (∀ t, last ≠ .token t) ∧ Covers input last 0 tokens) ∧
    ∀ lexer, Reached input lexer → lexer.cursor ≤ input.length := by
  constructor
  · exact lexAll_covers (input.length + 1) exprtkLexerInit (Nat.zero_le _) (by omega)
  · intro lexer h
    induction h with
    | init => exact Nat.zero_le _
    | again _ hpass ih =>
      obtain ⟨next, hnext, _, hle, _⟩ | ⟨_, _, hnext, _⟩ | ⟨_, _, hnext, _⟩ := pass_cases ih
      · rw [hpass] at hnext
        injection hnext with hnext
        rw [hnext]
        exact hle
      · rw [hpass] at hnext
        cases hnext
      · rw [hpass] at hnext
        cases hnext
    | returns _ hpass ih =>
      obtain ⟨_, hnext, _⟩ | ⟨t, next, hnext, _, _, _, hle⟩ | ⟨last, next, hnext, _, hcursor, _⟩ :=
        pass_cases ih
      · rw [hpass] at hnext
        cases hnext
      · rw [hpass] at hnext
        injection hnext with _ hnext
        rw [hnext]
        exact hle
      · rw [hpass] at hnext
        injection hnext with _ hnext
        rw [hnext, hcursor]
        exact ih

end TurboScript.Syntax
