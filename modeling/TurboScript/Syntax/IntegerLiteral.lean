import Mathlib.Tactic.IntervalCases
import Mathlib.Tactic.Ring
import TurboScript.Exprtk.Value
import TurboScript.Syntax.Pieces

/- Integer literals: what is left of their value.

   The digits go through a buffer of 31 characters, `strtoll`, a double, and the conversion of
   the grammar to `int64_t`. The value comes through if and only if it fits an `int64_t` and
   has 53 significant bits at most (`integer_literal_exact_iff`). -/
namespace TurboScript.Syntax
open Lib Exprtk

/-- The node of `INTEGER(N)`: `(int64_t)N.num_value`, which has no value from 2^63 on. -/
def integerNode (D : Type) (t : Token) : Option (Node D) :=
  match t.numValue with
  | some (.whole value) => if value < 2 ^ 63 then some (.integer value) else none
  | _ => none

def Token.text (input : List Char) (t : Token) : List Char := (input.drop t.start).take t.length

/-- A literal of value `v` keeps it: as an INTEGER if it fits an `int64_t`, else as a NUMBER. -/
def Keeps (D : Type) (v : Nat) (t : Token) : Prop :=
  (v < 2 ^ 63 → t.type = .integer ∧ integerNode D t = some (.integer v)) ∧ (2 ^ 63 ≤ v → t.type = .number)

/-! Rounding. -/

/-- `n` has 53 significant bits at most. -/
def Representable (n : Nat) : Prop := ∃ m e, m < 2 ^ 53 ∧ n = m * 2 ^ e

theorem roundDouble_eq_iff (n : Nat) : roundDouble n = n ↔ Representable n := by
  unfold roundDouble
  by_cases hsmall : n < 2 ^ 53
  · rw [if_pos hsmall]
    exact iff_of_true rfl ⟨n, 0, hsmall, by omega⟩
  · rw [if_neg hsmall]
    have hne : n ≠ 0 := by omega
    have hlow := Nat.log2_self_le hne
    have hhigh : n < 2 ^ (n.log2 + 1) := Nat.lt_log2_self
    have hlog : 53 ≤ n.log2 := (Nat.le_log2 hne).mpr (by omega)
    generalize hunit : 2 ^ (n.log2 - 52) = unit
    have hpos : 0 < unit := by
      rw [← hunit]
      exact Nat.two_pow_pos _
    have hsplit := Nat.div_add_mod n unit
    have hcut := Nat.mod_lt n hpos
    have hkept : n / unit < 2 ^ 53 := by
      rw [Nat.div_lt_iff_lt_mul hpos, ← hunit, ← Nat.pow_add]
      rwa [show 53 + (n.log2 - 52) = n.log2 + 1 by omega]
    have hexact : Representable n ↔ n % unit = 0 := by
      constructor
      · intro h
        obtain ⟨m, e, hm, hn⟩ := h
        have hlt : 2 ^ n.log2 < 2 ^ (53 + e) := by
          rw [Nat.pow_add]
          have := Nat.mul_lt_mul_of_pos_right hm (Nat.two_pow_pos e)
          omega
        have hle := (Nat.pow_lt_pow_iff_right (by omega)).mp hlt
        have hdvd : unit ∣ 2 ^ e := by
          rw [← hunit]
          exact Nat.pow_dvd_pow 2 (by omega)
        rw [hn]
        exact Nat.mod_eq_zero_of_dvd (Nat.dvd_trans hdvd (Nat.dvd_mul_left _ _))
      · intro h
        refine ⟨n / unit, n.log2 - 52, hkept, ?_⟩
        rw [hunit, Nat.mul_comm]
        omega
    rw [hexact]
    have hup : (n / unit + 1) * unit = unit * (n / unit) + unit := by
      rw [Nat.mul_comm, Nat.mul_add, Nat.mul_one]
    dsimp only
    rw [Nat.mul_comm (n / unit) unit, hup]
    split <;> omega

/-! Numerals. -/

variable {c : Char} {w : List Char}

theorem isDigit_isInteger (h : isDigit c = true) : (!(c == '.' || c == 'e' || c == 'E')) = true := by
  rw [Bool.not_eq_true', Bool.or_eq_false_iff, Bool.or_eq_false_iff]
  refine ⟨⟨?_, ?_⟩, ?_⟩ <;>
  · rw [beq_eq_false_iff_ne]
    rintro rfl
    cases h

theorem matches_intRx (h : intRx.Matches w) :
    w = ['0'] ∨ ∃ c rest, w = c :: rest ∧ ('1' ≤ c ∧ c ≤ '9') ∧ ∀ d ∈ rest, isDigit d = true := by
  rw [intRx, Rx.matches_alt, Rx.matches_word, Rx.matches_seq] at h
  cases h with
  | inl h => exact .inl h
  | inr h =>
    obtain ⟨y, rest, rfl, hy, hrest⟩ := h
    obtain ⟨c, rfl, hc⟩ := Rx.matches_set.mp hy
    rw [Bool.and_eq_true, decide_eq_true_eq, decide_eq_true_eq] at hc
    exact .inr ⟨c, rest, rfl, hc, Rx.matches_many.mp hrest⟩

theorem digit_of_nonzero (h : '1' ≤ c ∧ c ≤ '9') : isDigit c = true := by
  rw [isDigit, Bool.and_eq_true, decide_eq_true_eq, decide_eq_true_eq]
  exact ⟨Char.le_trans (by decide) h.1, h.2⟩

theorem literal_digits (h : intRx.Matches w) : ∀ c ∈ w, isDigit c = true := by
  obtain rfl | ⟨c, rest, rfl, hc, hrest⟩ := matches_intRx h
  · exact List.forall_mem_singleton.mpr (by decide)
  · exact List.forall_mem_cons.mpr ⟨digit_of_nonzero hc, hrest⟩

theorem isInteger_literal (h : intRx.Matches w) : isInteger w = true :=
  List.all_eq_true.mpr fun c hc => isDigit_isInteger (literal_digits h c hc)

theorem decimal_ge (w : List Char) : ∀ n, n * 10 ^ w.length ≤
    w.foldl (fun n c => 10 * n + (c.toNat - '0'.toNat)) n := by
  induction w with
  | nil => intro n; simp
  | cons c w ih =>
    intro n
    have h := ih (10 * n + (c.toNat - '0'.toNat))
    rw [List.foldl_cons, List.length_cons, Nat.pow_succ]
    calc n * (10 ^ w.length * 10) = 10 * n * 10 ^ w.length := by ring
      _ ≤ (10 * n + (c.toNat - '0'.toNat)) * 10 ^ w.length :=
        Nat.mul_le_mul_right _ (Nat.le_add_right _ _)
      _ ≤ _ := h

theorem literal_long (h : intRx.Matches w) (hlong : 31 < w.length) : 2 ^ 63 ≤ decimal w := by
  obtain rfl | ⟨c, rest, rfl, hc, _⟩ := matches_intRx h
  · exact absurd hlong (by decide)
  · have hfirst : 1 ≤ c.toNat - '0'.toNat := by
      have hle : '1'.toNat ≤ c.toNat := hc.1
      have h1 : '1'.toNat = 49 := rfl
      have h0 : '0'.toNat = 48 := rfl
      omega
    rw [List.length_cons] at hlong
    have hge := decimal_ge rest (10 * 0 + (c.toNat - '0'.toNat))
    calc 2 ^ 63 ≤ 1 * 10 ^ 31 := by decide
      _ ≤ 1 * 10 ^ rest.length := Nat.mul_le_mul_left 1 (Nat.pow_le_pow_right (by omega) (by omega))
      _ ≤ (10 * 0 + (c.toNat - '0'.toNat)) * 10 ^ rest.length :=
        Nat.mul_le_mul_right _ (by omega)
      _ ≤ decimal (c :: rest) := hge

/-! The tokens. -/

theorem rules_digit : ∀ rule ∈ rules, rule ≠ .number →
    ∀ c ∈ ['0', '1', '2', '3', '4', '5', '6', '7', '8', '9'], (rule.rx.deriv c).dead = true := by
  have hall : (rules.all fun rule => rule == .number ||
      ['0', '1', '2', '3', '4', '5', '6', '7', '8', '9'].all fun c => (rule.rx.deriv c).dead) =
      true := by
    decide +kernel
  intro rule hmem hother
  have hrule := List.all_eq_true.mp hall rule hmem
  rw [Bool.or_eq_true, beq_iff_eq] at hrule
  exact List.all_eq_true.mp (hrule.resolve_left hother)

theorem digit_mem (h : isDigit c = true) : c ∈ ['0', '1', '2', '3', '4', '5', '6', '7', '8', '9'] := by
  rw [isDigit, Bool.and_eq_true, decide_eq_true_eq, decide_eq_true_eq] at h
  have hlow : '0'.toNat ≤ c.toNat := h.1
  have hhigh : c.toNat ≤ '9'.toNat := h.2
  have hc : c = Char.ofNat c.toNat := c.ofNat_toNat.symm
  have h0 : '0'.toNat = 48 := rfl
  have h9 : '9'.toNat = 57 := rfl
  rw [h0] at hlow
  rw [h9] at hhigh
  generalize c.toNat = n at hc hlow hhigh
  subst hc
  interval_cases n <;> decide

theorem rule_of_digit {text : List Char} {m : Nat} {rule : Rule} {rest : List Char}
    (hpick : pick Rule.rx text rules = some (m, rule)) (htext : text = c :: rest)
    (hc : isDigit c = true) : rule = .number := by
  obtain ⟨hmem, hpos, _, hmatch, _⟩ := pick_match hpick
  by_contra hother
  obtain ⟨k, rfl⟩ : ∃ k, m = k + 1 := ⟨m - 1, by omega⟩
  rw [htext, List.take_succ_cons, ← Rx.matches_deriv] at hmatch
  exact Rx.not_matches_of_dead (rules_digit rule hmem hother c (digit_mem hc)) hmatch

theorem literal_token {input : List Char} {lexer next : Lexer} {t : Token}
    (h : exprtkLexerNext input lexer = some (.token t, next))
    (hliteral : intRx.Matches (t.text input)) :
    t.type = .integer ∧ t.numValue = some (.whole (roundDouble (strtoll ((t.text input).take 31)))) := by
  obtain ⟨mid, m, rule, hpick, hact⟩ := passes_token _ _ h
  have hdigits := literal_digits hliteral
  have hstart := (act_token hact).1
  obtain ⟨c, rest, hcons, hc⟩ : ∃ c rest, input.drop mid.cursor = c :: rest ∧ isDigit c = true := by
    rw [Token.text, hstart] at hliteral hdigits
    cases hdrop : input.drop mid.cursor with
    | nil =>
      rw [hdrop, List.take_nil] at hliteral
      obtain hw | ⟨_, _, hw, _⟩ := matches_intRx hliteral <;> cases hw
    | cons c rest =>
      refine ⟨c, rest, rfl, hdigits c ?_⟩
      rw [hdrop] at hliteral ⊢
      cases hlen : t.length with
      | zero =>
        rw [hlen, List.take_zero] at hliteral
        obtain hw | ⟨_, _, hw, _⟩ := matches_intRx hliteral <;> cases hw
      | succ n =>
        rw [List.take_succ_cons]
        exact List.mem_cons_self
  obtain rfl := rule_of_digit hpick hcons hc
  injection hact with htoken
  injection htoken with htoken
  have htext : t.text input = (input.drop mid.cursor).take m := by
    subst htoken
    rfl
  rw [htext] at hliteral ⊢
  subst htoken
  simp only [numberToken, isInteger_literal hliteral, if_true, and_self]

/-- A literal keeps its value if and only if the value fits an `int64_t` and has 53
significant bits at most. -/
theorem integer_literal_exact_iff (D : Type) (input : List Char) (lexer next : Lexer) (t : Token)
    (h : exprtkLexerNext input lexer = some (.token t, next))
    (hliteral : intRx.Matches (t.text input)) :
    Keeps D (decimal (t.text input)) t ↔
      decimal (t.text input) < 2 ^ 63 ∧ Representable (decimal (t.text input)) := by
  obtain ⟨htype, hvalue⟩ := literal_token h hliteral
  generalize t.text input = w at hliteral hvalue ⊢
  by_cases hfits : decimal w < 2 ^ 63
  · have hshort : w.length ≤ 31 := by
      by_contra hlong
      have := literal_long hliteral (by omega)
      omega
    have hread : strtoll (w.take 31) = decimal w := by
      rw [List.take_of_length_le hshort, strtoll]
      omega
    rw [hread] at hvalue
    have hnode : integerNode D t = some (.integer (decimal w)) ↔ roundDouble (decimal w) = decimal w := by
      unfold integerNode
      rw [hvalue]
      constructor
      · intro heq
        dsimp only at heq
        split at heq
        · injection heq with heq
          injection heq with heq
          omega
        · cases heq
      · intro heq
        dsimp only
        rw [heq, if_pos hfits]
    rw [← roundDouble_eq_iff, ← hnode]
    constructor
    · intro hkeeps
      exact ⟨hfits, (hkeeps.1 hfits).2⟩
    · intro hright
      exact ⟨fun _ => ⟨htype, hright.2⟩, fun hlarge => by omega⟩
  · constructor
    · intro hkeeps
      rw [hkeeps.2 (by omega)] at htype
      cases htype
    · intro hright
      exact absurd hright.1 hfits

def oddLiteral : List Char := "9007199254740993".toList

def oddToken : Token := ⟨.integer, 0, 16, some (.whole 9007199254740992), ⟨1, 1⟩⟩

/-- It becomes another integer. -/
theorem odd_literal_changed : exprtkLexerNext oddLiteral exprtkLexerInit =
        some (.token oddToken, ⟨16, ⟨1, 17⟩, some .integer, ""⟩) ∧
      decimal (oddToken.text oddLiteral) = 9007199254740993 ∧
      integerNode Unit oddToken = some (.integer 9007199254740992) ∧
      ¬Keeps Unit (decimal (oddToken.text oddLiteral)) oddToken := by
  refine ⟨by decide +kernel, by decide +kernel, rfl, fun h => ?_⟩
  have hvalue : decimal (oddToken.text oddLiteral) = 9007199254740993 := by decide +kernel
  rw [hvalue] at h
  have hnode := (h.1 (by decide)).2
  cases hnode

/-- The literal `42`. -/
def smallToken : Token := ⟨.integer, 0, 2, some (.whole 42), ⟨1, 1⟩⟩

theorem integer_literal_exact_small :
    Keeps Unit (decimal (smallToken.text "42".toList)) smallToken ↔
      decimal (smallToken.text "42".toList) < 2 ^ 63 ∧
        Representable (decimal (smallToken.text "42".toList)) := by
  have hliteral : intRx.Matches ['4', '2'] :=
    Rx.matches_deriv.mp (Rx.matches_deriv.mp (Rx.nullable_iff.mp (by decide +kernel)))
  exact integer_literal_exact_iff Unit "42".toList exprtkLexerInit
    ⟨2, ⟨1, 3⟩, some .integer, ""⟩ smallToken (by decide +kernel) hliteral

end TurboScript.Syntax
