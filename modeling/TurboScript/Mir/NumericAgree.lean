import Mathlib.Data.Int.Cast.Field
import TurboScript.Mir.Numeric

/- Which numeric expressions mean the same lowered and evaluated.

   1. The operators of the tree evaluator against exact arithmetic: INTEGER arithmetic is
      exact within 64 bits, divisors below `1e-15` throw, equality and truth have a
      tolerance of `1e-9`. Each operator has one lemma that says on which operands its
      result is the exact one.
   2. The two sides of a whole expression, by induction: an expression and all its parts
      agree exactly when no operator in it gets operands of the other kind. -/
namespace TurboScript.Mir
open Lib Exprtk

/-! The operators of the tree evaluator against exact arithmetic. -/

section Operators
open Exprtk (Value valToDouble evalBinary)
open Double (eps fabs lt ofInt tiny)
open NumExpr (FitsInt64 RegularArith RegularCmp)

inductive Represents : Value ℚ → ℚ → Bool → Prop
  | integer (i : Int) : Represents (.integer i) i true
  | number (x : ℚ) : Represents (.number x) x false

variable {v b a : Value ℚ} {x y : ℚ} {i j : Bool} {op : BinOp}

theorem Represents.valToDouble {b : Bool} (h : Represents v x b) : valToDouble v = x := by
  cases h <;> rfl

theorem wrap64_eq_self_iff (i : Int) : wrap64 i = i ↔ FitsInt64 i := by
  have hfits : FitsInt64 (i : ℚ) ↔ -2 ^ 63 ≤ i ∧ i < 2 ^ 63 := by
    unfold FitsInt64
    norm_cast
  rw [hfits]
  unfold wrap64 Int.bmod
  norm_num
  omega

theorem truncate_div (a b : Int) (hb : b ≠ 0) : truncate ((a : ℚ) / b) = a.tdiv b := by
  obtain ⟨c, ha, hc⟩ := Rat.exists_eq_mul_div_num_and_eq_mul_div_den a hb
  have hc0 : c ≠ 0 := by
    rintro rfl
    exact hb (by simpa using hc)
  unfold truncate
  generalize ((a : ℚ) / b).num = n at *
  generalize ((a : ℚ) / b).den = d at *
  subst ha
  subst hc
  rcases lt_or_gt_of_ne hc0 with h | h
  · rw [← Int.mul_tdiv_mul_of_pos (a := -c) n d (by omega)]
    simp only [neg_mul, Int.neg_tdiv, Int.tdiv_neg, neg_neg]
  · exact (Int.mul_tdiv_mul_of_pos (a := c) n d h).symm

theorem isInt_div_iff {a b : Int} (hb : b ≠ 0) : ((a : ℚ) / b).isInt = true ↔ a.tmod b = 0 := by
  rw [← Int.dvd_iff_tmod_eq_zero, ← Rat.den_div_intCast_eq_one_iff a b hb]
  simp [Rat.isInt]

theorem cast_tdiv {a b : Int} (hb : b ≠ 0) (h : a.tmod b = 0) : ((a.tdiv b : Int) : ℚ) = (a : ℚ) / b := by
  have hd : b ∣ a := Int.dvd_iff_tmod_eq_zero.2 h
  rw [Int.tdiv_eq_ediv_of_dvd hd]
  exact Int.cast_div hd (by exact_mod_cast hb)

theorem cast_tmod {a b : Int} (hb : b ≠ 0) : ((a.tmod b : Int) : ℚ) = NumExpr.exactArith .mod a b := by
  show _ = (a : ℚ) - b * truncate (a / b)
  rw [truncate_div a b hb, Int.tmod_def]
  push_cast
  rfl

theorem fabs_eq_abs (x : ℚ) : fabs x = |x| := by
  show (if x < 0 then -x else x) = |x|
  split
  · exact (abs_of_neg ‹_›).symm
  · exact (abs_of_nonneg (not_lt.1 ‹_›)).symm

theorem tiny_le_int (b : Int) : tiny ≤ |(b : ℚ)| ↔ b ≠ 0 := by
  constructor
  · rintro h rfl
    exact ne_zero_of_tiny h (by simp)
  · intro hb
    have h1 : (1 : ℚ) ≤ |(b : ℚ)| := by exact_mod_cast Int.one_le_abs hb
    have h2 : (tiny : ℚ) ≤ 1 := by
      show (1 : ℚ) / 1000000000000000 ≤ 1
      norm_num
    exact le_trans h2 h1

theorem eps_lt_int (b : Int) : eps < |(b : ℚ)| ↔ b ≠ 0 := by
  constructor
  · rintro h rfl
    have h0 : (0 : ℚ) < eps := by
      show (0 : ℚ) < 1 / 1000000000
      norm_num
    simp only [Int.cast_zero, abs_zero] at h
    exact absurd h (not_lt.2 h0.le)
  · intro hb
    have h1 : (1 : ℚ) ≤ |(b : ℚ)| := by exact_mod_cast Int.one_le_abs hb
    have h2 : (eps : ℚ) < 1 := by
      show (1 : ℚ) / 1000000000 < 1
      norm_num
    exact lt_of_lt_of_le h2 h1

theorem Represents.integers (ha : Represents a x i) (hb : Represents b y j) (hij : (i && j) = true) :
    ∃ m n : Int, a = .integer m ∧ b = .integer n ∧ x = m ∧ y = n := by
  cases ha with
  | number x => cases hij
  | integer m =>
    cases hb with
    | number y => cases hij
    | integer n => exact ⟨m, n, rfl, rfl, rfl, rfl⟩

def arithInteger (op : ArithOp) (integers : Bool) (x y : ℚ) : Bool :=
  match op with
  | .add | .sub | .mul | .mod => integers
  | .div => integers && (x / y).isInt
  | .pow => false

theorem evalBinary_integer [Formats] {a b : Int} {r : Except String (Value ℚ)}
    (h : integerBinary op a b = some r) :
    evalBinary op (.integer a) (.integer b) = r := by
  simp [evalBinary, h]

theorem wrapped_iff [Formats] {a b i : Int}
    (h : integerBinary (D := ℚ) op a b = some (.ok (.integer (wrap64 i))))
    (hx : x = i) :
    (∃ v, evalBinary op (.integer a) (.integer b) = .ok v ∧ valToDouble v = x) ↔ FitsInt64 x := by
  subst hx
  rw [← wrap64_eq_self_iff, evalBinary_integer h]
  constructor
  · rintro ⟨v, hv, hx⟩
    cases hv
    have hx : ((wrap64 i : Int) : ℚ) = i := hx
    exact_mod_cast hx
  · intro hi
    exact ⟨_, rfl, by rw [hi]; rfl⟩

theorem integer_arith_iff [Formats] (op : ArithOp) (a b : Int) :
    (∃ v, evalBinary op.token (.integer a) (.integer b) = .ok v ∧
      valToDouble v = NumExpr.exactArith op a b) ↔ RegularArith op true a b := by
  cases op with
  | add =>
    simp only [RegularArith, forall_const]
    exact wrapped_iff rfl (Int.cast_add a b).symm
  | sub =>
    simp only [RegularArith, forall_const]
    exact wrapped_iff rfl (Int.cast_sub a b).symm
  | mul =>
    simp only [RegularArith, forall_const]
    exact wrapped_iff rfl (Int.cast_mul a b).symm
  | div =>
    simp only [RegularArith, tiny_le_int, forall_const]
    by_cases hb : b = 0
    · have hE : evalBinary .divide (.integer a : Value ℚ) (.integer b) =
          .error "Division by zero" := evalBinary_integer (if_pos hb)
      rw [ArithOp.token, hE]
      simp [hb]
    · rw [isInt_div_iff hb]
      by_cases hm : a.tmod b = 0
      · simp only [hb, hm, ne_eq, not_false_iff, true_and, forall_const]
        exact wrapped_iff ((if_neg hb).trans (if_pos hm)) (cast_tdiv hb hm).symm
      · simp only [hb, hm, ne_eq, not_false_iff, true_and, false_implies, iff_true]
        exact ⟨_, evalBinary_integer ((if_neg hb).trans (if_neg hm)), rfl⟩
  | mod =>
    simp only [RegularArith, tiny_le_int]
    by_cases hb : b = 0
    · have hE : evalBinary .mod (.integer a : Value ℚ) (.integer b) =
          .error "Modulo by zero" := evalBinary_integer (if_pos hb)
      rw [ArithOp.token, hE]
      simp [hb]
    · exact ⟨fun _ => hb, fun _ => ⟨_, evalBinary_integer (if_neg hb), cast_tmod hb⟩⟩
  | pow => exact ⟨fun _ => trivial, fun _ => ⟨_, rfl, rfl⟩⟩

theorem evalBinary_double [Formats] (ha : Represents a x i) (hb : Represents b y j)
    (hij : (i && j) = false) {r : Except String (Value ℚ)}
    (h : doubleBinary op x y = some r) :
    evalBinary op a b = r := by
  cases ha with
  | integer i =>
    cases hb with
    | integer j => cases hij
    | number y =>
      have h' : doubleBinary op (Exprtk.valToDouble (.integer i : Value ℚ)) y = some r := h
      simp only [evalBinary, isNumeric, Bool.and_self, if_true, Exprtk.valToDouble] at h' ⊢
      rw [h']
  | number x =>
    cases hb with
    | integer j =>
      have h' : doubleBinary op x (Exprtk.valToDouble (.integer j : Value ℚ)) = some r := h
      simp only [evalBinary, isNumeric, Bool.and_self, if_true, Exprtk.valToDouble] at h' ⊢
      rw [h']
    | number y => simp [evalBinary, isNumeric, h, Exprtk.valToDouble]

theorem not_tiny_iff (y : ℚ) :
    lt (fabs y) tiny = false ↔ tiny ≤ |y| := by
  rw [fabs_eq_abs]
  show decide (|y| < tiny) = false ↔ _
  rw [decide_eq_false_iff_not, not_lt]

theorem double_arith_iff [Formats] (op : ArithOp) (ha : Represents a x i)
    (hb : Represents b y j) (hij : (i && j) = false) :
    (∃ v, evalBinary op.token a b = .ok v ∧ valToDouble v = NumExpr.exactArith op x y) ↔
      RegularArith op false x y := by
  cases op with
  | add | sub | mul =>
    simp only [RegularArith, Bool.false_eq_true, false_implies, iff_true]
    exact ⟨_, evalBinary_double ha hb hij rfl, rfl⟩
  | div =>
    simp only [RegularArith, Bool.false_eq_true, false_implies, and_true, ← not_tiny_iff]
    cases hy : lt (fabs y) tiny with
    | true =>
      have hE : evalBinary .divide a b = .error "Division by zero" :=
        evalBinary_double ha hb hij (if_pos hy)
      rw [ArithOp.token, hE]
      simp
    | false =>
      have hE : evalBinary .divide a b = .ok (.number (x / y)) :=
        evalBinary_double ha hb hij (if_neg (by simp [hy]))
      exact ⟨fun _ => rfl, fun _ => ⟨_, hE, rfl⟩⟩
  | mod =>
    simp only [RegularArith, ← not_tiny_iff]
    cases hy : lt (fabs y) tiny with
    | true =>
      have hE : evalBinary .mod a b = .error "Modulo by zero" :=
        evalBinary_double ha hb hij (if_pos hy)
      rw [ArithOp.token, hE]
      simp
    | false =>
      have hE : evalBinary .mod a b = .ok (.number (Double.fmod x y)) :=
        evalBinary_double ha hb hij (if_neg (by simp [hy]))
      exact ⟨fun _ => rfl, fun _ => ⟨_, hE, rfl⟩⟩
  | pow => exact ⟨fun _ => trivial, fun _ => ⟨_, evalBinary_double ha hb hij rfl, rfl⟩⟩

/-- **Arithmetic.** The tree evaluator computes the exact result on regular operands only. -/
theorem arith_iff [Formats] (op : ArithOp) (ha : Represents a x i) (hb : Represents b y j) :
    (∃ v, evalBinary op.token a b = .ok v ∧ valToDouble v = NumExpr.exactArith op x y) ↔
      RegularArith op (i && j) x y := by
  cases hij : (i && j) with
  | false => exact double_arith_iff op ha hb hij
  | true =>
    obtain ⟨a, b, rfl, rfl, rfl, rfl⟩ := ha.integers hb hij
    exact integer_arith_iff op a b

theorem integerValue_iff [Formats] {a b : Int} {p q : Bool}
    (h : integerBinary (D := ℚ) op a b = some (.ok (intOfBool p))) :
    (∃ v, evalBinary op (.integer a) (.integer b) = .ok v ∧ valToDouble v = (ofBool q : ℚ)) ↔ p = q := by
  rw [evalBinary_integer h]
  constructor
  · rintro ⟨v, hv, hx⟩
    cases hv
    revert hx
    cases p <;> cases q <;> simp [intOfBool, Exprtk.valToDouble, ofInt, ofBool]
  · rintro rfl
    refine ⟨_, rfl, ?_⟩
    cases p <;> simp [intOfBool, Exprtk.valToDouble, ofInt, ofBool]

theorem numberValue_iff [Formats] {p q : Bool} (ha : Represents a x i)
    (hb : Represents b y j) (hij : (i && j) = false)
    (h : doubleBinary op x y = some (.ok (Exprtk.ofBool p))) :
    (∃ v, evalBinary op a b = .ok v ∧ valToDouble v = (ofBool q : ℚ)) ↔ p = q := by
  rw [evalBinary_double ha hb hij h]
  constructor
  · rintro ⟨v, hv, hx⟩
    cases hv
    revert hx
    cases p <;> cases q <;> simp [Exprtk.ofBool, Exprtk.valToDouble, ofInt, ofBool]
  · rintro rfl
    refine ⟨_, rfl, ?_⟩
    cases p <;> simp [Exprtk.ofBool, Exprtk.valToDouble, ofInt, ofBool]

theorem eps_pos : (0 : ℚ) < eps := by
  show (0 : ℚ) < 1 / 1000000000
  norm_num

theorem close_iff (x y : ℚ) :
    (|x - y| < eps ↔ x = y) ↔ x = y ∨ eps ≤ |x - y| := by
  constructor
  · intro h
    by_cases hxy : x = y
    · exact .inl hxy
    · exact .inr (not_lt.1 fun hlt => hxy (h.1 hlt))
  · rintro (rfl | h)
    · simpa using eps_pos
    · refine ⟨fun hlt => absurd hlt (not_lt.2 h), ?_⟩
      rintro rfl
      rw [sub_self, abs_zero] at h
      exact absurd h (not_le.2 eps_pos)

theorem int_apart (a b : Int) : (a : ℚ) = b ∨ eps ≤ |(a : ℚ) - b| := by
  by_cases hab : a = b
  · exact .inl (by rw [hab])
  · right
    have h := (eps_lt_int (a - b)).2 (by omega)
    push_cast at h
    exact h.le

theorem integer_cmp_iff [Formats] (op : CmpOp) (a b : Int) :
    (∃ v, evalBinary op.token (.integer a) (.integer b) = .ok v ∧
      valToDouble v = (ofBool (op.eval (a : ℚ) b) : ℚ)) ↔ RegularCmp op a b := by
  have hreg : RegularCmp op (a : ℚ) b := fun _ => int_apart a b
  refine iff_of_true ?_ hreg
  cases op with
  | lt | gt | le | ge => exact (integerValue_iff rfl).2 (by simp [CmpOp.eval])
  | eq => exact (integerValue_iff rfl).2 (by simp [CmpOp.eval, Bool.beq_eq_decide_eq])
  | ne => exact (integerValue_iff rfl).2 (by simp [CmpOp.eval, bne, Bool.beq_eq_decide_eq])

theorem double_cmp_iff [Formats] (op : CmpOp) (ha : Represents a x i)
    (hb : Represents b y j) (hij : (i && j) = false) :
    (∃ v, evalBinary op.token a b = .ok v ∧ valToDouble v = (ofBool (op.eval x y) : ℚ)) ↔
      RegularCmp op x y := by
  cases op with
  | lt | gt | le | ge =>
    exact iff_of_true ((numberValue_iff ha hb hij rfl).2 rfl) (by simp [RegularCmp])
  | eq =>
    refine (numberValue_iff ha hb hij rfl).trans ?_
    simp only [RegularCmp, true_or, forall_const, ← close_iff, fabs_eq_abs, CmpOp.eval]
    show decide (|x - y| < eps) = decide (x = y) ↔ _
    rw [decide_eq_decide]
  | ne =>
    refine (numberValue_iff ha hb hij rfl).trans ?_
    simp only [RegularCmp, or_true, forall_const, ← close_iff, fabs_eq_abs, CmpOp.eval]
    show decide (eps ≤ |x - y|) = decide (x ≠ y) ↔ _
    rw [decide_eq_decide, ← not_lt, not_iff_not]

/-- **Comparisons.** -/
theorem cmp_iff [Formats] (op : CmpOp) (ha : Represents a x i) (hb : Represents b y j) :
    (∃ v, evalBinary op.token a b = .ok v ∧ valToDouble v = (ofBool (op.eval x y) : ℚ)) ↔
      RegularCmp op x y := by
  cases hij : (i && j) with
  | false => exact double_cmp_iff op ha hb hij
  | true =>
    obtain ⟨a, b, rfl, rfl, rfl, rfl⟩ := ha.integers hb hij
    exact integer_cmp_iff op a b

theorem nonzero_eq (x : ℚ) : nonzero x = decide (eps < |x|) := by
  unfold nonzero
  rw [fabs_eq_abs]
  rfl

theorem ne_zero_of_eps (h : eps < |x|) : x ≠ 0 :=
  abs_pos.1 (lt_trans eps_pos h)

/-- **Conjunction.** -/
theorem and_iff [Formats] (ha : Represents a x i) (hb : Represents b y j) :
    (∃ v, evalBinary .and a b = .ok v ∧ valToDouble v = (ofBool (decide (x ≠ 0 ∧ y ≠ 0)) : ℚ)) ↔
      x = 0 ∨ y = 0 ∨ eps < |x| ∧ eps < |y| := by
  cases hij : (i && j) with
  | false =>
    refine (numberValue_iff ha hb hij rfl).trans ?_
    rw [nonzero_eq, nonzero_eq, ← Bool.decide_and, decide_eq_decide]
    constructor
    · intro h
      by_cases hx : x = 0
      · exact .inl hx
      · by_cases hy : y = 0
        · exact .inr (.inl hy)
        · exact .inr (.inr (h.2 ⟨hx, hy⟩))
    · rintro (rfl | rfl | h)
      · simp [not_lt.2 eps_pos.le]
      · simp [not_lt.2 eps_pos.le]
      · exact iff_of_true h ⟨ne_zero_of_eps h.1, ne_zero_of_eps h.2⟩
  | true =>
    obtain ⟨a, b, rfl, rfl, rfl, rfl⟩ := ha.integers hb hij
    refine iff_of_true ((integerValue_iff rfl).2 (by simp [bne, Bool.beq_eq_decide_eq])) ?_
    rw [eps_lt_int, eps_lt_int, Int.cast_eq_zero, Int.cast_eq_zero]
    by_cases h0 : a = 0
    · exact .inl h0
    · by_cases h1 : b = 0
      · exact .inr (.inl h1)
      · exact .inr (.inr ⟨h0, h1⟩)

/-- **Disjunction.** -/
theorem or_iff [Formats] (ha : Represents a x i) (hb : Represents b y j) :
    (∃ v, evalBinary .or a b = .ok v ∧ valToDouble v = (ofBool (decide (x ≠ 0 ∨ y ≠ 0)) : ℚ)) ↔
      x = 0 ∧ y = 0 ∨ eps < |x| ∨ eps < |y| := by
  cases hij : (i && j) with
  | false =>
    refine (numberValue_iff ha hb hij rfl).trans ?_
    rw [nonzero_eq, nonzero_eq, ← Bool.decide_or, decide_eq_decide]
    constructor
    · intro h
      by_cases hxy : x = 0 ∧ y = 0
      · exact .inl hxy
      · exact .inr (h.2 (by rwa [← not_and_or]))
    · rintro (⟨rfl, rfl⟩ | h)
      · simp [not_lt.2 eps_pos.le]
      · exact iff_of_true h (h.imp ne_zero_of_eps ne_zero_of_eps)
  | true =>
    obtain ⟨a, b, rfl, rfl, rfl, rfl⟩ := ha.integers hb hij
    refine iff_of_true ((integerValue_iff rfl).2 (by simp [bne, Bool.beq_eq_decide_eq])) ?_
    rw [eps_lt_int, eps_lt_int, Int.cast_eq_zero, Int.cast_eq_zero, ← not_and_or]
    exact em _

/-- Whether a numeric value is an INTEGER. -/
def kind : Value ℚ → Option Bool
  | .integer _ => some true
  | .number _ => some false
  | _ => none

theorem Represents.of_kind {b : Bool} (hk : kind v = some b) (hx : Exprtk.valToDouble v = x) :
    Represents v x b := by
  subst hx
  cases v <;> cases hk
  · exact .number _
  · exact .integer _

theorem arith_kind [Formats] {op : ArithOp} (ha : Represents a x i) (hb : Represents b y j)
    (hv : evalBinary op.token a b = .ok v) :
    kind v = some (arithInteger op (i && j) x y) := by
  cases hij : (i && j) with
  | false =>
    have hnum : ∀ {r}, doubleBinary op.token x y = some r → r = .ok v := fun hr =>
      (evalBinary_double ha hb hij hr).symm.trans hv
    cases op with
    | div | mod =>
      cases hy : lt (fabs y) tiny with
      | true => cases hnum (if_pos hy)
      | false =>
        cases hnum (if_neg (by simp [hy]))
        rfl
    | add | sub | mul | pow => cases hnum rfl; rfl
  | true =>
    obtain ⟨a, b, rfl, rfl, rfl, rfl⟩ := ha.integers hb hij
    have hint : ∀ {r}, integerBinary op.token a b = some r → r = .ok v := fun hr =>
      (evalBinary_integer hr).symm.trans hv
    cases op with
    | div =>
      by_cases h0 : b = 0
      · cases hint (if_pos h0)
      · by_cases hm : a.tmod b = 0
        · cases hint ((if_neg h0).trans (if_pos hm))
          simp [arithInteger, (isInt_div_iff h0).2 hm, kind]
        · cases hint ((if_neg h0).trans (if_neg hm))
          have hd : ((a : ℚ) / b).isInt = false := by
            rw [← Bool.not_eq_true, isInt_div_iff h0]
            exact hm
          simp [arithInteger, hd, kind]
    | mod =>
      by_cases h0 : b = 0
      · cases hint (if_pos h0)
      · cases hint (if_neg h0)
        rfl
    | add | sub | mul | pow => cases hint rfl; rfl

theorem truth_kind [Formats] (ha : Represents a x i) (hb : Represents b y j)
    (hv : evalBinary op a b = .ok v)
    (hi : ∀ m n, ∃ p, integerBinary (D := ℚ) op m n = some (.ok (intOfBool p)))
    (hd : ∃ p, doubleBinary op x y = some (.ok (Exprtk.ofBool p))) :
    kind v = some (i && j) := by
  cases hij : (i && j) with
  | false =>
    obtain ⟨p, hp⟩ := hd
    rw [evalBinary_double ha hb hij hp] at hv
    cases hv
    rfl
  | true =>
    obtain ⟨a, b, rfl, rfl, rfl, rfl⟩ := ha.integers hb hij
    obtain ⟨p, hp⟩ := hi a b
    rw [evalBinary_integer hp] at hv
    cases hv
    rfl

theorem zero_divisor_throws [Formats] {op : ArithOp} (ha : Represents a x i)
    (hb : Represents b 0 j) (hop : op = .div ∨ op = .mod) (v : Value ℚ) :
    evalBinary op.token a b ≠ .ok v := by
  have hzero : lt (fabs (0 : ℚ)) tiny = true := by
    rw [← Bool.not_eq_false, not_tiny_iff]
    exact fun h => ne_zero_of_tiny h rfl
  intro hv
  cases hij : (i && j) with
  | false =>
    have hnum : ∀ {r}, doubleBinary op.token x 0 = some r → r = .ok v := fun hr =>
      (evalBinary_double ha hb hij hr).symm.trans hv
    rcases hop with rfl | rfl
    · cases hnum (if_pos hzero)
    · cases hnum (if_pos hzero)
  | true =>
    generalize hz : (0 : ℚ) = z at hb
    obtain ⟨a, b, rfl, rfl, rfl, rfl⟩ := ha.integers hb hij
    have h0 : b = 0 := by exact_mod_cast hz.symm
    have hint : ∀ {r}, integerBinary op.token a b = some r → r = .ok v := fun hr =>
      (evalBinary_integer hr).symm.trans hv
    rcases hop with rfl | rfl
    · cases hint (if_pos h0)
    · cases hint (if_pos h0)

end Operators

/-! Lowering and evaluation side by side. -/

section Agreement
open Exprtk (EnvId State Host Value Affords evaluators readVariable valToDouble)

set_option linter.unusedSectionVars false
variable [Formats] {w : World ℚ} {ρ : Name → Value ℚ}

/-- The variables of the expression are bound to numbers. -/
def Numbers (ρ : Name → Value ℚ) (t : NumExpr) : Prop :=
  ∀ x ∈ t.vars, ∃ y b, Represents (ρ x) y b

theorem Numbers.left {xs : NumExpr} {l r : NumExpr} (h : Numbers ρ xs)
    (hx : xs.vars = l.vars ++ r.vars) : Numbers ρ l :=
  fun x hm => h x (by rw [hx]; exact List.mem_append_left _ hm)

theorem Numbers.right {xs : NumExpr} {l r : NumExpr} (h : Numbers ρ xs)
    (hx : xs.vars = l.vars ++ r.vars) : Numbers ρ r :=
  fun x hm => h x (by rw [hx]; exact List.mem_append_right _ hm)

/-- The tree has a value, and it is the one the lowered code computes. -/
def Agrees (w : World ℚ) (ρ : Name → Value ℚ) (t : NumExpr) : Prop :=
  ∃ v, t.treeValue ρ = .ok v ∧ valToDouble v = evalExpr w (fun x => valToDouble (ρ x)) (t.lower w)

/-- The tree evaluates to the exact value. -/
def Exactly (ρ : Name → Value ℚ) (t : NumExpr) : Prop :=
  ∃ v, t.treeValue ρ = .ok v ∧ Represents v (t.exact ρ) (t.isInteger ρ)

theorem treeValue_binary {op : BinOp} {l r : NumExpr} {a b : Value ℚ}
    (hl : l.treeValue ρ = .ok a) (hr : r.treeValue ρ = .ok b) :
    (do evalBinary op (← l.treeValue ρ) (← r.treeValue ρ)) = evalBinary op a b := by
  rw [hl, hr]
  rfl

theorem exactly_of_regular : ∀ {t : NumExpr}, Numbers ρ t → t.Regular ρ → Exactly ρ t
  | .number x, _, _ => ⟨_, rfl, .number x⟩
  | .integer i, _, _ => ⟨_, rfl, .integer i⟩
  | .var x, hn, _ => by
    obtain ⟨y, b, hy⟩ := hn x (List.mem_singleton.2 rfl)
    refine ⟨_, rfl, .of_kind ?_ rfl⟩
    simp only [NumExpr.isInteger]
    cases hy' : ρ x <;> rw [hy'] at hy <;> cases hy <;> rfl
  | .neg e, hn, hr => by
    obtain ⟨v, hv, hx⟩ := exactly_of_regular (t := e) hn hr
    refine ⟨.number (0 - e.exact ρ), ?_, .of_kind rfl (zero_sub _)⟩
    rw [NumExpr.treeValue, hv]
    exact evalBinary_double (.number 0) hx rfl rfl
  | .plus e, hn, hr => by
    obtain ⟨v, hv, hx⟩ := exactly_of_regular (t := e) hn hr
    refine ⟨.number (0 + e.exact ρ), ?_, .of_kind rfl (zero_add _)⟩
    rw [NumExpr.treeValue, hv]
    exact evalBinary_double (.number 0) hx rfl rfl
  | .not _, _, hr => hr.elim
  | .arith op l r, hn, hr => by
    obtain ⟨a, ha, hx⟩ := exactly_of_regular (hn.left rfl) hr.1
    obtain ⟨b, hb, hy⟩ := exactly_of_regular (hn.right rfl) hr.2.1
    obtain ⟨v, hv, hval⟩ := (arith_iff op hx hy).2 hr.2.2
    refine ⟨v, (treeValue_binary ha hb).trans hv, .of_kind ?_ hval⟩
    rw [arith_kind hx hy hv]
    cases op <;> rfl
  | .cmp op l r, hn, hr => by
    obtain ⟨a, ha, hx⟩ := exactly_of_regular (hn.left rfl) hr.1
    obtain ⟨b, hb, hy⟩ := exactly_of_regular (hn.right rfl) hr.2.1
    obtain ⟨v, hv, hval⟩ := (cmp_iff op hx hy).2 hr.2.2
    refine ⟨v, (treeValue_binary ha hb).trans hv, .of_kind ?_ hval⟩
    refine truth_kind hx hy hv (fun m n => ?_) ?_
    · cases op <;> exact ⟨_, rfl⟩
    · cases op <;> exact ⟨_, rfl⟩
  | .and l r, hn, hr => by
    obtain ⟨a, ha, hx⟩ := exactly_of_regular (hn.left rfl) hr.1
    obtain ⟨b, hb, hy⟩ := exactly_of_regular (hn.right rfl) hr.2.1
    obtain ⟨v, hv, hval⟩ := (and_iff hx hy).2 hr.2.2
    refine ⟨v, (treeValue_binary ha hb).trans hv, .of_kind ?_ hval⟩
    exact truth_kind hx hy hv (fun m n => ⟨_, rfl⟩) ⟨_, rfl⟩
  | .or l r, hn, hr => by
    obtain ⟨a, ha, hx⟩ := exactly_of_regular (hn.left rfl) hr.1
    obtain ⟨b, hb, hy⟩ := exactly_of_regular (hn.right rfl) hr.2.1
    obtain ⟨v, hv, hval⟩ := (or_iff hx hy).2 hr.2.2
    refine ⟨v, (treeValue_binary ha hb).trans hv, .of_kind ?_ hval⟩
    exact truth_kind hx hy hv (fun m n => ⟨_, rfl⟩) ⟨_, rfl⟩

theorem agrees_of_regular (hw : w.Exact) {t : NumExpr} (hn : Numbers ρ t) (hr : t.Regular ρ) :
    Agrees w ρ t := by
  obtain ⟨v, hv, hx⟩ := exactly_of_regular hn hr
  exact ⟨v, hv, hx.valToDouble.trans (lower_exact hw hr.defined).symm⟩

theorem not_throws {e : NumExpr} {v : Value ℚ} (he : Exactly ρ e) :
    (NumExpr.not e).treeValue ρ ≠ .ok v := by
  obtain ⟨a, ha, hx⟩ := he
  rw [NumExpr.treeValue, ha]
  generalize e.exact ρ = x at hx
  generalize e.isInteger ρ = i at hx
  intro hv
  cases hx <;> cases hv

theorem operands_exact {op : BinOp} {t l r : NumExpr} (hn : Numbers ρ t)
    (hvars : t.vars = l.vars ++ r.vars)
    (ht : t.treeValue ρ = do evalBinary op (← l.treeValue ρ) (← r.treeValue ρ))
    (hl : (∀ u ∈ l.subexprs, Agrees w ρ u) → l.Regular ρ)
    (hr : (∀ u ∈ r.subexprs, Agrees w ρ u) → r.Regular ρ)
    (h : ∀ u ∈ t :: (l.subexprs ++ r.subexprs), Agrees w ρ u) :
    l.Regular ρ ∧ r.Regular ρ ∧ ∃ a b v, Represents a (l.exact ρ) (l.isInteger ρ) ∧
      Represents b (r.exact ρ) (r.isInteger ρ) ∧ evalBinary op a b = .ok v ∧
      valToDouble v = evalExpr w (fun x => valToDouble (ρ x)) (t.lower w) := by
  have hl := hl fun u hu => h u (List.mem_cons_of_mem _ (List.mem_append_left _ hu))
  have hr := hr fun u hu => h u (List.mem_cons_of_mem _ (List.mem_append_right _ hu))
  obtain ⟨v, hv, hval⟩ := h t (List.mem_cons_self ..)
  obtain ⟨a, ha, hx⟩ := exactly_of_regular (hn.left hvars) hl
  obtain ⟨b, hb, hy⟩ := exactly_of_regular (hn.right hvars) hr
  rw [ht, treeValue_binary ha hb] at hv
  exact ⟨hl, hr, a, b, v, hx, hy, hv, hval⟩

theorem regular_of_agrees (hw : w.Exact) : ∀ {t : NumExpr}, Numbers ρ t →
    (∀ u ∈ t.subexprs, Agrees w ρ u) → t.Regular ρ
  | .number _, _, _ | .integer _, _, _ | .var _, _, _ => trivial
  | .neg e, hn, h | .plus e, hn, h =>
    regular_of_agrees (t := e) hw hn fun u hu => h u (List.mem_cons_of_mem _ hu)
  | .not e, hn, h => by
    have he : e.Regular ρ :=
      regular_of_agrees (t := e) hw hn fun u hu => h u (List.mem_cons_of_mem _ hu)
    obtain ⟨v, hv, _⟩ := h (.not e) (List.mem_cons_self ..)
    exact not_throws (exactly_of_regular (t := e) hn he) hv
  | .arith op l r, hn, h => by
    obtain ⟨hl, hr, a, b, v, hx, hy, hv, hval⟩ := operands_exact hn rfl rfl
      (regular_of_agrees hw (hn.left rfl)) (regular_of_agrees hw (hn.right rfl)) h
    have hdiv : op = .div ∨ op = .mod → r.exact ρ ≠ 0 := fun hop h0 =>
      zero_divisor_throws hx (h0 ▸ hy) hop v hv
    rw [lower_exact (t := .arith op l r) hw ⟨hl.defined, hr.defined, hdiv⟩] at hval
    exact ⟨hl, hr, (arith_iff op hx hy).1 ⟨v, hv, hval⟩⟩
  | .cmp op l r, hn, h => by
    obtain ⟨hl, hr, a, b, v, hx, hy, hv, hval⟩ := operands_exact hn rfl rfl
      (regular_of_agrees hw (hn.left rfl)) (regular_of_agrees hw (hn.right rfl)) h
    rw [lower_exact (t := .cmp op l r) hw ⟨hl.defined, hr.defined⟩] at hval
    exact ⟨hl, hr, (cmp_iff op hx hy).1 ⟨v, hv, hval⟩⟩
  | .and l r, hn, h => by
    obtain ⟨hl, hr, a, b, v, hx, hy, hv, hval⟩ := operands_exact hn rfl rfl
      (regular_of_agrees hw (hn.left rfl)) (regular_of_agrees hw (hn.right rfl)) h
    rw [lower_exact (t := .and l r) hw ⟨hl.defined, hr.defined⟩] at hval
    exact ⟨hl, hr, (and_iff hx hy).1 ⟨v, hv, hval⟩⟩
  | .or l r, hn, h => by
    obtain ⟨hl, hr, a, b, v, hx, hy, hv, hval⟩ := operands_exact hn rfl rfl
      (regular_of_agrees hw (hn.left rfl)) (regular_of_agrees hw (hn.right rfl)) h
    rw [lower_exact (t := .or l r) hw ⟨hl.defined, hr.defined⟩] at hval
    exact ⟨hl, hr, (or_iff hx hy).1 ⟨v, hv, hval⟩⟩

theorem sub_regular : ∀ {t : NumExpr}, Numbers ρ t → t.Regular ρ → ∀ u ∈ t.subexprs,
    Numbers ρ u ∧ u.Regular ρ
  | .number _, hn, hr, u, hu | .integer _, hn, hr, u, hu | .var _, hn, hr, u, hu => by
    cases List.mem_singleton.1 hu
    exact ⟨hn, hr⟩
  | .neg e, hn, hr, u, hu | .plus e, hn, hr, u, hu => by
    rcases List.mem_cons.1 hu with rfl | hu
    · exact ⟨hn, hr⟩
    · exact sub_regular (t := e) hn hr u hu
  | .not _, _, hr, _, _ => hr.elim
  | .arith _ l r, hn, hr, u, hu | .cmp _ l r, hn, hr, u, hu | .and l r, hn, hr, u, hu
  | .or l r, hn, hr, u, hu => by
    rcases List.mem_cons.1 hu with rfl | hu
    · exact ⟨hn, hr⟩
    · rcases List.mem_append.1 hu with hu | hu
      · exact sub_regular (hn.left rfl) hr.1 u hu
      · exact sub_regular (hn.right rfl) hr.2.1 u hu

variable {Θ : Type}

/-- The tree evaluator ends normally with a value, and the lowered code computes the same
    number from the same variables. The lowered code cannot throw, so an expression that
    throws has no such outcome. -/
def SameOutcome (h : Host ℚ Θ) (w : World ℚ) (e : EnvId) (s : State ℚ Θ) (t : NumExpr) : Prop :=
  ∃ v s', (∀ n, t.size ≤ n → (evaluators h n).eval t.toNode e s = .ok v s') ∧
    (s'.envs e).flow = .normal ∧ (s'.envs e).aborted = false ∧
    Computes w t (fun x => valToDouble (readVariable s e x)) (valToDouble v)

theorem sameOutcome_iff {h : Host ℚ Θ} {e : EnvId} {s : State ℚ Θ} {t : NumExpr}
    (ha : Affords h e t.size s) :
    SameOutcome h w e s t ↔ Agrees w (readVariable s e) t := by
  have hrun := fun n hn => eval_numeric (readVariable s e) t n s hn ha rfl
  constructor
  · rintro ⟨v, s', hev, hflow, _, hcomp⟩
    have hend := hrun t.size le_rfl
    rw [hev t.size le_rfl] at hend
    cases hv : t.treeValue (readVariable s e) with
    | ok u =>
      rw [hv] at hend
      cases hend
      exact ⟨_, hv, hcomp.unique (lower_computes w t _)⟩
    | error msg =>
      rw [hv] at hend
      obtain ⟨u, s'', hr, hthrow⟩ := hend
      cases hr
      rw [hflow] at hthrow
      cases hthrow
  · rintro ⟨v, hv, hval⟩
    refine ⟨v, charge e t.size s, fun n hn => ?_, ?_, ?_, ?_⟩
    · have hend := hrun n hn
      rw [hv] at hend
      exact hend
    · rw [charge_flow]
      exact ha.flow
    · rw [charge_aborted]
      exact ha.aborted
    · rw [hval]
      exact lower_computes w t _

theorem size_le_of_mem : ∀ {t u : NumExpr}, u ∈ t.subexprs → u.size ≤ t.size
  | .number _, _, hu | .integer _, _, hu | .var _, _, hu => by cases List.mem_singleton.1 hu; exact le_rfl
  | .neg e, u, hu | .plus e, u, hu | .not e, u, hu => by
    rcases List.mem_cons.1 hu with rfl | hu
    · exact le_rfl
    · exact le_trans (size_le_of_mem hu) (Nat.le_succ _)
  | .arith _ l r, u, hu | .cmp _ l r, u, hu | .and l r, u, hu | .or l r, u, hu => by
    rcases List.mem_cons.1 hu with rfl | hu
    · exact le_rfl
    · rcases List.mem_append.1 hu with hu | hu
      · have := size_le_of_mem hu
        simp only [NumExpr.size]
        omega
      · have := size_le_of_mem hu
        simp only [NumExpr.size]
        omega

/-- **Numeric lowering against the tree evaluator.** With the variables bound to numbers and
    the nodes within the budget, an expression and all its parts have the same outcome on
    both sides exactly when it is regular. -/
theorem numeric_lowering_agrees_iff (h : Host ℚ Θ) (w : World ℚ) (hw : w.Exact) (e : EnvId)
    (s : State ℚ Θ) (t : NumExpr) (hn : Numbers (readVariable s e) t)
    (ha : Affords h e t.size s) :
    (∀ u ∈ t.subexprs, SameOutcome h w e s u) ↔ t.Regular (readVariable s e) := by
  have hsame : ∀ u ∈ t.subexprs, SameOutcome h w e s u ↔ Agrees w (readVariable s e) u :=
    fun u hu => sameOutcome_iff (ha.mono (size_le_of_mem hu))
  constructor
  · intro hall
    exact regular_of_agrees hw hn fun u hu => (hsame u hu).1 (hall u hu)
  · intro hr u hu
    obtain ⟨hnu, hru⟩ := sub_regular hn hr u hu
    exact (hsame u hu).2 (agrees_of_regular hw hnu hru)

/-- Exact arithmetic as a machine; Lean's division by zero is its zero-divisor case. -/
def exactWorld : World ℚ := ⟨NumExpr.exactArith, fun _ _ => ([], 0)⟩

theorem exactWorld_exact : exactWorld.Exact := fun _ _ _ _ => rfl

theorem fresh_affords (vars : List (Name × Value ℚ)) {k : Nat} (hk : k ≤ 100000) :
    Affords Host.bare 0 k (State.fresh vars) where
  flow := rfl
  aborted := rfl
  hook h := by cases h
  nodes _ := by
    simp only [State.fresh]
    omega

end Agreement

section Samples
open Exprtk (Host State readVariable)

theorem numeric_lowering_agrees_half :
    readVariable (State.fresh [("x", .number 3)]) 0 "x" = .number (3 : ℚ) ∧
      ∀ u ∈ (NumExpr.cmp .lt (.arith .div (.var "x") (.integer 2)) (.number 5)).subexprs,
        SameOutcome Host.bare exactWorld 0 (State.fresh [("x", .number 3)]) u := by
  refine ⟨rfl, (numeric_lowering_agrees_iff Host.bare exactWorld exactWorld_exact 0
    (State.fresh [("x", .number 3)]) (.cmp .lt (.arith .div (.var "x") (.integer 2)) (.number 5))
    ?_ (fresh_affords _ (by decide))).2 ?_⟩
  · intro x hx
    cases List.mem_singleton.1 hx
    exact ⟨3, false, .number 3⟩
  · refine ⟨⟨trivial, trivial, (tiny_le_int 2).2 (by decide), fun h => ?_⟩, trivial, ?_⟩
    · cases h
    · rintro (h | h) <;> cases h

/-- `x / y` with `y` zero: the tree evaluator throws, the lowered code goes on. -/
theorem division_by_zero_differs :
    ¬SameOutcome Host.bare exactWorld 0 (State.fresh [("x", .number 1), ("y", .number 0)])
      (.arith .div (.var "x") (.var "y")) := by
  rw [sameOutcome_iff (fresh_affords _ (by decide))]
  rintro ⟨v, hv, _⟩
  exact zero_divisor_throws (.number 1) (.number 0) (.inl rfl) v hv

end Samples

end TurboScript.Mir
