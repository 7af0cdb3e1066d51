import TurboScript.Mir.Fp

/- Conditions: `ts_compile_branch_false` and `ts_compile_branch_true` against the value
   `ts_compile_expr` computes, over doubles.

   1. The lowering with the folding of constants (`ts_try_fold_constant`), and what the three
      functions mean. An equality that goes to the runtime is a `value` of the tree.
   2. What branches do: `branch_true` jumps exactly when the value is not zero. `branch_false`
      negates the comparison, which is right unless an operand of `<`, `<=`, `>`, `>=` is NaN
      (`AgreesFalse`).
   3. With the language's own test, `fabs(x) > 1e-9`, the branches agree exactly where the
      condition is `Decided`: its operands are ordered, and a number that is tested as it is is
      zero or above the threshold (`branch_lowering_agrees_iff`). -/
namespace TurboScript.Mir.Fp
open Lib Compiler Exprtk
open Exprtk (Ieee Ext PowFn powInt)

variable {D : Type} [Ieee D]

/-! The lowering. -/

/-- The operator applied by `ts_try_fold_constant`: a zero divisor folds to zero. -/
def foldArith (op : ArithOp) (l r : D) : D :=
  if op = .div ∧ isZero r = true then 0 else evalArith op l r

def tryFoldConstant : Expr D → Option D
  | .num d => some d
  | .neg e => do return Double.neg (← tryFoldConstant e)
  | .plus e => tryFoldConstant e
  | .not e => do return truth (isZero (← tryFoldConstant e))
  | .arith op l r => do return foldArith op (← tryFoldConstant l) (← tryFoldConstant r)
  | .cmp op l r => do return truth (evalCmp op (← tryFoldConstant l) (← tryFoldConstant r))
  | .and l r => do
    return truth (!isZero (← tryFoldConstant l) && !isZero (← tryFoldConstant r))
  | .or l r => do
    return truth (!isZero (← tryFoldConstant l) || !isZero (← tryFoldConstant r))
  | _ => none

def foldFirst (f : Option D) (value : ValueCode D) : ValueCode D :=
  match f with
  | some d => lowerNum d
  | none => value

mutual
/-- `ts_compile_expr`, `ts_compile_branch_false` and `ts_compile_branch_true`. -/
def exprLowering : Expr D → Lowering D
  | .num d => .ofValue (lowerNum d)
  | .var x => .ofValue (lowerVar x)
  | .neg e => .ofValue (foldFirst (tryFoldConstant (.neg e)) (lowerNeg (exprLowering e)))
  | .not e =>
    { Lowering.ofValue (foldFirst (tryFoldConstant (.not e)) (lowerNot (exprLowering e))) with
      branchFalse := branchOn (exprLowering e).value .ne }
  | .plus e => .ofValue (foldFirst (tryFoldConstant (.plus e)) (exprLowering e).value)
  | .arith op l r =>
    .ofValue (foldFirst (tryFoldConstant (.arith op l r)) (lowerArith op (exprLowering l) (exprLowering r)))
  | .cmp op l r =>
    { value := foldFirst (tryFoldConstant (.cmp op l r)) (lowerCmp op (exprLowering l) (exprLowering r))
      branchFalse := branchCmp op.negate (exprLowering l) (exprLowering r)
      branchTrue := branchCmp op (exprLowering l) (exprLowering r) }
  | .and l r =>
    { Lowering.ofValue (foldFirst (tryFoldConstant (.and l r))
        (lowerShortCircuit .eq 0 (exprLowering l) (exprLowering r))) with
      branchFalse := branchFalseAnd (exprLowering l) (exprLowering r) }
  | .or l r =>
    { Lowering.ofValue (foldFirst (tryFoldConstant (.or l r))
        (lowerShortCircuit .ne 1 (exprLowering l) (exprLowering r))) with
      branchFalse := branchFalseOr (exprLowering l) (exprLowering r) }
  | .ite c t e => .ofValue (lowerIte (exprLowering c) (exprLowering t) (some (exprLowering e)))
  | .iteNoElse c t => .ofValue (lowerIte (exprLowering c) (exprLowering t) none)
  | .assign x e => .ofValue (lowerAssign x (exprLowering e))
  | .value node _ => .ofValue (emitValueExpr node)
  | .valueAssign x node _ => .ofValue (emitValueExprAssign x node)
  | .throw node _ => .ofValue (lowerThrow node)
  | .call node sync reload args => .ofValue (lowerCall node sync reload (argsLowering args))
  | .unsupported msg => .ofValue fun _ => .error msg

def argsLowering : Args D → ArgsCode D
  | .nil => fun c => .ok (c, [], [])
  | .cons e rest => fun c => do
    let (c, is, r) ← (exprLowering e).value c
    let (c, js, rs) ← argsLowering rest c
    .ok (c, is ++ js, r :: rs)
end

variable (h : Helper D)

def foldFirstValue (f : Option D) (value : Vars → Store D → Store D × Loc D) :
    Vars → Store D → Store D × Loc D :=
  match f with
  | some d => valueNum d
  | none => value

mutual
def meaning : Expr D → Meaning D
  | .num d => .ofValue id (valueNum d)
  | .var x => .ofValue (afterVar x) (valueVar x)
  | .neg e =>
    .ofValue (meaning e).after (foldFirstValue (tryFoldConstant (.neg e))
      (valueMap (fun x => Double.sub 0 x) (meaning e)))
  | .not e =>
    { Meaning.ofValue (meaning e).after (foldFirstValue (tryFoldConstant (.not e))
        (valueMap (fun x => truth (isZero x)) (meaning e))) with
      branchFalse := testValue (meaning e).value .ne }
  | .plus e =>
    .ofValue (meaning e).after (foldFirstValue (tryFoldConstant (.plus e)) (meaning e).value)
  | .arith op l r =>
    .ofValue (fun vs => (meaning r).after ((meaning l).after vs))
      (foldFirstValue (tryFoldConstant (.arith op l r))
        (valueBinary (evalArith op) (meaning l) (meaning r)))
  | .cmp op l r =>
    { after := fun vs => (meaning r).after ((meaning l).after vs)
      value := foldFirstValue (tryFoldConstant (.cmp op l r))
        (valueBinary (fun a b => truth (evalCmp op a b)) (meaning l) (meaning r))
      branchFalse := testOperands op.negate (meaning l) (meaning r)
      branchTrue := testOperands op (meaning l) (meaning r) }
  | .and l r =>
    { Meaning.ofValue (fun vs => (meaning r).after ((meaning l).after vs))
        (foldFirstValue (tryFoldConstant (.and l r)) (valueShortCircuit .eq 0 (meaning l) (meaning r))) with
      branchFalse := testFalseAnd (meaning l) (meaning r) }
  | .or l r =>
    { Meaning.ofValue (fun vs => (meaning r).after ((meaning l).after vs))
        (foldFirstValue (tryFoldConstant (.or l r)) (valueShortCircuit .ne 1 (meaning l) (meaning r))) with
      branchFalse := testFalseOr (meaning l) (meaning r) }
  | .ite c t e =>
    .ofValue (afterIte (meaning c) (meaning t) (some (meaning e)))
      (valueIte (meaning c) (meaning t) (some (meaning e)))
  | .iteNoElse c t =>
    .ofValue (afterIte (meaning c) (meaning t) none) (valueIte (meaning c) (meaning t) none)
  | .assign x e => .ofValue (afterAssign x (meaning e)) (valueAssign x (meaning e))
  | .value node _ => .ofValue (afterHelper true true) (valueHelper h node true true [])
  | .valueAssign x node _ => .ofValue (afterHelperAssign x) (valueHelperAssign h x node)
  | .throw node _ => .ofValue (afterHelper true true) (valueHelper h node true true [])
  | .call node sync reload args =>
    .ofValue (fun vs => afterHelper sync reload ((argsMeaning args).after vs))
      (valueCall h node sync reload (argsMeaning args))
  -- the lowering fails
  | .unsupported _ => .ofValue id (valueNum 0)

def argsMeaning : Args D → ArgsMeaning D
  | .nil => .nil
  | .cons e rest => .cons (meaning e) (argsMeaning rest)
end

variable {h}

/-! The code does what the meaning says. -/

theorem after_of_fold : ∀ {e : Expr D} {d : D}, tryFoldConstant e = some d →
    ∀ vs, (meaning h e).after vs = vs
  | .num _, _, _, _ => rfl
  | .neg _, _, hf, vs | .not _, _, hf, vs => by
    obtain ⟨a, ha, -⟩ := Option.bind_eq_some_iff.1 hf
    exact after_of_fold ha vs
  | .plus e, _, hf, vs => after_of_fold (e := e) hf vs
  | .arith _ _ _, _, hf, vs | .cmp _ _ _, _, hf, vs | .and _ _, _, hf, vs | .or _ _, _, hf, vs => by
    obtain ⟨a, ha, hf⟩ := Option.bind_eq_some_iff.1 hf
    obtain ⟨b, hb, -⟩ := Option.bind_eq_some_iff.1 hf
    exact (after_of_fold hb _).trans (after_of_fold ha vs)

theorem value_of_fold {e : Expr D} {d : D} (hf : tryFoldConstant e = some d) (vs : Vars)
    (σ : Store D) : (meaning h e).value vs σ = (σ, .val d) := by
  cases e with
  | num d' =>
    cases hf
    rfl
  | neg _ | not _ | plus _ | arith _ _ _ | cmp _ _ _ | and _ _ | or _ _ =>
    simp only [meaning, Meaning.ofValue, hf, foldFirstValue]
    rfl
  | _ => cases hf

theorem foldFirst_yields {e : Expr D} {value : ValueCode D} {v : Vars → Store D → Store D × Loc D}
    (hv : Yields h value (meaning h e).after v) :
    Yields h (foldFirst (tryFoldConstant e) value) (meaning h e).after
      (foldFirstValue (tryFoldConstant e) v) := by
  cases hf : tryFoldConstant e with
  | none => exact hv
  | some d =>
    have hid : (meaning h e).after = id := funext (after_of_fold hf)
    rw [hid]
    intro c c' is r hc
    exact num_yields d hc

mutual
theorem simulates : ∀ e : Expr D, Simulates h (exprLowering e) (meaning h e)
  | .num d => .ofValue (num_yields d)
  | .var x => .ofValue (var_yields x)
  | .neg e => .ofValue (foldFirst_yields (e := .neg e) (neg_yields (simulates e).value))
  | .not e =>
    { Simulates.ofValue (foldFirst_yields (e := .not e) (not_yields (simulates e).value)) with
      branchFalse := branchOn_branches (simulates e).value .ne }
  | .plus e => .ofValue (foldFirst_yields (e := .plus e) (simulates e).value)
  | .arith op l r =>
    .ofValue (foldFirst_yields (e := .arith op l r)
      (arith_yields (simulates l).value (simulates r).value op))
  | .cmp op l r =>
    ⟨foldFirst_yields (e := .cmp op l r) (cmp_yields (simulates l).value (simulates r).value op),
      cmp_branches (simulates l).value (simulates r).value op.negate,
      cmp_branches (simulates l).value (simulates r).value op⟩
  | .and l r =>
    { Simulates.ofValue (foldFirst_yields (e := .and l r)
        (shortCircuit_yields (simulates l).value (simulates r).value .eq 0)) with
      branchFalse := falseAnd_branches (simulates l) (simulates r) }
  | .or l r =>
    { Simulates.ofValue (foldFirst_yields (e := .or l r)
        (shortCircuit_yields (simulates l).value (simulates r).value .ne 1)) with
      branchFalse := falseOr_branches (simulates l) (simulates r) }
  | .ite c t e =>
    .ofValue (ite_yields (E := some (exprLowering e)) (M := some (meaning h e)) (simulates c)
      (simulates t).value (simulates e).value)
  | .iteNoElse c t =>
    .ofValue (ite_yields (E := none) (M := none) (simulates c) (simulates t).value trivial)
  | .assign x e => .ofValue (assign_yields (simulates e).value x)
  | .value node _ => .ofValue (valueExpr_yields node)
  | .valueAssign x node _ => .ofValue (valueExprAssign_yields x node)
  | .throw node _ => .ofValue (throw_yields node)
  | .call node sync reload args => .ofValue (call_yields (simulates_args args) node sync reload)
  | .unsupported _ => .ofValue fun hc => nomatch hc

theorem simulates_args : ∀ args : Args D, YieldsArgs h (argsLowering args) (argsMeaning h args)
  | .nil => args_nil
  | .cons e rest => args_cons (simulates e).value (simulates_args rest)
end

/-! What branches do. -/

/-- The operands for which the negated comparison is false exactly when the comparison is true:
no NaN, for an order. -/
def Ordered (op : CmpOp) (a b : D) : Prop :=
  op = .eq ∨ op = .ne ∨ Ieee.isNan a = false ∧ Ieee.isNan b = false

theorem evalCmp_nan {op : CmpOp} {a b : D} (h₁ : op ≠ .eq) (h₂ : op ≠ .ne)
    (hn : (Ieee.isNan a || Ieee.isNan b) = true) : evalCmp op a b = false := by
  have hn' : (Ieee.isNan b || Ieee.isNan a) = true := by rw [Bool.or_comm]; exact hn
  cases op with
  | eq => exact absurd rfl h₁
  | ne => exact absurd rfl h₂
  | lt => exact Ieee.lt_nan a b hn
  | gt => exact Ieee.lt_nan b a hn'
  | le => exact Ieee.le_nan a b hn
  | ge => exact Ieee.le_nan b a hn'

theorem evalCmp_negate_iff (op : CmpOp) (a b : D) :
    evalCmp op.negate a b = (!evalCmp op a b) ↔ Ordered op a b := by
  by_cases h₁ : op = .eq
  · subst h₁
    exact ⟨fun _ => .inl rfl, fun _ => rfl⟩
  by_cases h₂ : op = .ne
  · subst h₂
    exact ⟨fun _ => .inr (.inl rfl), fun _ => (Bool.not_not _).symm⟩
  have hneg₁ : op.negate ≠ .eq := by cases op <;> simp_all [CmpOp.negate]
  have hneg₂ : op.negate ≠ .ne := by cases op <;> simp_all [CmpOp.negate]
  cases hn : Ieee.isNan a || Ieee.isNan b with
  | true =>
    rw [evalCmp_nan h₁ h₂ hn, evalCmp_nan hneg₁ hneg₂ hn]
    refine ⟨fun hf => absurd hf (by decide), ?_⟩
    intro ho
    obtain ho | ho | ⟨ha, hb⟩ := ho
    · exact absurd ho h₁
    · exact absurd ho h₂
    · simp [ha, hb] at hn
  | false =>
    obtain ⟨ha, hb⟩ := Bool.or_eq_false_iff.1 hn
    refine ⟨fun _ => .inr (.inr ⟨ha, hb⟩), fun _ => ?_⟩
    cases op with
    | eq => exact absurd rfl h₁
    | ne => exact absurd rfl h₂
    | lt => exact Ieee.le_eq b a hb ha
    | gt => exact Ieee.le_eq a b ha hb
    | le =>
      show Double.lt b a = !Double.le a b
      rw [Ieee.le_eq a b ha hb, Bool.not_not]
    | ge =>
      show Double.lt a b = !Double.le b a
      rw [Ieee.le_eq b a hb ha, Bool.not_not]

theorem Ordered.of_true {op : CmpOp} {a b : D} (ht : evalCmp op a b = true) : Ordered op a b := by
  by_cases h₁ : op = .eq
  · exact .inl h₁
  by_cases h₂ : op = .ne
  · exact .inr (.inl h₂)
  cases hn : Ieee.isNan a || Ieee.isNan b with
  | true => exact absurd ht (by rw [evalCmp_nan h₁ h₂ hn]; exact Bool.false_ne_true)
  | false => exact .inr (.inr (Bool.or_eq_false_iff.1 hn))

/-! The logical operators compute the same folded. -/

omit [Ieee D] in
theorem foldFirstValue_eq {f : Option D} {v : Vars → Store D → Store D × Loc D} {vs : Vars}
    {σ : Store D} (hf : ∀ d, f = some d → v vs σ = (σ, .val d)) :
    foldFirstValue f v vs σ = v vs σ := by
  cases f with
  | none => rfl
  | some d => exact (hf d rfl).symm

theorem value_not (e : Expr D) (vs : Vars) (σ : Store D) :
    (meaning h (.not e)).value vs σ = valueMap (fun x => truth (isZero x)) (meaning h e) vs σ := by
  refine foldFirstValue_eq fun d hf => ?_
  obtain ⟨a, ha, hd⟩ := Option.bind_eq_some_iff.1 hf
  cases hd
  simp only [valueMap, value_of_fold ha]
  rfl

theorem value_cmp (op : CmpOp) (l r : Expr D) (vs : Vars) (σ : Store D) :
    (meaning h (.cmp op l r)).value vs σ =
      valueBinary (fun a b => truth (evalCmp op a b)) (meaning h l) (meaning h r) vs σ := by
  refine foldFirstValue_eq fun d hf => ?_
  obtain ⟨a, ha, hf⟩ := Option.bind_eq_some_iff.1 hf
  obtain ⟨b, hb, hd⟩ := Option.bind_eq_some_iff.1 hf
  cases hd
  simp only [valueBinary, operands, value_of_fold ha, value_of_fold hb]
  rfl

theorem value_and (l r : Expr D) (vs : Vars) (σ : Store D) : (meaning h (.and l r)).value vs σ =
      valueShortCircuit .eq 0 (meaning h l) (meaning h r) vs σ := by
  refine foldFirstValue_eq fun d hf => ?_
  obtain ⟨a, ha, hf⟩ := Option.bind_eq_some_iff.1 hf
  obtain ⟨b, hb, hd⟩ := Option.bind_eq_some_iff.1 hf
  cases hd
  simp only [valueShortCircuit, value_of_fold ha, value_of_fold hb, Loc.read, evalCmp_eq_zero]
  cases isZero a <;> rfl

theorem value_or (l r : Expr D) (vs : Vars) (σ : Store D) : (meaning h (.or l r)).value vs σ =
      valueShortCircuit .ne 1 (meaning h l) (meaning h r) vs σ := by
  refine foldFirstValue_eq fun d hf => ?_
  obtain ⟨a, ha, hf⟩ := Option.bind_eq_some_iff.1 hf
  obtain ⟨b, hb, hd⟩ := Option.bind_eq_some_iff.1 hf
  cases hd
  simp only [valueShortCircuit, value_of_fold ha, value_of_fold hb, Loc.read, evalCmp_ne_zero]
  cases isZero a <;> rfl

/-! Values of the logical operators as numbers. -/

theorem isZero_not (e : Expr D) (vs : Vars) (σ : Store D) :
    isZero ((meaning h (.not e)).number vs σ) = !isZero ((meaning h e).number vs σ) := by
  unfold Meaning.number
  rw [value_not]
  exact isZero_truth _

theorem isZero_cmp (op : CmpOp) (l r : Expr D) (vs : Vars) (σ : Store D) :
    isZero ((meaning h (.cmp op l r)).number vs σ) =
      !evalCmp op (operands (meaning h l) (meaning h r) vs σ).2.1
        (operands (meaning h l) (meaning h r) vs σ).2.2 := by
  unfold Meaning.number
  rw [value_cmp]
  exact isZero_truth _

/-- The store in which the right operand of `and` and `or` runs. -/
def afterLeft (h : Helper D) (l : Expr D) (vs : Vars) (σ : Store D) : Store D :=
  ((meaning h l).value vs σ).1

theorem valueShortCircuit_eq (skip : CmpOp) (decided : D) (l : Expr D) (R : Meaning D) (vs : Vars)
    (σ : Store D) :
    valueShortCircuit skip decided (meaning h l) R vs σ =
      if evalCmp skip ((meaning h l).number vs σ) 0 then (afterLeft h l vs σ, .val decided)
      else ((R.value ((meaning h l).after vs) (afterLeft h l vs σ)).1,
        .val (truth (!isZero (R.number ((meaning h l).after vs) (afterLeft h l vs σ))))) := rfl

omit [Ieee D] in
theorem testFalseAnd_eq (L R : Meaning D) (vs : Vars) (σ : Store D) : testFalseAnd L R vs σ =
      if (L.branchFalse vs σ).2 then ((L.branchFalse vs σ).1, true)
      else R.branchFalse (L.after vs) (L.branchFalse vs σ).1 := rfl

theorem testFalseOr_eq (l : Expr D) (R : Meaning D) (vs : Vars) (σ : Store D) :
    testFalseOr (meaning h l) R vs σ =
      if ((meaning h l).branchTrue vs σ).2 then (((meaning h l).branchTrue vs σ).1, false)
      else R.branchFalse ((meaning h l).after vs) ((meaning h l).branchTrue vs σ).1 := rfl

theorem isZero_and (l r : Expr D) (vs : Vars) (σ : Store D) : isZero ((meaning h (.and l r)).number vs σ) =
      (isZero ((meaning h l).number vs σ) ||
        isZero ((meaning h r).number ((meaning h l).after vs) (afterLeft h l vs σ))) := by
  rw [Meaning.number, value_and, valueShortCircuit_eq, evalCmp_eq_zero]
  cases isZero ((meaning h l).number vs σ) with
  | true => exact Ieee.eq_zero
  | false => exact (isZero_truth _).trans (Bool.not_not _)

theorem isZero_or (l r : Expr D) (vs : Vars) (σ : Store D) : isZero ((meaning h (.or l r)).number vs σ) =
      (isZero ((meaning h l).number vs σ) &&
        isZero ((meaning h r).number ((meaning h l).after vs) (afterLeft h l vs σ))) := by
  rw [Meaning.number, value_or, valueShortCircuit_eq, evalCmp_ne_zero]
  cases isZero ((meaning h l).number vs σ) with
  | true => exact (isZero_truth _).trans (Bool.not_not _)
  | false => exact Ieee.one_ne_zero

theorem branchTrue_eq (e : Expr D) (vs : Vars) (σ : Store D) : (meaning h e).branchTrue vs σ =
      (((meaning h e).value vs σ).1, !isZero ((meaning h e).number vs σ)) := by
  cases e with
  | cmp op l r =>
    rw [isZero_cmp, Bool.not_not, value_cmp]
    rfl
  | _ => rfl

theorem branchFalse_nonzero : ∀ (e : Expr D) (vs : Vars) (σ : Store D),
    isZero ((meaning h e).number vs σ) = false →
      (meaning h e).branchFalse vs σ = (((meaning h e).value vs σ).1, false)
  | .not e, vs, σ, hn => by
    rw [isZero_not] at hn
    rw [value_not]
    exact Prod.ext rfl hn
  | .cmp op l r, vs, σ, hn => by
    rw [isZero_cmp, Bool.not_eq_false'] at hn
    have hop := (evalCmp_negate_iff ..).2 (Ordered.of_true hn)
    rw [hn] at hop
    rw [value_cmp]
    exact Prod.ext rfl hop
  | .and l r, vs, σ, hn => by
    rw [isZero_and, Bool.or_eq_false_iff] at hn
    obtain ⟨hl, hr⟩ := hn
    have hbr := branchFalse_nonzero r ((meaning h l).after vs) (afterLeft h l vs σ) hr
    rw [value_and, valueShortCircuit_eq, evalCmp_eq_zero, hl]
    show testFalseAnd (meaning h l) (meaning h r) vs σ = _
    rw [testFalseAnd_eq, branchFalse_nonzero l vs σ hl]
    exact hbr
  | .or l r, vs, σ, hn => by
    rw [isZero_or] at hn
    rw [value_or, valueShortCircuit_eq, evalCmp_ne_zero]
    show testFalseOr (meaning h l) (meaning h r) vs σ = _
    rw [testFalseOr_eq, branchTrue_eq]
    cases hl : isZero ((meaning h l).number vs σ) with
    | false => rfl
    | true =>
      rw [hl, Bool.true_and] at hn
      exact branchFalse_nonzero r ((meaning h l).after vs) (afterLeft h l vs σ) hn
  | .num _, _, _, hn | .var _, _, _, hn | .neg _, _, _, hn | .plus _, _, _, hn
  | .arith _ _ _, _, _, hn | .ite _ _ _, _, _, hn | .iteNoElse _ _, _, _, hn
  | .assign _ _, _, _, hn | .value _ _, _, _, hn | .valueAssign _ _ _, _, _, hn
  | .throw _ _, _, _, hn | .call _ _ _ _, _, _, hn | .unsupported _, _, _, hn => Prod.ext rfl hn

/-- The operands that decide the condition are ordered where they are compared. -/
def AgreesFalse (h : Helper D) : Expr D → Vars → Store D → Prop
  | .cmp op l r, vs, σ =>
    Ordered op (operands (meaning h l) (meaning h r) vs σ).2.1
      (operands (meaning h l) (meaning h r) vs σ).2.2
  | .and l r, vs, σ =>
    if isZero ((meaning h l).number vs σ) then
      AgreesFalse h l vs σ ∨
        -- the right operand makes up for a left one that was taken for true
        (isZero ((meaning h r).number ((meaning h l).after vs) ((meaning h l).branchFalse vs σ).1) ∧
          AgreesFalse h r ((meaning h l).after vs) ((meaning h l).branchFalse vs σ).1)
    else AgreesFalse h r ((meaning h l).after vs) (afterLeft h l vs σ)
  | .or l r, vs, σ =>
    isZero ((meaning h l).number vs σ) = false ∨
      AgreesFalse h r ((meaning h l).after vs) (afterLeft h l vs σ)
  | _, _, _ => True

theorem branchFalse_iff : ∀ (e : Expr D) (vs : Vars) (σ : Store D),
    ((meaning h e).branchFalse vs σ).2 = isZero ((meaning h e).number vs σ) ↔ AgreesFalse h e vs σ
  | .not e, vs, σ => by
    rw [isZero_not]
    exact ⟨fun _ => trivial, fun _ => rfl⟩
  | .cmp op l r, vs, σ => by
    rw [isZero_cmp]
    exact evalCmp_negate_iff ..
  | .and l r, vs, σ => by
    have ihl := branchFalse_iff l vs σ
    have ihr := branchFalse_iff r ((meaning h l).after vs)
    rw [isZero_and]
    show (testFalseAnd (meaning h l) (meaning h r) vs σ).2 = _ ↔ _
    rw [testFalseAnd_eq, AgreesFalse]
    cases hl : isZero ((meaning h l).number vs σ) with
    | false =>
      rw [branchFalse_nonzero l vs σ hl, Bool.false_or]
      exact ihr (afterLeft h l vs σ)
    | true =>
      rw [hl] at ihl
      rw [Bool.true_or, if_pos rfl, ← ihl, ← ihr]
      cases hj : ((meaning h l).branchFalse vs σ).2 with
      | true => simp
      | false =>
        simp only [Bool.false_eq_true, if_false, false_or]
        -- a right operand that is not zero falls through
        cases hr : isZero ((meaning h r).number ((meaning h l).after vs)
            ((meaning h l).branchFalse vs σ).1) with
        | true => simp
        | false => simp [branchFalse_nonzero r _ _ hr]
  | .or l r, vs, σ => by
    have ihr := branchFalse_iff r ((meaning h l).after vs) (afterLeft h l vs σ)
    rw [isZero_or]
    show (testFalseOr (meaning h l) (meaning h r) vs σ).2 = _ ↔ _
    rw [testFalseOr_eq, AgreesFalse, branchTrue_eq]
    cases hl : isZero ((meaning h l).number vs σ) with
    | false => simp
    | true =>
      rw [Bool.true_and, Bool.true_eq_false, false_or]
      exact ihr
  | .num _, _, _ | .var _, _, _ | .neg _, _, _ | .plus _, _, _ | .arith _ _ _, _, _
  | .ite _ _ _, _, _ | .iteNoElse _ _, _, _ | .assign _ _, _, _ | .value _ _, _, _
  | .valueAssign _ _ _, _, _ | .throw _ _, _, _ | .call _ _ _ _, _, _ | .unsupported _, _, _ =>
    ⟨fun _ => trivial, fun _ => rfl⟩

/-! The conditions of the language. -/

/-- Code that leaves `v` in `r` when it runs from `σ`, wherever it is placed. -/
def Leaves (h : Helper D) (is : List (Insn D)) (r : Reg) (σ : Store D) (v : D) : Prop :=
  ∀ prog post regs env, (Lib.labels Insn.defines prog).Nodup → (is ++ post) <:+ prog →
    storeOf regs env = σ → ∃ regs' env',
      Reaches (fstep h prog) ⟨is ++ post, regs, env⟩ ⟨post, regs', env'⟩ ∧ regs' r = v

/-- Code that jumps to `l` from `σ`, or falls through. -/
def Jumps (h : Helper D) (is : List (Insn D)) (l : Label) (σ : Store D) (jump : Bool) : Prop :=
  ∀ prog post target regs env, (Lib.labels Insn.defines prog).Nodup → (is ++ post) <:+ prog →
    seek Insn.defines l prog = some target → storeOf regs env = σ → ∃ regs' env',
      Reaches (fstep h prog) ⟨is ++ post, regs, env⟩ ⟨if jump then target else post, regs', env'⟩

theorem ValueRun.leaves {f : Vars → Vars} {v : Vars → Store D → Store D × Loc D} {c c' : Compiler}
    {is : List (Insn D)} {r : Reg} (s : ValueRun h f v c c' is r) (σ : Store D) :
    Leaves h is r σ ((v c.vars σ).2.read (v c.vars σ).1) := by
  intro prog post regs env hnd hs hσ
  subst hσ
  obtain ⟨regs', env', hr, hσ', hp, -⟩ := s.run prog post regs env hnd hs
  exact ⟨regs', env', hr, by rw [hp.read env', hσ']⟩

theorem BranchRun.jumps {f : Vars → Vars} {t : Vars → Store D → Store D × Bool} {c c' : Compiler}
    {is : List (Insn D)} {l : Label} (s : BranchRun h f t l c c' is) (σ : Store D) :
    Jumps h is l σ (t c.vars σ).2 := by
  intro prog post target regs env hnd hs ht hσ
  subst hσ
  obtain ⟨regs', env', hr, -, -⟩ := s.run prog post target regs env hnd hs ht
  exact ⟨regs', env', hr⟩

/-- A number on which a test against zero and the language's test agree: it is zero, or its
magnitude is above the threshold. -/
def Settled (x : D) : Prop := isZero x = true ∨ nonzero x = true

theorem Settled.iff {x : D} : Settled x ↔ nonzero x = !isZero x := by
  unfold Settled
  cases hz : isZero x with
  | true =>
    have hs : nonzero x = false := Ieee.zero_small x hz
    simp [hs]
  | false => simp

theorem Settled.truth (b : Bool) : Settled (truth b : D) := by
  cases b with
  | false => exact .inl Ieee.eq_zero
  | true => exact .inr Ieee.one_large

/-- The conditions that branch as the language has it: comparisons and logical operators whose
deciding operands are ordered, and other expressions that are zero or above the threshold. -/
def Decided (h : Helper D) (e : Expr D) (vs : Vars) (σ : Store D) : Prop :=
  match e with
  | .cmp _ _ _ | .and _ _ | .or _ _ | .not _ => AgreesFalse h e vs σ
  | e => Settled ((meaning h e).number vs σ)

theorem decided_iff (e : Expr D) (vs : Vars) (σ : Store D) :
    Decided h e vs σ ↔ AgreesFalse h e vs σ ∧ Settled ((meaning h e).number vs σ) := by
  -- comparisons and logical operators give zero or one
  have hlogic : ∀ b : Bool, (meaning h e).number vs σ = truth b →
      (AgreesFalse h e vs σ ↔ AgreesFalse h e vs σ ∧ Settled ((meaning h e).number vs σ)) := by
    intro b hb
    rw [hb]
    exact (and_iff_left (Settled.truth b)).symm
  cases e with
  | not e =>
    refine hlogic (isZero ((meaning h e).number vs σ)) ?_
    rw [Meaning.number, value_not]
    rfl
  | cmp op l r =>
    refine hlogic (evalCmp op (operands (meaning h l) (meaning h r) vs σ).2.1
      (operands (meaning h l) (meaning h r) vs σ).2.2) ?_
    rw [Meaning.number, value_cmp]
    rfl
  | and l r =>
    refine hlogic (!isZero ((meaning h l).number vs σ) &&
      !isZero ((meaning h r).number ((meaning h l).after vs) (afterLeft h l vs σ))) ?_
    rw [Meaning.number, value_and, valueShortCircuit_eq, evalCmp_eq_zero]
    cases isZero ((meaning h l).number vs σ) <;> rfl
  | or l r =>
    refine hlogic (!isZero ((meaning h l).number vs σ) ||
      !isZero ((meaning h r).number ((meaning h l).after vs) (afterLeft h l vs σ))) ?_
    rw [Meaning.number, value_or, valueShortCircuit_eq, evalCmp_ne_zero]
    cases isZero ((meaning h l).number vs σ) <;> rfl
  | _ => exact (and_iff_right trivial).symm

/-- The two branches of a condition go where the language's test of its value says exactly when
the condition is decided. -/
theorem branch_lowering_agrees_iff (h : Helper D) (e : Expr D) (c : Compiler) (l l' : Label)
    {c₁ c₂ c₃ : Compiler} {is₁ is₂ is₃ : List (Insn D)} {r : Reg}
    (hv : (exprLowering e).value c = .ok (c₁, is₁, r))
    (hf : (exprLowering e).branchFalse l c = .ok (c₂, is₂))
    (ht : (exprLowering e).branchTrue l' c = .ok (c₃, is₃)) (σ : Store D) :
    ∃ v jumpFalse jumpTrue, Leaves h is₁ r σ v ∧ Jumps h is₂ l σ jumpFalse ∧ Jumps h is₃ l' σ jumpTrue ∧
      ((jumpFalse = !nonzero v) ∧ jumpTrue = nonzero v ↔ Decided h e c.vars σ) := by
  have s := simulates (h := h) e
  refine ⟨(meaning h e).number c.vars σ, ((meaning h e).branchFalse c.vars σ).2,
    ((meaning h e).branchTrue c.vars σ).2, (s.value hv).leaves σ, (s.branchFalse hf).jumps σ,
    (s.branchTrue ht).jumps σ, ?_⟩
  rw [decided_iff, ← branchFalse_iff, Settled.iff, branchTrue_eq]
  constructor
  · intro ⟨hjf, hjt⟩
    refine ⟨?_, hjt.symm⟩
    rw [hjf, ← hjt, Bool.not_not]
  · intro ⟨hjf, hset⟩
    refine ⟨?_, hset.symm⟩
    rw [hjf, hset, Bool.not_not]

/-- `x < 1`. -/
def belowOne : Expr Ext := .cmp .lt (.var "x") (.num (.fin 1))

/-- The store with `x` in its register. -/
def storeX (x : Ext) : Store Ext := ⟨Function.update (fun _ => .fin 0) "x" x, fun _ => none⟩

theorem branch_lowering_agrees_iff_half :
    letI : PowFn := ⟨powInt⟩
    ∃ is₁ is₂ is₃ r c₁ c₂ c₃, (exprLowering belowOne).value {} = .ok (c₁, is₁, r) ∧
      (exprLowering belowOne).branchFalse 0 {} = .ok (c₂, is₂) ∧
      (exprLowering belowOne).branchTrue 0 {} = .ok (c₃, is₃) ∧
      ∃ v jumpFalse jumpTrue, Leaves (fun _ _ _ => ([], 0)) is₁ r (storeX (.fin (1 / 2))) v ∧
        Jumps (fun _ _ _ => ([], 0)) is₂ 0 (storeX (.fin (1 / 2))) jumpFalse ∧
        Jumps (fun _ _ _ => ([], 0)) is₃ 0 (storeX (.fin (1 / 2))) jumpTrue ∧
        ((jumpFalse = !nonzero v) ∧ jumpTrue = nonzero v ↔
          Decided (fun _ _ _ => ([], 0)) belowOne [] (storeX (.fin (1 / 2)))) :=
  letI : PowFn := ⟨powInt⟩
  ⟨_, _, _, _, _, _, _, rfl, rfl, rfl,
    branch_lowering_agrees_iff (fun _ _ _ => ([], 0)) belowOne {} 0 0 rfl rfl rfl (storeX (.fin (1 / 2)))⟩

/-- `x < 1` with a NaN: the value is zero, which is not true, and `branch_false` falls through. -/
theorem branch_false_misses_nan :
    letI : PowFn := ⟨powInt⟩
    ∃ is₁ is₂ r c₁ c₂, (exprLowering belowOne).value {} = .ok (c₁, is₁, r) ∧
      (exprLowering belowOne).branchFalse 0 {} = .ok (c₂, is₂) ∧
      nonzero (0 : Ext) = false ∧
      Leaves (fun _ _ _ => ([], 0)) is₁ r (storeX .nan) 0 ∧
      Jumps (fun _ _ _ => ([], 0)) is₂ 0 (storeX .nan) false :=
  letI : PowFn := ⟨powInt⟩
  ⟨_, _, _, _, _, rfl, rfl, Ieee.zero_small 0 rfl,
    ((simulates (h := fun _ _ _ => ([], 0)) belowOne).value (c := {}) rfl).leaves (storeX .nan),
    ((simulates (h := fun _ _ _ => ([], 0)) belowOne).branchFalse (l := 0) (c := {}) rfl).jumps
      (storeX .nan)⟩

end TurboScript.Mir.Fp
