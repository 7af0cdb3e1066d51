import Mathlib.Algebra.Order.Ring.Cast
import Mathlib.Tactic.Linarith
import TurboScript.Mir.ExprSim
import TurboScript.Exprtk.Charge

/- Numeric expressions, lowered and evaluated: `ts_compile_expr` against `exprtk_eval`.

   1. `NumExpr`, with the tree the parser builds (`toNode`) and the expression the lowering
      compiles (`lower`), in which folded subtrees are immediates.
   2. `exact` is rational arithmetic without tolerances. `Regular`: no operator gets operands
      on which the two sides differ.
   3. The tree side: `treeValue` is the value or the text that is thrown (`eval_numeric`).
   4. The lowered side: it runs to its end (`lower_computes`), with `evalExpr` of the lowered
      expression, exact where no divisor is zero (`lower_exact`). -/
namespace TurboScript.Mir
open Lib Exprtk

inductive NumExpr
  | number (x : ℚ)
  | integer (i : Int)
  | var (x : Name)
  | neg (e : NumExpr)
  | plus (e : NumExpr)
  | not (e : NumExpr)
  | arith (op : ArithOp) (l r : NumExpr)
  | cmp (op : CmpOp) (l r : NumExpr)
  | and (l r : NumExpr)
  | or (l r : NumExpr)
  deriving DecidableEq, Repr

def ArithOp.token : ArithOp → BinOp
  | .add => .plus
  | .sub => .minus
  | .mul => .multiply
  | .div => .divide
  | .mod => .mod
  | .pow => .power

def CmpOp.token : CmpOp → BinOp
  | .lt => .lt
  | .gt => .gt
  | .le => .le
  | .ge => .ge
  | .eq => .eq
  | .ne => .ne

namespace NumExpr

def toNode : NumExpr → Node ℚ
  | .number x => .number x
  | .integer i => .integer i
  | .var x => .varRef x
  | .neg e => .binary .minus none e.toNode
  | .plus e => .binary .plus none e.toNode
  | .not e => .binary .not none e.toNode
  | .arith op l r => .binary op.token (some l.toNode) r.toNode
  | .cmp op l r => .binary op.token (some l.toNode) r.toNode
  | .and l r => .binary .and (some l.toNode) r.toNode
  | .or l r => .binary .or (some l.toNode) r.toNode

/-- The operator applied by `ts_try_fold_constant`: a zero divisor folds to zero. -/
def foldArith (w : World ℚ) (op : ArithOp) (l r : ℚ) : ℚ :=
  if op = .div ∧ r = 0 then 0 else w.arith op l r

def tryFoldConstant (w : World ℚ) : NumExpr → Option ℚ
  | .number x => some x
  | .integer i => some i
  | .var _ => none
  | .neg e => do return -(← e.tryFoldConstant w)
  | .plus e => e.tryFoldConstant w
  | .not e => do return ofBool (decide ((← e.tryFoldConstant w) = 0))
  | .arith op l r => do return foldArith w op (← l.tryFoldConstant w) (← r.tryFoldConstant w)
  | .cmp op l r => do return ofBool (op.eval (← l.tryFoldConstant w) (← r.tryFoldConstant w))
  | .and l r => do
    return ofBool (decide ((← l.tryFoldConstant w) ≠ 0) && decide ((← r.tryFoldConstant w) ≠ 0))
  | .or l r => do
    return ofBool (decide ((← l.tryFoldConstant w) ≠ 0) || decide ((← r.tryFoldConstant w) ≠ 0))

def folded (w : World ℚ) (e : NumExpr) (rest : Expr ℚ) : Expr ℚ :=
  match e.tryFoldConstant w with
  | some d => .num d
  | none => rest

/-- What `ts_compile_expr` compiles, folding at every node before anything else. -/
def lower (w : World ℚ) : NumExpr → Expr ℚ
  | .number x => .num x
  | .integer i => .num i
  | .var x => .var x
  | .neg e => folded w (.neg e) (.neg (e.lower w))
  | .plus e => folded w (.plus e) (.plus (e.lower w))
  | .not e => folded w (.not e) (.not (e.lower w))
  | .arith op l r => folded w (.arith op l r) (.arith op (l.lower w) (r.lower w))
  | .cmp op l r => folded w (.cmp op l r) (.cmp op (l.lower w) (r.lower w))
  | .and l r => folded w (.and l r) (.and (l.lower w) (r.lower w))
  | .or l r => folded w (.or l r) (.or (l.lower w) (r.lower w))

def size : NumExpr → Nat
  | .number _ | .integer _ | .var _ => 1
  | .neg e | .plus e | .not e => e.size + 1
  | .arith _ l r | .cmp _ l r | .and l r | .or l r => l.size + r.size + 1

def vars : NumExpr → List Name
  | .number _ | .integer _ => []
  | .var x => [x]
  | .neg e | .plus e | .not e => e.vars
  | .arith _ l r | .cmp _ l r | .and l r | .or l r => l.vars ++ r.vars

def subexprs : NumExpr → List NumExpr
  | .neg e => .neg e :: e.subexprs
  | .plus e => .plus e :: e.subexprs
  | .not e => .not e :: e.subexprs
  | .arith op l r => .arith op l r :: (l.subexprs ++ r.subexprs)
  | .cmp op l r => .cmp op l r :: (l.subexprs ++ r.subexprs)
  | .and l r => .and l r :: (l.subexprs ++ r.subexprs)
  | .or l r => .or l r :: (l.subexprs ++ r.subexprs)
  | e => [e]

/-! Exact arithmetic. -/

section Exact
variable (ρ : Name → Exprtk.Value ℚ)

def exactArith : ArithOp → ℚ → ℚ → ℚ
  | .add, l, r => l + r
  | .sub, l, r => l - r
  | .mul, l, r => l * r
  | .div, l, r => l / r
  | .mod, l, r => Double.fmod l r
  | .pow, l, r => Double.pow l r

def exact : NumExpr → ℚ
  | .number x => x
  | .integer i => i
  | .var x => valToDouble (ρ x)
  | .neg e => -e.exact
  | .plus e => e.exact
  | .not e => ofBool (decide (e.exact = 0))
  | .arith op l r => exactArith op l.exact r.exact
  | .cmp op l r => ofBool (op.eval l.exact r.exact)
  | .and l r => ofBool (decide (l.exact ≠ 0 ∧ r.exact ≠ 0))
  | .or l r => ofBool (decide (l.exact ≠ 0 ∨ r.exact ≠ 0))

/-- Whether the tree evaluator keeps the value as an INTEGER. -/
def isInteger : NumExpr → Bool
  | .integer _ => true
  | .var x => match ρ x with | .integer _ => true | _ => false
  | .arith .div l r => l.isInteger && r.isInteger && (l.exact ρ / r.exact ρ).isInt
  | .arith .pow _ _ => false
  | .arith _ l r | .cmp _ l r | .and l r | .or l r => l.isInteger && r.isInteger
  | _ => false

def FitsInt64 (x : ℚ) : Prop := -2 ^ 63 ≤ x ∧ x < 2 ^ 63

instance (x : ℚ) : Decidable (FitsInt64 x) := inferInstanceAs (Decidable (_ ∧ _))

/-- Operands an arithmetic operator treats alike on both sides: a divisor of `1e-15` or
    more, and for two INTEGERs a result of 64 bits. -/
def RegularArith (op : ArithOp) (integers : Bool) (l r : ℚ) : Prop :=
  match op with
  | .add | .sub | .mul => integers = true → FitsInt64 (exactArith op l r)
  | .div => Double.tiny ≤ |r| ∧ (integers = true → (l / r).isInt = true → FitsInt64 (l / r))
  | .mod => Double.tiny ≤ |r|
  | .pow => True

/-- Operands a comparison treats alike: equal, or `1e-9` apart. -/
def RegularCmp (op : CmpOp) (l r : ℚ) : Prop :=
  op = .eq ∨ op = .ne → l = r ∨ Double.eps ≤ |l - r|

/-- No operator of the expression gets operands on which lowering and evaluator differ. -/
def Regular : NumExpr → Prop
  | .number _ | .integer _ | .var _ => True
  | .neg e | .plus e => e.Regular
  | .not _ => False
  | .arith op l r => l.Regular ∧ r.Regular ∧
      RegularArith op (l.isInteger ρ && r.isInteger ρ) (l.exact ρ) (r.exact ρ)
  | .cmp op l r => l.Regular ∧ r.Regular ∧ RegularCmp op (l.exact ρ) (r.exact ρ)
  -- the result differs only when both operands are non-zero and one is within `1e-9`
  | .and l r => l.Regular ∧ r.Regular ∧ (l.exact ρ = 0 ∨ r.exact ρ = 0 ∨
      Double.eps < |l.exact ρ| ∧ Double.eps < |r.exact ρ|)
  | .or l r => l.Regular ∧ r.Regular ∧ (l.exact ρ = 0 ∧ r.exact ρ = 0 ∨
      Double.eps < |l.exact ρ| ∨ Double.eps < |r.exact ρ|)

end Exact

end NumExpr

/-! The tree evaluator on numeric expressions. -/

section Tree
open Exprtk (EnvId State Host Value Affords charge evaluators readVariable)

/-- The value of the tree, or the text it throws. -/
def NumExpr.treeValue [Formats] (ρ : Name → Value ℚ) : NumExpr → Except String (Value ℚ)
  | .number x => .ok (.number x)
  | .integer i => .ok (.integer i)
  | .var x => .ok (ρ x)
  | .neg e => do evalBinary .minus zero (← e.treeValue ρ)
  | .plus e => do evalBinary .plus zero (← e.treeValue ρ)
  | .not e => do evalBinary .not zero (← e.treeValue ρ)
  | .arith op l r => do evalBinary op.token (← l.treeValue ρ) (← r.treeValue ρ)
  | .cmp op l r => do evalBinary op.token (← l.treeValue ρ) (← r.treeValue ρ)
  | .and l r => do evalBinary .and (← l.treeValue ρ) (← r.treeValue ρ)
  | .or l r => do evalBinary .or (← l.treeValue ρ) (← r.treeValue ρ)

set_option linter.unusedSectionVars false
variable {Θ : Type} [Formats]

/-- How an evaluation that charges `k` nodes ends: with the value, or with a throw. -/
def TreeEnds (e : EnvId) (k : Nat) (s : State ℚ Θ) (v : Except String (Value ℚ))
    (r : EStateM.Result Unit (State ℚ Θ) (Value ℚ)) : Prop :=
  match v with
  | .ok v => r = .ok v (charge e k s)
  | .error _ => ∃ u s', r = .ok u s' ∧ (s'.envs e).flow = .throw

theorem throwErr_throws (e : EnvId) (msg : String) (s : State ℚ Θ) :
    ∃ u s', throwErr e msg s = .ok u s' ∧ (s'.envs e).flow = .throw := by
  refine ⟨_, _, rfl, ?_⟩
  simp [State.update]

theorem binaryResult_ends (op : BinOp) (l r : Value ℚ) (e : EnvId) (s : State ℚ Θ) (k : Nat) :
    TreeEnds e k s (evalBinary op l r) (binaryResult op l r e (charge e k s)) := by
  unfold binaryResult
  cases evalBinary op l r with
  | ok v => rfl
  | error msg => exact throwErr_throws e msg _

variable {e : EnvId} {s : State ℚ Θ}

theorem TreeEnds.bind {k j : Nat} {v : Except String (Value ℚ)}
    {f : Value ℚ → Except String (Value ℚ)} {m : Eval ℚ Θ (Value ℚ)}
    {g : Value ℚ → Eval ℚ Θ (Value ℚ)} (hk : (s.envs e).flow = .normal)
    (hm : TreeEnds e k s v (m s))
    (hg : ∀ a, v = .ok a → TreeEnds e j (charge e k s) (f a) (g a (charge e k s))) :
    TreeEnds e (k + j) s (v >>= f) ((do
      let a ← m
      if !(← flowNormal e) then return zero else g a) s) := by
  cases v with
  | ok a =>
    have hm' : m s = .ok a (charge e k s) := hm
    have hg' := hg a rfl
    have hf : ((charge e k s).envs e).flow = .normal := by rw [charge_flow]; exact hk
    simp only [bind_apply, hm', flowNormal_apply, hf, decide_true, Bool.not_true,
      Bool.false_eq_true, if_false]
    show TreeEnds e (k + j) s (f a) _
    revert hg'
    cases f a with
    | ok b =>
      intro hb
      show _ = _
      rw [← charge_add]
      exact hb
    | error msg => exact id
  | error msg =>
    obtain ⟨u, s', hr, hf⟩ := hm
    refine ⟨zero, s', ?_, hf⟩
    simp [bind_apply, hr, flowNormal_apply, hf, pure, EStateM.pure]

theorem charge_zero (e : EnvId) (s : State ℚ Θ) : charge e 0 s = s := by
  unfold charge
  split
  · rfl
  · simp [State.update]

theorem TreeEnds.of_charge {j k m : Nat} {v : Except String (Value ℚ)}
    {r : EStateM.Result Unit (State ℚ Θ) (Value ℚ)} (h : TreeEnds e k (charge e j s) v r)
    (hm : m = j + k) : TreeEnds e m s v r := by
  cases v with
  | ok a =>
    have hr : r = .ok a (charge e k (charge e j s)) := h
    show r = .ok a (charge e m s)
    rw [hr, charge_add, hm]
  | error msg => exact h

theorem leaf_ends {h : Host ℚ Θ} (ha : Affords h e 1 s) (n : Nat) {node : Node ℚ}
    {v : Value ℚ} (hv : ∀ R m t, readVariable t e = readVariable s e →
      evalNode h R m node e t = .ok v t) :
    TreeEnds e 1 s (.ok v) ((evaluators h (n + 1)).eval node e s) := by
  show exprtkEval h (evaluators h n) n node e s = _
  rw [exprtkEval_affords _ _ _ ha]
  exact hv _ _ _ (readVariable_charge e 1 s)

theorem binary_ends {h : Host ℚ Θ} {ρ : Name → Value ℚ} {n m : Nat} {op : BinOp}
    {left : Option (Node ℚ)} {lv : Except String (Value ℚ)} {r : NumExpr}
    (ha : Affords h e (m + r.size + 1) s)
    (hl : ∀ t : State ℚ Θ, Affords h e m t → readVariable t e = ρ →
      TreeEnds e m t lv (evalOpt (evaluators h n) left e t))
    (hr : ∀ t : State ℚ Θ, Affords h e r.size t → readVariable t e = ρ →
      TreeEnds e r.size t (r.treeValue ρ) ((evaluators h n).eval r.toNode e t))
    (hρ : readVariable s e = ρ) :
    TreeEnds e (m + r.size + 1) s (do evalBinary op (← lv) (← r.treeValue ρ))
      ((evaluators h (n + 1)).eval (.binary op left r.toNode) e s) := by
  have ha₁ : Affords h e (m + r.size) (charge e 1 s) := Affords.charge (by rwa [Nat.add_comm 1])
  have hρ₁ : readVariable (charge e 1 s) e = ρ := by rw [readVariable_charge, hρ]
  have ha₂ : Affords h e r.size (charge e m (charge e 1 s)) := ha₁.charge
  have hρ₂ : readVariable (charge e m (charge e 1 s)) e = ρ := by
    rw [readVariable_charge, hρ₁]
  have step : TreeEnds e (m + (r.size + 0)) (charge e 1 s)
      (do evalBinary op (← lv) (← r.treeValue ρ))
      (evalBinaryNode (evaluators h n) op left r.toNode e (charge e 1 s)) := by
    refine TreeEnds.bind ha₁.flow (hl _ (ha₁.mono (Nat.le_add_right _ _)) hρ₁) fun a _ => ?_
    refine TreeEnds.bind ha₂.flow (hr _ ha₂ hρ₂) fun b _ => ?_
    have hb := binaryResult_ends op a b e (charge e r.size (charge e m (charge e 1 s))) 0
    rwa [charge_zero] at hb
  show TreeEnds _ _ _ _ (exprtkEval h (evaluators h n) n _ e s)
  rw [exprtkEval_affords _ _ _ (ha.mono (by omega))]
  exact step.of_charge (by omega)

theorem unary_ends {h : Host ℚ Θ} {ρ : Name → Value ℚ} {n : Nat} {op : BinOp} {r : NumExpr}
    (ha : Affords h e (r.size + 1) s)
    (hr : ∀ t : State ℚ Θ, Affords h e r.size t → readVariable t e = ρ →
      TreeEnds e r.size t (r.treeValue ρ) ((evaluators h n).eval r.toNode e t))
    (hρ : readVariable s e = ρ) :
    TreeEnds e (r.size + 1) s (do evalBinary op zero (← r.treeValue ρ))
      ((evaluators h (n + 1)).eval (.binary op none r.toNode) e s) := by
  have hl (t : State ℚ Θ) : TreeEnds e 0 t (.ok zero) (evalOpt (evaluators h n) none e t) := by
    show _ = EStateM.Result.ok _ (charge e 0 t)
    rw [charge_zero]
    rfl
  rw [← Nat.zero_add r.size] at ha ⊢
  exact binary_ends ha (fun t _ _ => hl t) hr hρ

/-- **The tree evaluator on a numeric expression.** Within its budget it ends with
    `treeValue` and nothing but the charge, or with a throw. -/
theorem eval_numeric {h : Host ℚ Θ} {e : EnvId} (ρ : Name → Value ℚ) : ∀ (t : NumExpr) (n : Nat)
    (s : State ℚ Θ), t.size ≤ n → Affords h e t.size s → readVariable s e = ρ →
      TreeEnds e t.size s (t.treeValue ρ) ((evaluators h n).eval t.toNode e s)
  | t, 0, _, hn, _, _ => by
    cases t <;> simp [NumExpr.size] at hn
  | .number _, n + 1, _, _, ha, _ | .integer _, n + 1, _, _, ha, _ => leaf_ends ha n fun _ _ _ _ => rfl
  | .var x, n + 1, s, _, ha, hρ => leaf_ends ha n fun _ _ t ht => by
      show envGet e x t = _
      rw [Exprtk.envGet_apply, ht, hρ]
  | .neg r, n + 1, s, hn, ha, hρ | .plus r, n + 1, s, hn, ha, hρ | .not r, n + 1, s, hn, ha, hρ =>
    unary_ends ha (fun t => eval_numeric ρ r n t (by simp only [NumExpr.size] at hn; omega)) hρ
  | .arith op l r, n + 1, s, hn, ha, hρ | .cmp op l r, n + 1, s, hn, ha, hρ
  | .and l r, n + 1, s, hn, ha, hρ | .or l r, n + 1, s, hn, ha, hρ =>
    binary_ends ha (fun t => eval_numeric ρ l n t (by simp only [NumExpr.size] at hn; omega))
      (fun t => eval_numeric ρ r n t (by simp only [NumExpr.size] at hn; omega)) hρ

end Tree

/-! The lowered code. -/

section Lowered

/-- The code of an expression, placed in any program whose labels are distinct, leaves `v`
    in its register when the variables' registers hold `ρ`. -/
def Computes (w : World ℚ) (t : NumExpr) (ρ : Name → ℚ) (v : ℚ) : Prop :=
  ∀ c, Known (t.lower w).names c → ∃ c' is r, compileExpr (t.lower w) c = .ok (c', is, r) ∧
    ∀ prog post regs env, (labels Insn.defines prog).Nodup → (is ++ post) <:+ prog →
      (∀ x, regs (.var x) = ρ x) →
      ∃ regs', Reaches (mstep w prog) ⟨is ++ post, regs, env⟩ ⟨post, regs', env⟩ ∧ regs' r = v

theorem folded_numeric {w : World ℚ} (t : NumExpr) {e : Expr ℚ} (he : e.numeric = true) :
    (NumExpr.folded w t e).numeric = true := by
  unfold NumExpr.folded
  split
  · rfl
  · exact he

theorem lower_numeric (w : World ℚ) : ∀ t : NumExpr, (t.lower w).numeric = true
  | .number _ | .integer _ | .var _ => rfl
  | .neg e | .plus e | .not e => folded_numeric _ (lower_numeric w e)
  | .arith _ l r => folded_numeric _ (by simp [Expr.numeric, lower_numeric w l, lower_numeric w r])
  | .cmp _ l r => folded_numeric _ (by simp [Expr.numeric, lower_numeric w l, lower_numeric w r])
  | .and l r | .or l r => folded_numeric _ (by simp [Expr.numeric, lower_numeric w l, lower_numeric w r])

/-- The value of the expression is compiled without failure, in every compiler state. -/
def Compiles (e : Expr ℚ) : Prop := ∀ c, ∃ q, compileExpr e c = .ok q

theorem folded_compiles {w : World ℚ} (t : NumExpr) {e : Expr ℚ} (he : Compiles e) :
    Compiles (NumExpr.folded w t e) := by
  unfold NumExpr.folded
  split
  · exact fun _ => ⟨_, rfl⟩
  · exact he

theorem pair_compiles {L R : Lowering ℚ} (hl : ∀ c, ∃ q, L.value c = .ok q)
    (hr : ∀ c, ∃ q, R.value c = .ok q) (c : Compiler) : ∃ q, lowerPair L R c = .ok q :=
  ok_bind (hl c) fun _ => ok_bind (hr _) fun _ => ⟨_, rfl⟩

theorem shortCircuit_compiles {L R : Lowering ℚ} (hl : ∀ c, ∃ q, L.value c = .ok q)
    (hr : ∀ c, ∃ q, R.value c = .ok q) (skip : CmpOp) (d : ℚ) (c : Compiler) :
    ∃ q, lowerShortCircuit skip d L R c = .ok q :=
  ok_bind (hl c) fun _ => ok_bind (hr _) fun _ => ⟨_, rfl⟩

theorem lowerVar_ok (x : Name) (c : Compiler) : ∃ q, (lowerVar x c : Except String (_ × List (Insn ℚ) × _)) = .ok q := by
  unfold lowerVar
  split <;> exact ⟨_, rfl⟩

theorem lower_compiles (w : World ℚ) : ∀ t : NumExpr, Compiles (t.lower w)
  | .number _ | .integer _ => fun _ => ⟨_, rfl⟩
  | .var x => lowerVar_ok x
  | .neg e => folded_compiles _ fun c => ok_bind (lower_compiles w e c) fun _ => ⟨_, rfl⟩
  | .plus e => folded_compiles _ (lower_compiles w e)
  | .not e => folded_compiles _ fun c => ok_bind (lower_compiles w e c) fun _ => ⟨_, rfl⟩
  | .arith _ l r | .cmp _ l r => folded_compiles _ fun c =>
      ok_bind (pair_compiles (lower_compiles w l) (lower_compiles w r) c) fun _ => ⟨_, rfl⟩
  | .and l r | .or l r =>
    folded_compiles _ (shortCircuit_compiles (lower_compiles w l) (lower_compiles w r) _ _)

/-- **The lowered code runs to its end.** Its value is that of the lowered expression. -/
theorem lower_computes (w : World ℚ) (t : NumExpr) (ρ : Name → ℚ) :
    Computes w t ρ (evalExpr w ρ (t.lower w)) := by
  intro c hk
  obtain ⟨⟨c', is, r⟩, hc⟩ := lower_compiles w t c
  refine ⟨c', is, r, hc, ?_⟩
  intro prog post regs env hnd hs hρ
  obtain ⟨regs', hr, hv, _⟩ :=
    ((sim_expr w (t.lower w) (lower_numeric w t)).value hk hc).run prog post regs env hnd hs
  refine ⟨regs', hr, ?_⟩
  rw [hv, funext hρ]

theorem Computes.unique {w : World ℚ} {t : NumExpr} {ρ : Name → ℚ} {v v' : ℚ}
    (h : Computes w t ρ v) (h' : Computes w t ρ v') : v = v' := by
  let c : Compiler := { vars := (t.lower w).names.map fun x => { name := x } }
  have hk : Known (t.lower w).names c := by
    constructor
    · intro x hx
      simp [c, hx]
    · intro u hu
      obtain ⟨x, _, rfl⟩ := List.mem_map.1 hu
      rfl
  obtain ⟨c₁, is, r, hc, hrun⟩ := h c hk
  obtain ⟨c₂, is', r', hc', hrun'⟩ := h' c hk
  rw [hc] at hc'
  cases hc'
  have hnd : (labels Insn.defines is).Nodup :=
    ((sim_expr w (t.lower w) (lower_numeric w t)).value hk hc).labels.nodup
  let regs : Reg → ℚ := fun q => Reg.rec ρ (fun _ => 0) q
  have hs : (is ++ []) <:+ is := by simp
  obtain ⟨r₁, hr₁, hv₁⟩ := hrun is [] regs (fun _ => none) hnd hs fun _ => rfl
  obtain ⟨r₂, hr₂, hv₂⟩ := hrun' is [] regs (fun _ => none) hnd hs fun _ => rfl
  obtain ⟨n₁, hn₁⟩ := hr₁.runSteps rfl
  obtain ⟨n₂, hn₂⟩ := hr₂.runSteps rfl
  have hend := (hn₁ (n₁ + n₂) (by omega)).symm.trans (hn₂ (n₁ + n₂) (by omega))
  have hregs : r₁ = r₂ := congrArg Conf.regs hend
  rw [← hv₁, ← hv₂, hregs]

/-- Machine arithmetic is exact, but for a zero divisor. -/
def World.Exact (w : World ℚ) : Prop :=
  ∀ op l r, (op = .div ∨ op = .mod → r ≠ 0) → w.arith op l r = NumExpr.exactArith op l r

def NumExpr.Defined (ρ : Name → Exprtk.Value ℚ) : NumExpr → Prop
  | .number _ | .integer _ | .var _ => True
  | .neg e | .plus e | .not e => e.Defined ρ
  | .arith op l r => l.Defined ρ ∧ r.Defined ρ ∧ (op = .div ∨ op = .mod → r.exact ρ ≠ 0)
  | .cmp _ l r | .and l r | .or l r => l.Defined ρ ∧ r.Defined ρ

variable {w : World ℚ} {ρ : Name → Exprtk.Value ℚ}

theorem foldArith_exact (hw : w.Exact) {op : ArithOp} {l r : ℚ} (hr : op = .div ∨ op = .mod → r ≠ 0) :
    NumExpr.foldArith w op l r = NumExpr.exactArith op l r := by
  unfold NumExpr.foldArith
  rw [if_neg fun hz => hr (.inl hz.1) hz.2]
  exact hw op l r hr

theorem fold_exact (hw : w.Exact) : ∀ {t : NumExpr} {d : ℚ}, t.Defined ρ →
    t.tryFoldConstant w = some d → d = t.exact ρ
  | .number _, _, _, h | .integer _, _, _, h => (Option.some.inj h).symm
  | .neg e, d, hd, h => by
    obtain ⟨a, ha, h⟩ := Option.bind_eq_some_iff.1 h
    cases h
    rw [fold_exact (t := e) hw hd ha, NumExpr.exact]
  | .plus e, d, hd, h => fold_exact (t := e) hw hd h
  | .not e, d, hd, h => by
    obtain ⟨a, ha, h⟩ := Option.bind_eq_some_iff.1 h
    cases h
    rw [fold_exact (t := e) hw hd ha, NumExpr.exact]
  | .arith op l r, d, hd, h => by
    obtain ⟨a, ha, h⟩ := Option.bind_eq_some_iff.1 h
    obtain ⟨b, hb, h⟩ := Option.bind_eq_some_iff.1 h
    cases h
    rw [fold_exact hw hd.1 ha, fold_exact hw hd.2.1 hb, foldArith_exact hw hd.2.2, NumExpr.exact]
  | .cmp op l r, d, hd, h => by
    obtain ⟨a, ha, h⟩ := Option.bind_eq_some_iff.1 h
    obtain ⟨b, hb, h⟩ := Option.bind_eq_some_iff.1 h
    cases h
    rw [fold_exact hw hd.1 ha, fold_exact hw hd.2 hb, NumExpr.exact]
  | .and l r, d, hd, h => by
    obtain ⟨a, ha, h⟩ := Option.bind_eq_some_iff.1 h
    obtain ⟨b, hb, h⟩ := Option.bind_eq_some_iff.1 h
    cases h
    rw [fold_exact hw hd.1 ha, fold_exact hw hd.2 hb, NumExpr.exact, Bool.decide_and]
  | .or l r, d, hd, h => by
    obtain ⟨a, ha, h⟩ := Option.bind_eq_some_iff.1 h
    obtain ⟨b, hb, h⟩ := Option.bind_eq_some_iff.1 h
    cases h
    rw [fold_exact hw hd.1 ha, fold_exact hw hd.2 hb, NumExpr.exact, Bool.decide_or]

theorem folded_value (hw : w.Exact) {t : NumExpr} (ht : t.Defined ρ) {e : Expr ℚ} {σ : Name → ℚ}
    (he : evalExpr w σ e = t.exact ρ) : evalExpr w σ (NumExpr.folded w t e) = t.exact ρ := by
  unfold NumExpr.folded
  cases hf : t.tryFoldConstant w with
  | some d => exact fold_exact hw ht hf
  | none => exact he

theorem lower_exact (hw : w.Exact) : ∀ {t : NumExpr}, t.Defined ρ →
    evalExpr w (fun x => valToDouble (ρ x)) (t.lower w) = t.exact ρ
  | .number _, _ | .integer _, _ | .var _, _ => rfl
  | .neg e, hd => folded_value hw hd (by
      rw [evalExpr, lower_exact (t := e) hw hd, hw .sub _ _ (by simp)]
      exact zero_sub _)
  | .plus e, hd => folded_value hw hd (lower_exact (t := e) hw hd)
  | .not e, hd => folded_value hw hd (by rw [evalExpr, lower_exact (t := e) hw hd, NumExpr.exact])
  | .arith op l r, hd => folded_value hw hd (by
      rw [evalExpr, lower_exact hw hd.1, lower_exact hw hd.2.1, hw op _ _ hd.2.2, NumExpr.exact])
  | .cmp _ _ _, hd | .and _ _, hd | .or _ _, hd => folded_value hw hd (by
      rw [evalExpr, lower_exact hw hd.1, lower_exact hw hd.2, NumExpr.exact])

theorem tiny_pos : (0 : ℚ) < Double.tiny := by
  show (0 : ℚ) < 1 / 1000000000000000
  norm_num

theorem ne_zero_of_tiny {r : ℚ} (h : Double.tiny ≤ |r|) : r ≠ 0 :=
  abs_pos.1 (lt_of_lt_of_le tiny_pos h)

theorem NumExpr.Regular.defined : ∀ {t : NumExpr}, t.Regular ρ → t.Defined ρ
  | .number _, _ | .integer _, _ | .var _, _ => trivial
  | .neg e, h | .plus e, h => Regular.defined (t := e) h
  | .not _, h => h.elim
  | .arith op l r, h => by
    refine ⟨h.1.defined, h.2.1.defined, ?_⟩
    rintro (rfl | rfl)
    · exact ne_zero_of_tiny h.2.2.1
    · exact ne_zero_of_tiny h.2.2
  | .cmp _ _ _, h | .and _ _, h | .or _ _, h => ⟨h.1.defined, h.2.1.defined⟩

end Lowered

end TurboScript.Mir
