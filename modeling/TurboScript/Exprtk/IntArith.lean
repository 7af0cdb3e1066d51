import Mathlib.Tactic.NormNum
import TurboScript.Exprtk.Charge

/- Integer arithmetic in `exprtk_eval`: which C operations it performs on two INTEGER operands.

   1. `IntTree`: trees over integer literals, variables and `+ - * / %`. `runTree` lists the
      steps with two INTEGER operands; with the machine's arithmetic it is `exprtk_eval`
      (`exprtkEval_tree`), budgets, hooks and throws included.
   2. A step is `Sound` when each C operation of its branch has a mathematical result in 64
      bits, and an INTEGER that comes out is the mathematical one.
   3. `exactBinary` computes with unbounded integers, in lockstep up to the first step whose
      exact result does not fit (`run_lockstep`). -/
namespace TurboScript.Exprtk
open Lib

inductive IntOp
  | plus | minus | multiply | divide | mod
  deriving DecidableEq, Repr

def IntOp.token : IntOp → BinOp
  | .plus => .plus
  | .minus => .minus
  | .multiply => .multiply
  | .divide => .divide
  | .mod => .mod

inductive IntTree
  | literal (i : Int)
  | var (x : Name)
  | sign (op : IntOp) (t : IntTree)
  | binary (op : IntOp) (l r : IntTree)
  deriving DecidableEq, Repr

structure IntStep where
  op : IntOp
  l : Int
  r : Int
  deriving DecidableEq, Repr

def InInt64 (i : Int) : Prop := -2 ^ 63 ≤ i ∧ i < 2 ^ 63

instance (i : Int) : Decidable (InInt64 i) := inferInstanceAs (Decidable (_ ∧ _))

/-- The operations of C on `int64_t`. -/
inductive COp
  | add | sub | mul | quot | rem
  deriving DecidableEq, Repr

structure CStep where
  op : COp
  l : Int
  r : Int
  deriving DecidableEq, Repr

/-- The mathematical result is an `int64_t`; a quotient and a remainder also need a divisor, and
    a remainder traps where its quotient overflows. -/
def CStep.Defined (c : CStep) : Prop :=
  match c.op with
  | .add => InInt64 (c.l + c.r)
  | .sub => InInt64 (c.l - c.r)
  | .mul => InInt64 (c.l * c.r)
  | .quot | .rem => c.r ≠ 0 ∧ InInt64 (c.l.tdiv c.r)

/-- The operations of a branch of the `switch`: a division takes a remainder first. -/
def IntStep.operations (w : IntStep) : List CStep :=
  match w.op with
  | .plus => [⟨.add, w.l, w.r⟩]
  | .minus => [⟨.sub, w.l, w.r⟩]
  | .multiply => [⟨.mul, w.l, w.r⟩]
  | .divide =>
    if w.r = 0 then []
    else ⟨.rem, w.l, w.r⟩ :: if w.l.tmod w.r = 0 then [⟨.quot, w.l, w.r⟩] else []
  | .mod => if w.r = 0 then [] else [⟨.rem, w.l, w.r⟩]

/-- The integer an operator denotes; a division without remainder is exact. -/
def IntStep.exact (w : IntStep) : Int :=
  match w.op with
  | .plus => w.l + w.r
  | .minus => w.l - w.r
  | .multiply => w.l * w.r
  | .divide => w.l.tdiv w.r
  | .mod => w.l.tmod w.r

/-- The exact result fits, and a division is not the one whose quotient does not. -/
def IntStep.Fits (w : IntStep) : Prop :=
  match w.op with
  | .plus | .minus | .multiply => InInt64 w.exact
  | .divide | .mod => ¬(w.l = -2 ^ 63 ∧ w.r = -1)

/-- The operands are `int64_t` values. -/
def IntStep.Operands (w : IntStep) : Prop := InInt64 w.l ∧ InInt64 w.r

instance (w : IntStep) : Decidable w.Fits := by
  unfold IntStep.Fits
  cases w.op <;> infer_instance

namespace IntTree

def toNode {D : Type} : IntTree → Node D
  | .literal i => .integer i
  | .var x => .varRef x
  | .sign op t => .binary op.token none t.toNode
  | .binary op l r => .binary op.token (some l.toNode) r.toNode

def depth : IntTree → Nat
  | .literal _ | .var _ => 1
  | .sign _ t => t.depth + 1
  | .binary _ l r => max l.depth r.depth + 1

def literals : IntTree → List Int
  | .literal i => [i]
  | .var _ => []
  | .sign _ t => t.literals
  | .binary _ l r => l.literals ++ r.literals

def vars : IntTree → List Name
  | .literal _ => []
  | .var x => [x]
  | .sign _ t => t.vars
  | .binary _ l r => l.vars ++ r.vars

end IntTree

section Runs
variable {D Θ : Type} [Double D] [Formats]

abbrev IntArith (D : Type) := IntOp → Int → Int → Except String (Value D)

def machineBinary : IntArith D := fun op l r =>
  (integerBinary op.token l r).getD (.ok zero)

def exactBinary : IntArith D := fun op l r =>
  match op with
  | .divide =>
    if r = 0 then .error "Division by zero"
    else if l.tmod r = 0 then .ok (.integer (l.tdiv r))
    else .ok (.number (Double.div (Double.ofInt l) (Double.ofInt r)))
  | .mod => if r = 0 then .error "Modulo by zero" else .ok (.integer (l.tmod r))
  | op => .ok (.integer (IntStep.exact ⟨op, l, r⟩))

/-- A value, the steps on two INTEGER operands, and the state at the end. -/
structure TreeRun (D Θ : Type) where
  value : Value D
  steps : List IntStep
  state : State D Θ

def thrown (e : EnvId) (msg : String) (s : State D Θ) : State D Θ :=
  reached (throwErr e msg : Eval D Θ (Value D)) s

def settle (e : EnvId) (s : State D Θ) : Except String (Value D) → Value D × State D Θ
  | .ok v => (v, s)
  | .error msg => (zero, thrown e msg s)

def applyOp (ops : IntArith D) (e : EnvId) (op : IntOp) (v w : Value D) (s : State D Θ) : TreeRun D Θ :=
  match v, w with
  | .integer l, .integer r =>
    let x := settle e s (ops op l r)
    ⟨x.1, [⟨op, l, r⟩], x.2⟩
  | v, w =>
    let x := settle e s (evalBinary op.token v w)
    ⟨x.1, [], x.2⟩

/-- An aborted environment evaluates nothing, and every node is charged. -/
def enterNode (h : Host D Θ) (e : EnvId) (s : State D Θ) (k : State D Θ → TreeRun D Θ) : TreeRun D Θ :=
  if (s.envs e).aborted then ⟨zero, [], s⟩
  else match evalStep h e s with
    | .ok true t => k t
    | .ok false t | .error _ t => ⟨zero, [], t⟩

/-- What follows an operand, unless a throw is under way. -/
def TreeRun.next (a : TreeRun D Θ) (e : EnvId) (k : Value D → State D Θ → TreeRun D Θ) : TreeRun D Θ :=
  if (a.state.envs e).flow ≠ .normal then ⟨zero, a.steps, a.state⟩
  else
    let b := k a.value a.state
    ⟨b.value, a.steps ++ b.steps, b.state⟩

/-- `exprtk_eval` on such a tree. -/
def runTree (h : Host D Θ) (ops : IntArith D) (e : EnvId) : IntTree → State D Θ → TreeRun D Θ
  | .literal i, s => enterNode h e s fun t => ⟨.integer i, [], t⟩
  | .var x, s => enterNode h e s fun t => ⟨readVariable t e x, [], t⟩
  | .sign op r, s => enterNode h e s fun t =>
    (runTree h ops e r t).next e fun w t => applyOp ops e op zero w t
  | .binary op l r, s => enterNode h e s fun t =>
    (runTree h ops e l t).next e fun v t =>
      (runTree h ops e r t).next e fun w t => applyOp ops e op v w t

/-! The machine's evaluation is `exprtk_eval`. -/

/-- The variables and the flow flags are what they were. -/
def Untouched (s t : State D Θ) : Prop :=
  ∀ i, (t.envs i).vars = (s.envs i).vars ∧ (t.envs i).parent = (s.envs i).parent ∧
    (t.envs i).flow = (s.envs i).flow

omit [Formats] [Double D] in
theorem Untouched.update {s t : State D Θ} (h : Untouched s t) (e : EnvId) (f : Env D → Env D)
    (hf : ∀ env, (f env).vars = env.vars ∧ (f env).parent = env.parent ∧ (f env).flow = env.flow) :
    Untouched s (t.update e f) := by
  intro i
  unfold State.update
  by_cases hi : i = e
  · subst hi
    simp only [Function.update_self]
    rw [(hf _).1, (hf _).2.1, (hf _).2.2]
    exact h i
  · simp only [Function.update_of_ne hi]
    exact h i

omit [Formats] [Double D] in
theorem evalStep_ends (h : Host D Θ) (e : EnvId) (s : State D Θ) :
    ∃ b t, evalStep h e s = .ok b t ∧ Untouched s t := by
  have hs : Triple (fun _ => False) (Untouched s) (evalStep h e) fun _ => Untouched s := by
    have habort : Triple (fun _ => False) (Untouched s)
        (do abort e; return false : Eval D Θ Bool) fun _ => Untouched s := by
      refine Triple.bind' (R := fun _ => Untouched s) ?_ fun _ => Triple.pure' false fun t ht => ht
      refine Triple.bind' (R := fun _ => Untouched s) (fun t ht => ht) fun _ => ?_
      exact fun t ht => ht.update e _ fun _ => ⟨rfl, rfl, rfl⟩
    have hgrant : Triple (fun _ => False) (Untouched s) (return true : Eval D Θ Bool)
        fun _ => Untouched s := Triple.pure' true fun t ht => ht
    refine Triple.bind' (R := fun _ => Untouched s) (fun t ht => ht) fun env => ?_
    apply Triple.ite'
    · intro _
      refine Triple.bind' (R := fun _ => Untouched s) (fun t ht => ht) fun b => ?_
      exact Triple.ite' (fun _ => hgrant) fun _ => habort
    · intro _
      refine Triple.bind' (R := fun _ => Untouched s) ?_ fun _ =>
        Triple.ite' (fun _ => habort) fun _ => hgrant
      exact fun t ht => ht.update e _ fun _ => ⟨rfl, rfl, rfl⟩
  have h₁ := hs s fun i => ⟨rfl, rfl, rfl⟩
  cases hr : evalStep h e s with
  | ok b t =>
    rw [hr] at h₁
    exact ⟨b, t, rfl, h₁⟩
  | error x t =>
    rw [hr] at h₁
    exact h₁.elim

/-- The result as the evaluator returns it. -/
def TreeRun.result (a : TreeRun D Θ) : EStateM.Result Unit (State D Θ) (Value D) :=
  .ok a.value a.state

omit [Formats] in
theorem throwErr_apply (e : EnvId) (msg : String) (s : State D Θ) :
    throwErr e msg s = .ok zero (thrown e msg s) := rfl

omit [Formats] in
theorem integerBinary_machine (op : IntOp) (l r : Int) :
    integerBinary (D := D) op.token l r = some (machineBinary op l r) := by
  unfold machineBinary
  cases op with
  | divide =>
    by_cases hr : r = 0
    · simp [IntOp.token, integerBinary, hr]
    · by_cases hm : l.tmod r = 0
      · simp [IntOp.token, integerBinary, hr, hm]
      · simp [IntOp.token, integerBinary, hr, hm]
  | mod =>
    by_cases hr : r = 0
    · simp [IntOp.token, integerBinary, hr]
    · simp [IntOp.token, integerBinary, hr]
  | _ => rfl

theorem evalBinary_integers (op : IntOp) (l r : Int) :
    evalBinary (D := D) op.token (.integer l) (.integer r) = machineBinary op l r := by
  simp only [evalBinary, integerBinary_machine]
  rfl

theorem applyOp_machine (e : EnvId) (op : IntOp) (v w : Value D) (s : State D Θ) :
    binaryResult op.token v w e s = (applyOp machineBinary e op v w s).result := by
  have hsettle : ∀ x : Except String (Value D), (match x with
      | .ok v => return v
      | .error msg => throwErr e msg : Eval D Θ (Value D)) s =
      .ok (settle e s x).1 (settle e s x).2 := by
    intro x
    cases x with
    | ok v => rfl
    | error msg => exact throwErr_apply e msg s
  unfold binaryResult applyOp
  split
  · rw [evalBinary_integers]
    exact hsettle _
  · exact hsettle _

theorem exprtkEval_enter (h : Host D Θ) (R : Evaluators D Θ) (n : Nat) (node : Node D) (e : EnvId)
    (s : State D Θ) (k : State D Θ → TreeRun D Θ)
    (hk : ∀ t, Untouched s t → evalNode h R n node e t = (k t).result) :
    exprtkEval h R n node e s = (enterNode h e s k).result := by
  obtain ⟨b, t, hstep, hsame⟩ := evalStep_ends h e s
  unfold enterNode exprtkEval
  rw [bind_apply, getEnv_apply]
  cases ha : (s.envs e).aborted with
  | true =>
    simp only [ha, if_true]
    rfl
  | false =>
    simp only [ha, Bool.false_eq_true, if_false, bind_apply, hstep]
    cases b with
    | false => rfl
    | true => exact hk t hsame

omit [Formats] in
theorem operand_next {e : EnvId} {m : Eval D Θ (Value D)} {s : State D Θ} {a : TreeRun D Θ}
    {f : Value D → Eval D Θ (Value D)} {k : Value D → State D Θ → TreeRun D Θ}
    (hm : m s = a.result)
    (hk : (a.state.envs e).flow = .normal → f a.value a.state = (k a.value a.state).result) :
    (do
      let v ← m
      if !(← flowNormal e) then return zero else f v) s = (a.next e k).result := by
  unfold TreeRun.next
  rw [bind_apply, hm]
  simp only [TreeRun.result, bind_apply, flowNormal_apply]
  by_cases hflow : (a.state.envs e).flow = .normal
  · simp only [hflow, decide_true, Bool.not_true, Bool.false_eq_true, if_false, ne_eq, not_true]
    exact hk hflow
  · simp only [hflow, decide_false, Bool.not_false, if_true, ne_eq, not_false_eq_true]
    rfl

/-- With as many levels of fuel as the tree is deep, `exprtk_eval` from an environment in which
    no jump or throw is under way does what `runTree` does with the machine's arithmetic. -/
theorem exprtkEval_tree (h : Host D Θ) (e : EnvId) : ∀ (t : IntTree) (n : Nat) (s : State D Θ),
    t.depth ≤ n → (s.envs e).flow = .normal →
    (evaluators h n).eval t.toNode e s = (runTree h machineBinary e t s).result
  | t, 0, _, hn, _ => by cases t <;> simp [IntTree.depth] at hn
  | .literal i, n + 1, s, _, _ => exprtkEval_enter h (evaluators h n) n _ e s _ fun _ _ => rfl
  | .var x, n + 1, s, _, _ => by
    refine exprtkEval_enter h (evaluators h n) n _ e s _ fun t _ => ?_
    exact envGet_apply e x t
  | .sign op r, n + 1, s, hn, hflow => by
    have hr : r.depth ≤ n := by simp only [IntTree.depth] at hn; omega
    refine exprtkEval_enter h (evaluators h n) n _ e s _ fun t ht => ?_
    have htflow : (t.envs e).flow = .normal := (ht e).2.2.trans hflow
    show evalBinaryNode (evaluators h n) op.token none r.toNode e t = _
    unfold evalBinaryNode evalOpt
    rw [pure_bind, bind_apply, flowNormal_apply, htflow]
    show (do
      let v ← (evaluators h n).eval r.toNode e
      if !(← flowNormal e) then return zero else binaryResult op.token zero v e) t = _
    refine operand_next (exprtkEval_tree h e r n t hr htflow) fun _ => ?_
    exact applyOp_machine e op _ _ _
  | .binary op l r, n + 1, s, hn, hflow => by
    have hl : l.depth ≤ n := by simp only [IntTree.depth] at hn; omega
    have hr : r.depth ≤ n := by simp only [IntTree.depth] at hn; omega
    refine exprtkEval_enter h (evaluators h n) n _ e s _ fun t ht => ?_
    have htflow : (t.envs e).flow = .normal := (ht e).2.2.trans hflow
    refine operand_next (exprtkEval_tree h e l n t hl htflow) fun hlflow => ?_
    refine operand_next (exprtkEval_tree h e r n _ hr hlflow) fun _ => ?_
    exact applyOp_machine e op _ _ _

/-! Soundness of a step. -/

/-- Every C operation of the step has a result in 64 bits, and an INTEGER that comes out is the
    mathematical one. -/
def IntStep.Sound (D : Type) [Double D] (w : IntStep) : Prop :=
  (∀ c ∈ w.operations, c.Defined) ∧
    ∀ i, machineBinary (D := D) w.op w.l w.r = .ok (.integer i) → i = w.exact

omit [Formats] in
theorem wrap64_of_fits {i : Int} (h : InInt64 i) : wrap64 i = i := by
  unfold InInt64 at h
  unfold wrap64 Int.bmod
  norm_num
  omega

omit [Formats] in
theorem quotient_fits {l r : Int} (hl : InInt64 l) (hr : r ≠ 0) :
    InInt64 (l.tdiv r) ↔ ¬(l = -2 ^ 63 ∧ r = -1) := by
  unfold InInt64 at *
  constructor
  · rintro h ⟨rfl, rfl⟩
    exact absurd h (by decide)
  · intro h
    have habs : (l.tdiv r).natAbs ≤ l.natAbs := by
      rw [Int.natAbs_tdiv]
      exact Nat.div_le_self _ _
    by_cases hone : r = -1
    · subst hone
      rw [Int.tdiv_neg, Int.tdiv_one]
      omega
    · by_cases hmin : l = -2 ^ 63
      · by_cases hpos : r = 1
        · subst hpos
          rw [Int.tdiv_one]
          omega
        · have htwo : 2 ≤ r.natAbs := by omega
          have hhalf : (l.tdiv r).natAbs ≤ l.natAbs / 2 := by
            rw [Int.natAbs_tdiv]
            exact Nat.div_le_div_left htwo (by decide)
          omega
      · omega

omit [Formats] in
theorem sound_iff_fits (w : IntStep) (hw : w.Operands) : w.Sound D ↔ w.Fits := by
  obtain ⟨op, l, r⟩ := w
  have hl : InInt64 l := hw.1
  have hquot : r ≠ 0 → (InInt64 (l.tdiv r) ↔ (l = -9223372036854775808 → ¬r = -1)) := by
    intro hr
    simpa using quotient_fits hl hr
  have hwrap : ∀ j : Int, InInt64 j → ∀ i : Int,
      (Except.ok (.integer (wrap64 j)) : Except String (Value D)) = .ok (.integer i) → i = j := by
    intro j hj i hi
    rw [wrap64_of_fits hj] at hi
    cases hi
    rfl
  cases op with
  | plus | minus | multiply =>
    exact ⟨fun h => h.1 _ List.mem_cons_self, fun h =>
      ⟨fun c hc => List.mem_singleton.mp hc ▸ h, hwrap _ h⟩⟩
  | divide =>
    by_cases hr : r = 0
    · subst hr
      simp [IntStep.Sound, IntStep.Fits, IntStep.operations, machineBinary, IntOp.token, integerBinary]
    · by_cases hm : l.tmod r = 0
      · simp [IntStep.Sound, IntStep.Fits, IntStep.operations, machineBinary, IntOp.token,
          integerBinary, hr, hm, CStep.Defined, IntStep.exact]
        rw [← hquot hr]
        exact ⟨fun h => h.1, fun h => ⟨h, wrap64_of_fits h⟩⟩
      · simp [IntStep.Sound, IntStep.Fits, IntStep.operations, machineBinary, IntOp.token,
          integerBinary, hr, hm, CStep.Defined, hquot hr]
  | mod =>
    by_cases hr : r = 0
    · subst hr
      simp [IntStep.Sound, IntStep.Fits, IntStep.operations, machineBinary, IntOp.token, integerBinary]
    · simp [IntStep.Sound, IntStep.Fits, IntStep.operations, machineBinary, IntOp.token,
        integerBinary, hr, CStep.Defined, IntStep.exact, hquot hr]

/-! The machine's evaluation and the exact one. -/

/-- What an expression of these trees evaluates to while every step fits. -/
def InRange : Value D → Prop
  | .integer i => InInt64 i
  | .number _ => True
  | _ => False

/-- The runs are one run so far, and each of its steps fits; or each holds a step that does not. -/
def Lockstep (e : EnvId) (s : State D Θ) (a b : TreeRun D Θ) : Prop :=
  (a = b ∧ (∀ w ∈ a.steps, w.Operands ∧ w.Fits) ∧ InRange a.value ∧
    readVariable a.state e = readVariable s e) ∨
  ((∃ w ∈ a.steps, w.Operands ∧ ¬w.Fits) ∧ ∃ w ∈ b.steps, ¬w.Fits)

omit [Formats] in
theorem readVariable_congr {s t : State D Θ} (e : EnvId)
    (h : ∀ i, (t.envs i).vars = (s.envs i).vars ∧ (t.envs i).parent = (s.envs i).parent) :
    readVariable t e = readVariable s e := by
  funext name
  have hlookup : lookupBinding t.envs e name = lookupBinding s.envs e name := by
    unfold lookupBinding
    rw [findEnv_congr (fun i => by rw [(h i).1]) fun i => (h i).2]
    cases findEnv s.envs (fun env => (env.vars name).isSome) (e + 1) e with
    | none => rfl
    | some i => exact congrFun (h i).1 name
  unfold readVariable
  rw [hlookup]

omit [Formats] in
theorem Untouched.reads {s t : State D Θ} (h : Untouched s t) (e : EnvId) :
    readVariable t e = readVariable s e :=
  readVariable_congr e fun i => ⟨(h i).1, (h i).2.1⟩

omit [Formats] in
theorem readVariable_thrown (e : EnvId) (msg : String) (s : State D Θ) :
    readVariable (thrown e msg s) e = readVariable s e := by
  have henvs : (thrown e msg s).envs = ((s.update e fun env => { env with errorMsg := msg }).update e
      fun env => { env with flow := .throw, errorValue := .string msg }).envs := rfl
  refine readVariable_congr e fun i => ?_
  rw [henvs]
  by_cases hi : i = e
  · subst hi
    simp [State.update]
  · simp [State.update, hi]

omit [Formats] in
theorem readVariable_settle (e : EnvId) (s : State D Θ) (x : Except String (Value D)) :
    readVariable (settle e s x).2 e = readVariable s e := by
  cases x with
  | ok v => rfl
  | error msg => exact readVariable_thrown e msg s

omit [Formats] in
theorem settle_inRange (e : EnvId) (s : State D Θ) {x : Except String (Value D)}
    (hx : ∀ v, x = .ok v → InRange v) : InRange (settle e s x).1 := by
  cases x with
  | ok v => exact hx v rfl
  | error msg => trivial

namespace Lockstep
variable {e : EnvId} {s t : State D Θ} {a b : TreeRun D Θ}

omit [Formats] in
theorem of_reads (h : Lockstep e t a b) (hr : readVariable t e = readVariable s e) : Lockstep e s a b :=
  h.imp_left fun ⟨heq, hfits, hval, hread⟩ => ⟨heq, hfits, hval, hread.trans hr⟩

omit [Formats] in
theorem same {v : Value D} (hv : InRange v) (hr : readVariable t e = readVariable s e) :
    Lockstep e s ⟨v, [], t⟩ ⟨v, [], t⟩ :=
  .inl ⟨rfl, fun _ h => absurd h List.not_mem_nil, hv, hr⟩

omit [Formats] in
theorem enter (h : Host D Θ) {k k' : State D Θ → TreeRun D Θ}
    (hk : ∀ t, Untouched s t → Lockstep e t (k t) (k' t)) :
    Lockstep e s (enterNode h e s k) (enterNode h e s k') := by
  obtain ⟨b, t, hstep, hsame⟩ := evalStep_ends h e s
  unfold enterNode
  split
  · exact same trivial rfl
  · rw [hstep]
    cases b with
    | false => exact same trivial (hsame.reads e)
    | true => exact (hk t hsame).of_reads (hsame.reads e)

omit [Formats] [Double D] in
theorem mem_next [Double D] {w : IntStep} (hw : w ∈ a.steps)
    (k : Value D → State D Θ → TreeRun D Θ) : w ∈ (a.next e k).steps := by
  unfold TreeRun.next
  split
  · exact hw
  · exact List.mem_append_left _ hw

omit [Formats] in
theorem next (h : Lockstep e s a b) {k k' : Value D → State D Θ → TreeRun D Θ}
    (hk : ∀ v t, InRange v → readVariable t e = readVariable s e → Lockstep e t (k v t) (k' v t)) :
    Lockstep e s (a.next e k) (b.next e k') := by
  obtain ⟨rfl, hfits, hval, hread⟩ | ⟨⟨w, hw, hbad⟩, w', hw', hbad'⟩ := h
  · unfold TreeRun.next
    split
    · exact .inl ⟨rfl, hfits, trivial, hread⟩
    · obtain ⟨hsame, hfits', hval', hread'⟩ | ⟨⟨w, hw, hbad⟩, w', hw', hbad'⟩ :=
        hk a.value a.state hval hread
      · refine .inl ⟨by rw [hsame], fun w hw => ?_, hval', hread'.trans hread⟩
        obtain hw | hw := List.mem_append.mp hw
        · exact hfits w hw
        · exact hfits' w hw
      · exact .inr ⟨⟨w, List.mem_append_right _ hw, hbad⟩, w', List.mem_append_right _ hw', hbad'⟩
  · exact .inr ⟨⟨w, mem_next hw k, hbad⟩, w', mem_next hw' k', hbad'⟩

end Lockstep

omit [Formats] in
theorem machineBinary_of_fits {op : IntOp} {l r : Int} (hl : InInt64 l)
    (h : IntStep.Fits ⟨op, l, r⟩) : machineBinary (D := D) op l r = exactBinary op l r := by
  have hwrap : ∀ {j : Int}, InInt64 j → (Value.integer (wrap64 j) : Value D) = .integer j :=
    fun hj => by rw [wrap64_of_fits hj]
  cases op with
  | plus | minus | multiply => exact congrArg Except.ok (hwrap h)
  | divide =>
    by_cases hr : r = 0
    · simp [machineBinary, exactBinary, integerBinary, IntOp.token, hr]
    · have hquot := hwrap ((quotient_fits hl hr).mpr h)
      simp [machineBinary, exactBinary, integerBinary, IntOp.token, hr, hquot]
      split
      · rfl
      · rfl
  | mod =>
    simp only [machineBinary, exactBinary, integerBinary, IntOp.token]
    split
    · rfl
    · rfl

omit [Formats] in
theorem exactBinary_inRange {op : IntOp} {l r : Int} (hl : InInt64 l)
    (h : IntStep.Fits ⟨op, l, r⟩) {v : Value D} (hv : exactBinary op l r = .ok v) : InRange v := by
  cases op with
  | plus | minus | multiply =>
    cases hv
    exact h
  | divide =>
    simp only [exactBinary] at hv
    split at hv
    · cases hv
    · rename_i hr
      split at hv
      · cases hv
        exact (quotient_fits hl hr).mpr h
      · cases hv
        trivial
  | mod =>
    simp only [exactBinary] at hv
    split at hv
    · cases hv
    · cases hv
      have habs : (l.tmod r).natAbs ≤ l.natAbs := by
        rw [Int.natAbs_tmod]
        exact Nat.mod_le _ _
      unfold InRange InInt64 at *
      have hsign : l ≤ 0 → l.tmod r ≤ 0 := fun hneg => by
        have hpos := Int.tmod_nonneg r (by omega : 0 ≤ -l)
        rw [Int.neg_tmod] at hpos
        omega
      omega

theorem evalBinary_mixed (op : IntOp) {v w u : Value D} (hv : InRange v) (hw : InRange w)
    (hmixed : ∀ l r, v = .integer l → w ≠ .integer r)
    (hu : evalBinary op.token v w = .ok u) : InRange u := by
  have hdouble : ∀ x y : D, ∀ u, doubleBinary op.token x y = some (.ok u) → InRange u := by
    intro x y u hu
    cases op with
    | plus | minus | multiply =>
      cases hu
      trivial
    | divide | mod =>
      simp only [IntOp.token, doubleBinary] at hu
      split at hu
      · cases hu
      · cases hu
        trivial
  have hsome : ∀ x y : D, ∃ z, doubleBinary op.token x y = some z := by
    intro x y
    cases op with
    | plus | minus | multiply => exact ⟨_, rfl⟩
    | divide | mod =>
      simp only [IntOp.token, doubleBinary]
      split
      · exact ⟨_, rfl⟩
      · exact ⟨_, rfl⟩
  have hmain : ∀ x y : D, evalBinary op.token v w = (doubleBinary op.token x y).getD (.ok zero) →
      InRange u := by
    intro x y h
    obtain ⟨z, hz⟩ := hsome x y
    rw [hz, hu] at h
    exact hdouble x y u (hz.trans (congrArg some h.symm))
  have heval : ∀ x y : D, (isNumeric v && isNumeric w) = true → valToDouble v = x →
      valToDouble w = y → (∀ l r, v = .integer l → w ≠ .integer r) →
      evalBinary op.token v w = (doubleBinary op.token x y).getD (.ok zero) := by
    rintro x y hnum rfl rfl hmixed
    obtain ⟨z, hz⟩ := hsome (valToDouble v) (valToDouble w)
    unfold evalBinary
    split
    · exact absurd rfl (hmixed _ _ rfl)
    · simp only [hnum, if_true, hz]
      rfl
  have hnumeric : ∀ {v : Value D}, InRange v → isNumeric v = true := by
    intro v hv
    cases v <;> first | rfl | exact hv.elim
  exact hmain _ _ (heval _ _ (by rw [hnumeric hv, hnumeric hw]; rfl) rfl rfl hmixed)

theorem applyOp_lockstep (e : EnvId) (op : IntOp) {v w : Value D} (hv : InRange v)
    (hw : InRange w) (s : State D Θ) :
    Lockstep e s (applyOp machineBinary e op v w s) (applyOp exactBinary e op v w s) := by
  unfold applyOp
  split
  · rename_i l r
    by_cases hfits : IntStep.Fits ⟨op, l, r⟩
    · rw [machineBinary_of_fits hv hfits]
      refine .inl ⟨rfl, fun w hw' => ?_, ?_, readVariable_settle e s _⟩
      · rw [List.mem_singleton.mp hw']
        exact ⟨⟨hv, hw⟩, hfits⟩
      · exact settle_inRange e s fun v hv' => exactBinary_inRange hv hfits hv'
    · exact .inr ⟨⟨_, List.mem_singleton.mpr rfl, ⟨hv, hw⟩, hfits⟩, _, List.mem_singleton.mpr rfl, hfits⟩
  · rename_i hmixed
    have hmixed' : ∀ l r, v = .integer l → w ≠ .integer r := fun l r hl hr => hmixed l r hl hr
    refine Lockstep.same ?_ (readVariable_settle e s _)
    exact settle_inRange e s fun u hu => evalBinary_mixed op hv hw hmixed' hu

theorem run_lockstep (h : Host D Θ) (e : EnvId) : ∀ (t : IntTree) (s : State D Θ),
    (∀ i ∈ t.literals, InInt64 i) → (∀ x ∈ t.vars, InRange (readVariable s e x)) →
    Lockstep e s (runTree h machineBinary e t s) (runTree h exactBinary e t s)
  | .literal i, s, hl, _ => Lockstep.enter h fun t _ =>
    Lockstep.same (hl i List.mem_cons_self) rfl
  | .var x, s, _, hv => Lockstep.enter h fun t ht => by
    refine Lockstep.same ?_ rfl
    rw [ht.reads e]
    exact hv x List.mem_cons_self
  | .sign op r, s, hl, hv => Lockstep.enter h fun t ht => by
    have hoperand := run_lockstep h e r t hl (by rwa [ht.reads e])
    exact hoperand.next fun w t hw _ => applyOp_lockstep e op (v := zero) trivial hw t
  | .binary op l r, s, hl, hv => Lockstep.enter h fun t ht => by
    have hvt : ∀ x ∈ l.vars ++ r.vars, InRange (readVariable t e x) := by
      rw [ht.reads e]
      exact hv
    have hleft := run_lockstep h e l t (fun i hi => hl i (List.mem_append_left _ hi))
      fun x hx => hvt x (List.mem_append_left _ hx)
    refine hleft.next fun v t' hval hread => ?_
    have hright := run_lockstep h e r t' (fun i hi => hl i (List.mem_append_right _ hi))
      fun x hx => by rw [hread]; exact hvt x (List.mem_append_right _ hx)
    exact hright.next fun w t'' hw _ => applyOp_lockstep e op hval hw t''

/-- Over 64-bit literals and variables, `exprtk_eval` performs only sound steps on INTEGER
    operands exactly if, in exact arithmetic, every result fits in 64 bits and no division is
    that of the least integer by -1. -/
theorem integer_arithmetic_sound_iff (h : Host D Θ) (e : EnvId) (t : IntTree) (s : State D Θ)
    (hl : ∀ i ∈ t.literals, InInt64 i)
    (hv : ∀ x ∈ t.vars, ∃ i, readVariable s e x = .integer i ∧ InInt64 i) :
    (∀ w ∈ (runTree h machineBinary e t s).steps, w.Sound D) ↔
      ∀ w ∈ (runTree h exactBinary e t s).steps, w.Fits := by
  have hrange : ∀ x ∈ t.vars, InRange (readVariable s e x) := by
    intro x hx
    obtain ⟨i, hi, hin⟩ := hv x hx
    rw [hi]
    exact hin
  obtain ⟨hsame, hall, -⟩ | ⟨⟨w, hw, hops, hbad⟩, w', hw', hbad'⟩ := run_lockstep h e t s hl hrange
  · rw [← hsame]
    exact ⟨fun _ w hw => (hall w hw).2, fun _ w hw =>
      (sound_iff_fits w (hall w hw).1).mpr (hall w hw).2⟩
  · exact ⟨fun hsound => absurd ((sound_iff_fits w hops).mp (hsound w hw)) hbad,
      fun hfits => absurd (hfits w' hw') hbad'⟩

end Runs

section Samples

def successor : IntTree := .binary .plus (.var "x") (.literal 1)

def bound (x : Int) : State ℚ Unit := State.fresh [("x", .integer x)]

/-- `x + 1` with `x = 3`: one step, and a sound one. -/
theorem successor_of_three :
    (runTree Host.bare machineBinary 0 successor (bound 3)).steps = [⟨.plus, 3, 1⟩] ∧
      ∀ w ∈ (runTree Host.bare machineBinary 0 successor (bound 3)).steps, w.Sound ℚ := by
  refine ⟨by decide +kernel, ?_⟩
  have hlit : ∀ i ∈ successor.literals, InInt64 i := by decide
  have hvar : ∀ x ∈ successor.vars, ∃ i, readVariable (bound 3) 0 x = .integer i ∧ InInt64 i := by
    intro x hx
    rw [List.mem_singleton.mp hx]
    exact ⟨3, rfl, by decide⟩
  exact (integer_arithmetic_sound_iff Host.bare 0 successor (bound 3) hlit hvar).mpr (by decide +kernel)

/-- `x + 1` with the greatest integer wraps around to the least one, and `x % -1` with the least
    one traps: neither step is sound. -/
theorem arithmetic_overflows :
    (evaluators Host.bare 2).eval successor.toNode 0 (bound 9223372036854775807) =
        (runTree Host.bare machineBinary 0 successor (bound 9223372036854775807)).result ∧
      (runTree Host.bare machineBinary 0 successor (bound 9223372036854775807)).value =
        .integer (-9223372036854775808) ∧
      (∃ w ∈ (runTree Host.bare machineBinary 0 successor (bound 9223372036854775807)).steps, ¬w.Sound ℚ) ∧
      ¬IntStep.Sound ℚ ⟨.mod, -9223372036854775808, -1⟩ := by
  refine ⟨exprtkEval_tree Host.bare 0 successor 2 _ (by decide) rfl, by rfl, ?_, ?_⟩
  · refine ⟨⟨.plus, 9223372036854775807, 1⟩, by decide +kernel, fun hsound => ?_⟩
    have hdefined : CStep.Defined ⟨.add, 9223372036854775807, 1⟩ := hsound.1 _ List.mem_cons_self
    exact absurd hdefined (by simp [CStep.Defined, InInt64])
  · intro hsound
    have hdefined : CStep.Defined ⟨.rem, -9223372036854775808, -1⟩ :=
      hsound.1 _ List.mem_cons_self
    exact absurd hdefined (by simp [CStep.Defined, InInt64])

end Samples

end TurboScript.Exprtk
