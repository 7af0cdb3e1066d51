import Mathlib.Algebra.Order.Ring.Int
import Mathlib.Order.Defs.LinearOrder
import Mathlib.Algebra.NeZero
import Mathlib.Logic.Function.Basic
import TurboScript.Mir.Lower

/- What the lowered code and the source mean, for scripts of numeric statements.

   1. The MIR machine: registers, the environment, and one step per instruction. A
      helper reads variables by value (an unbound one reads as zero), binds any number
      of them and returns a number; arithmetic and helpers are parameters (`World`).
   2. Source-order execution (`exec`), with fuel. A run also lists its assignments, and the
      points where the lowered code writes back, with the dirty flags the lowering has there.
   3. The flags themselves (`flagsAfter`): one pass over the statement in lowering order. -/
namespace TurboScript.Mir
open Lib Function

variable {D : Type}

abbrev Env (D : Type) := Name → Option D

structure World (D : Type) where
  arith : ArithOp → D → D → D
  helper : NodeId → (Name → D) → List (Name × D) × D

def bindAll (env : Env D) : List (Name × D) → Env D
  | [] => env
  | (x, v) :: ws => bindAll (update env x (some v)) ws

/-! The machine. -/

section Machine

variable [LinearOrder D] [Zero D] [One D]

def readVar (env : Env D) (x : Name) : D := (env x).getD 0

def CmpOp.eval : CmpOp → D → D → Bool
  | .lt, a, b => decide (a < b)
  | .gt, a, b => decide (b < a)
  | .le, a, b => decide (a ≤ b)
  | .ge, a, b => decide (b ≤ a)
  | .eq, a, b => decide (a = b)
  | .ne, a, b => decide (a ≠ b)

def Operand.eval (regs : Reg → D) : Operand D → D
  | .reg r => regs r
  | .imm d => d

structure Conf (D : Type) where
  code : List (Insn D)
  regs : Reg → D
  env : Env D

def mstep (w : World D) (prog : List (Insn D)) : Conf D → Option (Conf D)
  | ⟨[], _, _⟩ => none
  | ⟨i :: c, regs, env⟩ =>
    match i with
    | .label _ | .slotDestroy _ | .alloca _ | .throwPoint => some ⟨c, regs, env⟩
    | .jmp l => (seek Insn.defines l prog).map (fun c' => ⟨c', regs, env⟩)
    | .branch op l a b =>
      if op.eval (a.eval regs) (b.eval regs) then
        (seek Insn.defines l prog).map (fun c' => ⟨c', regs, env⟩)
      else some ⟨c, regs, env⟩
    | .mov dst src => some ⟨c, update regs dst (src.eval regs), env⟩
    | .arith op dst a b =>
      some ⟨c, update regs dst (w.arith op (a.eval regs) (b.eval regs)), env⟩
    | .cmp op dst a b =>
      some ⟨c, update regs dst (if op.eval (a.eval regs) (b.eval regs) then 1 else 0), env⟩
    | .i2d dst src => some ⟨c, update regs dst (regs src), env⟩
    | .loadVar dst x => some ⟨c, update regs dst (readVar env x), env⟩
    | .storeVar x src => some ⟨c, regs, update env x (some (regs src))⟩
    | .valueExpr dst node _ | .call dst node _ =>
      let (ws, v) := w.helper node (readVar env)
      some ⟨c, update regs dst v, bindAll env ws⟩
    | .valueExprAssign dst x node =>
      let (ws, v) := w.helper node (readVar env)
      some ⟨c, update regs dst v, update (bindAll env ws) x (some v)⟩
    | .ret _ => none

end Machine

/-! The source. -/

/-- Expressions of numbers, variables, operators and `if`: they change nothing. -/
def Expr.numeric : Expr D → Bool
  | .num _ | .var _ => true
  | .neg e | .not e | .plus e => e.numeric
  | .arith _ l r | .cmp _ l r | .and l r | .or l r => l.numeric && r.numeric
  | .ite c t e => c.numeric && t.numeric && e.numeric
  | .iteNoElse c t => c.numeric && t.numeric
  | _ => false

def Expr.basic : Expr D → Bool
  | .assign _ e => e.numeric
  | .value _ _ => true
  | e => e.numeric

/-- A `for` header: no control flow. -/
def Stmt.basic : Stmt D → Bool
  | .skip => true
  | .seq s t => s.basic && t.basic
  | .expr e => e.basic
  | _ => false

def numericOpt : Option (Expr D) → Bool
  | some e => e.numeric
  | none => true

/-- The scripts of the write-back results. -/
def Stmt.script : Stmt D → Bool
  | .skip | .brk | .cont => true
  | .seq s t => s.script && t.script
  | .expr e => e.basic
  | .ifThen c t => c.numeric && t.script
  | .ifElse c t e => c.numeric && t.script && e.script
  | .while c body => c.numeric && body.script
  | .for init c post body => init.basic && numericOpt c && post.basic && body.script
  | .ret e => numericOpt e
  | _ => false

attribute [grind =] Expr.numeric Expr.basic Stmt.basic Stmt.script

abbrev Flags := Name → Bool

def noFlags : Flags := fun _ => false

/-- The dirty flags after lowering a statement, from the flags before: an assignment sets
    its variable's flag, a helper's write-back clears them all, and branches and loop
    bodies are passed once, in the order they are lowered. -/
def flagsAfter : Stmt D → Flags → Flags
  | .expr (.assign x _), F => update F x true
  | .expr (.value _ _), _ => noFlags
  | .seq s t, F => flagsAfter t (flagsAfter s F)
  | .ifThen _ t, F => flagsAfter t F
  | .ifElse _ t e, F => flagsAfter e (flagsAfter t F)
  | .while _ body, F => flagsAfter body F
  | .for init _ post body, F => flagsAfter post (flagsAfter body (flagsAfter init F))
  | _, F => F

inductive Outcome
  | normal | brk | cont | ret
  deriving DecidableEq, Repr

inductive Event
  | assign (x : Name)
  | writeBack (flags : Flags)

def pendingAfter : List Name → List Event → List Name
  | U, [] => U
  | U, .assign x :: tr => pendingAfter (x :: U) tr
  | _, .writeBack _ :: tr => pendingAfter [] tr

/-- At every write-back the run passes, each variable assigned since the last one has its
    flag set. -/
def Covered : List Name → List Event → Prop
  | _, [] => True
  | U, .assign x :: tr => Covered (x :: U) tr
  | U, .writeBack F :: tr => (∀ x ∈ U, F x = true) ∧ Covered [] tr

abbrev RunResult (D : Type) := Option (Outcome × Env D × List Event)

def prepend (tr : List Event) : RunResult D → RunResult D
  | some (o, env, tr') => some (o, env, tr ++ tr')
  | none => none

theorem prepend_eq_some {tr tr' : List Event} {r : RunResult D} {o : Outcome} {σ : Env D}
    (h : prepend tr r = some (o, σ, tr')) : ∃ tr₂, r = some (o, σ, tr₂) ∧ tr' = tr ++ tr₂ := by
  cases r with
  | none => cases h
  | some q =>
    obtain ⟨o₁, σ₁, tr₁⟩ := q
    cases h
    exact ⟨tr₁, rfl, rfl⟩

section Source

variable [LinearOrder D] [Zero D] [One D]

def ofBool (b : Bool) : D := if b then 1 else 0

def evalExpr (w : World D) (ρ : Name → D) : Expr D → D
  | .num d => d
  | .var x => ρ x
  | .neg e => w.arith .sub 0 (evalExpr w ρ e)
  | .not e => ofBool (decide (evalExpr w ρ e = 0))
  | .plus e => evalExpr w ρ e
  | .arith op l r => w.arith op (evalExpr w ρ l) (evalExpr w ρ r)
  | .cmp op l r => ofBool (op.eval (evalExpr w ρ l) (evalExpr w ρ r))
  | .and l r => ofBool (decide (evalExpr w ρ l ≠ 0 ∧ evalExpr w ρ r ≠ 0))
  | .or l r => ofBool (decide (evalExpr w ρ l ≠ 0 ∨ evalExpr w ρ r ≠ 0))
  | .ite c t e => if evalExpr w ρ c ≠ 0 then evalExpr w ρ t else evalExpr w ρ e
  | .iteNoElse c t => if evalExpr w ρ c ≠ 0 then evalExpr w ρ t else 0
  | _ => 0

/-- A `for` without a condition goes on. -/
def evalCond (w : World D) (ρ : Name → D) : Option (Expr D) → Bool
  | some e => decide (evalExpr w ρ e ≠ 0)
  | none => true

mutual
/-- Source-order execution. The flags are those the lowering has at the statement; they
    decide nothing and only mark the write-backs of the trace. -/
def exec (w : World D) : Nat → Stmt D → Flags → Env D → RunResult D
  | 0, _, _, _ => none
  | n + 1, s, F, env =>
    match s with
    | .expr (.assign x e) =>
      some (.normal, update env x (some (evalExpr w (readVar env) e)), [.assign x])
    | .expr (.value node _) =>
      some (.normal, bindAll env (w.helper node (readVar env)).1, [.writeBack F])
    | .seq s t =>
      match exec w n s F env with
      | some (.normal, env', tr) => prepend tr (exec w n t (flagsAfter s F) env')
      | r => r
    | .ifThen c t =>
      if evalExpr w (readVar env) c ≠ 0 then exec w n t F env else some (.normal, env, [])
    | .ifElse c t e =>
      if evalExpr w (readVar env) c ≠ 0 then exec w n t F env
      else exec w n e (flagsAfter t F) env
    | .while c body =>
      if evalExpr w (readVar env) c ≠ 0 then
        match exec w n body F env with
        | some (.normal, env', tr) => prepend tr (exec w n (.while c body) F env')
        | some (.cont, env', tr) => prepend tr (exec w n (.while c body) F env')
        | some (.brk, env', tr) => some (.normal, env', tr)
        | r => r
      else some (.normal, env, [])
    | .for init c post body =>
      match exec w n init F env with
      | some (.normal, env', tr) => prepend tr (execFor w n c post body (flagsAfter init F) env')
      | r => r
    | .brk => some (.brk, env, [])
    | .cont => some (.cont, env, [])
    | .ret _ => some (.ret, env, [.writeBack F])
    | _ => some (.normal, env, [])

/-- The iterations of a `for`, from the flags after its initializer. -/
def execFor (w : World D) : Nat → Option (Expr D) → Stmt D → Stmt D → Flags → Env D → RunResult D
  | 0, _, _, _, _, _ => none
  | n + 1, c, post, body, F, env =>
    if evalCond w (readVar env) c then
      match exec w n body F env with
      | some (.brk, env', tr) => some (.normal, env', tr)
      | some (.ret, env', tr) => some (.ret, env', tr)
      | some (_, env', tr) =>
        match exec w n post (flagsAfter body F) env' with
        | some (.normal, env'', tr') =>
          prepend (tr ++ tr') (execFor w n c post body F env'')
        | r => prepend tr r
      | none => none
    else some (.normal, env, [])
end

attribute [grind =] evalExpr exec execFor

def runScript (w : World D) (n : Nat) (s : Stmt D) (env : Env D) : RunResult D :=
  match exec w n s noFlags env with
  | some (.normal, env', tr) => some (.normal, env', tr ++ [.writeBack (flagsAfter s noFlags)])
  | r => r

end Source

end TurboScript.Mir
