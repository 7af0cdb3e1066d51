import Mathlib.Algebra.Order.Ring.Int
import TurboScript.Lib.Run
import TurboScript.Mir.Semantics

/- Script functions compiled to MIR (`turbo_script_mir_functions.c`), and what becomes of the
   variables that caller and callee share.

   1. Programs of numeric statements and functions, executed over any way of keeping the
      variables (`Vars`).
   2. The evaluator's chain of scopes (`tree`): a frame's parent is the caller's.
   3. The compiled code's registers (`compiled`): flagged ones are stored before a call and at
      a return, captured ones loaded when a function starts; a caller loads nothing after a
      call, and a function that falls off its end stores nothing.
   4. Stamps, which decide nothing: the assignment a register, a stored binding or a variable
      has its value from. While each register that is read has the stamp of its variable, both
      runs read the same values. -/
namespace TurboScript.Mir.Scoping
open Lib Function
open Mirrors (ite' modify' pure')

/-! Programs. -/

section Syntax
variable {D : Type}

/-- The expressions of the programs here; `arity` says how many parameters a function has. A
call of a compiled function writes back and does not reload (`ts_emit_compiled_func_call`). -/
def argCount : Args D → Nat
  | .nil => 0
  | .cons _ rest => argCount rest + 1

mutual
def exprScoped (arity : NodeId → Option Nat) : Expr D → Bool
  | .num _ | .var _ => true
  | .neg e | .not e | .plus e => exprScoped arity e
  | .arith _ l r | .cmp _ l r | .and l r | .or l r => exprScoped arity l && exprScoped arity r
  | .ite c t e => exprScoped arity c && exprScoped arity t && exprScoped arity e
  | .iteNoElse c t => exprScoped arity c && exprScoped arity t
  | .call f sync reload args =>
    arity f == some (argCount args) && sync && !reload && argsScoped arity args
  | _ => false

def argsScoped (arity : NodeId → Option Nat) : Args D → Bool
  | .nil => true
  | .cons e rest => exprScoped arity e && argsScoped arity rest
end

/-- Statements: assignments and expressions as statements, control flow with `break` and
`continue` inside loops only. -/
def stmtScoped (arity : NodeId → Option Nat) : Bool → Stmt D → Bool
  | _, .skip => true
  | inLoop, .seq s t => stmtScoped arity inLoop s && stmtScoped arity inLoop t
  | _, .expr (.assign _ e) => exprScoped arity e
  | _, .expr e => exprScoped arity e
  | inLoop, .ifThen c t => exprScoped arity c && stmtScoped arity inLoop t
  | inLoop, .ifElse c t e =>
    exprScoped arity c && stmtScoped arity inLoop t && stmtScoped arity inLoop e
  | _, .while c body => exprScoped arity c && stmtScoped arity true body
  | inLoop, .brk | inLoop, .cont => inLoop
  | _, .ret none => true
  | _, .ret (some e) => exprScoped arity e
  | _, _ => false

/-- A compiled function: `captured` is what `ts_analyze_closure` reports. -/
structure Func (D : Type) where
  params : List Name
  captured : List Name
  body : Stmt D

def arityOf (funcs : List (Func D)) (f : NodeId) : Option Nat := (funcs[f]?).map (·.params.length)

structure Program (D : Type) where
  funcs : List (Func D)
  main : Stmt D
  main_scoped : stmtScoped (arityOf funcs) false main = true
  funcs_scoped : funcs.all (fun f => stmtScoped (arityOf funcs) false f.body && f.params.Nodup) = true

mutual
/-- The dirty flags after lowering an expression: a call's write-back clears them, also where
the call is in a branch that is not taken. -/
def exprFlags : Expr D → Flags → Flags
  | .neg e, F | .not e, F | .plus e, F => exprFlags e F
  | .arith _ l r, F | .cmp _ l r, F | .and l r, F | .or l r, F => exprFlags r (exprFlags l F)
  | .ite c t e, F => exprFlags e (exprFlags t (exprFlags c F))
  | .iteNoElse c t, F => exprFlags t (exprFlags c F)
  | .assign x e, F => update (exprFlags e F) x true
  | .call _ _ _ _, _ => noFlags
  | _, F => F

def argsFlags : Args D → Flags → Flags
  | .nil, F => F
  | .cons e rest, F => argsFlags rest (exprFlags e F)
end

def stmtFlags : Stmt D → Flags → Flags
  | .seq s t, F => stmtFlags t (stmtFlags s F)
  | .expr e, F => exprFlags e F
  | .ifThen c t, F => stmtFlags t (exprFlags c F)
  | .ifElse c t e, F => stmtFlags e (stmtFlags t (exprFlags c F))
  | .while c body, F => stmtFlags body (exprFlags c F)
  | .ret (some e), F => exprFlags e F
  | _, F => F

end Syntax

/-! Execution. -/

/-- How a run keeps the variables of the functions it is in. `leave` is told whether the
function returned and whether the call's value is used; `fallThrough` is the value of a call
that did not return, from the value of the last statement. -/
structure Vars (σ D : Type) where
  read : Name → σ → D × σ
  assign : Name → D → σ → σ
  writeBack : Flags → σ → σ
  enter : Func D → List D → σ → σ
  leave : Bool → Bool → σ → σ
  fallThrough : D → D

section Execution
variable {σ D : Type} [LinearOrder D] [Zero D] [One D] (V : Vars σ D) (w : World D)
  (funcs : List (Func D))

omit [LinearOrder D] [Zero D] [One D] in
def invoke (fn : Func D) (args : List D) (used : Bool) (body : Run σ (Outcome × D)) : Run σ D := do
  modify (V.enter fn args)
  let (o, v) ← body
  if o = .ret then do
    modify (V.leave true used)
    return v
  else do
    modify (V.leave false used)
    return V.fallThrough v

mutual
def eval : Nat → Expr D → Flags → Run σ D
  | 0, _, _ => cutOff
  | n + 1, e, F =>
    match e with
    | .num d => return d
    | .var x => modifyGet (V.read x)
    | .neg e => do return w.arith .sub 0 (← eval n e F)
    | .not e => do return ofBool (decide ((← eval n e F) = 0))
    | .plus e => eval n e F
    | .arith op l r => do
      let a ← eval n l F
      let b ← eval n r (exprFlags l F)
      return w.arith op a b
    | .cmp op l r => do
      let a ← eval n l F
      let b ← eval n r (exprFlags l F)
      return ofBool (op.eval a b)
    | .and l r => do
      let a ← eval n l F
      if a = 0 then return 0
      else do return ofBool (decide ((← eval n r (exprFlags l F)) ≠ 0))
    | .or l r => do
      let a ← eval n l F
      if a = 0 then do return ofBool (decide ((← eval n r (exprFlags l F)) ≠ 0))
      else return 1
    | .ite c t e => do
      let v ← eval n c F
      if v = 0 then eval n e (exprFlags t (exprFlags c F)) else eval n t (exprFlags c F)
    | .iteNoElse c t => do
      let v ← eval n c F
      if v = 0 then return 0 else eval n t (exprFlags c F)
    | .call f _ _ args => callFunction n f args F true
    | _ => return 0

def evalArgs : Nat → Args D → Flags → Run σ (List D)
  | 0, _, _ => cutOff
  | n + 1, args, F =>
    match args with
    | .nil => return []
    | .cons e rest => do
      let v ← eval n e F
      let vs ← evalArgs n rest (exprFlags e F)
      return v :: vs

/-- A call; `used` is whether anything is done with its value. -/
def callFunction : Nat → NodeId → Args D → Flags → Bool → Run σ D
  | 0, _, _, _, _ => cutOff
  | n + 1, f, args, F, used => do
    let vs ← evalArgs n args F
    modify (V.writeBack (argsFlags args F))
    match funcs[f]? with
    | none => return 0
    | some fn => invoke V fn vs used (exec n fn.body noFlags)

/-- A statement, with its value: the value of a block is that of its last statement. -/
def exec : Nat → Stmt D → Flags → Run σ (Outcome × D)
  | 0, _, _ => cutOff
  | n + 1, s, F =>
    match s with
    | .seq s t => do
      let (o, v) ← exec n s F
      if o = .normal then exec n t (stmtFlags s F) else return (o, v)
    | .expr (.assign x e) => do
      let v ← eval n e F
      modify (V.assign x v)
      return (.normal, v)
    | .expr (.call f _ _ args) => do return (.normal, ← callFunction n f args F false)
    | .expr e => do return (.normal, ← eval n e F)
    | .ifThen c t => do
      let v ← eval n c F
      if v = 0 then return (.normal, 0) else exec n t (exprFlags c F)
    | .ifElse c t e => do
      let v ← eval n c F
      if v = 0 then exec n e (stmtFlags t (exprFlags c F)) else exec n t (exprFlags c F)
    | .while c body => execWhile n c body F 0
    | .brk => return (.brk, 0)
    | .cont => return (.cont, 0)
    | .ret none => do
      modify (V.writeBack F)
      return (.ret, 0)
    | .ret (some e) => do
      let v ← eval n e F
      modify (V.writeBack (exprFlags e F))
      return (.ret, v)
    | _ => return (.normal, 0)

/-- The iterations of a `while`, with the value of the last one. -/
def execWhile : Nat → Expr D → Stmt D → Flags → D → Run σ (Outcome × D)
  | 0, _, _, _, _ => cutOff
  | n + 1, c, body, F, last => do
    let v ← eval n c F
    if v = 0 then return (.normal, last)
    else do
      let (o, v) ← exec n body (exprFlags c F)
      if o = .ret then return (.ret, v)
      else if o = .brk then return (.normal, v)
      else execWhile n c body F v
end

/-- The statements of the module; falling off their end writes back too. -/
def runMain (n : Nat) (main : Stmt D) : Run σ Unit := do
  let (o, _) ← exec V w funcs n main noFlags
  if o = .ret then return else modify (V.writeBack (stmtFlags main noFlags))

end Execution

/-! Scopes. -/

abbrev Scope (V : Type) := Name → Option V

/-- The scopes of the calls under way, innermost first, and the global one. -/
structure Scopes (V : Type) where
  inner : List (Scope V)
  globals : Scope V

namespace Scopes
variable {V U : Type}

def lookupIn : List (Scope V) → Name → Option V
  | [], _ => none
  | sc :: rest, x =>
    match sc x with
    | some v => some v
    | none => lookupIn rest x

/-- `exprtk_env_get`. -/
def lookup (s : Scopes V) (x : Name) : Option V :=
  match lookupIn s.inner x with
  | some v => some v
  | none => s.globals x

/-- Replaces the innermost binding, if there is one. -/
def replaceIn : List (Scope V) → Name → V → Option (List (Scope V))
  | [], _, _ => none
  | sc :: rest, x, v =>
    match sc x with
    | some _ => some (update sc x (some v) :: rest)
    | none => (replaceIn rest x v).map (sc :: ·)

/-- `exprtk_env_set`: a name that no scope binds is bound in the current one. -/
def set (s : Scopes V) (x : Name) (v : V) : Scopes V :=
  match replaceIn s.inner x v with
  | some inner => { s with inner }
  | none =>
    match s.inner, s.globals x with
    | sc :: rest, none => { s with inner := update sc x (some v) :: rest }
    | _, _ => { s with globals := update s.globals x (some v) }

def push (s : Scopes V) (sc : Scope V) : Scopes V := { s with inner := sc :: s.inner }

def pop (s : Scopes V) : Scopes V := { s with inner := s.inner.tail }

def mapScope (g : V → U) (sc : Scope V) : Scope U := fun x => (sc x).map g

def map (g : V → U) (s : Scopes V) : Scopes U :=
  { inner := s.inner.map (mapScope g), globals := mapScope g s.globals }

def All (p : V → Prop) (s : Scopes V) : Prop :=
  (∀ sc ∈ s.inner, ∀ x v, sc x = some v → p v) ∧ ∀ x v, s.globals x = some v → p v

theorem lookupIn_map (g : V → U) (scs : List (Scope V)) (x : Name) :
    lookupIn (scs.map (mapScope g)) x = (lookupIn scs x).map g := by
  induction scs with
  | nil => rfl
  | cons sc rest ih =>
    show (match (sc x).map g with | some v => some v | none => lookupIn (rest.map (mapScope g)) x) = _
    cases h : sc x <;> simp [lookupIn, h, ih]

theorem lookup_map (g : V → U) (s : Scopes V) (x : Name) : (s.map g).lookup x = (s.lookup x).map g := by
  unfold lookup
  show (match lookupIn (s.inner.map (mapScope g)) x with
    | some v => some v | none => (s.globals x).map g) = _
  rw [lookupIn_map]
  cases lookupIn s.inner x <;> rfl

theorem mapScope_update (g : V → U) (sc : Scope V) (x : Name) (v : V) :
    mapScope g (update sc x (some v)) = update (mapScope g sc) x (some (g v)) := by
  funext y
  by_cases h : y = x
  · subst h
    simp [mapScope]
  · simp [mapScope, update_of_ne h]

theorem replaceIn_map (g : V → U) (scs : List (Scope V)) (x : Name) (v : V) :
    replaceIn (scs.map (mapScope g)) x (g v) = (replaceIn scs x v).map (List.map (mapScope g)) := by
  induction scs with
  | nil => rfl
  | cons sc rest ih =>
    simp only [List.map_cons, replaceIn]
    have hx : mapScope g sc x = (sc x).map g := rfl
    cases h : sc x with
    | some u => simp [hx, h, mapScope_update]
    | none =>
      rw [hx, h, ih]
      cases replaceIn rest x v <;> rfl

theorem set_map (g : V → U) (s : Scopes V) (x : Name) (v : V) :
    (s.set x v).map g = (s.map g).set x (g v) := by
  unfold set
  have hr : replaceIn (s.map g).inner x (g v) = _ := replaceIn_map g s.inner x v
  rw [hr]
  cases hin : replaceIn s.inner x v with
  | some inner => rfl
  | none =>
    obtain ⟨inner, globals⟩ := s
    cases inner with
    | nil => simp [map, mapScope_update]
    | cons sc rest =>
      cases hg : globals x with
      | none | some => simp [map, mapScope, hg, mapScope_update]

variable {s : Scopes V} {p : V → Prop} {x : Name} {v : V}

theorem map_congr {g g' : V → U} (h : s.All p) (hg : ∀ v, p v → g v = g' v) : s.map g = s.map g' := by
  have hsc : ∀ sc : Scope V, (∀ x v, sc x = some v → p v) → mapScope g sc = mapScope g' sc := by
    intro sc hp
    funext x
    unfold mapScope
    cases hx : sc x with
    | none => rfl
    | some v => exact congrArg some (hg v (hp x v hx))
  unfold map
  rw [hsc _ h.2, List.map_congr_left fun sc hm => hsc sc (h.1 sc hm)]

theorem All.mono {q : V → Prop} (h : s.All p) (hpq : ∀ v, p v → q v) : s.All q :=
  ⟨fun sc hm x v hv => hpq v (h.1 sc hm x v hv), fun x v hv => hpq v (h.2 x v hv)⟩

theorem update_all {sc : Scope V} (h : ∀ y u, sc y = some u → p u) (hv : p v) :
    ∀ y u, update sc x (some v) y = some u → p u := by
  intro y u hu
  by_cases hy : y = x
  · subst hy
    rw [update_self] at hu
    exact Option.some.inj hu ▸ hv
  · rw [update_of_ne hy] at hu
    exact h y u hu

theorem replaceIn_all (hv : p v) : ∀ {scs scs' : List (Scope V)}, (∀ sc ∈ scs, ∀ y u, sc y = some u → p u) →
      replaceIn scs x v = some scs' → ∀ sc ∈ scs', ∀ y u, sc y = some u → p u := by
  intro scs
  induction scs with
  | nil => exact fun _ h => nomatch h
  | cons sc rest ih =>
    intro scs' hall h
    have hsc := hall sc List.mem_cons_self
    have hrest : ∀ sc' ∈ rest, ∀ y u, sc' y = some u → p u :=
      fun sc' hm => hall sc' (List.mem_cons_of_mem _ hm)
    simp only [replaceIn] at h
    split at h
    · cases h
      intro sc' hm
      rcases List.mem_cons.mp hm with rfl | hm
      · exact update_all hsc hv
      · exact hrest sc' hm
    · obtain ⟨rest', hr, rfl⟩ := Option.map_eq_some_iff.mp h
      intro sc' hm
      rcases List.mem_cons.mp hm with rfl | hm
      · exact hsc
      · exact ih hrest hr sc' hm

theorem All.set (h : s.All p) (x : Name) (hv : p v) : (s.set x v).All p := by
  unfold Scopes.set
  split
  · next inner hr => exact ⟨replaceIn_all hv h.1 hr, h.2⟩
  · split
    · next sc rest hin hg =>
      have hsc : ∀ sc' ∈ sc :: rest, ∀ y u, sc' y = some u → p u := hin ▸ h.1
      refine ⟨fun sc' hm => ?_, h.2⟩
      rcases List.mem_cons.mp hm with rfl | hm
      · exact update_all (hsc sc List.mem_cons_self) hv
      · exact hsc sc' (List.mem_cons_of_mem _ hm)
    · exact ⟨h.1, update_all h.2 hv⟩

theorem set_globals_none {y : Name} (h : (s.set x v).globals y = none) : s.globals y = none := by
  unfold set at h
  split at h
  · exact h
  · split at h
    · exact h
    · change update s.globals x (some v) y = none at h
      by_cases hy : y = x
      · subst hy
        rw [update_self] at h
        cases h
      · rwa [update_of_ne hy] at h

theorem globals_none (h : s.lookup x = none) : s.globals x = none := by
  unfold lookup at h
  split at h
  · cases h
  · exact h

theorem lookup_all (h : s.All p) (hv : s.lookup x = some v) : p v := by
  have hin : ∀ scs : List (Scope V), (∀ sc ∈ scs, ∀ y u, sc y = some u → p u) →
      ∀ u, lookupIn scs x = some u → p u := by
    intro scs
    induction scs with
    | nil => exact fun _ _ hu => nomatch hu
    | cons sc rest ih =>
      intro hall u hu
      unfold lookupIn at hu
      split at hu
      · next u' hx => exact Option.some.inj hu ▸ hall sc List.mem_cons_self x u' hx
      · exact ih (fun sc' hm => hall sc' (List.mem_cons_of_mem _ hm)) u hu
  unfold lookup at hv
  split at hv
  · next u hu => exact Option.some.inj hv ▸ hin s.inner h.1 u hu
  · exact h.2 x v hv

end Scopes

/-! The evaluator. -/

section Tree
variable {D : Type} [Zero D]

/-- `log` is every variable read, with the value it had, the latest first. -/
structure Tree (D : Type) where
  scopes : Scopes D
  log : List (Name × D)

/-- The frame of a call: a parameter without an argument is zero. -/
def paramScope (params : List Name) (args : List D) : Scope D := fun x =>
  if x ∈ params then some (((params.zip args).lookup x).getD 0) else none

/-- The variables of `exprtk_eval` and `eval_script_function`. -/
def tree : Vars (Tree D) D where
  read x t :=
    let v := (t.scopes.lookup x).getD 0
    (v, { t with log := (x, v) :: t.log })
  assign x v t := { t with scopes := t.scopes.set x v }
  writeBack _ t := t
  enter f args t := { t with scopes := t.scopes.push (paramScope f.params args) }
  leave _ _ t := { t with scopes := t.scopes.pop }
  fallThrough v := v

def Tree.start (env : Env D) : Tree D := { scopes := { inner := [], globals := env }, log := [] }

end Tree

/-! The compiled code. -/

/-- Where a value comes from: a variable at the start, an assignment or a call's binding of a
parameter, each with a number of its own, or nowhere (a register nothing was put in). -/
inductive Stamp
  | initial (x : Name)
  | made (n : Nat) (x : Name)
  | unset
  deriving DecidableEq, Repr

structure Regs (D : Type) where
  value : Name → D
  stamp : Name → Stamp

/-- A state of the compiled code. The stamps, `scopes` (the evaluator's scopes, with the stamps
of the latest values), `next` and `ok` are not part of the machine: nothing it does depends on
them. `ok` is lost when a register is read that does not hold its variable's latest value, and
when the value of a call that fell off the end of its function is used. -/
structure Compiled (D : Type) where
  frame : Regs D
  callers : List (Regs D)
  env : Env D
  envStamp : Name → Option Stamp
  scopes : Scopes Stamp
  next : Nat
  ok : Bool
  log : List (Name × D)

section CompiledCode
variable {D : Type} [Zero D]

def latest (s : Scopes Stamp) (x : Name) : Stamp := (s.lookup x).getD (.initial x)

/-- The registers at the start of a function: the prologue loads the captured variables from the
global environment, and the parameters are the arguments. `junk` is what a register holds that
nothing was put in. -/
def Compiled.entryRegs (junk : Name → D) (f : Func D) (args : List D) (c : Compiled D) : Regs D where
  value x :=
    if x ∈ f.captured then readVar c.env x
    else if x ∈ f.params then ((f.params.zip args).lookup x).getD 0
    else junk x
  stamp x :=
    if x ∈ f.captured then (c.envStamp x).getD (.initial x)
    else if x ∈ f.params then .made c.next x
    else .unset

def compiled (junk : Name → D) : Vars (Compiled D) D where
  read x c :=
    (c.frame.value x, { c with
        ok := c.ok && decide (c.frame.stamp x = latest c.scopes x)
        log := (x, c.frame.value x) :: c.log })
  assign x v c :=
    { c with
      frame :=
        { value := update c.frame.value x v
          stamp := update c.frame.stamp x (.made c.next x) }
      scopes := c.scopes.set x (.made c.next x)
      next := c.next + 1 }
  writeBack F c :=
    { c with
      env := fun x => if F x then some (c.frame.value x) else c.env x
      envStamp := fun x => if F x then some (c.frame.stamp x) else c.envStamp x }
  enter f args c :=
    { c with
      frame := c.entryRegs junk f args
      callers := c.frame :: c.callers
      scopes := c.scopes.push fun x => if x ∈ f.params then some (.made c.next x) else none
      next := c.next + 1 }
  -- no variable is loaded again after a call
  leave returned used c :=
    { c with
      frame := c.callers.headD c.frame
      callers := c.callers.tail
      scopes := c.scopes.pop
      ok := c.ok && (returned || !used) }
  fallThrough _ := 0

/-- The start of the module: its prologue has loaded every variable. -/
def Compiled.start (env : Env D) : Compiled D where
  frame := { value := readVar env, stamp := .initial }
  callers := []
  env := env
  envStamp := fun x => (env x).map fun _ => .initial x
  scopes := { inner := [], globals := fun x => (env x).map fun _ => .initial x }
  next := 0
  ok := true
  log := []

end CompiledCode

/-! Two ways of keeping the variables, side by side. -/

section Simulation
variable {σ τ D : Type} [LinearOrder D] [Zero D] [One D]

/-- The operations of `V` do what those of `V'` do, as long as `ok` is not lost; it is never
regained, and is lost when the value of a call that did not return is used. -/
structure Simulates (ok : σ → Prop) (R : σ → τ → Prop) (V : Vars σ D) (V' : Vars τ D) : Prop where
  read_ok : ∀ x s, ok (V.read x s).2 → ok s
  assign_ok : ∀ x v s, ok (V.assign x v s) → ok s
  writeBack_ok : ∀ F s, ok (V.writeBack F s) → ok s
  enter_ok : ∀ f args s, ok (V.enter f args s) → ok s
  leave_ok : ∀ returned used s, ok (V.leave returned used s) → ok s
  not_used : ∀ s, ¬ok (V.leave false true s)
  read : ∀ x s t, R s t → ok (V.read x s).2 →
    R (V.read x s).2 (V'.read x t).2 ∧ (V.read x s).1 = (V'.read x t).1
  assign : ∀ x v s t, R s t → R (V.assign x v s) (V'.assign x v t)
  writeBack : ∀ F s t, R s t → R (V.writeBack F s) (V'.writeBack F t)
  enter : ∀ f args s t, R s t → R (V.enter f args s) (V'.enter f args t)
  leave : ∀ returned used s t, R s t → R (V.leave returned used s) (V'.leave returned used t)

variable {ok : σ → Prop} {R : σ → τ → Prop} {V : Vars σ D} {V' : Vars τ D} (w : World D)
  (funcs : List (Func D))

/-- Two statements end alike; a value matters only if it is returned. -/
def SameOutcome (r r' : Outcome × D) : Prop := r.1 = r'.1 ∧ (r.1 = .ret → r.2 = r'.2)

/-- What the parts of a program do side by side, with this much fuel. The value of a call is
compared when it is used. -/
structure RunsFollow (ok : σ → Prop) (R : σ → τ → Prop) (V : Vars σ D) (V' : Vars τ D) (w : World D)
    (funcs : List (Func D)) (n : Nat) : Prop where
  eval : ∀ e F, Mirrors ok R (eval V w funcs n e F) (Scoping.eval V' w funcs n e F) Eq
  evalArgs : ∀ args F,
    Mirrors ok R (evalArgs V w funcs n args F) (Scoping.evalArgs V' w funcs n args F) Eq
  call : ∀ f args F used, Mirrors ok R (callFunction V w funcs n f args F used)
    (callFunction V' w funcs n f args F used) fun v v' => used = true → v = v'
  exec : ∀ s F, Mirrors ok R (exec V w funcs n s F) (Scoping.exec V' w funcs n s F) SameOutcome
  execWhile : ∀ c body F last last', Mirrors ok R (execWhile V w funcs n c body F last)
    (Scoping.execWhile V' w funcs n c body F last') SameOutcome

omit [LinearOrder D] [Zero D] [One D] in
theorem mirrors_normal {v v' : D} : Mirrors ok R (pure (.normal, v) : Run σ (Outcome × D))
    (pure (.normal, v') : Run τ (Outcome × D)) SameOutcome :=
  pure' ⟨rfl, fun h => nomatch h⟩

omit [LinearOrder D] [Zero D] [One D] in
theorem outcome_bind {α β : Type} {m : Run σ (Outcome × D)} {m' : Run τ (Outcome × D)}
    {f : Outcome × D → Run σ α} {f' : Outcome × D → Run τ β} {Q : α → β → Prop}
    (hm : Mirrors ok R m m' SameOutcome)
    (hf : ∀ o v v', (o = .ret → v = v') → Mirrors ok R (f (o, v)) (f' (o, v')) Q) :
    Mirrors ok R (m >>= f) (m' >>= f') Q := by
  refine hm.bind' (fun r => ⟨r, rfl, fun _ => rfl⟩) ?_
  rintro ⟨o, v⟩ ⟨_, v'⟩ ⟨rfl, hv⟩
  exact hf o v v' hv

omit [LinearOrder D] [Zero D] [One D] in
theorem leave_mirrors (h : Simulates ok R V V') (used : Bool) (v v' : D) :
    Mirrors ok R (do modify (V.leave false used); pure v) (do modify (V'.leave false used); pure v')
      fun v v' => used = true → v = v' := by
  have hleave := modify' (h.leave_ok false used) (h.leave false used)
  cases used with
  | false => exact hleave.bind' (fun a => ⟨a, trivial⟩) fun _ _ _ => pure' fun hu => nomatch hu
  | true =>
    -- the value is not the evaluator's, so it must not be used
    refine ⟨Triple.bind' hleave.loses fun _ => Triple.pure' _ fun _ hs => hs, fun s t _ hok => ?_⟩
    exact absurd hok (h.not_used s)

omit [LinearOrder D] [Zero D] [One D] in
theorem invoke_mirrors (h : Simulates ok R V V') (fn : Func D) (args : List D) (used : Bool)
    {body : Run σ (Outcome × D)} {body' : Run τ (Outcome × D)} (hb : Mirrors ok R body body' SameOutcome) :
    Mirrors ok R (invoke V fn args used body) (invoke V' fn args used body')
      fun v v' => used = true → v = v' := by
  refine (modify' (h.enter_ok fn args) (h.enter fn args)).bind' (fun a => ⟨a, trivial⟩) fun _ _ _ =>
    outcome_bind hb fun o v v' hv => ite' (fun ho => ?_) fun _ => leave_mirrors h used _ _
  exact (modify' (h.leave_ok true used) (h.leave true used)).bind' (fun a => ⟨a, trivial⟩)
    fun _ _ _ => pure' fun _ => hv ho

theorem runs_follow (h : Simulates ok R V V') (n : Nat) : RunsFollow ok R V V' w funcs n := by
  induction n with
  | zero =>
    exact ⟨fun _ _ => Mirrors.cut, fun _ _ => Mirrors.cut, fun _ _ _ _ => Mirrors.cut,
      fun _ _ => Mirrors.cut, fun _ _ _ _ _ => Mirrors.cut⟩
  | succ n ih =>
    have hwrite : ∀ {α : Type} {Q : α → α → Prop} F {f : Run σ α} {f' : Run τ α}, Mirrors ok R f f' Q →
        Mirrors ok R (modify (V.writeBack F) >>= fun _ => f) (modify (V'.writeBack F) >>= fun _ => f') Q :=
      fun F _ _ hf => (modify' (h.writeBack_ok F) (h.writeBack F)).bind' (fun a => ⟨a, trivial⟩)
        fun _ _ _ => hf
    refine ⟨fun e F => ?eval, fun args F => ?args, fun f args F used => ?call, fun s F => ?exec,
      fun c body F last last' => ?loop⟩
    case eval =>
      cases e with
      | var x => exact Mirrors.modifyGet' (h.read_ok x) fun s t hR hok => h.read x s t hR hok
      | neg e | not e => exact (ih.eval e F).bind_eq fun _ => pure' rfl
      | plus e => exact ih.eval e F
      | arith _ l r | cmp _ l r =>
        exact (ih.eval l F).bind_eq fun _ => (ih.eval r _).bind_eq fun _ => pure' rfl
      | and l r =>
        exact (ih.eval l F).bind_eq fun _ => ite' (fun _ => pure' rfl)
          fun _ => (ih.eval r _).bind_eq fun _ => pure' rfl
      | or l r =>
        exact (ih.eval l F).bind_eq fun _ => ite'
          (fun _ => (ih.eval r _).bind_eq fun _ => pure' rfl) fun _ => pure' rfl
      | ite c t e =>
        exact (ih.eval c F).bind_eq fun _ => ite' (fun _ => ih.eval e _) fun _ => ih.eval t _
      | iteNoElse c t =>
        exact (ih.eval c F).bind_eq fun _ => ite' (fun _ => pure' rfl) fun _ => ih.eval t _
      | call f sync reload args => exact (ih.call f args F true).mono fun _ _ hv => hv rfl
      | _ => exact pure' rfl
    case args =>
      cases args with
      | nil => exact pure' rfl
      | cons e rest =>
        exact (ih.eval e F).bind_eq fun _ => (ih.evalArgs rest _).bind_eq fun _ => pure' rfl
    case call =>
      refine (ih.evalArgs args F).bind_eq fun vs => hwrite _ ?_
      cases funcs[f]? with
      | none => exact pure' fun _ => rfl
      | some fn => exact invoke_mirrors h fn vs used (ih.exec fn.body noFlags)
    case exec =>
      cases s with
      | seq s t =>
        exact outcome_bind (ih.exec s F) fun o v v' hv =>
          ite' (fun _ => ih.exec t _) fun _ => pure' ⟨rfl, hv⟩
      | expr e =>
        cases e with
        | assign x e =>
          refine (ih.eval e F).bind_eq fun v => ?_
          exact (modify' (h.assign_ok x v) (h.assign x v)).bind' (fun a => ⟨a, trivial⟩)
            fun _ _ _ => mirrors_normal
        | call f sync reload args =>
          exact (ih.call f args F false).bind' (fun v => ⟨v, fun _ => rfl⟩) fun _ _ _ => mirrors_normal
        | _ => exact (ih.eval _ F).bind_eq fun _ => mirrors_normal
      | ifThen c t =>
        exact (ih.eval c F).bind_eq fun _ => ite' (fun _ => mirrors_normal) fun _ => ih.exec t _
      | ifElse c t e =>
        exact (ih.eval c F).bind_eq fun _ => ite' (fun _ => ih.exec e _) fun _ => ih.exec t _
      | «while» c body => exact ih.execWhile c body F 0 0
      | ret e =>
        cases e with
        | none => exact hwrite F (pure' ⟨rfl, fun _ => rfl⟩)
        | some e => exact (ih.eval e F).bind_eq fun _ => hwrite _ (pure' ⟨rfl, fun _ => rfl⟩)
      | _ => exact pure' ⟨rfl, fun _ => rfl⟩
    case loop =>
      refine (ih.eval c F).bind_eq fun _ => ite' (fun _ => mirrors_normal) fun _ => ?_
      exact outcome_bind (ih.exec body _) fun o v v' hv =>
        ite' (fun ho => pure' ⟨rfl, fun _ => hv ho⟩) fun _ =>
          ite' (fun _ => mirrors_normal) fun _ => ih.execWhile c body F _ _

theorem main_follows (h : Simulates ok R V V') (n : Nat) (main : Stmt D) :
    Follows ok R (runMain V w funcs n main) (runMain V' w funcs n main) fun _ _ => True := by
  have hrun : Mirrors ok R (runMain V w funcs n main) (runMain V' w funcs n main) fun _ _ => True :=
    outcome_bind ((runs_follow w funcs h n).exec main noFlags) fun _ _ _ _ =>
      ite' (fun _ => pure' trivial) fun _ =>
        modify' (h.writeBack_ok _) (h.writeBack _)
  exact hrun.follows

end Simulation

/-! Stamps say what they are meant to say. -/

section Relation
variable {D : Type} [Zero D] {env₀ : Env D} {val : Nat → Name → D}

def Stamp.value (env₀ : Env D) (val : Nat → Name → D) : Stamp → D
  | .initial x => readVar env₀ x
  | .made n x => val n x
  | .unset => 0

/-- Made before the event numbered `n`, or not at all. -/
def Stamp.Before (n : Nat) : Stamp → Prop
  | .made k _ => k < n
  | _ => True

theorem Stamp.Before.mono {n m : Nat} {st : Stamp} (h : st.Before n) (hm : n ≤ m) : st.Before m := by
  cases st with
  | made k x => exact Nat.lt_of_lt_of_le h hm
  | initial | unset => trivial

/-- Every register and stored binding with a stamp has that stamp's value, and the evaluator's
variables have the values of the latest stamps. -/
structure Stamped (env₀ : Env D) (val : Nat → Name → D) (c : Compiled D) (t : Tree D) : Prop where
  scopes : t.scopes = c.scopes.map (Stamp.value env₀ val)
  scope_stamps : c.scopes.All fun st => st ≠ .unset ∧ st.Before c.next
  regs : ∀ r ∈ c.frame :: c.callers, ∀ x, (r.stamp x).Before c.next ∧
    (r.stamp x ≠ .unset → r.value x = (r.stamp x).value env₀ val)
  env_some : ∀ x st, c.envStamp x = some st → st.Before c.next ∧ ∃ v, c.env x = some v ∧
    (st ≠ .unset → v = st.value env₀ val)
  env_none : ∀ x, c.envStamp x = none → c.env x = none ∧ env₀ x = none
  globals_none : ∀ x, c.scopes.globals x = none → env₀ x = none
  log : c.log = t.log

/-- Values given to the event numbered `n`. -/
def withEvent (val : Nat → Name → D) (n : Nat) (vs : Name → D) : Nat → Name → D :=
  update val n vs

theorem value_withEvent {n : Nat} (vs : Name → D) {st : Stamp} (h : st.Before n) :
    st.value env₀ (withEvent val n vs) = st.value env₀ val := by
  cases st with
  | made k x =>
    have hk : k ≠ n := Nat.ne_of_lt h
    show update val n vs k x = val k x
    rw [update_of_ne hk]
  | initial | unset => rfl

theorem value_made (n : Nat) (vs : Name → D) (x : Name) :
    (Stamp.made n x).value env₀ (withEvent val n vs) = vs x := by
  show update val n vs n x = vs x
  rw [update_self]

variable {c : Compiled D} {t : Tree D}

theorem Stamped.start (env : Env D) (val : Nat → Name → D) :
    Stamped env val (Compiled.start env) (Tree.start env) where
  scopes := by
    have hg : env = Scopes.mapScope (Stamp.value env val) fun x => (env x).map fun _ => .initial x := by
      funext x
      unfold Scopes.mapScope
      cases h : env x with
      | none => simp [h]
      | some v => simp [Stamp.value, readVar, h]
    exact congrArg (Scopes.mk []) hg
  scope_stamps := by
    refine ⟨fun sc hm => (nomatch hm), fun x st h => ?_⟩
    obtain ⟨v, -, rfl⟩ := Option.map_eq_some_iff.mp h
    exact ⟨by simp, trivial⟩
  regs := by
    intro r hr x
    obtain rfl := List.mem_singleton.mp hr
    exact ⟨trivial, fun _ => rfl⟩
  env_some := by
    intro x st h
    obtain ⟨v, hv, rfl⟩ := Option.map_eq_some_iff.mp h
    exact ⟨trivial, v, hv, fun _ => by simp [Stamp.value, readVar, hv]⟩
  env_none := fun x h => ⟨Option.map_eq_none_iff.mp h, Option.map_eq_none_iff.mp h⟩
  globals_none := fun x h => Option.map_eq_none_iff.mp h
  log := rfl

theorem Stamped.latest (h : Stamped env₀ val c t) (x : Name) :
    (t.scopes.lookup x).getD 0 = (latest c.scopes x).value env₀ val := by
  rw [h.scopes, Scopes.lookup_map]
  unfold Scoping.latest
  cases hx : c.scopes.lookup x with
  | some st => rfl
  | none =>
    have h₀ : env₀ x = none := h.globals_none x (Scopes.globals_none hx)
    show (0 : D) = readVar env₀ x
    rw [readVar, h₀]
    rfl

theorem Stamped.latest_set (h : Stamped env₀ val c t) (x : Name) : Scoping.latest c.scopes x ≠ .unset := by
  unfold Scoping.latest
  cases hx : c.scopes.lookup x with
  | some st => exact (Scopes.lookup_all h.scope_stamps hx).1
  | none => exact fun h => nomatch h

theorem Stamped.read (h : Stamped env₀ val c t) {x : Name}
    (hx : c.frame.stamp x = Scoping.latest c.scopes x) :
    c.frame.value x = (t.scopes.lookup x).getD 0 := by
  rw [h.latest, ← hx]
  refine (h.regs c.frame List.mem_cons_self x).2 ?_
  rw [hx]
  exact h.latest_set x

theorem Stamped.log_read (h : Stamped env₀ val c t) {x : Name}
    (hx : c.frame.stamp x = Scoping.latest c.scopes x) (ok : Bool) :
    Stamped env₀ val { c with ok := ok, log := (x, c.frame.value x) :: c.log }
      { t with log := (x, (t.scopes.lookup x).getD 0) :: t.log } :=
  { h with log := by rw [h.read hx, h.log] }

theorem Stamped.assign (h : Stamped env₀ val c t) (junk : Name → D) (x : Name) (v : D) :
    Stamped env₀ (withEvent val c.next fun _ => v) ((compiled junk).assign x v c) (tree.assign x v t) where
  scopes := by
    show t.scopes.set x v = (c.scopes.set x (.made c.next x)).map _
    rw [Scopes.set_map, value_made, h.scopes]
    congr 1
    exact Scopes.map_congr h.scope_stamps fun st hst => (value_withEvent _ hst.2).symm
  scope_stamps := by
    refine Scopes.All.set (h.scope_stamps.mono fun st hst =>
      ⟨hst.1, hst.2.mono (Nat.le_succ _)⟩) x ⟨by simp, ?_⟩
    exact Nat.lt_succ_self _
  regs := by
    intro r hr y
    rcases List.mem_cons.mp hr with rfl | hr
    · show (update c.frame.stamp x (.made c.next x) y).Before (c.next + 1) ∧
        (update c.frame.stamp x (.made c.next x) y ≠ .unset → update c.frame.value x v y =
            (update c.frame.stamp x (.made c.next x) y).value env₀
              (withEvent val c.next fun _ => v))
      by_cases hy : y = x
      · subst hy
        rw [update_self, update_self]
        exact ⟨Nat.lt_succ_self _, fun _ => by rw [value_made]⟩
      · rw [update_of_ne hy, update_of_ne hy]
        obtain ⟨hb, hv⟩ := h.regs c.frame List.mem_cons_self y
        exact ⟨hb.mono (Nat.le_succ _), fun hu => (hv hu).trans (value_withEvent _ hb).symm⟩
    · obtain ⟨hb, hv⟩ := h.regs r (List.mem_cons_of_mem _ hr) y
      exact ⟨hb.mono (Nat.le_succ _), fun hu => (hv hu).trans (value_withEvent _ hb).symm⟩
  env_some := by
    intro y st hst
    obtain ⟨hb, u, hu, hv⟩ := h.env_some y st hst
    exact ⟨hb.mono (Nat.le_succ _), u, hu, fun hne => (hv hne).trans (value_withEvent _ hb).symm⟩
  env_none := h.env_none
  globals_none := fun y hy => h.globals_none y (Scopes.set_globals_none hy)
  log := h.log

theorem Stamped.writeBack (h : Stamped env₀ val c t) (junk : Name → D) (F : Flags) :
    Stamped env₀ val ((compiled junk).writeBack F c) (tree.writeBack F t) :=
  { h with
    env_some := by
      intro x st hst
      change (if F x then some (c.frame.stamp x) else c.envStamp x) = some st at hst
      show st.Before c.next ∧ ∃ v, (if F x then some (c.frame.value x) else c.env x) = some v ∧ _
      by_cases hF : F x = true
      · rw [if_pos hF] at hst ⊢
        cases hst
        obtain ⟨hb, hv⟩ := h.regs c.frame List.mem_cons_self x
        exact ⟨hb, _, rfl, hv⟩
      · rw [if_neg hF] at hst ⊢
        exact h.env_some x st hst
    env_none := by
      intro x hx
      change (if F x then some (c.frame.stamp x) else c.envStamp x) = none at hx
      show (if F x then some (c.frame.value x) else c.env x) = none ∧ env₀ x = none
      by_cases hF : F x = true
      · rw [if_pos hF] at hx
        cases hx
      · rw [if_neg hF] at hx ⊢
        exact h.env_none x hx }

theorem Stamped.entryRegs (h : Stamped env₀ val c t) (junk : Name → D) (f : Func D) (args : List D)
    (x : Name) :
    ((c.entryRegs junk f args).stamp x).Before (c.next + 1) ∧
      ((c.entryRegs junk f args).stamp x ≠ .unset → (c.entryRegs junk f args).value x =
        ((c.entryRegs junk f args).stamp x).value env₀
          (withEvent val c.next fun y => ((f.params.zip args).lookup y).getD 0)) := by
  unfold Compiled.entryRegs
  by_cases hc : x ∈ f.captured
  · simp only [if_pos hc]
    cases hst : c.envStamp x with
    | none =>
      obtain ⟨he, h₀⟩ := h.env_none x hst
      refine ⟨trivial, fun _ => ?_⟩
      show readVar c.env x = readVar env₀ x
      rw [readVar, readVar, he, h₀]
    | some st =>
      obtain ⟨hb, v, hv, hval⟩ := h.env_some x st hst
      refine ⟨hb.mono (Nat.le_succ _), fun hu => ?_⟩
      show readVar c.env x = st.value env₀ _
      rw [readVar, hv, value_withEvent _ hb, ← hval hu]
      rfl
  · by_cases hp : x ∈ f.params
    · simp only [if_neg hc, if_pos hp]
      exact ⟨Nat.lt_succ_self _, fun _ => by rw [value_made]⟩
    · simp only [if_neg hc, if_neg hp]
      exact ⟨trivial, fun hu => absurd rfl hu⟩

theorem Stamped.enter (h : Stamped env₀ val c t) (junk : Name → D) (f : Func D) (args : List D) :
    Stamped env₀ (withEvent val c.next fun y => ((f.params.zip args).lookup y).getD 0)
      ((compiled junk).enter f args c) (tree.enter f args t) where
  scopes := by
    have hold := Scopes.map_congr h.scope_stamps (g := Stamp.value env₀ val) fun st hst =>
      (value_withEvent (fun y => ((f.params.zip args).lookup y).getD 0) hst.2).symm
    show t.scopes.push _ = (c.scopes.push _).map _
    rw [h.scopes, hold]
    unfold Scopes.push Scopes.map
    congr 1
    rw [List.map_cons]
    congr 1
    funext x
    unfold Scopes.mapScope paramScope
    by_cases hx : x ∈ f.params
    · simp only [if_pos hx, Option.map_some, value_made]
    · simp only [if_neg hx, Option.map_none]
  scope_stamps := by
    refine ⟨fun sc hm x st hst => ?_, fun x st hst => ?_⟩
    · rcases List.mem_cons.mp hm with rfl | hm
      · obtain ⟨-, hst⟩ := Option.ite_none_right_eq_some.mp hst
        cases hst
        exact ⟨by simp, Nat.lt_succ_self _⟩
      · obtain ⟨hu, hb⟩ := h.scope_stamps.1 sc hm x st hst
        exact ⟨hu, hb.mono (Nat.le_succ _)⟩
    · obtain ⟨hu, hb⟩ := h.scope_stamps.2 x st hst
      exact ⟨hu, hb.mono (Nat.le_succ _)⟩
  regs := by
    intro r hr x
    rcases List.mem_cons.mp hr with rfl | hr
    · exact h.entryRegs junk f args x
    · obtain ⟨hb, hv⟩ := h.regs r hr x
      exact ⟨hb.mono (Nat.le_succ _), fun hu => (hv hu).trans (value_withEvent _ hb).symm⟩
  env_some := by
    intro y st hst
    obtain ⟨hb, u, hu, hv⟩ := h.env_some y st hst
    exact ⟨hb.mono (Nat.le_succ _), u, hu, fun hne => (hv hne).trans (value_withEvent _ hb).symm⟩
  env_none := h.env_none
  globals_none := h.globals_none
  log := h.log

theorem Stamped.leave (h : Stamped env₀ val c t) (junk : Name → D) (returned used : Bool) :
    Stamped env₀ val ((compiled junk).leave returned used c) (tree.leave returned used t) where
  scopes := by
    show t.scopes.pop = c.scopes.pop.map _
    rw [h.scopes]
    unfold Scopes.pop Scopes.map
    rw [List.map_tail]
  scope_stamps := ⟨fun sc hm => h.scope_stamps.1 sc (List.mem_of_mem_tail hm), h.scope_stamps.2⟩
  regs := by
    intro r hr
    apply h.regs r
    cases hc : c.callers with
    | nil =>
      have hr' : r ∈ [c.frame] := by simpa [compiled, hc] using hr
      exact List.mem_singleton.mp hr' ▸ List.mem_cons_self
    | cons q rest =>
      have hr' : r ∈ q :: rest := by simpa [compiled, hc] using hr
      exact List.mem_cons_of_mem _ hr'
  env_some := h.env_some
  env_none := h.env_none
  globals_none := h.globals_none
  log := h.log

end Relation

/-! Agreement. -/

section Agreement
variable {D : Type} [LinearOrder D] [Zero D] [One D]

omit [LinearOrder D] [One D] in
theorem compiled_simulates (env₀ : Env D) (junk : Name → D) :
    Simulates (fun c => c.ok = true) (fun c t => ∃ val, Stamped env₀ val c t) (compiled junk) tree where
  read_ok _ _ h := (Bool.and_eq_true_iff.mp h).1
  assign_ok _ _ _ h := h
  writeBack_ok _ _ h := h
  enter_ok _ _ _ h := h
  leave_ok _ _ _ h := (Bool.and_eq_true_iff.mp h).1
  not_used c h := by
    have h' : (c.ok && (false || !true)) = true := h
    simp at h'
  read x c t hR hok := by
    obtain ⟨val, h⟩ := hR
    have hx : c.frame.stamp x = latest c.scopes x := by
      simpa using (Bool.and_eq_true_iff.mp hok).2
    exact ⟨⟨val, h.log_read hx _⟩, h.read hx⟩
  assign x v c t hR := by
    obtain ⟨val, h⟩ := hR
    exact ⟨_, h.assign junk x v⟩
  writeBack F c t hR := by
    obtain ⟨val, h⟩ := hR
    exact ⟨val, h.writeBack junk F⟩
  enter f args c t hR := by
    obtain ⟨val, h⟩ := hR
    exact ⟨_, h.enter junk f args⟩
  leave returned used c t hR := by
    obtain ⟨val, h⟩ := hR
    exact ⟨val, h.leave junk returned used⟩

omit [LinearOrder D] [One D] in
theorem Stamped.env_eq {env₀ : Env D} {val : Nat → Name → D} {c : Compiled D} {t : Tree D}
    (h : Stamped env₀ val c t) {x : Name} (hx : c.envStamp x = c.scopes.globals x) :
    c.env x = t.scopes.globals x := by
  rw [h.scopes]
  show c.env x = (c.scopes.globals x).map _
  rw [← hx]
  cases hst : c.envStamp x with
  | none => exact (h.env_none x hst).1
  | some st =>
    obtain ⟨-, v, hv, hval⟩ := h.env_some x st hst
    rw [hv, Option.map_some, hval (h.scope_stamps.2 x st (hx ▸ hst)).1]

/-- The run of the compiled module from a global environment, and that of the evaluator. -/
def runCompiled (junk : Name → D) (w : World D) (P : Program D) (n : Nat) : Run (Compiled D) Unit :=
  runMain (compiled junk) w P.funcs n P.main

def runTree (w : World D) (P : Program D) (n : Nat) : Run (Tree D) Unit :=
  runMain tree w P.funcs n P.main

end Agreement

/-! Two scripts over the integers. -/

section Samples

def sampleWorld : World Int where
  arith
    | .add, a, b => a + b
    | .sub, a, b => a - b
    | .mul, a, b => a * b
    | _, _, _ => 0
  helper _ _ := ([], 0)

/-- `function f(a) { return a * k; } k = 3; y = f(2);`. -/
def sharedReads : Program Int where
  funcs := [{ params := ["a"], captured := ["k"], body := .ret (some (.arith .mul (.var "a") (.var "k"))) }]
  main := .seq (.expr (.assign "k" (.num 3)))
    (.expr (.assign "y" (.call 0 true false (.cons (.num 2) .nil))))
  main_scoped := by decide
  funcs_scoped := by decide

/-- `function f() { x = 2; t = 5; return 0; } x = 1; f(); y = x;`. -/
def sharedWrites : Program Int where
  funcs := [{
    params := []
    captured := []
    body := .seq (.expr (.assign "x" (.num 2)))
      (.seq (.expr (.assign "t" (.num 5))) (.ret (some (.num 0)))) }]
  main := .seq (.expr (.assign "x" (.num 1))) (.seq (.expr (.call 0 true false .nil))
    (.expr (.assign "y" (.var "x"))))
  main_scoped := by decide
  funcs_scoped := by decide

end Samples

end TurboScript.Mir.Scoping
