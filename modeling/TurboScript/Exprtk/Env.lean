import TurboScript.Exprtk.Value
import TurboScript.Lib.Run

/- Environments (`exprtk_env_t`), the state of an evaluation and the operations on it.

   1. A heap of environments that name their parents: frames, catch scopes and snapshots. A
      variable table is a function, since no operation depends on its order.
   2. The state of an evaluation. The program does not have the list of events so far, newest
      first, nor `guard`: whether every construct between the node being evaluated and the
      nearest enclosing `try` tests the flow flag after the part under evaluation.
   3. The host: a native function is a program over the operations natives use; one that calls
      back gives up when the callback leaves a flow or an abort.
   4. Lookup, assignment, constants, snapshots, destructuring, errors, budgets. -/
namespace TurboScript.Exprtk
open Lib

inductive Flow
  | normal | break | continue | return | throw | yield
  deriving DecidableEq, Repr

inductive SafePointKind
  | step | loop | callbackBefore | callbackAfter | functionEnter | functionLeave | retainedBytes
  deriving DecidableEq, Repr

structure Binding (D : Type) where
  value : Value D
  isConstant : Bool := false

/-- An entry of a function table: a script function or a native one, by its identity. -/
inductive Callee (D : Type)
  | script (f : Func D)
  | native (id : Nat)

structure Env (D : Type) where
  vars : Name → Option (Binding D) := fun _ => none
  funcs : List (Name × Callee D) := []
  flow : Flow := .normal
  returnValue : Value D
  errorValue : Value D
  errorMsg : String := ""
  parent : Option EnvId := none
  currentClass : Option ClassId := none
  currentMethodIsStatic : Bool := false
  currentMethodIsConstructor : Bool := false
  safePoint : Bool := false
  maxRecursion : Nat := 100
  currRecursion : Nat := 0
  maxLoopIterations : Nat := 10000
  currLoopIterations : Nat := 0
  maxNodes : Nat := 100000
  currNodes : Nat := 0
  aborted : Bool := false

inductive Effect
  | assignment | constantDecl | destructuring | memberWrite
  | loopCondition | loopPost | iteration
  deriving DecidableEq, Repr

inductive Event (D : Type)
  | throw (guarded : Bool) (v : Value D)
  | caught
  | aborted
  | effect (k : Effect)
  /-- The evaluation goes on in an environment that is not aborted, at a step that does not
      ask whether another one is. -/
  | resumed
  /-- An abort flag was replaced by 0. -/
  | cleared

structure State (D Θ : Type) where
  envs : EnvId → Env D
  next : EnvId
  store : Θ
  safePoints : Nat := 0
  guard : Bool := true
  trace : List (Event D) := []

inductive Native (D : Type)
  | ret (v : Value D)
  | throwErr (msg : String)
  | abort
  | getVar (name : Name) (k : Value D → Native D)
  | setVar (name : Name) (v : Value D) (k : Native D)
  | call (f : Value D) (args : List (Value D)) (k : Value D → Native D)

/-- What an access check reads: the class whose code runs, the receiver as written and,
    when it is a variable, its value. -/
structure Access (D : Type) where
  currentClass : Option ClassId
  object : Node D
  receiver : Value D

/-- The class table. An access query returns the text of the access error, an update the
    text of the field error. -/
structure Classes (D Θ : Type) where
  isInterface : Θ → ClassId → Bool
  isAbstract : Θ → ClassId → Bool
  isFinal : Θ → ClassId → Bool
  className : Θ → ClassId → Name
  prototype : Θ → ClassId → Option ClassId
  classOf : Θ → InstanceId → ClassId
  instanceOf : Θ → InstanceId → ClassId → Bool
  instanceCreate : Θ → ClassId → Option (InstanceId × Θ)
  findConstructor : Θ → ClassId → List (Value D) → Option (Func D)
  lookupMethod : Θ → ClassId → Name → Bool → Option (Func D)
  lookupMethodTyped : Θ → ClassId → Name → Bool → List (Value D) → Option (Func D)
  getField : Θ → InstanceId → Name → Option (Value D)
  getStaticField : Θ → ClassId → Name → Option (Value D)
  fieldDenied : Θ → Access D → ClassId → Bool → Name → Option String
  methodDenied : Θ → Access D → Func D → Name → Option String
  setField : Θ → InstanceId → Name → Value D → Except String Θ
  setStaticField : Θ → ClassId → Name → Value D → Except String Θ
  setStaticFieldUnchecked : Θ → ClassId → Name → Value D → Θ
  create : Θ → Node D → EnvId → Option ClassId → ClassId × Θ
  declareField : Θ → ClassId → Node D → Value D → Except String Θ
  addMethod : Θ → ClassId → Node D → EnvId → Except String Θ
  addInterface : Θ → ClassId → ClassId → Θ
  finish : Θ → ClassId → Except String Θ

structure Host (D Θ : Type) where
  /-- The parser, for the expressions inside a template. -/
  parse : String → Option (Node D)
  /-- The verdict of the safe-point hook on its n-th call; a rejection is `false`. -/
  safePoint : Nat → SafePointKind → Nat → Bool
  frameBytes : Nat → Nat
  /-- Natives registered in an environment, and the module functions by name. -/
  native : Nat → List (Value D) → Native D
  builtin : Name → Option (List (Value D) → Native D)
  /-- Methods and properties of the built-in types; the name is the receiver's variable. -/
  method : Value D → Name → List (Value D) → Option Name → Native D
  property : Value D → Name → Option (Value D)
  classes : Classes D Θ
  /-- The `eval_node` and `exec_script_body` hooks of the MIR runtime are installed. -/
  mirHooks : Bool := false

section Operations
variable {D Θ : Type} [Double D]

abbrev Eval (D Θ : Type) := Run (State D Θ)

def getEnv (e : EnvId) : Eval D Θ (Env D) := do
  return (← get).envs e

def State.update (s : State D Θ) (e : EnvId) (f : Env D → Env D) : State D Θ :=
  { s with envs := Function.update s.envs e (f (s.envs e)) }

def modifyEnv (e : EnvId) (f : Env D → Env D) : Eval D Θ Unit :=
  modify fun s => s.update e f

def emit (ev : Event D) : Eval D Θ Unit :=
  modify fun s => { s with trace := ev :: s.trace }

def unchecked {α : Type} (m : Eval D Θ α) : Eval D Θ α := do
  let g := (← get).guard
  modify fun s => { s with guard := false }
  let a ← m
  modify fun s => { s with guard := g }
  return a

/-- The part under evaluation is the body of a `try`. -/
def protectedBy {α : Type} (m : Eval D Θ α) : Eval D Θ α := do
  let g := (← get).guard
  modify fun s => { s with guard := true }
  let a ← m
  modify fun s => { s with guard := g }
  return a

def setFlow (e : EnvId) (f : Flow) : Eval D Θ Unit :=
  modifyEnv e fun env => { env with flow := f }

def abort (e : EnvId) : Eval D Θ Unit := do
  emit .aborted
  modifyEnv e fun env => { env with aborted := true }

def noteCleared (e : EnvId) (aborted : Bool) : Eval D Θ Unit := do
  if (← getEnv e).aborted ∧ aborted = false then emit .cleared

/-- The evaluation goes on in `e`, whatever happened. -/
def resume (e : EnvId) : Eval D Θ Unit := do
  if (← getEnv e).aborted = false then emit .resumed

def raise (e : EnvId) (v : Value D) : Eval D Θ Unit := do
  emit (.throw (← get).guard v)
  modifyEnv e fun env => { env with flow := .throw, errorValue := v }

def throwErr (e : EnvId) (msg : String) : Eval D Θ (Value D) := do
  modifyEnv e fun env => { env with errorMsg := msg }
  raise e (.string msg)
  return zero

/-! Environments. A parent is allocated before its children, so the walk up the chain of
    `e` takes at most `e + 1` steps. -/

def findEnv (envs : EnvId → Env D) (p : Env D → Bool) : Nat → EnvId → Option EnvId
  | 0, _ => none
  | n + 1, e =>
    if p (envs e) then some e
    else match (envs e).parent with
      | none => none
      | some e' => findEnv envs p n e'

def lookupBinding (envs : EnvId → Env D) (e : EnvId) (name : Name) : Option (Binding D) :=
  match findEnv envs (fun env => (env.vars name).isSome) (e + 1) e with
  | some i => (envs i).vars name
  | none => none

/-- `exprtk_env_get`: an unbound name reads as the number zero. -/
def envGet (e : EnvId) (name : Name) : Eval D Θ (Value D) := do
  match lookupBinding (← get).envs e name with
  | some b => return b.value
  | none => return zero

def envHas (e : EnvId) (name : Name) : Eval D Θ Bool := do
  return (lookupBinding (← get).envs e name).isSome

/-- The entry of a table after an assignment that leaves constants alone. -/
def bindVar (vars : Name → Option (Binding D)) (name : Name) (v : Value D) : Name → Option (Binding D) :=
  match vars name with
  | some b => if b.isConstant then vars else Function.update vars name (some ⟨v, false⟩)
  | none => Function.update vars name (some ⟨v, false⟩)

def envSetLocal (e : EnvId) (name : Name) (v : Value D) : Eval D Θ Unit :=
  modifyEnv e fun env => { env with vars := bindVar env.vars name v }

/-- `exprtk_env_set`: the nearest binding on the chain is replaced. -/
def envSet (e : EnvId) (name : Name) (v : Value D) : Eval D Θ Unit := do
  match findEnv (← get).envs (fun env => (env.vars name).isSome) (e + 1) e with
  | some i => envSetLocal i name v
  | none => envSetLocal e name v

def markConstant (vars : Name → Option (Binding D)) (name : Name) : Name → Option (Binding D) :=
  match vars name with
  | some b => Function.update vars name (some { b with isConstant := true })
  | none => vars

def envSetConstant (e : EnvId) (name : Name) (v : Value D) : Eval D Θ Unit := do
  envSet e name v
  modifyEnv e fun env => { env with vars := markConstant env.vars name }

def bindTarget (isConstant : Bool) (e : EnvId) (name : Name) (v : Value D) : Eval D Θ Unit :=
  if isConstant then envSetConstant e name v else envSet e name v

def newEnv (env : Env D) : Eval D Θ EnvId := do
  let i := (← get).next
  modify fun s => { s with envs := Function.update s.envs i env, next := i + 1 }
  return i

/-- `exprtk_env_init_child`. -/
def initChild (parent : EnvId) (p : Env D) : Env D where
  returnValue := zero
  errorValue := zero
  parent := some parent
  safePoint := p.safePoint
  maxRecursion := p.maxRecursion
  maxLoopIterations := p.maxLoopIterations
  maxNodes := p.maxNodes

def Env.childWithCounters (e : EnvId) (p : Env D) : Env D :=
  { initChild e p with
    currRecursion := p.currRecursion
    currLoopIterations := p.currLoopIterations
    currNodes := p.currNodes }

/-- `exprtk_env_snapshot_names`; without a list of names everything is captured. -/
def snapshot (e : EnvId) (names : Option (List Name)) : Eval D Θ EnvId := do
  let envs := (← get).envs
  newEnv {
    vars := fun x =>
      match names with
      | some ns => if x ∈ ns then lookupBinding envs e x else none
      | none => lookupBinding envs e x
    returnValue := zero
    errorValue := zero }

/-- `exprtk_env_import_vars`: captured variables become locals, `this` excepted. -/
def importVars (dst src : Name → Option (Binding D)) : Name → Option (Binding D) := fun x =>
  if (dst x).isSome ∨ x = "this" then dst x else src x

def restEntries (pattern : List (Option Name × Node D)) (es : List (Name × Value D)) :
    List (Name × Value D) :=
  es.filter fun kv => !pattern.any fun p => p.1 == some kv.1

mutual
/-- `eval_destructure`. -/
def destructure (isConstant : Bool) (e : EnvId) : Node D → Value D → Eval D Θ Unit
  | .varRef name, rhs =>
    if isConstant then envSetConstant e name rhs else envSetLocal e name rhs
  | .vector elements, .vector xs => destructureVector isConstant e elements xs
  | .mapLiteral pattern, .map es => destructureMap isConstant e pattern es pattern
  | .mapLiteral pattern, .object es => destructureMap isConstant e pattern es pattern
  | .spread (.varRef name), rhs => bindTarget isConstant e name rhs
  | _, _ => return

def destructureVector (isConstant : Bool) (e : EnvId) : List (Node D) → List D → Eval D Θ Unit
  | [], _ => return
  | .spread (.varRef name) :: els, xs => do
    bindTarget isConstant e name (.vector xs)
    destructureVector isConstant e els []
  | .spread _ :: els, xs => destructureVector isConstant e els xs
  | .null :: els, xs => destructureVector isConstant e els xs.tail
  | el :: els, xs => do
    destructure isConstant e el (match xs with | x :: _ => .number x | [] => zero)
    destructureVector isConstant e els xs.tail

/-- The keyed entries in order; a rest entry is bound after them, the last one wins. -/
def destructureMap (isConstant : Bool) (e : EnvId) :
    List (Option Name × Node D) → List (Name × Value D) → List (Option Name × Node D) → Eval D Θ Unit
  | [], _, _ => return
  | (some key, target) :: rest, es, pattern => do
    destructure isConstant e target (mapGet es key)
    destructureMap isConstant e rest es pattern
  | (none, target) :: rest, es, pattern => do
    destructureMap isConstant e rest es pattern
    if rest.all fun p => p.1.isSome then
      destructure isConstant e target (.map (restEntries pattern es))
end

/-! Budgets. -/

def callSafePoint (h : Host D Θ) (kind : SafePointKind) (cost : Nat) : Eval D Θ Bool := do
  let n := (← get).safePoints
  modify fun s => { s with safePoints := n + 1 }
  return h.safePoint n kind cost

/-- `eval_safe_point`: a rejection aborts. -/
def evalSafePoint (h : Host D Θ) (e : EnvId) (kind : SafePointKind) (cost : Nat) :
    Eval D Θ Bool := do
  if ← callSafePoint h kind cost then return true
  else do
    abort e
    return false

def evalStep (h : Host D Θ) (e : EnvId) : Eval D Θ Bool := do
  let env ← getEnv e
  if env.safePoint then evalSafePoint h e .step 1
  else do
    let n := (env.currNodes + 1) % 2 ^ 32
    modifyEnv e fun env => { env with currNodes := n }
    if env.maxNodes < n then do
      abort e
      return false
    else return true

def evalLoopTick (h : Host D Θ) (e : EnvId) : Eval D Θ Bool := do
  let env ← getEnv e
  if env.safePoint then evalSafePoint h e .loop 1
  else do
    let n := (env.currLoopIterations + 1) % 2 ^ 32
    modifyEnv e fun env => { env with currLoopIterations := n }
    if env.maxLoopIterations < n then do
      abort e
      return false
    else return true

end Operations

/-! A context in which nothing is registered. -/

section Bare
variable {D : Type} [Double D]

def Classes.empty : Classes D Unit where
  isInterface _ _ := false
  isAbstract _ _ := false
  isFinal _ _ := false
  className _ _ := ""
  prototype _ _ := none
  classOf _ _ := 0
  instanceOf _ _ _ := false
  instanceCreate _ _ := none
  findConstructor _ _ _ := none
  lookupMethod _ _ _ _ := none
  lookupMethodTyped _ _ _ _ _ := none
  getField _ _ _ := none
  getStaticField _ _ _ := none
  fieldDenied _ _ _ _ _ := none
  methodDenied _ _ _ _ := none
  setField store _ _ _ := .ok store
  setStaticField store _ _ _ := .ok store
  setStaticFieldUnchecked store _ _ _ := store
  create store _ _ _ := (0, store)
  declareField store _ _ _ := .ok store
  addMethod store _ _ _ := .ok store
  addInterface store _ _ := store
  finish store _ := .ok store

def Host.bare : Host D Unit where
  parse _ := none
  safePoint _ _ _ := true
  frameBytes n := n
  native _ _ := .ret zero
  builtin _ := none
  method _ name _ _ := .throwErr ("Unknown method '" ++ name ++ "'")
  property _ _ := none
  classes := .empty

def State.fresh (vars : List (Name × Value D)) : State D Unit where
  envs _ := {
    vars := fun x => (vars.lookup x).map fun v => ⟨v, false⟩
    returnValue := zero
    errorValue := zero }
  next := 1
  store := ()

end Bare

end TurboScript.Exprtk
