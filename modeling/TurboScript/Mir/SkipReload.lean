import TurboScript.Mir.Reload
import TurboScript.Oop.Cache

/- Member calls without a reload of the registers after them.

   The compiled code keeps variables in registers. After a member call it loads them again,
   unless the class of the receiver is known by name and the walk accepts the body of the
   method which that class has when the code is compiled (`ts_oop_member_call_can_skip_reload`).
   At run time the dispatch may select something else, when the class is defined again between
   the compilation and the call. -/
namespace TurboScript.Mir.Reload
open Lib Exprtk

set_option linter.unusedSectionVars false

section Decision
variable {D Θ : Type} [Double D]

/-- `exprtk_env_get`. -/
def valueAt (s : State D Θ) (e : EnvId) (name : Exprtk.Name) : Value D :=
  match lookupBinding s.envs e name with
  | some b => b.value
  | none => zero

variable (h : Host D Θ)

/-- The method that the analysis looks at, found with the number zero for each argument. -/
def analysedMethod (s : State D Θ) (e : EnvId) (className method : Exprtk.Name) (argc : Nat) :
    Option (Func D) :=
  match valueAt s e className with
  | .classVal c => h.classes.lookupMethodTyped s.store c method false (List.replicate argc zero)
  | _ => none

/-- `ts_oop_member_call_can_skip_reload`. -/
def memberCallCanSkipReload (s : State D Θ) (e : EnvId) (className method : Exprtk.Name)
    (argc : Nat) : Bool :=
  if 16 < argc then false
  else
    match analysedMethod h s e className method argc with
    | some m => !methodBodyNeedsReload m.params m.body
    | none => false

/-- Whether the registers are loaded again after a member call. The class is the one that
    `ts_mir_find_var_class` has for the receiver. -/
def reloadAfter (s : State D Θ) (e : EnvId) (exactClass : Option Exprtk.Name) (method : Exprtk.Name)
    (argc : Nat) : Bool :=
  match exactClass with
  | some className => !memberCallCanSkipReload h s e className method argc
  | none => true

theorem reloadAfter_skipped {s : State D Θ} {e : EnvId} {exactClass : Option Exprtk.Name}
    {method : Exprtk.Name} {argc : Nat} (hskip : reloadAfter h s e exactClass method argc = false) :
    ∃ className m, exactClass = some className ∧ analysedMethod h s e className method argc = some m ∧
      methodBodyNeedsReload m.params m.body = false := by
  cases exactClass with
  | none => cases hskip
  | some className =>
    rw [reloadAfter, Bool.not_eq_false', memberCallCanSkipReload] at hskip
    by_cases hargc : 16 < argc
    · rw [if_pos hargc] at hskip
      cases hskip
    · rw [if_neg hargc] at hskip
      cases hm : analysedMethod h s e className method argc with
      | none =>
        rw [hm] at hskip
        cases hskip
      | some m =>
        rw [hm] at hskip
        have hbody : (!methodBodyNeedsReload m.params m.body) = true := hskip
        exact ⟨className, m, rfl, hm, by simpa using hbody⟩

end Decision

/-! The call. -/

/-- `exprtk_oop_method_cache_t`. -/
structure CallCache (D : Type) where
  lastClass : Option ClassId := none
  method : Option (Func D) := none
  argSignature : Nat := 0
  argc : Nat := 0
  isStatic : Bool := false

section Call
variable {D Θ : Type} [Double D] [Formats] (h : Host D Θ) (R : Evaluators D Θ)
  (finish : Θ → ClassId → Bool × Θ)

def cacheHit (cache : CallCache D) (c : ClassId) (isStatic : Bool) (argc : Nat) : Option (Func D) :=
  if cache.lastClass = some c ∧ cache.isStatic = isStatic ∧ cache.argc = argc ∧
      cache.argSignature = Oop.argSignature argc then cache.method
  else none

/-- The method that the dispatch selects: the cached one, or the one found in the class,
    which is finished first if it is not (`oop_admit_receiver_type`). -/
def selectMethod (store : Θ) (cache : CallCache D) (c : ClassId) (isStatic : Bool)
    (method : Exprtk.Name) (args : List (Value D)) : Option (Func D) :=
  match cacheHit cache c isStatic args.length with
  | some m => some m
  | none => h.classes.lookupMethodTyped (finish store c).2 c method isStatic args

def afterSelect (store : Θ) (cache : CallCache D) (c : ClassId) (isStatic : Bool)
    (method : Exprtk.Name) (args : List (Value D)) : Θ × CallCache D :=
  match cacheHit cache c isStatic args.length with
  | some _ => (store, cache)
  | none =>
    let (admitted, store) := finish store c
    (store, if admitted then
        ⟨some c, h.classes.lookupMethodTyped store c method isStatic args,
          Oop.argSignature args.length, args.length, isStatic⟩
      else cache)

def callSelected (this : Option InstanceId) (object : Node D) (method : Exprtk.Name)
    (selected : Option (Func D)) (args : List (Value D)) (e : EnvId) : Eval D Θ (Value D) :=
  match selected, this with
  | none, none => throwErr e ("Class has no static method '" ++ method ++ "'")
  | none, some _ => throwErr e ("Instance has no method '" ++ method ++ "'")
  | some m, this => do
    let s ← get
    match h.classes.methodDenied s.store (← accessFrom e object) m method with
    | some msg => throwErr e msg
    | none =>
      match this with
      | some i => evalInstanceScriptMethod h R i m args e
      | none => evalScriptFunction h R m args e e

/-- `exprtk_oop_call_method_cached_checked_numeric`, once the receiver is known. -/
def callMethodCached (cache : CallCache D) (this : Option InstanceId) (c : ClassId)
    (object : Node D) (method : Exprtk.Name) (args : List (Value D)) (e : EnvId) :
    Eval D Θ (D × CallCache D) := do
  let store := (← get).store
  let selected := selectMethod h finish store cache c this.isNone method args
  let (store, cache) := afterSelect h finish store cache c this.isNone method args
  modify fun s => { s with store := store }
  let v ← callSelected h R this object method selected args e
  return (valToDouble v, cache)

/-- `ts_mir_oop_member_call_cached`. -/
def oopMemberCallCached (cache : CallCache D) (objectName method : Exprtk.Name) (object : Node D)
    (argv : List D) (e : EnvId) : Eval D Θ (D × CallCache D) := do
  let args := argv.map Value.number
  match ← envGet e objectName with
  | .instanceVal i => do
    let c := h.classes.classOf (← get).store i
    callMethodCached h R finish cache (some i) c object method args e
  | .classVal c => callMethodCached h R finish cache none c object method args e
  | _ => do
    let v ← memberCallValues h R objectName method object args e
    return (valToDouble v, cache)

end Call

/-! What a call may change. -/

section Dispatch
variable {D Θ : Type} [Double D] [Formats] (h : Host D Θ) (finish : Θ → ClassId → Bool × Θ)

/-- The function that the tables on the chain of `e` have for the name. -/
def functionAt (s : State D Θ) (e : EnvId) (name : Exprtk.Name) : Option (Callee D) :=
  match findEnv s.envs (fun env => (env.funcs.lookup name).isSome) (e + 1) e with
  | some i => (s.envs i).funcs.lookup name
  | none => none

def SafeName (s : State D Θ) (e : EnvId) (name : Exprtk.Name) (args : List (Value D)) : Prop :=
  match functionAt s e name with
  | some (.script f) => Passes f
  | some (.native id) => OnlyReads (h.native id args)
  | none =>
    match valueAt s e name with
    | .classVal c => ∀ i store ctor, h.classes.instanceCreate s.store c = some (i, store) →
        h.classes.findConstructor store c args = some ctor → Passes ctor
    | .boundMethod _ m => Passes m
    | .function f => Passes f
    | _ => ∀ native, h.builtin name = some native → OnlyReads (native args)

def hasNativeMethods : Value D → Bool
  | .list _ | .set _ | .map _ | .object _ | .bytes _ | .uuid _ | .datetime _ | .date _ _ _
  | .time _ _ _ _ | .duration _ | .decimal _ | .offsetDatetime _ _ | .typedArray _ _
  | .string _ | .vector _ => true
  | _ => false

/-- A method whose parameters are names, and which is the method that the analysis looked at
    or has a body that the walk accepts. -/
def SafeMethod (analysed : Option (Func D)) (m : Func D) : Prop :=
  m.params.all isMethodParam = true ∧ (analysed = some m ∨ methodBodyNeedsReload m.params m.body = false)

def SafeCall (analysed : Option (Func D)) (cache : CallCache D) (objectName method : Exprtk.Name)
    (object : Node D) (args : List (Value D)) (s : State D Θ) (e : EnvId) : Prop :=
  match valueAt s e objectName with
  | .instanceVal i => ∀ m, selectMethod h finish s.store cache (h.classes.classOf s.store i) false
      method args = some m → SafeMethod analysed m
  | .classVal c => ∀ m, selectMethod h finish s.store cache c true method args = some m →
      SafeMethod analysed m
  | obj =>
    if hasNativeMethods obj then OnlyReads (h.method obj method args (receiverName object))
    else SafeName h s e (objectName ++ "." ++ method) args

variable {h finish} {base : EnvId} {old : EnvId → Exprtk.Name → Option (Binding D)}
  {frame e : EnvId}
  {s : State D Θ}

theorem envGet_apply (e : EnvId) (name : Exprtk.Name) (s : State D Θ) :
    envGet e name s = .ok (valueAt s e name) s := by
  show (match lookupBinding s.envs e name with
    | some b => pure b.value
    | none => pure zero : Eval D Θ (Value D)) s = _
  unfold valueAt
  cases lookupBinding s.envs e name <;> rfl

theorem findFunc_apply (e : EnvId) (name : Exprtk.Name) (s : State D Θ) :
    findFunc e name s = .ok (functionAt s e name) s := by
  show (match findEnv s.envs (fun env => (env.funcs.lookup name).isSome) (e + 1) e with
    | some i => pure ((s.envs i).funcs.lookup name)
    | none => pure none : Eval D Θ (Option (Callee D))) s = _
  unfold functionAt
  cases findEnv s.envs (fun env => (env.funcs.lookup name).isSome) (e + 1) e <;> rfl

abbrev SteadyAt {α : Type} (base : EnvId) (old : EnvId → Exprtk.Name → Option (Binding D))
    (frame : EnvId) (s : State D Θ) (m : Eval D Θ α) : Prop :=
  Triple (fun _ => True) (fun t => t = s) m fun _ => Kept base old frame fun _ => False

theorem Steady.at {α : Type} {m : Eval D Θ α} (hm : Steady base old frame (fun _ => False) m)
    (hs : Kept base old frame (fun _ => False) s) : SteadyAt base old frame s m :=
  hm.pre fun t ht => by
    rw [ht]
    exact hs

theorem SteadyAt.look {α β : Type} {m : Eval D Θ α} {a : α} (hm : m s = .ok a s)
    {k : α → Eval D Θ β} (hk : SteadyAt base old frame s (k a)) :
    SteadyAt base old frame s (m >>= k) := by
  refine Triple.bind' (R := fun b t => t = s ∧ b = a) ?_ fun b => ?_
  · rintro t rfl
    rw [hm]
    exact ⟨rfl, rfl⟩
  · rintro t ⟨rfl, rfl⟩
    exact hk t rfl

theorem SteadyAt.get {β : Type} {k : State D Θ → Eval D Θ β}
    (hk : SteadyAt base old frame s (k s)) : SteadyAt base old frame s (get >>= k) :=
  SteadyAt.look (m := MonadState.get) (a := s) rfl hk

variable {args : List (Value D)}

theorem construct_steadyAt (fuel : Nat) (hs : Kept base old frame (fun _ => False) s)
    {c : ClassId} (hc : ∀ i store ctor, h.classes.instanceCreate s.store c = some (i, store) →
      h.classes.findConstructor store c args = some ctor → Passes ctor) :
    SteadyAt base old frame s (construct h (evaluators h fuel) c args e) := by
  refine SteadyAt.get ?_
  cases hi : h.classes.instanceCreate s.store c with
  | none => exact (Steady.pure' _).at hs
  | some created =>
    obtain ⟨i, store⟩ := created
    refine Steady.at (Steady.bind' (Steady.modify' (fun _ => le_rfl) fun _ _ => rfl) fun _ => ?_) hs
    have hrun : Steady base old frame (fun _ => False)
        (do if ← running e then return .instanceVal i else return zero : Eval D Θ (Value D)) :=
      Steady.bind' (running_steady e) fun _ => Steady.ite' (Steady.pure' _) (Steady.pure' _)
    cases hctor : h.classes.findConstructor store c args with
    | none => exact hrun
    | some ctor =>
      refine Steady.bind' (getEnv_steady e) fun env => newEnv_then _ fun ctorEnv _ => ?_
      refine Triple.bind' ((evalScriptFunction_steady fuel (hc i store ctor hi hctor) args
        ctorEnv e).post fun _ t ht => ht.reframe frame) fun _ => hrun

theorem instantiateValues_steadyAt (fuel : Nat) (hs : Kept base old frame (fun _ => False) s)
    {c : ClassId} (className : Exprtk.Name)
    (hc : ∀ i store ctor, h.classes.instanceCreate s.store c = some (i, store) →
      h.classes.findConstructor store c args = some ctor → Passes ctor) :
    SteadyAt base old frame s (instantiateValues h (evaluators h fuel) c className args e) := by
  have herror : ∃ r, instantiationError h c className s = .ok r s := by
    show ∃ r, (if h.classes.isInterface s.store c then pure _
      else if h.classes.isAbstract s.store c then pure _ else pure none : Eval D Θ (Option String)) s = _
    split
    · exact ⟨_, rfl⟩
    · split
      · exact ⟨_, rfl⟩
      · exact ⟨_, rfl⟩
  obtain ⟨r, hr⟩ := herror
  refine SteadyAt.look hr ?_
  cases r with
  | some msg => exact (throwErr_steady e msg).at hs
  | none => exact construct_steadyAt fuel hs hc

theorem callInternal_steadyAt (fuel : Nat) (hs : Kept base old frame (fun _ => False) s)
    {name : Exprtk.Name} (hsafe : SafeName h s e name args) :
    SteadyAt base old frame s (callInternal h (evaluators h fuel) name args e) := by
  refine SteadyAt.look (findFunc_apply e name s) ?_
  unfold SafeName at hsafe
  cases hf : functionAt s e name with
  | some f =>
    rw [hf] at hsafe
    cases f with
    | script f => exact (evalScriptFunction_steady fuel hsafe args e e).at hs
    | native id => exact (runNative_steady hsafe).at hs
  | none =>
    rw [hf] at hsafe
    refine SteadyAt.look (envGet_apply e name s) ?_
    cases hv : valueAt s e name with
    | classVal c =>
      rw [hv] at hsafe
      exact instantiateValues_steadyAt fuel hs name hsafe
    | boundMethod i m =>
      rw [hv] at hsafe
      exact (evalInstanceScriptMethod_steady fuel i hsafe args).at hs
    | function f =>
      rw [hv] at hsafe
      have hpasses : Passes { f with name := "<function>" } := hsafe
      exact (evalScriptFunction_steady fuel hpasses args (f.closureEnv.getD e) e).at hs
    | _ =>
      rw [hv] at hsafe
      dsimp only at hsafe ⊢
      cases hb : h.builtin name with
      | some native => exact (runNative_steady (hsafe native hb)).at hs
      | none => exact (throwErr_steady e _).at hs

theorem memberCallValues_steadyAt (fuel : Nat) (hs : Kept base old frame (fun _ => False) s)
    {objectName method : Exprtk.Name} {object : Node D}
    (hinstance : ∀ i, valueAt s e objectName ≠ .instanceVal i)
    (hclass : ∀ c, valueAt s e objectName ≠ .classVal c)
    (hsafe : if hasNativeMethods (valueAt s e objectName) then
        OnlyReads (h.method (valueAt s e objectName) method args (receiverName object))
      else SafeName h s e (objectName ++ "." ++ method) args) :
    SteadyAt base old frame s (memberCallValues h (evaluators h fuel) objectName method object args e) := by
  refine SteadyAt.look (envGet_apply e objectName s) ?_
  generalize valueAt s e objectName = obj at hinstance hclass hsafe ⊢
  cases obj with
  | instanceVal i => exact absurd rfl (hinstance i)
  | classVal c => exact absurd rfl (hclass c)
  | _ => first
    | exact (runNative_steady hsafe).at hs
    | exact callInternal_steadyAt fuel hs hsafe

theorem callSelected_steady (fuel : Nat) (this : Option InstanceId) (object : Node D)
    (method : Exprtk.Name) {selected : Option (Func D)} (hm : ∀ m, selected = some m → Passes m)
    (args : List (Value D)) : Steady base old frame (fun _ => False)
      (callSelected h (evaluators h fuel) this object method selected args e) := by
  cases selected with
  | none =>
    cases this with
    | none | some => exact throwErr_steady e _
  | some m =>
    refine Steady.bind' Steady.get' fun s => Steady.bind' (accessFrom_steady object) fun a => ?_
    refine refusal_steady _ ?_
    cases this with
    | none => exact evalScriptFunction_steady fuel (hm m rfl) args e e
    | some i => exact evalInstanceScriptMethod_steady fuel i (hm m rfl) args

theorem callMethodCached_steadyAt (fuel : Nat) (hs : Kept base old frame (fun _ => False) s)
    {cache : CallCache D} (this : Option InstanceId) {c : ClassId} (object : Node D)
    {method : Exprtk.Name}
    (hm : ∀ m, selectMethod h finish s.store cache c this.isNone method args = some m → Passes m) :
    SteadyAt base old frame s
      (callMethodCached h (evaluators h fuel) finish cache this c object method args e) := by
  refine SteadyAt.get (Steady.at ?_ hs)
  refine Steady.bind' (Steady.modify' (fun _ => le_rfl) fun _ _ => rfl) fun _ => ?_
  exact Steady.bind' (callSelected_steady fuel this object method hm args) fun _ => Steady.pure' _

theorem oopMemberCallCached_steadyAt (fuel : Nat)
    (hs : Kept base old frame (fun _ => False) s) {analysed : Option (Func D)}
    (hanalysed : ∀ m, analysed = some m → methodBodyNeedsReload m.params m.body = false)
    {cache : CallCache D} {objectName method : Exprtk.Name} {object : Node D} {argv : List D}
    (hsafe : SafeCall h finish analysed cache objectName method object (argv.map .number) s e) :
    SteadyAt base old frame s
      (oopMemberCallCached h (evaluators h fuel) finish cache objectName method object argv e) := by
  have hpasses : ∀ m, SafeMethod analysed m → Passes m :=
    fun m hm => ⟨hm.1, hm.2.elim (hanalysed m) id⟩
  refine SteadyAt.look (envGet_apply e objectName s) ?_
  unfold SafeCall at hsafe
  cases hv : valueAt s e objectName with
  | instanceVal i =>
    rw [hv] at hsafe
    refine SteadyAt.get ?_
    exact callMethodCached_steadyAt fuel hs (some i) object fun m hm => hpasses m (hsafe m hm)
  | classVal c =>
    rw [hv] at hsafe
    exact callMethodCached_steadyAt fuel hs none object fun m hm => hpasses m (hsafe m hm)
  | _ =>
    rw [hv] at hsafe
    refine Triple.bind' (memberCallValues_steadyAt fuel hs ?_ ?_ ?_) fun _ => Steady.pure' _
    · intro i hi
      rw [hv] at hi
      cases hi
    · intro c hc
      rw [hv] at hc
      cases hc
    · rw [hv]
      exact hsafe

/-- **A call without a reload changes no variable held in a register**, in whatever
environment it lives: when the decision is to skip the reload, and what the dispatch selects
at run time is safe. The temporary of the MIR evaluator is no variable of a script. -/
theorem skipped_reload_keeps_variables (h : Host D Θ) (finish : Θ → ClassId → Bool × Θ)
    (fuel : Nat) (exactClass : Option Exprtk.Name) (objectName method : Exprtk.Name)
    (object : Node D)
    (argv : List D) (cache : CallCache D) (s₀ s t : State D Θ) (e₀ e : EnvId)
    (r : D × CallCache D) (held : List Exprtk.Name)
    (hskip : reloadAfter h s₀ e₀ exactClass method argv.length = false)
    (hsafe : SafeCall h finish
      (exactClass.bind fun c => analysedMethod h s₀ e₀ c method argv.length) cache objectName
      method object (argv.map .number) s e)
    (hheld : receiverTemp ∉ held)
    (hrun : oopMemberCallCached h (evaluators h fuel) finish cache objectName method object argv e
      s = .ok r t) :
    ∀ x ∈ held, ∀ i, i < s.next → (t.envs i).vars x = (s.envs i).vars x := by
  obtain ⟨className, m, rfl, hm, hbody⟩ := reloadAfter_skipped h hskip
  have hanalysed : ∀ m', (some className).bind
      (fun c => analysedMethod h s₀ e₀ c method argv.length) = some m' →
        methodBodyNeedsReload m'.params m'.body = false := by
    intro m' hm'
    have heq : some m = some m' := hm.symm.trans hm'
    cases heq
    exact hbody
  have hstart : Kept s.next (fun i => (s.envs i).vars) 0 (fun _ => False) s :=
    ⟨le_rfl, fun _ _ _ _ => rfl, fun _ hx => hx.elim⟩
  have hend := oopMemberCallCached_steadyAt fuel hstart hanalysed hsafe s rfl
  rw [hrun] at hend
  intro x hx i hi
  exact hend.vars i hi x fun hxt => hheld (hxt ▸ hx)

end Dispatch

/-! A class defined twice. -/

section Redefinition

structure Objects where
  classes : List (List (Func ℚ)) := []
  instances : List ClassId := []

/-- A class table without fields, access levels and inheritance: methods are found by name
    and number of parameters. -/
def objectTable : Classes ℚ Objects where
  isInterface _ _ := false
  isAbstract _ _ := false
  isFinal _ _ := false
  className _ _ := ""
  prototype _ _ := none
  classOf o i := o.instances.getD i 0
  instanceOf o i c := o.instances.getD i 0 == c
  instanceCreate o c := some (o.instances.length, { o with instances := o.instances ++ [c] })
  findConstructor _ _ _ := none
  lookupMethod o c name _ := (o.classes.getD c []).find? fun m => m.name == name
  lookupMethodTyped o c name _ args := (o.classes.getD c []).find? fun m =>
    m.name == name && m.params.length == args.length
  getField _ _ _ := none
  getStaticField _ _ _ := none
  fieldDenied _ _ _ _ _ := none
  methodDenied _ _ _ _ := none
  setField o _ _ _ := .ok o
  setStaticField o _ _ _ := .ok o
  setStaticFieldUnchecked o _ _ _ := o
  create o _ _ _ := (o.classes.length, { o with classes := o.classes ++ [[]] })
  declareField o _ _ _ := .ok o
  addMethod o c node closure :=
    match node with
    | .method name params body _ _ _ _ _ => .ok { o with
        classes := o.classes.modify c (· ++ [⟨name, params, body, some closure, some c, false,
          .publicAccess⟩]) }
    | _ => .ok o
  addInterface o _ _ := o
  finish o _ := .ok o

def objectHost : Host ℚ Objects where
  parse _ := none
  safePoint _ _ _ := true
  frameBytes n := n
  native _ _ := .ret zero
  builtin _ := none
  method _ name _ _ := .throwErr name
  property _ _ := none
  classes := objectTable

def emptyScope : State ℚ Objects where
  envs _ := { returnValue := zero, errorValue := zero }
  next := 1
  store := {}

/-- `class A { m() { body } }` -/
def classA (body : List (Node ℚ)) : Node ℚ :=
  .classDef "A" none [] none
    [.method "m" [] (.block body) false false false false .publicAccess] false false false

/-- `class A { m() { return 1; } }`, a script of its own. -/
def firstScript : Node ℚ := classA [.flowReturn (some (.integer 1))]

/-- The next script: `class A { m() { total = 5; return 1; } }  a = new A(); total = 1;`, after
    which comes the call `a.m()`. -/
def secondScript : Node ℚ :=
  .block [classA [.assignment "total" (.integer 5), .flowReturn (some (.integer 1))],
    .assignment "a" (.newExpr "A" []), .assignment "total" (.integer 1)]

def runObjects (script : Node ℚ) (s : State ℚ Objects) : State ℚ Objects :=
  reached ((evaluators objectHost 8).eval script 0) s

def compiledIn : State ℚ Objects := runObjects firstScript emptyScope

def callOfM : Eval ℚ Objects (ℚ × CallCache ℚ) :=
  oopMemberCallCached objectHost (evaluators objectHost 8) (fun o _ => (true, o)) {} "a" "m"
    (.varRef "a") [] 0

/-- What the environment has for `total`. -/
def totalIn (s : State ℚ Objects) : Option Int :=
  match valueAt s 0 "total" with
  | .integer i => some i
  | _ => none

/-- The reload after `a.m()` is skipped, since the class `A` of the first script is looked at;
    the class of the second script is the one called, and it changes `total`. -/
theorem redefined_method_changes_variable :
    let s := runObjects secondScript compiledIn
    reloadAfter objectHost compiledIn 0 (some "A") "m" 0 = false ∧
      totalIn s = some 1 ∧ ended callOfM s = true ∧ totalIn (reached callOfM s) = some 5 :=
  ⟨rfl, by decide +kernel, by decide +kernel, by decide +kernel⟩

/-- The call in a script that does not define the class again. -/
def sameClass : State ℚ Objects :=
  runObjects (.block [.assignment "a" (.newExpr "A" []), .assignment "total" (.integer 1)])
    compiledIn

/-- It is safe: the method selected is the one that was looked at. -/
theorem skipped_reload_keeps_variables_same_class : ∃ r t, callOfM sameClass = .ok r t ∧
      (t.envs 0).vars "total" = (sameClass.envs 0).vars "total" := by
  have hended : ended callOfM sameClass = true := by decide +kernel
  unfold ended at hended
  cases hrun : callOfM sameClass with
  | error x t =>
    rw [hrun] at hended
    cases hended
  | ok r t =>
    refine ⟨r, t, rfl, ?_⟩
    refine skipped_reload_keeps_variables objectHost (fun o _ => (true, o)) 8 (some "A") "a" "m"
      (.varRef "a") [] {} compiledIn sameClass t 0 0 r ["total"] rfl ?_ (by decide) hrun "total"
      List.mem_cons_self 0 (by decide)
    intro m hm
    exact ⟨by cases hm; rfl, .inl hm⟩

end Redefinition

end TurboScript.Mir.Reload
