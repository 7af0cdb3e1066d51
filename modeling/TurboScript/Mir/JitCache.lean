import Mathlib.Algebra.Order.Ring.Int
import TurboScript.Lib.QueryTree

/- The compile cache of `turbo_script_run_jit` (`turbo_script_mir_api.c`).

   The cache has 128 slots; a script's slot is its FNV-1a hash modulo that number, and an
   entry is used again when hash and text agree. The environment is not part of the key,
   though the lowering reads it.

   1. The cache and `runJit`. Lowering is any computation that reads the environment through
      `Fact`s; what compiled code does is any function of the environment.
   2. An execution is `Transparent` when compiling afresh would have given the same: whenever
      the facts asked for when the entry was compiled have the same answers.
   3. The assignment `x = v[i]`: whether `v` is a vector is such a fact (`stale_vector_read`). -/
namespace TurboScript.Mir.JitCache
open Lib

abbrev Name := String

/-! The environment and what lowering asks of it. -/

inductive Value (D : Type) where
  | null
  | number (d : D)
  | str (s : String)
  | vector (ds : List D)
  | list (items : List (Value D))
  | object (members : List (Name × Value D))
  | classVal (id : Nat)
  | function (id : Nat)

/-- An entry of `env->funcs`: a script function or a native one, with its body. -/
structure Func where
  name : Name
  isScript : Bool
  id : Nat
  deriving DecidableEq, Repr

structure Env (D : Type) where
  vars : Name → Option (Value D)
  funcs : List Func
  /-- The builtins of the registry and of the imported modules. -/
  builtins : Name → Option Nat

def Env.set {D : Type} (env : Env D) (x : Name) (v : Value D) : Env D :=
  { env with vars := fun y => if y = x then some v else env.vars y }

inductive Fact where
  /-- `ts_index_assignment_needs_value_eval`: is the variable bound to a vector? -/
  | vector (x : Name)
  /-- `ts_function_call_is_known_class`. -/
  | knownClass (x : Name)
  /-- The class a slot access or an inlined method is specialised for. -/
  | classOf (x : Name)
  /-- `ts_emit_member_access`: is it an object that has the member? -/
  | member (x m : Name)
  /-- `ts_env_has_func`. -/
  | hasFunc (f : Name)
  /-- `ts_emit_direct_resolved_call`: the native function whose address is called. -/
  | nativeFunc (f : Name)
  /-- `ts_find_script_func_in_env`: the script function that a call is specialised for. -/
  | scriptFunc (f : Name)
  /-- `ts_mir_admit_builtin`, `exprtk_find_builtin`. -/
  | builtin (f : Name)
  /-- `ts_analyze_closure`: is the name bound outside? -/
  | bound (x : Name)
  deriving DecidableEq, Repr

abbrev Answer := Option Nat

def yes (b : Bool) : Answer := if b then some 0 else none

def Env.answer {D : Type} (env : Env D) : Fact → Answer
  | .vector x =>
    match env.vars x with
    | some (.vector _) => some 0
    | _ => none
  | .knownClass x =>
    match env.vars x with
    | some (.classVal _) => some 0
    | _ => none
  | .classOf x =>
    match env.vars x with
    | some (.classVal id) => some id
    | _ => none
  | .member x m =>
    match env.vars x with
    | some (.object ms) => yes (ms.any fun p => p.1 == m)
    | _ => none
  | .hasFunc f => yes (env.funcs.any fun g => g.name == f)
  | .nativeFunc f => (env.funcs.find? fun g => g.name == f && !g.isScript).map Func.id
  | .scriptFunc f => (env.funcs.find? fun g => g.name == f && g.isScript).map Func.id
  | .builtin f => env.builtins f
  | .bound x => yes (env.vars x).isSome

/-! The cache. -/

/-- The parts of the engine around the cache: the parser, the lowering, the compiled code's
effect on the environment with its status, and `ts_memory_finish_run`, which may mark the
context as exhausted. -/
structure Engine (D Ast Code : Type) where
  parse : String → Option Ast
  lower : Ast → QueryTree Fact Answer (Option Code)
  exec : Code → Env D → Int × Env D
  finishRun : Env D → Int → Int × Env D × Bool

/-- `TS_JIT_CACHE_SIZE`. -/
def cacheSize : Nat := 128

/-- `ts_hash_script`: FNV-1a with the length mixed in. -/
def hashScript (s : String) : UInt64 :=
  let bytes := s.toUTF8.toList
  bytes.foldl (fun h b => (h ^^^ b.toUInt64) * 0x100000001b3) 0xcbf29ce484222325 ^^^ bytes.length.toUInt64

def slotOf (s : String) : Nat := (hashScript s).toNat % cacheSize

/-- `origin`, the environment the code was compiled against, is not stored by the source. -/
structure Entry (D Code : Type) where
  hash : UInt64
  script : String
  code : Code
  origin : Env D

structure Context (D Code : Type) where
  env : Env D
  cache : Nat → Option (Entry D Code)
  memoryExhausted : Bool

section Cache
variable {D Ast Code : Type} (J : Engine D Ast Code)

/-- `turbo_script_compile_mir`: `none` is a failure. -/
def Engine.compile (env : Env D) (s : String) : Option Code :=
  (J.parse s).bind fun ast => (J.lower ast).run env.answer

/-- The questions that compiling the script against the environment asks. -/
def Engine.asks (env : Env D) (s : String) : List Fact :=
  match J.parse s with
  | none => []
  | some ast => (J.lower ast).asked env.answer

/-- Compiled code run on the environment, with what is done at the end of a run. -/
def Engine.execute (code : Code) (env : Env D) : Int × Env D × Bool :=
  let (status, env') := J.exec code env
  J.finishRun env' status

/-- The entry that a script is run through, if its slot holds one for it. -/
def Context.lookup (c : Context D Code) (s : String) : Option (Entry D Code) :=
  match c.cache (slotOf s) with
  | some e => if e.hash = hashScript s ∧ e.script = s then some e else none
  | none => none

def runJit (c : Context D Code) (s : String) : Int × Context D Code :=
  if c.memoryExhausted then (-1, c)
  else
    match c.lookup s with
    | some e =>
      let (status, env, exhausted) := J.execute e.code c.env
      (status, { c with env, memoryExhausted := exhausted })
    | none =>
      match J.compile c.env s with
      | none => (-1, c)
      | some code =>
        let entry : Entry D Code := ⟨hashScript s, s, code, c.env⟩
        let (status, env, exhausted) := J.execute code c.env
        (status,
          { env, memoryExhausted := exhausted
            cache := fun i => if i = slotOf s then some entry else c.cache i })

def runFresh (c : Context D Code) (s : String) : Int × Env D × Bool :=
  if c.memoryExhausted then (-1, c.env, true)
  else
    match J.compile c.env s with
    | none => (-1, c.env, false)
    | some code => J.execute code c.env

def Transparent (c : Context D Code) (s : String) : Prop :=
  let r := runJit J c s
  (r.1, r.2.env, r.2.memoryExhausted) = runFresh J c s

/-- What happens to a context: a script is run, or the environment is changed from outside. -/
inductive Event (D : Type) where
  | run (s : String)
  | change (f : Env D → Env D)

def step (c : Context D Code) : Event D → Context D Code
  | .run s => (runJit J c s).2
  | .change f => { c with env := f c.env }

def initial (env : Env D) : Context D Code := ⟨env, fun _ => none, false⟩

def after (env : Env D) (es : List (Event D)) : Context D Code := es.foldl (step J) (initial env)

def Unchanged (c : Context D Code) (s : String) : Prop :=
  ∀ e, c.lookup s = some e → ∀ q ∈ J.asks e.origin s, c.env.answer q = e.origin.answer q

def Coherent (c : Context D Code) : Prop :=
  ∀ i e, c.cache i = some e → J.compile e.origin e.script = some e.code

variable {J}

theorem lookup_script {c : Context D Code} {s : String} {e : Entry D Code}
    (h : c.lookup s = some e) : c.cache (slotOf s) = some e ∧ e.script = s := by
  unfold Context.lookup at h
  split at h
  next e' he =>
    split at h
    next hs =>
      cases h
      exact ⟨he, hs.2⟩
    next => cases h
  next => cases h

theorem step_coherent {c : Context D Code} (hc : Coherent J c) (ev : Event D) :
    Coherent J (step J c ev) := by
  cases ev with
  | change f => exact hc
  | run s =>
    show Coherent J (runJit J c s).2
    unfold runJit
    split
    · exact hc
    · split
      · exact hc
      · split
        · exact hc
        next code hcode =>
          intro i e he
          dsimp only at he
          split at he
          next hi =>
            cases he
            exact hcode
          next hi => exact hc i e he

theorem after_coherent (env : Env D) (es : List (Event D)) : Coherent J (after J env es) := by
  suffices h : ∀ c, Coherent J c → Coherent J (es.foldl (step J) c) from
    h _ fun i e he => by cases he
  induction es with
  | nil => exact fun c hc => hc
  | cons ev es ih => exact fun c hc => ih _ (step_coherent hc ev)

theorem compile_congr {env env' : Env D} {s : String}
    (h : ∀ q ∈ J.asks env s, env'.answer q = env.answer q) : J.compile env' s = J.compile env s := by
  unfold Engine.compile
  unfold Engine.asks at h
  cases hp : J.parse s with
  | none => rfl
  | some ast =>
    rw [hp] at h
    exact QueryTree.run_congr (J.lower ast) h

theorem transparent_of_unchanged {c : Context D Code} (hc : Coherent J c) {s : String}
    (hu : Unchanged J c s) : Transparent J c s := by
  unfold Transparent runJit runFresh
  by_cases hm : c.memoryExhausted = true
  · simp only [hm, if_true]
  · simp only [hm]
    cases hl : c.lookup s with
    | some e =>
      obtain ⟨hs, rfl⟩ := lookup_script hl
      have hcode : J.compile c.env e.script = some e.code := by
        rw [compile_congr (hu e hl)]
        exact hc _ e hs
      simp only [hcode]
      rfl
    | none =>
      cases hk : J.compile c.env s with
      | none => simp [hm]
      | some code => rfl

end Cache

inductive Rhs (D : Type) where
  | num (d : D)
  | var (x : Name)
  | add (l r : Rhs D)
  | index (v : Name) (i : Nat)

structure Assign (D : Type) where
  target : Name
  rhs : Rhs D

/-- `storeNum` computes with doubles; `valueAssign` is `ts_mir_value_expr_assign` of the node. -/
inductive Code (D : Type) where
  | storeNum (x : Name) (e : Rhs D)
  | valueAssign (x : Name) (e : Rhs D)

/-- `ts_index_assignment_needs_value_eval` for an index into a variable that the script has
not assigned. -/
def indexNeedsValueEval {D : Type} : Rhs D → QueryTree Fact Answer Bool
  | .index v _ => do
    let a ← QueryTree.query (.vector v)
    pure a.isNone
  | _ => pure false

/-- The end of `ts_emit_assignment`, which a script of one such assignment reaches. -/
def emitAssignment {D : Type} (a : Assign D) : QueryTree Fact Answer (Option (Code D)) := do
  if ← indexNeedsValueEval a.rhs then
    pure (some (.valueAssign a.target a.rhs))
  else
    pure (some (.storeNum a.target a.rhs))

section Exec
variable {D : Type} [Zero D] [Add D]

/-- `ts_mir_numeric_value`, with an unbound variable read as the number 0. -/
def numericValue : Option (Value D) → D
  | some (.number d) => d
  | _ => 0

/-- `ts_mir_vec_get`. -/
def vecGet (env : Env D) (v : Name) (i : Nat) : D :=
  match env.vars v with
  | some (.vector ds) => ds.getD i 0
  | _ => 0

def evalNum (env : Env D) : Rhs D → D
  | .num d => d
  | .var x => numericValue (env.vars x)
  | .add l r => evalNum env l + evalNum env r
  | .index v i => vecGet env v i

/-- An index read on values; `none` is a thrown error. -/
def indexValue (env : Env D) (v : Name) (i : Nat) : Option (Value D) :=
  match env.vars v with
  | some (.vector ds) => ds[i]?.map .number
  | some (.list vs) => vs[i]?
  | _ => none

def exec : Code D → Env D → Int × Env D
  | .storeNum x e, env => (0, env.set x (.number (evalNum env e)))
  | .valueAssign x (.index v i), env =>
    match indexValue env v i with
    | some a => (0, env.set x a)
    | none => (-1, env)
  -- only index reads are handed to the value bridge here
  | .valueAssign _ _, env => (-1, env)

end Exec

/-- The engine on the script `x = v[0]`. -/
def assignEngine : Engine Int (Assign Int) (Code Int) where
  parse s := if s = "x = v[0]" then some ⟨"x", .index "v" 0⟩ else none
  lower := emitAssignment
  exec := exec
  finishRun env status := (status, env, false)

/-- An environment that binds `v`. -/
def withV (v : Value Int) : Env Int := ⟨fun y => if y = "v" then some v else none, [], fun _ => none⟩

/-- The script runs while `v` is a vector, then `v` becomes a list. -/
def listInstead : List (Event Int) :=
  [.run "x = v[0]", .change fun env => env.set "v" (.list [.str "a"])]

theorem lookup_second (f : Env Int → Env Int) :
    (after assignEngine (withV (.vector [5])) [.run "x = v[0]", .change f]).lookup "x = v[0]" =
      some ⟨hashScript "x = v[0]", "x = v[0]", .storeNum "x" (.index "v" 0),
        withV (.vector [5])⟩ := by
  have hc : assignEngine.compile (withV (.vector [5])) "x = v[0]" =
      some (.storeNum "x" (.index "v" 0)) := rfl
  simp only [after, List.foldl_cons, List.foldl_nil, step, runJit, initial, Context.lookup, hc]
  simp

end TurboScript.Mir.JitCache
