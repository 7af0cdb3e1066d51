import Mathlib.Data.List.Sort
import Mathlib.Data.String.Basic
import TurboScript.Exprtk.Registration

/- Which function a call selects (`exprtk_registry.c`).

   1. Six tables: functions and variables along the chain of environments, the modules mounted on
      the environment of the call, the modules of the chain by their name, the registry, and once
      more the registry behind a compatibility namespace. The second kind of table is searched in a
      sorted copy that is made on demand, the registry is sorted on demand.
   2. The machine: tables change and names are looked up, in any order.
   3. `Tables` has no copies and is searched in order of addition. The machine simulates it
      (`step_sim`), so what was looked up before does not matter (`resolution_refines`).
   4. The depth of the scope (`resolution_depth`).

   Allocations succeed. A call of what is selected is not followed. -/
namespace TurboScript.Exprtk.Resolution
open Registration

/-- `exprtk_func_entry_t`. -/
structure Entry (F : Type) where
  name : Name
  fn : F

/-- `exprtk_module_t`. -/
structure Module (F : Type) where
  moduleName : Option Name
  entries : List (Entry F)

def Sorted {F : Type} (l : List (Entry F)) : Prop := l.Pairwise fun x y => x.name ≤ y.name

/-- `qsort` and `bsearch` on entries. Nothing is said of the order of entries with one name, nor
which of them is found. -/
structure Libc (F : Type) where
  qsort : List (Entry F) → List (Entry F)
  bsearch : Name → List (Entry F) → Option (Entry F)
  perm : ∀ l, (qsort l).Perm l
  sorted : ∀ l, Sorted (qsort l)
  found : ∀ l name x, Sorted l → bsearch name l = some x → x ∈ l ∧ x.name = name
  missing : ∀ l name, Sorted l → bsearch name l = none → ∀ x ∈ l, x.name ≠ name

/-- The value of a variable: a class, a bound method or a function with a body, or any other. -/
inductive VarValue (V : Type)
  | callable (v : V)
  | other

/-- `parents` are `parent`, `parent->parent` and so on. -/
structure Scope (F U S V : Type) where
  funcs : List (FuncEntry F U S) := []
  vars : List (Name × VarValue V) := []
  parents : List Nat := []
  modules : List (Module F) := []

structure Env (F U S V : Type) extends Scope F U S V where
  modCache : Option (List (Entry F)) := none

structure State (F U S V : Type) where
  envs : Nat → Env F U S V := fun _ => {}
  next : Nat := 0
  registry : List (Entry F) := []
  ready : Bool := false

inductive Target (F U S V : Type)
  | func (f : FuncEntry F U S)
  | value (v : V)
  | builtin (fn : F)
  | undefined

section Lookup
variable {F U S V : Type}

def Scope.entries (s : Scope F U S V) : List (Entry F) := s.modules.flatMap Module.entries

/-- The text before the first dot and the text behind it. -/
def splitName (name : Name) : Option (Name × Name) :=
  let text := name.toList
  if '.' ∈ text then
    some (.ofList (text.takeWhile (· ≠ '.')), .ofList (text.dropWhile (· ≠ '.')).tail)
  else none

def globalCompatNamespaces : List Name := ["math", "stats", "string", "io", "core", "regex"]

/-- The short name behind a compatibility namespace. -/
def compatName (name : Name) : Option Name :=
  (splitName name).bind fun (namespaceName, short) =>
    if namespaceName ∈ globalCompatNamespaces then some short else none

/-- A function, or a variable with a callable value, found along the chain. -/
def envTarget (scopes : List (Scope F U S V)) (name : Name) : Option (Target F U S V) :=
  match scopes.findSome? fun s => s.funcs.find? (FuncEntry.named name) with
  | some f => some (.func f)
  | none =>
    match (scopes.findSome? fun s => s.vars.lookup name : Option (VarValue V)) with
    | some (.callable v) => some (.value v)
    | _ => none

/-- `mod_find_entry_in_named_module` on a name with a dot. -/
def findNamespaced (scopes : List (Scope F U S V)) (name : Name) : Option (Entry F) :=
  (splitName name).bind fun (moduleName, entryName) =>
    scopes.findSome? fun s => s.modules.findSome? fun m =>
      if m.moduleName = some moduleName then m.entries.find? fun x => x.name == entryName else none

namespace State
variable (L : Libc F) (core : Module F) (name : Name) (e : Nat) (σ : State F U S V)

def chain : List (Scope F U S V) :=
  (σ.envs e).toScope :: (σ.envs e).parents.map fun p => (σ.envs p).toScope

def setEnv (env : Env F U S V) : State F U S V := { σ with envs := Function.update σ.envs e env }

def buildModCache : State F U S V :=
  let entries := (σ.envs e).entries
  if entries.isEmpty then σ else σ.setEnv e { σ.envs e with modCache := some (L.qsort entries) }

def modCacheFindEntry : Option (Entry F) × State F U S V :=
  let σ := if (σ.envs e).modCache.isNone then buildModCache L e σ else σ
  ((σ.envs e).modCache.bind (L.bsearch name), σ)

def registryAddModule (m : Module F) : State F U S V :=
  { σ with registry := σ.registry ++ m.entries, ready := false }

def registryInit : State F U S V :=
  if σ.ready then σ
  else { σ with registry := L.qsort (σ.registryAddModule core).registry, ready := true }

def registryFindEntry : Option (Entry F) × State F U S V :=
  let σ := registryInit L core σ
  (L.bsearch name σ.registry, σ)

def findBuiltinEntry : Option (Entry F) × State F U S V :=
  match modCacheFindEntry L name e σ with
  | (some hit, σ) => (some hit, σ)
  | (none, σ) =>
    match findNamespaced (σ.chain e) name with
    | some hit => (some hit, σ)
    | none => registryFindEntry L core name σ

/-- The selection of `exprtk_call_internal`, whose steps 1.5 and 2 are those of
`exprtk_find_builtin_entry`. -/
def callInternal : Target F U S V × State F U S V :=
  match envTarget (σ.chain e) name with
  | some t => (t, σ)
  | none =>
    match findBuiltinEntry L core name e σ with
    | (some hit, σ) => (.builtin hit.fn, σ)
    | (none, σ) =>
      match compatName name with
      | none => (.undefined, σ)
      | some short =>
        match registryFindEntry L core short σ with
        | (some hit, σ) => (.builtin hit.fn, σ)
        | (none, σ) => (.undefined, σ)

end State

/-- Functions and variables may change in any way. -/
inductive Op (F U S V : Type)
  | envInit
  | initChild (parent : Nat)
  | addModule (e : Nat) (m : Module F)
  | registryAddModule (m : Module F)
  | setTables (e : Nat) (funcs : List (FuncEntry F U S)) (vars : List (Name × VarValue V))
  | call (e : Nat) (name : Name)
  | findBuiltin (e : Nat) (name : Name)

def State.step (L : Libc F) (core : Module F) (σ : State F U S V) : Op F U S V → State F U S V
  | .envInit => { σ.setEnv σ.next {} with next := σ.next + 1 }
  | .initChild p =>
    { σ.setEnv σ.next { parents := p :: (σ.envs p).parents } with next := σ.next + 1 }
  | .addModule e m =>
    σ.setEnv e { σ.envs e with modules := (σ.envs e).modules ++ [m], modCache := none }
  | .registryAddModule m => σ.registryAddModule m
  | .setTables e funcs vars => σ.setEnv e { σ.envs e with funcs := funcs, vars := vars }
  | .call e name => (σ.callInternal L core name e).2
  | .findBuiltin e name => (σ.findBuiltinEntry L core name e).2

/-! The tables themselves. -/

structure Tables (F U S V : Type) where
  scopes : Nat → Scope F U S V := fun _ => {}
  next : Nat := 0
  added : List (Entry F) := []

namespace Tables
variable (core : Module F) (τ : Tables F U S V) (e : Nat) (name : Name)

def chain : List (Scope F U S V) := τ.scopes e :: (τ.scopes e).parents.map τ.scopes

def setScope (s : Scope F U S V) : Tables F U S V :=
  { τ with scopes := Function.update τ.scopes e s }

def step : Op F U S V → Tables F U S V
  | .envInit => { τ.setScope τ.next {} with next := τ.next + 1 }
  | .initChild p =>
    { τ.setScope τ.next { parents := p :: (τ.scopes p).parents } with next := τ.next + 1 }
  | .addModule e m => τ.setScope e { τ.scopes e with modules := (τ.scopes e).modules ++ [m] }
  | .registryAddModule m => { τ with added := τ.added ++ m.entries }
  | .setTables e funcs vars => τ.setScope e { τ.scopes e with funcs := funcs, vars := vars }
  | .call .. | .findBuiltin .. => τ

def registered : List (Entry F) := core.entries ++ τ.added

/-- The first entry of a name. -/
def first (l : List (Entry F)) : Option F := (l.find? fun x => x.name == name).map Entry.fn

/-- The tables behind the modules of the environment itself. -/
def outer : Option F :=
  ((findNamespaced (τ.chain e) name).map Entry.fn).or (first name (τ.registered core))

def findBuiltin : Option F := (first name (τ.scopes e).entries).or (outer core τ e name)

def compat : Option F := (compatName name).bind fun short => first short (τ.registered core)

def select : Target F U S V :=
  (envTarget (τ.chain e) name).getD
    (((findBuiltin core τ e name).or (compat core τ name)).elim .undefined .builtin)

end Tables
end Lookup

/-- The entries of a name are for one function. -/
def OneFunction {F : Type} (name : Name) (l : List (Entry F)) : Prop :=
  ∀ x ∈ l, ∀ y ∈ l, x.name = name → y.name = name → x.fn = y.fn

section Refinement
variable {F U S V : Type} {L : Libc F} {core : Module F} {σ : State F U S V}
  {τ : Tables F U S V} {e : Nat} {name : Name}

theorem Libc.bsearch_fn {l l' : List (Entry F)} (hl : Sorted l) (hmem : ∀ x, x ∈ l ↔ x ∈ l')
    (hone : OneFunction name l') : (L.bsearch name l).map Entry.fn = Tables.first name l' := by
  unfold Tables.first
  cases hb : L.bsearch name l with
  | none =>
    have hmiss := L.missing l name hl hb
    rw [List.find?_eq_none.2 fun x hx => by simpa using hmiss x ((hmem x).2 hx)]
  | some x =>
    obtain ⟨hx, hname⟩ := L.found l name x hl hb
    cases hf : l'.find? fun y => y.name == name with
    | none => exact absurd hname (by simpa using List.find?_eq_none.1 hf x ((hmem x).1 hx))
    | some y =>
      have hy : y.name = name := by simpa using List.find?_some hf
      simp [hone x ((hmem x).1 hx) y (List.mem_of_find?_eq_some hf) hname hy]

/-- The copies are up to date, and the registry holds the core module and what was added. -/
structure Sim (L : Libc F) (core : Module F) (σ : State F U S V) (τ : Tables F U S V) : Prop where
  scopes : ∀ e, (σ.envs e).toScope = τ.scopes e
  next : σ.next = τ.next
  cache : ∀ e c, (σ.envs e).modCache = some c → c = L.qsort (τ.scopes e).entries
  registry : ∀ x, x ∈ core.entries ∨ x ∈ σ.registry ↔ x ∈ τ.registered core
  ready : σ.ready = true → Sorted σ.registry ∧ ∀ x ∈ core.entries, x ∈ σ.registry

theorem Sim.chain (h : Sim L core σ τ) (e : Nat) : σ.chain e = τ.chain e := by
  simp only [State.chain, Tables.chain, h.scopes]

theorem Sim.setEnv (h : Sim L core σ τ) (e : Nat) (env : Env F U S V)
    (hcache : ∀ c, env.modCache = some c → c = L.qsort env.entries) :
    Sim L core (σ.setEnv e env) (τ.setScope e env.toScope) where
  scopes i := by
    by_cases hi : i = e
    · subst hi
      simp [State.setEnv, Tables.setScope]
    · simpa [State.setEnv, Tables.setScope, hi] using h.scopes i
  next := h.next
  cache i c hc := by
    by_cases hi : i = e
    · subst hi
      simpa [State.setEnv, Tables.setScope] using hcache c (by simpa [State.setEnv] using hc)
    · simpa [State.setEnv, Tables.setScope, hi] using
        h.cache i c (by simpa [State.setEnv, hi] using hc)
  registry := h.registry
  ready := h.ready

theorem modCache_sim (h : Sim L core σ τ) (name : Name) (e : Nat) :
    Sim L core (σ.modCacheFindEntry L name e).2 τ ∧ (OneFunction name (τ.scopes e).entries →
      (σ.modCacheFindEntry L name e).1.map Entry.fn = Tables.first name (τ.scopes e).entries) := by
  have hfind (hone : OneFunction name (τ.scopes e).entries) :=
    L.bsearch_fn (L.sorted _) (fun x => (L.perm _).mem_iff) hone
  unfold State.modCacheFindEntry State.buildModCache
  rw [h.scopes]
  cases hcache : (σ.envs e).modCache with
  | some c =>
    simp only [Option.isNone_some, Bool.false_eq_true, if_false, hcache, Option.bind_some,
      h.cache e c hcache]
    exact ⟨h, hfind⟩
  | none =>
    simp only [Option.isNone_none, if_true]
    split
    · rename_i hempty
      rw [hcache, List.isEmpty_iff.1 hempty]
      exact ⟨h, fun _ => rfl⟩
    · have hset : τ.setScope e (σ.envs e).toScope = τ := by
        rw [h.scopes, Tables.setScope, Function.update_eq_self]
      have hsim := h.setEnv e { σ.envs e with modCache := some (L.qsort (τ.scopes e).entries) }
        fun c hc => by rw [← Option.some.inj hc, ← h.scopes]
      rw [hset] at hsim
      refine ⟨hsim, fun hone => ?_⟩
      simpa [State.setEnv] using hfind hone

theorem registry_sim (h : Sim L core σ τ) (name : Name) :
    Sim L core (σ.registryFindEntry L core name).2 τ ∧ (OneFunction name (τ.registered core) →
      (σ.registryFindEntry L core name).1.map Entry.fn = Tables.first name (τ.registered core)) := by
  have hready : Sim L core (σ.registryInit L core) τ ∧ (σ.registryInit L core).ready = true := by
    unfold State.registryInit
    split
    · exact ⟨h, by assumption⟩
    · have hmem (x : Entry F) : x ∈ L.qsort (σ.registry ++ core.entries) ↔ x ∈ τ.registered core := by
        rw [(L.perm _).mem_iff, List.mem_append, Or.comm, h.registry]
      refine ⟨⟨h.scopes, h.next, h.cache, fun x => ?_, fun _ => ⟨L.sorted _, fun x hx => ?_⟩⟩, rfl⟩
      · simp only [State.registryAddModule, hmem, Tables.registered, List.mem_append]
        tauto
      · exact (hmem x).2 (List.mem_append_left _ hx)
  obtain ⟨hsorted, hcore⟩ := hready.1.ready hready.2
  refine ⟨hready.1, fun hone => L.bsearch_fn hsorted (fun x => ?_) hone⟩
  rw [← hready.1.registry]
  exact ⟨.inr, fun hx => hx.elim (hcore x) id⟩

theorem findBuiltin_sim (h : Sim L core σ τ) (name : Name) (e : Nat) :
    Sim L core (σ.findBuiltinEntry L core name e).2 τ ∧
    (OneFunction name (τ.scopes e).entries → OneFunction name (τ.registered core) →
      (σ.findBuiltinEntry L core name e).1.map Entry.fn = τ.findBuiltin core e name) := by
  unfold State.findBuiltinEntry Tables.findBuiltin Tables.outer
  obtain ⟨hsim, hfn⟩ := modCache_sim h name e
  rcases hm : σ.modCacheFindEntry L name e with ⟨_ | hit, σ₁⟩
  · rw [hm] at hsim hfn
    obtain ⟨hsim', hfn'⟩ := registry_sim hsim name
    simp only [hsim.chain]
    cases hn : findNamespaced (τ.chain e) name with
    | some hit => exact ⟨hsim, fun hone _ => by simp [← hfn hone]⟩
    | none => exact ⟨hsim', fun hone hreg => by simp [← hfn hone, hfn' hreg]⟩
  · rw [hm] at hsim hfn
    exact ⟨hsim, fun hone _ => by simp [← hfn hone]⟩

/-- In each table that a call of `name` asks, the entries of a name are for one function. -/
structure Clear (core : Module F) (τ : Tables F U S V) (e : Nat) (name : Name) : Prop where
  mounted : OneFunction name (τ.scopes e).entries
  registered : OneFunction name (τ.registered core)
  compat : ∀ short ∈ compatName name, OneFunction short (τ.registered core)

theorem callInternal_sim (h : Sim L core σ τ) (name : Name) (e : Nat) :
    Sim L core (σ.callInternal L core name e).2 τ ∧
    (Clear core τ e name → (σ.callInternal L core name e).1 = τ.select core e name) := by
  rw [State.callInternal, h.chain, Tables.select, Tables.compat]
  obtain ⟨hsim, hfn⟩ := findBuiltin_sim h name e
  cases envTarget (τ.chain e) name with
  | some t => exact ⟨h, fun _ => rfl⟩
  | none =>
    rcases hf : σ.findBuiltinEntry L core name e with ⟨_ | hit, σ₁⟩
    · rw [hf] at hsim hfn
      cases hc : compatName name with
      | none => exact ⟨hsim, fun hclear => by simp [← hfn hclear.mounted hclear.registered]⟩
      | some short =>
        obtain ⟨hsim', hfn'⟩ := registry_sim hsim short
        dsimp only
        rcases hr : σ₁.registryFindEntry L core short with ⟨_ | hit, σ₂⟩ <;>
        · rw [hr] at hsim' hfn'
          exact ⟨hsim', fun hclear => by
            simp [← hfn hclear.mounted hclear.registered, ← hfn' (hclear.compat short hc)]⟩
    · rw [hf] at hsim hfn
      exact ⟨hsim, fun hclear => by simp [← hfn hclear.mounted hclear.registered]⟩

theorem Sim.withNext (h : Sim L core σ τ) (n : Nat) :
    Sim L core { σ with next := n } { τ with next := n } :=
  ⟨h.scopes, rfl, h.cache, h.registry, h.ready⟩

theorem step_sim (h : Sim L core σ τ) (op : Op F U S V) :
    Sim L core (σ.step L core op) (τ.step op) := by
  cases op with
  | envInit =>
    have hs := (h.setEnv σ.next {} (by simp)).withNext (σ.next + 1)
    simpa [State.step, Tables.step, h.next] using hs
  | initChild p =>
    have hs := (h.setEnv σ.next { parents := p :: (τ.scopes p).parents } (by simp)).withNext
      (σ.next + 1)
    simpa [State.step, Tables.step, ← h.scopes, h.next] using hs
  | addModule e m =>
    have hs := h.setEnv e { σ.envs e with
      modules := (σ.envs e).modules ++ [m], modCache := none } (by simp)
    simpa [State.step, Tables.step, ← h.scopes] using hs
  | registryAddModule m =>
    refine ⟨h.scopes, h.next, h.cache, fun x => ?_, by simp [State.step, State.registryAddModule]⟩
    have hx := h.registry x
    simp only [Tables.registered, List.mem_append] at hx
    simp only [State.step, State.registryAddModule, Tables.step, Tables.registered, List.mem_append]
    tauto
  | setTables e funcs vars =>
    have hs := h.setEnv e { σ.envs e with funcs := funcs, vars := vars }
      fun c hc => by rw [h.cache e c hc, ← h.scopes]; rfl
    simpa [State.step, Tables.step, ← h.scopes] using hs
  | call e name => exact (callInternal_sim h name e).1
  | findBuiltin e name => exact (findBuiltin_sim h name e).1

theorem run_sim (h : Sim L core σ τ) (ops : List (Op F U S V)) :
    Sim L core (ops.foldl (State.step L core) σ) (ops.foldl Tables.step τ) := by
  induction ops generalizing σ τ with
  | nil => exact h
  | cons op ops ih => exact ih (step_sim h op)

theorem initial_sim : Sim L core ({} : State F U S V) {} where
  scopes _ := rfl
  next := rfl
  cache _ _ hc := by cases hc
  registry x := by simp [Tables.registered]
  ready h := by cases h

end Refinement

section Results
variable {F U S V : Type}

/-- **Lookups leave no trace.** After any history a call, and a search for a builtin, gives what the
first entries in the tables of the moment give, whatever was looked up before and however `qsort`
and `bsearch` treat entries of one name, if these are for one function. -/
theorem resolution_refines (L : Libc F) (core : Module F) (ops : List (Op F U S V)) (e : Nat)
    (name : Name) (hclear : Clear core (ops.foldl Tables.step {}) e name) :
    let σ := ops.foldl (State.step L core) {}
    let τ := ops.foldl Tables.step {}
    (σ.callInternal L core name e).1 = τ.select core e name ∧
      (σ.findBuiltinEntry L core name e).1.map Entry.fn = τ.findBuiltin core e name := by
  intro σ τ
  have hsim : Sim L core σ τ := run_sim initial_sim ops
  exact ⟨(callInternal_sim hsim name e).2 hclear,
    (findBuiltin_sim hsim name e).2 hclear.mounted hclear.registered⟩

/-- Nothing in the tables of the scope itself is called `name`. -/
structure Bare (name : Name) (s : Scope F U S V) : Prop where
  func : s.funcs.find? (FuncEntry.named name) = none
  var : s.vars.lookup name = none
  entry : ∀ x ∈ s.entries, x.name ≠ name
  namespaced : findNamespaced [s] name = none

theorem envTarget_bare {l r : List (Scope F U S V)} {name : Name} (hl : ∀ s ∈ l, Bare name s) :
    envTarget (l ++ r) name = envTarget r name ∧ findNamespaced (l ++ r) name = findNamespaced r name := by
  induction l with
  | nil => exact ⟨rfl, rfl⟩
  | cons s l ih =>
    obtain ⟨hs, hl⟩ := List.forall_mem_cons.1 hl
    obtain ⟨hfun, hvar, -, hmod⟩ := hs
    rw [← (ih hl).1, ← (ih hl).2]
    refine ⟨by simp [envTarget, hfun, hvar], ?_⟩
    unfold findNamespaced at hmod ⊢
    cases hsplit : splitName name with
    | none => rfl
    | some p =>
      rw [hsplit] at hmod
      simp only [Option.bind_some, List.findSome?_cons, List.findSome?_nil] at hmod ⊢
      rw [List.cons_append, List.findSome?_cons]
      grind

theorem first_eq_none {l : List (Entry F)} {name : Name} :
    Tables.first name l = none ↔ ∀ x ∈ l, x.name ≠ name := by
  simp [Tables.first]

/-- **The depth of a call.** From a scope whose chain defines `name` in its root at most, a call
selects what it selects from the root, unless a module mounted on the root is what answers there:
its plain names are not seen from below. -/
theorem resolution_depth (L : Libc F) (core : Module F) (ops : List (Op F U S V)) {e root : Nat}
    {below : List Nat} {name : Name}
    (hchain : ((ops.foldl Tables.step {}).scopes e).parents = below ++ [root])
    (hroot : ((ops.foldl Tables.step {}).scopes root).parents = [])
    (hbare : ∀ i ∈ e :: below, Bare name ((ops.foldl Tables.step {}).scopes i))
    (hclear : Clear core (ops.foldl Tables.step {}) root name) :
    let σ := ops.foldl (State.step L core) {}
    let τ := ops.foldl Tables.step {}
    (σ.callInternal L core name e).1 = (σ.callInternal L core name root).1 ↔
      (envTarget [τ.scopes root] name).isSome ∨ (∀ x ∈ (τ.scopes root).entries, x.name ≠ name) ∨
        (τ.outer core root name).or (τ.compat core name) = Tables.first name (τ.scopes root).entries := by
  intro σ τ
  have hsim : Sim L core σ τ := run_sim initial_sim ops
  have hentry := (hbare e (List.mem_cons_self ..)).entry
  have hnone : Tables.first name (τ.scopes e).entries = none := first_eq_none.2 hentry
  have hclear' : Clear core τ e name :=
    ⟨fun x hx _ _ hname _ => absurd hname (hentry x hx), hclear.registered, hclear.compat⟩
  have hpath : τ.chain e = (e :: below).map τ.scopes ++ [τ.scopes root] := by
    simp [Tables.chain, τ, hchain]
  have hpath' : τ.chain root = [τ.scopes root] := by
    simp [Tables.chain, τ, hroot]
  obtain ⟨htarget, hnamed⟩ := @envTarget_bare _ _ _ _ ((e :: below).map τ.scopes) [τ.scopes root] name
    (by simpa using hbare)
  rw [(callInternal_sim hsim name e).2 hclear', (callInternal_sim hsim name root).2 hclear]
  simp only [Tables.select, Tables.findBuiltin, Tables.outer, hpath, hpath', htarget, hnamed,
    hnone, Option.none_or, ← first_eq_none]
  cases envTarget [τ.scopes root] name with
  | some t => simp
  | none =>
    cases hf : Tables.first name (τ.scopes root).entries with
    | none => simp
    | some fn =>
      rw [Option.some_or, Option.some_or]
      cases ((findNamespaced [τ.scopes root] name).map Entry.fn).or (Tables.first name (τ.registered core)) |>.or
          (τ.compat core name) <;> simp

end Results

section Example

def stable : Libc Nat where
  qsort l := l.mergeSort fun x y => x.name ≤ y.name
  bsearch name l := l.find? fun x => x.name == name
  perm l := List.mergeSort_perm l _
  sorted l := by
    have htotal (x y : Entry Nat) : (decide (x.name ≤ y.name) || decide (y.name ≤ x.name)) = true := by
      simpa using le_total x.name y.name
    have htrans (x y z : Entry Nat) : decide (x.name ≤ y.name) = true →
        decide (y.name ≤ z.name) = true → decide (x.name ≤ z.name) = true := by
      simpa using le_trans
    simpa [Sorted] using List.pairwise_mergeSort htrans htotal l
  found l name x _ h := ⟨List.mem_of_find?_eq_some h, by simpa using List.find?_some h⟩
  missing l name _ h := by simpa using h

def coreModule : Module Nat := ⟨some "core", [⟨"abs", 0⟩]⟩

/-- A root with a module, and two scopes below it. -/
def mounted : List (Op Nat Unit Unit Unit) :=
  [.envInit, .addModule 0 ⟨some "vec", [⟨"dot", 1⟩]⟩, .call 0 "dot", .initChild 0, .initChild 1]

theorem mounted_clear (name : Name) : Clear coreModule (mounted.foldl Tables.step {}) 0 name where
  mounted x hx y hy _ _ := by
    simp_all [mounted, Tables.step, Tables.setScope, Scope.entries]
  registered x hx y hy _ _ := by
    simp_all [mounted, Tables.step, Tables.setScope, Tables.registered, coreModule]
  compat short _ x hx y hy _ _ := by
    simp_all [mounted, Tables.step, Tables.setScope, Tables.registered, coreModule]

theorem resolution_refines_mounted :
    ((mounted.foldl (State.step stable coreModule) {}).callInternal stable coreModule "dot" 0).1 =
      (mounted.foldl Tables.step {}).select coreModule 0 "dot" :=
  (resolution_refines stable coreModule mounted 0 "dot" (mounted_clear "dot")).1

theorem resolution_depth_mounted :
    ((mounted.foldl (State.step stable coreModule) {}).callInternal stable coreModule "abs" 2).1 =
      ((mounted.foldl (State.step stable coreModule) {}).callInternal stable coreModule "abs" 0).1 := by
  refine (@resolution_depth _ _ _ _ stable coreModule mounted 2 0 [1] "abs" rfl rfl ?_
    (mounted_clear "abs")).2 (.inr (.inl ?_))
  · intro i hi
    have hcases : i = 2 ∨ i = 1 := by simpa using hi
    rcases hcases with rfl | rfl <;> exact ⟨rfl, rfl, by simp [mounted, Tables.step, Tables.setScope,
      Scope.entries], by decide⟩
  · simp [mounted, Tables.step, Tables.setScope, Scope.entries]

end Example

end TurboScript.Exprtk.Resolution
