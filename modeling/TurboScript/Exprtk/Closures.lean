import Mathlib.Data.List.GetD
import Mathlib.Data.List.Induction

/- The reference counts of captured scopes (`exprtk_value.c`, `exprtk_runtime.c`).

   A function expression snapshots its free variables into an environment of its own. The
   root's closure chain owns one reference to it, function values marked OWNED own the others,
   and `exprtk_env_sweep_closures` frees what only the chain refers to.

   1. The heap, with the values held by C variables (`temps`), and the operations.
   2. `owners` of a snapshot, and `Sound`, what the comment above
      `root->next_closure = new_env` promises of the counts.
   3. `givenUp`: the owned references a step drops without releasing them (`step_counts`).
   4. Every state of a run is `Sound` just when every step of it is `Careful`.

   `exprtk_value_destroy` and `exprtk_release_value` first mark the value BORROWED and only
   then ask whether it is OWNED: neither ever releases a snapshot. -/
namespace TurboScript.Exprtk.Closures

abbrev EnvId := Nat

inductive Ownership where
  | borrowed
  | owned
  deriving DecidableEq, Repr

/-- An `exprtk_value_t`: a function with its captured scope, or a value of another type. -/
inductive Value where
  | plain
  | function (closureEnv : Option EnvId) (ownership : Ownership)
  deriving DecidableEq, Repr

def Value.closureEnv : Value → Option EnvId
  | .plain => none
  | .function c _ => c

/-- A function value that refers to the snapshot `x`. -/
def refers (x : EnvId) (v : Value) : Bool := v.closureEnv == some x

/-- A function value that owns a reference to the snapshot `x`. -/
def owns (x : EnvId) : Value → Bool
  | .function (some y) .owned => y == x
  | _ => false

structure VarEntry where
  env : EnvId
  name : String
  value : Value
  isConstant : Bool
  isBorrowed : Bool
  deriving DecidableEq, Repr

/-- What an environment says about itself: its parents, nearest first, `ref_count` and
`closure_owner_tid`. -/
structure Scope where
  outer : List EnvId
  refCount : Nat
  ownerTid : Nat
  deriving DecidableEq, Repr

structure Heap where
  scopes : EnvId → Option Scope
  next : EnvId
  /-- The root's closure chain, from `root->next_closure` on. -/
  chain : List EnvId
  /-- The environments of the calls that have not returned. -/
  frames : List EnvId
  vars : List VarEntry
  /-- The values that C variables hold. -/
  temps : List Value

def initial : Heap where
  scopes x := if x = 0 then some ⟨[], 0, 0⟩ else none
  next := 1
  chain := []
  frames := []
  vars := []
  temps := []

namespace Heap

def count (h : Heap) (x : EnvId) : Nat := ((h.scopes x).map Scope.refCount).getD 0

def ownerTid (h : Heap) (x : EnvId) : Nat := ((h.scopes x).map Scope.ownerTid).getD 0

/-- The environment and its parents, as `curr_env = curr_env->parent` visits them. -/
def path (h : Heap) (x : EnvId) : List EnvId := x :: ((h.scopes x).map Scope.outer).getD []

def temp (h : Heap) (i : Nat) : Value := h.temps.getD i .plain

def recount (h : Heap) (x : EnvId) (f : Nat → Nat) : Heap :=
  { h with scopes := fun y =>
      if y = x then (h.scopes y).map fun s => { s with refCount := f s.refCount }
      else h.scopes y }

end Heap

/-! The operations. -/

/-- `exprtk_env_retain`: only snapshots carry a count. -/
def envRetain (h : Heap) (x : EnvId) : Heap := h.recount x fun n => if 0 < n then n + 1 else n

/-- `exprtk_env_release`: the snapshot stays linked when its count reaches zero. -/
def envRelease (h : Heap) (x : EnvId) : Heap := h.recount x fun n => n - 1

/-- `exprtk_value_retain`, which is also what `exprtk_value_clone_to_env` does to a function. -/
def valueRetain (h : Heap) : Value → Heap × Value
  | .plain => (h, .plain)
  | .function none _ => (h, .function none .owned)
  | .function (some x) _ => (envRetain h x, .function (some x) .owned)

/-- `exprtk_value_store_to_env`: like `valueRetain`, but a function without a captured scope
keeps its mark. -/
def storeToEnv (h : Heap) : Value → Heap × Value
  | .plain => (h, .plain)
  | .function none o => (h, .function none o)
  | .function (some x) _ => (envRetain h x, .function (some x) .owned)

def valueBorrow : Value → Value
  | .plain => .plain
  | .function c _ => .function c .borrowed

/-- `exprtk_value_release_storage`: a function has no managed payload to release, and the
mark is rewritten whatever the type. -/
def releaseStorage : Value → Value
  | .plain => .plain
  | .function c _ => .function c .borrowed

/-- The test that the three release paths share: drop the captured scope of an owned function. -/
def releaseClosure (h : Heap) : Value → Heap
  | .function (some x) .owned => envRelease h x
  | _ => h

def valueDestroy (h : Heap) (v : Value) : Heap := releaseClosure h (releaseStorage v)

/-- `exprtk_release_value`, for the values of an environment that is freed. -/
def releaseValue (h : Heap) (v : Value) : Heap := releaseClosure h (releaseStorage v)

/-- `exprtk_env_release_stored_value`, for the value of an entry that is replaced. -/
def releaseStoredValue (h : Heap) (v : Value) : Heap := releaseClosure h v

/-- `exprtk_env_release_entry_value`. -/
def releaseEntryValue (h : Heap) (e : VarEntry) : Heap :=
  if e.isBorrowed then h else releaseStoredValue h e.value

/-- The entry of a name in one environment (`HTAB_FIND`). -/
def find (h : Heap) (env : EnvId) (name : String) : Option (Fin h.vars.length) :=
  h.vars.findFinIdx? fun e => e.env == env && e.name == name

/-- `exprtk_env_has_local_var`. -/
def hasLocal (h : Heap) (env : EnvId) (name : String) : Bool := (find h env name).isSome

/-- The body of `exprtk_env_set_local` and `exprtk_env_set_local_cloned`, which differ in how
the value is stored: the new value is stored before the old one is released. -/
def setLocalWith (store : Heap → Value → Heap × Value) (h : Heap) (env : EnvId)
    (name : String) (v : Value) : Heap :=
  match find h env name with
  | some i =>
    let e := h.vars.get i
    if e.isConstant then h
    else
      let (h₁, stored) := store h v
      let h₂ := releaseEntryValue h₁ e
      { h₂ with vars := h.vars.set i { e with value := stored, isBorrowed := false } }
  | none =>
    let (h₁, stored) := store h v
    { h₁ with vars := h.vars ++ [⟨env, name, stored, false, false⟩] }

/-- `exprtk_env_set_local`. -/
def setLocal : Heap → EnvId → String → Value → Heap := setLocalWith storeToEnv

/-- `exprtk_env_set_local_cloned`. -/
def setLocalCloned : Heap → EnvId → String → Value → Heap := setLocalWith valueRetain

/-- `exprtk_env_set_local_borrowed`: the entry takes no reference. -/
def setLocalBorrowed (h : Heap) (env : EnvId) (name : String) (v : Value) : Heap :=
  match find h env name with
  | some i =>
    let e := h.vars.get i
    if e.isConstant then h
    else
      let h₁ := releaseEntryValue h e
      { h₁ with vars := h.vars.set i { e with value := v, isBorrowed := true } }
  | none => { h with vars := h.vars ++ [⟨env, name, v, false, true⟩] }

/-- `exprtk_env_set`: the nearest environment that has the name, else this one. -/
def set (h : Heap) (env : EnvId) (name : String) (v : Value) : Heap :=
  match (h.path env).find? fun x => hasLocal h x name with
  | some x => setLocal h x name v
  | none => setLocal h env name v

/-- `exprtk_env_set_constant`. -/
def setConstant (h : Heap) (env : EnvId) (name : String) (v : Value) : Heap :=
  let h₁ := set h env name v
  match find h₁ env name with
  | some i => { h₁ with vars := h₁.vars.set i { h₁.vars.get i with isConstant := true } }
  | none => h₁

/-- `exprtk_env_get`, a borrowed view. -/
def get (h : Heap) (env : EnvId) (name : String) : Value :=
  match (h.path env).findSome? fun x => (find h x name).map fun i => (h.vars.get i).value with
  | some v => valueBorrow v
  | none => .plain

/-- One entry copied into the snapshot `new`, unless a nearer scope gave the name already. -/
def snapshotEntry (new : EnvId) (h : Heap) (e : VarEntry) : Heap :=
  if hasLocal h new e.name then h
  else
    let h₁ := setLocalCloned h new e.name e.value
    if e.isConstant then setConstant h₁ new e.name e.value else h₁

/-- The new snapshot is linked behind the outermost environment. Inside the call of a closure
that is the closure's own snapshot, whose link is in the root's chain. -/
def link (root new : EnvId) (chain : List EnvId) : List EnvId :=
  if root ∈ chain then chain.flatMap fun x => if x = root then [x, new] else [x]
  else new :: chain

/-- `exprtk_env_snapshot_names`; without names the whole environment is copied. -/
def snapshotNames (h : Heap) (env : EnvId) (names : Option (List String)) (tid : Nat) : Heap :=
  let new := h.next
  let wanted := fun e : VarEntry => names.all fun ns => ns.contains e.name
  let entries := (h.path env).flatMap fun x => h.vars.filter fun e => e.env == x && wanted e
  let root := (h.path env).getLastD env
  let h₁ := entries.foldl (snapshotEntry new) { h with next := new + 1 }
  { h₁ with
    scopes := fun y => if y = new then some ⟨[], 1, tid⟩ else h₁.scopes y
    chain := link root new h₁.chain }

def importEntry (frame : EnvId) (h : Heap) (e : VarEntry) : Heap :=
  if hasLocal h frame e.name || e.name == "this" then h
  else
    let h₁ := setLocal h frame e.name (valueBorrow e.value)
    if e.isConstant then setConstant h₁ frame e.name (valueBorrow e.value) else h₁

/-- `exprtk_env_import_vars`. -/
def importVars (h : Heap) (frame : EnvId) : Option EnvId → Heap
  | none => h
  | some c => (h.vars.filter fun e => e.env == c).foldl (importEntry frame) h

/-- `exprtk_env_free`: the values of the entries are released and the entries go. -/
def envFree (h : Heap) (x : EnvId) : Heap :=
  let h₁ := (h.vars.filter fun e => e.env == x && !e.isBorrowed).foldl
    (fun h e => releaseValue h e.value) h
  { h₁ with
    vars := h.vars.filter fun e => e.env != x
    scopes := fun y => if y = x then none else h₁.scopes y }

def reclone (h : Heap) (i : Nat) : Heap :=
  let (h₁, v) := valueRetain h (h.temp i)
  { h₁ with temps := h.temps.set i v }

inductive Flow where
  | normal
  | returned
  /-- The C variable that holds the thrown value. -/
  | thrown (error : Nat)
  deriving DecidableEq, Repr

/-- What `sweep` takes off the chain: snapshots of the calling thread that nothing but the
chain refers to, by their count. -/
def swept (h : Heap) (tid : Nat) : List EnvId :=
  h.chain.filter fun x => h.ownerTid x == tid && decide (h.count x ≤ 1)

/-- `exprtk_env_sweep_closures`: all are unlinked before the first is freed. -/
def sweepClosures (h : Heap) (tid : Nat) : Heap :=
  (swept h tid).reverse.foldl envFree { h with chain := h.chain.filter fun x => !(swept h tid).contains x }

inductive Op where
  /-- A function expression evaluated in an environment, by a thread. -/
  | capture (env : EnvId) (names : Option (List String)) (tid : Nat)
  /-- `exprtk_value_retain` of a value, into another variable. -/
  | copy (i : Nat)
  /-- `exprtk_value_borrow` of a value, into another variable. -/
  | borrow (i : Nat)
  /-- A variable read. -/
  | get (env : EnvId) (name : String)
  | setLocal (env : EnvId) (name : String) (i : Nat)
  | setLocalBorrowed (env : EnvId) (name : String) (i : Nat)
  | set (env : EnvId) (name : String) (i : Nat)
  | setConstant (env : EnvId) (name : String) (i : Nat)
  /-- `exprtk_value_destroy` of what a variable holds. -/
  | destroy (i : Nat)
  /-- A C variable that goes out of scope as it is. -/
  | discard (i : Nat)
  /-- The call of a function value from an environment, up to the body. A named script
  function is called the same way and has captured nothing. -/
  | enter (i : Nat) (caller : EnvId)
  /-- The end of a call; the variable `result` holds the value of the body. -/
  | leave (frame : EnvId) (result : Nat) (flow : Flow)
  | sweep (tid : Nat)
  deriving DecidableEq, Repr

/-- The C variable `i` is emptied. -/
def clearTemp (h : Heap) (i : Nat) : Heap := { h with temps := h.temps.set i .plain }

def pushTemp (h : Heap) (v : Value) : Heap := { h with temps := h.temps ++ [v] }

/-- `exprtk_call_function_value` up to the evaluation of the body: the frame's parent is the
captured scope, whose variables are imported. -/
def enter (h : Heap) (v : Value) (caller : EnvId) : Heap :=
  let frame := h.next
  let parent := v.closureEnv.getD caller
  importVars { h with
      next := frame + 1
      frames := frame :: h.frames
      scopes := fun y => if y = frame then some ⟨h.path parent, 0, 0⟩ else h.scopes y }
    frame v.closureEnv

/-- The end of `eval_script_function`. The value of the body is cloned for the caller. After
a `return` the result is that value's clone once more, because the statement left its value
in `return_value` as well; after a `throw` the error is cloned too. -/
def leave (h : Heap) (frame : EnvId) (result : Nat) (flow : Flow) : Heap :=
  let h₁ := reclone h result
  let h₂ := match flow with
    | .normal => h₁
    | .returned => reclone h₁ result
    | .thrown error => reclone h₁ error
  envFree { h₂ with frames := h₂.frames.erase frame } frame

def step (h : Heap) : Op → Heap
  | .capture env names tid =>
    pushTemp (snapshotNames h env names tid) (.function (some h.next) .borrowed)
  | .copy i =>
    let (h₁, v) := valueRetain h (h.temp i)
    pushTemp h₁ v
  | .borrow i => pushTemp h (valueBorrow (h.temp i))
  | .get env name => pushTemp h (get h env name)
  | .setLocal env name i => setLocal h env name (h.temp i)
  | .setLocalBorrowed env name i => setLocalBorrowed h env name (h.temp i)
  | .set env name i => set h env name (h.temp i)
  | .setConstant env name i => setConstant h env name (h.temp i)
  | .destroy i => clearTemp (valueDestroy h (h.temp i)) i
  | .discard i => clearTemp h i
  | .enter i caller => enter h (h.temp i) caller
  | .leave frame result flow => if frame ∈ h.frames then leave h frame result flow else h
  | .sweep tid => sweepClosures h tid

def run (ops : List Op) : Heap := ops.foldl step initial
/-! What the counts are for. -/

/-- An entry that owns a reference to the snapshot `x`. -/
def entryOwns (x : EnvId) (e : VarEntry) : Bool := !e.isBorrowed && owns x e.value

/-- The live holders that own a reference to the snapshot `x`. -/
def owners (h : Heap) (x : EnvId) : Nat :=
  h.temps.countP (owns x) + h.vars.countP (entryOwns x)

def live (h : Heap) : List Value := h.temps ++ h.vars.map VarEntry.value

structure Sound (h : Heap) : Prop where
  /-- One for the chain and one for each owner. -/
  counted : ∀ x ∈ h.chain, h.count x = 1 + owners h x
  /-- No live function value refers to a snapshot that was freed. -/
  alive : ∀ v ∈ live h, ∀ x, v.closureEnv = some x → x ∈ h.chain
  /-- A sweep only frees what has no owner, -/
  spared : ∀ tid, ∀ x ∈ h.chain, x ∉ (sweepClosures h tid).chain → owners h x = 0
  /-- and what no live function value refers to goes at the next sweep of its thread. -/
  reclaimed : ∀ x ∈ h.chain, (∀ v ∈ live h, refers x v = false) →
    x ∉ (sweepClosures h (h.ownerTid x)).chain

/-- The owned references to the snapshot `x` that a step lets go of without releasing them. -/
def givenUp (h : Heap) (x : EnvId) : Op → Nat
  | .destroy i | .discard i => (owns x (h.temp i)).toNat
  | .leave frame result flow =>
    if frame ∈ h.frames then
      (owns x (h.temp result)).toNat + (match flow with
          | .normal => 0
          -- the clone of the first time is overwritten by the second
          | .returned => (refers x (h.temp result)).toNat
          | .thrown error =>
            if error = result then (refers x (h.temp result)).toNat
            else (owns x (h.temp error)).toNat) +
        h.vars.countP fun e => e.env == frame && entryOwns x e
    else 0
  | .sweep tid => h.vars.countP fun e => (swept h tid).contains e.env && entryOwns x e
  | _ => 0

/-- The step gives up no owned reference; and if it sweeps, no live function value outside the
snapshots it frees refers to one of them. -/
def Careful (h : Heap) (op : Op) : Prop :=
  (∀ x ∈ h.chain, givenUp h x op = 0) ∧ ∀ tid, op = .sweep tid → ∀ x ∈ swept h tid,
      (∀ v ∈ h.temps, refers x v = false) ∧ ∀ e ∈ h.vars, e.env ∉ swept h tid → refers x e.value = false

/-! Counts and owners under each primitive. -/

section Primitives
variable {h : Heap} {x y : EnvId} {v : Value}

structure SameCells (h h' : Heap) : Prop where
  next : h'.next = h.next
  chain : h'.chain = h.chain
  frames : h'.frames = h.frames
  vars : h'.vars = h.vars
  temps : h'.temps = h.temps

theorem SameCells.refl (h : Heap) : SameCells h h := ⟨rfl, rfl, rfl, rfl, rfl⟩

theorem SameCells.trans {h h' h'' : Heap} (a : SameCells h h') (b : SameCells h' h'') : SameCells h h'' :=
  ⟨b.next.trans a.next, b.chain.trans a.chain, b.frames.trans a.frames, b.vars.trans a.vars,
    b.temps.trans a.temps⟩

theorem recount_same (f : Nat → Nat) : SameCells h (h.recount x f) := ⟨rfl, rfl, rfl, rfl, rfl⟩

theorem count_recount {f : Nat → Nat} (hf : f 0 = 0) :
    (h.recount x f).count y = if y = x then f (h.count y) else h.count y := by
  unfold Heap.count Heap.recount
  by_cases hy : y = x
  · simp only [hy, if_true]
    cases h.scopes x with
    | none => exact hf.symm
    | some s => rfl
  · simp only [hy, if_false]

theorem count_envRetain (hc : 0 < h.count y) : (envRetain h x).count y = h.count y + (x == y).toNat := by
  unfold envRetain
  rw [count_recount (by simp)]
  by_cases hy : y = x
  · simp [hy, hy ▸ hc]
  · simp [hy, Ne.symm hy]

theorem count_envRelease : (envRelease h x).count y = h.count y - (x == y).toNat := by
  unfold envRelease
  rw [count_recount rfl]
  by_cases hy : y = x
  · simp [hy]
  · have : (x == y) = false := beq_eq_false_iff_ne.2 (Ne.symm hy)
    rw [if_neg hy, this]
    rfl

theorem releaseClosure_same : SameCells h (releaseClosure h v) := by
  unfold releaseClosure
  split
  · exact recount_same _
  · exact SameCells.refl h

theorem count_releaseClosure : (releaseClosure h v).count x = h.count x - (owns x v).toNat := by
  unfold releaseClosure
  split
  · exact count_envRelease
  next hv =>
    have : owns x v = false := by
      unfold owns
      split
      · exact absurd rfl (hv _)
      · rfl
    rw [this]
    rfl

/-- What the two ways to store a value have in common: a function that refers to a snapshot
comes out as one more owner of it. -/
structure Stores (store : Heap → Value → Heap × Value) : Prop where
  same : ∀ h v, SameCells h (store h v).1
  count : ∀ h v x, 0 < h.count x → (store h v).1.count x = h.count x + (refers x v).toNat
  owns : ∀ h v x, owns x (store h v).2 = refers x v
  closureEnv : ∀ h v, (store h v).2.closureEnv = v.closureEnv

theorem valueRetain_stores : Stores valueRetain where
  same h v := by
    unfold valueRetain
    split
    · exact SameCells.refl h
    · exact SameCells.refl h
    · exact recount_same fun n => if 0 < n then n + 1 else n
  count h v x hx := by
    unfold valueRetain
    split
    · rfl
    · rfl
    · exact count_envRetain hx
  owns h v x := by
    unfold valueRetain
    split <;> rfl
  closureEnv h v := by
    unfold valueRetain
    split <;> rfl

theorem storeToEnv_stores : Stores storeToEnv where
  same h v := by
    unfold storeToEnv
    split
    · exact SameCells.refl h
    · exact SameCells.refl h
    · exact recount_same fun n => if 0 < n then n + 1 else n
  count h v x hx := by
    unfold storeToEnv
    split
    · rfl
    · rfl
    · exact count_envRetain hx
  owns h v x := by
    unfold storeToEnv
    split <;> rfl
  closureEnv h v := by
    unfold storeToEnv
    split <;> rfl

theorem owns_refers (hv : owns x v = true) : refers x v = true := by
  unfold owns at hv
  split at hv
  · exact beq_iff_eq.2 (congrArg some (beq_iff_eq.1 hv))
  · cases hv

theorem valueBorrow_closureEnv : (valueBorrow v).closureEnv = v.closureEnv := by
  cases v <;> rfl

theorem get_closureEnv {env : EnvId} {name : String} (hx : (get h env name).closureEnv = some x) :
    ∃ e ∈ h.vars, e.value.closureEnv = some x := by
  unfold get at hx
  split at hx
  next v hv =>
    obtain ⟨y, -, hy⟩ := List.exists_of_findSome?_eq_some hv
    obtain ⟨i, -, rfl⟩ := Option.map_eq_some_iff.1 hy
    exact ⟨h.vars.get i, List.get_mem _ i, valueBorrow_closureEnv.symm.trans hx⟩
  next => cases hx

theorem owns_valueBorrow : owns x (valueBorrow v) = false := by
  cases v with
  | plain => rfl
  | function c o => cases c <;> rfl

theorem owns_get {env : EnvId} {name : String} : owns x (get h env name) = false := by
  unfold get
  split
  · exact owns_valueBorrow
  · rfl

theorem releaseClosure_releaseStorage : releaseClosure h (releaseStorage v) = h := by
  cases v with
  | plain => rfl
  | function c o => cases c <;> rfl

end Primitives

/-! The accounts. -/

/-- The count of each snapshot of the chain is one, its owners, and what was given up (`k`).
Every function value that is held refers to a scope in `P`. -/
structure Accounts (k : EnvId → Nat) (P : EnvId → Prop) (h : Heap) : Prop where
  balanced : ∀ x ∈ h.chain, h.count x = 1 + owners h x + k x
  within : ∀ v ∈ live h, ∀ x, v.closureEnv = some x → P x

section Accounts
variable {h : Heap} {k : EnvId → Nat} {P Q : EnvId → Prop} {v : Value}

theorem Accounts.mono (ha : Accounts k P h) (hq : ∀ x, P x → Q x) : Accounts k Q h :=
  ⟨ha.balanced, fun v hv x hx => hq x (ha.within v hv x hx)⟩

theorem Accounts.congr (ha : Accounts k P h) {k' : EnvId → Nat}
    (hk : ∀ x ∈ h.chain, k' x = k x) : Accounts k' P h :=
  ⟨fun x hx => (hk x hx).symm ▸ ha.balanced x hx, ha.within⟩

variable {x : EnvId} {e : VarEntry} {h' : Heap}

theorem Accounts.pos (ha : Accounts k P h) (hx : x ∈ h.chain) : 0 < h.count x := by
  rw [ha.balanced x hx]
  omega

theorem mem_live_temp {i : Nat} (hv : h.temp i ≠ .plain) : h.temp i ∈ live h := by
  unfold Heap.temp at hv ⊢
  by_cases hi : i < h.temps.length
  · rw [List.getD_eq_getElem _ _ hi]
    exact List.mem_append_left _ (List.getElem_mem hi)
  · exact absurd (List.getD_eq_default _ _ (by omega)) hv

theorem mem_live_var (he : e ∈ h.vars) : e.value ∈ live h :=
  List.mem_append_right _ (List.mem_map_of_mem he)

theorem Accounts.temp (ha : Accounts k P h) (i : Nat) (hx : (h.temp i).closureEnv = some x) :
    P x := by
  apply ha.within _ (mem_live_temp ?_) x hx
  intro hp
  rw [hp] at hx
  cases hx

theorem owners_eq_zero (hn : ∀ v ∈ live h, v.closureEnv ≠ some x) : owners h x = 0 := by
  have hv : ∀ v ∈ live h, ¬owns x v = true := by
    intro v hm ho
    exact hn v hm (beq_iff_eq.1 (owns_refers ho))
  have ht : h.temps.countP (owns x) = 0 :=
    List.countP_eq_zero.2 fun v hm => hv v (List.mem_append_left _ hm)
  have he : h.vars.countP (entryOwns x) = 0 := by
    apply List.countP_eq_zero.2
    intro e hm ho
    exact hv _ (mem_live_var hm) (Bool.and_eq_true_iff.1 ho).2
  unfold owners
  rw [ht, he]

theorem ite_eq_toNat (b : Bool) : (if b = true then 1 else 0) = b.toNat := by
  cases b <;> rfl

theorem Accounts.setEntry (ha : Accounts k P h) (i : Fin h.vars.length) (hc : h'.chain = h.chain)
    (ht : h'.temps = h.temps) (hv : h'.vars = h.vars.set i e) (hn : ∀ x ∈ h.chain, h'.count x =
      h.count x + (entryOwns x e).toNat - (entryOwns x (h.vars.get i)).toNat)
    (hp : ∀ x, e.value.closureEnv = some x → P x) : Accounts k P h' := by
  refine ⟨?_, ?_⟩
  · intro x hx
    rw [hc] at hx
    have hb := ha.balanced x hx
    rw [hn x hx, hb]
    unfold owners
    rw [ht, hv, List.countP_set i.isLt]
    have hle : (entryOwns x (h.vars.get i)).toNat ≤ h.vars.countP (entryOwns x) := by
      cases ho : entryOwns x (h.vars.get i) with
      | false => exact Nat.zero_le _
      | true => exact List.countP_pos_iff.2 ⟨_, List.get_mem _ _, ho⟩
    simp only [List.get_eq_getElem] at hle ⊢
    rw [ite_eq_toNat, ite_eq_toNat]
    omega
  · intro w hw
    unfold live at hw
    rw [ht, hv] at hw
    rcases List.mem_append.1 hw with hw | hw
    · exact ha.within w (List.mem_append_left _ hw)
    · obtain ⟨a, hm, rfl⟩ := List.mem_map.1 hw
      rcases List.mem_or_eq_of_mem_set hm with hm | rfl
      · exact ha.within _ (mem_live_var hm)
      · exact hp

theorem Accounts.addEntry (ha : Accounts k P h) (hc : h'.chain = h.chain)
    (ht : h'.temps = h.temps) (hv : h'.vars = h.vars ++ [e])
    (hn : ∀ x ∈ h.chain, h'.count x = h.count x + (entryOwns x e).toNat)
    (hp : ∀ x, e.value.closureEnv = some x → P x) : Accounts k P h' := by
  refine ⟨?_, ?_⟩
  · intro x hx
    rw [hc] at hx
    rw [hn x hx, ha.balanced x hx]
    unfold owners
    rw [ht, hv, List.countP_append, List.countP_singleton, ite_eq_toNat]
    omega
  · intro w hw
    unfold live at hw
    rw [ht, hv, List.map_append] at hw
    rcases List.mem_append.1 hw with hw | hw
    · exact ha.within w (List.mem_append_left _ hw)
    · rcases List.mem_append.1 hw with hw | hw
      · exact ha.within w (List.mem_append_right _ hw)
      · rw [List.mem_singleton.1 hw]
        exact hp

theorem Accounts.push (ha : Accounts k P h) (hc : h'.chain = h.chain) (hv : h'.vars = h.vars)
    (ht : h'.temps = h.temps ++ [v])
    (hn : ∀ x ∈ h.chain, h'.count x = h.count x + (owns x v).toNat)
    (hp : ∀ x, v.closureEnv = some x → P x) : Accounts k P h' := by
  refine ⟨?_, ?_⟩
  · intro x hx
    rw [hc] at hx
    rw [hn x hx, ha.balanced x hx]
    unfold owners
    rw [ht, hv, List.countP_append, List.countP_singleton, ite_eq_toNat]
    omega
  · intro w hw
    unfold live at hw
    rw [ht, hv, List.append_assoc] at hw
    rcases List.mem_append.1 hw with hw | hw
    · exact ha.within w (List.mem_append_left _ hw)
    · rcases List.mem_append.1 hw with hw | hw
      · rw [List.mem_singleton.1 hw]
        exact hp
      · exact ha.within w (List.mem_append_right _ hw)

/-! Each operation keeps the accounts, or gives up what `givenUp` says. -/

structure SameLinks (h h' : Heap) : Prop where
  next : h'.next = h.next
  chain : h'.chain = h.chain
  frames : h'.frames = h.frames
  temps : h'.temps = h.temps

theorem SameLinks.refl (h : Heap) : SameLinks h h := ⟨rfl, rfl, rfl, rfl⟩

theorem SameLinks.trans {h h'' : Heap} (a : SameLinks h h') (b : SameLinks h' h'') : SameLinks h h'' :=
  ⟨b.next.trans a.next, b.chain.trans a.chain, b.frames.trans a.frames, b.temps.trans a.temps⟩

theorem SameCells.links {h : Heap} (a : SameCells h h') : SameLinks h h' :=
  ⟨a.next, a.chain, a.frames, a.temps⟩

theorem releaseEntryValue_same (e : VarEntry) : SameCells h (releaseEntryValue h e) := by
  unfold releaseEntryValue
  split
  · exact SameCells.refl h
  · exact releaseClosure_same

theorem count_releaseEntryValue (e : VarEntry) (x : EnvId) :
    (releaseEntryValue h e).count x = h.count x - (entryOwns x e).toNat := by
  unfold releaseEntryValue entryOwns
  split
  next hb => simp [hb]
  next hb =>
    rw [Bool.eq_false_iff.2 hb]
    exact count_releaseClosure

theorem setLocalWith_links {store : Heap → Value → Heap × Value} (hs : Stores store)
    (env : EnvId) (name : String) : SameLinks h (setLocalWith store h env name v) := by
  unfold setLocalWith
  split
  next i _ =>
    dsimp only
    split
    · exact SameLinks.refl h
    · have := ((hs.same h v).trans (releaseEntryValue_same (h.vars.get i))).links
      exact ⟨this.next, this.chain, this.frames, this.temps⟩
  next =>
    have := (hs.same h v).links
    exact ⟨this.next, this.chain, this.frames, this.temps⟩

theorem setLocalWith_accounts {store : Heap → Value → Heap × Value} (hs : Stores store)
    (ha : Accounts k P h) (hp : ∀ x, v.closureEnv = some x → P x) (env : EnvId) (name : String) :
    Accounts k P (setLocalWith store h env name v) := by
  unfold setLocalWith
  split
  next i _ =>
    dsimp only
    split
    · exact ha
    · have hs' := (hs.same h v).trans (releaseEntryValue_same (h.vars.get i))
      refine Accounts.setEntry ha i hs'.chain hs'.temps rfl ?_ ?_
      · intro x hx
        show (releaseEntryValue _ _).count x = _
        rw [count_releaseEntryValue, hs.count h v x (ha.pos hx)]
        simp only [entryOwns, hs.owns, Bool.not_false, Bool.true_and]
      · intro x hx
        exact hp x ((hs.closureEnv h v).symm.trans hx)
  next =>
    refine Accounts.addEntry ha (hs.same h v).chain (hs.same h v).temps rfl ?_ ?_
    · intro x hx
      show (store h v).1.count x = _
      rw [hs.count h v x (ha.pos hx)]
      simp only [entryOwns, hs.owns, Bool.not_false, Bool.true_and]
    · intro x hx
      exact hp x ((hs.closureEnv h v).symm.trans hx)

theorem setLocalBorrowed_links (env : EnvId) (name : String) :
    SameLinks h (setLocalBorrowed h env name v) := by
  unfold setLocalBorrowed
  split
  next i _ =>
    dsimp only
    split
    · exact SameLinks.refl h
    · have := (releaseEntryValue_same (h := h) (h.vars.get i)).links
      exact ⟨this.next, this.chain, this.frames, this.temps⟩
  · exact ⟨rfl, rfl, rfl, rfl⟩

theorem setLocalBorrowed_accounts (ha : Accounts k P h)
    (hp : ∀ x, v.closureEnv = some x → P x) (env : EnvId) (name : String) :
    Accounts k P (setLocalBorrowed h env name v) := by
  unfold setLocalBorrowed
  split
  next i _ =>
    dsimp only
    split
    · exact ha
    · have hs := releaseEntryValue_same (h := h) (h.vars.get i)
      refine ha.setEntry i hs.chain hs.temps rfl ?_ hp
      intro x _
      exact count_releaseEntryValue _ x
  next => exact ha.addEntry rfl rfl rfl (fun x _ => rfl) hp

theorem set_links (env : EnvId) (name : String) : SameLinks h (set h env name v) := by
  unfold set
  split
  · exact setLocalWith_links storeToEnv_stores _ _
  · exact setLocalWith_links storeToEnv_stores _ _

theorem set_accounts (ha : Accounts k P h) (hp : ∀ x, v.closureEnv = some x → P x)
    (env : EnvId) (name : String) : Accounts k P (set h env name v) := by
  unfold set
  split
  · exact setLocalWith_accounts storeToEnv_stores ha hp _ _
  · exact setLocalWith_accounts storeToEnv_stores ha hp _ _

theorem setConstant_links (env : EnvId) (name : String) : SameLinks h (setConstant h env name v) := by
  have hs : SameLinks h (set h env name v) := set_links env name
  unfold setConstant
  dsimp only
  split
  · exact ⟨hs.next, hs.chain, hs.frames, hs.temps⟩
  · exact hs

theorem setConstant_accounts (ha : Accounts k P h) (hp : ∀ x, v.closureEnv = some x → P x)
    (env : EnvId) (name : String) : Accounts k P (setConstant h env name v) := by
  have hs : Accounts k P (set h env name v) := set_accounts ha hp env name
  unfold setConstant
  dsimp only
  split
  next i _ =>
    -- only the mark of the entry changes
    refine Accounts.setEntry hs i rfl rfl rfl ?_ ?_
    · intro x _
      exact (Nat.add_sub_cancel ..).symm
    · intro x hx
      exact hs.within ((set h env name v).vars.get i).value (mem_live_var (List.get_mem _ i)) x hx
  next => exact hs

theorem snapshotEntry_links (new : EnvId) (e : VarEntry) : SameLinks h (snapshotEntry new h e) := by
  have hs : SameLinks h (setLocalCloned h new e.name e.value) :=
    setLocalWith_links valueRetain_stores _ _
  unfold snapshotEntry
  split
  · exact SameLinks.refl h
  · dsimp only
    split
    · exact hs.trans (setConstant_links _ _)
    · exact hs

theorem snapshotEntry_accounts (ha : Accounts k P h) (hp : ∀ x, e.value.closureEnv = some x → P x)
    (new : EnvId) :
    Accounts k P (snapshotEntry new h e) := by
  have hs : Accounts k P (setLocalCloned h new e.name e.value) :=
    setLocalWith_accounts valueRetain_stores ha hp _ _
  unfold snapshotEntry
  split
  · exact ha
  · dsimp only
    split
    · exact setConstant_accounts hs hp _ _
    · exact hs

theorem importEntry_links (frame : EnvId) (e : VarEntry) : SameLinks h (importEntry frame h e) := by
  have hs : SameLinks h (setLocal h frame e.name (valueBorrow e.value)) :=
    setLocalWith_links storeToEnv_stores _ _
  unfold importEntry
  split
  · exact SameLinks.refl h
  · dsimp only
    split
    · exact hs.trans (setConstant_links _ _)
    · exact hs

theorem importEntry_accounts (ha : Accounts k P h) (hp : ∀ x, e.value.closureEnv = some x → P x)
    (frame : EnvId) :
    Accounts k P (importEntry frame h e) := by
  have hp' : ∀ x, (valueBorrow e.value).closureEnv = some x → P x := by
    intro x hx
    exact hp x (valueBorrow_closureEnv.symm.trans hx)
  have hs : Accounts k P (setLocal h frame e.name (valueBorrow e.value)) :=
    setLocalWith_accounts storeToEnv_stores ha hp' _ _
  unfold importEntry
  split
  · exact ha
  · dsimp only
    split
    · exact setConstant_accounts hs hp' _ _
    · exact hs

theorem foldl_entries {f : Heap → VarEntry → Heap} (hl : ∀ h e, SameLinks h (f h e))
    (hf : ∀ h e, Accounts k P h → (∀ x, e.value.closureEnv = some x → P x) → Accounts k P (f h e))
    (es : List VarEntry) (hp : ∀ e ∈ es, ∀ x, e.value.closureEnv = some x → P x) :
    ∀ h, Accounts k P h → SameLinks h (es.foldl f h) ∧ Accounts k P (es.foldl f h) := by
  induction es with
  | nil =>
    intro h ha
    exact ⟨SameLinks.refl h, ha⟩
  | cons e es ih =>
    intro h ha
    have h₁ := hf h e ha (hp e (List.mem_cons_self ..))
    have h₂ := ih (fun a hm => hp a (List.mem_cons_of_mem _ hm)) (f h e) h₁
    exact ⟨(hl h e).trans h₂.1, h₂.2⟩

theorem mem_link {root new : EnvId} {chain : List EnvId} :
    x ∈ link root new chain ↔ x = new ∨ x ∈ chain := by
  unfold link
  split
  next hr =>
    constructor
    · intro hx
      obtain ⟨y, hy, hm⟩ := List.mem_flatMap.1 hx
      split at hm
      · rcases List.mem_cons.1 hm with rfl | hm
        · exact .inr hy
        · exact .inl (List.mem_singleton.1 hm)
      · exact .inr (List.mem_singleton.1 hm ▸ hy)
    · rintro (rfl | hx)
      · exact List.mem_flatMap.2 ⟨root, hr, by simp⟩
      · refine List.mem_flatMap.2 ⟨x, hx, ?_⟩
        split
        · exact List.mem_cons_self ..
        · exact List.mem_cons_self ..
  next => exact List.mem_cons

/-- What the links of a heap keep to: everything linked was allocated, and frames are not
snapshots. -/
structure Linked (h : Heap) : Prop where
  chain : ∀ x ∈ h.chain, x < h.next
  frames : ∀ x ∈ h.frames, x < h.next
  apart : ∀ x ∈ h.frames, x ∉ h.chain

theorem Linked.grow (hl : Linked h) (hn : h.next ≤ h'.next)
    (hc : ∀ x ∈ h'.chain, x ∈ h.chain ∨ x = h.next ∧ h.next < h'.next)
    (hf : ∀ x ∈ h'.frames, x ∈ h.frames ∨ x = h.next ∧ h.next < h'.next)
    (ho : h.next ∉ h'.chain ∨ h.next ∉ h'.frames) : Linked h' := by
  refine ⟨?_, ?_, ?_⟩
  · intro x hx
    rcases hc x hx with hx | ⟨rfl, hlt⟩
    · exact Nat.lt_of_lt_of_le (hl.chain x hx) hn
    · exact hlt
  · intro x hx
    rcases hf x hx with hx | ⟨rfl, hlt⟩
    · exact Nat.lt_of_lt_of_le (hl.frames x hx) hn
    · exact hlt
  · intro x hx hm
    rcases hf x hx with hx' | ⟨rfl, -⟩
    · rcases hc x hm with hm' | ⟨rfl, -⟩
      · exact hl.apart x hx' hm'
      · exact Nat.lt_irrefl _ (hl.frames _ hx')
    · exact ho.elim (fun h => h hm) fun h => h hx

theorem Linked.same (hl : Linked h) (hn : h'.next = h.next) (hc : h'.chain = h.chain)
    (hf : h'.frames = h.frames) : Linked h' := by
  refine ⟨?_, ?_, ?_⟩
  · rw [hc, hn]
    exact hl.chain
  · rw [hf, hn]
    exact hl.frames
  · rw [hf, hc]
    exact hl.apart

theorem Linked.links (hl : Linked h) (hs : SameLinks h h') : Linked h' :=
  hl.same hs.next hs.chain hs.frames

theorem snapshotNames_accounts (hl : Linked h) (ha : Accounts k P h)
    (hP : ∀ x, P x → x < h.next) (env : EnvId) (names : Option (List String)) (tid : Nat) :
    let h' := snapshotNames h env names tid
    Accounts (fun x => if x ∈ h.chain then k x else 0) P h' ∧
      (∀ x, x ∈ h'.chain ↔ x = h.next ∨ x ∈ h.chain) ∧
      h'.next = h.next + 1 ∧ h'.frames = h.frames ∧ h'.temps = h.temps := by
  intro h'
  let entries := (h.path env).flatMap fun x => h.vars.filter fun e =>
    e.env == x && names.all fun ns => ns.contains e.name
  have hp : ∀ e ∈ entries, ∀ x, e.value.closureEnv = some x → P x := by
    intro e he
    obtain ⟨y, _, hm⟩ := List.mem_flatMap.1 he
    exact ha.within _ (mem_live_var (List.mem_filter.1 hm).1)
  have ha₀ : Accounts k P { h with next := h.next + 1 } := ⟨ha.balanced, ha.within⟩
  obtain ⟨hs, ha₁⟩ := foldl_entries (fun _ e => snapshotEntry_links h.next e)
    (fun _ _ ha hp => snapshotEntry_accounts ha hp h.next) entries hp _ ha₀
  have hmem : ∀ x, x ∈ h'.chain ↔ x = h.next ∨ x ∈ h.chain := by
    intro x
    show x ∈ link _ h.next (entries.foldl (snapshotEntry h.next) _).chain ↔ _
    rw [mem_link, hs.chain]
  refine ⟨⟨?_, ha₁.within⟩, hmem, hs.next, hs.frames, hs.temps⟩
  intro x hx
  rcases (hmem x).1 hx with rfl | hx
  · -- nothing refers to an environment that did not exist
    have hn : h.next ∉ h.chain := fun hm => Nat.lt_irrefl _ (hl.chain _ hm)
    have ho : owners h' h.next = 0 := by
      apply owners_eq_zero
      intro v hv he
      exact Nat.lt_irrefl _ (hP _ (ha₁.within v hv _ he))
    rw [if_neg hn, ho]
    show h'.count h.next = 1
    unfold Heap.count
    show ((if h.next = h.next then _ else _ : Option Scope).map _).getD 0 = 1
    rw [if_pos rfl]
    rfl
  · have hne : x ≠ h.next := fun he => Nat.lt_irrefl _ (he ▸ hl.chain x hx)
    rw [if_pos hx]
    have hb := ha₁.balanced x (hs.chain.symm ▸ hx)
    show h'.count x = 1 + owners h' x + k x
    have hc : h'.count x = (entries.foldl (snapshotEntry h.next) { h with next := h.next + 1 }).count x := by
      show ((if x = h.next then _ else _ : Option Scope).map _).getD 0 = _
      rw [if_neg hne]
      rfl
    rw [hc]
    exact hb

/-! Giving up: cells that are emptied or overwritten, and environments that are freed. -/

theorem countP_split {α : Type} (p q : α → Bool) (l : List α) :
    l.countP p = (l.filter q).countP p + l.countP fun a => !q a && p a := by
  induction l with
  | nil => rfl
  | cons a l ih =>
    rw [List.countP_cons, List.countP_cons, ih]
    cases hq : q a with
    | true =>
      rw [List.filter_cons_of_pos hq, List.countP_cons]
      simp
      omega
    | false =>
      rw [List.filter_cons_of_neg (by simp [hq])]
      simp
      omega

theorem foldl_releaseValue (es : List VarEntry) : es.foldl (fun h e => releaseValue h e.value) h = h := by
  induction es with
  | nil => rfl
  | cons e es ih =>
    rw [List.foldl_cons]
    show es.foldl _ (releaseClosure h (releaseStorage e.value)) = h
    rw [releaseClosure_releaseStorage]
    exact ih

theorem envFree_eq (x : EnvId) : envFree h x = { h with
      vars := h.vars.filter fun e => e.env != x
      scopes := fun y => if y = x then none else h.scopes y } := by
  unfold envFree
  rw [foldl_releaseValue]

theorem foldl_envFree (xs : List EnvId) : ∀ h : Heap, xs.foldl envFree h = { h with
      vars := h.vars.filter fun e => !xs.contains e.env
      scopes := fun y => if y ∈ xs then none else h.scopes y } := by
  induction xs with
  | nil =>
    intro h
    have hv : (h.vars.filter fun e => !([] : List EnvId).contains e.env) = h.vars :=
      List.filter_eq_self.2 fun _ _ => rfl
    rw [hv]
    simp
  | cons x xs ih =>
    intro h
    rw [List.foldl_cons, ih, envFree_eq]
    simp only [List.filter_filter]
    congr 1
    · funext y
      by_cases hy : y = x
      · simp [hy]
      · simp [hy]
    · apply List.filter_congr
      intro e _
      cases hx : e.env == x <;> simp_all [bne]

theorem Accounts.free (ha : Accounts k P h) (xs : List EnvId) (hx : ∀ x ∈ xs, x ∉ h.chain) : Accounts
      (fun y => k y + h.vars.countP fun e => xs.contains e.env && entryOwns y e) P
      (xs.foldl envFree h) := by
  rw [foldl_envFree]
  refine ⟨?_, ?_⟩
  · intro y hy
    have hy' : y ∉ xs := fun hm => hx y hm hy
    have hb := ha.balanced y hy
    have hc : Heap.count { h with
          vars := h.vars.filter fun e => !xs.contains e.env
          scopes := fun y => if y ∈ xs then none else h.scopes y } y = h.count y := by
      unfold Heap.count
      simp only [if_neg hy']
    rw [hc, hb]
    unfold owners
    have hs := countP_split (entryOwns y) (fun e => !xs.contains e.env) h.vars
    simp only [Bool.not_not] at hs
    dsimp only
    omega
  · intro v hv
    apply ha.within v
    rcases List.mem_append.1 hv with hv | hv
    · exact List.mem_append_left _ hv
    · obtain ⟨e, hm, rfl⟩ := List.mem_map.1 hv
      exact mem_live_var (List.mem_filter.1 hm).1

theorem Accounts.overwrite (ha : Accounts k P h) (i : Nat) (hc : h'.chain = h.chain)
    (hv : h'.vars = h.vars) (ht : h'.temps = h.temps.set i v)
    (hi : h.temps.length ≤ i → v = .plain)
    (hn : ∀ x ∈ h.chain, h'.count x = h.count x + (owns x v).toNat)
    (hp : ∀ x, v.closureEnv = some x → P x) :
    Accounts (fun x => k x + (owns x (h.temp i)).toNat) P h' := by
  refine ⟨?_, ?_⟩
  · intro x hx
    rw [hc] at hx
    rw [hn x hx, ha.balanced x hx]
    unfold owners
    rw [ht, hv]
    by_cases hlt : i < h.temps.length
    · have hg : h.temp i = h.temps[i] := List.getD_eq_getElem _ _ hlt
      have hle : (owns x h.temps[i]).toNat ≤ h.temps.countP (owns x) := by
        cases ho : owns x h.temps[i] with
        | false => exact Nat.zero_le _
        | true => exact List.countP_pos_iff.2 ⟨_, List.getElem_mem hlt, ho⟩
      rw [List.countP_set hlt, ite_eq_toNat, ite_eq_toNat, hg]
      omega
    · have hg : h.temp i = .plain := List.getD_eq_default _ _ (by omega)
      rw [List.set_eq_of_length_le (by omega), hg, hi (by omega)]
      show _ + 0 = _ + (_ + 0)
      omega
  · intro w hw
    unfold live at hw
    rw [ht, hv] at hw
    rcases List.mem_append.1 hw with hw | hw
    · rcases List.mem_or_eq_of_mem_set hw with hw | rfl
      · exact ha.within w (List.mem_append_left _ hw)
      · exact hp
    · exact ha.within w (List.mem_append_right _ hw)

theorem reclone_accounts (ha : Accounts k P h) (i : Nat) :
    Accounts (fun x => k x + (owns x (h.temp i)).toNat) P (reclone h i) := by
  have hs := valueRetain_stores.same h (h.temp i)
  refine Accounts.overwrite ha (v := (valueRetain h (h.temp i)).2) i hs.chain hs.vars rfl ?_ ?_ ?_
  · intro hi
    have : h.temp i = .plain := List.getD_eq_default _ _ hi
    rw [this]
    rfl
  · intro x hx
    show (valueRetain h (h.temp i)).1.count x = _
    rw [valueRetain_stores.count h _ x (ha.pos hx), valueRetain_stores.owns]
  · intro x hx
    exact ha.temp i ((valueRetain_stores.closureEnv h _).symm.trans hx)

theorem reclone_next (i : Nat) : (reclone h i).next = h.next :=
  (valueRetain_stores.same h (h.temp i)).next

theorem reclone_chain (i : Nat) : (reclone h i).chain = h.chain :=
  (valueRetain_stores.same h (h.temp i)).chain

theorem reclone_frames (i : Nat) : (reclone h i).frames = h.frames :=
  (valueRetain_stores.same h (h.temp i)).frames

theorem reclone_vars (i : Nat) : (reclone h i).vars = h.vars :=
  (valueRetain_stores.same h (h.temp i)).vars

theorem reclone_temp (i j : Nat) (x : EnvId) : owns x ((reclone h i).temp j) =
    if j = i then refers x (h.temp i) else owns x (h.temp j) := by
  show owns x ((h.temps.set i (valueRetain h (h.temp i)).2).getD j .plain) = _
  by_cases hj : j = i
  · subst hj
    rw [if_pos rfl]
    by_cases hlt : j < h.temps.length
    · rw [List.getD_eq_getElem _ _ (by rw [List.length_set]; exact hlt), List.getElem_set_self]
      exact valueRetain_stores.owns h _ x
    · have hg : h.temp j = .plain := List.getD_eq_default _ _ (by omega)
      rw [List.getD_eq_default _ _ (by rw [List.length_set]; omega), hg]
      rfl
  · rw [if_neg hj]
    unfold Heap.temp
    rw [List.getD_eq_getElem?_getD, List.getElem?_set_ne (Ne.symm hj), List.getD_eq_getElem?_getD]

theorem Accounts.endFrame (ha : Accounts k P h) (frame : EnvId) (hf : frame ∉ h.chain) :
    Accounts (fun x => k x + h.vars.countP fun e => e.env == frame && entryOwns x e) P
      (envFree { h with frames := h.frames.erase frame } frame) := by
  have ha' : Accounts k P { h with frames := h.frames.erase frame } := ⟨ha.balanced, ha.within⟩
  have := ha'.free [frame] fun x hx => (List.mem_singleton.1 hx).symm ▸ hf
  refine this.congr fun x _ => ?_
  simp only [List.contains_cons, List.contains_nil, Bool.or_false]

/-- The end of a call gives up what its variable owned, what its second clone overwrites and
what the entries of its frame owned. -/
theorem leave_accounts (ha : Accounts k P h) (hl : Linked h) {frame : EnvId}
    (hf : frame ∈ h.frames) (result : Nat) (flow : Flow) :
    Accounts (fun x => k x + givenUp h x (.leave frame result flow)) P (leave h frame result flow) := by
  have h₁ := reclone_accounts ha result
  have hc : frame ∉ h.chain := hl.apart frame hf
  cases flow with
  | normal =>
    have h₂ := h₁.endFrame frame (by rw [reclone_chain]; exact hc)
    refine h₂.congr fun x _ => ?_
    simp only [givenUp, if_pos hf, reclone_vars]
    omega
  | returned =>
    have h₂ := (reclone_accounts h₁ result).endFrame frame (by rw [reclone_chain, reclone_chain]; exact hc)
    refine h₂.congr fun x _ => ?_
    simp only [givenUp, if_pos hf, reclone_vars, reclone_temp, if_true]
    omega
  | thrown error =>
    have h₂ := (reclone_accounts h₁ error).endFrame frame (by rw [reclone_chain, reclone_chain]; exact hc)
    refine h₂.congr fun x _ => ?_
    simp only [givenUp, if_pos hf, reclone_vars, reclone_temp]
    by_cases he : error = result
    · simp only [if_pos he]
      omega
    · simp only [if_neg he]
      omega

/-! One step. -/

theorem enter_accounts (ha : Accounts k P h) (hl : Linked h) (caller : EnvId) :
    Accounts k P (enter h v caller) ∧ (enter h v caller).chain = h.chain ∧
      (enter h v caller).next = h.next + 1 ∧ (enter h v caller).frames = h.next :: h.frames := by
  have ha₀ : Accounts k P { h with
        next := h.next + 1
        frames := h.next :: h.frames
        scopes := fun y => if y = h.next then some ⟨h.path (v.closureEnv.getD caller), 0, 0⟩
          else h.scopes y } := by
    refine ⟨?_, ha.within⟩
    intro x hx
    have hne : x ≠ h.next := fun he => Nat.lt_irrefl _ (he ▸ hl.chain x hx)
    refine Eq.trans ?_ (ha.balanced x hx)
    unfold Heap.count
    simp only [if_neg hne]
  unfold enter importVars
  cases hc : v.closureEnv with
  | none =>
    rw [hc] at ha₀
    exact ⟨ha₀, rfl, rfl, rfl⟩
  | some c =>
    rw [hc] at ha₀
    obtain ⟨hs, ha₁⟩ := foldl_entries (fun _ e => importEntry_links h.next e)
      (fun _ _ ha hp => importEntry_accounts ha hp h.next)
      (h.vars.filter fun e => e.env == c)
      (fun e he => ha.within _ (mem_live_var (List.mem_filter.1 he).1)) _ ha₀
    exact ⟨ha₁, hs.chain, hs.next, hs.frames⟩

theorem leave_links (frame : EnvId) (result : Nat) (flow : Flow) :
    (leave h frame result flow).chain = h.chain ∧ (leave h frame result flow).next = h.next ∧
      (leave h frame result flow).frames = h.frames.erase frame := by
  unfold leave
  rw [envFree_eq]
  cases flow with
  | normal => exact ⟨reclone_chain _, reclone_next _, by rw [reclone_frames]⟩
  | returned | thrown =>
    refine ⟨?_, ?_, ?_⟩
    · exact (reclone_chain _).trans (reclone_chain _)
    · exact (reclone_next _).trans (reclone_next _)
    · rw [reclone_frames, reclone_frames]

theorem sweep_eq (tid : Nat) : sweepClosures h tid = { h with
      chain := h.chain.filter fun x => !(swept h tid).contains x
      vars := h.vars.filter fun e => !(swept h tid).contains e.env
      scopes := fun y => if y ∈ swept h tid then none else h.scopes y } := by
  unfold sweepClosures
  rw [foldl_envFree]
  simp

theorem sweep_accounts (ha : Accounts k P h) (tid : Nat) :
    Accounts (fun x => k x + givenUp h x (.sweep tid)) P (sweepClosures h tid) := by
  have ha₀ : Accounts k P { h with chain := h.chain.filter fun x => !(swept h tid).contains x } :=
    ⟨fun x hx => ha.balanced x (List.mem_filter.1 hx).1, ha.within⟩
  have := ha₀.free (swept h tid).reverse (by
    intro x hx hm
    have hx' := List.mem_reverse.1 hx
    simp [hx'] at hm)
  refine this.congr fun x _ => ?_
  simp [givenUp]

theorem step_linked (hl : Linked h) (ha : Accounts k P h) (hP : ∀ x, P x → x < h.next)
    (op : Op) : Linked (step h op) ∧ h.next ≤ (step h op).next := by
  cases op with
  | capture env names tid =>
    obtain ⟨-, hc, hn, hf, -⟩ := snapshotNames_accounts hl ha hP env names tid
    have hlt : h.next < (snapshotNames h env names tid).next := hn ▸ Nat.lt_succ_self _
    refine ⟨Linked.grow hl (Nat.le_of_lt hlt) ?_ ?_ (.inr ?_), Nat.le_of_lt hlt⟩
    · intro x hx
      exact ((hc x).1 hx).symm.imp_right fun he => ⟨he, hlt⟩
    · intro x hx
      exact .inl (hf ▸ hx)
    · intro hm
      exact Nat.lt_irrefl _ (hl.frames _ (hf ▸ hm))
  | copy i =>
    have hs := valueRetain_stores.same h (h.temp i)
    exact ⟨hl.same hs.next hs.chain hs.frames, Nat.le_of_eq hs.next.symm⟩
  | borrow | get => exact ⟨hl.same rfl rfl rfl, Nat.le_refl _⟩
  | setLocal env name i =>
    have hs : SameLinks h (setLocal h env name (h.temp i)) :=
      setLocalWith_links storeToEnv_stores env name
    exact ⟨hl.links hs, Nat.le_of_eq hs.next.symm⟩
  | setLocalBorrowed env name i =>
    have hs : SameLinks h (setLocalBorrowed h env name (h.temp i)) := setLocalBorrowed_links env name
    exact ⟨hl.links hs, Nat.le_of_eq hs.next.symm⟩
  | set env name i =>
    have hs : SameLinks h (set h env name (h.temp i)) := set_links env name
    exact ⟨hl.links hs, Nat.le_of_eq hs.next.symm⟩
  | setConstant env name i =>
    have hs : SameLinks h (setConstant h env name (h.temp i)) := setConstant_links env name
    exact ⟨hl.links hs, Nat.le_of_eq hs.next.symm⟩
  | destroy i =>
    have hs : SameCells h (valueDestroy h (h.temp i)) := releaseClosure_same
    exact ⟨hl.same hs.next hs.chain hs.frames, Nat.le_of_eq hs.next.symm⟩
  | discard i => exact ⟨hl.same rfl rfl rfl, Nat.le_refl _⟩
  | enter i caller =>
    obtain ⟨-, hc, hn, hf⟩ := enter_accounts (v := h.temp i) ha hl caller
    have hlt : h.next < (enter h (h.temp i) caller).next := hn ▸ Nat.lt_succ_self _
    refine ⟨Linked.grow hl (Nat.le_of_lt hlt) ?_ ?_ (.inl ?_), Nat.le_of_lt hlt⟩
    · intro x hx
      exact .inl (hc ▸ hx)
    · intro x hx
      have hx' : x ∈ h.next :: h.frames := hf ▸ hx
      exact (List.mem_cons.1 hx').symm.imp_right fun he => ⟨he, hlt⟩
    · intro hm
      exact Nat.lt_irrefl _ (hl.chain _ (hc ▸ hm))
  | leave frame result flow =>
    by_cases hm : frame ∈ h.frames
    · have hs : step h (.leave frame result flow) = leave h frame result flow := if_pos hm
      obtain ⟨hc, hn, hf⟩ := leave_links (h := h) frame result flow
      rw [hs]
      refine ⟨Linked.grow hl (Nat.le_of_eq hn.symm) ?_ ?_ (.inl ?_), Nat.le_of_eq hn.symm⟩
      · intro x hx
        exact .inl (hc ▸ hx)
      · intro x hx
        exact .inl (List.mem_of_mem_erase (hf ▸ hx))
      · intro hm
        exact Nat.lt_irrefl _ (hl.chain _ (hc ▸ hm))
    · have hs : step h (.leave frame result flow) = h := if_neg hm
      rw [hs]
      exact ⟨hl, Nat.le_refl _⟩
  | sweep tid =>
    show Linked (sweepClosures h tid) ∧ h.next ≤ (sweepClosures h tid).next
    rw [sweep_eq]
    refine ⟨Linked.grow hl (Nat.le_refl _) ?_ (fun x hx => .inl hx) (.inl ?_), Nat.le_refl _⟩
    · intro x hx
      exact .inl (List.mem_filter.1 hx).1
    · intro hm
      exact Nat.lt_irrefl _ (hl.chain _ (List.mem_filter.1 hm).1)

def debt (h : Heap) (k : EnvId → Nat) (op : Op) (x : EnvId) : Nat :=
  if x ∈ h.chain then k x + givenUp h x op else 0

theorem Accounts.debt {op : Op} (ha : Accounts (fun x => k x + givenUp h x op) P h')
    (hc : ∀ x ∈ h'.chain, x ∈ h.chain) :
    Accounts (debt h k op) (fun x => P x ∨ x ∈ h'.chain) h' := by
  refine Accounts.congr (ha.mono fun _ hp => .inl hp) fun x hx => ?_
  exact if_pos (hc x hx)

theorem clearTemp_accounts (ha : Accounts k P h) (i : Nat) :
    Accounts (fun x => k x + (owns x (h.temp i)).toNat) P (clearTemp h i) := by
  refine Accounts.overwrite ha (v := .plain) i rfl rfl rfl (fun _ => rfl) (fun _ _ => rfl) ?_
  intro x hx
  cases hx

theorem step_accounts (hl : Linked h) (ha : Accounts k P h) (hP : ∀ x, P x → x < h.next) (op : Op) :
    Accounts (debt h k op) (fun x => P x ∨ x ∈ (step h op).chain) (step h op) := by
  cases op with
  | capture env names tid =>
    obtain ⟨ha', hc, -, -, -⟩ := snapshotNames_accounts hl ha hP env names tid
    refine Accounts.push (ha'.mono fun _ hp => .inl hp)
      (v := .function (some h.next) .borrowed) rfl rfl rfl ?_ ?_
    · intro x _
      rfl
    · intro x hx
      exact .inr ((hc x).2 (.inl (Option.some.inj hx).symm))
  | copy i =>
    have hs := valueRetain_stores.same h (h.temp i)
    have ha' : Accounts k P (step h (.copy i)) := by
      refine Accounts.push ha (v := (valueRetain h (h.temp i)).2) hs.chain hs.vars ?_ ?_ ?_
      · exact congrArg (· ++ [(valueRetain h (h.temp i)).2]) hs.temps
      · intro x hx
        show (valueRetain h (h.temp i)).1.count x = _
        rw [valueRetain_stores.count h _ x (ha.pos hx), valueRetain_stores.owns]
      · intro x hx
        exact ha.temp i ((valueRetain_stores.closureEnv h _).symm.trans hx)
    exact Accounts.debt ha' fun x hx => hs.chain ▸ hx
  | borrow i =>
    have ha' : Accounts k P (step h (.borrow i)) := by
      refine Accounts.push ha (v := valueBorrow (h.temp i)) rfl rfl rfl ?_ ?_
      · intro x _
        rw [owns_valueBorrow]
        rfl
      · intro x hx
        exact ha.temp i (valueBorrow_closureEnv.symm.trans hx)
    exact Accounts.debt ha' fun x hx => hx
  | get env name =>
    have ha' : Accounts k P (step h (.get env name)) := by
      refine Accounts.push ha (v := get h env name) rfl rfl rfl ?_ ?_
      · intro x _
        rw [owns_get]
        rfl
      · intro x hx
        obtain ⟨e, he, hv⟩ := get_closureEnv hx
        exact ha.within _ (mem_live_var he) x hv
    exact Accounts.debt ha' fun x hx => hx
  | setLocal env name i =>
    have ha' := setLocalWith_accounts storeToEnv_stores ha (fun x => ha.temp i) env name
    exact Accounts.debt ha' fun x hx =>
      (setLocalWith_links storeToEnv_stores env name).chain ▸ hx
  | setLocalBorrowed env name i =>
    have ha' := setLocalBorrowed_accounts ha (fun x => ha.temp i) env name
    exact Accounts.debt ha' fun x hx => (setLocalBorrowed_links env name).chain ▸ hx
  | set env name i =>
    have ha' := set_accounts ha (fun x => ha.temp i) env name
    exact Accounts.debt ha' fun x hx => (set_links env name).chain ▸ hx
  | setConstant env name i =>
    have ha' := setConstant_accounts ha (fun x => ha.temp i) env name
    exact Accounts.debt ha' fun x hx => (setConstant_links env name).chain ▸ hx
  | destroy i =>
    have hd : valueDestroy h (h.temp i) = h := releaseClosure_releaseStorage
    have ha' : Accounts (fun x => k x + givenUp h x (.destroy i)) P (step h (.destroy i)) := by
      show Accounts _ P (clearTemp (valueDestroy h (h.temp i)) i)
      rw [hd]
      exact clearTemp_accounts ha i
    refine Accounts.debt ha' fun x hx => ?_
    have hx' : x ∈ (valueDestroy h (h.temp i)).chain := hx
    rw [hd] at hx'
    exact hx'
  | discard i => exact Accounts.debt (clearTemp_accounts ha i) fun x hx => hx
  | enter i caller =>
    obtain ⟨ha', hc, -, -⟩ := enter_accounts (v := h.temp i) ha hl caller
    exact Accounts.debt ha' fun x hx => hc ▸ hx
  | leave frame result flow =>
    by_cases hf : frame ∈ h.frames
    · have hs : step h (.leave frame result flow) = leave h frame result flow := if_pos hf
      rw [hs]
      refine Accounts.debt (leave_accounts ha hl hf result flow) fun x hx => ?_
      exact (leave_links frame result flow).1 ▸ hx
    · have hs : step h (.leave frame result flow) = h := if_neg hf
      rw [hs]
      have ha' : Accounts (fun x => k x + givenUp h x (.leave frame result flow)) P h :=
        ha.congr fun x _ => by simp only [givenUp, if_neg hf, Nat.add_zero]
      exact Accounts.debt ha' fun x hx => hx
  | sweep tid =>
    refine Accounts.debt (sweep_accounts ha tid) fun x hx => ?_
    have hx' : x ∈ (sweepClosures h tid).chain := hx
    rw [sweep_eq] at hx'
    exact (List.mem_filter.1 hx').1

end Accounts

/-! Whole runs. -/

/-- What holds in every state of a run, with `k` the references given up on the way. -/
structure Ledger (k : EnvId → Nat) (h : Heap) : Prop where
  linked : Linked h
  accounts : Accounts k (· < h.next) h

section Runs
variable {h : Heap} {k : EnvId → Nat}

theorem initial_ledger : Ledger (fun _ => 0) initial := by
  refine ⟨⟨?_, ?_, ?_⟩, ⟨?_, ?_⟩⟩
  all_goals
    intro x hx
    cases hx

theorem step_ledger (hl : Ledger k h) (op : Op) : Ledger (debt h k op) (step h op) := by
  obtain ⟨hk, hn⟩ := step_linked hl.linked hl.accounts (fun _ hx => hx) op
  refine ⟨hk, (step_accounts hl.linked hl.accounts (fun _ hx => hx) op).mono ?_⟩
  rintro x (hx | hx)
  · exact Nat.lt_of_lt_of_le hx hn
  · exact hk.chain x hx

theorem run_append (pre : List Op) (op : Op) : run (pre ++ [op]) = step (run pre) op := by
  unfold run
  rw [List.foldl_append]
  rfl

theorem run_ledger (ops : List Op) : ∃ k, Ledger k (run ops) := by
  induction ops using List.reverseRecOn with
  | nil => exact ⟨_, initial_ledger⟩
  | append_singleton pre op ih =>
    obtain ⟨k, hk⟩ := ih
    rw [run_append]
    exact ⟨_, step_ledger hk op⟩

theorem mem_swept {tid : Nat} {x : EnvId} :
    x ∈ swept h tid ↔ x ∈ h.chain ∧ h.ownerTid x = tid ∧ h.count x ≤ 1 := by
  unfold swept
  rw [List.mem_filter]
  simp

theorem mem_sweep_chain {tid : Nat} {x : EnvId} :
    x ∈ (sweepClosures h tid).chain ↔ x ∈ h.chain ∧ x ∉ swept h tid := by
  rw [sweep_eq]
  simp

def Alive (h : Heap) : Prop := ∀ v ∈ live h, ∀ x, v.closureEnv = some x → x ∈ h.chain

theorem sound_of_counted (hc : ∀ x ∈ h.chain, h.count x = 1 + owners h x) (ha : Alive h) :
    Sound h := by
  refine ⟨hc, ha, ?_, ?_⟩
  · intro tid x hx hs
    have hm : x ∈ swept h tid := Classical.not_not.1 fun hn => hs (mem_sweep_chain.2 ⟨hx, hn⟩)
    have hle := (mem_swept.1 hm).2.2
    rw [hc x hx] at hle
    omega
  · intro x hx hn hs
    refine (mem_sweep_chain.1 hs).2 (mem_swept.2 ⟨hx, rfl, ?_⟩)
    have ho : owners h x = 0 := by
      apply owners_eq_zero
      intro v hv he
      have := hn v hv
      unfold refers at this
      rw [he] at this
      simp at this
    exact Nat.le_of_eq ((hc x hx).trans (by rw [ho]))

theorem Ledger.sound_iff (hl : Ledger k h) : Sound h ↔ (∀ x ∈ h.chain, k x = 0) ∧ Alive h := by
  constructor
  · intro hs
    refine ⟨?_, hs.alive⟩
    intro x hx
    have h₁ := hl.accounts.balanced x hx
    rw [hs.counted x hx] at h₁
    omega
  · rintro ⟨hk, ha⟩
    refine sound_of_counted ?_ ha
    intro x hx
    have h₁ := hl.accounts.balanced x hx
    rw [hk x hx] at h₁
    exact h₁

theorem step_chain (hl : Ledger k h) (op : Op) (hop : ∀ tid, op ≠ .sweep tid) {x : EnvId}
    (hx : x ∈ h.chain) : x ∈ (step h op).chain := by
  cases op with
  | capture env names tid =>
    obtain ⟨-, hc, -⟩ :=
      snapshotNames_accounts hl.linked hl.accounts (fun _ hx => hx) env names tid
    exact (hc x).2 (.inr hx)
  | copy i => exact (valueRetain_stores.same h (h.temp i)).chain.symm ▸ hx
  | borrow | get => exact hx
  | setLocal env name i =>
    exact (setLocalWith_links (v := h.temp i) storeToEnv_stores env name).chain.symm ▸ hx
  | setLocalBorrowed env name i =>
    exact (setLocalBorrowed_links (v := h.temp i) env name).chain.symm ▸ hx
  | set env name i => exact (set_links (v := h.temp i) env name).chain.symm ▸ hx
  | setConstant env name i => exact (setConstant_links (v := h.temp i) env name).chain.symm ▸ hx
  | destroy i =>
    have hs : SameCells h (valueDestroy h (h.temp i)) := releaseClosure_same
    exact hs.chain.symm ▸ hx
  | discard i => exact hx
  | enter i caller =>
    exact (enter_accounts (v := h.temp i) hl.accounts hl.linked caller).2.1.symm ▸ hx
  | leave frame result flow =>
    show x ∈ (if frame ∈ h.frames then leave h frame result flow else h).chain
    split
    · exact (leave_links frame result flow).1.symm ▸ hx
    · exact hx
  | sweep tid => exact absurd rfl (hop tid)

theorem givenUp_swept (hs : Sound h) {tid : Nat} {x : EnvId} (hx : x ∈ swept h tid) :
    givenUp h x (.sweep tid) = 0 := by
  obtain ⟨hc, -, hle⟩ := mem_swept.1 hx
  rw [hs.counted x hc] at hle
  have hz : h.vars.countP (entryOwns x) = 0 := by
    unfold owners at hle
    omega
  apply List.countP_eq_zero.2
  intro e he ho
  exact List.countP_eq_zero.1 hz e he (Bool.and_eq_true_iff.1 ho).2

theorem sweep_alive_iff (ha : Alive h) (tid : Nat) :
    Alive (sweepClosures h tid) ↔ ∀ x ∈ swept h tid, (∀ v ∈ h.temps, refers x v = false) ∧
      ∀ e ∈ h.vars, e.env ∉ swept h tid → refers x e.value = false := by
  have hlive : ∀ v, v ∈ live (sweepClosures h tid) ↔
      v ∈ h.temps ∨ ∃ e ∈ h.vars, e.env ∉ swept h tid ∧ e.value = v := by
    intro v
    unfold live
    rw [sweep_eq, List.mem_append, List.mem_map]
    simp [and_assoc]
  have hr : ∀ {x v}, v ∈ live (sweepClosures h tid) → x ∈ swept h tid →
      Alive (sweepClosures h tid) → refers x v = false := by
    intro x v hv hx hs
    apply beq_eq_false_iff_ne.2
    intro he
    exact (mem_sweep_chain.1 (hs v hv x he)).2 hx
  constructor
  · intro hs x hx
    refine ⟨?_, ?_⟩
    · intro v hv
      exact hr ((hlive v).2 (.inl hv)) hx hs
    · intro e he hn
      exact hr ((hlive e.value).2 (.inr ⟨e, he, hn, rfl⟩)) hx hs
  · intro hs v hv x hx
    have hne : ∀ {w : Value}, refers x w = false → w.closureEnv ≠ some x :=
      fun hw => beq_eq_false_iff_ne.1 hw
    rcases (hlive v).1 hv with hm | ⟨e, he, hn, rfl⟩
    · refine mem_sweep_chain.2 ⟨ha v (List.mem_append_left _ hm) x hx, ?_⟩
      intro hsw
      exact hne ((hs x hsw).1 v hm) hx
    · refine mem_sweep_chain.2 ⟨ha _ (mem_live_var he) x hx, ?_⟩
      intro hsw
      exact hne ((hs x hsw).2 e he hn) hx

theorem step_sound_iff (hl : Ledger k h) (hs : Sound h) (op : Op) : Sound (step h op) ↔ Careful h op := by
  have hk : ∀ x ∈ h.chain, k x = 0 := (hl.sound_iff.1 hs).1
  have hd : ∀ x ∈ h.chain, debt h k op x = givenUp h x op := by
    intro x hx
    unfold debt
    rw [if_pos hx, hk x hx, Nat.zero_add]
  have hn : ∀ x, x ∉ h.chain → debt h k op x = 0 := fun x hx => if_neg hx
  rw [(step_ledger hl op).sound_iff]
  by_cases hop : ∃ tid, op = .sweep tid
  · obtain ⟨tid, rfl⟩ := hop
    have ha := sweep_alive_iff hs.alive tid
    constructor
    · rintro ⟨hz, hal⟩
      refine ⟨?_, fun t ht => Op.sweep.inj ht ▸ ha.1 hal⟩
      intro x hx
      by_cases hsw : x ∈ swept h tid
      · exact givenUp_swept hs hsw
      · rw [← hd x hx]
        exact hz x (mem_sweep_chain.2 ⟨hx, hsw⟩)
    · rintro ⟨hz, hr⟩
      refine ⟨?_, ha.2 (hr tid rfl)⟩
      intro x hx
      have hx' := (mem_sweep_chain.1 hx).1
      rw [hd x hx']
      exact hz x hx'
  · have hop' : ∀ tid, op ≠ .sweep tid := fun tid he => hop ⟨tid, he⟩
    have hal : Alive (step h op) := by
      have hc : Accounts k (· ∈ h.chain) h := ⟨hl.accounts.balanced, hs.alive⟩
      have := step_accounts hl.linked hc hl.linked.chain op
      intro v hv x hx
      exact (this.within v hv x hx).elim (step_chain hl op hop') id
    constructor
    · rintro ⟨hz, -⟩
      refine ⟨?_, fun t ht => absurd ht (hop' t)⟩
      intro x hx
      rw [← hd x hx]
      exact hz x (step_chain hl op hop' hx)
    · rintro ⟨hz, -⟩
      refine ⟨?_, hal⟩
      intro x _
      by_cases hx : x ∈ h.chain
      · rw [hd x hx]
        exact hz x hx
      · exact hn x hx

theorem initial_sound : Sound initial := by
  refine sound_of_counted ?_ ?_
  all_goals
    intro x hx
    cases hx

theorem count_copy_destroy (i : Nat) {x : EnvId} (hx : 0 < h.count x) :
    (step (step h (.copy i)) (.destroy h.temps.length)).count x =
      h.count x + (refers x (h.temp i)).toNat := by
  have hs := valueRetain_stores.same h (h.temp i)
  have hd : ∀ (h' : Heap) (v : Value), (valueDestroy h' v).count x = h'.count x := by
    intro h' v
    exact congrArg (Heap.count · x) releaseClosure_releaseStorage
  exact (hd _ _).trans (valueRetain_stores.count h _ x hx)

end Runs

/-- In a run of captures, copies, stores, destructions, calls and sweeps every state is sound
if and only if every step is careful. Copying a value and destroying the copy leaves the count
of a snapshot unchanged if and only if the value does not refer to it. -/
theorem sound_iff_careful (ops : List Op) : ((∀ pre, pre <+: ops → Sound (run pre)) ↔
      ∀ pre op, pre ++ [op] <+: ops → Careful (run pre) op) ∧
    ∀ i, ∀ x ∈ (run ops).chain,
      ((step (step (run ops) (.copy i)) (.destroy (run ops).temps.length)).count x = (run ops).count x ↔
        refers x ((run ops).temp i) = false) := by
  refine ⟨⟨?_, ?_⟩, ?_⟩
  · intro hs pre op hp
    obtain ⟨k, hk⟩ := run_ledger pre
    have h₁ := hs (pre ++ [op]) hp
    rw [run_append] at h₁
    exact (step_sound_iff hk (hs pre ((List.prefix_append _ _).trans hp)) op).1 h₁
  · intro hc pre
    induction pre using List.reverseRecOn with
    | nil =>
      intro _
      exact initial_sound
    | append_singleton pre op ih =>
      intro hp
      obtain ⟨k, hk⟩ := run_ledger pre
      rw [run_append]
      exact (step_sound_iff hk (ih ((List.prefix_append _ _).trans hp)) op).2 (hc pre op hp)
  · intro i x hx
    obtain ⟨k, hk⟩ := run_ledger ops
    rw [count_copy_destroy i (hk.accounts.pos hx)]
    cases refers x ((run ops).temp i) <;> simp

/-- A function expression is evaluated, its value copied, the copy destroyed, and the value
goes out of scope. Nothing refers to the snapshot, its count is 2, and no sweep takes it. -/
theorem copy_destroy_leaks :
    let h := run [.capture 0 (some []) 7, .copy 0, .destroy 1, .discard 0]
    (run [.capture 0 (some []) 7]).count 1 = 1 ∧ live h = [.plain, .plain] ∧ h.count 1 = 2 ∧
      1 ∈ (sweepClosures h 7).chain ∧ ¬Sound h := by
  refine ⟨by decide, by decide, by decide, by decide, ?_⟩
  intro hs
  have := hs.counted 1 (by decide)
  revert this
  decide

end TurboScript.Exprtk.Closures
