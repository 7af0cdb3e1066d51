import TurboScript.Host.Instance
import TurboScript.Lib.Transition
import TurboScript.Lib.Table

/- Lifetimes of modules and of the host-function registry
   (`host/turbo_script_host_registry.c`, `host/turbo_script_host_module.c` and the creation
   and destruction of instances in `host/turbo_script_host_instance.c`).

   The allocator, the parser, the validator, the lowering and the initializer are not
   modelled: their outcomes are arguments. A creation is split where the initializer runs,
   since its callbacks may call every operation, another creation included; `creating` is
   the stack of the creations that are under way. A step is `none` when the host passes a
   pointer that dangles, and when the code aborts the process. -/
namespace TurboScript.Host.Lifetime
open Lib Function

def registryCapacity : Nat := 256
def maxStringBytes : Nat := 4 * 1024 * 1024
def moduleSourceLimit : Nat := 4 * 1024 * 1024
def moduleAstLimit : Nat := 100000
def moduleImportLimit : Nat := 64
def moduleExportLimit : Nat := 256
def moduleStringLimit : Nat := 4 * 1024 * 1024

/-- `turbo_script_string_view_t`: a NULL pointer comes with a size of its own. -/
inductive StringView
  | null (size : Nat)
  | of (bytes : List UInt8)
  deriving DecidableEq, Repr

def StringView.size : StringView → Nat
  | .null n => n
  | .of bytes => bytes.length

def StringView.bytes : StringView → List UInt8
  | .null _ => []
  | .of bytes => bytes

/-- `!data && size != 0`. -/
def StringView.nullNonempty : StringView → Bool
  | .null n => n != 0
  | .of _ => false

structure FunctionEntry where
  name : List UInt8
  minArity : Nat
  maxArity : Nat
  deriving DecidableEq, Repr

/-- `turbo_script_host_function_descriptor_t` with the callback passed beside it. -/
structure Descriptor where
  present : Bool
  structSizeValid : Bool
  callbackPresent : Bool
  reservedZero : Bool
  name : StringView
  minArity : Nat
  maxArity : Nat
  deriving DecidableEq, Repr

/-- `turbo_script_module_options_t`. -/
structure ModuleOptions where
  present : Bool
  structSizeValid : Bool
  reservedZero : Bool
  moduleName : StringView
  maxSourceBytes : Nat
  maxAstNodes : Nat
  maxImports : Nat
  maxExports : Nat
  maxStringBytes : Nat
  deriving DecidableEq, Repr

structure HostModule where
  refCount : Nat
  acceptingInstances : Bool
  deriving DecidableEq, Repr

/-- A live instance: its module, and the state in which calls have left it. -/
structure LiveInstance where
  module : Nat
  state : InstanceState
  deriving DecidableEq, Repr

/-- `handles` is not in the source: the public module handles that the host still holds. -/
structure Ctx where
  hostFunctions : List FunctionEntry
  activeHostModules : Nat
  modules : Nat → Option HostModule
  nextModule : Nat
  handles : Nat → Bool
  instances : Nat → Option LiveInstance
  nextInstance : Nat
  nextInstanceGeneration : Nat
  creating : List Nat
  closing : Bool

/-- `ts_host_registry_init`. -/
def Ctx.init : Ctx where
  hostFunctions := []
  activeHostModules := 0
  modules := fun _ => none
  nextModule := 0
  handles := fun _ => false
  instances := fun _ => none
  nextInstance := 0
  nextInstanceGeneration := 1
  creating := []
  closing := false

/-- A status comes with the message left in the result, empty when none is. -/
inductive Reply
  | status (s : Status) (message : String)
  | module (m : Nat)
  | creating
  | instance (i : Nat)
  deriving DecidableEq, Repr

/-- The outcome of the parser and of the lowering; `failed` is any failure but a lack of memory. -/
inductive Stage
  | done | outOfMemory | failed
  deriving DecidableEq, Repr

structure CompileOutcome where
  allocated : Bool
  textsCopied : Bool
  parsed : Stage
  astWithinLimits : Bool
  exportScan : Status
  bound : Status
  validated : Bool
  lowered : Stage
  deriving DecidableEq, Repr

structure CreateOutcome where
  initialized : Status
  exportsBound : Status
  retainedWithin : Bool
  deriving DecidableEq, Repr

/-- The checks of the owner thread and of the result that every operation begins with. -/
def beginApi (ownerThread : Bool) (result : ResultArg) : Status :=
  if !ownerThread then .wrongThread
  else
    match result with
    | .null => .invalidArgument
    | .foreign => .contextMismatch
    | .own _ => .ok

section Registry
variable (utf8Valid : List UInt8 → Bool)

def validateName (name : StringView) : Status :=
  if name.nullNonempty then .invalidArgument
  else if name.size = 0 then .validationError
  else if name.size > maxStringBytes then .limitExceeded
  else if 0 ∈ name.bytes then .validationError
  else if !utf8Valid name.bytes then .invalidUtf8
  else .ok

def validateDescriptor (d : Descriptor) : Status :=
  if !d.present || !d.structSizeValid || !d.callbackPresent || d.minArity > d.maxArity ||
      !d.reservedZero then .invalidArgument
  else validateName utf8Valid d.name

def findSlot (c : Ctx) (name : StringView) : Except Status Nat :=
  match validateName utf8Valid name with
  | .ok =>
    match c.hostFunctions.findIdx? (fun e => e.name == name.bytes) with
    | some slot => .ok slot
    | none => .error .notFound
  | status => .error status

def registerHostFunction (c : Ctx) (ownerThread : Bool) (d : Descriptor) (result : ResultArg)
    (nameCopied : Bool) (pushed : Status) : Ctx × Reply :=
  match beginApi ownerThread result with
  | .ok =>
    if c.activeHostModules ≠ 0 then
      (c, .status .invalidState "host registry is frozen while modules are active")
    else
      match validateDescriptor utf8Valid d with
      | .ok =>
        match findSlot utf8Valid c d.name with
        | .ok _ => (c, .status .invalidState "host function name is already registered")
        | .error .notFound =>
          if c.hostFunctions.length ≥ registryCapacity then
            (c, .status .limitExceeded "host registry capacity exceeded")
          else if !nameCopied then (c, .status .outOfMemory "failed to copy host function name")
          else if pushed ≠ .ok then (c, .status pushed "failed to append host registry slot")
          else
            ({ c with hostFunctions := c.hostFunctions ++
                        [{ name := d.name.bytes, minArity := d.minArity, maxArity := d.maxArity }] },
              .status .ok "")
        | .error status => (c, .status status "failed to search host registry")
      | status => (c, .status status "invalid host function descriptor")
  | status => (c, .status status "")

/-- `erased` is the outcome of `vec_erase`, which moves the later slots down. -/
def unregisterHostFunction (c : Ctx) (ownerThread : Bool) (name : StringView)
    (result : ResultArg) (erased : Status) : Ctx × Reply :=
  match beginApi ownerThread result with
  | .ok =>
    if c.activeHostModules ≠ 0 then
      (c, .status .invalidState "host registry is frozen while modules are active")
    else
      match validateName utf8Valid name with
      | .ok =>
        match findSlot utf8Valid c name with
        | .ok slot =>
          if erased ≠ .ok then (c, .status erased "failed to remove host registry slot")
          else ({ c with hostFunctions := c.hostFunctions.eraseIdx slot }, .status .ok "")
        | .error status => (c, .status status "host function is not registered")
      | status => (c, .status status "invalid host function name")
  | status => (c, .status status "")

end Registry

/-! ## Counts -/

def registryAcquire (c : Ctx) : Status × Ctx :=
  if c.activeHostModules = sizeMax then (.limitExceeded, c)
  else (.ok, { c with activeHostModules := c.activeHostModules + 1 })

def registryRelease (c : Ctx) : Status × Ctx :=
  if c.activeHostModules = 0 then (.invalidState, c)
  else (.ok, { c with activeHostModules := c.activeHostModules - 1 })

/-- `none` is `abort()`, here and in `moduleRelease`. -/
def moduleRetain (c : Ctx) (m : Nat) : Option Ctx :=
  match c.modules m with
  | none => none
  | some mod =>
    if mod.refCount = sizeMax then none
    else
      some { c with modules :=
               Function.update c.modules m (some { mod with refCount := mod.refCount + 1 }) }

def moduleRelease (c : Ctx) (m : Nat) : Option Ctx :=
  match c.modules m with
  | none => none
  | some mod =>
    if mod.refCount = 0 then none
    else if mod.refCount - 1 ≠ 0 then
      some { c with modules :=
               Function.update c.modules m (some { mod with refCount := mod.refCount - 1 }) }
    else
      match registryRelease c with
      | (.ok, c) => some { c with modules := Function.update c.modules m none }
      | _ => none

/-! ## Modules -/

section Modules
variable (utf8Valid : List UInt8 → Bool)

def moduleOptionsValid (o : ModuleOptions) : Bool :=
  o.present && o.structSizeValid && o.reservedZero && o.maxSourceBytes ≤ moduleSourceLimit &&
    o.maxAstNodes ≤ moduleAstLimit && o.maxImports ≤ moduleImportLimit &&
    o.maxExports ≤ moduleExportLimit && o.maxStringBytes ≤ moduleStringLimit

/-- The `fail` label: the registry is released if it was acquired, and the module, which
    nothing else refers to yet, is freed. -/
def compileFail (c : Ctx) (registryAcquired : Bool) (status : Status) : Ctx × Reply :=
  ((if registryAcquired then (registryRelease c).2 else c), .status status (match status with
       | .parseError => "module parse failed"
       | .limitExceeded => "module compile limit exceeded"
       | _ => "module validation or lowering failed"))

/-- From the copy of the texts to the publication of the module. -/
def compileStages (c : Ctx) (o : CompileOutcome) : Ctx × Reply :=
  if !o.textsCopied then compileFail c false .outOfMemory
  else
    match o.parsed with
    | .outOfMemory => compileFail c false .outOfMemory
    | .failed => compileFail c false .parseError
    | .done =>
      if !o.astWithinLimits then compileFail c false .limitExceeded
      else if o.exportScan ≠ .ok then compileFail c false o.exportScan
      else
        match registryAcquire c with
        | (.ok, c) =>
          if o.bound ≠ .ok then compileFail c true o.bound
          else if !o.validated then compileFail c true .validationError
          else
            match o.lowered with
            | .outOfMemory => compileFail c true .outOfMemory
            | .failed => compileFail c true .unsupportedBackendSemantic
            | .done =>
              ({ c with
                 modules := Function.update c.modules c.nextModule
                   (some { refCount := 1, acceptingInstances := true })
                 nextModule := c.nextModule + 1
                 handles := Function.update c.handles c.nextModule true },
                .module c.nextModule)
        | (status, c) => compileFail c false status

def compile (c : Ctx) (ownerThread : Bool) (source : StringView) (options : ModuleOptions)
    (result : ResultArg) (outPresent : Bool) (o : CompileOutcome) : Ctx × Reply :=
  match beginApi ownerThread result with
  | .ok =>
    if !outPresent then (c, .status .invalidArgument "module output is required")
    else if c.closing then (c, .status .invalidState "context is closing")
    else if !moduleOptionsValid options || source.nullNonempty then
      (c, .status .invalidArgument "invalid module compile arguments")
    else if source.size > options.maxSourceBytes then
      (c, .status .limitExceeded "source byte limit exceeded")
    else if source.size = 0 ∨ 0 ∈ source.bytes then
      (c, .status .validationError "source must be nonempty and NUL-free")
    else if !utf8Valid source.bytes || options.moduleName.nullNonempty || options.moduleName.size != 0 &&
          (decide (0 ∈ options.moduleName.bytes) || !utf8Valid options.moduleName.bytes) then
      (c, .status .invalidUtf8 "module text is not valid UTF-8")
    else if options.moduleName.size > options.maxStringBytes then
      (c, .status .limitExceeded "module name byte limit exceeded")
    else if !o.allocated then (c, .status .outOfMemory "module allocation failed")
    else compileStages c o
  | status => (c, .status status "")

/-- The handle is gone whether or not instances keep the module. -/
def moduleDestroy (c : Ctx) (ownerThread : Bool) (m : Nat) (result : ResultArg) : Option (Ctx × Reply) :=
  match c.modules m with
  | none => none
  | some mod =>
    match beginApi ownerThread result with
    | .ok =>
      if !mod.acceptingInstances then some (c, .status .invalidState "")
      else
        let c := { c with
          modules := Function.update c.modules m (some { mod with acceptingInstances := false })
          handles := Function.update c.handles m false }
        (moduleRelease c m).map fun c => (c, .status .ok "")
    | status => some (c, .status status "")

end Modules

/-! ## Instances -/

/-- The `fail` label of `turbo_script_instance_create`. -/
def createFail (c : Ctx) (m : Nat) (status : Status) : Option (Ctx × Reply) :=
  (moduleRelease c m).map fun c =>
    (c, .status status
      (if status = .limitExceeded then "instance retained memory limit exceeded"
       else "instance initialization failed"))

/-- Up to the call of the initializer; `runtimeCreated` is the outcome of
    `ts_host_instance_runtime_create`. -/
def createBegin (c : Ctx) (ownerThread : Bool) (m : Nat) (options : InstanceOptions)
    (result : ResultArg) (outPresent allocated : Bool) (runtimeCreated : Status) :
    Option (Ctx × Reply) :=
  match c.modules m with
  | none => none
  | some mod =>
    match beginApi ownerThread result with
    | .ok =>
      if !outPresent then some (c, .status .invalidArgument "instance output is required")
      else if c.closing || !mod.acceptingInstances then
        some (c, .status .invalidState "module context is closing")
      else if !instanceOptionsValid options then
        some (c, .status .invalidArgument "invalid instance options")
      else if c.nextInstanceGeneration = 0 ∨ c.nextInstanceGeneration > u32Max then
        some (c, .status .limitExceeded "instance generation exhausted")
      else if !allocated then some (c, .status .outOfMemory "instance allocation failed")
      else
        match moduleRetain c m with
        | none => none
        | some c =>
          if runtimeCreated ≠ .ok then createFail c m runtimeCreated
          else some ({ c with creating := m :: c.creating }, .creating)
    | status => some (c, .status status "")

/-- The innermost creation goes on once its initializer has returned. -/
def createEnd (c : Ctx) (o : CreateOutcome) : Option (Ctx × Reply) :=
  match c.creating with
  | [] => none
  | m :: rest =>
    let c := { c with creating := rest }
    if o.initialized ≠ .ok then createFail c m o.initialized
    else if o.exportsBound ≠ .ok then createFail c m o.exportsBound
    else if !o.retainedWithin then createFail c m .limitExceeded
    else
      some ({ c with
           instances := Function.update c.instances c.nextInstance
             (some { module := m, state := .ready })
           nextInstance := c.nextInstance + 1
           nextInstanceGeneration := c.nextInstanceGeneration + 1 },
          .instance c.nextInstance)

def instanceDestroy (c : Ctx) (ownerThread : Bool) (i : Nat) (result : ResultArg) : Option (Ctx × Reply) :=
  match c.instances i with
  | none => none
  | some inst =>
    match beginApi ownerThread result with
    | .ok =>
      if inst.state ≠ .ready ∧ inst.state ≠ .faulted then
        some (c, .status .invalidState "instance cannot be destroyed while executing")
      else
        let c := { c with instances := Function.update c.instances i none }
        (moduleRelease c inst.module).map fun c => (c, .status .ok "")
    | status => some (c, .status status "")

/-! ## Runs -/

/-- `boundary` stands for the transitions of the call boundary on a live instance, `close` for
    `turbo_script_free`. -/
inductive Op
  | register (ownerThread : Bool) (descriptor : Descriptor) (result : ResultArg)
      (nameCopied : Bool) (pushed : Status)
  | unregister (ownerThread : Bool) (name : StringView) (result : ResultArg) (erased : Status)
  | compile (ownerThread : Bool) (source : StringView) (options : ModuleOptions)
      (result : ResultArg) (outPresent : Bool) (outcome : CompileOutcome)
  | moduleDestroy (ownerThread : Bool) (m : Nat) (result : ResultArg)
  | createBegin (ownerThread : Bool) (m : Nat) (options : InstanceOptions) (result : ResultArg)
      (outPresent allocated : Bool) (runtimeCreated : Status)
  | createEnd (outcome : CreateOutcome)
  | instanceDestroy (ownerThread : Bool) (i : Nat) (result : ResultArg)
  | boundary (i : Nat) (state : InstanceState)
  | close
  deriving DecidableEq, Repr

def step (utf8Valid : List UInt8 → Bool) (c : Ctx) : Op → Option (Ctx × Reply)
  | .register thread d result nameCopied pushed =>
    some (registerHostFunction utf8Valid c thread d result nameCopied pushed)
  | .unregister thread name result erased =>
    some (unregisterHostFunction utf8Valid c thread name result erased)
  | .compile thread source options result outPresent o =>
    some (compile utf8Valid c thread source options result outPresent o)
  | .moduleDestroy thread m result => moduleDestroy c thread m result
  | .createBegin thread m options result outPresent allocated runtimeCreated =>
    createBegin c thread m options result outPresent allocated runtimeCreated
  | .createEnd o => createEnd c o
  | .instanceDestroy thread i result => instanceDestroy c thread i result
  | .boundary i state =>
    match c.instances i with
    | none => none
    | some inst =>
      some ({ c with instances := Function.update c.instances i (some { inst with state := state }) },
        .status .ok "")
  | .close => some ({ c with closing := true }, .status .ok "")

/-! ## What the counts owe -/

def HostModule.counted (mod : HostModule) : Bool := decide (0 < mod.refCount)

/-- The live instances of `m`. -/
def liveInstances (c : Ctx) (m : Nat) : Nat :=
  holding (fun inst => inst.module == m) c.instances c.nextInstance

/-- The public handle, the live instances and the creations under way. -/
def holders (c : Ctx) (m : Nat) : Nat :=
  (if c.handles m then 1 else 0) + liveInstances c m + c.creating.count m

/-- The reference counts are `owed`, and the registry counts the modules that have any. -/
structure Balanced (c : Ctx) (owed : Nat → Nat) : Prop where
  active : c.activeHostModules = holding HostModule.counted c.modules c.nextModule
  refs : ∀ m mod, c.modules m = some mod → mod.refCount = owed m ∧ 0 < mod.refCount
  gone : ∀ m, c.modules m = none → owed m = 0
  fresh : ∀ m, c.nextModule ≤ m → c.modules m = none

/-- Only counts differ: no module appears, and those that are left keep their flag. -/
structure CountsOnly (c c' : Ctx) : Prop where
  frame : c' = { c with modules := c'.modules, activeHostModules := c'.activeHostModules }
  accepting : ∀ m mod', c'.modules m = some mod' →
    ∃ mod, c.modules m = some mod ∧ mod'.acceptingInstances = mod.acceptingInstances

section Counts
variable {c c' : Ctx} {owed owed' : Nat → Nat} {m : Nat} {mod : HostModule}

theorem Balanced.congr (h : Balanced c owed) (hm : c'.modules = c.modules)
    (hn : c'.nextModule = c.nextModule) (ha : c'.activeHostModules = c.activeHostModules)
    (ho : ∀ m, owed' m = owed m) : Balanced c' owed' where
  active := by rw [ha, hm, hn, h.active]
  refs := fun m mod hmod => by
    rw [ho m]
    exact h.refs m mod (hm ▸ hmod)
  gone := fun m hmod => by
    rw [ho m]
    exact h.gone m (hm ▸ hmod)
  fresh := fun m hle => by
    rw [hm]
    exact h.fresh m (hn ▸ hle)

theorem Balanced.lt (h : Balanced c owed) (hm : c.modules m = some mod) : m < c.nextModule := by
  apply Nat.lt_of_not_le
  intro hle
  rw [h.fresh m hle] at hm
  cases hm

theorem Balanced.replace (h : Balanced c owed) (hm : c.modules m = some mod) (mod' : HostModule)
    (hpos : 0 < mod'.refCount) (hc : c'.modules = Function.update c.modules m (some mod'))
    (hn : c'.nextModule = c.nextModule) (ha : c'.activeHostModules = c.activeHostModules) :
    Balanced c' (Function.update owed m mod'.refCount) where
  active := by
    have hcount := holding_update (p := HostModule.counted) (f := c.modules) (v := some mod') (h.lt hm)
    have hold : contributes HostModule.counted (c.modules m) = 1 :=
      contributes_pos.mpr ⟨mod, hm, decide_eq_true (h.refs m mod hm).2⟩
    have hnew : contributes HostModule.counted (some mod') = 1 :=
      contributes_pos.mpr ⟨mod', rfl, decide_eq_true hpos⟩
    rw [ha, hc, hn, h.active]
    omega
  refs := fun k mod₂ hk => by
    rw [hc] at hk
    by_cases hkm : k = m
    · subst hkm
      rw [update_self] at hk ⊢
      cases hk
      exact ⟨rfl, hpos⟩
    · rw [update_of_ne hkm] at hk ⊢
      exact h.refs k mod₂ hk
  gone := fun k hk => by
    rw [hc] at hk
    by_cases hkm : k = m
    · rw [hkm, update_self] at hk
      cases hk
    · rw [update_of_ne hkm] at hk ⊢
      exact h.gone k hk
  fresh := fun k hle => by
    have hkm : k ≠ m := fun heq => absurd (h.lt hm) (Nat.not_lt.mpr (by rw [← hn, ← heq]; exact hle))
    rw [hc, update_of_ne hkm]
    exact h.fresh k (hn ▸ hle)

theorem CountsOnly.update (hm : c.modules m = some mod) (n : Nat) : CountsOnly c
    { c with modules := Function.update c.modules m (some { mod with refCount := n }) } where
  frame := rfl
  accepting := fun k mod₂ hk => by
    have hk : Function.update c.modules m (some { mod with refCount := n }) k = some mod₂ := hk
    by_cases hkm : k = m
    · subst hkm
      rw [update_self] at hk
      cases hk
      exact ⟨mod, hm, rfl⟩
    · rw [update_of_ne hkm] at hk
      exact ⟨mod₂, hk, rfl⟩

theorem moduleRetain_spec (h : Balanced c owed) (hr : moduleRetain c m = some c') :
    Balanced c' (Function.update owed m (owed m + 1)) ∧ CountsOnly c c' ∧
      ∃ mod, c'.modules m = some mod := by
  unfold moduleRetain at hr
  split at hr
  · cases hr
  · rename_i mod hm
    split at hr
    · cases hr
    · cases hr
      rw [← (h.refs m mod hm).1]
      exact ⟨h.replace hm { mod with refCount := mod.refCount + 1 } (Nat.succ_pos _) rfl rfl rfl,
        .update hm _, _, update_self ..⟩

theorem moduleRelease_spec (h : Balanced c owed) (hm : c.modules m = some mod) :
    ∃ c', moduleRelease c m = some c' ∧ Balanced c' (Function.update owed m (owed m - 1)) ∧
      CountsOnly c c' := by
  obtain ⟨howed, hpos⟩ := h.refs m mod hm
  unfold moduleRelease
  rw [hm]
  dsimp only
  rw [if_neg (Nat.ne_of_gt hpos)]
  by_cases hlast : mod.refCount - 1 = 0
  · rw [if_neg (not_not_intro hlast)]
    have hcounted : contributes HostModule.counted (c.modules m) = 1 :=
      contributes_pos.mpr ⟨mod, hm, decide_eq_true hpos⟩
    have hcount := holding_update (p := HostModule.counted) (f := c.modules) (v := none) (h.lt hm)
    have hnone : contributes HostModule.counted none = 0 := rfl
    have hactive := holding_pos (h.lt hm) hcounted
    have hne : c.activeHostModules ≠ 0 := by
      rw [h.active]
      omega
    have hrelease : registryRelease c =
        (.ok, { c with activeHostModules := c.activeHostModules - 1 }) := if_neg hne
    rw [hrelease]
    refine ⟨_, rfl, ⟨?_, ?_, ?_, ?_⟩, rfl, ?_⟩
    · have hact := h.active
      show c.activeHostModules - 1 = holding _ (Function.update c.modules m none) c.nextModule
      omega
    · intro k mod₂ hk
      have hk : Function.update c.modules m none k = some mod₂ := hk
      by_cases hkm : k = m
      · rw [hkm, update_self] at hk
        cases hk
      · rw [update_of_ne hkm] at hk ⊢
        exact h.refs k mod₂ hk
    · intro k hk
      have hk : Function.update c.modules m none k = none := hk
      by_cases hkm : k = m
      · rw [hkm, update_self]
        omega
      · rw [update_of_ne hkm] at hk ⊢
        exact h.gone k hk
    · intro k hle
      show Function.update c.modules m none k = none
      by_cases hkm : k = m
      · rw [hkm, update_self]
      · rw [update_of_ne hkm]
        exact h.fresh k hle
    · intro k mod₂ hk
      have hk : Function.update c.modules m none k = some mod₂ := hk
      by_cases hkm : k = m
      · rw [hkm, update_self] at hk
        cases hk
      · rw [update_of_ne hkm] at hk
        exact ⟨mod₂, hk, rfl⟩
  · rw [if_pos hlast]
    rw [← howed]
    exact ⟨_, rfl, h.replace hm { mod with refCount := mod.refCount - 1 }
      (Nat.pos_of_ne_zero hlast) rfl rfl rfl, .update hm _⟩

end Counts

/-! ## The invariant -/

section Invariant
variable (utf8Valid : List UInt8 → Bool)

structure NamesValid (fs : List FunctionEntry) : Prop where
  valid : ∀ e ∈ fs, validateName utf8Valid (.of e.name) = .ok
  distinct : (fs.map FunctionEntry.name).Nodup

structure Inv (c : Ctx) : Prop where
  balanced : Balanced c (holders c)
  accepting : ∀ m mod, c.modules m = some mod → mod.acceptingInstances = c.handles m
  fresh : ∀ i, c.nextInstance ≤ i → c.instances i = none
  names : NamesValid utf8Valid c.hostFunctions

variable {utf8Valid} {c c' : Ctx} {m : Nat}

theorem inv_init : Inv utf8Valid .init where
  balanced := ⟨rfl, fun _ _ h => (by cases h), fun _ _ => rfl, fun _ _ => rfl⟩
  accepting := fun _ _ h => by cases h
  fresh := fun _ _ => rfl
  names := ⟨fun _ h => (by cases h), List.nodup_nil⟩

/-! ### The registry -/

theorem validateName_ok {name : StringView} (h : validateName utf8Valid name = .ok) :
    validateName utf8Valid (.of name.bytes) = .ok := by
  cases name with
  | of bytes => exact h
  | null n =>
    exfalso
    unfold validateName at h
    cases n with
    | zero | succ => cases h

theorem validateName_ne_notFound (name : StringView) : validateName utf8Valid name ≠ .notFound := by
  unfold validateName
  split
  · decide
  split
  · decide
  split
  · decide
  split
  · decide
  split <;> decide

theorem findSlot_notFound {name : StringView} (h : findSlot utf8Valid c name = .error .notFound) :
    name.bytes ∉ c.hostFunctions.map FunctionEntry.name := by
  unfold findSlot at h
  split at h
  · split at h
    · cases h
    · rename_i hnone
      intro hmem
      obtain ⟨e, he, heq⟩ := List.mem_map.mp hmem
      have hno := List.findIdx?_eq_none_iff.mp hnone e he
      simp [heq] at hno
  · exact absurd (Except.error.inj h) (validateName_ne_notFound name)

theorem NamesValid.push {fs : List FunctionEntry} (h : NamesValid utf8Valid fs) (e : FunctionEntry)
    (hvalid : validateName utf8Valid (.of e.name) = .ok)
    (hnew : e.name ∉ fs.map FunctionEntry.name) : NamesValid utf8Valid (fs ++ [e]) where
  valid := fun e' he' => by
    rcases List.mem_append.mp he' with hold | hlast
    · exact h.valid e' hold
    · rw [List.mem_singleton.mp hlast]
      exact hvalid
  distinct := by
    rw [List.map_append, List.nodup_append]
    refine ⟨h.distinct, (by simp), fun a ha b hb hab => hnew ?_⟩
    rw [← List.mem_singleton.mp hb, ← hab]
    exact ha

theorem NamesValid.erase {fs : List FunctionEntry} (h : NamesValid utf8Valid fs) (slot : Nat) :
    NamesValid utf8Valid (fs.eraseIdx slot) where
  valid := fun e he => h.valid e (List.mem_of_mem_eraseIdx he)
  distinct := h.distinct.sublist ((List.eraseIdx_sublist fs slot).map _)

theorem registerHostFunction_spec (thread : Bool) (d : Descriptor) (result : ResultArg)
    (nameCopied : Bool) (pushed : Status) (h : NamesValid utf8Valid c.hostFunctions) :
    ∃ fs, (registerHostFunction utf8Valid c thread d result nameCopied pushed).1 =
        { c with hostFunctions := fs } ∧
      NamesValid utf8Valid fs ∧ (0 < c.activeHostModules → fs = c.hostFunctions) := by
  have hsame : ∃ fs, c = { c with hostFunctions := fs } ∧ NamesValid utf8Valid fs ∧
      (0 < c.activeHostModules → fs = c.hostFunctions) := ⟨_, rfl, h, fun _ => rfl⟩
  unfold registerHostFunction
  split
  · split
    · exact hsame
    · rename_i hidle
      split
      · rename_i hd
        split
        · exact hsame
        · rename_i hslot
          split
          · exact hsame
          · split
            · exact hsame
            · split
              · exact hsame
              · have hname : validateName utf8Valid d.name = .ok := by
                  unfold validateDescriptor at hd
                  split at hd
                  · cases hd
                  · exact hd
                exact ⟨_, rfl, h.push _ (validateName_ok hname) (findSlot_notFound hslot),
                  fun hpos => absurd hpos (by omega)⟩
        · exact hsame
      · exact hsame
  · exact hsame

theorem unregisterHostFunction_spec (thread : Bool) (name : StringView) (result : ResultArg)
    (erased : Status) (h : NamesValid utf8Valid c.hostFunctions) :
    ∃ fs, (unregisterHostFunction utf8Valid c thread name result erased).1 =
        { c with hostFunctions := fs } ∧
      NamesValid utf8Valid fs ∧ (0 < c.activeHostModules → fs = c.hostFunctions) := by
  have hsame : ∃ fs, c = { c with hostFunctions := fs } ∧ NamesValid utf8Valid fs ∧
      (0 < c.activeHostModules → fs = c.hostFunctions) := ⟨_, rfl, h, fun _ => rfl⟩
  unfold unregisterHostFunction
  split
  · split
    · exact hsame
    · rename_i hidle
      split
      · split
        · split
          · exact hsame
          · exact ⟨_, rfl, h.erase _, fun hpos => absurd hpos (by omega)⟩
        · exact hsame
      · exact hsame
  · exact hsame


/-! ### Compilation -/

def published (c : Ctx) : Ctx :=
  { c with
    activeHostModules := c.activeHostModules + 1
    modules := Function.update c.modules c.nextModule
      (some { refCount := 1, acceptingInstances := true })
    nextModule := c.nextModule + 1
    handles := Function.update c.handles c.nextModule true }

theorem compileFail_acquired (status : Status) :
    (compileFail { c with activeHostModules := c.activeHostModules + 1 } true status).1 = c := by
  unfold compileFail registryRelease
  rw [if_pos rfl, if_neg (Nat.succ_ne_zero _)]
  rfl

theorem compileStages_spec (o : CompileOutcome) :
    (compileStages c o).1 = c ∨ (compileStages c o).1 = published c := by
  unfold compileStages
  split
  · exact .inl rfl
  · split
    · exact .inl rfl
    · exact .inl rfl
    · split
      · exact .inl rfl
      · split
        · exact .inl rfl
        · unfold registryAcquire
          by_cases hmax : c.activeHostModules = sizeMax
          · rw [if_pos hmax]
            exact .inl rfl
          · rw [if_neg hmax]
            dsimp only
            split
            · exact .inl (compileFail_acquired _)
            · split
              · exact .inl (compileFail_acquired _)
              · split
                · exact .inl (compileFail_acquired _)
                · exact .inl (compileFail_acquired _)
                · exact .inr rfl

theorem compile_spec (thread : Bool) (source : StringView) (options : ModuleOptions)
    (result : ResultArg) (outPresent : Bool) (o : CompileOutcome) :
    (compile utf8Valid c thread source options result outPresent o).1 = c ∨
      (compile utf8Valid c thread source options result outPresent o).1 = published c := by
  unfold compile
  split
  · split
    · exact .inl rfl
    split
    · exact .inl rfl
    split
    · exact .inl rfl
    split
    · exact .inl rfl
    split
    · exact .inl rfl
    split
    · exact .inl rfl
    split
    · exact .inl rfl
    split
    · exact .inl rfl
    exact compileStages_spec o
  · exact .inl rfl

theorem Inv.publish (h : Inv utf8Valid c) : Inv utf8Valid (published c) where
  balanced := by
    have hnone := h.balanced.fresh c.nextModule (Nat.le_refl _)
    have hzero : holders c c.nextModule = 0 := h.balanced.gone _ hnone
    have howed : ∀ k, k ≠ c.nextModule → holders (published c) k = holders c k := by
      intro k hk
      show (if Function.update c.handles c.nextModule true k then 1 else 0) + _ + _ = holders c k
      rw [update_of_ne hk]
      rfl
    have hself : holders (published c) c.nextModule = 1 := by
      show (if Function.update c.handles c.nextModule true c.nextModule then 1 else 0) +
        liveInstances c c.nextModule + c.creating.count c.nextModule = 1
      rw [update_self]
      unfold holders at hzero
      simp only [if_true]
      omega
    refine ⟨?_, fun k mod hk => ?_, fun k hk => ?_, fun k hle => ?_⟩
    · show c.activeHostModules + 1 = holding HostModule.counted
        (Function.update c.modules c.nextModule _) (c.nextModule + 1)
      rw [holding_succ, holding_update_of_le (Nat.le_refl _), update_self, h.balanced.active]
      rfl
    · have hk : Function.update c.modules c.nextModule _ k = some mod := hk
      by_cases heq : k = c.nextModule
      · subst heq
        rw [update_self] at hk
        cases hk
        exact ⟨hself.symm, Nat.one_pos⟩
      · rw [update_of_ne heq] at hk
        rw [howed k heq]
        exact h.balanced.refs k mod hk
    · have hk : Function.update c.modules c.nextModule _ k = none := hk
      by_cases heq : k = c.nextModule
      · rw [heq, update_self] at hk
        cases hk
      · rw [update_of_ne heq] at hk
        rw [howed k heq]
        exact h.balanced.gone k hk
    · have hle : c.nextModule + 1 ≤ k := hle
      show Function.update c.modules c.nextModule _ k = none
      rw [update_of_ne (by omega)]
      exact h.balanced.fresh k (by omega)
  accepting := fun k mod hk => by
    have hk : Function.update c.modules c.nextModule _ k = some mod := hk
    show mod.acceptingInstances = Function.update c.handles c.nextModule true k
    by_cases heq : k = c.nextModule
    · subst heq
      rw [update_self] at hk ⊢
      cases hk
      rfl
    · rw [update_of_ne heq] at hk ⊢
      exact h.accepting k mod hk
  fresh := h.fresh
  names := h.names

/-! ### Modules and instances -/

/-- The invariant up to the counts, which are `owed`. -/
structure Owing (utf8Valid : List UInt8 → Bool) (c : Ctx) (owed : Nat → Nat) : Prop where
  balanced : Balanced c owed
  accepting : ∀ m mod, c.modules m = some mod → mod.acceptingInstances = c.handles m
  fresh : ∀ i, c.nextInstance ≤ i → c.instances i = none
  names : NamesValid utf8Valid c.hostFunctions

variable {owed : Nat → Nat}

theorem Inv.owing (h : Inv utf8Valid c) : Owing utf8Valid c (holders c) :=
  ⟨h.balanced, h.accepting, h.fresh, h.names⟩

theorem Owing.settle (h : Owing utf8Valid c owed) (ho : ∀ m, holders c m = owed m) : Inv utf8Valid c :=
  ⟨h.balanced.congr rfl rfl rfl ho, h.accepting, h.fresh, h.names⟩

theorem Owing.counts {owed' : Nat → Nat} (h : Owing utf8Valid c owed) (hc : CountsOnly c c')
    (hb : Balanced c' owed') : Owing utf8Valid c' owed' where
  balanced := hb
  accepting := fun m mod' hm' => by
    obtain ⟨mod, hm, heq⟩ := hc.accepting m mod' hm'
    rw [heq, h.accepting m mod hm, hc.frame]
  fresh := by
    rw [hc.frame]
    exact h.fresh
  names := by
    rw [hc.frame]
    exact h.names

theorem holders_counts (hc : CountsOnly c c') (k : Nat) : holders c' k = holders c k := by
  rw [hc.frame]
  rfl

theorem Owing.release {mod : HostModule} (h : Owing utf8Valid c owed) (hm : c.modules m = some mod)
    (ho : ∀ k, owed k = holders c k + if k = m then 1 else 0) :
    ∃ c', moduleRelease c m = some c' ∧ Inv utf8Valid c' ∧ CountsOnly c c' := by
  obtain ⟨c', hr, hb, hc⟩ := moduleRelease_spec h.balanced hm
  refine ⟨c', hr, (h.counts hc hb).settle fun k => ?_, hc⟩
  rw [holders_counts hc]
  have hk := ho k
  by_cases heq : k = m
  · subst heq
    rw [if_pos rfl] at hk
    rw [update_self]
    omega
  · rw [if_neg heq] at hk
    rw [update_of_ne heq]
    omega


variable {r : Reply}

theorem moduleDestroy_spec {thread : Bool} {result : ResultArg} (h : Inv utf8Valid c)
    (hs : moduleDestroy c thread m result = some (c', r)) :
    Inv utf8Valid c' ∧ c'.hostFunctions = c.hostFunctions := by
  unfold moduleDestroy at hs
  split at hs
  · cases hs
  · rename_i mod hm
    split at hs
    · split at hs
      · cases hs
        exact ⟨h, rfl⟩
      · rename_i hacc
        obtain ⟨howed, hpos⟩ := h.balanced.refs m mod hm
        have hopen : c.handles m = true := by
          rw [← h.accepting m mod hm]
          simpa using hacc
        have hclosed : Owing utf8Valid { c with
              modules := Function.update c.modules m (some { mod with acceptingInstances := false })
              handles := Function.update c.handles m false } (holders c) := by
          have hreplace : Balanced { c with
                modules :=
                  Function.update c.modules m (some { mod with acceptingInstances := false })
                handles := Function.update c.handles m false } _ :=
            h.balanced.replace hm { mod with acceptingInstances := false } hpos rfl rfl rfl
          refine ⟨hreplace.congr rfl rfl rfl fun k => ?_, fun k mod₂ hk => ?_, h.fresh, h.names⟩
          · by_cases hkm : k = m
            · rw [hkm, update_self, howed]
            · rw [update_of_ne hkm]
          · have hk : Function.update c.modules m _ k = some mod₂ := hk
            show mod₂.acceptingInstances = Function.update c.handles m false k
            by_cases hkm : k = m
            · subst hkm
              rw [update_self] at hk ⊢
              cases hk
              rfl
            · rw [update_of_ne hkm] at hk ⊢
              exact h.accepting k mod₂ hk
        obtain ⟨c₂, hr, hinv, hc⟩ := hclosed.release (m := m) (update_self ..) fun k => by
          show holders c k = (if Function.update c.handles m false k then 1 else 0) +
            liveInstances c k + c.creating.count k + _
          by_cases hkm : k = m
          · subst hkm
            rw [update_self]
            unfold holders
            rw [hopen]
            simp only [if_true, Bool.false_eq_true, if_false]
            omega
          · rw [update_of_ne hkm, if_neg hkm]
            rfl
        dsimp only at hs
        rw [hr] at hs
        cases hs
        exact ⟨hinv, by rw [hc.frame]⟩
    · cases hs
      exact ⟨h, rfl⟩

theorem createFail_spec {status : Status} {mod : HostModule} (h : Owing utf8Valid c owed)
    (hm : c.modules m = some mod) (ho : ∀ k, owed k = holders c k + if k = m then 1 else 0)
    (hs : createFail c m status = some (c', r)) :
    Inv utf8Valid c' ∧ c'.hostFunctions = c.hostFunctions := by
  obtain ⟨c₂, hr, hinv, hc⟩ := h.release hm ho
  unfold createFail at hs
  rw [hr] at hs
  cases hs
  exact ⟨hinv, by rw [hc.frame]⟩

theorem count_push (k m : Nat) (l : List Nat) : (m :: l).count k = l.count k + if k = m then 1 else 0 := by
  rw [List.count_cons]
  by_cases h : k = m
  · rw [if_pos (beq_iff_eq.mpr h.symm), if_pos h]
  · rw [if_neg fun heq => h (beq_iff_eq.mp heq).symm, if_neg h]

theorem createBegin_spec {thread : Bool} {options : InstanceOptions} {result : ResultArg}
    {outPresent allocated : Bool} {runtimeCreated : Status} (h : Inv utf8Valid c)
    (hs : createBegin c thread m options result outPresent allocated runtimeCreated =
      some (c', r)) : Inv utf8Valid c' ∧ c'.hostFunctions = c.hostFunctions := by
  have hsame : ∀ {r' : Reply}, some (c, r') = some (c', r) →
      Inv utf8Valid c' ∧ c'.hostFunctions = c.hostFunctions := by
    intro r' heq
    cases heq
    exact ⟨h, rfl⟩
  unfold createBegin at hs
  split at hs
  · cases hs
  · split at hs
    · split at hs
      · exact hsame hs
      split at hs
      · exact hsame hs
      split at hs
      · exact hsame hs
      split at hs
      · exact hsame hs
      split at hs
      · exact hsame hs
      split at hs
      · cases hs
      · rename_i c₁ hretain
        obtain ⟨hb, hc, mod, hm⟩ := moduleRetain_spec h.balanced hretain
        have howing := h.owing.counts hc hb
        have hfunctions : c₁.hostFunctions = c.hostFunctions := by rw [hc.frame]
        have howed : ∀ k, Function.update (holders c) m (holders c m + 1) k =
            holders c₁ k + if k = m then 1 else 0 := by
          intro k
          rw [holders_counts hc]
          by_cases hkm : k = m
          · rw [hkm, update_self, if_pos rfl]
          · rw [update_of_ne hkm, if_neg hkm, Nat.add_zero]
        split at hs
        · obtain ⟨hinv, hf⟩ := createFail_spec howing hm howed hs
          exact ⟨hinv, hf.trans hfunctions⟩
        · cases hs
          have hpush : Owing utf8Valid { c₁ with creating := m :: c₁.creating } _ :=
            ⟨howing.balanced.congr rfl rfl rfl fun _ => rfl, howing.accepting, howing.fresh, howing.names⟩
          refine ⟨hpush.settle fun k => ?_, hfunctions⟩
          rw [howed k]
          show (if c₁.handles k then 1 else 0) + liveInstances c₁ k + (m :: c₁.creating).count k =
            (if c₁.handles k then 1 else 0) + liveInstances c₁ k + c₁.creating.count k + _
          rw [count_push]
          exact (Nat.add_assoc ..).symm
    · exact hsame hs

theorem contributes_module (inst : LiveInstance) (k : Nat) :
    contributes (fun inst : LiveInstance => inst.module == k) (some inst) =
      if k = inst.module then 1 else 0 := by
  unfold contributes
  by_cases h : k = inst.module
  · rw [if_pos (by simp [h]), if_pos h]
  · rw [if_neg (by simpa using fun heq => h (Eq.symm heq)), if_neg h]

theorem Inv.live (h : Inv utf8Valid c) (hpos : 0 < holders c m) : ∃ mod, c.modules m = some mod := by
  cases hm : c.modules m with
  | some mod => exact ⟨mod, rfl⟩
  | none =>
    rw [h.balanced.gone m hm] at hpos
    exact absurd hpos (Nat.lt_irrefl 0)

theorem createEnd_spec {o : CreateOutcome} (h : Inv utf8Valid c) (hs : createEnd c o = some (c', r)) :
    Inv utf8Valid c' ∧ c'.hostFunctions = c.hostFunctions := by
  unfold createEnd at hs
  split at hs
  · cases hs
  · rename_i m rest hcreating
    have howed : ∀ k, holders c k = holders { c with creating := rest } k + if k = m then 1 else 0 := by
      intro k
      show (if c.handles k then 1 else 0) + liveInstances c k + c.creating.count k =
        (if c.handles k then 1 else 0) + liveInstances c k + rest.count k + _
      rw [hcreating, count_push]
      exact (Nat.add_assoc ..).symm
    have howing : Owing utf8Valid { c with creating := rest } (holders c) :=
      ⟨h.balanced.congr rfl rfl rfl fun _ => rfl, h.accepting, h.fresh, h.names⟩
    obtain ⟨mod, hm⟩ := h.live (m := m) (by
      rw [howed m, if_pos rfl]
      exact Nat.succ_pos _)
    have hfail : ∀ {status : Status}, createFail { c with creating := rest } m status = some (c', r) →
        Inv utf8Valid c' ∧ c'.hostFunctions = c.hostFunctions := by
      intro status hs
      obtain ⟨hinv, hf⟩ := createFail_spec howing hm howed hs
      exact ⟨hinv, hf⟩
    dsimp only at hs
    split at hs
    · exact hfail hs
    split at hs
    · exact hfail hs
    split at hs
    · exact hfail hs
    · cases hs
      refine ⟨⟨h.balanced.congr rfl rfl rfl fun k => ?_, h.accepting, fun i hle => ?_, h.names⟩, rfl⟩
      · rw [howed k]
        show (if c.handles k then 1 else 0) + holding (fun inst : LiveInstance => inst.module == k)
            (Function.update c.instances c.nextInstance _) (c.nextInstance + 1) + rest.count k =
          (if c.handles k then 1 else 0) + liveInstances c k + rest.count k + _
        rw [holding_succ, holding_update_of_le (Nat.le_refl _), update_self, contributes_module]
        unfold liveInstances
        dsimp only
        omega
      · have hle : c.nextInstance + 1 ≤ i := hle
        show Function.update c.instances c.nextInstance _ i = none
        rw [update_of_ne (by omega)]
        exact h.fresh i (by omega)

theorem Inv.instance_lt {i : Nat} {inst : LiveInstance} (h : Inv utf8Valid c)
    (hi : c.instances i = some inst) : i < c.nextInstance := by
  apply Nat.lt_of_not_le
  intro hle
  rw [h.fresh i hle] at hi
  cases hi

theorem instanceDestroy_spec {thread : Bool} {i : Nat} {result : ResultArg} (h : Inv utf8Valid c)
    (hs : instanceDestroy c thread i result = some (c', r)) :
    Inv utf8Valid c' ∧ c'.hostFunctions = c.hostFunctions := by
  unfold instanceDestroy at hs
  split at hs
  · cases hs
  · rename_i inst hi
    split at hs
    · split at hs
      · cases hs
        exact ⟨h, rfl⟩
      · have howed : ∀ k, holders c k =
            holders { c with instances := Function.update c.instances i none } k +
              if k = inst.module then 1 else 0 := by
          intro k
          have hcount := holding_update (p := fun inst : LiveInstance => inst.module == k)
            (f := c.instances) (v := none) (h.instance_lt hi)
          have hnone : contributes (fun inst : LiveInstance => inst.module == k) none = 0 := rfl
          have hsome : contributes (fun inst : LiveInstance => inst.module == k) (c.instances i) =
              if k = inst.module then 1 else 0 := by
            rw [hi, contributes_module]
          show (if c.handles k then 1 else 0) + holding _ c.instances c.nextInstance + c.creating.count k =
            (if c.handles k then 1 else 0) + holding _ (Function.update c.instances i none)
              c.nextInstance + c.creating.count k + _
          omega
        have howing : Owing utf8Valid
            { c with instances := Function.update c.instances i none } (holders c) := by
          refine ⟨h.balanced.congr rfl rfl rfl fun _ => rfl, h.accepting, fun j hle => ?_, h.names⟩
          show Function.update c.instances i none j = none
          by_cases hji : j = i
          · rw [hji, update_self]
          · rw [update_of_ne hji]
            exact h.fresh j hle
        obtain ⟨mod, hm⟩ := h.live (m := inst.module) (by
          rw [howed, if_pos rfl]
          exact Nat.succ_pos _)
        obtain ⟨c₂, hr, hinv, hc⟩ := howing.release hm howed
        dsimp only at hs
        rw [hr] at hs
        cases hs
        exact ⟨hinv, by rw [hc.frame]⟩
    · cases hs
      exact ⟨h, rfl⟩

theorem Inv.boundary {i : Nat} {inst : LiveInstance} (h : Inv utf8Valid c)
    (hi : c.instances i = some inst) (state : InstanceState) :
    Inv utf8Valid
      { c with instances := Function.update c.instances i (some { inst with state := state }) } := by
  refine ⟨h.balanced.congr rfl rfl rfl fun k => ?_, h.accepting, fun j hle => ?_, h.names⟩
  · have hcount := holding_update (p := fun inst : LiveInstance => inst.module == k)
      (f := c.instances) (v := some { inst with state := state }) (h.instance_lt hi)
    have hsame : contributes (fun inst : LiveInstance => inst.module == k) (c.instances i) =
        contributes (fun inst : LiveInstance => inst.module == k) (some { inst with state := state }) := by
      rw [hi]
      rfl
    show (if c.handles k then 1 else 0) + holding _ (Function.update c.instances i _)
        c.nextInstance + c.creating.count k =
      (if c.handles k then 1 else 0) + holding _ c.instances c.nextInstance + c.creating.count k
    omega
  · show Function.update c.instances i _ j = none
    have hlt : i < c.nextInstance := h.instance_lt hi
    have hle : c.nextInstance ≤ j := hle
    rw [update_of_ne (by omega)]
    exact h.fresh j hle

end Invariant

/-! ## Every run -/

section Runs
variable {utf8Valid : List UInt8 → Bool} {c c' : Ctx}

theorem step_inv {op : Op} {r : Reply} (h : Inv utf8Valid c) (hs : step utf8Valid c op = some (c', r)) :
    Inv utf8Valid c' ∧ (0 < c.activeHostModules → c'.hostFunctions = c.hostFunctions) := by
  have hregistry : ∀ {p : Ctx × Reply},
      (∃ fs, p.1 = { c with hostFunctions := fs } ∧ NamesValid utf8Valid fs ∧
        (0 < c.activeHostModules → fs = c.hostFunctions)) → some p = some (c', r) →
      Inv utf8Valid c' ∧ (0 < c.activeHostModules → c'.hostFunctions = c.hostFunctions) := by
    intro p hp heq
    obtain ⟨fs, hfs, hnames, hfrozen⟩ := hp
    cases heq
    obtain rfl : c' = { c with hostFunctions := fs } := hfs
    exact ⟨⟨h.balanced.congr rfl rfl rfl fun _ => rfl, h.accepting, h.fresh, hnames⟩, hfrozen⟩
  have hkept : Inv utf8Valid c' ∧ c'.hostFunctions = c.hostFunctions →
      Inv utf8Valid c' ∧ (0 < c.activeHostModules → c'.hostFunctions = c.hostFunctions) :=
    fun hi => ⟨hi.1, fun _ => hi.2⟩
  cases op with
  | register thread d result nameCopied pushed =>
    exact hregistry (registerHostFunction_spec thread d result nameCopied pushed h.names) hs
  | unregister thread name result erased =>
    exact hregistry (unregisterHostFunction_spec thread name result erased h.names) hs
  | compile thread source options result outPresent o =>
    have hc : (compile utf8Valid c thread source options result outPresent o).1 = c' :=
      congrArg Prod.fst (Option.some.inj hs)
    rcases @compile_spec utf8Valid c thread source options result outPresent o with hsame | hnew
    · rw [hsame] at hc
      subst hc
      exact ⟨h, fun _ => rfl⟩
    · rw [hnew] at hc
      subst hc
      exact ⟨h.publish, fun _ => rfl⟩
  | moduleDestroy thread m result => exact hkept (moduleDestroy_spec h hs)
  | createBegin thread m options result outPresent allocated runtimeCreated =>
    exact hkept (createBegin_spec h hs)
  | createEnd o => exact hkept (createEnd_spec h hs)
  | instanceDestroy thread i result => exact hkept (instanceDestroy_spec h hs)
  | boundary i state =>
    simp only [step] at hs
    split at hs
    · cases hs
    · rename_i hi
      cases hs
      exact ⟨h.boundary hi state, fun _ => rfl⟩
  | close =>
    cases hs
    exact ⟨⟨h.balanced.congr rfl rfl rfl fun _ => rfl, h.accepting, h.fresh, h.names⟩, fun _ => rfl⟩

theorem run_inv (ops : List Op) (hrun : run (step utf8Valid) .init ops = some c) : Inv utf8Valid c :=
  run_invariant (fun _ _ _ _ h hs => (step_inv h hs).1) ops _ c inv_init hrun

end Runs

structure Accounted (utf8Valid : List UInt8 → Bool) (c : Ctx) : Prop where
  active : c.activeHostModules = holding (fun mod => decide (0 < mod.refCount)) c.modules c.nextModule
  counted : ∀ m, c.nextModule ≤ m → c.modules m = none
  refs : ∀ m mod, c.modules m = some mod →
    mod.refCount = (if c.handles m then 1 else 0) + liveInstances c m + c.creating.count m
  destroyed : ∀ m < c.nextModule, c.modules m = none ↔
    (if c.handles m then 1 else 0) + liveInstances c m + c.creating.count m = 0
  valid : ∀ e ∈ c.hostFunctions, validateName utf8Valid (.of e.name) = .ok
  distinct : (c.hostFunctions.map FunctionEntry.name).Nodup

theorem Inv.accounted {utf8Valid : List UInt8 → Bool} {c : Ctx} (h : Inv utf8Valid c) :
    Accounted utf8Valid c where
  active := h.balanced.active
  counted := h.balanced.fresh
  refs := fun m mod hm => (h.balanced.refs m mod hm).1
  destroyed := fun m _ => by
    constructor
    · exact h.balanced.gone m
    · intro hzero
      cases hm : c.modules m with
      | none => rfl
      | some mod =>
        obtain ⟨hrefs, hpos⟩ := h.balanced.refs m mod hm
        have hzero : holders c m = 0 := hzero
        omega
  valid := h.names.valid
  distinct := h.names.distinct

/-- In every state that operations and the callbacks among them reach, the counts are what
is held, and while a module is active no operation moves a slot of the registry. -/
theorem lifetimes_accounted (utf8Valid : List UInt8 → Bool) (ops : List Op) (c : Ctx)
    (hrun : run (step utf8Valid) .init ops = some c) :
    Accounted utf8Valid c ∧ ∀ (op : Op) (c' : Ctx) (r : Reply), step utf8Valid c op = some (c', r) →
        0 < c.activeHostModules → c'.hostFunctions = c.hostFunctions ∧
          ∀ name, findSlot utf8Valid c' name = findSlot utf8Valid c name := by
  have h := run_inv ops hrun
  refine ⟨h.accounted, fun op c' r hs hpos => ?_⟩
  have hsame := (step_inv h hs).2 hpos
  refine ⟨hsame, fun name => ?_⟩
  unfold findSlot
  rw [hsame]

/-- A function is registered and a module compiled; the initializer of its first instance closes
the handle and compiles in vain; a failed creation, the instance goes, and with it the module. -/
def sampleOps : List Op :=
  let name : List UInt8 := [102]
  let options : ModuleOptions :=
    { present := true, structSizeValid := true, reservedZero := true, moduleName := .of [109]
      maxSourceBytes := 100, maxAstNodes := 10, maxImports := 1, maxExports := 1
      maxStringBytes := 100 }
  let limits : InstanceOptions :=
    { structSizeValid := true, modeValid := true, jit := false, maxRetainedBytes := 1
      maxStackBytes := 1, maxRecursion := 1, maxGlobals := 1, maxValueDepth := 1
      reservedZero := true, maxValueNodes := 1, maxResultBytes := 1 }
  let compiles : CompileOutcome :=
    { allocated := true, textsCopied := true, parsed := .done, astWithinLimits := true
      exportScan := .ok, bound := .ok, validated := true, lowered := .done }
  [ .register true
      { present := true, structSizeValid := true, callbackPresent := true, reservedZero := true
        name := .of name, minArity := 0, maxArity := 1 } (.own 0) true .ok,
    .compile true (.of [49]) options (.own 0) true compiles,
    .createBegin true 0 limits (.own 0) true true .ok,
    .createBegin true 0 limits (.own 0) true true .outOfMemory,
    .compile true (.of [49]) options (.own 0) true { compiles with validated := false },
    .moduleDestroy true 0 (.own 0),
    .createEnd { initialized := .ok, exportsBound := .ok, retainedWithin := true },
    .unregister true (.of name) (.own 0) .ok,
    .instanceDestroy true 0 (.own 0) ]

/-- The counts along the sample, and the registry that was frozen in between. -/
theorem sample_lifetimes : ∃ c, run (step fun _ => true) .init sampleOps = some c ∧
    Accounted (fun _ => true) c ∧ c.activeHostModules = 0 ∧ c.hostFunctions.length = 1 := by
  have hfinal : (run (step fun _ => true) .init sampleOps).map
      (fun c => (c.activeHostModules, c.hostFunctions.length)) = some (0, 1) := by decide +kernel
  obtain ⟨c, hrun, hc⟩ := Option.map_eq_some_iff.mp hfinal
  exact ⟨c, hrun, (lifetimes_accounted (fun _ => true) sampleOps c hrun).1,
    congrArg Prod.fst hc, congrArg Prod.snd hc⟩

end TurboScript.Host.Lifetime
