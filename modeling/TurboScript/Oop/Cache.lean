import TurboScript.Oop.Kept
import TurboScript.Lib.Transition

/- The inline caches of compiled member accesses.

   Every compiled read, write and call of a member has a cache of its own. A read on an instance
   asks that the cache names the instance and the version of its fields; a read on a class asks
   only that the class the cache names has not got a new static field since, not that it has
   anything to do with the receiver.

   1. Slots: addresses of values, which dangle once the storage behind them has moved.
   2. Runs: definitions, instances, field writes and accesses, in any order.
   3. What a cache knows, kept by every step of `Kept`.
   4. An access answers as without its cache, but for two kinds of hits on classes: a read
      that another class filled, and a write whose access is that of an inherited entry. -/
namespace TurboScript.Oop
open Exprtk (Name ClassId InstanceId AccessLevel)
open Lib

/-! Slots and outcomes. -/

inductive Object
  | instance (i : InstanceId)
  | class (c : ClassId)
  deriving DecidableEq, Repr

/-- The address of a value: a position in the slots of an instance, or an entry of a table.
    The number is the size of the storage, which moves when the size changes. -/
inductive Slot
  | field (i : InstanceId) (index capacity : Nat)
  | entry (i : InstanceId) (name : Name) (size : Nat)
  | static (c : ClassId) (name : Name) (size : Nat)
  deriving DecidableEq, Repr

inductive Outcome (V : Type)
  | value (v : V)
  | bound (i : InstanceId) (m : Method)
  | function (m : Method)
  | error (msg : String)
  /-- The read of storage that has moved. -/
  | dangling
  deriving DecidableEq, Repr

section Slots
variable {V : Type} (w : World V)

/-- The value behind an address; `none` if the storage has moved. -/
def deref : Slot → Option V
  | .field i index capacity =>
    if (w.instances i).slotCapacity = capacity then (w.instances i).slots index else none
  | .entry i name size =>
    if (w.instances i).fields.length = size then (w.instances i).fields.lookup name else none
  | .static c name size =>
    if (w.classes c).staticFields.length = size then
      ((w.classes c).staticFields.find? fun e => e.name == name).map StaticField.value
    else none

def readSlot (s : Slot) : Outcome V :=
  match deref w s with
  | some v => .value v
  | none => .dangling

/-- `exprtk_instance_get_field_slot`. -/
def fieldSlot (i : InstanceId) (name : Name) : Option Slot :=
  let inst := w.instances i
  match (fieldIndex (w.classes inst.klass) name).filter fun index => (inst.slots index).isSome with
  | some index => some (.field i index inst.slotCapacity)
  | none =>
    if (inst.fields.lookup name).isSome then some (.entry i name inst.fields.length) else none

def staticSlot (c : ClassId) (name : Name) : Option (ClassId × Slot) :=
  (staticFieldSlot w c name).map fun p =>
    (p.1, .static p.1 name (w.classes p.1).staticFields.length)

end Slots

/-! Accesses without a cache. -/

section Uncached
variable {V : Type} [FieldValue V] (ctx : Context)

def privateMemberError (member : Name) : String :=
  "Private member '" ++ member ++ "' is not accessible"

def hiddenName (w : World V) (member : Name) : Bool :=
  isPrivateMemberName member && !canAccessPrivateMember w ctx

def memberMethod (w : World V) (object : Object) (member : Name) : Outcome V :=
  match object with
  | .instance i =>
    match lookupMethod w (w.instances i).klass member false with
    | some m => if canAccessMethod w ctx m then .bound i m else .error (accessError "Method" member m.access)
    | none => .error ("Instance has no field or method '" ++ member ++ "'")
  | .class c =>
    match lookupMethod w c member true with
    | some m => if canAccessMethod w ctx m then .function m else .error (accessError "Method" member m.access)
    | none => .error ("Class has no static field or method '" ++ member ++ "'")

/-- What a found field with this access answers. -/
def admitField (w : World V) (access : Option ClassId × AccessLevel) (member : Name)
    (answer : Outcome V) : Outcome V :=
  if canAccessDeclaredField w ctx access.1 access.2 member then answer
  else .error (accessError "Field" member access.2)

/-- `exprtk_oop_get_member_checked`. -/
def getMemberChecked (w : World V) (object : Object) (member : Name) : Outcome V × World V :=
  if hiddenName ctx w member then (.error (privateMemberError member), w)
  else
    match object with
    | .instance i =>
      match getField w i member with
      | some v =>
        let (access, w) := getInstanceFieldAccess w (w.instances i).klass member
        (admitField ctx w access member (.value v), w)
      | none => (memberMethod ctx w object member, w)
    | .class c =>
      match getStaticField w c member with
      | some v => (admitField ctx w (getStaticFieldAccess w c member) member (.value v), w)
      | none => (memberMethod ctx w object member, w)

def storeChecked (w : World V) (object : Object) (member : Name) (v : V) : Outcome V × World V :=
  let (result, w) := match object with
    | .instance i => setFieldChecked w i member v
    | .class c => setStaticFieldChecked w c member v
  match result with
  | .ok () => (.value v, w)
  | .error msg => (.error msg, w)

/-- The access to the field of an object, and the world after the lookup. -/
def memberAccess (w : World V) (object : Object) (member : Name) :
    (Option ClassId × AccessLevel) × World V :=
  match object with
  | .instance i => getInstanceFieldAccess w (w.instances i).klass member
  | .class c => (getStaticFieldAccess w c member, w)

def storeIf (w : World V) (access : Option ClassId × AccessLevel) (object : Object)
    (member : Name) (v : V) : Outcome V × World V :=
  if canAccessDeclaredField w ctx access.1 access.2 member then storeChecked w object member v
  else (.error (accessError "Field" member access.2), w)

/-- `exprtk_oop_set_member_checked_numeric`. -/
def setMemberChecked (w : World V) (object : Object) (member : Name) (v : V) : Outcome V × World V :=
  let (access, w) := memberAccess w object member
  storeIf ctx w access object member v

def receiverClass (w : World V) : Object → ClassId
  | .instance i => (w.instances i).klass
  | .class c => c

def Object.isClass : Object → Bool
  | .instance _ => false
  | .class _ => true

def numberScore (_ : Method) (declaredType : Name) : Nat := if declaredType = "number" then 10 else 0

/-- The lookup of a call with `argc` numbers. -/
def lookupNumeric (w : World V) (object : Object) (member : Name) (argc : Nat) : Option Method :=
  lookupMethodTyped w (receiverClass w object) member object.isClass
    (List.replicate argc "number") (List.replicate argc numberScore)

/-- The method that is then called, or the error. -/
def admitCall (w : World V) (object : Object) (member : Name) (method : Option Method) :
    Except String Method :=
  match method with
  | none => .error ((if object.isClass then "Class has no static method '" else "Instance has no method '")
      ++ member ++ "'")
  | some m => if canAccessMethod w ctx m then .ok m else .error (accessError "Method" member m.access)

/-- `exprtk_oop_call_method_checked_numeric`, up to the call itself. -/
def callMethodChecked (w : World V) (object : Object) (member : Name) (argc : Nat) : Except String Method :=
  admitCall ctx w object member (lookupNumeric w object member argc)

end Uncached

/-! Accesses with a cache. -/

/-- `exprtk_oop_field_cache_t`. -/
structure FieldCache where
  owner : Option Object := none
  fieldOwner : Option ClassId := none
  version : Nat := 0
  slot : Option Slot := none
  access : AccessLevel := .publicAccess
  isStatic : Bool := false

/-- `exprtk_oop_method_cache_t`. -/
structure MethodCache where
  lastClass : Option ClassId := none
  method : Option Method := none
  argSignature : Nat := 0
  argc : Nat := 0
  isStatic : Bool := false

/-- `oop_method_arg_signature` of numbers, whose type code is 0. -/
def argSignature (argc : Nat) : Nat :=
  let mix := fun (hash part : Nat) => Nat.xor hash part * 1099511628211 % 2 ^ 64
  let hash := (List.replicate argc 0).foldl mix (mix 1469598103934665603 argc)
  if hash = 0 then 1 else hash

section Cached
variable {V : Type} [FieldValue V] (ctx : Context)

def version (w : World V) : Object → Nat
  | .instance i => (w.instances i).fieldVersion
  | .class c => (w.classes c).staticFieldVersion

/-- The slot a read may use. On a class only the version of the class that the cache names
    is compared. -/
def readHit (w : World V) (cache : FieldCache) (object : Object) : Option Slot :=
  match object, cache.owner with
  | .instance i, some owner =>
    if !cache.isStatic ∧ owner = .instance i ∧ cache.version = version w owner then cache.slot
    else none
  | .class _, some owner =>
    if cache.isStatic ∧ cache.version = version w owner then cache.slot else none
  | _, none => none

/-- The slot a lookup finds, with the object whose storage holds it. -/
def findSlot (w : World V) (object : Object) (member : Name) : Option (Object × Slot) :=
  match object with
  | .instance i => (fieldSlot w i member).map fun s => (.instance i, s)
  | .class c => (staticSlot w c member).map fun p => (.class p.1, p.2)

/-- `exprtk_oop_get_member_cached_checked`. -/
def getMemberCached (w : World V) (cache : FieldCache) (object : Object) (member : Name) :
    Outcome V × FieldCache × World V :=
  if hiddenName ctx w member then (.error (privateMemberError member), cache, w)
  else
    match readHit w cache object with
    | some s => (admitField ctx w (cache.fieldOwner, cache.access) member (readSlot w s), cache, w)
    | none =>
      let (access, w) := memberAccess w object member
      match findSlot w object member with
      | some (owner, s) =>
        if canAccessDeclaredField w ctx access.1 access.2 member then
          (readSlot w s, ⟨some owner, access.1, version w owner, some s, access.2, object.isClass⟩, w)
        else (.error (accessError "Field" member access.2), cache, w)
      | none => (memberMethod ctx w object member, cache, w)

/-- A write may use a cache that names its object. -/
def writeHit (w : World V) (cache : FieldCache) (object : Object) : Bool :=
  cache.isStatic == object.isClass && cache.owner == some object &&
    cache.version == version w object && cache.slot.isSome

/-- `exprtk_oop_set_member_cached_checked_numeric`. The access kept in the cache is the one
    from before the store. -/
def setMemberCached (w : World V) (cache : FieldCache) (object : Object) (member : Name) (v : V) :
    Outcome V × FieldCache × World V :=
  if writeHit w cache object then
    let (out, w) := storeIf ctx w (cache.fieldOwner, cache.access) object member v
    (out, cache, w)
  else
    let (access, w) := memberAccess w object member
    if canAccessDeclaredField w ctx access.1 access.2 member then
      match storeChecked w object member v with
      | (.error msg, w) => (.error msg, cache, w)
      | (out, w) =>
        match findSlot w object member with
        | some (_, s) =>
          (out, ⟨some object, access.1, version w object, some s, access.2, object.isClass⟩, w)
        | none => (out, cache, w)
    else (.error (accessError "Field" member access.2), cache, w)

def callHit (w : World V) (cache : MethodCache) (object : Object) (argc : Nat) : Option Method :=
  if cache.lastClass = some (receiverClass w object) ∧ cache.isStatic = object.isClass ∧
      cache.argc = argc ∧ cache.argSignature = argSignature argc then cache.method
  else none

/-- `exprtk_oop_call_method_cached_checked_numeric`, up to the call itself. -/
def callMethodCached (w : World V) (cache : MethodCache) (object : Object) (member : Name)
    (argc : Nat) : Except String Method × MethodCache :=
  match callHit w cache object argc with
  | some m => (admitCall ctx w object member (some m), cache)
  | none =>
    let method := lookupNumeric w object member argc
    (admitCall ctx w object member method,
      ⟨some (receiverClass w object), method, argSignature argc, argc, object.isClass⟩)

end Cached

/-! Runs. -/

/-- A program's places with a cache: each kind of access numbers its own, and the place
    fixes the member. -/
structure State (V : Type) where
  world : World V
  readCaches : Nat → FieldCache
  writeCaches : Nat → FieldCache
  callCaches : Nat → MethodCache

def State.init {V : Type} : State V :=
  ⟨World.empty, fun _ => {}, fun _ => {}, fun _ => {}⟩

/-- A step of a program: a definition, a new instance, a store without a cache, a look at
    the layout of a class, or an access at a place. -/
inductive Op (V : Type)
  | define (scope : ClassScope) (d : ClassDef V)
  | create (c : ClassId)
  | setField (i : InstanceId) (name : Name) (v : V)
  | setStatic (c : ClassId) (name : Name) (v : V)
  | sync (c : ClassId)
  | read (site : Nat) (object : Object) (ctx : Context)
  | write (site : Nat) (object : Object) (ctx : Context) (v : V)
  | call (site : Nat) (object : Object) (ctx : Context) (argc : Nat)

section Runs
variable {V : Type}

def Object.known (w : World V) : Object → Bool
  | .instance i => i < w.nextInstance
  | .class c => c < w.nextClass

def Op.admissible (w : World V) : Op V → Bool
  | .define scope _ => scope.all fun p => p.2 < w.nextClass
  | .create c => c < w.nextClass
  | .setField i _ _ => i < w.nextInstance
  | .setStatic c _ _ => c < w.nextClass
  | .sync c => c < w.nextClass
  | .read _ object _ => object.known w
  | .write _ object _ _ => object.known w
  | .call _ object _ _ => object.known w

variable [FieldValue V] (member : Nat → Name)

def perform (s : State V) : Op V → State V
  | .define scope d => { s with world := (defineClass scope s.world d).2 }
  | .create c => { s with world := (createInstance s.world c).2 }
  | .setField i name v => { s with world := (setFieldChecked s.world i name v).2 }
  | .setStatic c name v => { s with world := (setStaticFieldChecked s.world c name v).2 }
  | .sync c => { s with world := syncFields s.world c }
  | .read n object ctx =>
    let (_, cache, w) := getMemberCached ctx s.world (s.readCaches n) object (member n)
    { s with world := w, readCaches := Function.update s.readCaches n cache }
  | .write n object ctx v =>
    let (_, cache, w) := setMemberCached ctx s.world (s.writeCaches n) object (member n) v
    { s with world := w, writeCaches := Function.update s.writeCaches n cache }
  | .call n object ctx argc =>
    let (_, cache) := callMethodCached ctx s.world (s.callCaches n) object (member n) argc
    { s with callCaches := Function.update s.callCaches n cache }

def step (s : State V) (op : Op V) : Option (State V × Unit) :=
  if op.admissible s.world then some (perform member s op, ()) else none

end Runs

/-! What a cache knows. -/

section Invariant
variable {V : Type} {w w' : World V} {member : Name} {cache : FieldCache}

/-- A cache filled on an instance: its slot is the position of the member, and current as
    long as the versions agree. -/
structure InstanceCacheOk (w : World V) (member : Name) (cache : FieldCache) (i : InstanceId) :
    Prop where
  owner : cache.owner = some (.instance i)
  kind : cache.isStatic = false
  known : i < w.nextInstance
  version : cache.version ≤ (w.instances i).fieldVersion
  slot : ∃ index capacity, cache.slot = some (.field i index capacity) ∧
    fieldIndex (w.classes (w.instances i).klass) member = some index ∧
    ((w.instances i).slots index).isSome ∧
    (cache.version = (w.instances i).fieldVersion → capacity = (w.instances i).slotCapacity)
  access : cache.access = (layoutAccess (w.classes (w.instances i).klass) member).2
  fieldOwner : cache.access = .publicAccess ∨
    cache.fieldOwner = (layoutAccess (w.classes (w.instances i).klass) member).1

/-- A read cache filled on a class: it names an entry, with its access, of some class. -/
structure StaticReadOk (w : World V) (member : Name) (cache : FieldCache) (k : ClassId) : Prop where
  owner : cache.owner = some (.class k)
  kind : cache.isStatic = true
  known : k < w.nextClass
  slot : ∃ size, cache.slot = some (.static k member size) ∧ cache.version = size + 1
  entry : ∃ e, ((w.classes k).staticFields.find? fun e => e.name == member) = some e ∧
    cache.fieldOwner = some e.owner ∧ cache.access = e.access

/-- A write cache filled on a class: the class has an entry of its own, public if the access
    in the cache is that of another one. -/
structure StaticWriteOk (w : World V) (member : Name) (cache : FieldCache) (c : ClassId) : Prop where
  owner : cache.owner = some (.class c)
  kind : cache.isStatic = true
  known : c < w.nextClass
  entry : ∃ e, ((w.classes c).staticFields.find? fun e => e.name == member) = some e ∧
    (cache.fieldOwner = some c → cache.access = e.access) ∧
    (cache.fieldOwner ≠ some c → e.access = .publicAccess)

def ReadCacheOk (w : World V) (member : Name) (cache : FieldCache) : Prop :=
  cache.slot = none ∨ (∃ i, InstanceCacheOk w member cache i) ∨ ∃ k, StaticReadOk w member cache k

def WriteCacheOk (w : World V) (member : Name) (cache : FieldCache) : Prop :=
  cache.slot = none ∨ (∃ i, InstanceCacheOk w member cache i) ∨ ∃ c, StaticWriteOk w member cache c

/-- The lookup that a call cache answers for. -/
def CallCacheOk (w : World V) (member : Name) (cache : MethodCache) : Prop :=
  ∀ c m, cache.lastClass = some c → cache.method = some m → c < w.nextClass ∧
    lookupMethodTyped w c member cache.isStatic (List.replicate cache.argc "number")
      (List.replicate cache.argc numberScore) = some m

theorem InstanceCacheOk.kept {i : InstanceId} (h : InstanceCacheOk w member cache i)
    (hw : WorldOk w) (hk : Kept w w') : InstanceCacheOk w' member cache i := by
  have hi := hk.instances i h.known
  obtain ⟨index, capacity, hs, hidx, hu, hcap⟩ := h.slot
  have hclass := hk.classes _ (hw.klass i h.known)
  have haccess := hclass.layoutAccess hidx
  refine ⟨h.owner, h.kind, h.known.trans_le hk.nextInstance, h.version.trans hi.version,
    ⟨index, capacity, hs, ?_, hi.used index hu, ?_⟩, ?_, ?_⟩
  · rw [hi.klass]
    exact hclass.fieldIndex hidx
  · intro hv
    have h1 := h.version
    have h2 := hi.version
    rw [hcap (by omega), hi.capacity (by omega)]
  · rw [hi.klass, haccess]
    exact h.access
  · rw [hi.klass, haccess]
    exact h.fieldOwner

theorem StaticReadOk.kept {k : ClassId} (h : StaticReadOk w member cache k) (hk : Kept w w') :
    StaticReadOk w' member cache k := by
  obtain ⟨e, he, ho, ha⟩ := h.entry
  obtain ⟨e', he', ho', ha'⟩ := (hk.classes k h.known).static member e he
  exact ⟨h.owner, h.kind, h.known.trans_le hk.nextClass, h.slot,
    ⟨e', he', by rw [ho, ho'], by rw [ha, ha']⟩⟩

theorem StaticWriteOk.kept {c : ClassId} (h : StaticWriteOk w member cache c) (hk : Kept w w') :
    StaticWriteOk w' member cache c := by
  obtain ⟨e, he, ho, hn⟩ := h.entry
  obtain ⟨e', he', -, ha'⟩ := (hk.classes c h.known).static member e he
  refine ⟨h.owner, h.kind, h.known.trans_le hk.nextClass, ⟨e', he', ?_, ?_⟩⟩
  · intro hc
    rw [ha', ho hc]
  · intro hc
    rw [ha', hn hc]

theorem ReadCacheOk.kept (h : ReadCacheOk w member cache) (hw : WorldOk w) (hk : Kept w w') :
    ReadCacheOk w' member cache := by
  obtain h | ⟨i, h⟩ | ⟨k, h⟩ := h
  · exact .inl h
  · exact .inr (.inl ⟨i, h.kept hw hk⟩)
  · exact .inr (.inr ⟨k, h.kept hk⟩)

theorem WriteCacheOk.kept (h : WriteCacheOk w member cache) (hw : WorldOk w) (hk : Kept w w') :
    WriteCacheOk w' member cache := by
  obtain h | ⟨i, h⟩ | ⟨c, h⟩ := h
  · exact .inl h
  · exact .inr (.inl ⟨i, h.kept hw hk⟩)
  · exact .inr (.inr ⟨c, h.kept hk⟩)

theorem CallCacheOk.kept {cache : MethodCache} (h : CallCacheOk w member cache) (hw : WorldOk w)
    (hk : Kept w w') : CallCacheOk w' member cache := by
  intro c m hc hm
  obtain ⟨hlt, hl⟩ := h c m hc hm
  exact ⟨hlt.trans_le hk.nextClass, (hk.lookupMethodTyped hw hlt ..).trans hl⟩

end Invariant

/-! Lookups with and without addresses. -/

section Lookups
variable {V : Type} {w : World V} {member : Name}

def memberValue (w : World V) (object : Object) (member : Name) : Option V :=
  match object with
  | .instance i => getField w i member
  | .class c => getStaticField w c member

theorem memberAccess_classKept (w : World V) (object : Object) (member : Name) (k : ClassId) :
    ClassKept (w.classes k) ((memberAccess w object member).2.classes k) := by
  cases object with
  | «instance» i => exact syncFields_classKept w _ k
  | «class» c => exact .refl _

theorem memberAccess_step (h : WorldOk w) (object : Object) (member : Name) :
    WorldOk (memberAccess w object member).2 ∧ Kept w (memberAccess w object member).2 := by
  cases object with
  | «instance» i => exact syncFields_step h _
  | «class» c => exact ⟨h, .refl w⟩

theorem memberAccess_chain (w : World V) (object : Object) (member : Name) (c : ClassId) :
    chain (memberAccess w object member).2 c = chain w c :=
  chain_congr fun k _ => (memberAccess_classKept w object member k).prototype

theorem canAccessPrivateMember_memberAccess (w : World V) (ctx : Context) (object : Object)
    (member : Name) :
    canAccessPrivateMember (memberAccess w object member).2 ctx = canAccessPrivateMember w ctx := by
  unfold canAccessPrivateMember
  cases ctx.receiver with
  | this => rfl
  | «variable» name =>
    cases ctx.currentClass with
    | none => rfl
    | some c =>
      dsimp only
      rw [(memberAccess_classKept w object member c).name]
  | other => rfl

theorem canAccessDeclaredMember_memberAccess (w : World V) (ctx : Context) (object : Object)
    (member : Name) (owner : Option ClassId) (access : AccessLevel) :
    canAccessDeclaredMember (memberAccess w object member).2 ctx owner access =
      canAccessDeclaredMember w ctx owner access := by
  unfold canAccessDeclaredMember
  cases owner with
  | none => rfl
  | some o =>
    cases ctx.currentClass with
    | none => rfl
    | some c =>
      dsimp only
      rw [memberAccess_chain]

theorem canAccessDeclaredField_memberAccess (w : World V) (ctx : Context) (object : Object)
    (member : Name) (owner : Option ClassId) (access : AccessLevel) (name : Name) :
    canAccessDeclaredField (memberAccess w object member).2 ctx owner access name =
      canAccessDeclaredField w ctx owner access name := by
  rw [canAccessDeclaredField, canAccessDeclaredField, canAccessPrivateMember_memberAccess,
    canAccessDeclaredMember_memberAccess]

theorem canAccessMethod_memberAccess (w : World V) (ctx : Context) (object : Object)
    (member : Name) (m : Method) :
    canAccessMethod (memberAccess w object member).2 ctx m = canAccessMethod w ctx m := by
  rw [canAccessMethod, canAccessMethod, canAccessPrivateMember_memberAccess,
    canAccessDeclaredMember_memberAccess]

theorem lookupMethod_memberAccess (w : World V) (object : Object) (member : Name) (c : ClassId)
    (name : Name) (isStatic : Bool) :
    lookupMethod (memberAccess w object member).2 c name isStatic = lookupMethod w c name isStatic :=
  lookupMethod_congr (fun k _ => (memberAccess_classKept w object member k).prototype)
    (fun k _ s => (memberAccess_classKept w object member k).methodTable s) name isStatic

theorem memberAccess_instances (w : World V) (object : Object) (member : Name) :
    (memberAccess w object member).2.instances = w.instances := by
  cases object <;> rfl

theorem memberMethod_memberAccess (w : World V) (ctx : Context) (object : Object) (member : Name) :
    memberMethod ctx (memberAccess w object member).2 object member =
      memberMethod ctx w object member := by
  unfold memberMethod
  simp only [lookupMethod_memberAccess, canAccessMethod_memberAccess, memberAccess_instances]

theorem getField_sync (h : WorldOk w) {i : InstanceId} (hi : i < w.nextInstance) (name : Name) :
    getField (syncFields w (w.instances i).klass) i name = getField w i name :=
  getField_kept h hi (by rfl) (syncFields_classKept w _ _) name

theorem memberValue_memberAccess (h : WorldOk w) {object : Object} (hknown : object.known w = true)
    (member : Name) :
    memberValue (memberAccess w object member).2 object member = memberValue w object member := by
  cases object with
  | «instance» i => exact getField_sync h (of_decide_eq_true hknown) member
  | «class» c => rfl

theorem fieldSlot_spec (w : World V) (i : InstanceId) (name : Name) :
    getField w i name = (fieldSlot w i name).bind (deref w) ∧
      ∀ s, fieldSlot w i name = some s → (deref w s).isSome := by
  unfold fieldSlot getField
  dsimp only
  cases hidx : fieldIndex (w.classes (w.instances i).klass) name with
  | none =>
    cases hl : (w.instances i).fields.lookup name <;> simp [hl, deref]
  | some index =>
    cases hs : (w.instances i).slots index with
    | none => cases hl : (w.instances i).fields.lookup name <;> simp [Option.filter, hs, hl, deref]
    | some v => simp [Option.filter, hs, deref]

theorem staticSlot_spec (w : World V) (c : ClassId) (name : Name) :
    getStaticField w c name = (staticSlot w c name).bind (fun p => deref w p.2) ∧
      ∀ p, staticSlot w c name = some p → (deref w p.2).isSome := by
  unfold staticSlot getStaticField
  cases hs : staticFieldSlot w c name with
  | none => simp
  | some p =>
    obtain ⟨k, e⟩ := p
    obtain ⟨k', -, hk⟩ := List.exists_of_findSome?_eq_some hs
    cases hf : (w.classes k').staticFields.find? fun e => e.name == name with
    | none => simp [hf] at hk
    | some e' =>
      rw [hf] at hk
      cases hk
      simp [deref, hf]

theorem findSlot_some {object : Object} {owner : Object} {s : Slot}
    (h : findSlot w object member = some (owner, s)) :
    ∃ v, readSlot w s = .value v ∧ memberValue w object member = some v := by
  have hboth : memberValue w object member = deref w s ∧ (deref w s).isSome := by
    cases object with
    | «instance» i =>
      obtain ⟨s', hs, he⟩ := Option.map_eq_some_iff.mp h
      cases he
      have hspec := fieldSlot_spec w i member
      exact ⟨by rw [memberValue, hspec.1, hs]; rfl, hspec.2 s hs⟩
    | «class» c =>
      obtain ⟨p, hp, he⟩ := Option.map_eq_some_iff.mp h
      cases he
      have hspec := staticSlot_spec w c member
      exact ⟨by rw [memberValue, hspec.1, hp]; rfl, hspec.2 p hp⟩
  obtain ⟨v, hv⟩ := Option.isSome_iff_exists.mp hboth.2
  exact ⟨v, by rw [readSlot, hv], hboth.1.trans hv⟩

theorem findSlot_none {object : Object} (h : findSlot w object member = none) :
    memberValue w object member = none := by
  cases object with
  | «instance» i =>
    rw [memberValue, (fieldSlot_spec w i member).1, Option.map_eq_none_iff.mp h]
    rfl
  | «class» c =>
    rw [memberValue, (staticSlot_spec w c member).1, Option.map_eq_none_iff.mp h]
    rfl

end Lookups

/-! Transparency. -/

section Transparency
variable {V : Type} (ctx : Context)

/-- A read answers as without its cache; a slot from the cache is the one a lookup finds,
    with the same access decision. -/
def ReadTransparent (w : World V) (cache : FieldCache) (object : Object) (member : Name) : Prop :=
  (getMemberCached ctx w cache object member).1 = (getMemberChecked ctx w object member).1 ∧
    (hiddenName ctx w member = false → ∀ s, readHit w cache object = some s →
      (findSlot w object member).map Prod.snd = some s ∧
        canAccessDeclaredField w ctx cache.fieldOwner cache.access member =
          canAccessDeclaredField w ctx (memberAccess w object member).1.1
            (memberAccess w object member).1.2 member)

/-- The condition on a read: on a class, the cache names the class whose entry the lookup
    finds. -/
def ReadSound (w : World V) (cache : FieldCache) (object : Object) (member : Name) : Prop :=
  match object with
  | .instance _ => True
  | .class c => hiddenName ctx w member = true ∨ readHit w cache object = none ∨
      cache.owner = (staticFieldSlot w c member).map fun p => .class p.1

variable [FieldValue V]

/-- A write answers as without its cache, with the same decision, and stores the same. -/
def WriteTransparent (w : World V) (cache : FieldCache) (object : Object) (member : Name) (v : V) : Prop :=
  let access := (memberAccess w object member).1
  (setMemberCached ctx w cache object member v).1 = (setMemberChecked ctx w object member v).1 ∧
    (canAccessDeclaredField w ctx access.1 access.2 member = true →
      (setMemberCached ctx w cache object member v).2.2 = (setMemberChecked ctx w object member v).2) ∧
    (writeHit w cache object = true → canAccessDeclaredField w ctx cache.fieldOwner cache.access member =
        canAccessDeclaredField w ctx access.1 access.2 member)

/-- The condition on a write: on a class, the cache has the access of the class's own entry,
    or one that lets the context in, or the underscore rule refuses. -/
def WriteSound (w : World V) (cache : FieldCache) (object : Object) (member : Name) : Prop :=
  match object with
  | .instance _ => True
  | .class c => writeHit w cache object = false ∨ cache.fieldOwner = some c ∨
      hiddenName ctx w member = true ∨
      canAccessDeclaredMember w ctx cache.fieldOwner cache.access = true

def CallTransparent (w : World V) (cache : MethodCache) (object : Object) (member : Name)
    (argc : Nat) : Prop :=
  (callMethodCached ctx w cache object member argc).1 = callMethodChecked ctx w object member argc

end Transparency

section Reads
variable {V : Type} {ctx : Context} {w w' : World V} {member : Name}

theorem canAccessDeclaredField_congr {owner owner' : Option ClassId} {access access' : AccessLevel}
    (ha : access = access') (ho : access = .publicAccess ∨ owner = owner') :
    canAccessDeclaredField w ctx owner access member =
      canAccessDeclaredField w ctx owner' access' member := by
  subst ha
  obtain rfl | rfl := ho
  · simp [canAccessDeclaredField, canAccessDeclaredMember]
  · rfl

theorem canAccessDeclaredField_public (owner : Option ClassId) :
    canAccessDeclaredField w ctx owner .publicAccess member = !hiddenName ctx w member := by
  simp [canAccessDeclaredField, canAccessDeclaredMember, hiddenName]

theorem canAccessDeclaredField_hidden (h : hiddenName ctx w member = true) (owner : Option ClassId)
    (access : AccessLevel) : canAccessDeclaredField w ctx owner access member = false := by
  simp only [hiddenName, Bool.and_eq_true, Bool.not_eq_true'] at h
  simp [canAccessDeclaredField, h.1, h.2]

theorem accessError_hidden (h : isPrivateMemberName member = true) (kind : String)
    (access access' : AccessLevel) :
    accessError kind member access = accessError kind member access' := by
  simp [accessError, h]

theorem admitField_congr {access access' : Option ClassId × AccessLevel} (answer : Outcome V)
    (hd : canAccessDeclaredField w ctx access.1 access.2 member =
      canAccessDeclaredField w' ctx access'.1 access'.2 member)
    (ha : access.2 = access'.2) :
    admitField ctx w access member answer = admitField ctx w' access' member answer := by
  rw [admitField, admitField, hd, ha]

theorem getMemberChecked_eq (w : World V) (object : Object) (member : Name) :
    getMemberChecked ctx w object member =
      if hiddenName ctx w member then (.error (privateMemberError member), w)
      else match memberValue w object member with
        | some v => (admitField ctx (memberAccess w object member).2 (memberAccess w object member).1
            member (.value v), (memberAccess w object member).2)
        | none => (memberMethod ctx w object member, w) := by
  unfold getMemberChecked
  cases object <;> rfl

theorem getMemberCached_miss (hw : WorldOk w) {object : Object} (hknown : object.known w = true)
    {cache : FieldCache} (hmiss : readHit w cache object = none) :
    (getMemberCached ctx w cache object member).1 = (getMemberChecked ctx w object member).1 := by
  rw [getMemberChecked_eq]
  unfold getMemberCached
  split
  · rfl
  · rw [hmiss]
    dsimp only
    rw [← memberValue_memberAccess hw hknown member]
    split
    · rename_i owner s hs
      obtain ⟨v, hv, hm⟩ := findSlot_some hs
      rw [hm, hv]
      dsimp only [admitField]
      split <;> rfl
    · rename_i hs
      rw [findSlot_none hs]
      exact memberMethod_memberAccess w ctx object member

variable {s : Slot} {i : InstanceId} {c : ClassId}

theorem getMemberCached_hit {object : Object} {cache : FieldCache} {owner : Object}
    (hhit : readHit w cache object = some s) (hs : findSlot w object member = some (owner, s))
    (ha : cache.access = (memberAccess w object member).1.2)
    (ho : cache.access = .publicAccess ∨ cache.fieldOwner = (memberAccess w object member).1.1) :
    (getMemberCached ctx w cache object member).1 = (getMemberChecked ctx w object member).1 := by
  obtain ⟨v, hv, hm⟩ := findSlot_some hs
  rw [getMemberChecked_eq, hm]
  unfold getMemberCached
  split
  · rfl
  · rw [hhit]
    dsimp only
    rw [hv]
    apply admitField_congr
    · rw [canAccessDeclaredField_memberAccess]
      exact canAccessDeclaredField_congr ha ho
    · exact ha

variable {cache : FieldCache}

theorem InstanceCacheOk.memberAccess (h : InstanceCacheOk w member cache i) :
    cache.access = (memberAccess w (.instance i) member).1.2 ∧ (cache.access = .publicAccess ∨
        cache.fieldOwner = (Oop.memberAccess w (.instance i) member).1.1) := by
  obtain ⟨index, _, -, hidx, -⟩ := h.slot
  have hk := (syncFields_classKept w (w.instances i).klass (w.instances i).klass).layoutAccess hidx
  have he : (Oop.memberAccess w (.instance i) member).1 =
      layoutAccess (w.classes (w.instances i).klass) member := hk
  rw [he]
  exact ⟨h.access, h.fieldOwner⟩

theorem InstanceCacheOk.findSlot (h : InstanceCacheOk w member cache i)
    (hv : cache.version = (w.instances i).fieldVersion) (hs : cache.slot = some s) :
    findSlot w (.instance i) member = some (.instance i, s) := by
  obtain ⟨index, capacity, hslot, hidx, hu, hcap⟩ := h.slot
  cases hs.symm.trans hslot
  simp [Oop.findSlot, fieldSlot, hidx, hu, hcap hv, Option.filter]

theorem StaticReadOk.hit {k : ClassId} (h : StaticReadOk w member cache k) (hw : WorldOk w)
    (hhit : readHit w cache (.class c) = some s) :
    s = .static k member (w.classes k).staticFields.length := by
  obtain ⟨size, hslot, hv⟩ := h.slot
  simp only [readHit, h.owner, h.kind, true_and, version, hslot] at hhit
  split at hhit
  · rename_i hver
    have hstatic := (hw.static k h.known).version
    cases hhit
    have : size = (w.classes k).staticFields.length := by omega
    rw [this]
  · cases hhit

theorem StaticReadOk.memberAccess {k : ClassId} (h : StaticReadOk w member cache k)
    {e : StaticField V} (hfound : staticFieldSlot w c member = some (k, e)) :
    Oop.memberAccess w (.class c) member = ((cache.fieldOwner, cache.access), w) := by
  obtain ⟨e', he', ho, ha⟩ := h.entry
  cases he'.symm.trans (staticFieldSlot_entry hfound).2
  simp [Oop.memberAccess, getStaticFieldAccess, hfound, ho, ha]

theorem ReadCacheOk.instance_hit (hc : ReadCacheOk w member cache)
    (hhit : readHit w cache (.instance i) = some s) :
    InstanceCacheOk w member cache i ∧ cache.version = (w.instances i).fieldVersion ∧
      cache.slot = some s := by
  unfold readHit at hhit
  split at hhit
  · rename_i i' owner heq ho
    cases heq
    split at hhit
    · rename_i hcond
      obtain ⟨hkind, rfl, hv⟩ := hcond
      obtain hn | ⟨j, hj⟩ | ⟨k, hk⟩ := hc
      · rw [hn] at hhit
        cases hhit
      · cases ho.symm.trans hj.owner
        exact ⟨hj, hv, hhit⟩
      · rw [hk.kind] at hkind
        cases hkind
    · cases hhit
  · rename_i heq _
    cases heq
  · cases hhit

theorem ReadCacheOk.class_hit (hc : ReadCacheOk w member cache)
    (hhit : readHit w cache (.class c) = some s) : ∃ k, StaticReadOk w member cache k := by
  unfold readHit at hhit
  split at hhit
  · rename_i heq _
    cases heq
  · split at hhit
    · rename_i hcond
      obtain hn | ⟨j, hj⟩ | hk := hc
      · rw [hn] at hhit
        cases hhit
      · rw [hj.kind] at hcond
        cases hcond.1
      · exact hk
    · cases hhit
  · cases hhit

theorem readTransparent_instance (hc : ReadCacheOk w member cache)
    (hhit : readHit w cache (.instance i) = some s) :
    ReadTransparent ctx w cache (.instance i) member := by
  obtain ⟨hj, hv, hslot⟩ := hc.instance_hit hhit
  have hs := hj.findSlot hv hslot
  have ha := hj.memberAccess
  refine ⟨getMemberCached_hit hhit hs ha.1 ha.2, fun _ s' hs' => ?_⟩
  cases hhit.symm.trans hs'
  exact ⟨by rw [hs]; rfl, canAccessDeclaredField_congr ha.1 ha.2⟩

theorem readTransparent_class_iff (hw : WorldOk w) (hc : ReadCacheOk w member cache)
    (hhit : readHit w cache (.class c) = some s) :
    ReadTransparent ctx w cache (.class c) member ↔ ReadSound ctx w cache (.class c) member := by
  obtain ⟨k, hk⟩ := hc.class_hit hhit
  have hslot := hk.hit hw hhit
  constructor
  · intro ht
    cases hh : hiddenName ctx w member with
    | true => exact .inl hh
    | false =>
      obtain ⟨hfind, -⟩ := ht.2 hh s hhit
      right
      right
      rw [hk.owner]
      rw [hslot] at hfind
      cases hf : staticFieldSlot w c member with
      | none => simp [findSlot, staticSlot, hf] at hfind
      | some p =>
        simp only [findSlot, staticSlot, hf, Option.map_some, Option.some.injEq, Slot.static.injEq] at hfind
        simp [hfind.1]
  · intro hsound
    obtain hh | hn | ho := hsound
    · refine ⟨?_, fun hf => by rw [hh] at hf; cases hf⟩
      rw [getMemberChecked_eq]
      simp [getMemberCached, hh]
    · rw [hhit] at hn
      cases hn
    · rw [hk.owner] at ho
      obtain ⟨⟨k', e⟩, hf, hkk⟩ := Option.map_eq_some_iff.mp ho.symm
      cases hkk
      have ha := hk.memberAccess hf
      have hs : findSlot w (.class c) member = some (.class k', s) := by
        simp [findSlot, staticSlot, hf, hslot]
      refine ⟨getMemberCached_hit hhit hs (by rw [ha]) (by rw [ha]; exact .inr rfl), fun _ s' hs' => ?_⟩
      cases hhit.symm.trans hs'
      exact ⟨by rw [hs]; rfl, by rw [ha]⟩

theorem readTransparent_iff (hw : WorldOk w) {object : Object} (hknown : object.known w = true)
    (hc : ReadCacheOk w member cache) :
    ReadTransparent ctx w cache object member ↔ ReadSound ctx w cache object member := by
  cases hhit : readHit w cache object with
  | none =>
    have hmiss := @getMemberCached_miss V ctx w member hw object hknown cache hhit
    have hsound : ReadSound ctx w cache object member := by
      cases object with
      | «instance» i => trivial
      | «class» c => exact .inr (.inl hhit)
    exact ⟨fun _ => hsound, fun _ => ⟨hmiss, fun _ s hs => by rw [hhit] at hs; cases hs⟩⟩
  | some s =>
    cases object with
    | «instance» i => exact ⟨fun _ => trivial, fun _ => readTransparent_instance hc hhit⟩
    | «class» c => exact readTransparent_class_iff hw hc hhit

end Reads

section Writes
variable {V : Type} [FieldValue V] {ctx : Context} {w : World V} {member : Name}
  {cache : FieldCache}

variable {object : Object}

theorem storeChecked_memberAccess (hw : WorldOk w) (hknown : object.known w = true) (v : V) :
    storeChecked (memberAccess w object member).2 object member v =
      storeChecked w object member v := by
  cases object with
  | «class» c => rfl
  | «instance» i =>
    have hi : i < w.nextInstance := of_decide_eq_true hknown
    have hidem := syncFields_idem hw (hw.klass i hi)
    have hcheck : setFieldChecked (syncFields w (w.instances i).klass) i member v =
        setFieldChecked w i member v := by
      have hinst : (syncFields w (w.instances i).klass).instances = w.instances := rfl
      simp only [setFieldChecked, hinst, hidem]
    show storeChecked (syncFields w (w.instances i).klass) (.instance i) member v = _
    simp only [storeChecked, hcheck]

theorem storeIf_congr (hw : WorldOk w) (hknown : object.known w = true) (v : V)
    {access : Option ClassId × AccessLevel}
    (hd : canAccessDeclaredField w ctx access.1 access.2 member =
      canAccessDeclaredField w ctx (memberAccess w object member).1.1
        (memberAccess w object member).1.2 member)
    (he : canAccessDeclaredField w ctx access.1 access.2 member = false →
      accessError "Field" member access.2 =
        accessError "Field" member (memberAccess w object member).1.2) :
    (storeIf ctx w access object member v).1 = (setMemberChecked ctx w object member v).1 ∧
      (canAccessDeclaredField w ctx access.1 access.2 member = true →
        (storeIf ctx w access object member v).2 = (setMemberChecked ctx w object member v).2) := by
  unfold setMemberChecked storeIf
  dsimp only
  rw [canAccessDeclaredField_memberAccess, ← hd]
  split
  · rename_i hgranted
    rw [storeChecked_memberAccess hw hknown]
    exact ⟨rfl, fun _ => rfl⟩
  · rename_i hdenied
    exact ⟨by rw [he (Bool.eq_false_iff.mpr hdenied)], fun h => absurd h hdenied⟩

theorem setMemberCached_miss (v : V) (hmiss : writeHit w cache object = false) :
    (setMemberCached ctx w cache object member v).1 = (setMemberChecked ctx w object member v).1 ∧
      (setMemberCached ctx w cache object member v).2.2 = (setMemberChecked ctx w object member v).2 := by
  unfold setMemberCached setMemberChecked storeIf
  rw [hmiss]
  dsimp only
  rw [if_neg Bool.false_ne_true]
  split
  · generalize storeChecked (memberAccess w object member).2 object member v = stored
    obtain ⟨out, w'⟩ := stored
    dsimp only
    split
    · rename_i heq
      cases heq
      exact ⟨rfl, rfl⟩
    · rename_i heq
      cases heq
      split <;> exact ⟨rfl, rfl⟩
  · exact ⟨rfl, rfl⟩

theorem writeTransparent_of_access (hw : WorldOk w) (hknown : object.known w = true) (v : V)
    (hhit : writeHit w cache object = true)
    (hd : canAccessDeclaredField w ctx cache.fieldOwner cache.access member =
      canAccessDeclaredField w ctx (memberAccess w object member).1.1
        (memberAccess w object member).1.2 member)
    (he : canAccessDeclaredField w ctx cache.fieldOwner cache.access member = false →
      accessError "Field" member cache.access =
        accessError "Field" member (memberAccess w object member).1.2) :
    WriteTransparent ctx w cache object member v := by
  obtain ⟨h1, h2⟩ := @storeIf_congr V _ ctx w member object hw hknown v
    (cache.fieldOwner, cache.access) hd he
  have hcached : setMemberCached ctx w cache object member v =
      ((storeIf ctx w (cache.fieldOwner, cache.access) object member v).1, cache,
        (storeIf ctx w (cache.fieldOwner, cache.access) object member v).2) := by
    rw [setMemberCached, if_pos hhit]
  refine ⟨by rw [hcached]; exact h1, fun hg => ?_, fun _ => hd⟩
  rw [hcached]
  exact h2 (hd.trans hg)

omit [FieldValue V] in
theorem writeHit_iff : writeHit w cache object = true ↔
    cache.isStatic = object.isClass ∧ cache.owner = some object ∧
      cache.version = version w object ∧ cache.slot.isSome = true := by
  simp [writeHit, and_assoc]

omit [FieldValue V] in
theorem WriteCacheOk.class_hit (hc : WriteCacheOk w member cache) {c : ClassId}
    (hhit : writeHit w cache (.class c) = true) : StaticWriteOk w member cache c := by
  obtain ⟨hkind, ho, -, hs⟩ := writeHit_iff.mp hhit
  obtain hn | ⟨j, hj⟩ | ⟨c', hc'⟩ := hc
  · rw [hn] at hs
    cases hs
  · rw [hj.kind] at hkind
    cases hkind
  · cases ho.symm.trans hc'.owner
    exact hc'

omit [FieldValue V] in
theorem WriteCacheOk.instance_hit (hc : WriteCacheOk w member cache) {i : InstanceId}
    (hhit : writeHit w cache (.instance i) = true) : InstanceCacheOk w member cache i := by
  obtain ⟨hkind, ho, -, hs⟩ := writeHit_iff.mp hhit
  obtain hn | ⟨j, hj⟩ | ⟨c', hc'⟩ := hc
  · rw [hn] at hs
    cases hs
  · cases ho.symm.trans hj.owner
    exact hj
  · rw [hc'.kind] at hkind
    cases hkind

theorem writeTransparent_class_iff (hw : WorldOk w) {c : ClassId} (hknown : c < w.nextClass)
    (hc : WriteCacheOk w member cache) (v : V) (hhit : writeHit w cache (.class c) = true) :
    WriteTransparent ctx w cache (.class c) member v ↔ WriteSound ctx w cache (.class c) member := by
  have hok := hc.class_hit hhit
  have hkn : Object.known w (.class c) = true := decide_eq_true hknown
  obtain ⟨e, he, hown, hother⟩ := hok.entry
  have hlookup : (memberAccess w (.class c) member).1 = (some e.owner, e.access) := by
    simp [memberAccess, getStaticFieldAccess, staticFieldSlot_own he]
  have howner : e.owner = c := (hw.static c hknown).owner e (List.mem_of_find?_eq_some he)
  by_cases ho : cache.fieldOwner = some c
  · -- the cache has the access of the class's own entry
    refine ⟨fun _ => .inr (.inl ho), fun _ => ?_⟩
    apply writeTransparent_of_access hw hkn v hhit
    · rw [hlookup, ho, hown ho, howner]
    · exact fun _ => by rw [hlookup, hown ho]
  · -- the entry came with the store, and it is public
    have hpublic : canAccessDeclaredField w ctx (memberAccess w (.class c) member).1.1
        (memberAccess w (.class c) member).1.2 member = !hiddenName ctx w member := by
      rw [hlookup]
      dsimp only
      rw [hother ho, canAccessDeclaredField_public]
    constructor
    · intro ht
      have hd := ht.2.2 hhit
      rw [hpublic] at hd
      right
      right
      cases hh : hiddenName ctx w member with
      | true => exact .inl rfl
      | false =>
        right
        rw [hh, canAccessDeclaredField, Bool.not_false, Bool.and_eq_true] at hd
        exact hd.2
    · intro hsound
      obtain hn | ho' | hh | ha := hsound
      · rw [hhit] at hn
        cases hn
      · exact absurd ho' ho
      · have htext : isPrivateMemberName member = true := by
          simp only [hiddenName, Bool.and_eq_true] at hh
          exact hh.1
        apply writeTransparent_of_access hw hkn v hhit
        · rw [hpublic, hh, canAccessDeclaredField_hidden hh]
          rfl
        · exact fun _ => accessError_hidden htext _ _ _
      · have hd : canAccessDeclaredField w ctx cache.fieldOwner cache.access member =
            !hiddenName ctx w member := by
          simp [canAccessDeclaredField, hiddenName, ha]
        apply writeTransparent_of_access hw hkn v hhit
        · rw [hd, hpublic]
        · intro hdenied
          rw [hd, Bool.not_eq_false'] at hdenied
          simp only [hiddenName, Bool.and_eq_true] at hdenied
          exact accessError_hidden hdenied.1 _ _ _

theorem writeTransparent_iff (hw : WorldOk w) (hknown : object.known w = true)
    (hc : WriteCacheOk w member cache) (v : V) :
    WriteTransparent ctx w cache object member v ↔ WriteSound ctx w cache object member := by
  cases hhit : writeHit w cache object with
  | false =>
    have hmiss := @setMemberCached_miss V _ ctx w member cache object v hhit
    have hsound : WriteSound ctx w cache object member := by
      cases object with
      | «instance» i => trivial
      | «class» c => exact .inl hhit
    exact ⟨fun _ => hsound, fun _ =>
      ⟨hmiss.1, fun _ => hmiss.2, fun h => absurd (hhit.symm.trans h) Bool.false_ne_true⟩⟩
  | true =>
    cases object with
    | «instance» i =>
      refine ⟨fun _ => trivial, fun _ => ?_⟩
      have ha := (hc.instance_hit hhit).memberAccess
      exact writeTransparent_of_access hw hknown v hhit (canAccessDeclaredField_congr ha.1 ha.2)
        fun _ => by rw [ha.1]
    | «class» c => exact writeTransparent_class_iff hw (of_decide_eq_true hknown) hc v hhit

end Writes

section Calls
variable {V : Type} {ctx : Context} {w : World V} {member : Name} {cache : MethodCache}

theorem callTransparent (hc : CallCacheOk w member cache) (object : Object) (argc : Nat) :
    CallTransparent ctx w cache object member argc := by
  unfold CallTransparent callMethodCached callMethodChecked
  split
  · rename_i m hhit
    unfold callHit at hhit
    split at hhit
    · rename_i hcond
      obtain ⟨hclass, hkind, hargc, -⟩ := hcond
      have hl := (hc _ m hclass hhit).2
      rw [hkind, hargc] at hl
      rw [lookupNumeric, hl]
    · cases hhit
  · rfl

end Calls

/-! What an access leaves in its cache. -/

section Fill
variable {V : Type} {w : World V} {member : Name} {cache : FieldCache}

variable {i : InstanceId} {v : V} {w' : World V}

theorem fieldSlot_field (hw : WorldOk w) (hi : i < w.nextInstance) {s : Slot}
    (hs : fieldSlot w i member = some s) :
    ∃ index, s = .field i index (w.instances i).slotCapacity ∧
      fieldIndex (w.classes (w.instances i).klass) member = some index ∧
      ((w.instances i).slots index).isSome = true := by
  unfold fieldSlot at hs
  dsimp only at hs
  split at hs
  · rename_i index hidx
    cases hs
    obtain ⟨hidx, hu⟩ := Option.filter_eq_some_iff.mp hidx
    exact ⟨index, rfl, hidx, hu⟩
  · rename_i hnone
    split at hs
    · rename_i hl
      obtain ⟨index, hidx, hu⟩ := hw.entry i hi member hl
      rw [hidx, Option.filter_eq_none_iff] at hnone
      exact absurd hu (hnone index rfl)
    · cases hs

theorem fill_instance (hw : WorldOk w) (hi : i < w.nextInstance) {s : Slot}
    (hs : fieldSlot w i member = some s) {access : Option ClassId × AccessLevel}
    (ha : access.2 = (layoutAccess (w.classes (w.instances i).klass) member).2)
    (ho : access.2 = .publicAccess ∨ access.1 = (layoutAccess (w.classes (w.instances i).klass) member).1) :
    InstanceCacheOk w member
      ⟨some (.instance i), access.1, version w (.instance i), some s, access.2, false⟩ i := by
  obtain ⟨index, rfl, hidx, hu⟩ := fieldSlot_field hw hi hs
  exact ⟨rfl, rfl, hi, Nat.le_refl _, ⟨index, _, rfl, hidx, hu, fun _ => rfl⟩, ha, ho⟩

theorem getMemberCached_ok {ctx : Context} (hw : WorldOk w) (hc : ReadCacheOk w member cache)
    {object : Object} (hknown : object.known w = true) :
    WorldOk (getMemberCached ctx w cache object member).2.2 ∧
      Kept w (getMemberCached ctx w cache object member).2.2 ∧
      ReadCacheOk (getMemberCached ctx w cache object member).2.2 member
        (getMemberCached ctx w cache object member).2.1 := by
  have hstep := memberAccess_step hw object member
  have hkept := hc.kept hw hstep.2
  unfold getMemberCached
  split
  · exact ⟨hw, .refl w, hc⟩
  · split
    · exact ⟨hw, .refl w, hc⟩
    · dsimp only
      split
      · rename_i owner s hs
        split
        · refine ⟨hstep.1, hstep.2, .inr ?_⟩
          cases object with
          | «instance» i =>
            obtain ⟨s', hs', he⟩ := Option.map_eq_some_iff.mp hs
            cases he
            exact .inl ⟨i, fill_instance hstep.1 (of_decide_eq_true hknown) hs' rfl (.inr rfl)⟩
          | «class» c =>
            right
            obtain ⟨⟨k, s'⟩, hs', he⟩ := Option.map_eq_some_iff.mp hs
            cases he
            obtain ⟨⟨k', e⟩, hf, he⟩ := Option.map_eq_some_iff.mp hs'
            cases he
            obtain ⟨hmem, hfind⟩ := staticFieldSlot_entry hf
            have hk := hw.chain_lt (of_decide_eq_true hknown) k' hmem
            have ha : getStaticFieldAccess w c member = (some e.owner, e.access) := by
              have hf' : staticFieldSlot w c member = some (k', e) := hf
              rw [getStaticFieldAccess, hf']
            refine ⟨k', ⟨rfl, rfl, hk, ⟨_, rfl, (hw.static k' hk).version⟩, ⟨e, hfind, ?_, ?_⟩⟩⟩
            · exact congrArg Prod.fst ha
            · exact congrArg Prod.snd ha
        · exact ⟨hstep.1, hstep.2, hkept⟩
      · exact ⟨hstep.1, hstep.2, hkept⟩

variable [FieldValue V]

theorem storeChecked_step (hw : WorldOk w) {object : Object} (hknown : object.known w = true)
    (member : Name) (v : V) :
    WorldOk (storeChecked w object member v).2 ∧ Kept w (storeChecked w object member v).2 := by
  have hstored : WorldOk (match object with
        | .instance i => setFieldChecked w i member v
        | .class c => setStaticFieldChecked w c member v).2 ∧
      Kept w (match object with
        | .instance i => setFieldChecked w i member v
        | .class c => setStaticFieldChecked w c member v).2 := by
    cases object with
    | «instance» i => exact setFieldChecked_step hw (of_decide_eq_true hknown) member v
    | «class» c => exact setStaticFieldChecked_step hw c member v
  unfold storeChecked
  dsimp only
  split <;> exact hstored

omit [FieldValue V] in
theorem layoutAccess_appendField (k : Class V) (name : Name) (c : ClassId) : (layoutAccess { k with
      instanceFields := appendField k.instanceFields ⟨name, .publicAccess, c, none, none⟩ } name).2 =
      (layoutAccess k name).2 := by
  by_cases hnew : hasField k.instanceFields name = true
  · have he : appendField k.instanceFields ⟨name, .publicAccess, c, none, none⟩ = k.instanceFields :=
      if_pos hnew
    rw [he]
  · have he : appendField k.instanceFields ⟨name, .publicAccess, c, none, none⟩ =
        k.instanceFields ++ [⟨name, .publicAccess, c, none, none⟩] := if_neg hnew
    have hnone : k.instanceFields.find? (fun d => d.name == name) = none := by
      rw [List.find?_eq_none]
      exact fun d hd he => hnew (List.any_eq_true.mpr ⟨d, hd, he⟩)
    rw [he]
    simp [layoutAccess, fieldDecl, List.find?_append, hnone]

theorem setField_layoutAccess (w : World V) (i : InstanceId) (name : Name) (v : V) :
    (layoutAccess ((setField w i name v).classes (w.instances i).klass) name).2 =
      (layoutAccess ((syncFields w (w.instances i).klass).classes (w.instances i).klass) name).2 := by
  unfold setField
  dsimp only
  split
  · rfl
  · split
    all_goals
      simp only [World.updateInstance, updateClass_self]
      exact layoutAccess_appendField _ name _

theorem storeChecked_instance (h : storeChecked w (.instance i) member v = (.value v, w')) :
    w' = setField (syncFields w (w.instances i).klass) i member v := by
  unfold storeChecked setFieldChecked at h
  dsimp only at h
  cases hm : misfit ((fieldDecl ((syncFields w (w.instances i).klass).classes
      (w.instances i).klass) member).bind FieldDecl.declaredType) v with
  | some t =>
    rw [hm] at h
    cases h
  | none =>
    rw [hm] at h
    cases h
    rfl

theorem write_instance_ok (hw : WorldOk w) (hi : i < w.nextInstance)
    (hstore : storeChecked w (.instance i) member v = (.value v, w')) {s : Slot}
    (hs : fieldSlot w' i member = some s) :
    InstanceCacheOk w' member
      ⟨some (.instance i), (memberAccess w (.instance i) member).1.1, version w' (.instance i),
        some s, (memberAccess w (.instance i) member).1.2, false⟩ i := by
  have hsync := syncFields_step hw (w.instances i).klass
  have hlt := hw.klass i hi
  cases storeChecked_instance hstore
  obtain ⟨hw', hkept⟩ := setField_step hsync.1 (i := i) hi member v
  have hlevel := setField_layoutAccess (syncFields w (w.instances i).klass) i member v
  have hinst : (syncFields w (w.instances i).klass).instances = w.instances := rfl
  rw [hinst, syncFields_idem hw hlt] at hlevel
  have hclass := hkept.classes _ hlt
  have hklass : ((setField (syncFields w (w.instances i).klass) i member v).instances i).klass =
      (w.instances i).klass := (hkept.instances i hi).klass
  apply fill_instance hw' (hi.trans_le hkept.nextInstance) hs
  · rw [hklass, hlevel]
    rfl
  · -- a name without a position was public and has no owner yet
    cases hidx : fieldIndex ((syncFields w (w.instances i).klass).classes (w.instances i).klass) member with
    | some index =>
      right
      rw [hklass, hclass.layoutAccess hidx]
      rfl
    | none =>
      left
      have hnone : fieldDecl ((syncFields w (w.instances i).klass).classes
          (w.instances i).klass) member = none := by
        rw [fieldIndex, List.findIdx?_eq_none_iff] at hidx
        rw [fieldDecl, List.find?_eq_none]
        exact fun d hd => by simp [hidx d hd]
      simp [memberAccess, getInstanceFieldAccess, layoutAccess, hnone]

theorem storeChecked_class {c : ClassId} (h : storeChecked w (.class c) member v = (.value v, w')) :
    w' = w.updateClass c fun k => k.storeStatic c member (getStaticFieldType w c member) v := by
  unfold storeChecked setStaticFieldChecked setStaticField at h
  dsimp only at h
  cases hm : misfit (getStaticFieldType w c member) v with
  | some t =>
    rw [hm] at h
    cases h
  | none =>
    rw [hm] at h
    cases h
    rfl

omit [FieldValue V] in
theorem storeStatic_new {k : Class V} {name : Name}
    (h : (k.staticFields.find? fun e => e.name == name) = none) (c : ClassId) (t : Option Name)
    (v : V) :
    ((k.storeStatic c name t v).staticFields.find? fun e => e.name == name) =
      some ⟨name, v, .publicAccess, c, t⟩ := by
  have hany : ¬(k.staticFields.any fun e => e.name == name) = true := by
    rw [List.find?_eq_none] at h
    simpa using h
  rw [Class.storeStatic, if_neg hany]
  simp [List.find?_append, h]

theorem write_class_ok (hw : WorldOk w) {c : ClassId} (hc : c < w.nextClass)
    (hstore : storeChecked w (.class c) member v = (.value v, w')) (s : Slot) :
    StaticWriteOk w' member
      ⟨some (.class c), (memberAccess w (.class c) member).1.1, version w' (.class c), some s,
        (memberAccess w (.class c) member).1.2, true⟩ c := by
  have hknown : Object.known w (.class c) = true := decide_eq_true hc
  have hstep := storeChecked_step hw hknown member v
  rw [hstore] at hstep
  obtain ⟨-, hkept⟩ := hstep
  refine ⟨rfl, rfl, hc.trans_le hkept.nextClass, ?_⟩
  cases hown : (w.classes c).staticFields.find? fun e => e.name == member with
  | some e =>
    have haccess : (memberAccess w (.class c) member).1 = (some e.owner, e.access) := by
      simp [memberAccess, getStaticFieldAccess, staticFieldSlot_own hown]
    have howner := (hw.static c hc).owner e (List.mem_of_find?_eq_some hown)
    obtain ⟨e', he', -, ha'⟩ := (hkept.classes c hc).static member e hown
    refine ⟨e', he', fun _ => ?_, fun hne => ?_⟩
    · rw [haccess, ha']
    · exact absurd (by rw [haccess, howner]) hne
  | none =>
    have hne : (memberAccess w (.class c) member).1.1 ≠ some c := by
      intro he
      simp only [memberAccess, getStaticFieldAccess] at he
      split at he
      · rename_i k e hf
        obtain ⟨hmem, hfind⟩ := staticFieldSlot_entry hf
        have howner := (hw.static k (hw.chain_lt hc k hmem)).owner e (List.mem_of_find?_eq_some hfind)
        cases he
        rw [← howner, hown] at hfind
        cases hfind
      · cases he
    cases storeChecked_class hstore
    refine ⟨⟨member, v, .publicAccess, c, getStaticFieldType w c member⟩, ?_,
      fun he => absurd he hne, fun _ => rfl⟩
    rw [updateClass_self]
    exact storeStatic_new hown c _ v

theorem setMemberCached_ok {ctx : Context} (hw : WorldOk w) (hc : WriteCacheOk w member cache)
    {object : Object} (hknown : object.known w = true) (v : V) :
    WorldOk (setMemberCached ctx w cache object member v).2.2 ∧
      Kept w (setMemberCached ctx w cache object member v).2.2 ∧
      WriteCacheOk (setMemberCached ctx w cache object member v).2.2 member
        (setMemberCached ctx w cache object member v).2.1 := by
  have hstep := storeChecked_step hw hknown member v
  have hkeep {w' : World V} (h : WorldOk w' ∧ Kept w w') :
      WorldOk w' ∧ Kept w w' ∧ WriteCacheOk w' member cache := ⟨h.1, h.2, hc.kept hw h.2⟩
  unfold setMemberCached
  split
  · dsimp only
    unfold storeIf
    split
    · exact hkeep hstep
    · exact hkeep ⟨hw, .refl w⟩
  · dsimp only
    rw [storeChecked_memberAccess hw hknown]
    split
    · cases hst : storeChecked w object member v with
      | mk out w' =>
        rw [hst] at hstep
        split
        · rename_i heq
          cases heq
          exact hkeep hstep
        · rename_i out' w'' hne heq
          cases heq
          split
          · rename_i owner s hs
            refine ⟨hstep.1, hstep.2, .inr ?_⟩
            have hvalue : out = .value v := by
              unfold storeChecked at hst
              dsimp only at hst
              split at hst
              · exact (congrArg Prod.fst hst).symm
              · exact absurd (congrArg Prod.fst hst).symm (hne _)
            cases object with
            | «instance» i =>
              left
              obtain ⟨s', hs', he⟩ := Option.map_eq_some_iff.mp hs
              cases he
              exact ⟨i, write_instance_ok hw (of_decide_eq_true hknown) (hvalue ▸ hst) hs'⟩
            | «class» c =>
              right
              exact ⟨c, write_class_ok hw (of_decide_eq_true hknown) (hvalue ▸ hst) s⟩
          · exact hkeep hstep
    · exact hkeep (memberAccess_step hw object member)

end Fill

/-! Every run. -/

section Reachable
variable {V : Type}

structure StateOk (member : Nat → Name) (s : State V) : Prop where
  world : WorldOk s.world
  reads : ∀ n, ReadCacheOk s.world (member n) (s.readCaches n)
  writes : ∀ n, WriteCacheOk s.world (member n) (s.writeCaches n)
  calls : ∀ n, CallCacheOk s.world (member n) (s.callCaches n)

theorem StateOk.init (member : Nat → Name) : StateOk member (State.init : State V) where
  world := .empty
  reads _ := .inl rfl
  writes _ := .inl rfl
  calls _ := fun _ _ h _ => by cases h

theorem StateOk.withWorld {member : Nat → Name} {s : State V} (h : StateOk member s)
    {w' : World V} (hw : WorldOk w' ∧ Kept s.world w') : StateOk member { s with world := w' } where
  world := hw.1
  reads n := (h.reads n).kept h.world hw.2
  writes n := (h.writes n).kept h.world hw.2
  calls n := (h.calls n).kept h.world hw.2

theorem update_ok {α : Type} {P : Nat → α → Prop} {caches : Nat → α} (h : ∀ n, P n (caches n))
    {n : Nat} {cache : α} (hn : P n cache) (m : Nat) : P m (Function.update caches n cache m) := by
  by_cases hm : m = n
  · subst hm
    rw [Function.update_self]
    exact hn
  · rw [Function.update_of_ne hm]
    exact h m

theorem callMethodCached_ok {ctx : Context} {w : World V} {member : Name} {cache : MethodCache}
    (hc : CallCacheOk w member cache) (object : Object) (hobject : receiverClass w object < w.nextClass)
    (argc : Nat) : CallCacheOk w member (callMethodCached ctx w cache object member argc).2 := by
  unfold callMethodCached
  split
  · exact hc
  · intro c m hclass hm
    cases hclass
    exact ⟨hobject, hm⟩

theorem receiverClass_lt {w : World V} (hw : WorldOk w) {object : Object}
    (hknown : object.known w = true) : receiverClass w object < w.nextClass := by
  cases object with
  | «instance» i => exact hw.klass i (of_decide_eq_true hknown)
  | «class» c => exact of_decide_eq_true hknown

variable [FieldValue V] {member : Nat → Name}

theorem perform_ok {s : State V} (h : StateOk member s) {op : Op V}
    (hop : op.admissible s.world = true) : StateOk member (perform member s op) := by
  cases op with
  | define scope d =>
    apply h.withWorld (defineClass_step h.world _ d)
    intro p hp
    simpa using List.all_eq_true.mp hop p hp
  | create c => exact h.withWorld (createInstance_step h.world (of_decide_eq_true hop))
  | setField i name v =>
    exact h.withWorld (setFieldChecked_step h.world (of_decide_eq_true hop) name v)
  | setStatic c name v => exact h.withWorld (setStaticFieldChecked_step h.world c name v)
  | sync c => exact h.withWorld (syncFields_step h.world c)
  | read n object ctx =>
    obtain ⟨hw, hk, hc⟩ := @getMemberCached_ok V _ (member n) _ ctx h.world (h.reads n) object hop
    have h' := h.withWorld ⟨hw, hk⟩
    exact { h' with
      reads := update_ok (P := fun n cache => ReadCacheOk _ (member n) cache) h'.reads hc }
  | write n object ctx v =>
    obtain ⟨hw, hk, hc⟩ := @setMemberCached_ok V _ (member n) _ _ ctx h.world (h.writes n) object hop v
    have h' := h.withWorld ⟨hw, hk⟩
    exact { h' with
      writes := update_ok (P := fun n cache => WriteCacheOk _ (member n) cache) h'.writes hc }
  | call n object ctx argc =>
    have hc := @callMethodCached_ok V ctx _ (member n) _ (h.calls n) object
      (receiverClass_lt h.world hop) argc
    exact { h with
      calls := update_ok (P := fun n cache => CallCacheOk s.world (member n) cache) h.calls hc }

theorem reachable_ok {ops : List (Op V)} {t : State V}
    (h : run (step member) State.init ops = some t) : StateOk member t := by
  refine run_invariant (P := StateOk member) ?_ ops _ t (.init member) h
  intro s op s' _ hs hstep
  unfold step at hstep
  split at hstep
  · rename_i hop
    cases hstep
    exact perform_ok hs hop
  · cases hstep

/-- An access answers as it would without its cache. -/
def Transparent (member : Nat → Name) (s : State V) : Op V → Prop
  | .read n object ctx => ReadTransparent ctx s.world (s.readCaches n) object (member n)
  | .write n object ctx v => WriteTransparent ctx s.world (s.writeCaches n) object (member n) v
  | .call n object ctx argc => CallTransparent ctx s.world (s.callCaches n) object (member n) argc
  | _ => True

/-- The condition: only hits on classes have one. -/
def Sound (member : Nat → Name) (s : State V) : Op V → Prop
  | .read n object ctx => ReadSound ctx s.world (s.readCaches n) object (member n)
  | .write n object ctx _ => WriteSound ctx s.world (s.writeCaches n) object (member n)
  | _ => True

/-- After every run, an access is transparent exactly under its condition. -/
theorem member_caches_transparent_iff {ops : List (Op V)} {t : State V}
    (h : run (step member) State.init ops = some t) {op : Op V}
    (hop : op.admissible t.world = true) : Transparent member t op ↔ Sound member t op := by
  have hok := reachable_ok h
  cases op with
  | read n object ctx => exact readTransparent_iff hok.world hop (hok.reads n)
  | write n object ctx v => exact writeTransparent_iff hok.world hop (hok.writes n) v
  | call n object ctx argc => exact ⟨fun _ => trivial, fun _ => callTransparent (hok.calls n) object argc⟩
  | _ => exact Iff.rfl

end Reachable

/-! One place reads a static field of two classes. -/

section TwoClasses

/-- Numbers as the only values. -/
instance numberValue : FieldValue Nat := ⟨0, fun _ => "number", fun _ t => t == "number"⟩

def classWithN (name : Name) (n : Nat) : Op Nat :=
  .define [] { name := name, members := [.field "n" none (some n) true .publicAccess] }

def readN (c : ClassId) : Op Nat := .read 0 (.class c) ⟨none, .variable "c", fun _ => none⟩

def twoClasses : List (Op Nat) := [classWithN "A" 1, classWithN "B" 2, readN 0]

/-- The second read, on `B`, answers with the field of `A`. -/
theorem static_read_not_transparent :
    ¬ ∀ (ops : List (Op Nat)) (t : State Nat), run (step fun _ => "n") State.init ops = some t →
      ∀ op : Op Nat, op.admissible t.world = true → Transparent (fun _ => "n") t op := by
  intro h
  have ht := (h twoClasses _ rfl (readN 1) (by decide)).1
  revert ht
  decide

theorem member_caches_transparent_iff_readN :
    Transparent (fun _ => "n") (twoClasses.foldl (perform fun _ => "n") State.init) (readN 0) ↔
      Sound (fun _ => "n") (twoClasses.foldl (perform fun _ => "n") State.init) (readN 0) :=
  @member_caches_transparent_iff Nat _ (fun _ => "n") twoClasses _ rfl (readN 0) (by decide)

end TwoClasses

end TurboScript.Oop
