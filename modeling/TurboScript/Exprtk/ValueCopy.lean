import Mathlib.Algebra.Order.Ring.Int
import Mathlib.Data.List.Sort
import Mathlib.Logic.Function.Basic

/- Script values in memory, and how they are copied and destroyed (`exprtk_value.c`).

   A value is what is reached from an `exprtk_value_t`: containers and payload buffers with
   their identities, and with what is in them. A memory says which identities are allocated; an
   identity is never given twice. Payloads lie in counted buffers of a pool, lists and sets in an
   array with a pool for their elements, maps and objects in a storage with a pool of its own.
   Classes, instances, bound methods and coroutines are references; a function holds its captured
   scope by a count. Which allocation requests succeed, and the slots that the hash map chooses
   for its keys, are arguments. -/
namespace TurboScript.Exprtk.ValueCopy

/-! Values. -/

inductive Ownership
  | borrowed | owned
  deriving DecidableEq, Repr

inductive InlineType
  | number | integer | bool | null | uuid | datetime | date | time | duration | decimal | money
  | offsetDatetime
  deriving DecidableEq, Repr

inductive TextType
  | string | bytes | bigint
  deriving DecidableEq, Repr

/-- `exprtk_typed_array_kind_t`, and what else an `int` can hold. -/
inductive TypedKind
  | i32 | i64 | f32 | f64
  | other (n : Int)
  deriving DecidableEq, Repr

inductive RefType
  | coroutine | classVal | instanceVal | boundMethod
  deriving DecidableEq, Repr

/-- A pointer and a length: a pointer that is not NULL can be read that far. -/
structure Slice (α : Type) where
  data : Option (List α)
  len : Nat
  fits : ∀ l, data = some l → len ≤ l.length

def Slice.content {α : Type} (s : Slice α) : List α := (s.data.getD []).take s.len

def Slice.of {α : Type} (l : List α) : Slice α :=
  ⟨some l, l.length, fun _ h => Nat.le_of_eq (congrArg List.length (Option.some.inj h))⟩

@[simp] theorem Slice.content_of {α : Type} (l : List α) : (Slice.of l).content = l :=
  List.take_length

abbrev Key := List UInt8

structure ListHead where
  isSet : Bool
  array : Option Nat
  capacity : Nat
  heapOwned : Bool
  pool : Option Nat
  own : Ownership
  deriving DecidableEq, Repr

inductive Value where
  | inline (type : InlineType) (bits : Nat)
  | text (type : TextType) (view : Slice UInt8) (storage : Option Nat) (own : Ownership)
  | enum (isFlags : Bool) (typeName symbol : Slice UInt8) (value : Int)
      (storage aux : Option Nat) (own : Ownership)
  | vector (data : Slice UInt64) (storage : Option Nat) (own : Ownership)
  | typedArray (kind : TypedKind) (data : Slice UInt64) (heapData : Option Nat)
      (storage : Option Nat) (own : Ownership)
  | list (head : ListHead) (items : List Value)
  | map (isObject : Bool) (table : Nat) (entries : List (Key × Value)) (own : Ownership)
  | nullMap (isObject : Bool) (own : Ownership)
  | function (closureEnv : Option Nat) (code : Nat) (own : Ownership)
  | reference (type : RefType) (object : Nat)

/-! Memory. -/

/-- What is allocated under an identity. A storage of a map is a pool, too. -/
inductive Block
  | buffer (pool count : Nat)
  | table
  | pool
  | array
  | data
  deriving DecidableEq, Repr

structure Memory where
  /-- The allocation requests so far. -/
  time : Nat
  next : Nat
  blocks : Nat → Option Block
  /-- The reference counts of the captured scopes. -/
  holders : Nat → Nat

/-- The identities given are below `next`, and a buffer is younger than its pool. -/
structure Memory.WF (mem : Memory) : Prop where
  bound : ∀ id, mem.next ≤ id → mem.blocks id = none
  older : ∀ id pool count, mem.blocks id = some (.buffer pool count) → pool < id

/-- A request that is refused, or that takes memory of a pool. -/
def Memory.tick (mem : Memory) : Memory := { mem with time := mem.time + 1 }

def Memory.grow (mem : Memory) (block : Block) : Memory :=
  { mem with
    time := mem.time + 1
    next := mem.next + 1
    blocks := Function.update mem.blocks mem.next (some block) }

def Memory.set (mem : Memory) (id : Nat) (block : Option Block) : Memory :=
  { mem with blocks := Function.update mem.blocks id block }

/-- `mem_buffer_retain`. -/
def Memory.retain (mem : Memory) (id : Nat) : Memory :=
  match mem.blocks id with
  | some (.buffer pool count) => mem.set id (some (.buffer pool (count + 1)))
  | _ => mem

/-- `mem_buffer_release`. -/
def Memory.release (mem : Memory) (id : Nat) : Memory :=
  match mem.blocks id with
  | some (.buffer pool count) =>
    mem.set id (if count ≤ 1 then none else some (.buffer pool (count - 1)))
  | _ => mem

def Memory.each (f : Memory → Nat → Memory) (mem : Memory) : Option Nat → Memory
  | none => mem
  | some id => f mem id

def Memory.free (mem : Memory) (id : Nat) : Memory := mem.set id none

/-- `mem_destroy` of a pool and the release of what holds it: its buffers go with it. -/
def Memory.freePool (mem : Memory) (pool : Nat) : Memory :=
  { mem with blocks := fun id =>
      if id = pool then none
      else match mem.blocks id with
        | some (.buffer p count) => if p = pool then none else some (.buffer p count)
        | block => block }

/-- `mem_buffer_pool(storage) == pool`. -/
def Memory.inPool (mem : Memory) (pool id : Nat) : Bool :=
  match mem.blocks id with
  | some (.buffer p _) => p == pool
  | _ => false

/-! Destroying. -/

/-- `exprtk_value_release_storage`. -/
def releaseStorage (storage aux : Option Nat) (own : Ownership) (mem : Memory) : Memory :=
  if own = .owned then
    Memory.each Memory.release (Memory.each Memory.release mem storage) aux
  else mem

mutual

/-- `exprtk_value_destroy`. -/
def destroy : Value → Memory → Memory
  | .inline _ _, mem => mem
  | .text _ _ storage own, mem => releaseStorage storage none own mem
  | .enum _ _ _ _ storage aux own, mem => releaseStorage storage aux own mem
  | .vector _ storage own, mem => releaseStorage storage none own mem
  | .typedArray _ _ heapData storage own, mem =>
    Memory.each Memory.free (releaseStorage storage none own mem) heapData
  | .list head items, mem =>
    if head.own = .borrowed then mem
    else
      let mem := destroyItems items mem
      let mem := if head.heapOwned then Memory.each Memory.free mem head.array else mem
      Memory.each Memory.freePool mem head.pool
  | .map _ table entries own, mem =>
    if own = .borrowed then mem else (destroyEntries entries mem).freePool table
  | .nullMap _ _, mem => mem
  -- the release of the storage has already set the ownership to borrowed
  | .function _ _ _, mem => mem
  | .reference _ _, mem => mem

def destroyItems : List Value → Memory → Memory
  | [], mem => mem
  | item :: rest, mem => destroyItems rest (destroy item mem)

def destroyEntries : List (Key × Value) → Memory → Memory
  | [], mem => mem
  | (_, child) :: rest, mem => destroyEntries rest (destroy child mem)

end

/-! Copying. -/

def sizeMax : Nat := 2 ^ 64 - 1

section Copy
variable (alloc : Nat → Bool) (slot : Nat → Key → Nat)

def request (block : Block) (mem : Memory) : Option Nat × Memory :=
  if alloc mem.time then (some mem.next, mem.grow block) else (none, mem.tick)

/-- A request for memory of a pool that is freed with the pool at the latest. -/
def requestInside (mem : Memory) : Bool × Memory := (alloc mem.time, mem.tick)

def copyView (pool : Nat) (source : Slice UInt8) (nulTerminate : Bool) (mem : Memory) :
    Option (Option Nat × Slice UInt8) × Memory :=
  if source.data = none ∧ source.len ≠ 0 then (none, mem)
  else if source.len = 0 then (some (none, .of []), mem)
  else if nulTerminate = true ∧ source.len = sizeMax then (none, mem)
  else
    match request alloc (.buffer pool 1) mem with
    | (none, mem) => (none, mem)
    | (some id, mem) => (some (some id, .of source.content), mem)

/-- The element payload of a vector or a typed array, `exprtk_copy_payload`. -/
def copyPayload (pool : Nat) (source : Slice UInt64) (elementSize : Nat) (mem : Memory) :
    Option (Option Nat × Slice UInt64) × Memory :=
  if source.len = 0 then (some (none, ⟨none, 0, nofun⟩), mem)
  else if source.data = none then (none, mem)
  else if source.len > sizeMax / elementSize then (none, mem)
  else
    match request alloc (.buffer pool 1) mem with
    | (none, mem) => (none, mem)
    | (some id, mem) => (some (some id, .of source.content), mem)

def TypedKind.elementSize : TypedKind → Option Nat
  | .i32 => some 4
  | .i64 => some 8
  | .f32 => some 4
  | .f64 => some 8
  | .other _ => none

/-- The storage of the copy makes it an owner. -/
def ownedBy (storage aux : Option Nat) (own : Ownership) : Ownership :=
  if storage.isSome || aux.isSome then .owned else own

/-- The payload of a value lies in buffers of this pool already. -/
def sharable (pool : Nat) (storage aux : Option Nat) (mem : Memory) : Bool :=
  storage.any (mem.inPool pool) && aux.all (mem.inPool pool)

/-- `exprtk_value_retain` of the two buffers. -/
def retainStorage (storage aux : Option Nat) (mem : Memory) : Memory :=
  Memory.each Memory.retain (Memory.each Memory.retain mem storage) aux

def emptyList (isSet : Bool) : ListHead := ⟨isSet, none, 0, false, none, .owned⟩

def listPool (head : ListHead) (mem : Memory) : Option (Nat × ListHead) × Memory :=
  match head.pool with
  | some pool => (some (pool, head), mem)
  | none =>
    match request alloc .pool mem with
    | (none, mem) => (none, mem)
    | (some pool, mem) => (some (pool, { head with pool := some pool }), mem)

/-- `exprtk_list_push` from the stored element on: the array grows if it is full. -/
def listStore (head : ListHead) (items : List Value) (stored : Value) (mem : Memory) :
    Option (ListHead × List Value) × Memory :=
  if items.length < head.capacity then (some (head, items ++ [stored]), mem)
  else if head.capacity > sizeMax / 2 then (none, destroy stored mem)
  else
    match request alloc .array mem with
    | (none, mem) => (none, destroy stored mem)
    | (some array, mem) =>
      let mem := if head.heapOwned then Memory.each Memory.free mem head.array else mem
      (some ({ head with
        array := some array
        capacity := if head.capacity = 0 then 4 else head.capacity * 2
        heapOwned := true
        own := .owned }, items ++ [stored]), mem)

/-- The entries in the order of their slots. Which slot a key has after a put at this time is up
to the hash map, which may move all of them when it grows. -/
def arrange (time : Nat) (entries : List (Key × Value)) : List (Key × Value) :=
  entries.insertionSort fun a b => slot time a.1 ≤ slot time b.1

/-- `exprtk_map_set` from the stored value on, with `hash_map_put`. -/
def mapStore (entries : List (Key × Value)) (key : Key) (stored : Value) (mem : Memory) :
    Option (List (Key × Value)) × Memory :=
  match entries.lookup key with
  | some old =>
    (some (entries.map fun e => if e.1 = key then (key, stored) else e), destroy old mem)
  | none =>
    match requestInside alloc mem with
    | (false, mem) => (none, destroy stored mem)
    | (true, mem) =>
      match requestInside alloc mem with
      | (false, mem) => (none, destroy stored mem)
      | (true, mem) =>
        (some (arrange slot mem.time ((key, stored) :: entries)), mem)

mutual

/-- `exprtk_value_copy_to_pool`, of the value or, for an element, of the value as borrowed. -/
def copyToPool (asBorrowed : Bool) (pool : Nat) : Value → Memory → Option Value × Memory
  | .inline type bits, mem => (some (.inline type bits), mem)
  | .text type view storage own, mem =>
    if sharable pool storage none mem then
      (some (.text type view storage .owned), retainStorage storage none mem)
    else
      match copyView alloc pool view (type != .bytes) mem with
      | (none, mem) => (none, mem)
      | (some (storage, view), mem) =>
        (some (.text type view storage (ownedBy storage none (if asBorrowed then .borrowed else own))), mem)
  | .enum isFlags typeName symbol value storage aux own, mem =>
    if sharable pool storage aux mem then
      (some (.enum isFlags typeName symbol value storage aux .owned), retainStorage storage aux mem)
    else
      match copyView alloc pool typeName true mem with
      | (none, mem) => (none, mem)
      | (some (storage, typeName), mem) =>
        match copyView alloc pool symbol true mem with
        | (none, mem) =>
          -- the copy has the ownership of the value here
          (none, releaseStorage storage none (if asBorrowed then .borrowed else own) mem)
        | (some (aux, symbol), mem) =>
          (some (.enum isFlags typeName symbol value storage aux
            (ownedBy storage aux (if asBorrowed then .borrowed else own))), mem)
  | .vector data storage own, mem =>
    if sharable pool storage none mem then
      (some (.vector data storage .owned), retainStorage storage none mem)
    else
      match copyPayload alloc pool data 8 mem with
      | (none, mem) => (none, mem)
      | (some (storage, data), mem) =>
        (some (.vector data storage (ownedBy storage none (if asBorrowed then .borrowed else own))), mem)
  | .typedArray kind data heapData storage own, mem =>
    if sharable pool storage none mem then
      (some (.typedArray kind data heapData storage .owned), retainStorage storage none mem)
    else
      match kind.elementSize with
      | none => (none, mem)
      | some elementSize =>
        match copyPayload alloc pool data elementSize mem with
        | (none, mem) => (none, mem)
        | (some (storage, data), mem) =>
          (some (.typedArray kind data none storage
            (ownedBy storage none (if asBorrowed then .borrowed else own))), mem)
  | .list head items, mem => copyItems (emptyList head.isSet) [] items mem
  | .map isObject _ entries _, mem =>
    match request alloc .table mem with
    | (none, mem) => (none, mem)
    | (some table, mem) => copyEntries isObject table [] entries mem
  | .nullMap isObject _, mem =>
    match request alloc .table mem with
    | (none, mem) => (none, mem)
    | (some table, mem) => (some (.map isObject table [] .owned), mem)
  | .function closureEnv code _, mem =>
    (some (.function closureEnv code .owned), match closureEnv with
      | none => mem
      | some env =>
        { mem with holders := Function.update mem.holders env (mem.holders env + 1) })
  | .reference type object, mem => (some (.reference type object), mem)

/-- The elements one after the other, `exprtk_list_push` of each. -/
def copyItems (head : ListHead) (built : List Value) : List Value → Memory → Option Value × Memory
  | [], mem => (some (.list head built), mem)
  | item :: rest, mem =>
    match listPool alloc head mem with
    | (none, mem) => (none, destroy (.list head built) mem)
    | (some (pool, head), mem) =>
      match copyToPool true pool item mem with
      | (none, mem) => (none, destroy (.list head built) mem)
      | (some stored, mem) =>
        match listStore alloc head built stored mem with
        | (none, mem) => (none, destroy (.list head built) mem)
        | (some (head, built), mem) => copyItems head built rest mem

/-- The entries one after the other, `exprtk_map_set` of each. -/
def copyEntries (isObject : Bool) (table : Nat) (built : List (Key × Value)) :
    List (Key × Value) → Memory → Option Value × Memory
  | [], mem => (some (.map isObject table built .owned), mem)
  | (key, child) :: rest, mem =>
    match copyToPool true table child mem with
    | (none, mem) => (none, destroy (.map isObject table built .owned) mem)
    | (some stored, mem) =>
      match mapStore alloc slot built key stored mem with
      | (none, mem) => (none, destroy (.map isObject table built .owned) mem)
      | (some built, mem) => copyEntries isObject table built rest mem

end

end Copy

/-! The entry points. -/

section Entry
variable (alloc : Nat → Bool) (slot : Nat → Key → Nat)

/-- `exprtk_value_copy_to_pool`: the status, and what `*out` holds then. -/
def exprtkValueCopyToPool (value : Value) (pool : Nat) (out : Value) (mem : Memory) :
    Int × Value × Memory :=
  match copyToPool alloc slot false pool value mem with
  | (none, mem) => (-1, out, mem)
  | (some copied, mem) => (0, copied, mem)

/-- What the copy reads and writes of an `exprtk_env_t`. -/
structure Env where
  arena : Nat
  aborted : Bool
  errorMsg : String
  deriving DecidableEq, Repr

def exprtkValueCopyToEnv (value : Value) (env : Env) (out : Value) (mem : Memory) :
    Int × Value × Env × Memory :=
  match exprtkValueCopyToPool alloc slot value env.arena out mem with
  | (0, out, mem) => (0, out, env, mem)
  | (_, out, mem) =>
    (-1, out, { env with aborted := true, errorMsg := "failed to allocate owned value payload" },
      mem)

end Entry

end TurboScript.Exprtk.ValueCopy
