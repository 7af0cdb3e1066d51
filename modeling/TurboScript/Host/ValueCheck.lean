import TurboScript.Host.ValueViews
import TurboScript.Lib.Metered

/- The validation of value views (`ts_host_validate_value_views`).

   The numbers of nodes and bytes are of type `size_t`, and their operations are those of the
   machine. `State.wrapped` notes whether one of them has wrapped; the code has no such field.

   The hash sets and the test for UTF-8 belong to libraries whose code is not here: they are
   parameters (`Library`), and `Library.Lawful` says what is relied on. The depth of the
   recursion is an argument, and a check that reaches it has no result. -/
namespace TurboScript.Host.Values

open Lib

/-! The libraries. -/

/-- `stl_status`, as far as its values are told apart. -/
inductive StlStatus
  | ok | outOfMemory | capacityExceeded | other
  deriving DecidableEq, Repr

structure HashSets (α : Type) where
  Carrier : Type
  init (hash : α → UInt64) (equal : α → α → Bool) (limit : Nat) : StlStatus × Carrier
  contains : Carrier → α → Bool
  add : Carrier → α → StlStatus × Carrier
  remove : Carrier → α → StlStatus × Carrier

/-- `holds s xs limit` says that a set has the elements of a list, and room for `limit`. -/
structure HashSets.Abstracts {α : Type} (sets : HashSets α) (hash : α → UInt64)
    (equal : α → α → Bool) (holds : sets.Carrier → List α → Nat → Prop) : Prop where
  init : ∀ limit, 0 < limit → ∃ s, sets.init hash equal limit = (.ok, s) ∧ holds s [] limit
  contains : ∀ s xs limit x, holds s xs limit →
    (sets.contains s x = true ↔ ∃ y ∈ xs, equal x y = true)
  add : ∀ s xs limit x, holds s xs limit → (∀ y ∈ xs, ¬ equal x y = true) → xs.length < limit →
    ∃ s', sets.add s x = (.ok, s') ∧ holds s' (x :: xs) limit
  remove : ∀ s xs ys limit x, holds s (xs ++ x :: ys) limit →
    ∃ s', sets.remove s x = (.ok, s') ∧ holds s' (xs ++ ys) limit

/-- The sets are sets, for every equality and every hash that respects it. -/
def HashSets.Lawful {α : Type} (sets : HashSets α) : Prop :=
  ∀ hash equal, Equivalence (fun a b => equal a b = true) →
    (∀ a b, equal a b = true → hash a = hash b) → ∃ holds, sets.Abstracts hash equal holds

structure Library where
  pointers : HashSets Nat
  keys : HashSets StringView
  hashBytes : Nat → UInt64
  utf8Valid : List UInt8 → Bool

structure Library.Lawful (lib : Library) : Prop where
  pointers : lib.pointers.Lawful
  keys : lib.keys.Lawful
  utf8Valid : ∀ text, lib.utf8Valid text = true ↔ ValidUtf8 text

/-! The validation. -/

/-- `ts_host_value_limits_t`. -/
structure Limits where
  maxDepth : UInt32
  maxNodes : UInt64
  maxBytes : UInt64
  deriving DecidableEq, Repr

/-- `ts_host_validation_state_t`, with the note. -/
structure State (active : Type) where
  nodes : Nat := 0
  bytes : Nat := 0
  active : active
  wrapped : Bool := false

def wrap (n : Nat) : Nat := n % 2 ^ 64

/-- A difference of two `size_t`. -/
def sizeSub (a b : Nat) : Nat := wrap (2 ^ 64 + a - b)

def State.noting {C : Type} (state : State C) (wraps : Bool) : State C :=
  { state with wrapped := state.wrapped || wraps }

def State.visit {C : Type} (state : State C) : State C :=
  { state.noting (sizeMax < state.nodes + 1) with nodes := wrap (state.nodes + 1) }

def stlStatus : StlStatus → Status
  | .ok => .ok
  | .outOfMemory => .outOfMemory
  | .capacityExceeded => .limitExceeded
  | .other => .invalidArgument

/-- `ts_host_charge_bytes`. -/
def chargeBytes {C : Type} (limits : Limits) (count elementSize : Nat) (state : State C) :
    Status × State C :=
  if count ≠ 0 ∧ sizeMax / count < elementSize then (.limitExceeded, state)
  else
    let bytes := wrap (count * elementSize)
    let state := (state.noting (sizeMax < count * elementSize)).noting
      (limits.maxBytes.toNat < state.bytes)
    if sizeSub limits.maxBytes.toNat state.bytes < bytes then (.limitExceeded, state)
    else (.ok, { state.noting (sizeMax < state.bytes + bytes) with
      bytes := wrap (state.bytes + bytes) })

/-- `ts_host_string_hash`. -/
def stringHash (mem : Memory) (view : StringView) : UInt64 :=
  (mem.bytes view).foldl (fun hash byte => (hash ^^^ byte.toUInt64) * 1099511628211) 14695981039346656037

/-- `ts_host_string_equal`. -/
def stringEqual (mem : Memory) (lhs rhs : StringView) : Bool :=
  lhs.size == rhs.size && (lhs.size == 0 || mem.bytes lhs == mem.bytes rhs)

section Validate
variable (lib : Library) (mem : Memory) (limits : Limits)

/-- `ts_host_validate_string`. -/
def validateString {C : Type} (value : StringView) (requireNonempty rejectEmbeddedNul : Bool)
    (state : State C) : Status × State C :=
  if value.data = 0 ∧ value.size ≠ 0 then (.invalidArgument, state)
  else if requireNonempty ∧ value.size = 0 then (.validationError, state)
  else if rejectEmbeddedNul ∧ 0 ∈ mem.bytes value then (.validationError, state)
  else if value.size.toNat = sizeMax then (.limitExceeded, state)
  else
    let charged := chargeBytes limits (wrap (value.size.toNat + 1)) 1 state
    if charged.1 ≠ .ok then charged
    else if !lib.utf8Valid (mem.bytes value) then (.invalidUtf8, charged.2)
    else charged

/-- The case of an array or a record: room for the elements is asked for in advance. -/
def chargeElements {C : Type} (first : Nat) (count : UInt64) (elementSize : Nat)
    (state : State C) : Status × State C :=
  if first = 0 ∧ count ≠ 0 then (.invalidArgument, state)
  else
    let state := state.noting (limits.maxNodes.toNat < state.nodes)
    if sizeSub limits.maxNodes.toNat state.nodes < count.toNat then (.limitExceeded, state)
    else chargeBytes limits count.toNat elementSize state

def whileActive (identity : Nat)
    (elements : State lib.pointers.Carrier → Option (Status × State lib.pointers.Carrier))
    (state : State lib.pointers.Carrier) : Option (Status × State lib.pointers.Carrier) :=
  if lib.pointers.contains state.active identity then some (.validationError, state)
  else
    let added := lib.pointers.add state.active identity
    if stlStatus added.1 ≠ .ok then some (stlStatus added.1, { state with active := added.2 })
    else (elements { state with active := added.2 }).map fun r =>
      let removed := lib.pointers.remove r.2.active identity
      (if removed.1 ≠ .ok ∧ r.1 = .ok then .invalidState else r.1, { r.2 with active := removed.2 })

def validateEntries {C : Type} (validate : Nat → State C → Option (Status × State C)) :
    List Nat → lib.keys.Carrier → State C → Option (Status × State C)
  | [], _, state => some (.ok, state)
  | entry :: entries, keys, state =>
    andThen .ok (some (validateString lib mem limits (mem.key entry) true true state)) fun state =>
      if lib.keys.contains keys (mem.key entry) then some (.duplicateRecordKey, state)
      else
        let added := lib.keys.add keys (mem.key entry)
        if added.1 ≠ .ok then some (stlStatus added.1, state)
        else andThen .ok (validate (entry + valueOffset) state) (validateEntries validate entries added.2)

def validateRecord {C : Type} (validate : Nat → State C → Option (Status × State C))
    (first : Nat) (count : UInt64) (state : State C) : Option (Status × State C) :=
  if count = 0 then some (.ok, state)
  else
    let made := lib.keys.init (stringHash mem) (stringEqual mem) count.toNat
    if made.1 ≠ .ok then some (stlStatus made.1, state)
    else validateEntries lib mem limits validate (slots first entrySize count) made.2 state

/-- What `ts_host_validate_node` does once the node is counted: its `switch`, and the loops over
    the parts with `validate`. -/
def validateContent
    (validate : Nat → State lib.pointers.Carrier → Option (Status × State lib.pointers.Carrier))
    (addr : Nat) (state : State lib.pointers.Carrier) :
    Option (Status × State lib.pointers.Carrier) :=
  if (mem.view addr).reserved ≠ 0 then some (.invalidArgument, state)
  else match (mem.view addr).content with
    | .null => some (.ok, state)
    | .int64 _ => some (.ok, state)
    | .number _ => some (.ok, state)
    | .bool boolean => some (if boolean ≤ 1 then .ok else .validationError, state)
    | .string s => some (validateString lib mem limits s false false state)
    | .array items count =>
      andThen .ok (some (chargeElements limits items count viewSize state))
        (whileActive lib addr (eachOf .ok validate (slots items viewSize count)))
    | .record entries count =>
      andThen .ok (some (chargeElements limits entries count entrySize state))
        (whileActive lib addr (validateRecord lib mem limits validate entries count))
    | .other _ => some (.validationError, state)

/-- `ts_host_validate_node`. The depth is at most `max_depth + 1`, where it cannot wrap. -/
def validateNode : Nat → Nat → Nat → State lib.pointers.Carrier →
    Option (Status × State lib.pointers.Carrier)
  | 0, _, _, _ => none
  | fuel + 1, depth, addr, state =>
    if addr = 0 then some (.invalidArgument, state)
    else if limits.maxDepth.toNat < depth ∨ state.nodes = limits.maxNodes.toNat then
      some (.limitExceeded, state)
    else validateContent lib mem limits (validateNode fuel (depth + 1)) addr state.visit

/-- `ts_host_validate_value_views`, with its last state. -/
def validateValueViews (fuel values : Nat) (count : UInt64) :
    Option (Status × Option (State lib.pointers.Carrier)) :=
  if (values = 0 ∧ count ≠ 0) ∨ limits.maxDepth = 0 ∨ limits.maxNodes = 0 ∨
      limits.maxBytes = 0 then some (.invalidArgument, none)
  else
    let made := lib.pointers.init lib.hashBytes (· == ·) limits.maxNodes.toNat
    if made.1 ≠ .ok then some (stlStatus made.1, none)
    else (eachOf .ok (validateNode lib mem limits fuel 1) (slots values viewSize count)
      { active := made.2 }).map fun r => (r.1, some r.2)

end Validate
end TurboScript.Host.Values
