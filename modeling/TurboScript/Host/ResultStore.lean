import Mathlib.Logic.Function.Basic
import TurboScript.Host.ValueCheckExact

/- The result of a call at the host boundary (`turbo_script_result_t`), and what is written into
   it.

   1. Memory that is written. The arena's addresses lie above those of the caller, and none is
      given out twice; which allocations succeed is an argument. A view of the result is no
      argument of a call: the code says that the next write invalidates it.
   2. The copies of views (`ts_host_copy_view`) and the views of script values
      (`ts_host_exprtk_to_view`).
   3. The operations. The depth of the recursions is an argument, as in the validation. -/
namespace TurboScript.Host.Values

open Lib

/-! Memory. -/

def Memory.setView (mem : Memory) (addr : Nat) (value : ValueView) : Memory :=
  { mem with view := Function.update mem.view addr value }

def Memory.setKey (mem : Memory) (addr : Nat) (key : StringView) : Memory :=
  { mem with key := Function.update mem.key addr key }

def Memory.setBytes (mem : Memory) (addr : Nat) (bytes : List UInt8) : Memory :=
  { mem with byte := fun a => if a < addr then mem.byte a else bytes.getD (a - addr) (mem.byte a) }

/-- A memory, with the next address to be given out and the number of the allocations. -/
structure Heap where
  mem : Memory
  top : Nat
  calls : Nat

def Heap.reserve (h : Heap) (size : Nat) : Heap := { h with top := h.top + size }

def write (target : Nat) (value : ValueView) (h : Heap) : Option (Status × Heap) :=
  some (.ok, { h with mem := h.mem.setView target value })

def orOutOfMemory (allocated : Option Nat × Heap) (next : Nat → Heap → Option (Status × Heap)) :
    Option (Status × Heap) :=
  match allocated.1 with
  | none => some (.outOfMemory, allocated.2)
  | some addr => next addr allocated.2

section Copy
variable (grants : Nat → Bool)

/-- `mem_alloc`, where `none` stands for NULL. -/
def allocate (size : Nat) (h : Heap) : Option Nat × Heap :=
  if grants h.calls then (some h.top, { h with top := h.top + size, calls := h.calls + 1 })
  else (none, { h with calls := h.calls + 1 })

/-- `ts_host_copy_string`. A text that was validated is shorter than `SIZE_MAX`. -/
def copyString (source : StringView) (h : Heap) : Option Nat × Heap :=
  match allocate grants (source.size.toNat + 1) h with
  | (none, h) => (none, h)
  | (some copy, h) => (some copy, { h with mem := h.mem.setBytes copy (h.mem.bytes source ++ [0]) })

/-- The copy of an entry, where `copy` copies its value. -/
def copyEntry (copy : Nat → Nat → Heap → Option (Status × Heap)) (source target : Nat) (h : Heap) :
    Option (Status × Heap) :=
  let key := h.mem.key source
  orOutOfMemory (copyString grants key h) fun data h =>
    copy (source + valueOffset) (target + valueOffset)
      { h with mem := h.mem.setKey target ⟨data, key.size⟩ }

def copyElements (copy : Nat → Nat → Heap → Option (Status × Heap)) (size source : Nat)
    (count : UInt64) (done : Nat → Heap → Option (Status × Heap)) (h : Heap) :
    Option (Status × Heap) :=
  if count = 0 then done 0 h
  else orOutOfMemory (allocate grants (size * count.toNat) h) fun first h =>
    andThen .ok (eachOf .ok (fun p => copy p.1 p.2)
      ((slots source size count).zip (slots first size count)) h) (done first)

/-- `ts_host_copy_view`. -/
def copyView : Nat → Nat → Nat → Heap → Option (Status × Heap)
  | 0, _, _, _ => none
  | fuel + 1, source, target, h =>
    let copy := h.mem.view source
    match copy.content with
    | .string s => orOutOfMemory (copyString grants s h) fun data =>
      write target ⟨copy.reserved, .string ⟨data, s.size⟩⟩
    | .array items count => copyElements grants (copyView fuel) viewSize items count
      (fun first => write target ⟨copy.reserved, .array first count⟩) h
    | .record entries count =>
      copyElements grants (copyEntry grants (copyView fuel)) entrySize entries count
        (fun first => write target ⟨copy.reserved, .record first count⟩) h
    | _ => write target copy h

end Copy

/-! Script values. -/

/-- `exprtk_value_t`. A text is given by its address and its length, also the keys of a map or an
    object, which are C strings; they stand in the order in which the map is walked. -/
inductive ExprValue
  | null
  | bool (boolean : Int32)
  | integer (integer : Int64)
  | number (bits : UInt64)
  | string (string : StringView)
  | vector (data : Nat) (elements : List UInt64)
  | list (items : Nat) (elements : List ExprValue)
  | map (keys : List StringView) (values : List ExprValue)
  | other

/-- `ts_host_exprtk_view_state_t`, with the heap of its arena. No operation on the counts wraps:
    the code compares before it adds. -/
structure ViewState where
  heap : Heap
  nodes : Nat := 0
  bytes : Nat := 0

section View
variable (lib : Library) (limits : Limits) (grants : Nat → Bool)

def putView (target : Nat) (content : Content) (state : ViewState) : Option (Status × ViewState) :=
  (write target ⟨0, content⟩ state.heap).map fun r => (r.1, { state with heap := r.2 })

/-- `ts_host_exprtk_view_charge`. -/
def viewCharge (count elementSize : Nat) (state : ViewState) : Option (Status × ViewState) :=
  if count ≠ 0 ∧ sizeMax / count < elementSize then some (.limitExceeded, state)
  else if limits.maxBytes.toNat < state.bytes ∨
      limits.maxBytes.toNat - state.bytes < count * elementSize then some (.limitExceeded, state)
  else some (.ok, { state with bytes := state.bytes + count * elementSize })

def viewText (text : StringView) (state : ViewState) : Option (Status × ViewState) :=
  if text.size.toNat = sizeMax then some (.limitExceeded, state)
  else andThen .ok (viewCharge limits (text.size.toNat + 1) 1 state) fun state =>
    some (if lib.utf8Valid (state.heap.mem.bytes text) then .ok else .invalidUtf8, state)

def viewElements (missing : Bool) (size count : Nat)
    (fill : Nat → ViewState → Option (Status × ViewState)) (target : Nat)
    (content : Nat → UInt64 → Content) (state : ViewState) : Option (Status × ViewState) :=
  if missing ∧ count ≠ 0 then some (.invalidState, state)
  else if limits.maxNodes.toNat - state.nodes < count then some (.limitExceeded, state)
  else andThen .ok (viewCharge limits count size state) fun state =>
    if count = 0 then putView target (content 0 0) state
    else match allocate grants (size * count) state.heap with
      | (none, h) => some (.outOfMemory, { state with heap := h })
      | (some first, h) => andThen .ok (fill first { state with heap := h })
        (putView target (content first (UInt64.ofNat count)))

/-- The depth and the number of nodes, tested at the start of each node. -/
def entering (depth : Nat) (next : ViewState → Option (Status × ViewState)) (state : ViewState) :
    Option (Status × ViewState) :=
  if limits.maxDepth.toNat < depth ∨ state.nodes = limits.maxNodes.toNat then
    some (.limitExceeded, state)
  else next { state with nodes := state.nodes + 1 }

def viewNumbers : List UInt64 → Nat → ViewState → Option (Status × ViewState)
  | [], _, state => some (.ok, state)
  | bits :: rest, slot, state => andThen .ok (putView slot (.number bits) state) fun state =>
    viewNumbers rest (slot + viewSize) { state with nodes := state.nodes + 1 }

mutual
/-- The `switch` of `ts_host_exprtk_to_view`. -/
def viewContent : ExprValue → Nat → Nat → ViewState → Option (Status × ViewState)
  | .null, target, _, state => putView target .null state
  | .bool boolean, target, _, state =>
    if boolean ≠ 0 ∧ boolean ≠ 1 then some (.validationError, state)
    else putView target (.bool (if boolean = 0 then 0 else 1)) state
  | .integer integer, target, _, state => putView target (.int64 integer) state
  | .number bits, target, _, state => putView target (.number bits) state
  | .string s, target, _, state =>
    if s.data = 0 ∧ s.size ≠ 0 then some (.invalidState, state)
    else andThen .ok (viewText lib limits s state) (putView target (.string s))
  | .vector data elements, target, _, state =>
    viewElements limits grants (data == 0) viewSize elements.length (viewNumbers elements) target
      .array state
  | .list items elements, target, depth, state =>
    viewElements limits grants (items == 0) viewSize elements.length
      (fun first => viewItems elements first (depth + 1)) target .array state
  | .map keys values, target, depth, state =>
    viewElements limits grants false entrySize keys.length
      (fun first => viewEntries keys values first (depth + 1)) target .record state
  | .other, _, _, state => some (.validationError, state)

def viewItems : List ExprValue → Nat → Nat → ViewState → Option (Status × ViewState)
  | [], _, _, state => some (.ok, state)
  | value :: rest, slot, depth, state =>
    andThen .ok (entering limits depth (viewContent value slot depth) state)
      (viewItems rest (slot + viewSize) depth)

/-- The walk over a map. It fails where it ends before the count is reached. -/
def viewEntries : List StringView → List ExprValue → Nat → Nat → ViewState → Option (Status × ViewState)
  | [], [], _, _, state => some (.ok, state)
  | key :: keys, value :: rest, slot, depth, state =>
    if key.data = 0 then some (.invalidState, state)
    else if key.size = 0 then some (.validationError, state)
    else andThen .ok (viewText lib limits key state) fun state =>
      andThen .ok (entering limits depth (viewContent value (slot + valueOffset) depth)
        { state with heap := { state.heap with mem := state.heap.mem.setKey slot key } })
        (viewEntries keys rest (slot + entrySize) depth)
  | _, _, _, _, state => some (.invalidState, state)
end

/-- `ts_host_exprtk_to_view`. -/
def exprtkToView (value : ExprValue) (target depth : Nat) : ViewState → Option (Status × ViewState) :=
  entering limits depth (viewContent lib limits grants value target depth)

end View

/-! The operations. -/

/-- `turbo_script_error_info_t`, with the numbers of its enumerations. -/
structure ErrorInfo where
  structSize : UInt32 := 0
  status : Int32 := 0
  errorCode : Int32 := 0
  phase : UInt32 := 0
  line : UInt32 := 0
  column : UInt32 := 0
  length : UInt32 := 0
  causeCode : Int32 := 0
  moduleName : StringView := ⟨0, 0⟩
  functionName : StringView := ⟨0, 0⟩
  message : StringView := ⟨0, 0⟩
  reserved : List UInt64 := [0, 0, 0, 0]
  deriving DecidableEq, Repr

/-- `sizeof(turbo_script_error_info_t)`. -/
def errorInfoSize : UInt32 := 112

/-- `turbo_script_result_t`. A new result is one that was cleared. -/
structure Result where
  value : ValueView := ⟨0, .null⟩
  error : ErrorInfo := {}
  hasValue : Bool := false
  hasError : Bool := false

structure ResultState where
  result : Result
  heap : Heap

/-- `ts_host_result_clear_unchecked`. -/
def ResultState.clear (s : ResultState) : ResultState := { s with result := {} }

section Operations
variable (lib : Library) (grants : Nat → Bool)

/-- `ts_host_validate_value_view`. -/
def validateValueView (mem : Memory) (value : Nat) : Option Limits → Option Status
  | none => some .invalidArgument
  | some limits =>
    if value = 0 then some .invalidArgument
    else (validateValueViews lib mem limits (limits.maxDepth.toNat + 1) value 1).map Prod.fst

/-- `turbo_script_result_create`; `out` and `ctx` are whether these are not NULL, `owner` whether
    the call is on the thread of the context. -/
def createResult (out ctx owner : Bool) (h : Heap) : Status × Option Result × Heap :=
  if !out ∨ !ctx then (.invalidArgument, none, h)
  else if !owner then (.wrongThread, none, h)
  else match allocate grants 0 h with
    | (none, h) => (.outOfMemory, none, h)
    | (some _, h) => match allocate grants 0 h with
      | (none, h) => (.outOfMemory, none, h)
      | (some _, h) => (.ok, some {}, h)

/-- `ts_host_result_reset_checked`. -/
def resetChecked (owner : Bool) (s : ResultState) : Status × ResultState :=
  if !owner then (.wrongThread, s) else (.ok, s.clear)

/-- The copy at the end of `ts_host_result_store_view`, into a local variable. -/
def storeCopy (limits : Limits) (value : Nat) (s : ResultState) : Option (Status × ResultState) :=
  let copy := s.heap.top
  (copyView grants (limits.maxDepth.toNat + 1) value copy (s.heap.reserve viewSize)).map fun r =>
    if r.1 ≠ .ok then (r.1, { s with heap := r.2 }.clear)
    else (.ok, { heap := r.2, result := { s.result with value := r.2.mem.view copy, hasValue := true } })

/-- `ts_host_result_store_view`. -/
def storeView (owner : Bool) (value : Nat) (limits : Option Limits) (s : ResultState) :
    Option (Status × ResultState) :=
  if !owner then some (.wrongThread, s)
  else (validateValueView lib s.heap.mem value limits).bind fun status =>
    match status, limits with
    | .ok, some limits => storeCopy grants limits value s.clear
    | _, _ => some (status, s.clear)

/-- `ts_host_result_store_exprtk`; `none` is a NULL argument. -/
def storeExprtk (owner : Bool) (value : Option ExprValue) (limits : Option Limits)
    (s : ResultState) : Option (Status × ResultState) :=
  match value, limits with
  | some value, some limits =>
    if !owner then some (.wrongThread, s)
    else match allocate grants 0 s.heap with
      | (none, h) => some (.outOfMemory, { s with heap := h }.clear)
      | (some _, h) =>
        let view := h.top
        (exprtkToView lib limits grants value view 1 { heap := h.reserve viewSize }).bind fun r =>
          let s := { s with heap := r.2.heap }.clear
          if r.1 ≠ .ok then some (r.1, s)
          else (storeView lib grants owner view (some limits) s).map fun stored =>
            (stored.1, if stored.1 ≠ .ok then stored.2.clear else stored.2)
  | _, _ => some (.invalidArgument, s)

/-- `ts_host_validate_error_info`. The statuses from `INVALID_ARGUMENT` to `INTERRUPTED` and the
    phases up to `INTERRUPT` are numbered. -/
def validateErrorInfo (mem : Memory) (error : Option ErrorInfo) (maxBytes : UInt64) : Status :=
  match error with
  | none => .invalidArgument
  | some error =>
    if error.structSize < errorInfoSize ∨ maxBytes = 0 ∨ error.status < 1 ∨ 17 < error.status ∨
        6 < error.phase ∨ error.reserved.any (· ≠ 0) then .invalidArgument
    else
      let validate text (state : State Unit) :=
        some (validateString lib mem ⟨1, 1, maxBytes⟩ text false false state)
      let texts := [error.moduleName, error.functionName, error.message]
      ((eachOf .ok validate texts { active := () }).map Prod.fst).getD .ok

/-- `ts_host_result_set_error`. -/
def setError (owner : Bool) (error : Option ErrorInfo) (maxBytes : UInt64) (s : ResultState) :
    Status × ResultState :=
  if !owner then (.wrongThread, s)
  else match validateErrorInfo lib s.heap.mem error maxBytes, error with
    | .ok, some error =>
      let name := copyString grants error.moduleName s.heap
      let function := copyString grants error.functionName name.2
      let message := copyString grants error.message function.2
      match name.1, function.1, message.1 with
      | some n, some f, some m => (.ok, { heap := message.2, result := { s.clear.result with
          error := { error with
            moduleName.data := n, functionName.data := f, message.data := m }, hasError := true } })
      | _, _, _ => (.outOfMemory, { s with heap := message.2 }.clear)
    | status, _ => (status, s.clear)

/-- `turbo_script_result_get_value`; `out` says whether there is a place for the value. -/
def getValue (owner out : Bool) (r : Result) : Status × Option ValueView :=
  if !owner then (.wrongThread, none)
  else if !out then (.invalidArgument, none)
  else if !r.hasValue then (.invalidState, none)
  else (.ok, some r.value)

/-- `turbo_script_result_get_error`. -/
def getError (owner out : Bool) (r : Result) : Status × Option ErrorInfo :=
  if !owner then (.wrongThread, none)
  else if !out then (.invalidArgument, none)
  else if !r.hasError then (.invalidState, none)
  else (.ok, some r.error)

end Operations
end TurboScript.Host.Values
