import Mathlib.Data.List.Basic
import TurboScript.Lib.FlatCode

/- The lowering of statements to MIR (`ts_compile_stmt`, `ts_compile_expr` and the
   emission helpers they call).

   1. MIR instructions over any number type. A register is a variable's own or a temporary.
   2. The source syntax. `Expr.value` is a node that is handed to `ts_mir_value_expr` by
      address; `names` are the variables the pre-scan finds in it. A constant that
      `ts_try_fold_constant` folds is a `num`.
   3. The managed-slot analysis with the texts of its errors. A failed lowering is
      `Except.error`: the source sets `failed`, and the module is then thrown away.
   4. The lowering, construct by construct, and the module around it. An expression is lowered
      as a value and as two conditional branches; most compare their value with zero
      (`Lowering.ofValue`). -/
namespace TurboScript.Mir
open Lib

abbrev Name := String
abbrev Label := Nat
abbrev Slot := Nat

abbrev NodeId := Nat

inductive Reg
  | var (x : Name)
  | tmp (n : Nat)
  deriving DecidableEq, Repr

inductive ArithOp
  | add | sub | mul | div | mod | pow
  deriving DecidableEq, Repr

inductive CmpOp
  | lt | gt | le | ge | eq | ne
  deriving DecidableEq, Repr

/-- The branch taken when the comparison is false. -/
def CmpOp.negate : CmpOp → CmpOp
  | .lt => .ge
  | .gt => .le
  | .le => .gt
  | .ge => .lt
  | .eq => .ne
  | .ne => .eq

inductive Operand (D : Type)
  | reg (r : Reg)
  | imm (d : D)
  deriving DecidableEq, Repr

/-- `mod` and `pow` are calls of `fmod` and `pow`; `throwPoint` is no instruction but marks
    the point after a lowered `throw`. -/
inductive Insn (D : Type)
  | label (l : Label)
  | jmp (l : Label)
  | branch (op : CmpOp) (l : Label) (a b : Operand D)
  | mov (dst : Reg) (src : Operand D)
  | arith (op : ArithOp) (dst : Reg) (a b : Operand D)
  | cmp (op : CmpOp) (dst : Reg) (a b : Operand D)
  | i2d (dst src : Reg)
  | loadVar (dst : Reg) (x : Name)
  | storeVar (x : Name) (src : Reg)
  | valueExpr (dst : Reg) (node : NodeId) (slot : Slot)
  | slotDestroy (slot : Slot)
  | valueExprAssign (dst : Reg) (target : Name) (node : NodeId)
  | call (dst : Reg) (node : NodeId) (args : List Reg)
  | alloca (slot : Slot)
  | throwPoint
  | ret (r : Reg)
  deriving DecidableEq, Repr

def Insn.defines {D : Type} : Insn D → Option Nat
  | .label l => some l
  | _ => none

mutual
inductive Expr (D : Type)
  | num (d : D)
  | var (x : Name)
  | neg (e : Expr D)
  | not (e : Expr D)
  | plus (e : Expr D)
  | arith (op : ArithOp) (l r : Expr D)
  | cmp (op : CmpOp) (l r : Expr D)
  | and (l r : Expr D)
  | or (l r : Expr D)
  | ite (c t e : Expr D)
  | iteNoElse (c t : Expr D)
  | assign (x : Name) (e : Expr D)
  | value (node : NodeId) (names : List Name)
  | valueAssign (x : Name) (node : NodeId) (names : List Name)
  | throw (node : NodeId) (names : List Name)
  | call (node : NodeId) (sync reload : Bool) (args : Args D)
  | unsupported (msg : String)

inductive Args (D : Type)
  | nil
  | cons (e : Expr D) (rest : Args D)
end

mutual
inductive Stmt (D : Type)
  | skip
  | seq (s t : Stmt D)
  | expr (e : Expr D)
  | classDef (node : NodeId)
  | funcDef (node : NodeId)
  | ifThen (c : Expr D) (t : Stmt D)
  | ifElse (c : Expr D) (t e : Stmt D)
  | while (c : Expr D) (body : Stmt D)
  | for (init : Stmt D) (c : Option (Expr D)) (post body : Stmt D)
  | doWhile (body : Stmt D) (c : Expr D)
  | brk
  | cont
  | ret (e : Option (Expr D))
  | forIn (x : Name) (node : NodeId) (names : List Name)
  | switch (e : Expr D) (cases : Cases D)

inductive Cases (D : Type)
  | default (d : Stmt D)
  | case (v : Expr D) (body : Stmt D) (rest : Cases D)
end

/-! The compiler state. -/

structure Var where
  name : Name
  dirty : Bool := false
  dynamic : Bool := false
  bound : Bool := false
  deriving DecidableEq, Repr

inductive SlotState
  | zero | live | moved | cleaned
  deriving DecidableEq, Repr

structure LoopFrame where
  breakLabel : Label
  continueLabel : Label
  firstSlot : Nat
  entryState : List SlotState
  breakEdges : List (List SlotState) := []
  continueEdges : List (List SlotState) := []
  deriving DecidableEq, Repr

/-- `ctxReg` is whether the function has a context register: a compiled script function
    does not store variables on return. -/
structure Compiler where
  tmpCount : Nat := 0
  labelCount : Nat := 0
  vars : List Var := []
  slots : List SlotState := []
  loopStack : List LoopFrame := []
  ctxReg : Bool := true
  deriving DecidableEq, Repr

def maxLoopDepth : Nat := 32

namespace Compiler

def newTemp (c : Compiler) : Compiler × Reg := ({ c with tmpCount := c.tmpCount + 1 }, .tmp c.tmpCount)

def newLabel (c : Compiler) : Compiler × Label :=
  ({ c with labelCount := c.labelCount + 1 }, c.labelCount)

/-- The register of a variable is its name; a new variable gets a clean entry. -/
def getOrCreateReg (c : Compiler) (x : Name) : Compiler :=
  if c.vars.any (fun v => v.name == x) then c else { c with vars := c.vars ++ [{ name := x }] }

def updateVar (c : Compiler) (x : Name) (f : Var → Var) : Compiler :=
  { c with vars := c.vars.map (fun v => if v.name = x then f v else v) }

def markVarDirty (c : Compiler) (x : Name) : Compiler := c.updateVar x (fun v => { v with dirty := true })
def markVarClean (c : Compiler) (x : Name) : Compiler := c.updateVar x (fun v => { v with dirty := false })
def markVarDynamic (c : Compiler) (x : Name) : Compiler := c.updateVar x (fun v => { v with dynamic := true })
def markVarNumeric (c : Compiler) (x : Name) : Compiler := c.updateVar x (fun v => { v with dynamic := false })

def varIsDynamic (c : Compiler) (x : Name) : Bool := c.vars.any (fun v => v.name == x && v.dynamic)

def dirtyVars (c : Compiler) : List Name :=
  (c.vars.filter (fun v => !v.dynamic && v.dirty)).map Var.name

def stores {D : Type} (xs : List Name) : List (Insn D) := xs.map (fun x => .storeVar x (.var x))
def loads {D : Type} (xs : List Name) : List (Insn D) := xs.map (fun x => .loadVar (.var x) x)

/-- `ts_emit_sync_to_env`: store each dirty variable and clear its flag. -/
def syncToEnv {D : Type} (c : Compiler) : Compiler × List (Insn D) :=
  ({ c with vars := c.vars.map (fun v => if v.dynamic then v else { v with dirty := false }) },
    stores c.dirtyVars)

/-- `ts_emit_reload_from_env`: load every numeric variable; no variable is dirty after it. -/
def reloadFromEnv {D : Type} (c : Compiler) : Compiler × List (Insn D) :=
  ({ c with vars := c.vars.map (fun v => { v with dirty := false }) },
    loads ((c.vars.filter (fun v => !v.dynamic && !v.bound)).map Var.name))

/-! The managed-slot analysis. -/

def newManagedSlot (c : Compiler) : Compiler × Slot :=
  ({ c with slots := c.slots ++ [.zero] }, c.slots.length)

def setSlot (c : Compiler) (s : Slot) (st : SlotState) : Compiler :=
  { c with slots := c.slots.set s st }

def managedSlotPublish (c : Compiler) (s : Slot) : Except String Compiler :=
  match c.slots[s]? with
  | none => .error "JIT compile error: unknown managed value slot"
  | some .zero => .ok (c.setSlot s .live)
  | some _ => .error "JIT compile error: managed value slot published while not zero"

def managedSlotRequireReadable (c : Compiler) (s : Slot) : Except String Unit :=
  match c.slots[s]? with
  | none => .error "JIT compile error: unknown managed value slot"
  | some .moved => .error "JIT compile error: managed value slot used after move"
  | some .live => .ok ()
  | some _ => .error "JIT compile error: managed value slot read while not live"

def managedSlotMove (c : Compiler) (s : Slot) : Except String Compiler :=
  match c.slots[s]? with
  | none => .error "JIT compile error: unknown managed value slot"
  | some .live => .ok (c.setSlot s .moved)
  | some _ => .error "JIT compile error: managed value slot moved while not live"

def managedSlotCleanup (c : Compiler) (s : Slot) : Except String Compiler :=
  match c.slots[s]? with
  | none => .error "JIT compile error: unknown managed value slot"
  | some .cleaned => .error "JIT compile error: managed value slot cleaned twice"
  | some .moved => .error "JIT compile error: managed value slot cleanup after move"
  | some .live => .ok (c.setSlot s .cleaned)
  | some .zero => .error "JIT compile error: managed value slot cleaned while not live"

def snapshotCapture (c : Compiler) (count : Nat) : Except String (List SlotState) :=
  if c.slots.length < count then .error "MIR lowering error: invalid managed slot state snapshot"
  else .ok (c.slots.take count)

def snapshotRestore (c : Compiler) (snap : List SlotState) : Except String Compiler :=
  if c.slots.length < snap.length then .error "MIR lowering error: invalid managed slot state restore"
  else .ok { c with slots := snap ++ c.slots.drop snap.length }

def snapshotJoin (left right : List SlotState) : Except String Unit :=
  if left.length ≠ right.length then
    .error "MIR lowering error: incompatible managed slot branch snapshots"
  else if left = right then .ok ()
  else .error "MIR lowering error: managed value slot ownership state mismatch at branch join"

def snapshotLoopJoin (entry backedge : List SlotState) : Except String Unit :=
  if entry.length ≠ backedge.length then
    .error "MIR lowering error: incompatible managed slot loop snapshots"
  else if entry = backedge then .ok ()
  else .error "MIR lowering error: managed value slot ownership state mismatch at loop backedge"

def snapshotEdgeJoin (expected edge : List SlotState) (edgeName : String) : Except String Unit :=
  if expected.length ≠ edge.length then
    .error ("MIR lowering error: incompatible managed slot " ++ edgeName ++ " snapshot")
  else if expected = edge then .ok ()
  else .error ("MIR lowering error: managed value slot ownership state mismatch at " ++ edgeName)

def requireTerminalSince (c : Compiler) (first : Nat) : Except String Unit :=
  if c.slots.length < first then .error "MIR lowering error: invalid managed slot branch range"
  else if .live ∈ c.slots.drop first then
    .error "MIR lowering error: managed value slot leaves branch with live cleanup obligation"
  else .ok ()

def requireTerminalAtExit (c : Compiler) (exitName : String) : Except String Unit :=
  if .live ∈ c.slots then
    .error ("MIR lowering error: managed value slot reaches " ++ exitName ++
      " with live cleanup obligation")
  else .ok ()

def requireTerminalAtReturn (c : Compiler) : Except String Unit := c.requireTerminalAtExit "return"
def requireTerminalAtThrow (c : Compiler) : Except String Unit := c.requireTerminalAtExit "throw"

def pushLoopFrame (c : Compiler) (breakLabel continueLabel : Label) (firstSlot : Nat)
    (entryState : List SlotState) : Except String Compiler :=
  if maxLoopDepth ≤ c.loopStack.length then
    .error "MIR lowering error: maximum loop nesting depth exceeded"
  else .ok { c with loopStack := { breakLabel, continueLabel, firstSlot, entryState } :: c.loopStack }

def popLoopFrame (c : Compiler) : Compiler := { c with loopStack := c.loopStack.tail }

/-- `ts_mir_managed_slot_record_loop_edge` on the innermost frame. -/
def recordLoopEdge (c : Compiler) (isContinue : Bool) : Except String Compiler :=
  match c.loopStack with
  | [] => .error "MIR lowering error: invalid managed slot loop control edge"
  | frame :: outer => do
    if frame.firstSlot ≠ frame.entryState.length then
      .error "MIR lowering error: missing managed slot loop-entry snapshot"
    c.requireTerminalSince frame.firstSlot
    let edge ← c.snapshotCapture frame.firstSlot
    let frame' :=
      if isContinue then { frame with continueEdges := frame.continueEdges ++ [edge] }
      else { frame with breakEdges := frame.breakEdges ++ [edge] }
    .ok { c with loopStack := frame' :: outer }

def joinEdges (expected : List SlotState) (edgeName : String) : List (List SlotState) → Except String Unit
  | [] => .ok ()
  | edge :: rest => do
    snapshotEdgeJoin expected edge edgeName
    joinEdges expected edgeName rest

def validateLoopEdges (c : Compiler) (entry continueExpected : List SlotState) : Except String Unit :=
  match c.loopStack with
  | [] => .error "MIR lowering error: invalid managed slot loop-edge join"
  | frame :: _ => do
    if frame.firstSlot ≠ entry.length ∨ frame.entryState.length ≠ entry.length ∨
        continueExpected.length ≠ entry.length then
      .error "MIR lowering error: invalid managed slot loop-edge join"
    joinEdges entry "loop exit" frame.breakEdges
    joinEdges continueExpected "continue target" frame.continueEdges

def validateLoopBackedge (c : Compiler) (first : Nat) (entry : List SlotState) :
    Except String Unit := do
  c.requireTerminalSince first
  let backedge ← c.snapshotCapture entry.length
  snapshotLoopJoin entry backedge

end Compiler

theorem bind_ok {ε α β : Type} {x : Except ε α} {f : α → Except ε β} {b : β} :
    (x >>= f) = .ok b ↔ ∃ a, x = .ok a ∧ f a = .ok b := by
  cases x with
  | error e => constructor <;> intro h <;> simp [bind, Except.bind] at h ⊢
  | ok a => simp [bind, Except.bind]

theorem ok_bind {α β : Type} {x : Except String α} {f : α → Except String β}
    (hx : ∃ a, x = .ok a) (hf : ∀ a, ∃ b, f a = .ok b) : ∃ b, (x >>= f) = .ok b := by
  obtain ⟨a, ha⟩ := hx
  obtain ⟨b, hb⟩ := hf a
  exact ⟨b, bind_ok.2 ⟨a, ha, hb⟩⟩

/-! The lowering of expressions. -/

section Lower

variable {D : Type} [Zero D] [One D]

open Compiler

/-- `ts_emit_value_expr`: write back, let the helper publish its value in a new slot, clean
    the slot, reload. -/
def emitValueExpr (node : NodeId) (c : Compiler) : Except String (Compiler × List (Insn D) × Reg) := do
  let (c, res) := c.newTemp
  let (c, slot) := c.newManagedSlot
  let (c, sync) := c.syncToEnv
  let c ← c.managedSlotPublish slot
  c.managedSlotRequireReadable slot
  let c ← c.managedSlotCleanup slot
  let (c, reload) := c.reloadFromEnv
  .ok (c, sync ++ .valueExpr res node slot :: .slotDestroy slot :: reload, res)

/-- `ts_emit_value_expr_assign`: the helper binds the target in the environment, which is
    dynamic from then on. -/
def emitValueExprAssign (x : Name) (node : NodeId) (c : Compiler) :
    Except String (Compiler × List (Insn D) × Reg) :=
  let (c, res) := c.newTemp
  let c := c.getOrCreateReg x
  let (c, sync) := c.syncToEnv
  .ok ((c.markVarClean x).markVarDynamic x,
    sync ++ [.valueExprAssign res x node, .mov (.var x) (.reg res)], .var x)

/-- A call of any other runtime helper, with the write-back and the reload it asks for. -/
def emitCall (node : NodeId) (sync reload : Bool) (args : List Reg) (c : Compiler) :
    Compiler × List (Insn D) × Reg :=
  let (c, res) := c.newTemp
  let (c, stores) := if sync then c.syncToEnv else (c, [])
  let (c, loads) := if reload then c.reloadFromEnv else (c, [])
  (c, stores ++ .call res node args :: loads, res)

structure Lowering (D : Type) where
  value : Compiler → Except String (Compiler × List (Insn D) × Reg)
  branchFalse : Label → Compiler → Except String (Compiler × List (Insn D))
  branchTrue : Label → Compiler → Except String (Compiler × List (Insn D))

/-- The generic condition: compute the value and compare it with zero. -/
def branchOn (value : Compiler → Except String (Compiler × List (Insn D) × Reg)) (op : CmpOp)
    (l : Label) (c : Compiler) : Except String (Compiler × List (Insn D)) := do
  let (c, is, r) ← value c
  .ok (c, is ++ [.branch op l (.reg r) (.imm 0)])

def Lowering.ofValue (value : Compiler → Except String (Compiler × List (Insn D) × Reg)) : Lowering D where
  value := value
  branchFalse := branchOn value .eq
  branchTrue := branchOn value .ne

def lowerPair (L R : Lowering D) (c : Compiler) : Except String (Compiler × List (Insn D) × Reg × Reg) := do
  let (c, is, l) ← L.value c
  let (c, js, r) ← R.value c
  .ok (c, is ++ js, l, r)

def lowerVar (x : Name) (c : Compiler) : Except String (Compiler × List (Insn D) × Reg) :=
  if c.varIsDynamic x then
    let (c, r) := c.newTemp
    .ok (c, [.loadVar r x], r)
  else .ok (c.getOrCreateReg x, [], .var x)

def lowerNeg (E : Lowering D) (c : Compiler) : Except String (Compiler × List (Insn D) × Reg) := do
  let (c, is, r) ← E.value c
  let (c, res) := c.newTemp
  .ok (c, is ++ [.arith .sub res (.imm 0) (.reg r)], res)

def lowerNot (E : Lowering D) (c : Compiler) : Except String (Compiler × List (Insn D) × Reg) := do
  let (c, is, r) ← E.value c
  let (c, res) := c.newTemp
  let (c, ireg) := c.newTemp
  .ok (c, is ++ [.cmp .eq ireg (.reg r) (.imm 0), .i2d res ireg], res)

def lowerArith (op : ArithOp) (L R : Lowering D) (c : Compiler) :
    Except String (Compiler × List (Insn D) × Reg) := do
  let (c, is, l, r) ← lowerPair L R c
  let (c, res) := c.newTemp
  .ok (c, is ++ [.arith op res (.reg l) (.reg r)], res)

def lowerCmp (op : CmpOp) (L R : Lowering D) (c : Compiler) :
    Except String (Compiler × List (Insn D) × Reg) := do
  let (c, is, l, r) ← lowerPair L R c
  let (c, ireg) := c.newTemp
  let (c, res) := c.newTemp
  .ok (c, is ++ [.cmp op ireg (.reg l) (.reg r), .i2d res ireg], res)

/-- A comparison as a condition is one branch instruction. -/
def branchCmp (op : CmpOp) (L R : Lowering D) (l : Label) (c : Compiler) :
    Except String (Compiler × List (Insn D)) := do
  let (c, is, a, b) ← lowerPair L R c
  .ok (c, is ++ [.branch op l (.reg a) (.reg b)])

/-- `and` and `or` as values: `skip` is the branch that decides on the left operand alone,
    `decided` the result it then has. -/
def lowerShortCircuit (skip : CmpOp) (decided : D) (L R : Lowering D) (c : Compiler) :
    Except String (Compiler × List (Insn D) × Reg) := do
  let (c, is, l) ← L.value c
  let (c, res) := c.newTemp
  let (c, skipLabel) := c.newLabel
  let (c, endLabel) := c.newLabel
  let (c, js, r) ← R.value c
  let (c, ireg) := c.newTemp
  .ok (c, is ++ .branch skip skipLabel (.reg l) (.imm 0) :: (js ++
    [.cmp .ne ireg (.reg r) (.imm 0), .i2d res ireg, .jmp endLabel,
      .label skipLabel, .mov res (.imm decided), .label endLabel]), res)

def branchFalseAnd (L R : Lowering D) (l : Label) (c : Compiler) :
    Except String (Compiler × List (Insn D)) := do
  let (c, is) ← L.branchFalse l c
  let (c, js) ← R.branchFalse l c
  .ok (c, is ++ js)

def branchFalseOr (L R : Lowering D) (l : Label) (c : Compiler) :
    Except String (Compiler × List (Insn D)) := do
  let (c, trueLabel) := c.newLabel
  let (c, is) ← L.branchTrue trueLabel c
  let (c, js) ← R.branchFalse l c
  .ok (c, is ++ js ++ [.label trueLabel])

/-- The else branch of an `if` expression; a missing one gives zero. -/
def lowerElse (res : Reg) : Option (Lowering D) → Compiler → Except String (Compiler × List (Insn D))
  | some E, c => do
    let (c, is, e) ← E.value c
    .ok (c, is ++ [.mov res (.reg e)])
  | none, c => .ok (c, [.mov res (.imm 0)])

/-- `ts_emit_if_expression`. -/
def lowerIte (C T : Lowering D) (E : Option (Lowering D)) (c : Compiler) :
    Except String (Compiler × List (Insn D) × Reg) := do
  let (c, res) := c.newTemp
  let (c, elseLabel) := c.newLabel
  let (c, endLabel) := c.newLabel
  let (c, is) ← C.branchFalse elseLabel c
  let (c, js, t) ← T.value c
  let (c, ks) ← lowerElse res E c
  .ok (c, is ++ js ++ .mov res (.reg t) :: .jmp endLabel :: .label elseLabel :: (ks ++
    [.label endLabel]), res)

/-- A numeric assignment writes the variable's register and sets its flag. -/
def lowerAssign (x : Name) (E : Lowering D) (c : Compiler) :
    Except String (Compiler × List (Insn D) × Reg) := do
  let (c, is, r) ← E.value c
  let c := c.getOrCreateReg x
  .ok ((c.markVarDirty x).markVarNumeric x, is ++ [.mov (.var x) (.reg r)], .var x)

def lowerThrow (node : NodeId) (c : Compiler) : Except String (Compiler × List (Insn D) × Reg) := do
  let (c, is, r) ← emitValueExpr node c
  c.requireTerminalAtThrow
  .ok (c, is ++ [.throwPoint], r)

def lowerCall (node : NodeId) (sync reload : Bool)
    (args : Compiler → Except String (Compiler × List (Insn D) × List Reg)) (c : Compiler) :
    Except String (Compiler × List (Insn D) × Reg) := do
  let (c, is, rs) ← args c
  let (c, js, r) := emitCall node sync reload rs c
  .ok (c, is ++ js, r)

mutual
/-- `ts_compile_expr`, `ts_compile_branch_false` and `ts_compile_branch_true` of one node. -/
def lowering : Expr D → Lowering D
  | .num d => .ofValue (fun c =>
      let (c, r) := c.newTemp
      .ok (c, [.mov r (.imm d)], r))
  | .var x => .ofValue (lowerVar x)
  | .neg e => .ofValue (lowerNeg (lowering e))
  | .not e =>
    { Lowering.ofValue (lowerNot (lowering e)) with branchFalse := branchOn (lowering e).value .ne }
  | .plus e => .ofValue (lowering e).value
  | .arith op l r => .ofValue (lowerArith op (lowering l) (lowering r))
  | .cmp op l r =>
    { value := lowerCmp op (lowering l) (lowering r)
      branchFalse := branchCmp op.negate (lowering l) (lowering r)
      branchTrue := branchCmp op (lowering l) (lowering r) }
  | .and l r =>
    { Lowering.ofValue (lowerShortCircuit .eq 0 (lowering l) (lowering r)) with
      branchFalse := branchFalseAnd (lowering l) (lowering r) }
  | .or l r =>
    { Lowering.ofValue (lowerShortCircuit .ne 1 (lowering l) (lowering r)) with
      branchFalse := branchFalseOr (lowering l) (lowering r) }
  | .ite c t e => .ofValue (lowerIte (lowering c) (lowering t) (some (lowering e)))
  | .iteNoElse c t => .ofValue (lowerIte (lowering c) (lowering t) none)
  | .assign x e => .ofValue (lowerAssign x (lowering e))
  | .value node _ => .ofValue (emitValueExpr node)
  | .valueAssign x node _ => .ofValue (emitValueExprAssign x node)
  | .throw node _ => .ofValue (lowerThrow node)
  | .call node sync reload args => .ofValue (lowerCall node sync reload (lowerArgs args))
  | .unsupported msg => .ofValue (fun _ => .error msg)

def lowerArgs : Args D → Compiler → Except String (Compiler × List (Insn D) × List Reg)
  | .nil, c => .ok (c, [], [])
  | .cons e rest, c => do
    let (c, is, r) ← (lowering e).value c
    let (c, js, rs) ← lowerArgs rest c
    .ok (c, is ++ js, r :: rs)
end

attribute [grind =] lowering lowerArgs

def compileExpr (e : Expr D) : Compiler → Except String (Compiler × List (Insn D) × Reg) :=
  (lowering e).value

def compileBranchFalse (e : Expr D) : Label → Compiler → Except String (Compiler × List (Insn D)) :=
  (lowering e).branchFalse

def compileBranchTrue (e : Expr D) : Label → Compiler → Except String (Compiler × List (Insn D)) :=
  (lowering e).branchTrue

/-! The lowering of statements. -/

/-- The value of `return`, zero when it has none. -/
def compileReturnValue : Option (Expr D) → Compiler → Except String (Compiler × List (Insn D) × Reg)
  | some e, c => compileExpr e c
  | none, c =>
    let (c, r) := c.newTemp
    .ok (c, [.mov r (.imm 0)], r)

/-- A `for` without a condition tests nothing. -/
def compileForCond : Option (Expr D) → Label → Compiler → Except String (Compiler × List (Insn D))
  | some e, l, c => compileBranchFalse e l c
  | none, _, c => .ok (c, [])

/-- A `for` after its initializer; `continue` goes to the post statement. -/
def emitForLoop (cond : Label → Compiler → Except String (Compiler × List (Insn D)))
    (body post : Compiler → Except String (Compiler × List (Insn D))) (c : Compiler) :
    Except String (Compiler × List (Insn D)) := do
  let (c, loopLabel) := c.newLabel
  let (c, continueLabel) := c.newLabel
  let (c, endLabel) := c.newLabel
  let first := c.slots.length
  let entry ← c.snapshotCapture first
  let c ← c.pushLoopFrame endLabel continueLabel first entry
  let (c, is) ← cond endLabel c
  let (c, js) ← body c
  let bodyState ← c.snapshotCapture first
  let (c, ks) ← post c
  c.validateLoopEdges entry bodyState
  c.validateLoopBackedge first entry
  .ok (c.popLoopFrame, .label loopLabel :: (is ++ js ++ .label continueLabel :: (ks ++
    [.jmp loopLabel, .label endLabel])))

mutual
def compileStmt : Stmt D → Compiler → Except String (Compiler × List (Insn D))
  | .skip, c => .ok (c, [])
  | .seq s t, c => do
    let (c, is) ← compileStmt s c
    let (c, js) ← compileStmt t c
    .ok (c, is ++ js)
  | .expr e, c => do
    let (c, is, _) ← compileExpr e c
    .ok (c, is)
  | .classDef node, c =>
    let (c, is, _) := emitCall node true false [] c
    .ok (c, is)
  | .funcDef node, c =>
    let (c, is, _) := emitCall node false false [] c
    .ok (c, is)
  | .ifThen cond t, c => do
    let (c, endLabel) := c.newLabel
    let (c, is) ← compileBranchFalse cond endLabel c
    let first := c.slots.length
    let baseline ← c.snapshotCapture first
    let (c, js) ← compileStmt t c
    c.requireTerminalSince first
    let thenState ← c.snapshotCapture baseline.length
    -- an omitted else keeps the incoming state
    snapshotJoin thenState baseline
    .ok (c, is ++ js ++ [.label endLabel])
  | .ifElse cond t e, c => do
    let (c, elseLabel) := c.newLabel
    let (c, endLabel) := c.newLabel
    let (c, is) ← compileBranchFalse cond elseLabel c
    let first := c.slots.length
    let baseline ← c.snapshotCapture first
    let (c, js) ← compileStmt t c
    c.requireTerminalSince first
    let thenState ← c.snapshotCapture baseline.length
    let c ← c.snapshotRestore baseline
    let (c, ks) ← compileStmt e c
    c.requireTerminalSince first
    let elseState ← c.snapshotCapture baseline.length
    snapshotJoin thenState elseState
    .ok (c, is ++ js ++ .jmp endLabel :: .label elseLabel :: (ks ++ [.label endLabel]))
  | .while cond body, c => do
    let (c, loopLabel) := c.newLabel
    let (c, endLabel) := c.newLabel
    let first := c.slots.length
    let entry ← c.snapshotCapture first
    let c ← c.pushLoopFrame endLabel loopLabel first entry
    let (c, is) ← compileBranchFalse cond endLabel c
    let (c, js) ← compileStmt body c
    c.validateLoopEdges entry entry
    c.validateLoopBackedge first entry
    .ok (c.popLoopFrame, .label loopLabel :: (is ++ js ++ [.jmp loopLabel, .label endLabel]))
  | .for init cond post body, c => do
    let (c, is) ← compileStmt init c
    let (c, js) ← emitForLoop (compileForCond cond) (compileStmt body) (compileStmt post) c
    .ok (c, is ++ js)
  | .doWhile body cond, c => do
    let (c, loopLabel) := c.newLabel
    let (c, continueLabel) := c.newLabel
    let (c, endLabel) := c.newLabel
    let first := c.slots.length
    let entry ← c.snapshotCapture first
    let c ← c.pushLoopFrame endLabel continueLabel first entry
    let (c, js) ← compileStmt body c
    let bodyState ← c.snapshotCapture first
    let (c, is) ← compileBranchTrue cond loopLabel c
    c.validateLoopEdges entry bodyState
    c.validateLoopBackedge first entry
    .ok (c.popLoopFrame, .label loopLabel :: (js ++ .label continueLabel :: (is ++ [.label endLabel])))
  | .brk, c =>
    match c.loopStack with
    -- outside a loop `break` and `continue` emit nothing
    | [] => .ok (c, [])
    | frame :: _ => do
      let c ← c.recordLoopEdge false
      .ok (c, [.jmp frame.breakLabel])
  | .cont, c =>
    match c.loopStack with
    | [] => .ok (c, [])
    | frame :: _ => do
      let c ← c.recordLoopEdge true
      .ok (c, [.jmp frame.continueLabel])
  | .ret e, c => do
    let (c, is, r) ← compileReturnValue e c
    c.requireTerminalAtReturn
    .ok (c, is ++ (if c.ctxReg then stores c.dirtyVars else []) ++ [.ret r])
  | .forIn x node _, c => do
    let (c, is, _) ← emitValueExpr node (c.getOrCreateReg x)
    .ok (c, is)
  | .switch e cases, c => do
    let (c, is, v) ← compileExpr e c
    let (c, endLabel) := c.newLabel
    let (c, js) ← compileCases cases v endLabel c
    .ok (c, is ++ js ++ [.label endLabel])

def compileCases : Cases D → Reg → Label → Compiler → Except String (Compiler × List (Insn D))
  | .default d, _, _, c => compileStmt d c
  | .case v body rest, val, endLabel, c => do
    let (c, nextCase) := c.newLabel
    let (c, is, cv) ← compileExpr v c
    let (c, js) ← compileStmt body c
    let (c, ks) ← compileCases rest val endLabel c
    .ok (c, is ++ .branch .ne nextCase (.reg val) (.reg cv) :: (js ++ .jmp endLabel ::
      .label nextCase :: ks))
end

attribute [grind =] compileStmt

/-! The module: the pre-scan registers every variable, the prologue loads them all, the
    epilogue stores the dirty ones. -/

mutual
def Expr.names : Expr D → List Name
  | .num _ => []
  | .var x => [x]
  | .neg e | .not e | .plus e => e.names
  | .arith _ l r | .cmp _ l r | .and l r | .or l r => l.names ++ r.names
  | .ite c t e => c.names ++ t.names ++ e.names
  | .iteNoElse c t => c.names ++ t.names
  | .assign x e => x :: e.names
  | .value _ names | .throw _ names => names
  | .valueAssign x _ names => x :: names
  | .call _ _ _ args => args.names
  | .unsupported _ => []

def Args.names : Args D → List Name
  | .nil => []
  | .cons e rest => e.names ++ rest.names
end

def optNames : Option (Expr D) → List Name
  | some e => e.names
  | none => []

mutual
def Stmt.names : Stmt D → List Name
  | .skip | .classDef _ | .funcDef _ | .brk | .cont => []
  | .seq s t => s.names ++ t.names
  | .expr e => e.names
  | .ifThen c t => c.names ++ t.names
  | .ifElse c t e => c.names ++ t.names ++ e.names
  | .while c body => c.names ++ body.names
  | .for init c post body => init.names ++ optNames c ++ post.names ++ body.names
  | .doWhile body c => body.names ++ c.names
  | .ret e => optNames e
  | .forIn x _ names => x :: names
  | .switch e cases => e.names ++ cases.scanned cases.count

def Cases.count : Cases D → Nat
  | .default _ => 0
  | .case _ _ rest => rest.count + 1

/-- The pre-scan visits the first `n` entries of the array of case values and bodies, and
    the default. -/
def Cases.scanned : Cases D → Nat → List Name
  | .default d, _ => d.names
  | .case v body rest, n =>
    (if 0 < n then v.names else []) ++ (if 1 < n then body.names else []) ++ rest.scanned (n - 2)
end

attribute [grind =] Expr.names Stmt.names

def prescanVariables (s : Stmt D) (c : Compiler) : Compiler := s.names.foldl getOrCreateReg c

def lowerModule (s : Stmt D) : Except String (List (Insn D)) := do
  let (c, body) ← compileStmt s (prescanVariables s {})
  let (c', r) := c.newTemp
  .ok ((List.range c'.slots.length).map .alloca ++
    loads ((c'.vars.filter (fun v => !v.dynamic)).map Var.name) ++ body ++
    stores c'.dirtyVars ++ [.mov r (.imm 0), .ret r])

end Lower

end TurboScript.Mir
