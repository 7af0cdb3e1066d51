import TurboScript.Exprtk.Eval
import TurboScript.Mir.Branch

/- Constant folding (`ts_try_fold_constant`) against the code of the same node without folding,
   over the rationals with what a division by zero gives.

   An equality with a comparison against null in an operand goes to the runtime, which evaluates
   it as the tree evaluator does. There is one rule for each lowering function about code that
   leaves a constant (`Constant`). A node and all its parts leave the folded numbers exactly when
   no divisor is zero and the runtime compares what it is given as the folder does. -/
namespace TurboScript.Mir.Fold
open Lib Fp Compiler Exprtk
open Exprtk (Node BinOp Value Ieee Ext PowFn powInt)
open List (mem_append_left mem_cons mem_cons_of_mem mem_singleton)

variable {D : Type} [Ieee D]

/-! The folder. -/

inductive OpKind
  | arith (op : ArithOp)
  | cmp (op : CmpOp)
  | and
  | or
  | other

def opKind : BinOp → OpKind
  | .plus => .arith .add
  | .minus => .arith .sub
  | .multiply => .arith .mul
  | .divide => .arith .div
  | .mod => .arith .mod
  | .power => .arith .pow
  | .lt => .cmp .lt
  | .gt => .cmp .gt
  | .le => .cmp .le
  | .ge => .cmp .ge
  | .eq => .cmp .eq
  | .ne => .cmp .ne
  | .and => .and
  | .or => .or
  | .not => .other

def isNull : Node D → Bool
  | .null => true
  | _ => false

def isLiteral : Node D → Bool
  | .null | .number _ | .integer _ | .string _ => true
  | _ => false

def isEquality (op : BinOp) : Bool := op == .eq || op == .ne

/-- `ts_binary_is_null_eq_compare`. -/
def isNullEqCompare (op : BinOp) (l r : Node D) : Bool := isEquality op && (isNull l || isNull r)

def foldUnary (op : BinOp) (r : D) : Option D :=
  match op with
  | .minus => some (Double.neg r)
  | .plus => some r
  | .not => some (truth (isZero r))
  | _ => none

def foldBinary (op : BinOp) (l r : D) : Option D :=
  match opKind op with
  | .arith op => some (foldArith op l r)
  | .cmp op => some (truth (evalCmp op l r))
  | .and => some (truth (!isZero l && !isZero r))
  | .or => some (truth (!isZero l || !isZero r))
  | .other => none

def foldNullCompare (op : BinOp) (l r : Node D) : Option D :=
  if isLiteral l && isLiteral r then
    some (truth (if op = .eq then isNull l && isNull r else !(isNull l && isNull r)))
  else none

def tryFoldConstant : Node D → Option D
  | .number x => some x
  | .integer i => some (Double.ofInt i)
  | .null => some 0
  | .binary op none r => do foldUnary op (← tryFoldConstant r)
  | .binary op (some l) r =>
    if isNullEqCompare op l r then foldNullCompare op l r
    else do foldBinary op (← tryFoldConstant l) (← tryFoldConstant r)
  | _ => none

def parts : Node D → List (Node D)
  | .binary op none r => .binary op none r :: parts r
  | .binary op (some l) r =>
    .binary op (some l) r :: if isNullEqCompare op l r then [] else parts l ++ parts r
  | node => [node]

/-! The lowering without it. -/

/-- `ts_expr_contains_value_call` on the nodes that fold. -/
def containsValueCall : Node D → Bool
  | .binary _ none r => containsValueCall r
  | .binary op (some l) r => isNullEqCompare op l r || containsValueCall l || containsValueCall r
  | _ => false

/-- `ts_is_non_numeric_node` on literals. -/
def isNonNumeric : Node D → Bool
  | .string _ => true
  | _ => false

/-- `ts_binary_eq_needs_value_eval`. -/
def needsValueEval (op : BinOp) (l r : Node D) : Bool :=
  isEquality op && (isNullEqCompare op l r || isNonNumeric l || isNonNumeric r ||
    containsValueCall l || containsValueCall r)

/-- What `ts_compile_expr` takes a constant node for when it does not fold it; `pointer` is the
node the runtime is given. -/
def unfolded (pointer : Node D → NodeId) : Node D → Expr D
  | .number x => .num x
  | .integer i => .num (Double.ofInt i)
  | .null => .num 0
  | .binary op none r =>
    match op with
    | .not => .not (unfolded pointer r)
    | .minus => .neg (unfolded pointer r)
    | _ => .plus (unfolded pointer r)
  | .binary op (some l) r =>
    if needsValueEval op l r then .value (pointer (.binary op (some l) r)) []
    else match opKind op with
      | .arith op => .arith op (unfolded pointer l) (unfolded pointer r)
      | .cmp op => .cmp op (unfolded pointer l) (unfolded pointer r)
      | .and => .and (unfolded pointer l) (unfolded pointer r)
      | .or => .or (unfolded pointer l) (unfolded pointer r)
      | .other => .arith .add (unfolded pointer l) (unfolded pointer r)
  -- no other node folds
  | _ => .unsupported ""

def runtimeNodes : Node D → List (Node D)
  | .binary _ none r => runtimeNodes r
  | .binary op (some l) r =>
    if needsValueEval op l r then [.binary op (some l) r] else runtimeNodes l ++ runtimeNodes r
  | _ => []

/-- `exprtk_eval` on a constant node, or the text it throws. -/
def constValue [Formats] : Node D → Except String (Value D)
  | .number x => .ok (.number x)
  | .integer i => .ok (.integer i)
  | .string s => .ok (.string s)
  | .null => .ok .null
  | .binary op none r => do evalBinary op zero (← constValue r)
  | .binary op (some l) r => do evalBinary op (← constValue l) (← constValue r)
  | _ => .error ""

attribute [grind =] tryFoldConstant containsValueCall unfolded runtimeNodes constValue


/-! Code that leaves a constant. -/

section Code
variable {h : Helper D}

/-- The function compiles in every state, and the code leaves `v` from every store. -/
structure Constant (h : Helper D) (f : ValueCode D) (v : D) : Prop where
  compiles : ∀ c, ∃ q, f c = .ok q
  gives : ∃ M : Meaning D, Yields h f M.after M.value ∧ ∀ vs σ, (M.value vs σ).2 = .val v

theorem Constant.leaves {f : ValueCode D} {v : D} (hf : Constant h f v) {c c' : Compiler}
    {is : List (Insn D)} {r : Reg} (hc : f c = .ok (c', is, r)) (σ : Store D) : Leaves h is r σ v := by
  obtain ⟨M, hM, hv⟩ := hf.gives
  have hl := (hM hc).leaves σ
  rw [hv] at hl
  exact hl

theorem Constant.unique {f : ValueCode D} {v w : D} (hf : Constant h f v) {c c' : Compiler}
    {is : List (Insn D)} {r : Reg} (hc : f c = .ok (c', is, r)) {σ : Store D}
    (hw : Leaves h is r σ w) : v = w := by
  obtain ⟨M, hM, -⟩ := hf.gives
  have hnd : (Lib.labels Insn.defines is).Nodup := (hM hc).labels.nodup
  have hs : (is ++ []) <:+ is := by simp
  let regs : Reg → D := fun q => Reg.rec σ.vars (fun _ => 0) q
  obtain ⟨r₁, e₁, hr₁, hv₁⟩ := hf.leaves hc σ is [] regs σ.env hnd hs rfl
  obtain ⟨r₂, e₂, hr₂, hv₂⟩ := hw is [] regs σ.env hnd hs rfl
  obtain ⟨n₁, hn₁⟩ := hr₁.runSteps rfl
  obtain ⟨n₂, hn₂⟩ := hr₂.runSteps rfl
  have hend := (hn₁ (n₁ + n₂) (by omega)).symm.trans (hn₂ (n₁ + n₂) (by omega))
  have hregs : r₁ = r₂ := congrArg Conf.regs hend
  rw [← hv₁, ← hv₂, hregs]

theorem constant_num (d : D) : Constant h (lowerNum d) d where
  compiles _ := ⟨_, rfl⟩
  gives := ⟨.ofValue id (valueNum d), num_yields d, fun _ _ => rfl⟩

section One
variable {L : Lowering D} {a : D} (hL : Constant h L.value a)
include hL

theorem constant_neg : Constant h (lowerNeg L) (Double.sub 0 a) where
  compiles c := ok_bind (hL.compiles c) fun _ => ⟨_, rfl⟩
  gives := by
    obtain ⟨M, hM, hv⟩ := hL.gives
    refine ⟨.ofValue M.after (valueMap (fun x => Double.sub 0 x) M), neg_yields hM, ?_⟩
    intro vs σ
    simp only [Meaning.ofValue, valueMap, hv]
    rfl

theorem constant_not : Constant h (lowerNot L) (truth (isZero a)) where
  compiles c := ok_bind (hL.compiles c) fun _ => ⟨_, rfl⟩
  gives := by
    obtain ⟨M, hM, hv⟩ := hL.gives
    refine ⟨.ofValue M.after (valueMap (fun x => truth (isZero x)) M), not_yields hM, ?_⟩
    intro vs σ
    simp only [Meaning.ofValue, valueMap, hv]
    rfl

end One

section Two
variable {L R : Lowering D} {a b : D} (hL : Constant h L.value a) (hR : Constant h R.value b)
include hL hR

theorem pair_compiles (c : Compiler) : ∃ q, lowerPair L R c = .ok q :=
  ok_bind (hL.compiles c) fun _ => ok_bind (hR.compiles _) fun _ => ⟨_, rfl⟩

theorem constant_arith (op : ArithOp) : Constant h (lowerArith op L R) (evalArith op a b) where
  compiles c := ok_bind (pair_compiles hL hR c) fun _ => ⟨_, rfl⟩
  gives := by
    obtain ⟨M, hM, hv⟩ := hL.gives
    obtain ⟨N, hN, hw⟩ := hR.gives
    refine ⟨.ofValue (fun vs => N.after (M.after vs)) (valueBinary (evalArith op) M N),
      arith_yields hM hN op, ?_⟩
    intro vs σ
    simp only [Meaning.ofValue, valueBinary, Fp.operands, hv, hw]
    rfl

theorem constant_cmp (op : CmpOp) : Constant h (lowerCmp op L R) (truth (evalCmp op a b)) where
  compiles c := ok_bind (pair_compiles hL hR c) fun _ => ⟨_, rfl⟩
  gives := by
    obtain ⟨M, hM, hv⟩ := hL.gives
    obtain ⟨N, hN, hw⟩ := hR.gives
    refine ⟨.ofValue (fun vs => N.after (M.after vs))
      (valueBinary (fun a b => truth (evalCmp op a b)) M N), cmp_yields hM hN op, ?_⟩
    intro vs σ
    simp only [Meaning.ofValue, valueBinary, Fp.operands, hv, hw]
    rfl

theorem constant_shortCircuit (skip : CmpOp) (d : D) : Constant h (lowerShortCircuit skip d L R)
      (if evalCmp skip a 0 then d else truth (!isZero b)) where
  compiles c := ok_bind (hL.compiles c) fun _ => ok_bind (hR.compiles _) fun _ => ⟨_, rfl⟩
  gives := by
    obtain ⟨M, hM, hv⟩ := hL.gives
    obtain ⟨N, hN, hw⟩ := hR.gives
    refine ⟨.ofValue (fun vs => N.after (M.after vs)) (valueShortCircuit skip d M N),
      shortCircuit_yields hM hN skip d, ?_⟩
    intro vs σ
    simp only [Meaning.ofValue, valueShortCircuit, hv, Loc.read]
    split
    · rfl
    · simp only [hw]

end Two

theorem constant_value {node : NodeId} {v : D} (hnode : ∀ ρ, h node [] ρ = ([], v)) :
    Constant h (emitValueExpr node) v where
  compiles c := by
    simp [emitValueExpr, newTemp, newManagedSlot, syncToEnv, managedSlotPublish,
      managedSlotRequireReadable, managedSlotCleanup, setSlot, bind, Except.bind]
  gives := by
    refine ⟨.ofValue (afterHelper true true) (valueHelper h node true true []), valueExpr_yields node, ?_⟩
    intro vs σ
    simp only [Meaning.ofValue, valueHelper, hnode]

end Code


/-! What the instructions of an operator compute, over the rationals. -/

section Operators
variable [PowFn]

def plainBinary (op : BinOp) (a b : Ext) : Ext :=
  match opKind op with
  | .arith op => evalArith op a b
  | .cmp op => truth (evalCmp op a b)
  | .and => if evalCmp .eq a 0 then 0 else truth (!isZero b)
  | .or => if evalCmp .ne a 0 then 1 else truth (!isZero b)
  | .other => evalArith .add a b

theorem isZero_fin {b : Ext} (hb : isZero b = true) : b = .fin 0 := by
  cases b with
  | nan => cases hb
  | inf | fin => exact of_decide_eq_true hb

theorem div_zero_ne (a : Ext) : evalArith .div a (.fin 0) ≠ 0 := by
  show Ext.div a (.fin 0) ≠ .fin 0
  cases a with
  | nan | inf => simp [Ext.div]
  | fin q =>
    simp only [Ext.div, if_true]
    split <;> simp

theorem sub_zero_left (a : Ext) : Double.sub 0 a = Double.neg a := by
  show Ext.add (.fin 0) a.neg = a.neg
  cases a with
  | nan | inf => rfl
  | fin q => simp [Ext.neg, Ext.add]

theorem plainBinary_eq_iff {op : BinOp} {a b v : Ext} (hf : foldBinary op a b = some v) :
    plainBinary op a b = v ↔ (op = .divide → isZero b = false) := by
  unfold foldBinary at hf
  unfold plainBinary
  cases hk : opKind op with
  | arith op' =>
    rw [hk] at hf
    cases hf
    dsimp only [foldArith]
    have hdiv : op' = .div ↔ op = .divide := by cases op <;> cases op' <;> simp_all [opKind]
    by_cases hz : op' = .div ∧ isZero b = true
    · obtain ⟨rfl, hb⟩ := hz
      rw [if_pos ⟨rfl, hb⟩]
      have hne : evalArith .div a b ≠ 0 := by
        rw [isZero_fin hb]
        exact div_zero_ne a
      simp [hdiv.1 rfl, hb, hne]
    · rw [if_neg hz]
      refine ⟨fun _ hop => ?_, fun _ => rfl⟩
      rw [← hdiv] at hop
      simpa [hop] using hz
  | cmp op' =>
    rw [hk] at hf
    cases hf
    refine ⟨fun _ hop => ?_, fun _ => rfl⟩
    rw [hop] at hk
    cases hk
  | and =>
    rw [hk] at hf
    cases hf
    refine ⟨fun _ hop => ?_, fun _ => ?_⟩
    · rw [hop] at hk
      cases hk
    · dsimp only
      rw [evalCmp_eq_zero]
      cases isZero a <;> rfl
  | or =>
    rw [hk] at hf
    cases hf
    refine ⟨fun _ hop => ?_, fun _ => ?_⟩
    · rw [hop] at hk
      cases hk
    · dsimp only
      rw [evalCmp_ne_zero]
      cases isZero a <;> rfl
  | other =>
    rw [hk] at hf
    cases hf

end Operators

/-! Folding against the code. -/

section Agreement
variable [PowFn] [Formats]

/-- The runtime evaluates a node the code hands it as the tree evaluator does. -/
def Runtime (h : Helper Ext) (pointer : Node Ext → NodeId) (node : Node Ext) : Prop :=
  ∀ u ∈ runtimeNodes node, ∀ v, constValue u = .ok v → ∀ ρ, h (pointer u) [] ρ = ([], valToDouble v)

/-- The code of the node without folding leaves `v`, and no node it hands to the runtime throws. -/
structure Computes (h : Helper Ext) (pointer : Node Ext → NodeId) (node : Node Ext) (v : Ext) :
    Prop where
  calm : ∀ u ∈ runtimeNodes node, ∃ w, constValue u = .ok w
  leaves : ∀ c, ∃ c' is r, compileExpr (unfolded pointer node) c = .ok (c', is, r) ∧
    ∀ σ, Leaves h is r σ v

/-- The runtime's equality of the operands as it evaluates them is the one of the folded
numbers. -/
def RuntimeAgrees (op : BinOp) (l r : Node Ext) : Prop :=
  ∃ a b w, constValue l = .ok a ∧ constValue r = .ok b ∧ evalBinary op a b = .ok w ∧
    ∀ x y, tryFoldConstant l = some x → tryFoldConstant r = some y →
      foldBinary op x y = some (valToDouble w)

/-- A node whose folding is right when that of its parts is: a divisor is not zero, and an
equality the runtime makes comes out the same. -/
def Regular : Node Ext → Prop
  | .binary op (some l) r =>
    (op = .divide → ∀ y, tryFoldConstant r = some y → isZero y = false) ∧
      (needsValueEval op l r = true → isNullEqCompare op l r = false → RuntimeAgrees op l r)
  | _ => True

variable {op : BinOp} {l r : Node Ext} {v a : Ext}

theorem constValue_null (hn : isNullEqCompare op l r = true) (hf : foldNullCompare op l r = some v) :
    ∃ w, constValue (.binary op (some l) r) = .ok w ∧ valToDouble w = v := by
  unfold foldNullCompare at hf
  split at hf
  case isFalse => cases hf
  case isTrue hlit =>
    cases hf
    obtain ⟨hl, hr⟩ := (Bool.and_eq_true ..).mp hlit
    have hop : op = .eq ∨ op = .ne := by
      simpa [isNullEqCompare, isEquality] using (Bool.and_eq_true ..).mp hn |>.1
    have hnull : isNull l = true ∨ isNull r = true := by
      simpa using ((Bool.and_eq_true ..).mp hn).2
    rcases hop with rfl | rfl <;> cases l <;> cases hl <;> cases r <;> cases hr <;>
      simp_all [isNull] <;> exact ⟨_, rfl, rfl⟩

variable {h : Helper Ext} {pointer : Node Ext → NodeId}

/-- Code that leaves a constant and calls the runtime on no node that throws. -/
structure Good (h : Helper Ext) (pointer : Node Ext → NodeId) (node : Node Ext) (v : Ext) : Prop where
  calm : ∀ u ∈ runtimeNodes node, ∃ w, constValue u = .ok w
  code : Constant h (compileExpr (unfolded pointer node)) v

theorem Good.computes {node : Node Ext} (hg : Good h pointer node v) : Computes h pointer node v where
  calm := hg.calm
  leaves c := by
    obtain ⟨⟨c', is, r⟩, hc⟩ := hg.code.compiles c
    exact ⟨c', is, r, hc, hg.code.leaves hc⟩

theorem Good.unique {node : Node Ext} {w : Ext} (hg : Good h pointer node v)
    (hc : Computes h pointer node w) : v = w := by
  obtain ⟨c', is, r, hcode, hw⟩ := hc.leaves {}
  exact hg.code.unique hcode (hw ⟨fun _ => 0, fun _ => none⟩)

theorem good_runtime {w : Value Ext} (hn : needsValueEval op l r = true)
    (hrun : Runtime h pointer (.binary op (some l) r))
    (hw : constValue (.binary op (some l) r) = .ok w) :
    Good h pointer (.binary op (some l) r) (valToDouble w) := by
  have hnodes : runtimeNodes (.binary op (some l) r) = [.binary op (some l) r] := by
    rw [runtimeNodes, if_pos hn]
  refine ⟨?_, ?_⟩
  · intro u hu
    rw [hnodes] at hu
    cases mem_singleton.1 hu
    exact ⟨w, hw⟩
  · rw [unfolded, if_pos hn]
    refine constant_value (hrun _ ?_ w hw)
    rw [hnodes]
    exact mem_singleton.2 rfl

theorem good_binary {b : Ext} (hn : needsValueEval op l r = false) (hl : Good h pointer l a)
    (hr : Good h pointer r b) :
    Good h pointer (.binary op (some l) r) (plainBinary op a b) := by
  have hneg : ¬needsValueEval op l r = true := by rw [hn]; exact Bool.false_ne_true
  refine ⟨?_, ?_⟩
  · intro u hu
    rw [runtimeNodes, if_neg hneg] at hu
    rcases List.mem_append.1 hu with hu | hu
    · exact hl.calm u hu
    · exact hr.calm u hu
  · rw [unfolded, if_neg hneg]
    unfold plainBinary
    cases opKind op with
    | arith op' => exact constant_arith hl.code hr.code op'
    | cmp op' => exact constant_cmp hl.code hr.code op'
    | and => exact constant_shortCircuit hl.code hr.code .eq 0
    | or => exact constant_shortCircuit hl.code hr.code .ne 1
    | other => exact constant_arith hl.code hr.code .add

theorem good_unary (hr : Good h pointer r a) (hf : foldUnary op a = some v) :
    Good h pointer (.binary op none r) v := by
  refine ⟨by rw [runtimeNodes]; exact hr.calm, ?_⟩
  cases op with
  | minus =>
    cases hf
    have hneg := constant_neg hr.code
    rw [sub_zero_left] at hneg
    rw [unfolded]
    exact hneg
  | plus =>
    cases hf
    rw [unfolded]
    exact hr.code
    all_goals simp
  | not =>
    cases hf
    rw [unfolded]
    exact constant_not hr.code
  | _ => cases hf

theorem good_null (hn : isNullEqCompare op l r = true)
    (hrun : Runtime h pointer (.binary op (some l) r)) (hf : foldNullCompare op l r = some v) :
    Good h pointer (.binary op (some l) r) v := by
  obtain ⟨w, hw, rfl⟩ := constValue_null hn hf
  refine good_runtime ?_ hrun hw
  have heq : isEquality op = true := ((Bool.and_eq_true ..).mp hn).1
  rw [needsValueEval, heq, hn]
  rfl

omit [Formats] in
theorem fold_binary (hn : isNullEqCompare op l r = false)
    (hf : tryFoldConstant (.binary op (some l) r) = some v) :
    ∃ a b, tryFoldConstant l = some a ∧ tryFoldConstant r = some b ∧ foldBinary op a b = some v := by
  rw [tryFoldConstant, hn, if_neg Bool.false_ne_true] at hf
  obtain ⟨a, ha, hf⟩ := Option.bind_eq_some_iff.1 hf
  obtain ⟨b, hb, hf⟩ := Option.bind_eq_some_iff.1 hf
  exact ⟨a, b, ha, hb, hf⟩

theorem good_of_regular {b : Ext} (hn : isNullEqCompare op l r = false)
    (ha : tryFoldConstant l = some a) (hb : tryFoldConstant r = some b)
    (hf : foldBinary op a b = some v) (hrun : Runtime h pointer (.binary op (some l) r))
    (hl : Good h pointer l a) (hr : Good h pointer r b) (hreg : Regular (.binary op (some l) r)) :
    Good h pointer (.binary op (some l) r) v := by
  cases hv : needsValueEval op l r with
  | false =>
    have hplain := (plainBinary_eq_iff hf).2 fun hop => hreg.1 hop b hb
    rw [← hplain]
    exact good_binary hv hl hr
  | true =>
    obtain ⟨x, y, w, hx, hy, hw, hall⟩ := hreg.2 hv hn
    have hvw : v = valToDouble w := Option.some.inj (hf.symm.trans (hall a b ha hb))
    rw [hvw]
    refine good_runtime hv hrun ?_
    rw [constValue, hx, hy]
    exact hw

theorem regular_of_computes {b : Ext} (ha : tryFoldConstant l = some a)
    (hb : tryFoldConstant r = some b) (hf : foldBinary op a b = some v)
    (hrun : Runtime h pointer (.binary op (some l) r)) (hl : Good h pointer l a)
    (hr : Good h pointer r b) (hc : Computes h pointer (.binary op (some l) r) v) :
    Regular (.binary op (some l) r) := by
  refine ⟨?_, ?_⟩
  · intro hop y hy
    have hv : needsValueEval op l r = false := by rw [hop]; rfl
    have hplain := (plainBinary_eq_iff hf).1 ((good_binary hv hl hr).unique hc) hop
    rw [Option.some.inj (hy.symm.trans hb)]
    exact hplain
  · intro hv _
    obtain ⟨w, hw⟩ := hc.calm (.binary op (some l) r) (by
      rw [runtimeNodes, if_pos hv]
      exact mem_singleton.2 rfl)
    have hvw := (good_runtime hv hrun hw).unique hc
    rw [constValue] at hw
    obtain ⟨x, hx, hw⟩ := bind_ok.1 hw
    obtain ⟨y, hy, hw⟩ := bind_ok.1 hw
    refine ⟨x, y, w, hx, hy, hw, ?_⟩
    intro a' b' ha' hb'
    rw [Option.some.inj (ha'.symm.trans ha), Option.some.inj (hb'.symm.trans hb), hf, hvw]

omit [PowFn] [Formats] in
theorem parts_trans {node u : Node Ext} (hu : u ∈ parts node) : ∀ w ∈ parts u, w ∈ parts node := by
  fun_induction parts node with
  | case1 op r ih =>
    intro w hw
    rcases mem_cons.1 hu with rfl | hu
    · rwa [parts] at hw
    · exact mem_cons_of_mem _ (ih hu w hw)
  | case2 op l r ihl ihr =>
    intro w hw
    rcases mem_cons.1 hu with rfl | hu
    · rwa [parts] at hw
    · split at hu
      case isTrue => cases hu
      case isFalse hn =>
        rw [if_neg hn]
        rcases List.mem_append.1 hu with hu | hu
        · exact mem_cons_of_mem _ (mem_append_left _ (ihl hu w hw))
        · exact mem_cons_of_mem _ (List.mem_append_right _ (ihr hu w hw))
  | case3 node h₁ h₂ =>
    intro w hw
    cases mem_singleton.1 hu
    rw [parts] at hw
    · exact hw
    · exact h₁
    · exact h₂

theorem good_of_parts : ∀ {node : Node Ext} {v : Ext}, tryFoldConstant node = some v →
    (∀ u ∈ parts node, Runtime h pointer u) → (∀ u ∈ parts node, Regular u) → Good h pointer node v
  | .number x, v, hf, _, _ => by
    cases hf
    exact ⟨by simp [runtimeNodes], by rw [unfolded]; exact constant_num x⟩
  | .integer i, v, hf, _, _ => by
    cases hf
    exact ⟨by simp [runtimeNodes], by rw [unfolded]; exact constant_num _⟩
  | .null, v, hf, _, _ => by
    cases hf
    exact ⟨by simp [runtimeNodes], by rw [unfolded]; exact constant_num 0⟩
  | .binary op none r, v, hf, hrun, hreg => by
    rw [tryFoldConstant] at hf
    obtain ⟨a, ha, hf⟩ := Option.bind_eq_some_iff.1 hf
    rw [parts] at hrun hreg
    exact good_unary (good_of_parts ha (fun u hu => hrun u (mem_cons_of_mem _ hu))
      fun u hu => hreg u (mem_cons_of_mem _ hu)) hf
  | .binary op (some l) r, v, hf, hrun, hreg => by
    rw [parts] at hrun hreg
    have hself := hrun _ (List.mem_cons_self ..)
    cases hn : isNullEqCompare op l r with
    | true =>
      rw [tryFoldConstant, if_pos hn] at hf
      exact good_null hn hself hf
    | false =>
      rw [hn, if_neg Bool.false_ne_true] at hrun hreg
      obtain ⟨a, b, ha, hb, hf⟩ := fold_binary hn hf
      refine good_of_regular hn ha hb hf hself ?_ ?_ (hreg _ (List.mem_cons_self ..))
      · exact good_of_parts ha (fun u hu => hrun u (mem_cons_of_mem _ (mem_append_left _ hu)))
          fun u hu => hreg u (mem_cons_of_mem _ (mem_append_left _ hu))
      · exact good_of_parts hb (fun u hu => hrun u (mem_cons_of_mem _ (List.mem_append_right _ hu)))
          fun u hu => hreg u (mem_cons_of_mem _ (List.mem_append_right _ hu))

theorem parts_regular : ∀ {node : Node Ext} {v : Ext}, tryFoldConstant node = some v →
    (∀ u ∈ parts node, Runtime h pointer u) →
    (∀ u ∈ parts node, ∀ w, tryFoldConstant u = some w → Computes h pointer u w) →
      ∀ u ∈ parts node, Regular u
  | .number _, _, _, _, _, _, hu | .integer _, _, _, _, _, _, hu | .null, _, _, _, _, _, hu => by
    rw [parts] at hu
    · cases mem_singleton.1 hu
      trivial
    all_goals simp
  | .binary op none r, v, hf, hrun, hall, u, hu => by
    rw [tryFoldConstant] at hf
    obtain ⟨a, ha, -⟩ := Option.bind_eq_some_iff.1 hf
    rw [parts] at hrun hall hu
    rcases mem_cons.1 hu with rfl | hu
    · trivial
    · exact parts_regular ha (fun u hu => hrun u (mem_cons_of_mem _ hu))
        (fun u hu => hall u (mem_cons_of_mem _ hu)) u hu
  | .binary op (some l) r, v, hfold, hrun, hall, u, hu => by
    rw [parts] at hrun hall hu
    have hself := hrun _ (List.mem_cons_self ..)
    cases hn : isNullEqCompare op l r with
    | true =>
      rw [hn, if_pos rfl] at hu
      cases mem_singleton.1 hu
      have heq : isEquality op = true := ((Bool.and_eq_true ..).mp hn).1
      refine ⟨fun hop => ?_, fun _ hf => absurd (hn.symm.trans hf) (by decide)⟩
      rw [hop] at heq
      cases heq
    | false =>
      rw [hn, if_neg Bool.false_ne_true] at hrun hall hu
      obtain ⟨a, b, ha, hb, hf⟩ := fold_binary hn hfold
      have hrunl := fun u hu => hrun u (mem_cons_of_mem _ (mem_append_left _ hu))
      have hrunr := fun u hu => hrun u (mem_cons_of_mem _ (List.mem_append_right _ hu))
      have hregl := parts_regular ha hrunl
        fun u hu => hall u (mem_cons_of_mem _ (mem_append_left _ hu))
      have hregr := parts_regular hb hrunr
        fun u hu => hall u (mem_cons_of_mem _ (List.mem_append_right _ hu))
      rcases mem_cons.1 hu with rfl | hu
      · exact regular_of_computes ha hb hf hself (good_of_parts ha hrunl hregl)
          (good_of_parts hb hrunr hregr) (hall _ (List.mem_cons_self ..) v hfold)
      · rcases List.mem_append.1 hu with hu | hu
        · exact hregl u hu
        · exact hregr u hu

end Agreement

/-- `(null == 1) + 6 / 2`. -/
def nullSum : Node Ext :=
  .binary .plus (some (.binary .eq (some .null) (.integer 1)))
    (.binary .divide (some (.integer 6)) (.integer 2))

end TurboScript.Mir.Fold
