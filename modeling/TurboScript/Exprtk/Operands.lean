import TurboScript.Exprtk.ValueArg
import TurboScript.Lib.Watch

/- How often and in which order a node evaluates its operands.

   The operands of an index access are its receiver and its index, those of a member call
   its receiver and its arguments, those of an operator its left and right side. The functions
   below are those of the evaluators with a note at every evaluation of an operand
   (`watchValueArg_erases`).

   1. `watchTree`: an index access and a member call in `exprtk_eval`.
   2. `watchValueArg`: the same in `ts_mir_runtime_value_arg`, which hands some nodes to
      `exprtk_eval` after it has evaluated operands of them.
   3. `operands`: what should be noted. `direct`: the nodes for which it is. -/
namespace TurboScript.Exprtk
open Lib
open Erases (bind' ite' pure' quietly')

/-! Notes. -/

/-- A part of a node that is evaluated whatever the values of the others are. -/
inductive Operand
  | left | right
  | receiver | index
  | argument (k : Nat)
  deriving DecidableEq, Repr

/-- One evaluation of an operand; `calm` if it left no jump, throw or abort. -/
structure Visit where
  operand : Operand
  calm : Bool
  deriving DecidableEq, Repr

section Watching
variable {D Θ α : Type} [Double D]

abbrev Watched (D Θ : Type) := Watch (State D Θ) Visit

def visit (p : Operand) (e : EnvId) : Watched D Θ Unit := do
  note ⟨p, ← quietly (running e)⟩

def operand (p : Operand) (e : EnvId) (m : Eval D Θ α) : Watched D Θ α := do
  let a ← quietly m
  visit p e
  return a

def watchUnchecked (m : Watched D Θ α) : Watched D Θ α :=
  fun log => unchecked (m log)

end Watching

/-! The tree evaluator. -/

section Tree
variable {D Θ : Type} [Double D] [Formats] (h : Host D Θ) (R : Evaluators D Θ)

def watchTreeIndex (array index : Node D) (e : EnvId) : Watched D Θ (Value D) := do
  let arr ← operand .receiver e (unchecked (R.eval array e))
  let idx ← operand .index e (unchecked (R.eval index e))
  match indexValue arr idx with
  | .ok v => return v
  | .error msg => quietly (throwErr e msg)

def watchArgs (e : EnvId) : Nat → List (Node D) → Watched D Θ (List (Value D))
  | _, [] => return []
  | k, node :: nodes => do
    let vs ← operand (.argument k) e (expandArg h R e node)
    if ← quietly (running e) then return vs ++ (← watchArgs e (k + 1) nodes)
    else return vs

def watchTreeMemberCall (object : Node D) (method : Name) (args : List (Node D)) (e : EnvId) :
    Watched D Θ (Value D) := do
  let vs ← watchUnchecked (watchArgs h R e 0 args)
  match ← quietly (qualifiedNative object method e) with
  | some name => quietly (callInternal h R name vs e)
  | none => do
    let obj ← operand .receiver e (unchecked (R.eval object e))
    quietly (dispatchMethod h R obj object method vs e)

def watchNode (n : Nat) (node : Node D) (e : EnvId) : Watched D Θ (Value D) :=
  match node with
  | .index array index => watchTreeIndex R array index e
  | .memberCall object method args => watchTreeMemberCall h R object method args e
  | node => quietly (evalNode h R n node e)

def watchTree : Nat → Node D → EnvId → Watched D Θ (Value D)
  | 0, _, _ => quietly cutOff
  | n + 1, node, e => do
    if (← quietly (getEnv e)).aborted then return zero
    else if ← quietly (evalStep h e) then watchNode h (evaluators h n) n node e
    else return zero

end Tree

/-! The MIR value evaluator. -/

section Mir
variable {D Θ : Type} [Double D] [Formats] (h : Host D Θ) (R : Evaluators D Θ)

def watchViaTree (n : Nat) (node : Node D) (e : EnvId) : Watched D Θ (Out D) := do
  let v ← watchUnchecked (watchTree h n node e)
  let env ← quietly (getEnv e)
  return (!env.aborted && env.flow ≠ .throw, v)

def watchOnceMore (n : Nat) (node : Node D) (e : EnvId) : Watched D Θ (Out D) := do
  quietly (resume e)
  watchViaTree h n node e

def watchMirOperand (p : Operand) (node : Node D) (e : EnvId)
    (k : Value D → Watched D Θ (Out D)) : Watched D Θ (Out D) := do
  let r ← operand p e (unchecked (R.valueArg node e))
  if r.1 then k r.2
  else do
    quietly (valueArgError e)
    return (false, zero)

def watchBinary (op : BinOp) (left : Option (Node D)) (right : Node D) (e : EnvId) : Watched D Θ (Out D) :=
  match left with
  | none => do
    let r ← operand .right e (unchecked (R.valueArg right e))
    if r.1 then
      match mirUnary op r.2 with
      | some v => quietly (done v)
      | none => quietly failed
    else return (false, zero)
  | some left =>
    watchMirOperand R .left left e fun l => watchMirOperand R .right right e fun r =>
      match mirBinary op l r with
      | .ok v => quietly (done v)
      | .fail => quietly failed
      | .abort => quietly do
        abort e
        modifyEnv e fun env => { env with errorMsg := "MIR runtime error: unsupported runtime binary op" }
        failed

def watchIndex (n : Nat) (node array index : Node D) (e : EnvId) : Watched D Θ (Out D) := do
  let a ← operand .receiver e (unchecked ((evaluators h n).valueArg array e))
  if !a.1 then watchOnceMore h n node e
  else do
    let i ← operand .index e (unchecked ((evaluators h n).valueArg index e))
    if !i.1 then watchOnceMore h n node e
    else
      match mirIndexValue a.2 i.2 with
      | some v => quietly (done v)
      | none => do
        let v ← watchTree h n node e
        quietly (unlessAborted e v)

def watchValues (e : EnvId) : Nat → List (Node D) → Watched D Θ (Option (List (Value D)))
  | _, [] => return some []
  | k, node :: nodes => do
    match ← operand (.argument k) e (mirElementValues R e node) with
    | none => return none
    | some vs => do
      match ← watchValues e (k + 1) nodes with
      | some rest => return some (vs ++ rest)
      | none => return none

def watchCallArgs (args : List (Node D)) (e : EnvId) : Watched D Θ (Option (List (Value D))) := do
  match ← watchUnchecked (watchValues R e 0 args) with
  | some vs => return if vs.isEmpty ∧ !args.isEmpty then none else some vs
  | none => do
    quietly (valueArgError e)
    return none

/-- The call starts with the read of the variable `objectName`, which `read` notes when that
    is the receiver. -/
def watchMemberNodes (read : Watched D Θ Unit) (objectName method : Name) (object : Node D)
    (args : List (Node D)) (e : EnvId) : Watched D Θ (Value D) := do
  let vs ← watchUnchecked (watchArgs h R e 0 args)
  read
  quietly (memberCallValues h R objectName method object vs e)

def watchRetryMember (n : Nat) (node object : Node D) (method : Name) (args : List (Node D))
    (e : EnvId) : Watched D Θ (Out D) := do
  let r ← operand .receiver e (unchecked ((evaluators h n).valueArg object e))
  if !r.1 then watchOnceMore h n node e
  else
    match if method = "length" ∧ args.isEmpty then mirLength r.2 else none with
    | some n => quietly (done (.number (Double.ofInt n)))
    | none =>
      if isReceiver r.2 then do
        quietly (envSet e receiverTemp r.2)
        let v ← watchMemberNodes h (evaluators h n) (pure ()) receiverTemp method object args e
        quietly (unlessAborted e v)
      else quietly failed

def watchMemberCall (n : Nat) (node object : Node D) (method : Name) (args : List (Node D))
    (e : EnvId) : Watched D Θ (Out D) := do
  match object with
  | .varRef name => do
    let full := name ++ "." ++ method
    if (← quietly (findFunc e full)).isSome ∨ (h.builtin full).isSome then do
      match ← watchCallArgs (evaluators h n) args e with
      | none => quietly failed
      | some vs => do
        let v ← quietly (callInternal h (evaluators h n) full vs e)
        quietly (unlessAborted e v)
    else do
      let v ← watchMemberNodes h (evaluators h n) (visit .receiver e) name method object args e
      if (← quietly (getEnv e)).aborted then watchRetryMember h n node object method args e
      else quietly (done v)
  | _ => watchViaTree h n node e

def watchMirNode (n : Nat) (node : Node D) (e : EnvId) : Watched D Θ (Out D) :=
  match node with
  | .binary op left right => watchBinary (evaluators h n) op left right e
  | .index array index => watchIndex h n node array index e
  | .memberCall object method args => watchMemberCall h n node object method args e
  | node => quietly (mirNode h (evaluators h n) n node e)

def watchValueArg : Nat → Node D → EnvId → Watched D Θ (Out D)
  | 0, _, _ => quietly cutOff
  | n + 1, node, e => do
    if ← quietly (evalStep h e) then watchMirNode h n node e else quietly failed

end Mir

/-! Without the notes these are the functions of the evaluators. -/

section Erasing
variable {D Θ α : Type}

theorem visit_erases (p : Operand) (e : EnvId) {f : Unit → Watched D Θ α} {m : Eval D Θ α}
    (hf : Erases (f ()) m) : Erases (visit p e >>= f) m := by
  intro log
  funext s
  exact congrFun (hf (log ++ [_])) s

theorem operand_erases (p : Operand) (e : EnvId) (m : Eval D Θ α) : Erases (operand p e m) m := by
  have h : Erases (operand p e m) (m >>= pure) := by
    apply bind' (quietly' m)
    intro a
    exact visit_erases p e (pure' a)
  rwa [bind_pure] at h

theorem unchecked_erases {m : Watched D Θ α} {m₀ : Eval D Θ α} (h : Erases m m₀) :
    Erases (watchUnchecked m) (unchecked m₀) := by
  intro log
  rw [← h log]
  show Prod.fst <$> unchecked (m.run log) = _
  simp only [unchecked, map_bind, bind_map_left, map_pure]

end Erasing

section TreeErasing
variable {D Θ : Type} [Double D] (h : Host D Θ) (R : Evaluators D Θ)

theorem treeIndex_erases [Formats] (array index : Node D) (e : EnvId) :
    Erases (watchTreeIndex R array index e : Watched D Θ (Value D)) (evalIndex R array index e) := by
  apply bind' (operand_erases _ e _)
  intro arr
  apply bind' (operand_erases _ e _)
  intro idx
  cases indexValue arr idx with
  | ok v => exact pure' v
  | error msg => exact quietly' _

omit [Double D] in
theorem args_erases (e : EnvId) (args : List (Node D)) (k : Nat) :
    Erases (watchArgs h R e k args) (expandArgs h R e args) := by
  induction args generalizing k with
  | nil => exact pure' []
  | cons node nodes ih =>
    apply bind' (operand_erases _ e _)
    intro vs
    apply bind' (quietly' _)
    intro b
    apply ite'
    · exact bind' (ih (k + 1)) fun rest => pure' _
    · exact pure' vs

theorem treeMemberCall_erases (object : Node D) (method : Name) (args : List (Node D))
    (e : EnvId) : Erases (watchTreeMemberCall h R object method args e)
      (evalMemberCall h R object method args e) := by
  apply bind' (unchecked_erases (args_erases h R e args 0))
  intro vs
  apply bind' (quietly' _)
  intro native
  cases native with
  | some name => exact quietly' _
  | none =>
    apply bind' (operand_erases _ e _)
    intro obj
    exact quietly' _

variable [Formats]

theorem node_erases (n : Nat) (node : Node D) (e : EnvId) :
    Erases (watchNode h R n node e) (evalNode h R n node e) := by
  cases node
  case index array index => exact treeIndex_erases R array index e
  case memberCall object method args => exact treeMemberCall_erases h R object method args e
  all_goals exact quietly' _

theorem tree_erases (n : Nat) (node : Node D) (e : EnvId) :
    Erases (watchTree h n node e) ((evaluators h n).eval node e) := by
  cases n with
  | zero => exact quietly' cutOff
  | succ n =>
    apply bind' (quietly' _)
    intro env
    apply ite' (pure' _)
    apply bind' (quietly' _)
    intro b
    exact ite' (node_erases h (evaluators h n) n node e) (pure' _)

end TreeErasing

section MirErasing
variable {D Θ : Type} [Double D] (h : Host D Θ) (R : Evaluators D Θ)

theorem mirOperand_erases (p : Operand) (node : Node D) (e : EnvId)
    {k : Value D → Watched D Θ (Out D)} {k₀ : Value D → Eval D Θ (Out D)}
    (hk : ∀ v, Erases (k v) (k₀ v)) :
    Erases (watchMirOperand R p node e k) (mirOperand R node e k₀) := by
  apply bind' (operand_erases _ e _)
  intro r
  exact ite' (hk r.2) (bind' (quietly' _) fun _ => pure' _)

omit [Double D] in
theorem values_erases (e : EnvId) (args : List (Node D)) (k : Nat) :
    Erases (watchValues R e k args : Watched D Θ _) (mirValues R e args) := by
  induction args generalizing k with
  | nil => exact pure' _
  | cons node nodes ih =>
    apply bind' (operand_erases _ e _)
    intro vs
    cases vs with
    | none => exact pure' none
    | some vs =>
      apply bind' (ih (k + 1))
      intro rest
      cases rest with
      | some rest => exact pure' _
      | none => exact pure' none

omit [Double D] in
theorem callArgs_erases (args : List (Node D)) (e : EnvId) :
    Erases (watchCallArgs R args e : Watched D Θ _) (mirCallArgs R args e) := by
  apply bind' (unchecked_erases (values_erases R e args 0))
  intro vs
  cases vs with
  | some vs => exact pure' _
  | none => exact bind' (quietly' _) fun _ => pure' none

theorem memberNodes_erases {read : Watched D Θ Unit}
    (hread : ∀ (f : Unit → Watched D Θ (Value D)) m, Erases (f ()) m → Erases (read >>= f) m)
    (objectName method : Name) (object : Node D) (args : List (Node D)) (e : EnvId) :
    Erases (watchMemberNodes h R read objectName method object args e)
      (memberCallNodes h R objectName method object args e) := by
  apply bind' (unchecked_erases (args_erases h R e args 0))
  intro vs
  exact hread _ _ (quietly' _)

variable [Formats]

theorem viaTree_erases (n : Nat) (node : Node D) (e : EnvId) :
    Erases (watchViaTree h n node e) (viaTreeEval (evaluators h n) node e) := by
  apply bind' (unchecked_erases (tree_erases h n node e))
  intro v
  apply bind' (quietly' _)
  intro env
  exact pure' _

theorem onceMore_erases (n : Nat) (node : Node D) (e : EnvId) :
    Erases (watchOnceMore h n node e) (onceMore (evaluators h n) node e) :=
  bind' (quietly' _) fun _ => viaTree_erases h n node e

theorem binary_erases (op : BinOp) (left : Option (Node D)) (right : Node D) (e : EnvId) :
    Erases (watchBinary R op left right e : Watched D Θ (Out D))
      (mirEvalValueBinary R op left right e) := by
  cases left with
  | none =>
    apply bind' (operand_erases _ e _)
    intro r
    refine ite' ?_ (pure' _)
    show Erases (match mirUnary op r.2 with | some v => quietly (done v) | none => quietly failed)
      (match mirUnary op r.2 with | some v => done v | none => failed)
    cases mirUnary op r.2 <;> exact quietly' _
  | some left =>
    simp only [watchBinary, mirEvalValueBinary]
    apply mirOperand_erases
    intro l
    apply mirOperand_erases
    intro r
    cases mirBinary op l r <;> exact quietly' _

theorem index_erases (n : Nat) (node array index : Node D) (e : EnvId) :
    Erases (watchIndex h n node array index e) (mirIndex (evaluators h n) node array index e) := by
  apply bind' (operand_erases _ e _)
  intro a
  apply ite' (onceMore_erases h n node e)
  apply bind' (operand_erases _ e _)
  intro i
  apply ite' (onceMore_erases h n node e)
  cases mirIndexValue a.2 i.2 with
  | some v => exact quietly' _
  | none => exact bind' (tree_erases h n node e) fun v => quietly' _

theorem retryMember_erases (n : Nat) (node object : Node D) (method : Name)
    (args : List (Node D)) (e : EnvId) : Erases (watchRetryMember h n node object method args e)
      (mirRetryMember h (evaluators h n) node object method args e) := by
  apply bind' (operand_erases _ e _)
  intro r
  apply ite' (onceMore_erases h n node e)
  cases (if method = "length" ∧ args.isEmpty then mirLength r.2 else none) with
  | some n => exact quietly' _
  | none =>
    apply ite' _ (quietly' _)
    apply bind' (quietly' _)
    intro _
    apply bind' (memberNodes_erases h _ (fun f m hf => hf) _ _ _ _ _)
    intro v
    exact quietly' _

theorem memberCall_erases (n : Nat) (node object : Node D) (method : Name)
    (args : List (Node D)) (e : EnvId) : Erases (watchMemberCall h n node object method args e)
      (mirMemberCall h (evaluators h n) node object method args e) := by
  cases object
  case varRef name =>
    apply bind' (quietly' _)
    intro f
    apply ite'
    · apply bind' (callArgs_erases _ args e)
      intro vs
      cases vs with
      | none => exact quietly' _
      | some vs => exact bind' (quietly' _) fun v => quietly' _
    · apply bind' (memberNodes_erases h _ (fun f m hf => visit_erases _ e hf) _ _ _ _ _)
      intro v
      apply bind' (quietly' _)
      intro env
      exact ite' (retryMember_erases h n _ _ _ _ e) (quietly' _)
  all_goals exact viaTree_erases h n node e

theorem mirNode_erases (n : Nat) (node : Node D) (e : EnvId) :
    Erases (watchMirNode h n node e) (mirNode h (evaluators h n) n node e) := by
  cases node
  case binary op left right => exact binary_erases (evaluators h n) op left right e
  case index array index => exact index_erases h n _ array index e
  case memberCall object method args => exact memberCall_erases h n _ object method args e
  all_goals exact quietly' _

/-- Without its notes `watchValueArg` is `ts_mir_runtime_value_arg`. -/
theorem watchValueArg_erases (n : Nat) (node : Node D) (e : EnvId) :
    Erases (watchValueArg h n node e) ((evaluators h n).valueArg node e) := by
  cases n with
  | zero => exact quietly' cutOff
  | succ n =>
    apply bind' (quietly' _)
    intro b
    exact ite' (mirNode_erases h n node e) (quietly' _)

end MirErasing

/-! What should be noted, and when it is. -/

section Direct
variable {D Θ : Type} [Double D] [Formats] (h : Host D Θ)

/-- The operands of a node in the order they are written; a namespace of natives is no
    operand. -/
def operands (namespaced : Bool) : Node D → List Operand
  | .binary _ left _ => (if left.isSome then [.left] else []) ++ [.right]
  | .index _ _ => [.receiver, .index]
  | .memberCall _ _ args =>
    (if namespaced then [] else [.receiver]) ++ (List.range args.length).map .argument
  | _ => []

/-- The receiver of a member call is a namespace of natives. -/
def namesNative (n : Nat) (object : Node D) (method : Name) (args : List (Node D)) (e : EnvId) :
    Eval D Θ Bool :=
  match object, n with
  | .varRef name, _ => do
    let full := name ++ "." ++ method
    return (← findFunc e full).isSome || (h.builtin full).isSome
  | _, 0 => return false
  | _, n + 1 => unchecked do
    let _ ← evalStep h e
    let _ ← unchecked (expandArgs h (evaluators h n) e args)
    return (← qualifiedNative object method e).isSome

/-- Receiver and index have values here, of types that this evaluator indexes itself. -/
def indexesHere (n : Nat) (array index : Node D) (e : EnvId) : Eval D Θ Bool := do
  let a ← unchecked ((evaluators h n).valueArg array e)
  let i ← unchecked ((evaluators h n).valueArg index e)
  return a.1 && i.1 && (mirIndexValue a.2 i.2).isSome

/-- The answer of a test in a state; a test that is cut off has none. -/
def answer (m : Eval D Θ Bool) (s : State D Θ) : Bool :=
  match m s with
  | .ok b _ => b
  | .error _ _ => false

def namespaced (n : Nat) (node : Node D) (e : EnvId) : Eval D Θ Bool := do
  let _ ← evalStep h e
  match node with
  | .memberCall object method args => namesNative h n object method args e
  | _ => return false

/-- The nodes that evaluate their operands once, in order: operators, indexing by this
    evaluator, calls of natives by their full names, and method calls without arguments. -/
def direct (n : Nat) (node : Node D) (e : EnvId) : Eval D Θ Bool := do
  let _ ← evalStep h e
  match node with
  | .index array index => indexesHere h n array index e
  | .memberCall object method args =>
    if args.isEmpty then return true else namesNative h n object method args e
  | _ => return true

/-- The evaluation succeeds, and neither it nor one of its operands leaves a jump, a throw
    or an abort. -/
def Completes (e : EnvId) (r : Out D) (log : List Visit) (t : State D Θ) : Prop :=
  r.1 = true ∧ (t.envs e).flow = .normal ∧ (t.envs e).aborted = false ∧ ∀ v ∈ log, v.calm = true

end Direct

/-! Notes of the parts. -/

section OperandNotes
variable {D Θ α β : Type} {s : State D Θ} {e : EnvId}

def calmIn (e : EnvId) (s : State D Θ) : Bool :=
  decide ((s.envs e).flow = .normal ∧ (s.envs e).aborted = false)

def AllCalm (log : List Visit) : Prop := ∀ v ∈ log, v.calm = true

theorem running_apply (e : EnvId) (s : State D Θ) :
    (running e : Eval D Θ Bool) s = .ok (calmIn e s) s := rfl

theorem visit_bind {p : Operand} {f : Unit → Watched D Θ α} {Q : α → List Visit → State D Θ → Prop}
    (h : Notes (f ()) s fun a new t => Q a (⟨p, calmIn e s⟩ :: new) t) :
    Notes (visit p e >>= f) s Q := by
  intro log
  exact Notes.note_bind ⟨p, calmIn e s⟩ h log

theorem operand_bind {p : Operand} {m : Eval D Θ α} {f : α → Watched D Θ β}
    {Q : β → List Visit → State D Θ → Prop}
    (h : ∀ a t, m s = .ok a t → Notes (f a) t fun b new u => Q b (⟨p, calmIn e t⟩ :: new) u) :
    Notes (operand p e m >>= f) s Q := by
  have hm : Notes (operand p e m) s fun a new t => m s = .ok a t ∧ new = [⟨p, calmIn e t⟩] := by
    apply Notes.quietly_bind
    intro a t ha
    apply visit_bind
    exact Notes.pure' a ⟨ha, rfl⟩
  apply hm.bind'
  intro a new t hP
  rw [hP.2]
  exact h a t hP.1

def State.unguarded (s : State D Θ) : State D Θ := { s with guard := false }

theorem answer_bind {m : Eval D Θ α} {f : α → Eval D Θ Bool} {a : α} {t : State D Θ}
    (hm : m s = .ok a t) : answer (m >>= f) s = answer (f a) t := by
  unfold answer
  rw [bind_apply, hm]

theorem unchecked_apply (m : Eval D Θ α) (s : State D Θ) : unchecked m s = match m s.unguarded with
      | .ok a t => .ok a { t with guard := s.guard }
      | .error x t => .error x t := by
  show EStateM.bind m _ s.unguarded = _
  unfold EStateM.bind
  cases m s.unguarded <;> rfl

theorem unchecked_notes {m : Watched D Θ α} {Q : α → List Visit → State D Θ → Prop}
    (h : Notes m s.unguarded fun a new t => Q a new { t with guard := s.guard }) :
    Notes (watchUnchecked m) s Q := by
  refine Notes.around (fun log p t hr => ?_) h
  have hr' : unchecked (m.run log) s = .ok p t := hr
  rw [unchecked_apply] at hr'
  cases ht : m.run log s.unguarded with
  | error x t' =>
    rw [ht] at hr'
    cases hr'
  | ok q t' =>
    rw [ht] at hr'
    cases hr'
    exact ⟨t', rfl, rfl⟩

theorem answer_unchecked (m : Eval D Θ Bool) : answer (unchecked m) s = answer m s.unguarded := by
  unfold answer
  rw [unchecked_apply]
  cases m s.unguarded <;> rfl

theorem evalStep_flag (h : Host D Θ) (x : Bool) :
    Triple (fun _ => True) (fun t => (t.envs e).aborted = x) (evalStep h e)
      fun b t => (t.envs e).aborted = true ∨ b = true ∧ (t.envs e).aborted = x := by
  have habort : ∀ P, Triple (fun _ => True) P (do abort e; return false)
      fun b (t : State D Θ) => (t.envs e).aborted = true ∨ b = true ∧ (t.envs e).aborted = x := by
    intro P
    refine Triple.bind' (R := fun _ (t : State D Θ) => (t.envs e).aborted = true) ?_ fun _ =>
      Triple.pure' false fun t ht => .inl ht
    refine Triple.bind' (R := fun _ _ => True) (Triple.modify' fun t _ => trivial) fun _ =>
      Triple.modify' fun t _ => ?_
    simp [State.update]
  have hgrant : Triple (fun _ => True) (fun t : State D Θ => (t.envs e).aborted = x)
      (return true) fun b t => (t.envs e).aborted = true ∨ b = true ∧ (t.envs e).aborted = x :=
    Triple.pure' true fun t ht => .inr ⟨rfl, ht⟩
  refine Triple.bind' (R := fun _ (t : State D Θ) => (t.envs e).aborted = x) (fun t ht => ht) fun env => ?_
  apply Triple.ite'
  · intro _
    refine Triple.bind' (R := fun _ (t : State D Θ) => (t.envs e).aborted = x) (fun t ht => ht) fun b => ?_
    exact Triple.ite' (fun _ => hgrant) fun _ => habort _
  · intro _
    refine Triple.bind' (R := fun _ (t : State D Θ) => (t.envs e).aborted = x) ?_ fun _ =>
      Triple.ite' (fun _ => habort _) fun _ => hgrant
    refine Triple.modify' fun t ht => ?_
    simpa [State.update] using ht

theorem evalStep_refused {h : Host D Θ} {t : State D Θ} (hr : evalStep h e s = .ok false t) :
    (t.envs e).aborted = true := by
  have h₁ := evalStep_flag (e := e) h (s.envs e).aborted s rfl
  rw [hr] at h₁
  exact h₁.resolve_right fun hb => nomatch hb.1

end OperandNotes

/-! Notes of the tree evaluator. -/

section TreeNotes
variable {D Θ : Type} [Double D] {h : Host D Θ} {R : Evaluators D Θ} {s : State D Θ} {e : EnvId}

omit [Double D] in
theorem args_notes (args : List (Node D)) (k : Nat) : Notes (watchArgs h R e k args) s fun _ new _ =>
      AllCalm new → new.map Visit.operand = (List.range' k args.length).map .argument := by
  induction args generalizing k s with
  | nil => exact Notes.pure' [] fun _ => rfl
  | cons node nodes ih =>
    apply operand_bind
    intro vs t _
    apply Notes.quietly_bind
    intro b t' hb
    rw [running_apply] at hb
    cases hb
    by_cases hc : calmIn e t
    · rw [if_pos hc]
      apply (ih (k + 1)).bind'
      intro rest new u hnew
      apply Notes.pure'
      intro hall
      have htail : AllCalm new := fun v hv => hall v (by simp [hv])
      rw [List.append_nil, List.map_cons, hnew htail, List.length_cons, List.range'_succ, List.map_cons]
    · rw [if_neg hc]
      apply Notes.pure'
      intro hall
      exact absurd (hall ⟨.argument k, calmIn e t⟩ (by simp)) hc

omit [Double D] in
theorem arguments_notes (args : List (Node D)) : Notes (watchArgs h R e 0 args) s fun _ new _ =>
      AllCalm new → new.map Visit.operand = (List.range args.length).map .argument := by
  rw [List.range_eq_range']
  exact args_notes args 0

theorem treeIndex_notes [Formats] (array index : Node D) :
    Notes (watchTreeIndex R array index e : Watched D Θ (Value D)) s fun _ new _ =>
      new.map Visit.operand = [.receiver, .index] := by
  apply operand_bind
  intro arr t _
  apply operand_bind
  intro idx u _
  cases indexValue arr idx with
  | ok v => exact Notes.pure' v rfl
  | error msg => exact Notes.quietly' fun _ _ _ => rfl

theorem treeMemberCall_notes (object : Node D) (method : Name) (args : List (Node D)) :
    Notes (watchTreeMemberCall h R object method args e) s fun _ new _ => AllCalm new →
      new.map Visit.operand = (List.range args.length).map .argument ++
        if answer (do
          let _ ← unchecked (expandArgs h R e args)
          return (← qualifiedNative object method e).isSome) s then [] else [.receiver] := by
  have hargs : Notes (watchUnchecked (watchArgs h R e 0 args)) s fun _ new _ => AllCalm new →
      new.map Visit.operand = (List.range args.length).map .argument :=
    unchecked_notes (arguments_notes args)
  have herase := unchecked_erases (args_erases h R e args 0)
  apply (Notes.erased herase (hargs.mono fun a new t hn ha => And.intro ha hn)).bind'
  intro vs new t hP
  rw [answer_bind hP.1]
  apply Notes.quietly_bind
  intro native t' hnative
  rw [answer_bind hnative]
  cases native with
  | some name =>
    apply Notes.quietly'
    intro v u _ hall
    rw [List.append_nil] at hall ⊢
    rw [hP.2 hall]
    exact (List.append_nil _).symm
  | none =>
    apply operand_bind
    intro obj u _
    apply Notes.quietly'
    intro v w _ hall
    have hnew : AllCalm new := fun v hv => hall v (by simp [hv])
    rw [List.map_append, hP.2 hnew]
    rfl

variable [Formats]

theorem tree_notes {n : Nat} {node : Node D} {Q : List Visit → Prop}
    (hn : ∀ m t, n = m + 1 → evalStep h e s = .ok true t →
      Notes (watchNode h (evaluators h m) m node e) t fun _ new _ => Q new) :
    Notes (watchTree h n node e) s fun _ new t => (t.envs e).aborted = false → Q new := by
  cases n with
  | zero => exact Notes.quietly' fun a t hr => nomatch hr
  | succ n =>
    apply Notes.quietly_bind
    intro env t hr
    cases hr
    by_cases ha : (s.envs e).aborted
    · rw [if_pos ha]
      apply Notes.pure'
      intro hno
      rw [ha] at hno
      cases hno
    · rw [if_neg ha]
      apply Notes.quietly_bind
      intro b t hstep
      cases b with
      | true => exact (hn n t rfl hstep).mono fun _ _ _ hq _ => hq
      | false =>
        apply Notes.pure'
        intro hno
        rw [evalStep_refused hstep] at hno
        cases hno

theorem viaTree_notes {n : Nat} {node : Node D} {Q : List Visit → Prop}
    (hn : ∀ m t, n = m + 1 → evalStep h e s.unguarded = .ok true t →
      Notes (watchNode h (evaluators h m) m node e) t fun _ new _ => Q new) :
    Notes (watchViaTree h n node e) s fun r new _ => r.1 = true → Q new := by
  have htree : Notes (watchUnchecked (watchTree h n node e)) s
      fun _ new t => (t.envs e).aborted = false → Q new :=
    unchecked_notes (tree_notes hn)
  apply htree.bind'
  intro v new t hP
  apply Notes.quietly_bind
  intro env u hr
  cases hr
  apply Notes.pure'
  intro hok
  rw [List.append_nil]
  rw [Bool.and_eq_true, Bool.not_eq_true'] at hok
  exact hP hok.1

end TreeNotes

/-! Notes of the MIR value evaluator. -/

section MirNotes
variable {D Θ : Type} [Double D] {h : Host D Θ} {R : Evaluators D Θ} {s : State D Θ} {e : EnvId}

omit [Double D] in
theorem values_notes (args : List (Node D)) (k : Nat) :
    Notes (watchValues R e k args : Watched D Θ _) s fun vs new _ =>
      vs.isSome = true → new.map Visit.operand = (List.range' k args.length).map .argument := by
  induction args generalizing k s with
  | nil => exact Notes.pure' _ fun _ => rfl
  | cons node nodes ih =>
    apply operand_bind
    intro vs t _
    cases vs with
    | none => exact Notes.pure' none fun hs => nomatch hs
    | some vs =>
      apply (ih (k + 1)).bind'
      intro rest new u hnew
      cases rest with
      | none => exact Notes.pure' none fun hs => nomatch hs
      | some rest =>
        apply Notes.pure'
        intro _
        rw [List.append_nil, List.map_cons, hnew rfl, List.length_cons, List.range'_succ, List.map_cons]

omit [Double D] in
theorem callArgs_notes (args : List (Node D)) :
    Notes (watchCallArgs R args e : Watched D Θ _) s fun vs new _ =>
      vs.isSome = true → new.map Visit.operand = (List.range args.length).map .argument := by
  have hvalues : Notes (watchUnchecked (watchValues R e 0 args)) s fun vs new _ =>
      vs.isSome = true → new.map Visit.operand = (List.range args.length).map .argument := by
    rw [List.range_eq_range']
    exact unchecked_notes (values_notes args 0)
  apply hvalues.bind'
  intro vs new t hP
  cases vs with
  | some vs =>
    apply Notes.pure'
    intro _
    rw [List.append_nil]
    exact hP rfl
  | none =>
    apply Notes.quietly_bind
    intro _ u _
    exact Notes.pure' none fun hs => nomatch hs

theorem mirOperand_notes {p : Operand} {node : Node D} {k : Value D → Watched D Θ (Out D)}
    {Q : List Visit → Prop}
    (hk : ∀ v t, Notes (k v) t fun r new _ => r.1 = true → ∀ b, Q (⟨p, b⟩ :: new)) :
    Notes (watchMirOperand R p node e k) s fun r new _ => r.1 = true → Q new := by
  apply operand_bind
  intro r t _
  by_cases hr : r.1
  · rw [if_pos hr]
    exact (hk r.2 t).mono fun _ _ _ hq hok => hq hok _
  · rw [if_neg hr]
    apply Notes.quietly_bind
    intro _ u _
    exact Notes.pure' _ fun hok => nomatch hok

variable [Formats]

theorem binary_notes (op : BinOp) (left : Option (Node D)) (right : Node D) :
    Notes (watchBinary R op left right e : Watched D Θ (Out D)) s fun r new _ => r.1 = true →
      new.map Visit.operand = (if left.isSome then [.left] else []) ++ [.right] := by
  cases left with
  | none =>
    apply operand_bind
    intro r t _
    by_cases hr : r.1
    · rw [if_pos hr]
      cases mirUnary op r.2 <;> exact Notes.quietly' fun _ _ _ _ => rfl
    · rw [if_neg hr]
      exact Notes.pure' _ fun hok => nomatch hok
  | some left =>
    simp only [watchBinary]
    apply mirOperand_notes
    intro l t
    apply mirOperand_notes
    intro r u
    cases mirBinary op l r <;> exact Notes.quietly' fun _ _ _ _ _ _ => rfl

theorem onceMore_notes {n : Nat} {array index : Node D} :
    Notes (watchOnceMore h n (.index array index) e) s fun r new _ => r.1 = true →
      new.map Visit.operand = [.receiver, .index] := by
  apply Notes.quietly_bind
  intro _ t _
  exact viaTree_notes (Q := fun new => new.map Visit.operand = [.receiver, .index])
    fun m u _ _ => treeIndex_notes array index

theorem index_notes (n : Nat) (array index : Node D) :
    Notes (watchIndex h n (.index array index) array index e) s fun r new _ => r.1 = true →
      (new.map Visit.operand = [.receiver, .index] ↔ answer (indexesHere h n array index e) s = true) := by
  apply operand_bind
  intro a t ha
  unfold indexesHere
  rw [answer_bind ha]
  by_cases hok : a.1
  · rw [if_neg (by simp [hok])]
    apply operand_bind
    intro i u hi
    rw [answer_bind hi]
    by_cases hok' : i.1
    · rw [if_neg (by simp [hok'])]
      have hans : answer (pure (a.1 && i.1 && (mirIndexValue a.2 i.2).isSome) : Eval D Θ Bool) u =
          (mirIndexValue a.2 i.2).isSome := by
        rw [hok, hok']
        rfl
      rw [hans]
      cases mirIndexValue a.2 i.2 with
      | some v => exact Notes.quietly' fun _ _ _ _ => by simp
      | none =>
        have htree : Notes (watchTree h n (.index array index) e) u
            fun _ new t => (t.envs e).aborted = false → new.map Visit.operand = [.receiver, .index] :=
          tree_notes (Q := fun new => new.map Visit.operand = [.receiver, .index])
            fun m w _ _ => treeIndex_notes array index
        apply htree.bind'
        intro v new w hP
        apply Notes.quietly'
        intro b x hr hsucc
        cases hr
        rw [Bool.not_eq_true'] at hsucc
        simp [hP hsucc]
    · rw [if_pos (by simp [hok'])]
      have hans : answer (pure (a.1 && i.1 && (mirIndexValue a.2 i.2).isSome) : Eval D Θ Bool) u =
          false := by
        rw [Bool.not_eq_true] at hok'
        rw [hok', Bool.and_false, Bool.false_and]
        rfl
      rw [hans]
      apply onceMore_notes.mono
      intro r new _ hnew hr
      simp [hnew hr]
  · rw [if_pos (by simp [hok])]
    have hans : answer (do
        let i ← unchecked ((evaluators h n).valueArg index e)
        return a.1 && i.1 && (mirIndexValue a.2 i.2).isSome) t = false := by
      rw [Bool.not_eq_true] at hok
      simp only [hok, Bool.false_and]
      unfold answer
      rw [bind_apply]
      cases unchecked ((evaluators h n).valueArg index e) t <;> rfl
    rw [hans]
    apply onceMore_notes.mono
    intro r new _ hnew hr
    simp [hnew hr]

theorem varRef_aborted {n : Nat} {name : Name} {a : Out D} {t : State D Θ} (hs : (s.envs e).aborted = true)
    (hr : unchecked ((evaluators h n).valueArg (.varRef name) e) s = .ok a t) :
    (t.envs e).aborted = true := by
  let P : State D Θ → Prop := fun t => (t.envs e).aborted = true
  have hread : Triple (fun _ => True) P ((evaluators h n).valueArg (.varRef name) e) fun _ => P := by
    cases n with
    | zero => exact Triple.cut fun _ _ => trivial
    | succ n =>
      refine Triple.bind' (R := fun _ => P) ((evalStep_flag h true).post ?_) fun b => ?_
      · intro b t ht
        exact ht.elim id And.right
      · refine Triple.ite' (fun _ => ?_) fun _ => Triple.pure' _ fun t ht => ht
        refine Triple.bind' (R := fun _ => P) ?_ fun v => Triple.pure' _ fun t ht => ht
        refine Triple.bind' (R := fun _ => P) (Triple.get' fun t ht => ht) fun t => ?_
        cases lookupBinding t.envs e name <;> exact Triple.pure' _ fun t ht => ht
  have hall : Triple (fun _ => True) P
      (unchecked ((evaluators h n).valueArg (.varRef name) e)) fun _ => P := by
    refine Triple.bind' (R := fun _ => P) (fun t ht => ht) fun t => ?_
    refine Triple.bind' (R := fun _ => P) (fun t ht => ht) fun _ => ?_
    refine Triple.bind' hread fun v => ?_
    exact Triple.bind' (R := fun _ => P) (fun t ht => ht) fun _ => Triple.pure' _ fun t ht => ht
  have h₁ := hall s hs
  rw [hr] at h₁
  exact h₁

theorem retryMember_notes {n : Nat} {name method : Name} {args : List (Node D)}
    (hs : (s.envs e).aborted = true) :
    Notes (watchRetryMember h n (.memberCall (.varRef name) method args) (.varRef name) method
      args e) s fun _ new _ => ¬AllCalm new := by
  apply operand_bind
  intro a t ha
  have hlate : ∀ new, ¬AllCalm (⟨.receiver, calmIn e t⟩ :: new) := by
    intro new hall
    have hfirst : calmIn e t = true := hall ⟨.receiver, calmIn e t⟩ (by simp)
    simp [calmIn, varRef_aborted hs ha] at hfirst
  by_cases hok : a.1
  · rw [if_neg (by simp [hok])]
    cases (if method = "length" ∧ args.isEmpty then mirLength a.2 else none) with
    | some m => exact Notes.quietly' fun _ _ _ => hlate _
    | none =>
      by_cases hrec : isReceiver a.2
      · simp only [if_pos hrec]
        apply Notes.quietly_bind
        intro _ u _
        have hargs : Notes (watchUnchecked (watchArgs h (evaluators h n) e 0 args)) u fun _ _ _ => True :=
          unchecked_notes ((arguments_notes args).mono fun _ _ _ _ => trivial)
        have hcall : Notes (watchMemberNodes h (evaluators h n) (pure ()) receiverTemp method
            (.varRef name) args e) u fun _ _ _ => True := by
          apply hargs.bind'
          intro vs new w _
          exact Notes.quietly' fun _ _ _ => trivial
        exact hcall.bind' fun v new w _ => Notes.quietly' fun _ _ _ => hlate _
      · simp only [if_neg hrec]
        exact Notes.quietly' fun _ _ _ => hlate _
  · rw [if_pos (by simp [hok])]
    apply Notes.quietly_bind
    intro _ u _
    have htree : Notes (watchViaTree h n (.memberCall (.varRef name) method args) e) u
        fun r _ _ => r.1 = true → True :=
      viaTree_notes (Q := fun _ => True) fun m w _ _ =>
        (treeMemberCall_notes _ method args).mono fun _ _ _ _ => trivial
    exact htree.mono fun _ new _ _ => hlate new

omit [Formats] in
theorem memberNodes_notes {name method : Name} {object : Node D} {args : List (Node D)} :
    Notes (watchMemberNodes h R (visit .receiver e) name method object args e) s
      fun _ new _ => AllCalm new →
        new.map Visit.operand = (List.range args.length).map .argument ++ [.receiver] := by
  have hargs : Notes (watchUnchecked (watchArgs h R e 0 args)) s fun _ new _ => AllCalm new →
      new.map Visit.operand = (List.range args.length).map .argument :=
    unchecked_notes (arguments_notes args)
  apply hargs.bind'
  intro vs new t hP
  apply visit_bind
  apply Notes.quietly'
  intro v u _ hall
  have hnew : AllCalm new := fun v hv => hall v (by simp [hv])
  rw [List.map_append, hP hnew]
  rfl

theorem viaMemberCall_notes {n : Nat} {object : Node D} {method : Name} {args : List (Node D)}
    (hobject : ∀ m, namesNative h (m + 1) object method args e = unchecked (do
      let _ ← evalStep h e
      let _ ← unchecked (expandArgs h (evaluators h m) e args)
      return (← qualifiedNative object method e).isSome)) :
    Notes (watchViaTree h n (.memberCall object method args) e) s fun r new _ => r.1 = true → AllCalm new →
        new.map Visit.operand = (List.range args.length).map .argument ++
          if answer (namesNative h n object method args e) s then [] else [.receiver] := by
  apply viaTree_notes
  intro m t hm hstep
  subst hm
  rw [hobject, answer_unchecked, answer_bind hstep]
  exact treeMemberCall_notes object method args

theorem memberCall_notes (n : Nat) (object : Node D) (method : Name) (args : List (Node D)) :
    Notes (watchMemberCall h n (.memberCall object method args) object method args e) s
      fun r new _ => r.1 = true → AllCalm new →
        new.map Visit.operand = (List.range args.length).map .argument ++
          if answer (namesNative h n object method args e) s then [] else [.receiver] := by
  cases object
  case varRef name =>
    apply Notes.quietly_bind
    intro f t hf
    have hans : answer (namesNative h n (.varRef name) method args e) s =
        (f.isSome || (h.builtin (name ++ "." ++ method)).isSome) :=
      answer_bind hf
    rw [hans]
    by_cases hnative : f.isSome ∨ (h.builtin (name ++ "." ++ method)).isSome
    · rw [if_pos hnative, if_pos (by simpa using hnative)]
      apply (callArgs_notes args).bind'
      intro vs new u hP
      cases vs with
      | none => exact Notes.quietly' fun a u hr hok => by cases hr; cases hok
      | some vs =>
        apply Notes.quietly_bind
        intro v w _
        apply Notes.quietly'
        intro r x _ _ _
        rw [List.append_nil, List.append_nil]
        exact hP rfl
    · rw [if_neg hnative, if_neg (by simpa using hnative)]
      apply memberNodes_notes.bind'
      intro v new u hP
      apply Notes.quietly_bind
      intro env w hr
      cases hr
      by_cases ha : (u.envs e).aborted
      · rw [if_pos ha]
        apply (retryMember_notes ha).mono
        intro r new' x hlate _ hall
        exact absurd (fun v hv => hall v (by simp [hv])) hlate
      · rw [if_neg ha]
        apply Notes.quietly'
        intro r x _ _ hall
        rw [List.append_nil] at hall ⊢
        exact hP hall
  all_goals exact viaMemberCall_notes fun _ => rfl

end MirNotes

section Result
variable {D Θ : Type} [Double D] [Formats]

omit [Double D] [Formats] in
theorem memberOrder_iff (args : List (Node D)) (native : Bool) :
    (List.range args.length).map Operand.argument ++ (if native then [] else [.receiver]) =
        (if native then [] else [.receiver]) ++ (List.range args.length).map Operand.argument ↔
      (args.isEmpty || native) = true := by
  cases native with
  | true => simp
  | false =>
    cases args with
    | nil => simp
    | cons a args => simp [List.range_succ_eq_map]

theorem mirNode_notes {h : Host D Θ} {s : State D Θ} {e : EnvId} (n : Nat) (node : Node D) :
    Notes (watchMirNode h n node e) s fun r new _ => r.1 = true → AllCalm new →
      (new.map Visit.operand = operands (answer (match node with
          | .memberCall object method args => namesNative h n object method args e
          | _ => return false) s) node ↔
        answer (match node with
          | .index array index => indexesHere h n array index e
          | .memberCall object method args =>
            if args.isEmpty then return true else namesNative h n object method args e
          | _ => return true) s = true) := by
  cases node
  case binary op left right =>
    apply (binary_notes op left right).mono
    intro r new _ hnew hok _
    rw [hnew hok]
    exact iff_of_true rfl rfl
  case index array index =>
    apply (index_notes n array index).mono
    intro r new _ hnew hok _
    exact hnew hok
  case memberCall object method args =>
    apply (memberCall_notes n object method args).mono
    intro r new _ hnew hok hall
    rw [hnew hok hall]
    apply (memberOrder_iff args _).trans
    show _ ↔ answer (if args.isEmpty then return true else namesNative h n object method args e) s = true
    by_cases hargs : args.isEmpty
    · rw [if_pos hargs, hargs]
      exact iff_of_true rfl rfl
    · rw [if_neg hargs]
      rw [Bool.not_eq_true] at hargs
      rw [hargs, Bool.false_or]
  all_goals exact Notes.quietly' fun _ _ _ _ _ => iff_of_true rfl rfl

/-- Every run that completes evaluates the operands of its node once, in order, just when
    the node is a direct one. -/
theorem operands_once_iff (h : Host D Θ) (n : Nat) (node : Node D) (e : EnvId) :
    Erases (watchValueArg h (n + 1) node e) ((evaluators h (n + 1)).valueArg node e) ∧
      ∀ s r log t, (watchValueArg h (n + 1) node e).run [] s = .ok (r, log) t → Completes e r log t →
        (log.map Visit.operand = operands (answer (namespaced h n node e) s) node ↔
          answer (direct h n node e) s = true) := by
  refine ⟨watchValueArg_erases h (n + 1) node e, ?_⟩
  intro s r log t hrun hdone
  obtain ⟨hok, -, -, hcalm⟩ := hdone
  have hnotes : Notes (watchValueArg h (n + 1) node e) s fun r new _ => r.1 = true →
      AllCalm new → (new.map Visit.operand = operands (answer (namespaced h n node e) s) node ↔
        answer (direct h n node e) s = true) := by
    apply Notes.quietly_bind
    intro b u hstep
    cases b with
    | false => exact Notes.quietly' fun a u hr hok => by cases hr; cases hok
    | true =>
      unfold namespaced direct
      rw [answer_bind hstep, answer_bind hstep]
      exact mirNode_notes n node
  exact hnotes.of_nil hrun hok hcalm

end Result

section Examples

/-- `i = i + 1`, an index with a side effect. -/
def bumpIndex : Node ℚ := .assignment "i" (.binary .plus (some (.varRef "i")) (.integer 1))

def arrayState (array : Value ℚ) : State ℚ Unit :=
  State.fresh [("t", array), ("i", .integer 0)]

def notedRun (array : Value ℚ) (node : Node ℚ) : Option (List Operand) :=
  match (watchValueArg Host.bare 5 node 0).run [] (arrayState array) with
  | .ok (r, log) t =>
    if r.1 && calmIn 0 t && log.all Visit.calm then some (log.map Visit.operand) else none
  | .error _ _ => none

theorem completes_of_noted {array : Value ℚ} {node : Node ℚ} {ops : List Operand}
    (hn : notedRun array node = some ops) :
    ∃ r log t, (watchValueArg Host.bare 5 node 0).run [] (arrayState array) = .ok (r, log) t ∧
      Completes 0 r log t ∧ log.map Visit.operand = ops := by
  unfold notedRun at hn
  cases hr : (watchValueArg Host.bare 5 node 0).run [] (arrayState array) with
  | error x t =>
    rw [hr] at hn
    cases hn
  | ok p t =>
    rw [hr] at hn
    obtain ⟨r, log⟩ := p
    obtain ⟨hc, hops⟩ := Option.ite_none_right_eq_some.mp hn
    simp only [Bool.and_eq_true, List.all_eq_true, calmIn, decide_eq_true_eq] at hc
    cases hops
    exact ⟨r, log, t, rfl, ⟨hc.1.1, hc.1.2.1, hc.1.2.2, hc.2⟩, rfl⟩

/-- `t[i = i + 1]` on a list: the index is evaluated once. -/
theorem list_index_direct :
    answer (direct Host.bare 4 (.index (.varRef "t") bumpIndex) 0)
      (arrayState (.list [.integer 10, .integer 20, .integer 30])) = true := by
  obtain ⟨r, log, t, hrun, hdone, hops⟩ := @completes_of_noted
    (.list [.integer 10, .integer 20, .integer 30]) (.index (.varRef "t") bumpIndex)
    [.receiver, .index] (by decide +kernel)
  exact ((operands_once_iff Host.bare 4 (.index (.varRef "t") bumpIndex) 0).2 _ r log t hrun
    hdone).mp hops

/-- `t[i = i + 1]` on a typed array: receiver and index are evaluated twice, and the element
    after the next one is read. -/
theorem typed_array_index_twice :
    ¬∀ s r log t, (watchValueArg Host.bare 5 (.index (.varRef "t") bumpIndex) 0).run [] s =
        .ok (r, log) t → Completes 0 r log t →
      log.map Visit.operand = operands (D := ℚ)
        (answer (namespaced Host.bare 4 (.index (.varRef "t") bumpIndex) 0) s)
        (.index (.varRef "t") bumpIndex) := by
  intro hall
  obtain ⟨r, log, t, hrun, hdone, hops⟩ := @completes_of_noted
    (.typedArray .i32 [.integer 10, .integer 20, .integer 30]) (.index (.varRef "t") bumpIndex)
    [.receiver, .index, .receiver, .index] (by decide +kernel)
  have honce := hall _ r log t hrun hdone
  rw [hops] at honce
  cases honce

end Examples

end TurboScript.Exprtk
