import TurboScript.Exprtk.Scope

/- The side-effect analysis of method bodies (`ts_oop_method_body_needs_reload`), and what
   the evaluators do with a body it accepts.

   1. The walk. A value is read only when the walk accepts it without any parameter.
   2. `Kept`: the environments older than a call keep their variables, and the frame of the
      call has the names that its body may assign. One variable is left out, the temporary
      through which the MIR evaluator reads members: it is set by walking up the scopes.
   3. Both evaluators on the nodes that the walk accepts. -/
namespace TurboScript.Mir.Reload
open Lib Exprtk

set_option linter.unusedSectionVars false

section Analysis
variable {D : Type}

/-- `ts_name_is_param`: a parameter with a type is not looked at. -/
def nameIsParam (name : Exprtk.Name) (params : List (Node D)) : Bool :=
  params.any fun
    | .varRef x => x == name
    | _ => false

mutual
/-- `ts_oop_method_body_needs_reload`. -/
def methodBodyNeedsReload (params : List (Node D)) : Node D → Bool
  | .number _ | .integer _ | .varRef _ | .string _ | .null | .thisExpr => false
  | .binary _ left right =>
    optionNeedsReload params left || methodBodyNeedsReload params right
  | .block statements => anyNeedsReload params statements
  | .flowReturn value => optionNeedsReload [] value
  | .flowBreak | .flowContinue => false
  | .assignment name value => !nameIsParam name params || methodBodyNeedsReload [] value
  | .memberAccess object _ => methodBodyNeedsReload [] object
  | .memberSet .thisExpr _ value => methodBodyNeedsReload [] value
  | _ => true

def optionNeedsReload (params : List (Node D)) : Option (Node D) → Bool
  | none => false
  | some node => methodBodyNeedsReload params node

def anyNeedsReload (params : List (Node D)) : List (Node D) → Bool
  | [] => false
  | node :: nodes => methodBodyNeedsReload params node || anyNeedsReload params nodes
end

/-- `ts_oop_method_expr_is_read_only`. -/
def methodExprIsReadOnly (node : Node D) : Bool := !methodBodyNeedsReload [] node

theorem nameIsParam_cons (name : Exprtk.Name) (param : Node D) (params : List (Node D)) :
    nameIsParam name (param :: params) = true ↔ param = .varRef name ∨ nameIsParam name params = true := by
  unfold nameIsParam
  rw [List.any_cons, Bool.or_eq_true]
  refine or_congr_left ?_
  cases param with
  | varRef | _ => simp

end Analysis

/-! What a call leaves alone. -/

section Frames
variable {D Θ : Type} [Double D]

/-- The environments below `base` have the variables of `old`, but for the receiver
    temporary, and `frame` has the names of `own`. -/
structure Kept (base : EnvId) (old : EnvId → Exprtk.Name → Option (Binding D)) (frame : EnvId)
    (own : Exprtk.Name → Prop) (s : State D Θ) : Prop where
  next : base ≤ s.next
  vars : ∀ i, i < base → ∀ x, x ≠ receiverTemp → (s.envs i).vars x = old i x
  bound : ∀ x, own x → ((s.envs frame).vars x).isSome = true

variable {base : EnvId} {old : EnvId → Exprtk.Name → Option (Binding D)} {frame : EnvId}
  {own : Exprtk.Name → Prop}

/-- A run that keeps what `Kept` says. -/
abbrev Steady {α : Type} (base : EnvId) (old : EnvId → Exprtk.Name → Option (Binding D))
    (frame : EnvId) (own : Exprtk.Name → Prop) (m : Eval D Θ α) : Prop :=
  Triple (fun _ => True) (Kept base old frame own) m fun _ => Kept base old frame own

variable {s : State D Θ}

theorem Kept.congr {t : State D Θ} (hs : Kept base old frame own s) (hn : s.next ≤ t.next)
    (hv : ∀ i, (t.envs i).vars = (s.envs i).vars) : Kept base old frame own t where
  next := hs.next.trans hn
  vars i hi x hx := by
    rw [hv i]
    exact hs.vars i hi x hx
  bound x hx := by
    rw [hv frame]
    exact hs.bound x hx

theorem Kept.reframe (hs : Kept base old frame own s) (frame' : EnvId) :
    Kept base old frame' (fun _ => False) s :=
  ⟨hs.next, hs.vars, fun _ hx => hx.elim⟩

theorem bindVar_keeps (vars : Exprtk.Name → Option (Binding D)) (x y : Exprtk.Name) (v : Value D)
    (h : (vars y).isSome = true) : (bindVar vars x v y).isSome = true := by
  by_cases hxy : y = x
  · rw [hxy]
    exact bindVar_isSome vars x v
  · rw [bindVar_other vars v hxy]
    exact h

theorem Kept.setLocal (hs : Kept base old frame own s) {e : EnvId} {x : Exprtk.Name}
    (h : base ≤ e ∨ x = receiverTemp) (v : Value D) :
    Kept base old frame own (s.setLocal e x v) where
  next := hs.next
  vars i hi y hy := by
    rw [← hs.vars i hi y hy]
    by_cases hie : i = e
    · subst hie
      have hyx : y ≠ x := by
        rintro rfl
        exact h.elim (fun hb => absurd hi (Nat.not_lt.mpr hb)) hy
      rw [setLocal_vars, bindVar_other _ _ hyx]
    · simp [State.setLocal, State.update, hie]
  bound y hy := by
    by_cases hfe : frame = e
    · subst hfe
      rw [setLocal_vars]
      exact bindVar_keeps _ _ _ _ (hs.bound y hy)
    · simpa [State.setLocal, State.update, hfe] using hs.bound y hy

theorem Kept.set_own (hs : Kept base old frame own s) (hb : base ≤ frame) {x : Exprtk.Name}
    (hx : own x) (v : Value D) : Kept base old frame own (s.set frame x v) := by
  unfold State.set
  rw [owner_of_isSome (hs.bound x hx)]
  exact hs.setLocal (.inl hb) v

theorem Kept.set_temp (hs : Kept base old frame own s) (e : EnvId) (v : Value D) :
    Kept base old frame own (s.set e receiverTemp v) :=
  hs.setLocal (.inr rfl) v

namespace Steady

theorem pure' {α : Type} (a : α) : Steady base old frame own (pure a : Eval D Θ α) :=
  Triple.pure' a fun _ hs => hs

theorem bind' {α β : Type} {m : Eval D Θ α} {f : α → Eval D Θ β}
    (hm : Steady base old frame own m) (hf : ∀ a, Steady base old frame own (f a)) :
    Steady base old frame own (m >>= f) :=
  Triple.bind' hm hf

theorem ite' {α : Type} {c : Prop} [Decidable c] {m m' : Eval D Θ α}
    (hm : Steady base old frame own m) (hm' : Steady base old frame own m') :
    Steady base old frame own (if c then m else m') :=
  Triple.ite' (fun _ => hm) fun _ => hm'

theorem get' : Steady base old frame own (get : Eval D Θ (State D Θ)) :=
  Triple.get' fun _ hs => hs

theorem modify' {f : State D Θ → State D Θ} (hn : ∀ s, s.next ≤ (f s).next)
    (hv : ∀ s i, ((f s).envs i).vars = (s.envs i).vars) :
    Steady base old frame own (modify f : Eval D Θ Unit) :=
  Triple.modify' fun s hs => hs.congr (hn s) (hv s)

theorem of_apply {m : Eval D Θ Unit} {f : State D Θ → State D Θ} (hm : ∀ s, m s = .ok () (f s))
    (hf : ∀ s, Kept base old frame own s → Kept base old frame own (f s)) :
    Steady base old frame own m := by
  intro s hs
  rw [hm s]
  exact hf s hs

end Steady

/-! The operations of an environment. -/

theorem getEnv_steady (e : EnvId) : Steady base old frame own (getEnv e : Eval D Θ (Env D)) :=
  Steady.bind' Steady.get' fun _ => Steady.pure' _

theorem modifyEnv_steady (e : EnvId) {f : Env D → Env D} (hf : ∀ env, (f env).vars = env.vars) :
    Steady base old frame own (modifyEnv e f : Eval D Θ Unit) := by
  refine Steady.modify' (fun _ => le_rfl) fun s i => ?_
  by_cases hi : i = e
  · subst hi
    simp [State.update, hf]
  · simp [State.update, hi]

theorem emit_steady (ev : Event D) : Steady base old frame own (emit ev : Eval D Θ Unit) :=
  Steady.modify' (fun _ => le_rfl) fun _ _ => rfl

theorem unchecked_steady {α : Type} {m : Eval D Θ α} (hm : Steady base old frame own m) :
    Steady base old frame own (unchecked m) := by
  refine Steady.bind' Steady.get' fun s => ?_
  refine Steady.bind' (Steady.modify' (fun _ => le_rfl) fun _ _ => rfl) fun _ => ?_
  refine Steady.bind' hm fun a => ?_
  exact Steady.bind' (Steady.modify' (fun _ => le_rfl) fun _ _ => rfl) fun _ => Steady.pure' _

theorem setFlow_steady (e : EnvId) (f : Flow) : Steady base old frame own (setFlow e f : Eval D Θ Unit) :=
  modifyEnv_steady e fun _ => rfl

theorem abort_steady (e : EnvId) : Steady base old frame own (abort e : Eval D Θ Unit) :=
  Steady.bind' (emit_steady _) fun _ => modifyEnv_steady e fun _ => rfl

theorem noteCleared_steady (e : EnvId) (aborted : Bool) :
    Steady base old frame own (noteCleared e aborted : Eval D Θ Unit) :=
  Steady.bind' (getEnv_steady e) fun _ => Steady.ite' (emit_steady _) (Steady.pure' _)

theorem resume_steady (e : EnvId) : Steady base old frame own (resume e : Eval D Θ Unit) :=
  Steady.bind' (getEnv_steady e) fun _ => Steady.ite' (emit_steady _) (Steady.pure' _)

theorem throwErr_steady (e : EnvId) (msg : String) :
    Steady base old frame own (throwErr e msg : Eval D Θ (Value D)) := by
  refine Steady.bind' (modifyEnv_steady e fun _ => rfl) fun _ => ?_
  refine Steady.bind' ?_ fun _ => Steady.pure' _
  refine Steady.bind' Steady.get' fun _ => ?_
  exact Steady.bind' (emit_steady _) fun _ => modifyEnv_steady e fun _ => rfl

theorem flowNormal_steady (e : EnvId) : Steady base old frame own (flowNormal e : Eval D Θ Bool) :=
  Steady.bind' (getEnv_steady e) fun _ => Steady.pure' _

theorem running_steady (e : EnvId) : Steady base old frame own (running e : Eval D Θ Bool) :=
  Steady.bind' (getEnv_steady e) fun _ => Steady.pure' _

theorem envGet_steady (e : EnvId) (name : Exprtk.Name) :
    Steady base old frame own (envGet e name : Eval D Θ (Value D)) := by
  refine Steady.bind' Steady.get' fun s => ?_
  cases lookupBinding s.envs e name with
  | none | some => exact Steady.pure' _

theorem envSet_own_steady (hb : base ≤ frame) {x : Exprtk.Name} (hx : own x) (v : Value D) :
    Steady base old frame own (envSet frame x v : Eval D Θ Unit) :=
  Steady.of_apply (envSet_apply frame x v) fun _ hs => hs.set_own hb hx v

theorem envSet_temp_steady (e : EnvId) (v : Value D) :
    Steady base old frame own (envSet e receiverTemp v : Eval D Θ Unit) :=
  Steady.of_apply (envSet_apply e receiverTemp v) fun _ hs => hs.set_temp e v

theorem newEnv_steady (env : Env D) (frame' : EnvId) :
    Triple (fun _ => True) (Kept base old frame own) (newEnv env : Eval D Θ EnvId)
      fun i s => base ≤ i ∧ Kept base old frame' (fun _ => False) s := by
  intro s hs
  refine ⟨hs.next, hs.next.trans (Nat.le_succ _), fun i hi x hx => ?_, fun _ hx => hx.elim⟩
  have hne : i ≠ s.next := Nat.ne_of_lt (Nat.lt_of_lt_of_le hi hs.next)
  simpa [hne] using hs.vars i hi x hx

variable (h : Host D Θ)

theorem callSafePoint_steady (kind : SafePointKind) (cost : Nat) :
    Steady base old frame own (callSafePoint h kind cost) :=
  Steady.bind' Steady.get' fun _ =>
    Steady.bind' (Steady.modify' (fun _ => le_rfl) fun _ _ => rfl) fun _ => Steady.pure' _

theorem evalSafePoint_steady (e : EnvId) (kind : SafePointKind) (cost : Nat) :
    Steady base old frame own (evalSafePoint h e kind cost) :=
  Steady.bind' (callSafePoint_steady h kind cost) fun _ =>
    Steady.ite' (Steady.pure' _) (Steady.bind' (abort_steady e) fun _ => Steady.pure' _)

theorem evalStep_steady (e : EnvId) : Steady base old frame own (evalStep h e) := by
  refine Steady.bind' (getEnv_steady e) fun env => ?_
  refine Steady.ite' (evalSafePoint_steady h e _ _) ?_
  refine Steady.bind' (modifyEnv_steady e fun _ => rfl) fun _ => ?_
  exact Steady.ite' (Steady.bind' (abort_steady e) fun _ => Steady.pure' _) (Steady.pure' _)

end Frames
open Steady (bind' pure' ite' get')

/-! The evaluators on the nodes that the walk accepts. -/

section Evaluators
variable {D Θ : Type} [Double D] [Formats] {base : EnvId}
  {old : EnvId → Exprtk.Name → Option (Binding D)} {frame : EnvId} {own : Exprtk.Name → Prop}

/-- The parameters a node may assign are names of the frame it is evaluated in. -/
def Assigns (frame : EnvId) (own : Exprtk.Name → Prop) (params : List (Node D)) (e : EnvId) : Prop :=
  ∀ x, nameIsParam x params = true → e = frame ∧ own x

theorem Assigns.nil (e : EnvId) : Assigns frame own ([] : List (Node D)) e :=
  fun _ hx => absurd hx Bool.false_ne_true

structure Reads (base : EnvId) (old : EnvId → Exprtk.Name → Option (Binding D)) (frame : EnvId)
    (own : Exprtk.Name → Prop) (R : Evaluators D Θ) : Prop where
  eval : ∀ {params : List (Node D)} {node : Node D}, methodBodyNeedsReload params node = false →
    ∀ {e : EnvId}, Assigns frame own params e → Steady base old frame own (R.eval node e)
  valueArg : ∀ {params : List (Node D)} {node : Node D},
    methodBodyNeedsReload params node = false → ∀ {e : EnvId}, Assigns frame own params e →
      Steady base old frame own (R.valueArg node e)

variable {h : Host D Θ} {R : Evaluators D Θ} {params : List (Node D)} {e : EnvId}
  (hb : base ≤ frame) (hR : Reads base old frame own R)

theorem binary_accepted {op : BinOp} {left : Option (Node D)} {right : Node D}
    (hw : methodBodyNeedsReload params (.binary op left right) = false) :
    optionNeedsReload params left = false ∧ methodBodyNeedsReload params right = false := by
  exact Bool.or_eq_false_iff.mp hw

variable {value node : Node D}

theorem assignment_accepted {name : Exprtk.Name}
    (hw : methodBodyNeedsReload params (.assignment name value) = false) :
    nameIsParam name params = true ∧ methodBodyNeedsReload [] value = false := by
  obtain ⟨hn, hv⟩ := Bool.or_eq_false_iff.mp hw
  rw [Bool.not_eq_false'] at hn
  exact ⟨hn, hv⟩

theorem any_accepted {nodes : List (Node D)} (hw : anyNeedsReload params (node :: nodes) = false) :
    methodBodyNeedsReload params node = false ∧ anyNeedsReload params nodes = false := by
  exact Bool.or_eq_false_iff.mp hw

theorem memberSet_accepted {object : Node D} {member : Exprtk.Name}
    (hw : methodBodyNeedsReload params (.memberSet object member value) = false) :
    object = .thisExpr ∧ methodBodyNeedsReload [] value = false := by
  cases object with
  | thisExpr =>
    exact ⟨rfl, hw⟩
  | _ => cases hw

theorem accessFrom_steady (object : Node D) :
    Steady base old frame own (accessFrom e object : Eval D Θ (Exprtk.Access D)) := by
  have hc : Steady base old frame own (currentClass e : Eval D Θ (Option ClassId)) := by
    refine bind' get' fun s => ?_
    dsimp only
    split
    · exact pure' _
    · exact pure' _
  refine bind' hc fun c => ?_
  split
  · exact bind' (envGet_steady e _) fun _ => pure' _
  · exact pure' _

theorem refusal_steady (r : Option String) {m : Eval D Θ (Value D)} (hm : Steady base old frame own m) :
    Steady base old frame own (match r with
      | some msg => throwErr e msg
      | none => m) := by
  cases r with
  | some msg => exact throwErr_steady e msg
  | none => exact hm

theorem instanceMember_steady (i : InstanceId) (object : Node D) (member : Exprtk.Name) :
    Steady base old frame own (instanceMember h i object member e) := by
  refine bind' get' fun s => bind' (accessFrom_steady object) fun a => ?_
  split
  · exact refusal_steady _ (pure' _)
  · split
    · exact refusal_steady _ (pure' _)
    · exact throwErr_steady e _

theorem staticMember_steady (c : ClassId) (object : Node D) (member missing : String) :
    Steady base old frame own (staticMember h c object member missing e) := by
  refine bind' get' fun s => bind' (accessFrom_steady object) fun a => ?_
  split
  · exact refusal_steady _ (pure' _)
  · split
    · exact refusal_steady _ (pure' _)
    · exact throwErr_steady e _

theorem memberValue_steady (obj : Value D) (object : Node D) (member : Exprtk.Name) :
    Steady base old frame own (memberValue h obj object member e) := by
  unfold memberValue
  split
  · exact instanceMember_steady _ object member
  · exact staticMember_steady _ object member _
  · exact pure' _
  · exact pure' _
  · split
    · exact pure' _
    · exact throwErr_steady e _

theorem writeField_steady (i : InstanceId) (owner : ClassId) (object : Node D) (member : Exprtk.Name)
    (v : Value D) : Steady base old frame own (writeField h i owner object member v e) := by
  refine bind' get' fun s => bind' (accessFrom_steady object) fun a => ?_
  refine refusal_steady _ ?_
  split
  · exact throwErr_steady e _
  · refine bind' (emit_steady _) fun _ => ?_
    exact bind' (Steady.modify' (fun _ => le_rfl) fun _ _ => rfl) fun _ => pure' _

theorem evalThis_steady : Steady base old frame own (evalThis e : Eval D Θ (Value D)) := by
  refine bind' (getEnv_steady e) fun env => ite' (throwErr_steady e _) ?_
  refine bind' (envGet_steady e _) fun v => ?_
  split
  · exact pure' _
  · exact throwErr_steady e _

/-! `exprtk_eval`. -/

theorem unless_flow_steady {α : Type} {m : Eval D Θ α} {p : α → Eval D Θ (Value D)}
    (hm : Steady base old frame own m) (hp : ∀ v, Steady base old frame own (p v)) :
    Steady base old frame own (m >>= fun v => flowNormal e >>= fun b => if !b then pure zero else p v) :=
  bind' hm fun v => bind' (flowNormal_steady e) fun _ =>
    ite' (pure' _) (hp v)

include hR in
theorem evalOpt_steady {node : Option (Node D)} (hw : optionNeedsReload params node = false)
    (ha : Assigns frame own params e) : Steady base old frame own (evalOpt R node e) := by
  cases node with
  | none => exact pure' _
  | some node =>
    exact hR.eval hw ha

include hR in
theorem evalBinaryNode_steady {op : BinOp} {left : Option (Node D)} {right : Node D}
    (hw : methodBodyNeedsReload params (.binary op left right) = false)
    (ha : Assigns frame own params e) :
    Steady base old frame own (evalBinaryNode R op left right e) := by
  obtain ⟨hl, hr⟩ := binary_accepted hw
  refine unless_flow_steady (evalOpt_steady hR hl ha) fun l => ?_
  refine unless_flow_steady (hR.eval hr ha) fun r => ?_
  unfold binaryResult
  split
  · exact pure' _
  · exact throwErr_steady e _

include hR in
theorem evalBlock_steady {nodes : List (Node D)} (hw : anyNeedsReload params nodes = false)
    (ha : Assigns frame own params e) (last : Value D) :
    Steady base old frame own (evalBlock R e nodes last) := by
  induction nodes generalizing last with
  | nil => exact pure' _
  | cons node nodes ih =>
    obtain ⟨hnode, hnodes⟩ := any_accepted hw
    refine bind' (hR.eval hnode ha) fun v => ?_
    exact bind' (running_steady e) fun _ => ite' (ih hnodes v) (pure' _)

include hR in
theorem evalReturn_steady {value : Option (Node D)} (hw : optionNeedsReload [] value = false) :
    Steady base old frame own (evalReturn R value e) := by
  refine bind' (evalOpt_steady hR hw (.nil e)) fun v => ?_
  refine bind' (modifyEnv_steady e fun _ => rfl) fun _ => ?_
  refine bind' (running_steady e) fun _ => ite' (pure' _) ?_
  exact bind' (setFlow_steady e _) fun _ => pure' _

include hb hR in
theorem evalAssignment_steady {name : Exprtk.Name}
    (hw : methodBodyNeedsReload params (.assignment name value) = false)
    (ha : Assigns frame own params e) :
    Steady base old frame own (evalAssignment R name value e) := by
  obtain ⟨hn, hv⟩ := assignment_accepted hw
  obtain ⟨rfl, hown⟩ := ha name hn
  refine bind' (unchecked_steady (hR.eval hv (.nil e))) fun v => ?_
  refine bind' (emit_steady _) fun _ => ?_
  exact bind' (envSet_own_steady hb hown v) fun _ => envGet_steady e name

include hR in
theorem setThisMember_steady (member : Exprtk.Name) (v : Value D) :
    Steady base old frame own (setThisMember h R member v e) := by
  have hthis : methodBodyNeedsReload [] (.thisExpr : Node D) = false := rfl
  refine unless_flow_steady (hR.eval hthis (.nil e)) fun this => ?_
  split
  · exact bind' get' fun _ => writeField_steady _ _ _ member v
  · exact throwErr_steady e _

include hb hR in
/-- `exprtk_eval` on an accepted node. -/
theorem evalNode_steady (n : Nat) (hw : methodBodyNeedsReload params node = false)
    (ha : Assigns frame own params e) :
    Steady base old frame own (evalNode h R n node e) := by
  cases node with
  | number | integer | string | null => exact pure' _
  | varRef name => exact envGet_steady e name
  | thisExpr => exact evalThis_steady
  | binary op left right => exact evalBinaryNode_steady hR hw ha
  | block statements =>
    exact evalBlock_steady hR hw ha zero
  | flowReturn value =>
    exact evalReturn_steady hR hw
  | flowBreak | flowContinue => exact bind' (setFlow_steady e _) fun _ => pure' _
  | assignment name value => exact evalAssignment_steady hb hR hw ha
  | memberAccess object member =>
    have hobj : methodBodyNeedsReload [] object = false := hw
    exact bind' (unchecked_steady (hR.eval hobj (.nil e))) fun obj =>
      memberValue_steady obj object member
  | memberSet object member value =>
    obtain ⟨rfl, hv⟩ := memberSet_accepted hw
    exact unless_flow_steady (hR.eval hv (.nil e)) fun v => setThisMember_steady hR member v
  | _ => cases hw

/-! `ts_mir_runtime_value_arg`. -/

theorem done_steady (v : Value D) : Steady base old frame own (done v : Eval D Θ (Out D)) :=
  pure' _

theorem failed_steady : Steady base old frame own (failed : Eval D Θ (Out D)) :=
  pure' _

theorem onValue_steady {m : Eval D Θ (Out D)} {k : Value D → Eval D Θ (Out D)}
    (hm : Steady base old frame own m) (hk : ∀ v, Steady base old frame own (k v)) :
    Steady base old frame own (onValue m k) :=
  bind' hm fun r => ite' (hk r.2) (pure' _)

theorem onOut_steady {m : Eval D Θ (Out D)} {k : Value D → Eval D Θ (Out D)}
    (hm : Steady base old frame own m) (hk : ∀ v, Steady base old frame own (k v)) :
    Steady base old frame own (onOut m k) :=
  bind' hm fun r => ite' (hk r.2) (pure' _)

theorem valueArgError_steady : Steady base old frame own (valueArgError e : Eval D Θ Unit) := by
  refine bind' (getEnv_steady e) fun env => ite' ?_ (resume_steady e)
  exact bind' (abort_steady e) fun _ => modifyEnv_steady e fun _ => rfl

theorem unlessAborted_steady (v : Value D) :
    Steady base old frame own (unlessAborted e v : Eval D Θ (Out D)) :=
  bind' (getEnv_steady e) fun _ => pure' _

include hR in
theorem mirOpt_steady {node : Option (Node D)} (hw : optionNeedsReload params node = false)
    (ha : Assigns frame own params e) : Steady base old frame own (mirOpt R node e) := by
  cases node with
  | none => exact done_steady _
  | some node =>
    exact hR.valueArg hw ha

include hR in
theorem mirOperand_steady (hw : methodBodyNeedsReload params node = false)
    (ha : Assigns frame own params e) {k : Value D → Eval D Θ (Out D)}
    (hk : ∀ v, Steady base old frame own (k v)) :
    Steady base old frame own (mirOperand R node e k) := by
  refine bind' (unchecked_steady (hR.valueArg hw ha)) fun r => ite' (hk r.2) ?_
  exact bind' valueArgError_steady fun _ => pure' _

include hR in
theorem mirEvalValueBinary_steady {op : BinOp} {left : Option (Node D)} {right : Node D}
    (hw : methodBodyNeedsReload params (.binary op left right) = false)
    (ha : Assigns frame own params e) :
    Steady base old frame own (mirEvalValueBinary R op left right e) := by
  obtain ⟨hl, hr⟩ := binary_accepted hw
  unfold mirEvalValueBinary
  cases left with
  | none =>
    refine onValue_steady (unchecked_steady (hR.valueArg hr ha)) fun r => ?_
    split
    · exact done_steady _
    · exact failed_steady
  | some left =>
    refine mirOperand_steady hR hl ha fun l => mirOperand_steady hR hr ha fun r => ?_
    split
    · exact done_steady _
    · exact failed_steady
    · refine bind' (abort_steady e) fun _ => ?_
      exact bind' (modifyEnv_steady e fun _ => rfl) fun _ => failed_steady

include hR in
theorem mirBlock_steady {nodes : List (Node D)} (hw : anyNeedsReload params nodes = false)
    (ha : Assigns frame own params e) (last : Value D) :
    Steady base old frame own (mirBlock R e nodes last) := by
  induction nodes generalizing last with
  | nil => exact done_steady _
  | cons node nodes ih =>
    obtain ⟨hnode, hnodes⟩ := any_accepted hw
    refine onValue_steady (hR.valueArg hnode ha) fun v => ?_
    exact bind' (running_steady e) fun _ => ite' (ih hnodes v) (done_steady _)

include hR in
theorem mirReturn_steady {value : Option (Node D)} (hw : optionNeedsReload [] value = false) :
    Steady base old frame own (mirReturn R value e) := by
  refine onOut_steady (mirOpt_steady hR hw (.nil e)) fun v => ?_
  refine bind' (flowNormal_steady e) fun _ => ite' (done_steady _) ?_
  exact bind' (modifyEnv_steady e fun _ => rfl) fun _ => done_steady _

include hb hR in
theorem mirAssignment_steady {name : Exprtk.Name}
    (hw : methodBodyNeedsReload params (.assignment name value) = false)
    (ha : Assigns frame own params e) :
    Steady base old frame own (mirAssignment R name value e) := by
  obtain ⟨hn, hv⟩ := assignment_accepted hw
  obtain ⟨rfl, hown⟩ := ha name hn
  refine onOut_steady (unchecked_steady (hR.valueArg hv (.nil e))) fun v => ?_
  refine bind' (emit_steady _) fun _ => ?_
  refine bind' (envSet_own_steady hb hown v) fun _ => ?_
  exact bind' (envGet_steady e name) fun _ => done_steady _

theorem mirObjectMember_steady (obj : Value D) (object : Node D) (member : Exprtk.Name) :
    Steady base old frame own (mirObjectMember h obj object member e) := by
  have hbind : Steady base old frame own (bindReceiver obj object e : Eval D Θ Unit) := by
    unfold bindReceiver
    split
    · exact pure' _
    · exact envSet_temp_steady e obj
  refine bind' hbind fun _ => ?_
  exact bind' (memberValue_steady obj object member) fun v => unlessAborted_steady v

theorem mirMember_steady (obj : Value D) (object : Node D) (member : Exprtk.Name) :
    Steady base old frame own (mirMember h obj object member e) := by
  unfold mirMember
  split
  · exact done_steady _
  · split
    · exact done_steady _
    · exact done_steady _
    all_goals first
      | exact mirObjectMember_steady _ object member
      | exact bind' (throwErr_steady e _) fun _ => done_steady _
      | (split
         · exact done_steady _
         · exact failed_steady)

theorem mirSetThis_steady (member : Exprtk.Name) (v : Value D) :
    Steady base old frame own (mirSetThis h member v e) := by
  refine unless_flow_steady evalThis_steady fun this => ?_
  split
  · exact bind' get' fun _ => writeField_steady _ _ _ member v
  · exact pure' _

include hb hR in
/-- `ts_mir_runtime_value_arg` on an accepted node. -/
theorem mirNode_steady (n : Nat) (hw : methodBodyNeedsReload params node = false)
    (ha : Assigns frame own params e) :
    Steady base old frame own (mirNode h R n node e) := by
  cases node with
  | number | integer | string | null => exact done_steady _
  | varRef name => exact bind' (envGet_steady e name) fun _ => done_steady _
  | thisExpr => exact bind' evalThis_steady fun _ => done_steady _
  | binary op left right => exact mirEvalValueBinary_steady hR hw ha
  | block statements =>
    exact mirBlock_steady hR hw ha zero
  | flowReturn value =>
    exact mirReturn_steady hR hw
  | flowBreak | flowContinue => exact bind' (setFlow_steady e _) fun _ => done_steady _
  | assignment name value => exact mirAssignment_steady hb hR hw ha
  | memberAccess object member =>
    have hobj : methodBodyNeedsReload [] object = false := hw
    exact onValue_steady (unchecked_steady (hR.valueArg hobj (.nil e))) fun obj =>
      mirMember_steady obj object member
  | memberSet object member value =>
    obtain ⟨rfl, hv⟩ := memberSet_accepted hw
    show Steady base old frame own (mirMemberSet h R .thisExpr member value e)
    unfold mirMemberSet
    refine onValue_steady (hR.valueArg hv (.nil e)) fun v => ?_
    refine bind' (flowNormal_steady e) fun _ => ite' (done_steady _) ?_
    exact bind' (mirSetThis_steady member v) fun _ => done_steady _
  | _ => cases hw

theorem evaluators_read (h : Host D Θ) (hb : base ≤ frame) (n : Nat) :
    Reads base old frame own (evaluators h n) := by
  induction n with
  | zero => exact ⟨fun _ _ _ => Triple.cut fun _ _ => trivial,
      fun _ _ _ => Triple.cut fun _ _ => trivial⟩
  | succ n ih =>
    refine ⟨fun hw e ha => ?_, fun hw e ha => ?_⟩
    · refine bind' (getEnv_steady e) fun env => ite' (pure' _) ?_
      refine bind' (evalStep_steady h e) fun _ => ite' ?_ (pure' _)
      exact evalNode_steady hb ih n hw ha
    · refine bind' (evalStep_steady h e) fun _ => ite' ?_ failed_steady
      exact mirNode_steady hb ih n hw ha

end Evaluators

/-! Calls. -/

section Calls
variable {D Θ : Type} [Double D] [Formats] {base : EnvId}
  {old : EnvId → Exprtk.Name → Option (Binding D)} {frame : EnvId} {own : Exprtk.Name → Prop}

/-- A parameter of a class method as the grammar has it: a name, or a name with a type. -/
def isMethodParam : Node D → Bool
  | .varRef _ | .memberAccess (.varRef _) _ => true
  | _ => false

/-- The parameters are names and the walk accepts the body. -/
def Passes (m : Func D) : Prop :=
  m.params.all isMethodParam = true ∧ methodBodyNeedsReload m.params m.body = false

variable {h : Host D Θ} {R : Evaluators D Θ} {e : EnvId}

theorem methodParam_ops {param : Node D} (hp : isMethodParam param = true) :
    ∃ x, (∀ v : Value D, paramOps param v = [.local x v]) ∧ ∀ y, param = .varRef y → y = x := by
  unfold isMethodParam at hp
  split at hp
  · rename_i x
    exact ⟨x, fun v => rfl, fun y hy => (Node.varRef.inj hy).symm⟩
  · rename_i x _
    exact ⟨x, fun v => rfl, fun y hy => nomatch hy⟩
  · cases hp

theorem paramValue_steady {param : Node D} (hp : isMethodParam param = true) (parent : EnvId)
    (args : List (Value D)) : Steady base old frame own (paramValue h R parent param args) := by
  cases args with
  | cons v args => exact pure' _
  | nil =>
    cases param with
    | assignment name value => cases hp
    | _ => exact pure' _

theorem bindParams_steady (hb : base ≤ frame) (parent : EnvId) {params : List (Node D)}
    (hp : params.all isMethodParam = true) (args : List (Value D)) (own : Exprtk.Name → Prop) :
    Triple (fun _ => True) (Kept base old frame own)
      (bindParams h R parent frame params args : Eval D Θ Unit)
      fun _ => Kept base old frame fun x => own x ∨ nameIsParam x params = true := by
  induction params generalizing args own with
  | nil =>
    refine Triple.pure' () fun s hs => ⟨hs.next, hs.vars, fun x hx => ?_⟩
    exact hs.bound x (hx.resolve_right Bool.false_ne_true)
  | cons param params ih =>
    obtain ⟨hparam, hparams⟩ := Bool.and_eq_true_iff.mp hp
    obtain ⟨x, hops, hx⟩ := methodParam_ops hparam
    have hspread : ∀ child, param = .spread child → params ≠ [] := by
      rintro child rfl
      cases hparam
    rw [bindParams_cons param params args hspread]
    refine Triple.bind' (paramValue_steady hparam parent args) fun v => ?_
    have hset : Triple (fun _ => True) (Kept base old frame own) (bindParam frame param v)
        fun (_ : Unit) (s : State D Θ) => Kept base old frame (fun y => own y ∨ y = x) s := by
      intro s hs
      rw [bindParam_apply, hops]
      have hk := hs.setLocal (e := frame) (x := x) (.inl hb) v
      refine ⟨hk.next, hk.vars, fun y hy => ?_⟩
      rcases hy with hy | rfl
      · exact hk.bound y hy
      · show (((s.setLocal frame y v).envs frame).vars y).isSome = true
        rw [setLocal_vars]
        exact bindVar_isSome _ y v
    refine Triple.bind' hset fun _ => (ih hparams args.tail _).post fun _ s hs => ?_
    refine ⟨hs.next, hs.vars, fun y hy => hs.bound y ?_⟩
    rcases hy with hy | hy
    · exact .inl (.inl hy)
    · rcases (nameIsParam_cons y param params).mp hy with hy | hy
      · exact .inl (.inr (hx y hy))
      · exact .inr hy

theorem execBody_steady (hR : Reads base old frame own R) {params : List (Node D)}
    {body : Node D} (hw : methodBodyNeedsReload params body = false)
    (ha : Assigns frame own params e) : Steady base old frame own (execBody h R body e) := by
  refine ite' ?_ (hR.eval hw ha)
  refine bind' (hR.valueArg hw ha) fun r => ite' (pure' _) ?_
  exact bind' valueArgError_steady fun _ => pure' _

theorem leaveFrame_steady (caller i : EnvId) (result : Value D) :
    Steady base old frame own (leaveFrame caller i result : Eval D Θ (Value D)) := by
  refine bind' (getEnv_steady i) fun l => ?_
  refine bind' (noteCleared_steady caller _) fun _ => ?_
  refine bind' (modifyEnv_steady caller fun _ => rfl) fun _ => ?_
  split
  · exact pure' _
  · exact bind' (modifyEnv_steady caller fun _ => rfl) fun _ => pure' _
  · exact bind' (setFlow_steady caller _) fun _ => pure' _
  · exact pure' _

theorem newEnv_then {α : Type} (env : Env D) {k : EnvId → Eval D Θ α}
    (hk : ∀ i, base ≤ i → Triple (fun _ => True) (Kept base old i fun _ => False) (k i)
      fun _ => Kept base old frame fun _ => False) :
    Steady base old frame (fun _ => False) (newEnv env >>= k) := by
  refine Triple.bind' (R := fun i s => base ≤ i ∧ Kept base old i (fun _ => False) s) ?_
    fun i => Triple.fact' fun hb => hk i hb
  exact (newEnv_steady env frame).post fun i s hs => ⟨hs.1, hs.2.reframe i⟩

theorem evalScriptFunction_steady (fuel : Nat) {m : Func D} (hm : Passes m)
    (args : List (Value D)) (parent caller : EnvId) :
    Steady base old frame (fun _ => False)
      (evalScriptFunction h (evaluators h fuel) m args parent caller) := by
  unfold evalScriptFunction
  refine bind' (getEnv_steady caller) fun c => ?_
  dsimp only
  have henter : Steady base old frame (fun _ => False)
      (enterFunction h caller c.safePoint (h.frameBytes args.length)) :=
    ite' (evalSafePoint_steady h caller _ _) (pure' _)
  refine bind' henter fun entered => ite' (pure' _) ?_
  refine bind' (modifyEnv_steady caller fun _ => rfl) fun _ => ite' ?_ ?_
  · -- the recursion limit
    refine bind' (abort_steady caller) fun _ => ?_
    refine bind' (modifyEnv_steady caller fun _ => rfl) fun _ => ?_
    exact ite' (bind' (callSafePoint_steady h _ _) fun _ => pure' _) (pure' _)
  · refine bind' (getEnv_steady caller) fun c' => ?_
    refine bind' (getEnv_steady parent) fun p => ?_
    have hcaptured : Steady base old frame (fun _ => False)
        (capturedVars m : Eval D Θ (Exprtk.Name → Option (Binding D))) := by
      unfold capturedVars
      split
      · exact bind' (getEnv_steady _) fun _ => pure' _
      · exact pure' _
    refine bind' hcaptured fun captured => ?_
    refine newEnv_then _ fun i hb => ?_
    refine Triple.bind' (bindParams_steady hb parent hm.1 args _) fun _ => ?_
    refine Triple.post (Q := fun _ => Kept base old i
      fun x => False ∨ nameIsParam x m.params = true) ?_ fun _ s hs => hs.reframe frame
    refine bind' (emit_steady _) fun _ => ?_
    refine bind' (execBody_steady (evaluators_read h hb fuel) hm.2 ?_) fun result => ?_
    · exact fun x hx => ⟨rfl, .inr hx⟩
    · refine bind' (leaveFrame_steady caller i result) fun result => ?_
      refine ite' ?_ (pure' _)
      exact bind' (evalSafePoint_steady h caller _ _) fun _ => pure' _

theorem evalInstanceScriptMethod_steady (fuel : Nat) (i : InstanceId) {m : Func D}
    (hm : Passes m) (args : List (Value D)) :
    Steady base old frame (fun _ => False) (evalInstanceScriptMethod h (evaluators h fuel) i m args e) := by
  refine bind' (getEnv_steady e) fun env => newEnv_then _ fun methodEnv _ => ?_
  exact (evalScriptFunction_steady fuel hm args methodEnv e).post fun _ s hs => hs.reframe frame

inductive OnlyReads : Native D → Prop
  | ret (v : Value D) : OnlyReads (.ret v)
  | throwErr (msg : String) : OnlyReads (.throwErr msg)
  | abort : OnlyReads .abort
  | getVar (name : Exprtk.Name) (k : Value D → Native D) (hk : ∀ v, OnlyReads (k v)) :
      OnlyReads (.getVar name k)

theorem runNative_steady {native : Native D} (hn : OnlyReads native) :
    Steady base old frame own (runNative R e native : Eval D Θ (Value D)) := by
  induction hn with
  | ret v => exact pure' _
  | throwErr msg => exact throwErr_steady e msg
  | abort => exact bind' (abort_steady e) fun _ => pure' _
  | getVar name k _ ih => exact bind' (envGet_steady e name) fun v => ih v

end Calls

end TurboScript.Mir.Reload
