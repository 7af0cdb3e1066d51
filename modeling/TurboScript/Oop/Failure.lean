import TurboScript.Exprtk.Nodes
import TurboScript.Oop.Define

/- Class definitions that fail (`eval_class_def_node`).

   The evaluator of definitions calls a class table; here the table is the world of classes,
   so what a definition does to it is what the steps of a definition do. Between these steps
   the initial values of fields are evaluated, and that may run any code of the program.
   `Passes`: nothing but the initializers, in order, has had an effect. -/
namespace TurboScript.Oop.Failure
open Lib.Triple (bind' pure' get')
open Exprtk (Name ClassId InstanceId EnvId Node Value Host Evaluators Classes Eval
  Double Formats)
open Lib Function Exprtk

/-! The class table. -/

/-- The classes, and what the definitions under evaluation say about `final`. -/
structure Store (D : Type) where
  world : World (Value D)
  isFinal : ClassId → Bool := fun _ => false

/-- What the class table reads beside a node: the classes a captured scope holds, the declared
    types of the parameters of a method, and whether the reflection data of a class can be
    built. -/
structure Reading (D : Type) where
  scope : EnvId → ClassScope
  paramTypes : Node D → List (Option Name)
  finalizesCmeta : World (Value D) → ClassId → Bool

section Table
variable {D : Type} [FieldValue (Value D)]

/-- The outcome of a step, as the evaluator asks for it. -/
def Store.commit (store : Store D) : Except String Unit × World (Value D) → Except String (Store D)
  | (.ok (), w) => .ok { store with world := w }
  | (.error msg, _) => .error msg

def header : Node D → ClassDef (Value D)
  | .classDef name _ _ _ _ isAbstract isInterface isFinal =>
    { name := name, isAbstract := isAbstract, isInterface := isInterface, isFinal := isFinal }
  | _ => { name := "" }

def createClass (store : Store D) (node : Node D) (parent : Option ClassId) : ClassId × Store D :=
  let (c, w) := Oop.createClass store.world (header node) parent
  (c, { world := w, isFinal := Function.update store.isFinal c (header node).isFinal })

def declareField (store : Store D) (c : ClassId) (node : Node D) (v : Value D) : Except String (Store D) :=
  match node with
  | .fieldDecl name declaredType initializer isStatic access =>
    store.commit (defineField store.world c name declaredType (initializer.map fun _ => v) isStatic access)
  | _ => .ok store

/-- A constructor or a method; other members are skipped. -/
def addMethod (K : Reading D) (store : Store D) (c : ClassId) (node : Node D) (closure : EnvId) :
    Except String (Store D) :=
  match node with
  | .method name _ _ isStatic isAbstract isOverride isFinal access =>
    if name = "constructor" then
      if isAbstract then .error "Constructor cannot be abstract" else .ok store
    else
      store.commit (defineMethod store.world c
        ⟨name, K.paramTypes node, isStatic, c, access, isFinal, K.scope closure, 0⟩
        isAbstract isOverride)
  | _ => .ok store

/-- The end of a definition; the record of a class whose definition fails is not used again. -/
def finish (K : Reading D) (store : Store D) (c : ClassId) : Except String (Store D) :=
  let w := (finalizeAbstractMethods store.world c).updateClass c fun k =>
    { k with isFinal := store.isFinal c }
  if K.finalizesCmeta w c then .ok { store with world := w }
  else .error ("Failed to finalize CMeta reflection for class '" ++ (w.classes c).name ++ "'")

/-- The class table of the evaluator, with the operations of definitions on the world. -/
def worldClasses (K : Reading D) (base : Classes D (Store D)) : Classes D (Store D) :=
  { base with
    isInterface := fun store c => (store.world.classes c).isInterface
    isAbstract := fun store c => (store.world.classes c).isAbstract
    isFinal := fun store c => (store.world.classes c).isFinal
    className := fun store c => (store.world.classes c).name
    prototype := fun store c => (store.world.classes c).prototype
    create := fun store node _ parent => createClass store node parent
    declareField := declareField
    addMethod := addMethod K
    addInterface := fun store c i =>
      { store with world := addAbstractMethodsFrom (addInterface store.world c i) c i }
    finish := finish K }

/-- The evaluator with the world as its class table; the other operations are any. -/
def onWorld (K : Reading D) (h : Host D (Store D)) : Host D (Store D) :=
  { h with classes := worldClasses K h.classes }

end Table

/-! What a definition leaves alone. -/

section Traces
variable {D : Type}

abbrev State (D : Type) := Exprtk.State D (Store D)

/-- Two states with the same variables and functions in every environment but the scope the
    definition captures, the same instances, and the same classes but for the new one. -/
structure Untouched (c : ClassId) (captured : EnvId) (s t : State D) : Prop where
  vars : ∀ i, i ≠ captured → (t.envs i).vars = (s.envs i).vars
  funcs : ∀ i, i ≠ captured → (t.envs i).funcs = (s.envs i).funcs
  classes : ∀ k, k ≠ c → t.store.world.classes k = s.store.world.classes k
  instances : t.store.world.instances = s.store.world.instances

/-- The initializers of the fields of a class body, in order. -/
def initializers (members : List (Node D)) : List (Node D) :=
  members.filterMap fun member =>
    match member with
    | .fieldDecl _ _ initializer _ _ => initializer
    | _ => none

def Running (e : EnvId) (s : State D) : Prop :=
  (s.envs e).flow = .normal ∧ (s.envs e).aborted = false

variable [Double D] (h : Host D (Store D)) (R : Evaluators D (Store D)) (e : EnvId)
  (c : ClassId) (captured : EnvId)

/-- From the first state to the second only the given nodes are evaluated, in this order, and
    between them nothing is touched. -/
inductive Passes (s : State D) : List (Node D) → State D → Prop
  | start : Passes s [] s
  | step {nodes : List (Node D)} {t u : State D} (ht : Passes s nodes t)
      (hu : Untouched c captured t u) : Passes s nodes u
  | evaluate {nodes : List (Node D)} {node : Node D} {t u : State D} {v : Value D}
      (ht : Passes s nodes t) (hu : envEvalNode h R node e t = .ok v u) :
      Passes s (nodes ++ [node]) u

end Traces

/-! Steps that run no code of the program. -/

section Steps
variable {D : Type} {c : ClassId} {captured : EnvId} {s t u : State D} {e : EnvId}

namespace Untouched

theorem refl : Untouched c captured s s := ⟨fun _ _ => rfl, fun _ _ => rfl, fun _ _ => rfl, rfl⟩

theorem trans (h : Untouched c captured s t) (h' : Untouched c captured t u) :
    Untouched c captured s u where
  vars i hi := (h'.vars i hi).trans (h.vars i hi)
  funcs i hi := (h'.funcs i hi).trans (h.funcs i hi)
  classes k hk := (h'.classes k hk).trans (h.classes k hk)
  instances := h'.instances.trans h.instances

theorem update {f : Env D → Env D} (hv : (f (s.envs e)).vars = (s.envs e).vars)
    (hf : (f (s.envs e)).funcs = (s.envs e).funcs) : Untouched c captured s (s.update e f) := by
  have hother (i : EnvId) : (s.update e f).envs i = if i = e then f (s.envs e) else s.envs i := by
    by_cases hi : i = e
    · rw [if_pos hi, hi]
      exact update_self ..
    · rw [if_neg hi]
      exact update_of_ne hi _ _
  refine ⟨fun i _ => ?_, fun i _ => ?_, fun _ _ => rfl, rfl⟩ <;> rw [hother i] <;> split
  · rename_i hi
    rw [hv, hi]
  · rfl
  · rename_i hi
    rw [hf, hi]
  · rfl

theorem store {store : Store D} (h : Touches c s.store.world store.world) :
    Untouched c captured s { s with store := store } :=
  ⟨fun _ _ => rfl, fun _ _ => rfl, h.others, h.instances⟩

end Untouched

variable [FieldValue (Value D)] (K : Reading D)

omit [FieldValue (Value D)] in
theorem commit_touches {store store' : Store D} {r : Except String Unit × World (Value D)}
    (hr : Touches c store.world r.2) (h : store.commit r = .ok store') :
    Touches c store.world store'.world := by
  obtain ⟨r, w⟩ := r
  cases r with
  | ok =>
    cases h
    exact hr
  | error msg => cases h

theorem declareField_touches {store store' : Store D} {node : Node D} {v : Value D}
    (h : declareField store c node v = .ok store') : Touches c store.world store'.world := by
  unfold declareField at h
  split at h
  · exact commit_touches (defineField_touches ..) h
  · cases h
    exact .refl

omit [FieldValue (Value D)] in
theorem addMethod_touches {store store' : Store D} {node : Node D} {closure : EnvId}
    (h : addMethod K store c node closure = .ok store') : Touches c store.world store'.world := by
  unfold addMethod at h
  split at h
  · split at h
    · split at h
      · cases h
      · cases h
        exact .refl
    · exact commit_touches (defineMethod_touches ..) h
  · cases h
    exact .refl

omit [FieldValue (Value D)] in
theorem addInterface_touches (w : World (Value D)) (i : ClassId) :
    Touches c w (addAbstractMethodsFrom (addInterface w c i) c i) := by
  have hadd : Touches c w (addInterface w c i) := .update_frame rfl rfl rfl rfl rfl
  exact hadd.trans (addAbstractMethodsFrom_touches _ i)

omit [FieldValue (Value D)] in
theorem createClass_untouched (node : Node D) (parent : Option ClassId) :
    Untouched s.store.world.nextClass captured s
      { s with store := (createClass s.store node parent).2 } := by
  refine ⟨fun _ _ => rfl, fun _ _ => rfl, fun k hk => ?_, rfl⟩
  simp [createClass, Oop.createClass, syncFields, World.updateClass, hk]

end Steps

/-! The definition. -/

section Definition
variable {D : Type} [Double D] {h : Host D (Store D)} {R : Evaluators D (Store D)} {e : EnvId}
  {c : ClassId} {captured : EnvId} {s₀ : State D} {nodes : List (Node D)}

/-- The passes so far, of a definition that goes on. -/
def Live (h : Host D (Store D)) (R : Evaluators D (Store D)) (e : EnvId) (c : ClassId)
    (captured : EnvId) (s₀ : State D) (nodes : List (Node D)) (s : State D) : Prop :=
  Passes h R e c captured s₀ nodes s ∧ Running e s

theorem throwErr_passes (msg : String) :
    Triple (fun _ => True) (Passes h R e c captured s₀ nodes) (throwErr e msg)
      (fun _ => Passes h R e c captured s₀ nodes) := by
  intro s hs
  -- the message, the event, then the flow and the thrown value
  have hmsg : Untouched c captured s (s.update e fun env => { env with errorMsg := msg }) :=
    .update rfl rfl
  refine Passes.step (Passes.step (hs.step hmsg) (u := { s.update e _ with trace := _ }) ?_)
    (.update rfl rfl)
  exact ⟨fun _ _ => rfl, fun _ _ => rfl, fun _ _ => rfl, rfl⟩

theorem refused_passes (msg : String) : Triple (fun _ => True) (Passes h R e c captured s₀ nodes) (do
        let _ ← throwErr e msg
        return false : Eval D (Store D) Bool)
      (fun b s => Passes h R e c captured s₀ nodes s ∧ b = false) :=
  (throwErr_passes msg).bind' fun _ => pure' _ fun _ hs => ⟨hs, rfl⟩

theorem envGet_live (name : Name) :
    Triple (fun _ => True) (Live h R e c captured s₀ nodes) (envGet e name)
      (fun _ => Live h R e c captured s₀ nodes) := by
  refine bind' (R := fun _ => Live h R e c captured s₀ nodes) (get' fun _ hs => hs) ?_
  intro s
  split <;> exact pure' _ fun _ hs => hs

theorem commitClasses_live {s : State D} (hs : Live h R e c captured s₀ nodes s)
    {r : Except String (Store D)}
    (hr : ∀ store, r = .ok store → Touches c s.store.world store.world) :
    Triple (fun _ => True) (fun t => t = s) (commitClasses r e)
      (fun b t => Passes h R e c captured s₀ nodes t ∧ (b = true → Running e t)) := by
  cases r with
  | ok store =>
    intro t ht
    rw [ht]
    exact ⟨hs.1.step (.store (hr store rfl)), fun _ => hs.2⟩
  | error msg =>
    refine (refused_passes msg).mono (fun t ht => ht ▸ hs.1) fun b t ht => ⟨ht.1, fun hb => ?_⟩
    rw [ht.2] at hb
    cases hb

omit [Double D] in
theorem running_passes : Triple (fun _ => True) (Passes h R e c captured s₀ nodes) (running e)
      (fun b s => Passes h R e c captured s₀ nodes s ∧ (b = true → Running e s)) := by
  intro s hs
  refine ⟨hs, fun hb => ?_⟩
  have htest : decide ((s.envs e).flow = .normal ∧ (s.envs e).aborted = false) = true := hb
  unfold Running
  exact of_decide_eq_true htest

omit [Double D] in
theorem fieldInitial_passes (initializer : Option (Node D)) :
    Triple (fun _ => True) (Live h R e c captured s₀ nodes) (fieldInitial h R initializer e)
      (fun _ => Passes h R e c captured s₀ (nodes ++ initializer.toList)) := by
  intro s hs
  cases initializer with
  | none =>
    show Passes h R e c captured s₀ (nodes ++ []) s
    rw [List.append_nil]
    exact hs.1
  | some node =>
    have heval : fieldInitial h R (some node) e = envEvalNode h R node e := rfl
    rw [heval]
    cases hr : envEvalNode h R node e s with
    | ok v t => exact hs.1.evaluate hr
    | error _ _ => trivial

variable [FieldValue (Value D)] {K : Reading D}

theorem declareMember_passes (closure : EnvId) (member : Node D) :
    Triple (fun _ => True) (Live (onWorld K h) R e c captured s₀ nodes)
      (declareMember (onWorld K h) R c closure e member)
      (fun b s => Passes (onWorld K h) R e c captured s₀ (nodes ++ initializers [member]) s ∧
        (b = true → Running e s)) := by
  unfold declareMember
  split
  · rename_i name declaredType initializer isStatic access
    have hinit : initializers [Node.fieldDecl name declaredType initializer isStatic access] =
        initializer.toList := by
      cases initializer <;> rfl
    rw [hinit]
    refine (fieldInitial_passes initializer).bind' fun v => running_passes.bind' fun b => ?_
    cases b with
    | false => exact pure' _ fun s hs => ⟨hs.1, fun hb => by cases hb⟩
    | true =>
      refine bind' (R := fun s t => t = s ∧
        Live (onWorld K h) R e c captured s₀ (nodes ++ initializer.toList) t)
        (get' fun s hs => ⟨rfl, hs.1, hs.2 rfl⟩) fun s => ?_
      intro t ht
      have htouch : ∀ store, declareField s.store c (.fieldDecl name declaredType initializer
          isStatic access) v = .ok store → Touches c t.store.world store.world := by
        intro store hr
        rw [ht.1]
        exact declareField_touches hr
      exact commitClasses_live ht.2 htouch t rfl
  · rename_i hother
    have hinit : initializers [member] = [] := by
      unfold initializers
      rw [List.filterMap_cons]
      split
      · rfl
      · rename_i node hnode
        split at hnode
        · exact absurd rfl (hother _ _ _ _ _)
        · cases hnode
    rw [hinit, List.append_nil]
    refine bind' (R := fun s t => t = s ∧ Live (onWorld K h) R e c captured s₀ nodes t)
      (get' fun s hs => ⟨rfl, hs⟩) fun s => ?_
    intro t ht
    have htouch : ∀ store, addMethod K s.store c member closure = .ok store →
        Touches c t.store.world store.world := by
      intro store hr
      rw [ht.1]
      exact addMethod_touches K hr
    exact commitClasses_live ht.2 htouch t rfl

omit [Double D] [FieldValue (Value D)] in
theorem initializers_cons (member : Node D) (members : List (Node D)) :
    initializers (member :: members) = initializers [member] ++ initializers members := by
  unfold initializers
  rw [← List.filterMap_append]
  rfl

theorem declareMembers_passes (closure : EnvId) : ∀ (members : List (Node D)) {nodes : List (Node D)},
    Triple (fun _ => True) (Live (onWorld K h) R e c captured s₀ nodes)
      (declareMembers (onWorld K h) R c closure e members)
      (fun b s => ∃ nodes', nodes' <+: initializers members ∧
        Passes (onWorld K h) R e c captured s₀ (nodes ++ nodes') s ∧ (b = true → Running e s)) := by
  intro members
  induction members with
  | nil =>
    intro nodes
    refine pure' _ fun s hs => ⟨[], List.nil_prefix, ?_, fun _ => hs.2⟩
    rw [List.append_nil]
    exact hs.1
  | cons member members ih =>
    intro nodes
    rw [initializers_cons]
    refine (declareMember_passes closure member).bind' fun b => ?_
    cases b with
    | false =>
      refine pure' _ fun s hs => ⟨initializers [member], List.prefix_append .., hs.1, ?_⟩
      intro hb
      cases hb
    | true =>
      refine ih.mono (fun s hs => ⟨hs.1, hs.2 rfl⟩) fun b s hs => ?_
      obtain ⟨nodes', hprefix, hpasses, hrunning⟩ := hs
      refine ⟨initializers [member] ++ nodes', (List.prefix_append_right_inj _).mpr hprefix, ?_, hrunning⟩
      rw [← List.append_assoc]
      exact hpasses

theorem addInterfaces_passes : ∀ names : List Name,
    Triple (fun _ => True) (Live (onWorld K h) R e c captured s₀ nodes)
      (addInterfaces (onWorld K h) c e names)
      (fun b s => Passes (onWorld K h) R e c captured s₀ nodes s ∧ (b = true → Running e s)) := by
  intro names
  have hrefused (msg : String) : Triple (fun _ => True) (Live (onWorld K h) R e c captured s₀ nodes) (do
          let _ ← throwErr e msg
          return false : Eval D (Store D) Bool)
        (fun b s => Passes (onWorld K h) R e c captured s₀ nodes s ∧ (b = true → Running e s)) := by
    refine (refused_passes msg).mono (fun s hs => hs.1) fun b s hs => ⟨hs.1, fun hb => ?_⟩
    rw [hs.2] at hb
    cases hb
  induction names with
  | nil => exact pure' _ fun s hs => ⟨hs.1, fun _ => hs.2⟩
  | cons name names ih =>
    refine (envGet_live name).bind' fun v => ?_
    split
    · rename_i i
      refine bind' (R := fun _ => Live (onWorld K h) R e c captured s₀ nodes)
        (get' fun s hs => hs) fun s => ?_
      refine Triple.ite' (fun _ => ?_) fun _ => hrefused _
      refine bind' (R := fun _ => Live (onWorld K h) R e c captured s₀ nodes)
        (Triple.modify' fun s hs => ?_) fun _ => ih
      exact ⟨hs.1.step (.store (addInterface_touches s.store.world i)), hs.2⟩
    · exact hrefused _

theorem completeClass_passes (closure : EnvId) (name : Name) (interfaces : List Name)
    (members : List (Node D)) :
    Triple (fun _ => True) (Live (onWorld K h) R e c captured s₀ [])
      (Exprtk.completeClass (onWorld K h) R c closure name interfaces members e)
      (fun _ s => (∃ nodes, nodes <+: initializers members ∧
        Passes (onWorld K h) R e c captured s₀ nodes s) ∨ Running e s) := by
  refine (declareMembers_passes closure members).bind' fun b => ?_
  cases b with
  | false =>
    refine pure' _ fun s hs => ?_
    obtain ⟨nodes, hprefix, hpasses, -⟩ := hs
    exact .inl ⟨nodes, hprefix, hpasses⟩
  | true =>
    -- one list of initializers at a time
    refine Triple.pre (P := fun s => ∃ nodes, nodes <+: initializers members ∧
      Live (onWorld K h) R e c captured s₀ nodes s) ?_ ?_
    · refine Triple.exists' fun nodes => Triple.fact' fun hprefix => ?_
      refine (addInterfaces_passes interfaces).bind' fun b => ?_
      cases b with
      | false => exact pure' _ fun s hs => .inl ⟨nodes, hprefix, hs.1⟩
      | true =>
        refine bind' (R := fun s t => t = s ∧ Live (onWorld K h) R e c captured s₀ nodes t)
          (get' fun s hs => ⟨rfl, hs.1, hs.2 rfl⟩) fun s => ?_
        split
        · rename_i msg _
          refine (throwErr_passes msg).mono (fun t ht => ht.2.1) fun v t ht => ?_
          exact .inl ⟨nodes, hprefix, ht⟩
        · -- the name is bound, and the definition has succeeded
          refine bind' (R := fun _ => Running e) (Triple.modify' fun t ht => ht.2.2) fun _ => ?_
          refine bind' (R := fun _ => Running e) (Triple.modify' fun t ht => ?_) fun _ => ?_
          · unfold Running at ht ⊢
            simpa [Exprtk.State.update] using ht
          · exact pure' _ fun t ht => .inr ht
    · rintro s ⟨nodes, hprefix, hpasses, hrunning⟩
      exact ⟨nodes, hprefix, hpasses, hrunning rfl⟩

theorem parentClass_passes (parent : Option Name) :
    Triple (fun _ => True) (fun s => s = s₀) (parentClass parent e)
      (fun p s => s = s₀ ∨ p = none ∧ Passes (onWorld K h) R e c captured s₀ [] s) := by
  cases parent with
  | none => exact pure' _ fun s hs => .inl hs
  | some name =>
    have hget : Triple (fun _ => True) (fun s : State D => s = s₀) (envGet e name)
        (fun _ s => s = s₀) := by
      refine bind' (R := fun _ s => s = s₀) (get' fun _ hs => hs) fun s => ?_
      split <;> exact pure' _ fun _ hs => hs
    refine hget.bind' fun v => ?_
    split
    · exact pure' _ fun s hs => .inl hs
    · refine bind' (R := fun _ => Passes (onWorld K h) R e c captured s₀ []) ?_ fun _ =>
        pure' _ fun s hs => .inr ⟨rfl, hs⟩
      exact (throwErr_passes _).pre fun s hs => hs ▸ .start

theorem snapshot_live (hrunning : Running e s₀) :
    Triple (fun _ => True) (fun s => s = s₀) (snapshot e none)
      (fun _ s => Live (onWorld K h) R e s₀.store.world.nextClass s₀.next s₀ [] s ∧
        s.store = s₀.store) := by
  rintro s rfl
  refine ⟨⟨Passes.start.step ⟨fun i hi => ?_, fun i hi => ?_, fun _ _ => rfl, rfl⟩, ?_⟩, rfl⟩
  · show (Function.update s.envs s.next _ i).vars = _
    rw [update_of_ne hi]
  · show (Function.update s.envs s.next _ i).funcs = _
    rw [update_of_ne hi]
  · unfold Running at hrunning ⊢
    show (Function.update s.envs s.next _ e).flow = _ ∧ (Function.update s.envs s.next _ e).aborted = _
    by_cases he : e = s.next
    · rw [he, update_self]
      exact ⟨rfl, rfl⟩
    · rw [update_of_ne he]
      exact hrunning

theorem evalClassDef_passes (node : Node D) (name : Name) (parent : Option Name)
    (interfaces : List Name) (members : List (Node D)) (hrunning : Running e s₀) :
    Triple (fun _ => True) (fun s => s = s₀)
      (evalClassDef (onWorld K h) R node name parent interfaces members e)
      (fun _ s => (∃ nodes, nodes <+: initializers members ∧
        Passes (onWorld K h) R e s₀.store.world.nextClass s₀.next s₀ nodes s) ∨ Running e s) := by
  have hnone {s : State D} (hs : Passes (onWorld K h) R e s₀.store.world.nextClass s₀.next s₀ [] s) :
      (∃ nodes, nodes <+: initializers members ∧
        Passes (onWorld K h) R e s₀.store.world.nextClass s₀.next s₀ nodes s) ∨ Running e s :=
    .inl ⟨[], List.nil_prefix, hs⟩
  refine bind' (R := fun p s => s = s₀ ∨ p = none ∧ Passes (onWorld K h) R e
    s₀.store.world.nextClass s₀.next s₀ [] s) (parentClass_passes parent) fun p => ?_
  cases p with
  | none =>
    refine pure' _ fun s hs => hnone ?_
    obtain rfl | ⟨-, hs⟩ := hs
    · exact .start
    · exact hs
  | some p =>
    refine Triple.pre (P := fun s => s = s₀) ?_ fun s hs => ?_
    · refine (snapshot_live (K := K) (h := h) (R := R) hrunning).bind' fun closure => ?_
      refine bind' (R := fun s t => s.store = s₀.store ∧ t = s ∧
        Live (onWorld K h) R e s₀.store.world.nextClass s₀.next s₀ [] s)
        (get' fun s hs => ⟨hs.2, rfl, hs.1⟩) fun s => Triple.fact' fun hstore => ?_
      have hclass : (onWorld K h).classes.create s.store node closure p =
          (s₀.store.world.nextClass, (createClass s₀.store node p).2) := by
        rw [hstore]
        rfl
      rw [hclass]
      refine bind' (R := fun _ => Live (onWorld K h) R e s₀.store.world.nextClass s₀.next s₀ [])
        (Triple.modify' fun t ht => ?_) fun _ => ?_
      · obtain ⟨rfl, hpasses, hrun⟩ := ht
        refine ⟨hpasses.step ?_, hrun⟩
        rw [← hstore]
        exact createClass_untouched node p
      · refine bind' (R := fun _ => Live (onWorld K h) R e s₀.store.world.nextClass s₀.next s₀ [])
          ?_ fun final => ?_
        · refine bind' (R := fun _ => Live (onWorld K h) R e s₀.store.world.nextClass s₀.next s₀ [])
            (get' fun _ ht => ht) fun t => ?_
          cases p <;> exact pure' _ fun _ ht => ht
        · cases final with
          | some parentName =>
            exact (throwErr_passes _).mono (fun t ht => ht.1) fun _ t ht => hnone ht
          | none => exact completeClass_passes closure name interfaces members
    · obtain rfl | ⟨hp, -⟩ := hs
      · rfl
      · cases hp

omit [Double D] [FieldValue (Value D)] in
theorem Passes.untouched {s : State D} (hs : Passes h R e c captured s₀ [] s) :
    Untouched c captured s₀ s := by
  generalize hnodes : ([] : List (Node D)) = nodes at hs
  induction hs with
  | start => exact .refl
  | step _ hu ih => exact (ih hnodes).trans hu
  | evaluate _ _ _ => exact absurd hnodes.symm (List.append_ne_nil_of_right_ne_nil _ (by simp))

/-- **A failed class definition leaves no trace.** When the evaluation of a definition throws
or aborts, the variables, the functions, the instances and the classes are as before, but for
what the initializers did that were evaluated: a first part of those of the body, in order. -/
theorem failed_definition_leaves_no_trace (K : Reading D) (h : Host D (Store D))
    (R : Evaluators D (Store D)) (node : Node D) (name : Name) (parent : Option Name)
    (interfaces : List Name) (members : List (Node D)) (e : EnvId) {s t : State D} {v : Value D}
    (hs : Running e s)
    (hrun : evalClassDef (onWorld K h) R node name parent interfaces members e s = .ok v t)
    (ht : ¬Running e t) :
    ∃ nodes, nodes <+: initializers members ∧
      Passes (onWorld K h) R e s.store.world.nextClass s.next s nodes t ∧
      (nodes = [] → Untouched s.store.world.nextClass s.next s t) := by
  have hpasses := evalClassDef_passes (K := K) (h := h) (R := R) node name parent interfaces members
    hs s rfl
  rw [hrun] at hpasses
  obtain ⟨nodes, hprefix, hnodes⟩ | hrunning := hpasses
  · refine ⟨nodes, hprefix, hnodes, ?_⟩
    rintro rfl
    exact hnodes.untouched
  · exact absurd hrunning ht

end Definition

/-! A definition that fails after its first field. -/

section Override

instance anyFits : FieldValue (Value ℚ) := ⟨.null, fun _ => "null", fun _ _ => true⟩

/-- No operation but those of definitions. -/
def idleClasses : Classes ℚ (Store ℚ) where
  isInterface _ _ := false
  isAbstract _ _ := false
  isFinal _ _ := false
  className _ _ := ""
  prototype _ _ := none
  classOf _ _ := 0
  instanceOf _ _ _ := false
  instanceCreate _ _ := none
  findConstructor _ _ _ := none
  lookupMethod _ _ _ _ := none
  lookupMethodTyped _ _ _ _ _ := none
  getField _ _ _ := none
  getStaticField _ _ _ := none
  fieldDenied _ _ _ _ _ := none
  methodDenied _ _ _ _ := none
  setField store _ _ _ := .ok store
  setStaticField store _ _ _ := .ok store
  setStaticFieldUnchecked store _ _ _ := store
  create store _ _ _ := (0, store)
  declareField store _ _ _ := .ok store
  addMethod store _ _ _ := .ok store
  addInterface store _ _ := store
  finish store _ := .ok store

def reading : Reading ℚ := ⟨fun _ => [], fun _ => [], fun _ _ => true⟩

def host : Host ℚ (Store ℚ) :=
  onWorld reading { (Host.bare : Host ℚ Unit) with classes := idleClasses }

def ones : Evaluators ℚ (Store ℚ) :=
  ⟨fun _ _ => pure (.number 1), fun _ _ => pure (true, .number 1), fun _ _ _ => pure .null⟩

def start : State ℚ where
  envs _ := { returnValue := .null, errorValue := .null }
  next := 1
  store := { world := World.empty }

/-- `class A { static x = 1; override m() {} }` -/
def overriding : List (Node ℚ) :=
  [.fieldDecl "x" none (some (.number 1)) true .publicAccess,
    .method "m" [] (.block []) false false true false .publicAccess]

/-- The definition of `overriding`. -/
def overridingRun : EStateM.Result Unit (State ℚ) (Value ℚ) :=
  evalClassDef host ones .null "A" none [] overriding 0 start

theorem overriding_throws : ∃ v t, overridingRun = .ok v t ∧ (t.envs 0).flow = .throw :=
  ⟨_, _, rfl, rfl⟩

theorem failed_definition_leaves_no_trace_override :
    ∃ v t nodes, overridingRun = .ok v t ∧ nodes <+: [Node.number 1] ∧
      Passes host ones 0 0 1 start nodes t := by
  obtain ⟨v, t, hrun, hflow⟩ := overriding_throws
  have hthrown : ¬Running 0 t := by
    rintro ⟨hnormal, -⟩
    rw [hflow] at hnormal
    cases hnormal
  obtain ⟨nodes, hprefix, hpasses, -⟩ := failed_definition_leaves_no_trace reading
    { (Host.bare : Host ℚ Unit) with classes := idleClasses } ones .null "A" none [] overriding 0
    ⟨rfl, rfl⟩ hrun hthrown
  exact ⟨v, t, nodes, hrun, hprefix, hpasses⟩

end Override

end TurboScript.Oop.Failure
