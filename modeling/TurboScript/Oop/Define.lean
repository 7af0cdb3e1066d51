import TurboScript.Oop.Class

/- Class definitions (`eval_class_def_node`).

   A definition creates its class, links it to the parent, adds the members in order, then
   takes over the abstract methods of its interfaces and of its parent. Initial values are
   evaluated before, so that a definition is one step.
   An entry is added to the table of abstract methods unless the class has a method that
   satisfies it, and each added method removes the entries it satisfies. -/
namespace TurboScript.Oop
open Exprtk (Name ClassId InstanceId AccessLevel)

section Signatures
variable {V : Type} (w : World V)

/-- `method_resolve_declared_class`: the owner by its name, or a class of the captured
    scope. -/
def resolveDeclaredClass (m : Method) (declaredType : Name) : Option ClassId :=
  if (w.classes m.owner).name = declaredType then some m.owner else m.closure.lookup declaredType

/-- A declared type: the class it names, or the name. -/
def paramKey (m : Method) (declaredType : Name) : ClassId ⊕ Name :=
  match resolveDeclaredClass w m declaredType with
  | some c => .inl c
  | none => .inr declaredType

def paramKeys (m : Method) : Option (List (ClassId ⊕ Name)) :=
  (fullTypes m).map fun types => types.map (paramKey w m)

/-- `method_signatures_exactly_match`: a requirement that is not fully typed asks only for
    its number of parameters. -/
def signaturesMatch (requirement candidate : Method) : Bool :=
  requirement.name == candidate.name && requirement.isStatic == candidate.isStatic &&
    requirement.params.length == candidate.params.length &&
    match paramKeys w requirement with
    | none => true
    | some keys => paramKeys w candidate == some keys

/-- `method_decl_identity_key`, or the arity key of a method that is not fully typed, with
    the mark of static methods. -/
def requirementKey (m : Method) : RequirementKey :=
  ⟨m.isStatic, m.name, m.params.length, paramKeys w m⟩

/-- The keys `exprtk_class_add_method` enters a method under. -/
def methodKeys (name : Name) (m : Method) : List MethodKey :=
  match fullTypes m with
  | none => [.name name, .arity name m.params.length]
  | some types => [.name name, .types name types]

/-- `method_entry_is_for_func`. -/
def entryIsFor (entry : MethodKey × Method) : Bool :=
  (methodKeys entry.2.name entry.2).contains entry.1 || entry.1 == .arity entry.2.name entry.2.params.length

/-- `class_has_own_concrete_method_signature`. -/
def hasOwnConcrete (c : ClassId) (signature : Method) : Bool :=
  (methodTable w c signature.isStatic).any fun entry =>
    entryIsFor entry && signaturesMatch w signature entry.2

/-- `class_has_concrete_method_signature`. -/
def hasConcrete (c : ClassId) (signature : Method) : Bool :=
  (chain w c).any fun k => hasOwnConcrete w k signature

/-- `exprtk_class_lookup_method_signature`. -/
def lookupMethodSignature (c : ClassId) (signature : Method) : Option Method :=
  (chain w c).findSome? fun k =>
    ((methodTable w k signature.isStatic).find? fun entry =>
      signaturesMatch w signature entry.2).map Prod.snd

end Signatures

section Tables
variable {V : Type}

/-- `class_add_abstract_method_signature_entry`. -/
def addAbstractEntry (w : World V) (c : ClassId) (entry : RequirementKey × Method) : World V :=
  if hasOwnConcrete w c entry.2 then w
  else if (w.classes c).abstractMethods.any fun e => e.1 == entry.1 then w
  else w.updateClass c fun k => { k with abstractMethods := k.abstractMethods ++ [entry] }

/-- `exprtk_class_add_abstract_method_signature`. -/
def addAbstractMethod (w : World V) (c : ClassId) (m : Method) : World V :=
  addAbstractEntry w c (requirementKey w m, m)

/-- `class_remove_satisfied_abstract_methods`. -/
def removeSatisfied (w : World V) (c : ClassId) (m : Method) : World V :=
  w.updateClass c fun k => { k with
    abstractMethods := k.abstractMethods.filter fun e => !signaturesMatch w e.2 m }

def enterMethod (table : List (MethodKey × Method)) (m : Method) : List (MethodKey × Method) :=
  (methodKeys m.name m).foldl (fun table key => tableSet table key m) table

/-- `exprtk_class_add_method`. -/
def addMethod (w : World V) (c : ClassId) (m : Method) : World V :=
  (removeSatisfied w c m).updateClass c fun k =>
    if m.isStatic then { k with staticMethods := enterMethod k.staticMethods m }
    else { k with methods := enterMethod k.methods m }

/-- `exprtk_class_add_abstract_methods_from`: what a method of the class or of an ancestor
    satisfies is not taken over. -/
def addAbstractMethodsFrom (w : World V) (c source : ClassId) : World V :=
  (w.classes source).abstractMethods.foldl
    (fun w entry => if hasConcrete w c entry.2 then w else addAbstractEntry w c entry) w

/-- `exprtk_class_add_interface`. -/
def addInterface (w : World V) (c i : ClassId) : World V :=
  w.updateClass c fun k =>
    { k with interfaces := if k.interfaces.contains i then k.interfaces else k.interfaces ++ [i] }

/-- `exprtk_class_finalize_abstract_methods`. -/
def finalizeAbstractMethods (w : World V) (c : ClassId) : World V :=
  let inherited := match (w.classes c).prototype with
    | some p => (w.classes p).abstractMethods
    | none => []
  let w := inherited.foldl (addAbstractEntry · c ·) w
  w.updateClass c fun k => { k with isAbstract := k.isAbstract || !k.abstractMethods.isEmpty }

variable [FieldValue V]

/-- `class_append_instance_field` with `update_existing`. -/
def declareField (layout : List (FieldDecl V)) (d : FieldDecl V) : List (FieldDecl V) :=
  if layout.any fun e => e.name == d.name then layout.map fun e => if e.name == d.name then d else e
  else layout ++ [d]

/-- `exprtk_class_declare_instance_field_typed`; a default of the wrong type declares
    nothing. -/
def declareInstanceField (w : World V) (c : ClassId) (d : FieldDecl V) : World V :=
  if (d.default.bind (misfit d.declaredType)).isSome then w
  else (syncFields w c).updateClass c fun k =>
    { k with instanceFields := declareField k.instanceFields d }

/-- The static fields after a declaration; only a new entry changes the version. -/
def Class.declareStatic (k : Class V) (e : StaticField V) : Class V :=
  if k.staticFields.any fun f => f.name == e.name then
    { k with staticFields := k.staticFields.map fun f => if f.name == e.name then e else f }
  else
    { k with
      staticFields := k.staticFields ++ [e], staticFieldVersion := k.staticFieldVersion + 1 }

end Tables

/-! The definition. -/

inductive Member (V : Type)
  | field (name : Name) (declaredType : Option Name) (initial : Option V) (isStatic : Bool)
      (access : AccessLevel)
  | ctor (isAbstract : Bool)
  | method (name : Name) (params : List (Option Name)) (isStatic isAbstract isOverride isFinal : Bool)
      (access : AccessLevel) (body : Nat)

structure ClassDef (V : Type) where
  name : Name
  parent : Option Name := none
  interfaces : List Name := []
  members : List (Member V) := []
  isAbstract : Bool := false
  isInterface : Bool := false
  isFinal : Bool := false

abbrev ClassScope := List (Name × ClassId)

section Definition
variable {V : Type} [FieldValue V]

/-- A method member; `override` and `final` are checked before it is entered. -/
def defineMethod (w : World V) (c : ClassId) (m : Method) (isAbstract isOverride : Bool) :
    Except String Unit × World V :=
  let parentMethod := (w.classes c).prototype.bind fun p => lookupMethodSignature w p m
  if isOverride ∧ parentMethod.isNone then
    (.error ("Method '" ++ m.name ++ "' is marked override but no parent method matches"), w)
  else if (parentMethod.map Method.isFinal).getD false then
    (.error ("Cannot override final method '" ++ m.name ++ "'"), w)
  else if isAbstract then (.ok (), addAbstractMethod w c m)
  else (.ok (), addMethod w c m)

def defineField (w : World V) (c : ClassId) (name : Name) (declaredType : Option Name)
    (initial : Option V) (isStatic : Bool) (access : AccessLevel) :
    Except String Unit × World V :=
  if isStatic then
    let v := initial.getD FieldValue.null
    if (misfit declaredType v).isSome then
      (.error ("Invalid default value for static field '" ++ name ++ "'"), w)
    else (.ok (), w.updateClass c fun k => k.declareStatic ⟨name, v, access, c, declaredType⟩)
  else (.ok (), declareInstanceField w c ⟨name, access, c, declaredType, initial⟩)

def defineMember (closure : ClassScope) (w : World V) (c : ClassId) (member : Member V) :
    Except String Unit × World V :=
  match member with
  | .field name declaredType initial isStatic access =>
    defineField w c name declaredType initial isStatic access
  | .ctor true => (.error "Constructor cannot be abstract", w)
  | .ctor false => (.ok (), w)
  | .method name params isStatic isAbstract isOverride isFinal access body =>
    defineMethod w c ⟨name, params, isStatic, c, access, isFinal, closure, body⟩ isAbstract isOverride

def untilError {α : Type} (f : World V → α → Except String Unit × World V) :
    World V → List α → Except String Unit × World V
  | w, [] => (.ok (), w)
  | w, a :: as =>
    match f w a with
    | (.ok (), w) => untilError f w as
    | (.error msg, w) => (.error msg, w)

def defineInterface (scope : ClassScope) (c : ClassId) (w : World V) (name : Name) :
    Except String Unit × World V :=
  match scope.lookup name with
  | none => (.error ("Undefined interface '" ++ name ++ "'"), w)
  | some i =>
    if (w.classes i).isInterface then (.ok (), addAbstractMethodsFrom (addInterface w c i) c i)
    else (.error ("Class '" ++ name ++ "' is not an interface"), w)

def createClass (w : World V) (d : ClassDef V) (parent : Option ClassId) : ClassId × World V :=
  let c := w.nextClass
  let w := { w with
    classes := Function.update w.classes c
      { name := d.name, prototype := parent
        isAbstract := d.isAbstract || d.isInterface, isInterface := d.isInterface }
    nextClass := c + 1 }
  (c, syncFields w c)

def completeClass (scope : ClassScope) (w : World V) (c : ClassId) (d : ClassDef V) :
    Except String Unit × World V :=
  match untilError (fun w member => defineMember scope w c member) w d.members with
  | (.error msg, w) => (.error msg, w)
  | (.ok (), w) =>
    match untilError (defineInterface scope c) w d.interfaces with
    | (.error msg, w) => (.error msg, w)
    | (.ok (), w) =>
      let w := finalizeAbstractMethods w c
      (.ok (), w.updateClass c fun k => { k with isFinal := d.isFinal })

/-- `eval_class_def_node`: the new class, or the error. -/
def defineClass (scope : ClassScope) (w : World V) (d : ClassDef V) : Except String ClassId × World V :=
  match d.parent with
  | none =>
    let (c, w) := createClass w d none
    match completeClass scope w c d with
    | (.ok (), w) => (.ok c, w)
    | (.error msg, w) => (.error msg, w)
  | some name =>
    match scope.lookup name with
    | none => (.error ("Undefined parent class '" ++ name ++ "'"), w)
    | some p =>
      if (w.classes p).isFinal then
        (.error ("Cannot extend final class '" ++ (w.classes p).name ++ "'"),
          (createClass w d none).2)
      else
        let (c, w) := createClass w d (some p)
        match completeClass scope w c d with
        | (.ok (), w) => (.ok c, w)
        | (.error msg, w) => (.error msg, w)

end Definition

/-! A definition touches no class but its own. -/

section Frame
variable {V : Type}

/-- The static fields of a class: the version counts them, and each names the class as its
    owner. -/
structure StaticOk (c : ClassId) (k : Class V) : Prop where
  version : k.staticFieldVersion = k.staticFields.length + 1
  owner : ∀ e ∈ k.staticFields, e.owner = c

/-- Worlds that differ in one class only, which keeps its name, its kind, its prototype and
    the order of its static fields. -/
structure Touches (c : ClassId) (w w' : World V) : Prop where
  others : ∀ k, k ≠ c → w'.classes k = w.classes k
  name : (w'.classes c).name = (w.classes c).name
  kind : (w'.classes c).isInterface = (w.classes c).isInterface
  prototype : (w'.classes c).prototype = (w.classes c).prototype
  static : StaticOk c (w.classes c) → StaticOk c (w'.classes c)
  instances : w'.instances = w.instances
  nextClass : w'.nextClass = w.nextClass
  nextInstance : w'.nextInstance = w.nextInstance

namespace Touches
variable {c : ClassId} {w w' w'' : World V}

theorem refl : Touches c w w := ⟨fun _ _ => rfl, rfl, rfl, rfl, id, rfl, rfl, rfl⟩

theorem trans (h : Touches c w w') (h' : Touches c w' w'') : Touches c w w'' where
  others k hk := (h'.others k hk).trans (h.others k hk)
  name := h'.name.trans h.name
  kind := h'.kind.trans h.kind
  prototype := h'.prototype.trans h.prototype
  static hs := h'.static (h.static hs)
  instances := h'.instances.trans h.instances
  nextClass := h'.nextClass.trans h.nextClass
  nextInstance := h'.nextInstance.trans h.nextInstance

theorem names (h : Touches c w w') (k : ClassId) : (w'.classes k).name = (w.classes k).name := by
  by_cases hk : k = c
  · rw [hk]
    exact h.name
  · rw [h.others k hk]

theorem update {f : Class V → Class V} (hn : (f (w.classes c)).name = (w.classes c).name)
    (hk : (f (w.classes c)).isInterface = (w.classes c).isInterface)
    (hp : (f (w.classes c)).prototype = (w.classes c).prototype)
    (hs : StaticOk c (w.classes c) → StaticOk c (f (w.classes c))) :
    Touches c w (w.updateClass c f) where
  others k hk := by simp [World.updateClass, Function.update_of_ne hk]
  name := by simpa [World.updateClass] using hn
  kind := by simpa [World.updateClass] using hk
  prototype := by simpa [World.updateClass] using hp
  static h := by simpa [World.updateClass] using hs h
  instances := rfl
  nextClass := rfl
  nextInstance := rfl

theorem update_frame {f : Class V → Class V} (hn : (f (w.classes c)).name = (w.classes c).name)
    (hk : (f (w.classes c)).isInterface = (w.classes c).isInterface)
    (hp : (f (w.classes c)).prototype = (w.classes c).prototype)
    (hs : (f (w.classes c)).staticFields = (w.classes c).staticFields)
    (hv : (f (w.classes c)).staticFieldVersion = (w.classes c).staticFieldVersion) :
    Touches c w (w.updateClass c f) :=
  update hn hk hp fun h => ⟨by rw [hv, hs]; exact h.version, by rw [hs]; exact h.owner⟩

theorem foldl {α : Type} {f : World V → α → World V} (h : ∀ w a, Touches c w (f w a)) :
    ∀ (as : List α) (w : World V), Touches c w (as.foldl f w)
  | [], _ => refl
  | a :: as, w => (h w a).trans (foldl h as (f w a))

theorem untilError {α : Type} {f : World V → α → Except String Unit × World V}
    (h : ∀ w a, Touches c w (f w a).2) :
    ∀ (as : List α) (w : World V), Touches c w (untilError f w as).2 := by
  intro as
  induction as with
  | nil => intro w; exact refl
  | cons a as ih =>
    intro w
    have ha := h w a
    simp only [Oop.untilError]
    split
    · rename_i w' he
      rw [he] at ha
      exact ha.trans (ih w')
    · rename_i msg w' he
      rw [he] at ha
      exact ha

end Touches

variable {c : ClassId} (w : World V)

theorem syncFields_touches : Touches c w (syncFields w c) := .update_frame rfl rfl rfl rfl rfl

theorem addAbstractEntry_touches (entry : RequirementKey × Method) :
    Touches c w (addAbstractEntry w c entry) := by
  unfold addAbstractEntry
  split
  · exact .refl
  · split
    · exact .refl
    · exact .update_frame rfl rfl rfl rfl rfl

theorem addMethod_touches (m : Method) : Touches c w (addMethod w c m) := by
  refine Touches.trans (.update_frame rfl rfl rfl rfl rfl : Touches c w (removeSatisfied w c m)) ?_
  unfold addMethod
  apply Touches.update_frame <;> split <;> rfl

theorem addAbstractMethodsFrom_touches (source : ClassId) :
    Touches c w (addAbstractMethodsFrom w c source) := by
  apply Touches.foldl
  intro w entry
  split
  · exact .refl
  · exact addAbstractEntry_touches w entry

theorem finalizeAbstractMethods_touches : Touches c w (finalizeAbstractMethods w c) := by
  unfold finalizeAbstractMethods
  exact (Touches.foldl (fun w entry => addAbstractEntry_touches w entry) _ w).trans
    (.update_frame rfl rfl rfl rfl rfl)

theorem defineInterface_touches (scope : ClassScope) (name : Name) :
    Touches c w (defineInterface scope c w name).2 := by
  unfold defineInterface
  split
  · exact .refl
  · split
    · exact Touches.trans (.update_frame rfl rfl rfl rfl rfl : Touches c w (addInterface w c _))
        (addAbstractMethodsFrom_touches _ _)
    · exact .refl

theorem declareStatic_ok {k : Class V} (h : StaticOk c k) {e : StaticField V} (he : e.owner = c) :
    StaticOk c (k.declareStatic e) := by
  unfold Class.declareStatic
  split
  · refine ⟨by simpa using h.version, ?_⟩
    intro f hf
    obtain ⟨g, hg, rfl⟩ := List.mem_map.mp hf
    split
    · exact he
    · exact h.owner g hg
  · refine ⟨by simp [h.version], ?_⟩
    intro f hf
    obtain hf | hf := List.mem_append.mp hf
    · exact h.owner f hf
    · rw [List.mem_singleton.mp hf]
      exact he

theorem defineMethod_touches (m : Method) (isAbstract isOverride : Bool) :
    Touches c w (defineMethod w c m isAbstract isOverride).2 := by
  unfold defineMethod
  dsimp only
  split
  · exact .refl
  · split
    · exact .refl
    · split
      · exact addAbstractEntry_touches w _
      · exact addMethod_touches w m

variable [FieldValue V]

theorem defineField_touches (name : Name) (declaredType : Option Name) (initial : Option V)
    (isStatic : Bool) (access : AccessLevel) :
    Touches c w (defineField w c name declaredType initial isStatic access).2 := by
  unfold defineField
  dsimp only
  split
  · split
    · exact .refl
    · dsimp only
      apply Touches.update
      · unfold Class.declareStatic
        split <;> rfl
      · unfold Class.declareStatic
        split <;> rfl
      · unfold Class.declareStatic
        split <;> rfl
      · exact fun h => declareStatic_ok h rfl
  · show Touches c w (declareInstanceField w c _)
    unfold declareInstanceField
    split
    · exact .refl
    · exact (syncFields_touches w).trans (.update_frame rfl rfl rfl rfl rfl)

theorem defineMember_touches (closure : ClassScope) (member : Member V) :
    Touches c w (defineMember closure w c member).2 := by
  cases member with
  | field name declaredType initial isStatic access => exact defineField_touches w ..
  | ctor isAbstract => cases isAbstract <;> exact .refl
  | method name params isStatic isAbstract isOverride isFinal access body =>
    exact defineMethod_touches w ..

theorem completeClass_touches (scope : ClassScope) (d : ClassDef V) :
    Touches c w (completeClass scope w c d).2 := by
  unfold completeClass
  have hm : Touches c w (untilError (fun w member => defineMember scope w c member) w d.members).2 :=
    Touches.untilError (fun w member => defineMember_touches w scope member) d.members w
  split
  · rename_i w' he
    rwa [he] at hm
  · rename_i w' he
    rw [he] at hm
    have hi : Touches c w' (untilError (defineInterface scope c) w' d.interfaces).2 :=
      Touches.untilError (fun w name => defineInterface_touches w scope name) d.interfaces w'
    split
    · rename_i w'' he'
      rw [he'] at hi
      exact hm.trans hi
    · rename_i w'' he'
      rw [he'] at hi
      have hf := finalizeAbstractMethods_touches (c := c) w''
      dsimp only
      exact (hm.trans hi).trans (hf.trans (.update_frame rfl rfl rfl rfl rfl))

/-- A definition leaves the world alone, or makes a class whose parent is one of the scope,
    and completes it unless its parent is final. -/
theorem defineClass_world (scope : ClassScope) (d : ClassDef V) : (defineClass scope w d).2 = w ∨
      ∃ parent, (∀ p, parent = some p → ∃ name, scope.lookup name = some p) ∧
        ((defineClass scope w d).2 = (createClass w d parent).2 ∨ (defineClass scope w d).2 =
            (completeClass scope (createClass w d parent).2 (createClass w d parent).1 d).2) := by
  unfold defineClass
  split
  · refine .inr ⟨none, by simp, .inr ?_⟩
    dsimp only
    split
    · rename_i he
      rw [he]
    · rename_i he
      rw [he]
  · split
    · exact .inl rfl
    · rename_i p hp
      split
      · exact .inr ⟨none, by simp, .inl rfl⟩
      · refine .inr ⟨some p, fun q hq => ⟨_, hq ▸ hp⟩, .inr ?_⟩
        dsimp only
        split
        · rename_i he
          rw [he]
        · rename_i he
          rw [he]

theorem defineClass_touches (scope : ClassScope) (d : ClassDef V) : (defineClass scope w d).2 = w ∨
      ∃ parent, (∀ p, parent = some p → ∃ name, scope.lookup name = some p) ∧
        Touches w.nextClass (createClass w d parent).2 (defineClass scope w d).2 := by
  obtain hw | ⟨parent, hp, hw | hw⟩ := @defineClass_world V w _ scope d
  · exact .inl hw
  · rw [hw]
    exact .inr ⟨parent, hp, .refl⟩
  · rw [hw]
    exact .inr ⟨parent, hp, completeClass_touches _ scope d⟩

end Frame

end TurboScript.Oop
