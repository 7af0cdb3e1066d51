import TurboScript.Oop.Abstract
import TurboScript.Oop.FieldTypes

/- What class bodies declare, and what their definitions record
   (`exprtk_class_declare_instance_field_typed`, `exprtk_class_declare_static_field_typed`).

   What a field of a class is declared as is read off the class bodies: the nearest body on
   the chain that declares the name, and there its last declaration. The layout of a class
   records a type too, and the writes look only there. -/
namespace TurboScript.Oop.Typed
open Exprtk (Name ClassId InstanceId AccessLevel)
open Lib

/-! Declarations and runs. -/

section Declarations
variable {V : Type}

/-- What a member declares the field as: the declared type, or none for an untyped field. -/
def declares (isStatic : Bool) (name : Name) : Member V → Option (Option Name)
  | .field n t _ s _ => if n = name ∧ s = isStatic then some t else none
  | _ => none

/-- What a class body declares the field as; the last declaration counts. -/
def declaredIn (isStatic : Bool) (name : Name) : List (Member V) → Option (Option Name)
  | [] => none
  | m :: ms => (declaredIn isStatic name ms).or (declares isStatic name m)

/-- The world, the bodies of the classes, and the classes whose definitions have succeeded. -/
structure State (V : Type) where
  world : World V
  bodies : ClassId → List (Member V)
  defined : List ClassId

def State.init : State V := ⟨World.empty, fun _ => [], []⟩

/-- The declared type of a field of a class: the nearest body that declares it decides. -/
def State.fieldType (s : State V) (isStatic : Bool) (c : ClassId) (name : Name) : Option Name :=
  ((chain s.world c).findSome? fun k => declaredIn isStatic name (s.bodies k)).join

/-- The type a layout records for a name, if it has the name. -/
def layoutType (layout : List (FieldDecl V)) (name : Name) : Option (Option Name) :=
  (layout.find? fun d => d.name == name).map FieldDecl.declaredType

/-- What a subclass takes over, in this order: the first entry of a name stays. -/
def importedFields (w : World V) (p : ClassId) : List (FieldDecl V) :=
  (chain w p).reverse.flatMap fun k => (w.classes k).instanceFields

inductive Op (V : Type)
  | define (scope : ClassScope) (d : ClassDef V)
  | create (c : ClassId)
  | setField (i : InstanceId) (name : Name) (v : V)
  | setFieldChecked (i : InstanceId) (name : Name) (v : V)
  | setStaticField (c : ClassId) (name : Name) (v : V)
  | setStaticFieldChecked (c : ClassId) (name : Name) (v : V)

variable [FieldValue V]

/-- A program holds the classes whose definitions have succeeded, and the instances. -/
def Op.admissible (s : State V) : Op V → Bool
  | .define scope _ => scope.all fun p => s.defined.contains p.2
  | .create c | .setStaticField c _ _ | .setStaticFieldChecked c _ _ => s.defined.contains c
  | .setField i _ _ | .setFieldChecked i _ _ => i < s.world.nextInstance

def perform (s : State V) : Op V → State V
  | .define scope d =>
    match defineClass scope s.world d with
    | (.ok c, w) => ⟨w, Function.update s.bodies c d.members, c :: s.defined⟩
    | (.error _, w) => { s with world := w }
  | .create c => { s with world := (createInstance s.world c).2 }
  | .setField i name v => { s with world := Oop.setField s.world i name v }
  | .setFieldChecked i name v => { s with world := (Oop.setFieldChecked s.world i name v).2 }
  | .setStaticField c name v => { s with world := Oop.setStaticField s.world c name v }
  | .setStaticFieldChecked c name v =>
    { s with world := (Oop.setStaticFieldChecked s.world c name v).2 }

def step (s : State V) (op : Op V) : Option (State V × Unit) :=
  if op.admissible s then some (perform s op, ()) else none

/-- A definition that records what it says: the initial value of each typed instance field
    fits, and of what the body does not declare, a typed field of the parent is taken over with
    the type that it has in the parent. -/
structure Recorded (s : State V) (scope : ClassScope) (d : ClassDef V) : Prop where
  initial : ∀ name t v access, Member.field name (some t) (some v) false access ∈ d.members →
    FieldValue.fits v t = true
  inherited : ∀ p, (d.parent.bind fun n => scope.lookup n) = some p → ∀ name T,
    declaredIn false name d.members = none → s.fieldType false p name = some T →
      layoutType (importedFields s.world p) name = some (some T)

def RecordedRun : State V → List (Op V) → Prop
  | _, [] => True
  | s, op :: ops =>
    (∀ scope d, op = .define scope d → Recorded s scope d) ∧ RecordedRun (perform s op) ops

/-- Declared types are enforced: a typed field holds a value that fits, and a write of a value
    that fits is read back. Null fits every type. -/
structure Enforced (s : State V) : Prop where
  holds : ∀ i < s.world.nextInstance, ∀ name T,
    s.fieldType false (s.world.instances i).klass name = some T →
      ∃ v, getField s.world i name = some v ∧ FieldValue.fits v T = true
  holdsStatic : ∀ c ∈ s.defined, ∀ name T, s.fieldType true c name = some T →
    ∃ v, getStaticField s.world c name = some v ∧ FieldValue.fits v T = true
  write : ∀ i < s.world.nextInstance, ∀ name T v,
    s.fieldType false (s.world.instances i).klass name = some T → FieldValue.fits v T = true →
      (setFieldChecked s.world i name v).1 = .ok () ∧
        getField (setFieldChecked s.world i name v).2 i name = some v ∧
        getField (setField s.world i name v) i name = some v
  writeStatic : ∀ c ∈ s.defined, ∀ name T v, s.fieldType true c name = some T →
    FieldValue.fits v T = true → (setStaticFieldChecked s.world c name v).1 = .ok () ∧
        getStaticField (setStaticFieldChecked s.world c name v).2 c name = some v ∧
        getStaticField (setStaticField s.world c name v) c name = some v

end Declarations
/-! Layouts. -/

section Layouts
variable {V : Type}

theorem name_of_find {layout : List (FieldDecl V)} {name : Name} {d : FieldDecl V}
    (h : (layout.find? fun d => d.name == name) = some d) : d.name = name := by
  simpa using List.find?_some h

theorem find_foldl_appendField (name : Name) : ∀ (ds layout : List (FieldDecl V)),
    (ds.foldl appendField layout).find? (fun d => d.name == name) =
      (layout.find? fun d => d.name == name).or (ds.find? fun d => d.name == name)
  | [], layout => by simp
  | d :: ds, layout => by
    rw [List.foldl_cons, find_foldl_appendField name ds]
    unfold appendField
    by_cases hany : (layout.any fun e => e.name == d.name) = true
    · rw [if_pos hany]
      rw [List.find?_cons]
      cases hn : d.name == name with
      | false => rfl
      | true =>
        -- the layout has the name
        obtain ⟨e, he, hen⟩ := List.any_eq_true.mp hany
        have hsome : (layout.find? fun d => d.name == name).isSome = true := by
          rw [List.find?_isSome]
          exact ⟨e, he, by rw [eq_of_beq hen]; exact hn⟩
        obtain ⟨e', he'⟩ := Option.isSome_iff_exists.mp hsome
        rw [he']
        rfl
    · rw [if_neg hany, List.find?_append, Option.or_assoc]
      congr 1
      rw [List.find?_cons, List.find?_cons]
      cases d.name == name <;> rfl

theorem find_replace {α : Type} (key : α → Name) (table : List α) (e : α) (name : Name) :
    (if (table.any fun f => key f == key e) = true then
        table.map fun f => if key f == key e then e else f
      else table ++ [e]).find? (fun f => key f == name) =
      if key e = name then some e else table.find? fun f => key f == name := by
  have hname {f : α} (h : (table.find? fun f => key f == name) = some f) : key f = name := by
    simpa using List.find?_some h
  split
  · rename_i hany
    have hcomp : ((fun f => key f == name) ∘ fun f => if key f == key e then e else f) =
        fun f => key f == name := by
      funext f
      dsimp only [Function.comp]
      split
      · rename_i hf
        rw [eq_of_beq hf]
      · rfl
    rw [List.find?_map, hcomp]
    split
    · rename_i hn
      obtain ⟨f, hf, hfe⟩ := List.any_eq_true.mp hany
      have hsome : (table.find? fun f => key f == name).isSome = true := by
        rw [List.find?_isSome]
        exact ⟨f, hf, by rw [← hn]; exact hfe⟩
      obtain ⟨f', hf'⟩ := Option.isSome_iff_exists.mp hsome
      rw [hf', Option.map_some, if_pos (by rw [hname hf', hn, beq_self_eq_true])]
    · rename_i hn
      cases hf : table.find? fun f => key f == name with
      | none => rfl
      | some f =>
        have hne : ¬(key f == key e) = true := by
          rw [hname hf, beq_iff_eq]
          exact fun h => hn h.symm
        rw [Option.map_some, if_neg hne]
  · rename_i hany
    rw [List.find?_append]
    split
    · rename_i hn
      have hnone : (table.find? fun f => key f == name) = none := by
        rw [List.find?_eq_none]
        exact fun f hf h => hany (List.any_eq_true.mpr ⟨f, hf, by rw [hn]; exact h⟩)
      rw [hnone]
      simp [hn]
    · rename_i hn
      simp [hn]

theorem find_declareField (layout : List (FieldDecl V)) (d : FieldDecl V) (name : Name) :
    (declareField layout d).find? (fun e => e.name == name) =
      if d.name = name then some d else layout.find? fun e => e.name == name :=
  find_replace FieldDecl.name layout d name

theorem find_declareStatic (k : Class V) (e : StaticField V) (name : Name) :
    (k.declareStatic e).staticFields.find? (fun f => f.name == name) =
      if e.name = name then some e else k.staticFields.find? fun f => f.name == name := by
  rw [← find_replace StaticField.name]
  unfold Class.declareStatic
  split <;> rfl

theorem layoutType_declareField (layout : List (FieldDecl V)) (d : FieldDecl V) (name : Name) :
    layoutType (declareField layout d) name =
      if d.name = name then some d.declaredType else layoutType layout name := by
  unfold layoutType
  rw [find_declareField]
  split <;> rfl

theorem layoutType_mono {layout layout' : List (FieldDecl V)} (h : layout <+: layout') {name : Name}
    {t : Option Name} (ht : layoutType layout name = some t) :
    layoutType layout' name = some t := by
  obtain ⟨d, hd, rfl⟩ := Option.map_eq_some_iff.mp ht
  exact Option.map_eq_some_iff.mpr ⟨d, h.find?_eq_some hd, rfl⟩

theorem fieldDecl_of_layoutType {k : Class V} {name : Name} {t : Option Name}
    (h : layoutType k.instanceFields name = some t) :
    ∃ d ∈ k.instanceFields, d.name = name ∧ fieldDecl k name = some d ∧ d.declaredType = t := by
  obtain ⟨d, hd, ht⟩ := Option.map_eq_some_iff.mp h
  exact ⟨d, List.mem_of_find?_eq_some hd, name_of_find hd, hd, ht⟩

end Layouts

/-! What a definition records. -/

section Records
variable {V : Type}

/-- Worlds whose classes have the same fields, static and of instances, and prototypes. -/
structure SameFields (w w' : World V) : Prop where
  layout : ∀ k, (w'.classes k).instanceFields = (w.classes k).instanceFields
  static : ∀ k, (w'.classes k).staticFields = (w.classes k).staticFields

namespace SameFields
variable {c : ClassId} {w w' w'' : World V}

theorem refl : SameFields w w := ⟨fun _ => rfl, fun _ => rfl⟩

theorem trans (h : SameFields w w') (h' : SameFields w' w'') : SameFields w w'' :=
  ⟨fun k => (h'.layout k).trans (h.layout k), fun k => (h'.static k).trans (h.static k)⟩

theorem update {f : Class V → Class V}
    (hl : (f (w.classes c)).instanceFields = (w.classes c).instanceFields)
    (hs : (f (w.classes c)).staticFields = (w.classes c).staticFields) :
    SameFields w (w.updateClass c f) := by
  constructor <;> intro k <;> by_cases hk : k = c
  · rw [hk, updateClass_self, hl]
  · rw [updateClass_of_ne w hk]
  · rw [hk, updateClass_self, hs]
  · rw [updateClass_of_ne w hk]

theorem foldl {α : Type} {f : World V → α → World V} (h : ∀ w a, SameFields w (f w a)) :
    ∀ (as : List α) (w : World V), SameFields w (as.foldl f w)
  | [], _ => refl
  | a :: as, w => (h w a).trans (foldl h as (f w a))

theorem addAbstractEntry (w : World V) (c : ClassId) (entry : RequirementKey × Method) :
    SameFields w (addAbstractEntry w c entry) := by
  unfold Oop.addAbstractEntry
  split
  · exact refl
  · split
    · exact refl
    · exact update rfl rfl

theorem addMethod (w : World V) (c : ClassId) (m : Method) : SameFields w (addMethod w c m) := by
  refine (update rfl rfl : SameFields w (removeSatisfied w c m)).trans ?_
  unfold Oop.addMethod
  apply update <;> split <;> rfl

theorem defineMethod (w : World V) (c : ClassId) (m : Method) (isAbstract isOverride : Bool) :
    SameFields w (defineMethod w c m isAbstract isOverride).2 := by
  unfold Oop.defineMethod
  dsimp only
  split
  · exact refl
  · split
    · exact refl
    · split
      · exact addAbstractEntry w c _
      · exact addMethod w c m

theorem defineInterface (scope : ClassScope) (c : ClassId) (w : World V) (name : Name) :
    SameFields w (defineInterface scope c w name).2 := by
  unfold Oop.defineInterface
  split
  · exact refl
  · rename_i i _
    split
    · have hadd : SameFields w (addInterface w c i) := update rfl rfl
      apply hadd.trans
      apply foldl
      intro w entry
      split
      · exact refl
      · exact addAbstractEntry w c entry
    · exact refl

theorem finalizeAbstractMethods (w : World V) (c : ClassId) :
    SameFields w (finalizeAbstractMethods w c) := by
  unfold Oop.finalizeAbstractMethods
  exact (foldl (fun w entry => addAbstractEntry w c entry) _ w).trans (update rfl rfl)

end SameFields

theorem untilError_keeps {α : Type} {P : World V → Prop}
    {f : World V → α → Except String Unit × World V} (h : ∀ w a, P w → P (f w a).2) :
    ∀ (as : List α) {w : World V}, P w → P (untilError f w as).2 := by
  intro as
  induction as with
  | nil => exact fun hw => hw
  | cons a as ih =>
    intro w hw
    have ha := h w a hw
    simp only [untilError]
    split
    · rename_i w' he
      rw [he] at ha
      exact ih ha
    · rename_i msg w' he
      rw [he] at ha
      exact ha

theorem untilError_cons {α : Type} {f : World V → α → Except String Unit × World V} {a : α}
    {as : List α} {w w' : World V} (h : untilError f w (a :: as) = (.ok (), w')) :
    ∃ w₁, f w a = (.ok (), w₁) ∧ untilError f w₁ as = (.ok (), w') := by
  simp only [untilError] at h
  split at h
  · rename_i w₁ he
    exact ⟨w₁, he, h⟩
  · cases h

/-- The type that the entry of the class itself records for a static field. -/
def ownStaticType (k : Class V) (name : Name) : Option (Option Name) :=
  (k.staticFields.find? fun e => e.name == name).map StaticField.declaredType

end Records

/-! The members of a definition, one by one. -/

section Members
variable {V : Type} [FieldValue V] {w w' : World V} {c : ClassId} {scope : ClassScope}
open FieldValue

theorem declareInstanceField_layout {d : FieldDecl V}
    (hfit : (d.default.bind (misfit d.declaredType)).isSome = false) {name : Name} {t : Option Name}
    (ht : (if d.name = name then some d.declaredType
      else layoutType (w.classes c).instanceFields name) = some t) :
    layoutType ((declareInstanceField w c d).classes c).instanceFields name = some t := by
  unfold declareInstanceField
  rw [hfit]
  rw [if_neg Bool.false_ne_true, updateClass_self]
  dsimp only
  rw [layoutType_declareField]
  by_cases hn : d.name = name
  · rw [if_pos hn] at ht ⊢
    exact ht
  · rw [if_neg hn] at ht ⊢
    exact layoutType_mono (syncFields_classKept w c c).layout ht

theorem defineMember_layout {m : Member V} (h : defineMember scope w c m = (.ok (), w'))
    (hinit : ∀ n t v access, m = .field n (some t) (some v) false access → fits v t = true)
    {name : Name} {t : Option Name}
    (ht : (declares false name m).or (layoutType (w.classes c).instanceFields name) = some t) :
    layoutType (w'.classes c).instanceFields name = some t := by
  cases m with
  | field n declaredType initial isStatic access =>
    cases isStatic with
    | true =>
      simp only [defineMember, defineField, if_true] at h
      split at h
      · cases h
      · cases h
        simp only [declares, Bool.true_eq_false, and_false, if_false, Option.none_or] at ht
        rw [updateClass_self]
        unfold Class.declareStatic
        split <;> exact ht
    | false =>
      cases h
      apply declareInstanceField_layout
      · -- the initial value of a typed field fits
        cases declaredType with
        | none => cases initial <;> rfl
        | some T =>
          cases initial with
          | none => rfl
          | some v =>
            have hv := hinit n T v access rfl
            simp [misfit, hv]
      · by_cases hn : n = name
        · simpa [declares, hn] using ht
        · simpa [declares, hn] using ht
  | ctor isAbstract =>
    cases isAbstract with
    | true => cases h
    | false =>
      cases h
      exact ht
  | method n params isStatic isAbstract isOverride isFinal access body =>
    have hsame := SameFields.defineMethod w c
      ⟨n, params, isStatic, c, access, isFinal, scope, body⟩ isAbstract isOverride
    simp only [defineMember] at h
    rw [h] at hsame
    rw [hsame.layout c]
    exact ht

theorem members_layout {name : Name} {t : Option Name} : ∀ (ms : List (Member V)) {w : World V},
    untilError (fun w m => defineMember scope w c m) w ms = (.ok (), w') →
      (∀ n t v access, Member.field n (some t) (some v) false access ∈ ms → fits v t = true) →
      (declaredIn false name ms).or (layoutType (w.classes c).instanceFields name) = some t →
      layoutType (w'.classes c).instanceFields name = some t := by
  intro ms
  induction ms with
  | nil =>
    intro w h _ ht
    cases h
    exact ht
  | cons m ms ih =>
    intro w h hinit ht
    obtain ⟨w₁, hm, hms⟩ := untilError_cons h
    apply ih hms fun n t v access hmem => hinit n t v access (List.mem_cons_of_mem _ hmem)
    simp only [declaredIn] at ht
    cases hd : declaredIn false name ms with
    | some t' =>
      rw [hd] at ht
      exact ht
    | none =>
      rw [hd, Option.none_or] at ht
      rw [Option.none_or]
      apply defineMember_layout hm _ ht
      intro n t v access he
      exact hinit n t v access (he ▸ List.mem_cons_self)

theorem defineMember_static {m : Member V} (h : defineMember scope w c m = (.ok (), w')) (name : Name) :
    ownStaticType (w'.classes c) name = (declares true name m).or (ownStaticType (w.classes c) name) := by
  cases m with
  | field n declaredType initial isStatic access =>
    cases isStatic with
    | true =>
      simp only [defineMember, defineField, if_true] at h
      split at h
      · cases h
      · cases h
        rw [updateClass_self]
        unfold ownStaticType
        rw [find_declareStatic]
        by_cases hn : n = name <;> simp [declares, hn]
    | false =>
      cases h
      show ownStaticType ((declareInstanceField w c _).classes c) name = _
      unfold declareInstanceField
      split
      · simp [declares]
      · simp [declares, ownStaticType, syncFields]
  | ctor isAbstract =>
    cases isAbstract with
    | true => cases h
    | false =>
      cases h
      rfl
  | method n params isStatic isAbstract isOverride isFinal access body =>
    have hsame := SameFields.defineMethod w c
      ⟨n, params, isStatic, c, access, isFinal, scope, body⟩ isAbstract isOverride
    simp only [defineMember] at h
    rw [h] at hsame
    unfold ownStaticType
    rw [hsame.static c]
    rfl

theorem members_static {name : Name} : ∀ (ms : List (Member V)) {w : World V},
    untilError (fun w m => defineMember scope w c m) w ms = (.ok (), w') →
      ownStaticType (w'.classes c) name =
        (declaredIn true name ms).or (ownStaticType (w.classes c) name) := by
  intro ms
  induction ms with
  | nil =>
    intro w h
    cases h
    rfl
  | cons m ms ih =>
    intro w h
    obtain ⟨w₁, hm, hms⟩ := untilError_cons h
    rw [ih hms, defineMember_static hm, declaredIn, Option.or_assoc]

theorem completeClass_fields {d : ClassDef V} (h : completeClass scope w c d = (.ok (), w')) :
    ∃ w₁, untilError (fun w m => defineMember scope w c m) w d.members = (.ok (), w₁) ∧
      SameFields w₁ w' := by
  obtain ⟨w₁, w₂, hmembers, hinterfaces, rfl⟩ := completeClass_ok h
  refine ⟨w₁, hmembers, ?_⟩
  have hsame : SameFields w₁ w₂ := by
    have := @untilError_keeps V Name (SameFields w₁) (defineInterface scope c)
      (fun w name hw => hw.trans (.defineInterface scope c w name)) d.interfaces w₁ .refl
    rwa [hinterfaces] at this
  exact (hsame.trans (.finalizeAbstractMethods w₂ c)).trans (.update rfl rfl)

end Members

end TurboScript.Oop.Typed
