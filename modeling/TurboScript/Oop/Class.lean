import TurboScript.Exprtk.Value

/- Classes and instances (`exprtk_class_t`, `exprtk_instance_t`).

   Both live in arenas that outlast every variable naming them, so a class or an instance
   is its number, and a number is never given out twice. A class keeps its prototype, its
   method tables, its static fields and the layout of its instance fields; an instance has
   one slot for each position of the layout of its class. A class takes
   over the instance fields of its ancestors each time its layout is consulted. Allocations
   succeed. -/
namespace TurboScript.Oop
open Exprtk (Name ClassId InstanceId AccessLevel)

/-- What the class runtime asks of the values it stores. -/
class FieldValue (V : Type) where
  null : V
  /-- `value_signature_type`. -/
  signatureType : V → Name
  /-- `instance_value_matches_field_type`; the class names of a value never change. -/
  fits : V → Name → Bool

/-- A key of a method table: the name, the name with a number of parameters, or the name
    with the declared types of all of them. -/
inductive MethodKey
  | name (n : Name)
  | arity (n : Name) (argc : Nat)
  | types (n : Name) (types : List Name)
  deriving DecidableEq, Repr

/-- A method. A parameter has a declared type or none; `closure` lists the classes that the
    variables of the captured scope hold, and `body` stands for the code. -/
structure Method where
  name : Name
  params : List (Option Name) := []
  isStatic : Bool := false
  owner : ClassId
  access : AccessLevel := .publicAccess
  isFinal : Bool := false
  closure : List (Name × ClassId) := []
  body : Nat := 0
  deriving DecidableEq, Repr

/-- A key of the table of abstract methods. A parameter is a class, or the name of a type
    that no class was found for; a method that is not fully typed has only its arity. -/
structure RequirementKey where
  isStatic : Bool
  name : Name
  argc : Nat
  params : Option (List (ClassId ⊕ Name))
  deriving DecidableEq

structure FieldDecl (V : Type) where
  name : Name
  access : AccessLevel
  owner : ClassId
  declaredType : Option Name := none
  default : Option V := none

structure StaticField (V : Type) where
  name : Name
  value : V
  access : AccessLevel
  owner : ClassId
  declaredType : Option Name := none

structure Class (V : Type) where
  name : Name
  prototype : Option ClassId := none
  methods : List (MethodKey × Method) := []
  staticMethods : List (MethodKey × Method) := []
  abstractMethods : List (RequirementKey × Method) := []
  staticFields : List (StaticField V) := []
  staticFieldVersion : Nat := 1
  instanceFields : List (FieldDecl V) := []
  interfaces : List ClassId := []
  isAbstract : Bool := false
  isInterface : Bool := false
  isFinal : Bool := false

/-- `slots i` is the value of the slot at position `i` of the layout, if it is used. The
    table `fields` holds the same values by name. -/
structure Instance (V : Type) where
  klass : ClassId
  slots : Nat → Option V := fun _ => none
  slotCapacity : Nat := 0
  fields : List (Name × V) := []
  fieldVersion : Nat := 1

structure World (V : Type) where
  classes : ClassId → Class V
  nextClass : ClassId
  instances : InstanceId → Instance V
  nextInstance : InstanceId

section Worlds
variable {V : Type}

def World.updateClass (w : World V) (c : ClassId) (f : Class V → Class V) : World V :=
  { w with classes := Function.update w.classes c (f (w.classes c)) }

def World.updateInstance (w : World V) (i : InstanceId) (f : Instance V → Instance V) : World V :=
  { w with instances := Function.update w.instances i (f (w.instances i)) }

def World.empty : World V where
  classes _ := { name := "" }
  nextClass := 0
  instances _ := { klass := 0 }
  nextInstance := 0

/-! The prototype chain. A parent is defined before its subclasses, so the walk from `c`
    meets at most `c + 1` classes. -/

def chainFrom (classes : ClassId → Class V) : Nat → ClassId → List ClassId
  | 0, _ => []
  | n + 1, c => c :: match (classes c).prototype with
    | none => []
    | some p => chainFrom classes n p

def chain (w : World V) (c : ClassId) : List ClassId := chainFrom w.classes (c + 1) c

/-- `exprtk_class_get_static_field_slot`: the class that has the entry, and the entry. -/
def staticFieldSlot (w : World V) (c : ClassId) (name : Name) : Option (ClassId × StaticField V) :=
  (chain w c).findSome? fun k =>
    ((w.classes k).staticFields.find? fun e => e.name == name).map fun e => (k, e)

/-- `exprtk_class_get_static_field`. -/
def getStaticField (w : World V) (c : ClassId) (name : Name) : Option V :=
  (staticFieldSlot w c name).map fun p => p.2.value

/-- `exprtk_class_get_static_field_access`; a field that is not found is public and has no
    owner. -/
def getStaticFieldAccess (w : World V) (c : ClassId) (name : Name) : Option ClassId × AccessLevel :=
  match staticFieldSlot w c name with
  | some (_, e) => (some e.owner, e.access)
  | none => (none, .publicAccess)

/-- `exprtk_class_get_static_field_type`. -/
def getStaticFieldType (w : World V) (c : ClassId) (name : Name) : Option Name :=
  (staticFieldSlot w c name).bind fun p => p.2.declaredType

def methodTable (w : World V) (k : ClassId) (isStatic : Bool) : List (MethodKey × Method) :=
  if isStatic then (w.classes k).staticMethods else (w.classes k).methods

/-- `exprtk_class_lookup_method`. -/
def lookupMethod (w : World V) (c : ClassId) (name : Name) (isStatic : Bool) : Option Method :=
  (chain w c).findSome? fun k => (methodTable w k isStatic).lookup (.name name)

/-- The declared types of a method all of whose parameters have one
    (`method_has_full_type_signature`); a method without parameters has no such signature. -/
def fullTypes (m : Method) : Option (List Name) :=
  if m.params.isEmpty then none else m.params.mapM id

/-- `method_call_type_key`: without arguments it is the key of the arity. -/
def callTypeKey (name : Name) (types : List Name) : MethodKey :=
  if types.isEmpty then .arity name 0 else .types name types

/-- `method_match_type_score`; `scores` gives the score of each argument against a declared
    type of a method (`value_matches_declared_type`). -/
def matchTypeScore (m : Method) (name : Name) (scores : List (Method → Name → Nat)) : Nat :=
  match fullTypes m with
  | none => 0
  | some types =>
    if m.name ≠ name ∨ types.length ≠ scores.length then 0
    else
      let parts := (scores.zip types).map fun p => p.1 m p.2
      if parts.any (· == 0) then 0 else parts.sum

/-- `method_table_find_typed_match`: the first entry with the highest score. -/
def findTypedMatch (table : List (MethodKey × Method)) (name : Name)
    (scores : List (Method → Name → Nat)) : Option Method :=
  (table.foldl (fun (best : Option Method × Nat) entry =>
    let score := matchTypeScore entry.2 name scores
    if best.2 < score then (some entry.2, score) else best) (none, 0)).1

/-- The part of `exprtk_class_lookup_method_typed` that stays in one class. -/
def ownMethodTyped (table : List (MethodKey × Method)) (name : Name) (types : List Name)
    (scores : List (Method → Name → Nat)) : Option Method :=
  (table.lookup (callTypeKey name types)).or <|
    (findTypedMatch table name scores).or <| table.lookup (.arity name types.length)

/-- `exprtk_class_lookup_method_typed`. -/
def lookupMethodTyped (w : World V) (c : ClassId) (name : Name) (isStatic : Bool)
    (types : List Name) (scores : List (Method → Name → Nat)) : Option Method :=
  (chain w c).findSome? fun k => ownMethodTyped (methodTable w k isStatic) name types scores

/-! The layout of instance fields. -/

/-- `class_append_instance_field` without `update_existing`. -/
def appendField (layout : List (FieldDecl V)) (d : FieldDecl V) : List (FieldDecl V) :=
  if layout.any fun e => e.name == d.name then layout else layout ++ [d]

def inheritedFields (w : World V) (c : ClassId) : List (FieldDecl V) :=
  (chain w c).tail.reverse.flatMap fun k => (w.classes k).instanceFields

/-- `class_sync_prototype_instance_fields`. -/
def syncFields (w : World V) (c : ClassId) : World V :=
  w.updateClass c fun k => { k with
    instanceFields := (inheritedFields w c).foldl appendField k.instanceFields }

/-- `class_find_instance_field_index`. -/
def fieldIndex (k : Class V) (name : Name) : Option Nat :=
  k.instanceFields.findIdx? fun d => d.name == name

def fieldDecl (k : Class V) (name : Name) : Option (FieldDecl V) :=
  k.instanceFields.find? fun d => d.name == name

def layoutAccess (k : Class V) (name : Name) : Option ClassId × AccessLevel :=
  match fieldDecl k name with
  | some d => (some d.owner, d.access)
  | none => (none, .publicAccess)

/-- `exprtk_class_get_instance_field_access`, which brings the layout up to date first. -/
def getInstanceFieldAccess (w : World V) (c : ClassId) (name : Name) :
    (Option ClassId × AccessLevel) × World V :=
  let w := syncFields w c
  (layoutAccess (w.classes c) name, w)

/-! Reads and writes. -/

/-- `exprtk_instance_get_field`: the slot if it is used, else the table. -/
def getField (w : World V) (i : InstanceId) (name : Name) : Option V :=
  let inst := w.instances i
  ((fieldIndex (w.classes inst.klass) name).bind inst.slots).or (inst.fields.lookup name)

def growCapacity : Nat → Nat → Nat → Nat
  | 0, capacity, _ => capacity
  | n + 1, capacity, needed =>
    if capacity < needed then growCapacity n (capacity * 2) needed else capacity

/-- `instance_ensure_slot_capacity`. -/
def ensureCapacity (capacity needed : Nat) : Nat :=
  if needed ≤ capacity then capacity
  else growCapacity needed (if capacity = 0 then 8 else capacity) needed

def tableSet {α : Type} [BEq α] {β : Type} (table : List (α × β)) (key : α) (v : β) : List (α × β) :=
  if table.any fun p => p.1 == key then table.map fun p => if p.1 == key then (key, v) else p
  else table ++ [(key, v)]

def Instance.store (inst : Instance V) (index : Nat) (name : Name) (v : V) : Instance V :=
  { inst with
    slots := Function.update inst.slots index (some v)
    slotCapacity := ensureCapacity inst.slotCapacity (index + 1)
    fields := tableSet inst.fields name v
    fieldVersion := if (inst.slots index).isSome then inst.fieldVersion else inst.fieldVersion + 1 }

variable [FieldValue V]
open FieldValue

def misfit (declaredType : Option Name) (v : V) : Option Name :=
  declaredType.filter fun t => !fits v t

/-- `exprtk_instance_set_field`. A name without a position gets one at the end of the layout
    of the class, as a public field; a value of the wrong type is not stored. -/
def setField (w : World V) (i : InstanceId) (name : Name) (v : V) : World V :=
  let c := (w.instances i).klass
  let w := syncFields w c
  if (misfit ((fieldDecl (w.classes c) name).bind FieldDecl.declaredType) v).isSome then w
  else
    let w := w.updateClass c fun k => { k with
      instanceFields := appendField k.instanceFields ⟨name, .publicAccess, c, none, none⟩ }
    match fieldIndex (w.classes c) name with
    | some index => w.updateInstance i fun inst => inst.store index name v
    | none => w

def fieldTypeError (kind name expected received : String) : String :=
  kind ++ " '" ++ name ++ "' expects '" ++ expected ++ "' but received '" ++ received ++ "'"

/-- `exprtk_instance_set_field_checked`. -/
def setFieldChecked (w : World V) (i : InstanceId) (name : Name) (v : V) : Except String Unit × World V :=
  let c := (w.instances i).klass
  let w := syncFields w c
  match misfit ((fieldDecl (w.classes c) name).bind FieldDecl.declaredType) v with
  | some t => (.error (fieldTypeError "field" name t (signatureType v)), w)
  | none => (.ok (), setField w i name v)

/-- The static fields after a store: the class's own entry gets the value, and without one
    the class gets a public entry of its own. -/
def Class.storeStatic (k : Class V) (c : ClassId) (name : Name) (declaredType : Option Name)
    (v : V) : Class V :=
  if k.staticFields.any fun e => e.name == name then
    { k with
      staticFields := k.staticFields.map fun e => if e.name == name then { e with value := v } else e }
  else
    { k with
      staticFields := k.staticFields ++ [⟨name, v, .publicAccess, c, declaredType⟩]
      staticFieldVersion := k.staticFieldVersion + 1 }

/-- `exprtk_class_set_static_field`. -/
def setStaticField (w : World V) (c : ClassId) (name : Name) (v : V) : World V :=
  let t := getStaticFieldType w c name
  if (misfit t v).isSome then w
  else w.updateClass c fun k => k.storeStatic c name t v

/-- `exprtk_class_set_static_field_checked`. -/
def setStaticFieldChecked (w : World V) (c : ClassId) (name : Name) (v : V) :
    Except String Unit × World V :=
  match misfit (getStaticFieldType w c name) v with
  | some t => (.error (fieldTypeError "static field" name t (signatureType v)), w)
  | none => (.ok (), setStaticField w c name v)

/-- The fields a new instance gets: those of the layout, which the first store brings up to
    date; a class with an empty layout starts with none. -/
def initialFields (w : World V) (c : ClassId) : List (FieldDecl V) :=
  if (w.classes c).instanceFields.isEmpty then []
  else ((syncFields w c).classes c).instanceFields

/-- `exprtk_instance_create`: every field gets its default or null. -/
def createInstance (w : World V) (c : ClassId) : InstanceId × World V :=
  let i := w.nextInstance
  let fields := initialFields w c
  let w := { w with
    instances := Function.update w.instances i
      { klass := c, slotCapacity := ensureCapacity 0 (w.classes c).instanceFields.length }
    nextInstance := i + 1 }
  (i, fields.foldl (fun w d => setField w i d.name (d.default.getD null)) w)

end Worlds

/-! The access rules. -/

inductive Receiver
  | this
  | variable (name : Name)
  | other
  deriving DecidableEq, Repr

/-- Where an access stands: the class whose code runs, the receiver as written, and the
    class a variable holds there, if it holds one. -/
structure Context where
  currentClass : Option ClassId
  receiver : Receiver
  boundClass : Name → Option ClassId := fun _ => none

section Access
variable {V : Type} (w : World V) (ctx : Context)

def isPrivateMemberName (name : Name) : Bool := name.toList.head? == some '_'

/-- `can_access_private_member`: a name with an underscore is reached through `this`, the
    name of the current class, or a variable that holds it. -/
def canAccessPrivateMember : Bool :=
  match ctx.receiver, ctx.currentClass with
  | .this, _ => true
  | .variable name, some c => (w.classes c).name == name || ctx.boundClass name == some c
  | _, _ => false

def canAccessDeclaredMember (owner : Option ClassId) (access : AccessLevel) : Bool :=
  if access = .publicAccess then true
  else
    match owner, ctx.currentClass with
    | some o, some c => c == o || (access == .protectedAccess && (chain w c).contains o)
    | _, _ => false

def canAccessDeclaredField (owner : Option ClassId) (access : AccessLevel) (name : Name) : Bool :=
  (!isPrivateMemberName name || canAccessPrivateMember w ctx) && canAccessDeclaredMember w ctx owner access

def canAccessMethod (m : Method) : Bool :=
  (!isPrivateMemberName m.name || canAccessPrivateMember w ctx) &&
    canAccessDeclaredMember w ctx (some m.owner) m.access

/-- `throw_field_access_error` and `throw_method_access_error`. -/
def accessError (kind name : String) (access : AccessLevel) : String :=
  let what :=
    if isPrivateMemberName name ∨ access = .privateAccess then "Private " ++ kind.toLower
    else if access = .protectedAccess then "Protected " ++ kind.toLower
    else kind
  what ++ " '" ++ name ++ "' is not accessible"

end Access

end TurboScript.Oop
