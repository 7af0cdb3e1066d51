import TurboScript.Oop.Kept
import TurboScript.Lib.Transition
import Mathlib.Logic.Relation

/- The layout of instance fields over whole histories (`class_append_instance_field`,
   `class_import_instance_fields`, `exprtk_instance_set_field`).

   Here the prototype of a class may change at any time, and any class may get a field at any
   time. The import of inherited fields recurses up the prototypes; `fuel` bounds it, so that
   on a cycle of prototypes, where the code does not return, there is no step.

   A step makes layouts grow at the end only, and changes a read only where it writes; runs are
   in `layout_stable`. -/
namespace TurboScript.Oop.Layout
open Lib Function
open Exprtk (Name ClassId InstanceId AccessLevel)

/-! Slot arrays. -/

/-- `field_slots` and `field_slot_used`, with the number of slots in use and the size of the
arrays. -/
structure Slots (V : Type) where
  slot : Nat → Option V
  count : Nat
  capacity : Nat
  used_lt : ∀ i, (slot i).isSome = true → i < count
  count_le : count ≤ capacity

section Slots
variable {V : Type}

def Slots.empty (capacity : Nat) : Slots V where
  slot _ := none
  count := 0
  capacity := capacity
  used_lt _ h := nomatch h
  count_le := Nat.zero_le _

/-- A store, after `instance_ensure_slot_capacity`. -/
def Slots.put (s : Slots V) (index : Nat) (v : V) : Slots V where
  slot := Function.update s.slot index (some v)
  count := max s.count (index + 1)
  capacity := ensureCapacity s.capacity (index + 1)
  used_lt i h := by
    by_cases hi : i = index
    · omega
    · rw [update_of_ne hi] at h
      have := s.used_lt i h
      omega
  count_le := by
    have h1 := s.count_le
    have h2 := le_ensureCapacity s.capacity (index + 1)
    have h3 := needed_le_ensureCapacity s.capacity (index + 1)
    omega

/-- A slot as the read sees it: below the count, and used. -/
def Slots.read (s : Slots V) (index : Nat) : Option V :=
  if index < s.count then s.slot index else none

@[simp] theorem Slots.read_eq (s : Slots V) (index : Nat) : s.read index = s.slot index := by
  unfold Slots.read
  split
  · rfl
  · rename_i h
    cases hs : s.slot index with
    | none => rfl
    | some v => exact absurd (s.used_lt index (by rw [hs]; rfl)) h

end Slots

/-! The machine. -/

structure Object (V : Type) where
  klass : ClassId
  slots : Slots V
  fields : List (Name × V) := []
  fieldVersion : Nat := 1

structure State (V : Type) where
  prototype : ClassId → Option ClassId
  layout : ClassId → List (FieldDecl V)
  nextClass : ClassId
  objects : InstanceId → Object V
  nextObject : InstanceId

section Machine
variable {V : Type}

def State.init : State V where
  prototype _ := none
  layout _ := []
  nextClass := 0
  objects _ := ⟨0, .empty 0, [], 1⟩
  nextObject := 0

/-- `instance_field_names`. -/
def State.names (s : State V) (c : ClassId) : List Name := (s.layout c).map FieldDecl.name

/-- `class_find_instance_field_index`. -/
def State.fieldIndex (s : State V) (c : ClassId) (name : Name) : Option Nat :=
  (s.names c).findIdx? fun n => n == name

def State.fieldDecl (s : State V) (c : ClassId) (name : Name) : Option (FieldDecl V) :=
  (s.layout c).find? fun d => d.name == name

def State.setLayout (s : State V) (c : ClassId) (layout : List (FieldDecl V)) : State V :=
  { s with layout := Function.update s.layout c layout }

def State.setObject (s : State V) (i : InstanceId) (o : Object V) : State V :=
  { s with objects := Function.update s.objects i o }

/-- `class_import_instance_fields`: the fields of `source` and its prototypes, the topmost
first. -/
def importFields (s : State V) : Nat → List (FieldDecl V) → Option ClassId → Option (List (FieldDecl V))
  | _, layout, none => some layout
  | 0, _, some _ => none
  | n + 1, layout, some source =>
    (importFields s n layout (s.prototype source)).map fun layout =>
      (s.layout source).foldl appendField layout

/-- `class_sync_prototype_instance_fields`. -/
def sync (fuel : Nat) (s : State V) (c : ClassId) : Option (State V) :=
  (importFields s fuel (s.layout c) (s.prototype c)).map (s.setLayout c)

/-- `exprtk_class_set_prototype`. -/
def setPrototype (fuel : Nat) (s : State V) (c : ClassId) (parent : Option ClassId) : Option (State V) :=
  sync fuel { s with prototype := Function.update s.prototype c parent } c

/-- `exprtk_instance_get_field`. -/
def getField (s : State V) (i : InstanceId) (name : Name) : Option V :=
  let o := s.objects i
  ((s.fieldIndex o.klass name).bind o.slots.read).or (o.fields.lookup name)

/-- The instance after a store at a position of the layout. -/
def Object.store (o : Object V) (index : Nat) (name : Name) (v : V) : Object V :=
  { o with
    slots := o.slots.put index v
    fields := tableSet o.fields name v
    fieldVersion := if (o.slots.slot index).isSome then o.fieldVersion else o.fieldVersion + 1 }

variable [FieldValue V]

/-- `exprtk_class_declare_instance_field_typed`; a default of the wrong type declares
nothing. -/
def declare (fuel : Nat) (s : State V) (c : ClassId) (d : FieldDecl V) : Option (State V) :=
  if (d.default.bind (misfit d.declaredType)).isSome then some s
  else (sync fuel s c).map fun s => s.setLayout c (declareField (s.layout c) { d with owner := c })

/-- `exprtk_instance_set_field`, and whether the value was stored. Its type check and
`class_ensure_instance_field` both bring the layout up to date. -/
def setField (fuel : Nat) (s : State V) (i : InstanceId) (name : Name) (v : V) :
    Option (State V × Bool) := do
  let c := (s.objects i).klass
  let s ← sync fuel s c
  if (misfit ((s.fieldDecl c name).bind FieldDecl.declaredType) v).isSome then return (s, false)
  let s ← sync fuel s c
  let s := s.setLayout c (appendField (s.layout c) ⟨name, .publicAccess, c, none, none⟩)
  match s.fieldIndex c name with
  | some index => return (s.setObject i ((s.objects i).store index name v), true)
  | none => return (s, false)

/-- `exprtk_instance_set_field_checked`. -/
def setFieldChecked (fuel : Nat) (s : State V) (i : InstanceId) (name : Name) (v : V) :
    Option (State V × Bool) := do
  let c := (s.objects i).klass
  let s ← sync fuel s c
  if (misfit ((s.fieldDecl c name).bind FieldDecl.declaredType) v).isSome then return (s, false)
  setField fuel s i name v

def fill (fuel : Nat) (i : InstanceId) : List (FieldDecl V) → State V → Option (State V)
  | [], s => some s
  | d :: ds, s => (setField fuel s i d.name (d.default.getD FieldValue.null)).bind fun r =>
    fill fuel i ds r.1

/-- `exprtk_instance_create`: every field of the layout, which the first store brings up to
date, gets its default or null. -/
def create (fuel : Nat) (s : State V) (c : ClassId) : Option (State V) := do
  let i := s.nextObject
  let s' := { s.setObject i ⟨c, .empty (ensureCapacity 0 (s.layout c).length), [], 1⟩ with
    nextObject := i + 1 }
  if (s.layout c).isEmpty then return s'
  let s' ← sync fuel s' c
  fill fuel i (s'.layout c) s'

/-- A step: a new class, a declaration, a prototype change, a look at the layout, a new
instance, or a write without or with an error message. -/
inductive Op (V : Type)
  | newClass
  | declare (c : ClassId) (d : FieldDecl V)
  | setPrototype (c : ClassId) (parent : Option ClassId)
  | sync (c : ClassId)
  | create (c : ClassId)
  | setField (i : InstanceId) (name : Name) (v : V)
  | setFieldChecked (i : InstanceId) (name : Name) (v : V)

def Op.admissible (s : State V) : Op V → Bool
  | .newClass => true
  | .declare c _ | .sync c | .create c => c < s.nextClass
  | .setPrototype c parent => c < s.nextClass && parent.all fun p => p < s.nextClass
  | .setField i _ _ | .setFieldChecked i _ _ => i < s.nextObject

def perform (fuel : Nat) (s : State V) : Op V → Option (State V × Bool)
  | .newClass => some ({ s with nextClass := s.nextClass + 1 }, false)
  | .declare c d => (declare fuel s c d).map (·, false)
  | .setPrototype c parent => (setPrototype fuel s c parent).map (·, false)
  | .sync c => (sync fuel s c).map (·, false)
  | .create c => (create fuel s c).map (·, false)
  | .setField i name v => setField fuel s i name v
  | .setFieldChecked i name v => setFieldChecked fuel s i name v

/-- One step, and whether a write stored its value. -/
def step (fuel : Nat) (s : State V) (op : Op V) : Option (State V × Bool) :=
  if op.admissible s then perform fuel s op else none

def Op.Writes (op : Op V) (i : InstanceId) (name : Name) (v : V) : Prop :=
  op = .setField i name v ∨ op = .setFieldChecked i name v

def Op.syncs (s : State V) : Op V → Option ClassId
  | .newClass => none
  | .declare c d => if (d.default.bind (misfit d.declaredType)).isSome then none else some c
  | .setPrototype c _ | .sync c => some c
  | .create c => if (s.layout c).isEmpty then none else some c
  | .setField i _ _ | .setFieldChecked i _ _ => some (s.objects i).klass

end Machine

/-! What a step can do. -/

section Steps
variable {V : Type}

/-- `a` is on the prototype chain of `c`, above it. -/
def Ancestor (s : State V) (a c : ClassId) : Prop :=
  Relation.TransGen (fun c p => s.prototype c = some p) c a

/-- A layout that has grown at the end, and repeats no name if the old one did not. -/
def Extends (layout layout' : List (FieldDecl V)) : Prop :=
  layout.map FieldDecl.name <+: layout'.map FieldDecl.name ∧
    ((layout.map FieldDecl.name).Nodup → (layout'.map FieldDecl.name).Nodup)

theorem Extends.refl (layout : List (FieldDecl V)) : Extends layout layout :=
  ⟨List.prefix_refl _, id⟩

theorem Extends.trans {l l' l'' : List (FieldDecl V)} (h : Extends l l') (h' : Extends l' l'') :
    Extends l l'' :=
  ⟨h.1.trans h'.1, fun hn => h'.2 (h.2 hn)⟩

def addName (names : List Name) (name : Name) : List Name :=
  if name ∈ names then names else names ++ [name]

variable {layout : List (FieldDecl V)} {name : Name} {s s' : State V}
  {P : InstanceId → Name → Prop} {c : ClassId} {index fuel : Nat} {i : InstanceId} {stored : Bool}

theorem any_name : (layout.any fun e => e.name == name) = true ↔ name ∈ layout.map FieldDecl.name := by
  simp [List.any_eq_true, List.mem_map]

theorem appendField_names (layout : List (FieldDecl V)) (d : FieldDecl V) :
    (appendField layout d).map FieldDecl.name = addName (layout.map FieldDecl.name) d.name := by
  unfold appendField addName
  simp only [any_name]
  split
  · rfl
  · rw [List.map_append, List.map_singleton]

theorem declareField_names (layout : List (FieldDecl V)) (d : FieldDecl V) :
    (declareField layout d).map FieldDecl.name = addName (layout.map FieldDecl.name) d.name := by
  unfold declareField addName
  simp only [any_name]
  split
  · rw [List.map_map]
    apply List.map_congr_left
    intro e _
    simp only [comp]
    split
    · rename_i h
      exact (eq_of_beq h).symm
    · rfl
  · rw [List.map_append, List.map_singleton]

theorem Extends.of_addName {layout' : List (FieldDecl V)}
    (h : layout'.map FieldDecl.name = addName (layout.map FieldDecl.name) name) :
    Extends layout layout' := by
  unfold Extends
  rw [h]
  unfold addName
  split
  · exact ⟨List.prefix_refl _, id⟩
  · rename_i hnew
    refine ⟨List.prefix_append .., fun hn => ?_⟩
    exact List.nodup_append.2 ⟨hn, by simp, fun a ha b hb hab => by
      rw [hab, List.mem_singleton.1 hb] at ha
      exact hnew ha⟩

theorem foldl_appendField_extends (ds : List (FieldDecl V)) :
    ∀ layout : List (FieldDecl V), Extends layout (ds.foldl appendField layout) := by
  induction ds with
  | nil => exact Extends.refl
  | cons d ds ih => exact fun layout => (Extends.of_addName (appendField_names layout d)).trans (ih _)

theorem importFields_extends {n : Nat} {layout' : List (FieldDecl V)} {source : Option ClassId}
    (h : importFields s n layout source = some layout') :
    Extends layout layout' := by
  induction n generalizing layout layout' source with
  | zero =>
    cases source with
    | none => cases h; exact .refl _
    | some source => cases h
  | succ n ih =>
    cases source with
    | none => cases h; exact .refl _
    | some source =>
      obtain ⟨l, hl, rfl⟩ := Option.map_eq_some_iff.1 h
      exact (ih hl).trans (foldl_appendField_extends _ l)

theorem mem_importFields {n : Nat} {layout' : List (FieldDecl V)} {source a : ClassId}
    (h : importFields s n layout (some source) = some layout')
    (ha : Relation.ReflTransGen (fun c p => s.prototype c = some p) source a) {d : FieldDecl V}
    (hd : d ∈ s.layout a) : d.name ∈ layout'.map FieldDecl.name := by
  induction n generalizing layout' source with
  | zero => cases h
  | succ n ih =>
    obtain ⟨l, hl, rfl⟩ := Option.map_eq_some_iff.1 h
    rcases Relation.ReflTransGen.cases_head ha with rfl | ⟨p, hp, hpa⟩
    · exact any_name.1 (hasField_foldl (s.layout source) l d hd)
    · rw [hp] at hl
      exact (foldl_appendField_extends _ l).1.subset (ih hl hpa)

structure Ok (s : State V) : Prop where
  nodup : ∀ c, (s.names c).Nodup
  used : ∀ i k, ((s.objects i).slots.slot k).isSome = true →
    k < (s.names (s.objects i).klass).length
  table : ∀ i name, (s.objects i).fields.lookup name =
    (s.fieldIndex (s.objects i).klass name).bind (s.objects i).slots.slot

theorem Ok.init : Ok (State.init : State V) where
  nodup _ := List.nodup_nil
  used _ _ h := nomatch h
  table _ _ := rfl

theorem Ok.getField_eq (h : Ok s) (i : InstanceId) (name : Name) :
    getField s i name = (s.objects i).fields.lookup name := by
  have hread : (s.objects i).slots.read = (s.objects i).slots.slot := funext fun k => Slots.read_eq _ k
  unfold getField
  dsimp only
  rw [hread, ← h.table i name]
  exact Option.or_self

/-- A step that keeps `Ok`, lets layouts grow at the end only and changes what is read only
where `P` allows. -/
structure Moves (P : InstanceId → Name → Prop) (s s' : State V) : Prop where
  ok : Ok s'
  names : ∀ c, s.names c <+: s'.names c
  reads : ∀ j g, ¬P j g → getField s' j g = getField s j g
  klass : ∀ j, j < s.nextObject → (s'.objects j).klass = (s.objects j).klass
  count : s.nextObject ≤ s'.nextObject

theorem Moves.refl (h : Ok s) : Moves P s s :=
  ⟨h, fun _ => List.prefix_refl _, fun _ _ _ => rfl, fun _ _ => rfl, Nat.le_refl _⟩

theorem Moves.trans {s'' : State V} (h : Moves P s s') (h' : Moves P s' s'') : Moves P s s'' where
  ok := h'.ok
  names c := (h.names c).trans (h'.names c)
  reads j g hp := (h'.reads j g hp).trans (h.reads j g hp)
  klass j hj := (h'.klass j (hj.trans_le h.count)).trans (h.klass j hj)
  count := h.count.trans h'.count

theorem Moves.mono {Q : InstanceId → Name → Prop} (h : Moves P s s') (hpq : ∀ j g, P j g → Q j g) :
    Moves Q s s' :=
  ⟨h.ok, h.names, fun j g hq => h.reads j g fun hp => hq (hpq j g hp), h.klass, h.count⟩

theorem fieldIndex_later (h : s.names c <+: s'.names c) (hi : s.fieldIndex c name = some index) :
    s'.fieldIndex c name = some index :=
  h.findIdx?_eq_some hi

theorem fieldIndex_isSome (h : name ∈ s.names c) : ∃ index, s.fieldIndex c name = some index := by
  cases hi : s.fieldIndex c name with
  | some index => exact ⟨index, rfl⟩
  | none =>
    unfold State.fieldIndex at hi
    rw [List.findIdx?_eq_none_iff] at hi
    have := hi name h
    simp at this

theorem fieldIndex_lt (h : s.fieldIndex c name = some index) : index < (s.names c).length :=
  (List.findIdx?_eq_some_iff_findIdx_eq.mp h).1

theorem fieldIndex_inj {name' : Name} (h : s.fieldIndex c name = some index)
    (h' : s.fieldIndex c name' = some index) :
    name = name' := by
  obtain ⟨hl, he, -⟩ := List.findIdx?_eq_some_iff_getElem.mp h
  obtain ⟨hl', he', -⟩ := List.findIdx?_eq_some_iff_getElem.mp h'
  exact (eq_of_beq he).symm.trans (eq_of_beq he')

theorem Moves.of_layout (h : Ok s) (hobj : s'.objects = s.objects)
    (hcount : s'.nextObject = s.nextObject) (hnames : ∀ c, s.names c <+: s'.names c)
    (hnodup : ∀ c, (s'.names c).Nodup) : Moves (fun _ _ => False) s s' := by
  have hok : Ok s' := by
    refine ⟨hnodup, ?_, ?_⟩
    · intro i k hk
      rw [hobj] at hk ⊢
      exact (h.used i k hk).trans_le (hnames _).length_le
    · intro i name
      rw [hobj, h.table i name]
      cases hi : s.fieldIndex (s.objects i).klass name with
      | some index => rw [fieldIndex_later (hnames _) hi]
      | none =>
        cases hi' : s'.fieldIndex (s.objects i).klass name with
        | none => rfl
        | some index =>
          -- the position is new, so its slot is not used
          show none = (s.objects i).slots.slot index
          cases hslot : (s.objects i).slots.slot index with
          | none => rfl
          | some v =>
            have hlt := h.used i index (by rw [hslot]; rfl)
            obtain ⟨hl', he', -⟩ := List.findIdx?_eq_some_iff_getElem.mp hi'
            have hget : (s.names (s.objects i).klass)[index] = name :=
              ((hnames _).getElem hlt).trans (eq_of_beq he')
            obtain ⟨k, hk⟩ := fieldIndex_isSome (s := s) (hget ▸ List.getElem_mem hlt)
            rw [hi] at hk
            cases hk
  refine ⟨hok, hnames, ?_, fun j _ => by rw [hobj], hcount.ge⟩
  intro j g _
  rw [hok.getField_eq, h.getField_eq, hobj]

theorem setLayout_names (s : State V) (c : ClassId) (layout : List (FieldDecl V)) (k : ClassId) :
    (s.setLayout c layout).names k =
      if k = c then layout.map FieldDecl.name else s.names k := by
  unfold State.setLayout State.names
  by_cases hk : k = c
  · rw [hk, if_pos rfl]
    simp
  · rw [if_neg hk]
    simp [hk]

theorem Moves.setLayout (h : Ok s) (hext : Extends (s.layout c) layout) :
    Moves (fun _ _ => False) s (s.setLayout c layout) := by
  have hnames : ∀ k, s.names k <+: (s.setLayout c layout).names k := by
    intro k
    rw [setLayout_names]
    by_cases hk : k = c
    · rw [if_pos hk, hk]
      exact hext.1
    · exact (if_neg hk).symm ▸ List.prefix_refl _
  have hnodup : ∀ k, ((s.setLayout c layout).names k).Nodup := by
    intro k
    rw [setLayout_names]
    split
    · exact hext.2 (h.nodup c)
    · exact h.nodup k
  exact Moves.of_layout h rfl rfl hnames hnodup

structure Within (P : InstanceId → Name → Prop) (c : ClassId) (s s' : State V) : Prop where
  moves : Moves P s s'
  prototype : s'.prototype = s.prototype
  others : ∀ k, k ≠ c → s'.layout k = s.layout k

theorem Within.refl (h : Ok s) : Within P c s s :=
  ⟨.refl h, rfl, fun _ _ => rfl⟩

theorem Within.trans {s'' : State V} (h : Within P c s s') (h' : Within P c s' s'') : Within P c s s'' where
  moves := h.moves.trans h'.moves
  prototype := h'.prototype.trans h.prototype
  others k hk := (h'.others k hk).trans (h.others k hk)

theorem Within.mono {Q : InstanceId → Name → Prop} (h : Within P c s s')
    (hpq : ∀ j g, P j g → Q j g) : Within Q c s s' :=
  ⟨h.moves.mono hpq, h.prototype, h.others⟩

theorem Within.setLayout (h : Ok s) (hext : Extends (s.layout c) layout) :
    Within (fun _ _ => False) c s (s.setLayout c layout) where
  moves := .setLayout h hext
  prototype := rfl
  others k hk := by simp [State.setLayout, hk]

/-- The fields of the ancestors of `c` in `s` are in the layout of `c` in `s'`. -/
def Imported (s s' : State V) (c : ClassId) : Prop :=
  ∀ a, Ancestor s a c → ∀ d ∈ s.layout a, d.name ∈ s'.names c

theorem Imported.later {s'' : State V} (h : Imported s s' c) (hn : s'.names c <+: s''.names c) :
    Imported s s'' c :=
  fun a ha d hd => hn.subset (h a ha d hd)

theorem Imported.settled (h : Imported s s' c) (hw : Within P c s s') : Imported s' s' c := by
  intro a ha d hd
  by_cases hac : a = c
  · rw [hac] at hd
    exact List.mem_map_of_mem hd
  · rw [hw.others a hac] at hd
    have ha' : Ancestor s a c := by
      unfold Ancestor at ha ⊢
      rw [hw.prototype] at ha
      exact ha
    exact h a ha' d hd

theorem sync_spec (h : Ok s) (hs : sync fuel s c = some s') :
    Within (fun _ _ => False) c s s' ∧ s'.objects = s.objects ∧ Imported s s' c := by
  obtain ⟨l, hl, rfl⟩ := Option.map_eq_some_iff.1 hs
  refine ⟨.setLayout h (importFields_extends hl), rfl, ?_⟩
  intro a ha d hd
  rw [setLayout_names, if_pos rfl]
  obtain ⟨p, hp, hpa⟩ := Relation.TransGen.head'_iff.1 ha
  rw [hp] at hl
  exact mem_importFields hl hpa hd

theorem setPrototype_spec {parent : Option ClassId} (h : Ok s)
    (hs : setPrototype fuel s c parent = some s') :
    Moves (fun _ _ => False) s s' ∧ Imported s' s' c := by
  have hm : Moves (fun _ _ => False) s { s with prototype := Function.update s.prototype c parent } :=
    Moves.of_layout h rfl rfl (fun _ => List.prefix_refl _) h.nodup
  obtain ⟨hw, -, hi⟩ := sync_spec hm.ok hs
  exact ⟨hm.trans hw.moves, hi.settled hw⟩

theorem Moves.store (h : Ok s) (hidx : s.fieldIndex (s.objects i).klass name = some index) (v : V) :
    Moves (fun j g => j = i ∧ g = name) s (s.setObject i ((s.objects i).store index name v)) ∧
      getField (s.setObject i ((s.objects i).store index name v)) i name = some v := by
  have hself : (s.setObject i ((s.objects i).store index name v)).objects i =
      (s.objects i).store index name v := by
    simp [State.setObject]
  have hother : ∀ j, j ≠ i →
      (s.setObject i ((s.objects i).store index name v)).objects j = s.objects j := by
    intro j hj
    simp [State.setObject, hj]
  have hok : Ok (s.setObject i ((s.objects i).store index name v)) := by
    refine ⟨h.nodup, ?_, ?_⟩
    · intro j k hk
      by_cases hj : j = i
      · rw [hj, hself] at hk ⊢
        show k < (s.names (s.objects i).klass).length
        by_cases hki : k = index
        · rw [hki]
          exact fieldIndex_lt hidx
        · have hk' : ((s.objects i).slots.slot k).isSome = true := by
            simpa [Object.store, Slots.put, hki] using hk
          exact h.used i k hk'
      · rw [hother j hj] at hk ⊢
        exact h.used j k hk
    · intro j g
      by_cases hj : j = i
      · rw [hj, hself]
        show (tableSet (s.objects i).fields name v).lookup g =
          (s.fieldIndex (s.objects i).klass g).bind (Function.update (s.objects i).slots.slot index (some v))
        rw [lookup_tableSet_eq]
        by_cases hg : g = name
        · rw [if_pos (beq_iff_eq.2 hg), hg, hidx, Option.bind_some, update_self]
        · rw [if_neg (by simpa using hg), h.table i g]
          cases hgi : s.fieldIndex (s.objects i).klass g with
          | none => rfl
          | some k =>
            have hk : k ≠ index := by
              rintro rfl
              exact hg (fieldIndex_inj hgi hidx)
            rw [Option.bind_some, Option.bind_some, update_of_ne hk]
      · rw [hother j hj]
        exact h.table j g
  have hklass : ∀ j, ((s.setObject i ((s.objects i).store index name v)).objects j).klass =
      (s.objects j).klass := by
    intro j
    by_cases hj : j = i
    · rw [hj, hself]
      rfl
    · rw [hother j hj]
  refine ⟨⟨hok, fun _ => List.prefix_refl _, ?_, fun j _ => hklass j, Nat.le_refl _⟩, ?_⟩
  · intro j g hne
    rw [hok.getField_eq, h.getField_eq]
    by_cases hj : j = i
    · rw [hj, hself]
      show (tableSet (s.objects i).fields name v).lookup g = _
      rw [lookup_tableSet_eq, if_neg fun hg => hne ⟨hj, eq_of_beq hg⟩]
    · rw [hother j hj]
  · rw [hok.getField_eq, hself]
    show (tableSet (s.objects i).fields name v).lookup name = some v
    rw [lookup_tableSet_eq, if_pos (beq_iff_eq.2 rfl)]

theorem Moves.newObject (h : Ok s) (c : ClassId) (capacity : Nat) : Moves (fun j _ => j = s.nextObject) s
      { s.setObject s.nextObject ⟨c, .empty capacity, [], 1⟩ with nextObject := s.nextObject + 1 } := by
  have hother : ∀ j, j ≠ s.nextObject →
      Function.update s.objects s.nextObject ⟨c, .empty capacity, [], 1⟩ j = s.objects j :=
    fun j hj => update_of_ne hj _ _
  have hok : Ok { s.setObject s.nextObject ⟨c, .empty capacity, [], 1⟩ with
      nextObject := s.nextObject + 1 } := by
    refine ⟨h.nodup, ?_, ?_⟩
    · intro j k hk
      by_cases hj : j = s.nextObject
      · subst hj
        simp [State.setObject, Slots.empty] at hk
      · simp only [State.setObject, hother j hj] at hk ⊢
        exact h.used j k hk
    · intro j g
      by_cases hj : j = s.nextObject
      · subst hj
        simp only [State.setObject, update_self, Slots.empty, List.lookup_nil]
        cases State.fieldIndex _ c g <;> rfl
      · simp only [State.setObject, hother j hj]
        exact h.table j g
  refine ⟨hok, fun _ => List.prefix_refl _, ?_, ?_, Nat.le_succ _⟩
  · intro j g hj
    rw [hok.getField_eq, h.getField_eq]
    simp only [State.setObject, hother j hj]
  · intro j hj
    show (Function.update s.objects s.nextObject _ j).klass = _
    rw [hother j (Nat.ne_of_lt hj)]

variable [FieldValue V]

theorem declare_spec {d : FieldDecl V} (h : Ok s) (hs : declare fuel s c d = some s') :
    Moves (fun _ _ => False) s s' ∧
      ((d.default.bind (misfit d.declaredType)).isSome = false → Imported s' s' c) := by
  unfold declare at hs
  split at hs
  · rename_i hbad
    cases hs
    exact ⟨.refl h, fun hgood => absurd hbad (by rw [hgood]; decide)⟩
  · obtain ⟨s₁, hs₁, rfl⟩ := Option.map_eq_some_iff.1 hs
    obtain ⟨hw, -, hi⟩ := sync_spec h hs₁
    have hw' : Within (fun _ _ => False) c s₁
        (s₁.setLayout c (declareField (s₁.layout c) { d with owner := c })) :=
      .setLayout hw.moves.ok (.of_addName (declareField_names _ _))
    exact ⟨(hw.trans hw').moves, fun _ => (hi.later (hw'.moves.names c)).settled (hw.trans hw')⟩

theorem setField_spec {v : V} (h : Ok s) (hs : setField fuel s i name v = some (s', stored)) :
    Within (fun j g => stored = true ∧ j = i ∧ g = name) (s.objects i).klass s s' ∧
      Imported s s' (s.objects i).klass ∧ (stored = true → getField s' i name = some v) := by
  obtain ⟨s₁, hs₁, hs⟩ := Option.bind_eq_some_iff.1 hs
  obtain ⟨hw₁, ho₁, hi₁⟩ := sync_spec h hs₁
  have hw₁' := hw₁.mono (Q := fun j g => stored = true ∧ j = i ∧ g = name) fun _ _ hf => hf.elim
  split at hs
  · cases hs
    exact ⟨hw₁', hi₁, fun hf => nomatch hf⟩
  · obtain ⟨s₂, hs₂, hs⟩ := Option.bind_eq_some_iff.1 hs
    obtain ⟨hw₂, ho₂, -⟩ := sync_spec hw₁.moves.ok hs₂
    -- the field gets its position, then its value
    have hw₃ : Within (fun _ _ => False) (s.objects i).klass s₂ (s₂.setLayout (s.objects i).klass
          (appendField (s₂.layout (s.objects i).klass) ⟨name, .publicAccess, (s.objects i).klass, none, none⟩)) :=
      .setLayout hw₂.moves.ok (.of_addName (appendField_names _ _))
    have hw := (hw₁.trans (hw₂.trans hw₃)).mono (Q := fun j g => stored = true ∧ j = i ∧ g = name)
      fun _ _ hf => hf.elim
    have hi := hi₁.later ((hw₂.trans hw₃).moves.names _)
    generalize hs₃ : s₂.setLayout (s.objects i).klass
      (appendField (s₂.layout (s.objects i).klass) ⟨name, .publicAccess, (s.objects i).klass, none, none⟩) = s₃
      at hs hw hi
    dsimp only at hs
    have ho : s₃.objects = s.objects := by
      rw [← hs₃]
      exact ho₂.trans ho₁
    split at hs
    · rename_i index hidx
      cases hs
      rw [← ho] at hidx
      obtain ⟨hm, hget⟩ := Moves.store hw.moves.ok hidx v
      have hstore : Within (fun j g => true = true ∧ j = i ∧ g = name) (s.objects i).klass s₃
          (s₃.setObject i ((s₃.objects i).store index name v)) :=
        ⟨hm.mono fun _ _ hj => ⟨rfl, hj⟩, rfl, fun _ _ => rfl⟩
      exact ⟨hw.trans hstore, hi, fun _ => hget⟩
    · cases hs
      exact ⟨hw, hi, fun hf => nomatch hf⟩

theorem setFieldChecked_spec {v : V} (h : Ok s) (hs : setFieldChecked fuel s i name v = some (s', stored)) :
    Within (fun j g => stored = true ∧ j = i ∧ g = name) (s.objects i).klass s s' ∧
      Imported s s' (s.objects i).klass ∧ (stored = true → getField s' i name = some v) := by
  obtain ⟨s₁, hs₁, hs⟩ := Option.bind_eq_some_iff.1 hs
  obtain ⟨hw₁, ho₁, hi₁⟩ := sync_spec h hs₁
  have hw₁' := hw₁.mono (Q := fun j g => stored = true ∧ j = i ∧ g = name) fun _ _ hf => hf.elim
  split at hs
  · cases hs
    exact ⟨hw₁', hi₁, fun hf => nomatch hf⟩
  · obtain ⟨hw, -, hget⟩ := setField_spec hw₁.moves.ok hs
    rw [ho₁] at hw
    exact ⟨hw₁'.trans hw, hi₁.later (hw.moves.names _), hget⟩

theorem fill_spec (ds : List (FieldDecl V)) :
    ∀ {s s' : State V}, Ok s → i < s.nextObject → (s.objects i).klass = c →
      fill fuel i ds s = some s' → Within (fun j _ => j = i) c s s' := by
  induction ds with
  | nil => intro s s' h _ _ hs; cases hs; exact .refl h
  | cons d ds ih =>
    intro s s' h hi hc hs
    obtain ⟨⟨s₁, stored⟩, hs₁, hs⟩ := Option.bind_eq_some_iff.1 hs
    obtain ⟨hw, -, -⟩ := setField_spec h hs₁
    have hk := hw.moves.klass i hi
    rw [hc] at hw hk
    have hrest := ih hw.moves.ok (hi.trans_le hw.moves.count) hk hs
    exact (hw.mono fun _ _ hj => hj.2.1).trans hrest

theorem create_spec (h : Ok s) (hs : create fuel s c = some s') : Moves (fun j _ => j = s.nextObject) s s' ∧
      ((s.layout c).isEmpty = false → Imported s' s' c) := by
  have hnew := Moves.newObject h c (ensureCapacity 0 (s.layout c).length)
  unfold create at hs
  dsimp only at hs
  split at hs
  · rename_i hempty
    cases hs
    exact ⟨hnew, fun hne => absurd hempty (by rw [hne]; decide)⟩
  · obtain ⟨s₁, hs₁, hs⟩ := Option.bind_eq_some_iff.1 hs
    obtain ⟨hw₁, ho₁, hi₁⟩ := sync_spec hnew.ok hs₁
    have hself : (s₁.objects s.nextObject).klass = c := by
      rw [ho₁]
      simp [State.setObject]
    have hlt : s.nextObject < s₁.nextObject := (Nat.lt_succ_self _).trans_le hw₁.moves.count
    have hw := (hw₁.mono fun _ _ hf => hf.elim).trans (fill_spec _ hw₁.moves.ok hlt hself hs)
    refine ⟨hnew.trans hw.moves, fun _ => ?_⟩
    exact (hi₁.later ((fill_spec _ hw₁.moves.ok hlt hself hs).moves.names c)).settled hw

theorem step_spec {op : Op V} (h : Ok s) (hs : step fuel s op = some (s', stored)) :
    Moves (fun j g => j = s.nextObject ∨ stored = true ∧ ∃ v, op.Writes j g v) s s' ∧
      (∀ c, op.syncs s = some c → Imported s' s' c) ∧
      ∀ i name v, op.Writes i name v → stored = true → getField s' i name = some v := by
  unfold step at hs
  split at hs
  · cases op with
    | newClass =>
      cases hs
      have hm : Moves (fun _ _ => False) s { s with nextClass := s.nextClass + 1 } :=
        Moves.of_layout h rfl rfl (fun _ => List.prefix_refl _) h.nodup
      refine ⟨hm.mono fun _ _ hf => hf.elim, ?_, ?_⟩
      · intro c hc
        cases hc
      · rintro i name v (hw | hw) <;> cases hw
    | declare c d =>
      obtain ⟨s₁, hs₁, heq⟩ := Option.map_eq_some_iff.1 hs
      cases heq
      obtain ⟨hm, hi⟩ := declare_spec h hs₁
      refine ⟨hm.mono fun _ _ hf => hf.elim, ?_, ?_⟩
      · intro k hk
        dsimp only [Op.syncs] at hk
        split at hk
        · cases hk
        · rename_i hgood
          cases hk
          exact hi (Bool.eq_false_of_not_eq_true hgood)
      · rintro i name v (hw | hw) <;> cases hw
    | setPrototype c parent =>
      obtain ⟨s₁, hs₁, heq⟩ := Option.map_eq_some_iff.1 hs
      cases heq
      obtain ⟨hm, hi⟩ := setPrototype_spec h hs₁
      refine ⟨hm.mono fun _ _ hf => hf.elim, ?_, ?_⟩
      · intro k hk
        cases hk
        exact hi
      · rintro i name v (hw | hw) <;> cases hw
    | sync c =>
      obtain ⟨s₁, hs₁, heq⟩ := Option.map_eq_some_iff.1 hs
      cases heq
      obtain ⟨hw, -, hi⟩ := sync_spec h hs₁
      refine ⟨hw.moves.mono fun _ _ hf => hf.elim, ?_, ?_⟩
      · intro k hk
        cases hk
        exact hi.settled hw
      · rintro i name v (hw | hw) <;> cases hw
    | create c =>
      obtain ⟨s₁, hs₁, heq⟩ := Option.map_eq_some_iff.1 hs
      cases heq
      obtain ⟨hm, hi⟩ := create_spec h hs₁
      refine ⟨hm.mono fun _ _ hj => .inl hj, ?_, ?_⟩
      · intro k hk
        dsimp only [Op.syncs] at hk
        split at hk
        · cases hk
        · rename_i hsome
          cases hk
          exact hi (Bool.eq_false_of_not_eq_true hsome)
      · rintro i name v (hw | hw) <;> cases hw
    | setField i name v =>
      obtain ⟨hw, hi, hget⟩ := setField_spec h hs
      refine ⟨hw.moves.mono ?_, ?_, ?_⟩
      · rintro j g ⟨hst, rfl, rfl⟩
        exact .inr ⟨hst, v, .inl rfl⟩
      · intro k hk
        cases hk
        exact hi.settled hw
      · rintro i' name' v' (hw | hw) hst <;> cases hw
        exact hget hst
    | setFieldChecked i name v =>
      obtain ⟨hw, hi, hget⟩ := setFieldChecked_spec h hs
      refine ⟨hw.moves.mono ?_, ?_, ?_⟩
      · rintro j g ⟨hst, rfl, rfl⟩
        exact .inr ⟨hst, v, .inr rfl⟩
      · intro k hk
        cases hk
        exact hi.settled hw
      · rintro i' name' v' (hw | hw) hst <;> cases hw
        exact hget hst
  · cases hs

theorem Op.Writes.lt {op : Op V} {v : V} (hw : op.Writes i name v)
    (hs : step fuel s op = some (s', stored)) :
    i < s.nextObject := by
  unfold step at hs
  split at hs
  · rename_i hadm
    rcases hw with rfl | rfl <;> simpa [Op.admissible] using hadm
  · cases hs

end Steps

/-! Runs. -/

section Runs
variable {V : Type} [FieldValue V]

theorem run_ok {fuel : Nat} {s s' : State V} {ops : List (Op V)} (h : Ok s)
    (hrun : run (step fuel) s ops = some s') : Ok s' :=
  run_invariant (P := Ok) (fun _ _ _ _ hp hs => (step_spec hp hs).1.ok) ops s s' h hrun

theorem run_names {fuel : Nat} {s s' : State V} {ops : List (Op V)} (h : Ok s)
    (hrun : run (step fuel) s ops = some s') (c : ClassId) : s.names c <+: s'.names c :=
  run_relates (P := Ok) (R := fun s s' => s.names c <+: s'.names c)
    (fun _ => List.prefix_refl _) (fun _ _ _ hr hr' => hr.trans hr')
    (fun _ _ _ _ hp hs => (step_spec hp hs).1.ok) (fun _ _ _ _ hp hs => (step_spec hp hs).1.names c)
    ops s s' h hrun

theorem run_reads {fuel : Nat} {ops : List (Op V)} {i : InstanceId} {name : Name} :
    ∀ {s s' : State V}, Ok s → i < s.nextObject → run (step fuel) s ops = some s' →
      (∀ op ∈ ops, ∀ v, ¬op.Writes i name v) → getField s' i name = getField s i name := by
  induction ops with
  | nil => intro s s' _ _ hrun _; cases hrun; rfl
  | cons op ops ih =>
    intro s s' h hi hrun hno
    obtain ⟨s₁, stored, hs, hrest⟩ := run_cons hrun
    have hm := (step_spec h hs).1
    have hkept : getField s₁ i name = getField s i name := by
      apply hm.reads
      rintro (hnew | ⟨-, v, hw⟩)
      · exact absurd hnew (Nat.ne_of_lt hi)
      · exact hno op List.mem_cons_self v hw
    rw [← hkept]
    exact ih hm.ok (hi.trans_le hm.count) hrest fun op' hop' => hno op' (List.mem_cons_of_mem _ hop')

end Runs

/-! A field that comes after the instance. -/

section Late

instance boolValue : FieldValue Bool := ⟨false, fun _ => "bool", fun _ t => t == "bool"⟩

def publicField (name : Name) : FieldDecl Bool := ⟨name, .publicAccess, 0, none, none⟩

/-- The base class gets its second field when a subclass has an instance. -/
def lateField : List (Op Bool) :=
  [.newClass, .newClass, .declare 0 (publicField "a"), .setPrototype 1 (some 0), .create 1,
    .declare 0 (publicField "b")]

def afterLateField : State Bool := (run (step 1) State.init lateField).getD State.init

theorem lateField_runs : run (step 1) State.init lateField = some afterLateField := by
  have h : (run (step 1) State.init lateField).isSome = true := by decide
  obtain ⟨s, hs⟩ := Option.isSome_iff_exists.1 h
  unfold afterLateField
  rw [hs]
  rfl

end Late

end TurboScript.Oop.Layout
