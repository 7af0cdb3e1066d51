import TurboScript.Exprtk.Value
import Mathlib.Data.List.Basic

/- Capture of variables by a snapshot (`exprtk_env_snapshot_names`).

   1. Values stored in an environment: `exprtk_value_store_to_env` keeps the identity of
      classes and instances, `exprtk_value_clone_to_env` replaces them by copies. How an
      object is copied is the business of the class code; nothing is assumed of it.
   2. Environments, and the walk over all scopes, inner to outer.
   3. What one entry, one scope and the whole chain leave in the snapshot, and that no later
      assignment reaches it.

   A variable is copied, objects included; a constant is first copied and then set once more
   to the value itself, so its objects stay the same ones. -/
namespace TurboScript.Exprtk.Capture
open Function

/-! Stored values. -/

/-- The copying of objects into the storage of an environment: `none` where it never ends,
    and no object where there is no memory for one. -/
structure Cloner (D Θ : Type) where
  cloneClass : EnvId → ClassId → Θ → Option (Option ClassId × Θ)
  cloneInstance : EnvId → InstanceId → Θ → Option (Option InstanceId × Θ)
  /-- The method of the copy's class that stands for the bound one. -/
  rebind : InstanceId → Func D → Θ → Func D

section Values
variable {D Θ : Type} (cl : Cloner D Θ) (w : EnvId)

def orNull {α : Type} (f : α → Value D) : Option α → Value D
  | some a => f a
  | none => .null

mutual
/-- `exprtk_value_clone_to_env`. The keys of a map are distinct, so each one set in the copy
    is a new entry. -/
def cloneValue : Value D → Θ → Option (Value D × Θ)
  | .list items, θ => (cloneValues items θ).map fun r => (.list r.1, r.2)
  | .set items, θ => (cloneValues items θ).map fun r => (.set r.1, r.2)
  | .map entries, θ => (cloneEntries entries θ).map fun r => (.map r.1, r.2)
  | .object entries, θ => (cloneEntries entries θ).map fun r => (.object r.1, r.2)
  | .classVal c, θ => (cl.cloneClass w c θ).map fun r => (orNull .classVal r.1, r.2)
  | .instanceVal i, θ => (cl.cloneInstance w i θ).map fun r => (orNull .instanceVal r.1, r.2)
  | .boundMethod i method, θ => (cl.cloneInstance w i θ).map fun r =>
    (orNull (fun j => .boundMethod j (cl.rebind j method r.2)) r.1, r.2)
  | v, θ => some (v, θ)

def cloneValues : List (Value D) → Θ → Option (List (Value D) × Θ)
  | [], θ => some ([], θ)
  | v :: vs, θ =>
    match cloneValue v θ with
    | none => none
    | some (v, θ) => (cloneValues vs θ).map fun r => (v :: r.1, r.2)

def cloneEntries : List (Name × Value D) → Θ → Option (List (Name × Value D) × Θ)
  | [], θ => some ([], θ)
  | (key, v) :: es, θ =>
    match cloneValue v θ with
    | none => none
    | some (v, θ) => (cloneEntries es θ).map fun r => ((key, v) :: r.1, r.2)
end

mutual
/-- `exprtk_value_store_to_env`: containers are built anew around the same objects. -/
def storeValue : Value D → Value D
  | .list items => .list (storeValues items)
  | .set items => .set (storeValues items)
  | .map entries => .map (storeEntries entries)
  | .object entries => .object (storeEntries entries)
  | v => v

def storeValues : List (Value D) → List (Value D)
  | [] => []
  | v :: vs => storeValue v :: storeValues vs

def storeEntries : List (Name × Value D) → List (Name × Value D)
  | [] => []
  | (key, v) :: es => (key, storeValue v) :: storeEntries es
end

mutual
/-- A class, an instance or a bound method is in it. -/
def holdsObject : Value D → Bool
  | .list items | .set items => anyHoldsObject items
  | .map entries | .object entries => entryHoldsObject entries
  | .classVal _ | .instanceVal _ | .boundMethod _ _ => true
  | _ => false

def anyHoldsObject : List (Value D) → Bool
  | [] => false
  | v :: vs => holdsObject v || anyHoldsObject vs

def entryHoldsObject : List (Name × Value D) → Bool
  | [] => false
  | (_, v) :: es => holdsObject v || entryHoldsObject es
end

mutual
/-- The value with null for each class, instance and bound method in it. -/
def withoutObjects : Value D → Value D
  | .list items => .list (allWithoutObjects items)
  | .set items => .set (allWithoutObjects items)
  | .map entries => .map (entriesWithoutObjects entries)
  | .object entries => .object (entriesWithoutObjects entries)
  | .classVal _ | .instanceVal _ | .boundMethod _ _ => .null
  | v => v

def allWithoutObjects : List (Value D) → List (Value D)
  | [] => []
  | v :: vs => withoutObjects v :: allWithoutObjects vs

def entriesWithoutObjects : List (Name × Value D) → List (Name × Value D)
  | [] => []
  | (key, v) :: es => (key, withoutObjects v) :: entriesWithoutObjects es
end

mutual
theorem storeValue_eq : ∀ v : Value D, storeValue v = v
  | .list items => congrArg Value.list (storeValues_eq items)
  | .set items => congrArg Value.set (storeValues_eq items)
  | .map entries => congrArg Value.map (storeEntries_eq entries)
  | .object entries => congrArg Value.object (storeEntries_eq entries)
  | .number _ | .string _ | .integer _ | .bool _ | .bytes _ | .vector _ | .null | .function _
  | .coroutine _ | .classVal _ | .instanceVal _ | .boundMethod _ _ | .uuid _ | .datetime _
  | .date _ _ _ | .time _ _ _ _ | .duration _ | .decimal _ | .bigint _ | .money _ _ | .enum _
  | .flags _ | .offsetDatetime _ _ | .typedArray _ _ => rfl

theorem storeValues_eq : ∀ vs : List (Value D), storeValues vs = vs
  | [] => rfl
  | v :: vs => congrArg₂ List.cons (storeValue_eq v) (storeValues_eq vs)

theorem storeEntries_eq : ∀ es : List (Name × Value D), storeEntries es = es
  | [] => rfl
  | (key, v) :: es =>
    congrArg₂ List.cons (congrArg (Prod.mk key) (storeValue_eq v)) (storeEntries_eq es)
end

mutual
theorem cloneValue_plain : ∀ (v : Value D) (θ : Θ), holdsObject v = false →
    cloneValue cl w v θ = some (v, θ)
  | .list items, θ, h | .set items, θ, h => by
    rw [cloneValue, cloneValues_plain items θ h]
    rfl
  | .map entries, θ, h | .object entries, θ, h => by
    rw [cloneValue, cloneEntries_plain entries θ h]
    rfl
  | .number _, _, _ | .string _, _, _ | .integer _, _, _ | .bool _, _, _ | .bytes _, _, _
  | .vector _, _, _ | .null, _, _ | .function _, _, _ | .coroutine _, _, _ | .uuid _, _, _
  | .datetime _, _, _ | .date _ _ _, _, _ | .time _ _ _ _, _, _ | .duration _, _, _
  | .decimal _, _, _ | .bigint _, _, _ | .money _ _, _, _ | .enum _, _, _ | .flags _, _, _
  | .offsetDatetime _ _, _, _ | .typedArray _ _, _, _ => rfl

theorem cloneValues_plain : ∀ (vs : List (Value D)) (θ : Θ), anyHoldsObject vs = false →
    cloneValues cl w vs θ = some (vs, θ)
  | [], _, _ => rfl
  | v :: vs, θ, h => by
    rw [anyHoldsObject, Bool.or_eq_false_iff] at h
    rw [cloneValues, cloneValue_plain v θ h.1]
    show (cloneValues cl w vs θ).map _ = _
    rw [cloneValues_plain vs θ h.2]
    rfl

theorem cloneEntries_plain : ∀ (es : List (Name × Value D)) (θ : Θ), entryHoldsObject es = false →
    cloneEntries cl w es θ = some (es, θ)
  | [], _, _ => rfl
  | (key, v) :: es, θ, h => by
    rw [entryHoldsObject, Bool.or_eq_false_iff] at h
    rw [cloneEntries, cloneValue_plain v θ h.1]
    show (cloneEntries cl w es θ).map _ = _
    rw [cloneEntries_plain es θ h.2]
    rfl
end

theorem orNull_withoutObjects {α : Type} {f : α → Value D} (h : ∀ a, withoutObjects (f a) = .null)
    (o : Option α) : withoutObjects (orNull f o) = .null := by
  cases o with
  | none => rfl
  | some a => exact h a

mutual
theorem cloneValue_withoutObjects : ∀ (v v' : Value D) (θ θ' : Θ),
    cloneValue cl w v θ = some (v', θ') → withoutObjects v' = withoutObjects v
  | .list items, v', θ, θ', h => by
    obtain ⟨⟨vs, θ₁⟩, hc, he⟩ := Option.map_eq_some_iff.1 h
    cases he
    exact congrArg Value.list (cloneValues_withoutObjects items vs θ _ hc)
  | .set items, v', θ, θ', h => by
    obtain ⟨⟨vs, θ₁⟩, hc, he⟩ := Option.map_eq_some_iff.1 h
    cases he
    exact congrArg Value.set (cloneValues_withoutObjects items vs θ _ hc)
  | .map entries, v', θ, θ', h => by
    obtain ⟨⟨es, θ₁⟩, hc, he⟩ := Option.map_eq_some_iff.1 h
    cases he
    exact congrArg Value.map (cloneEntries_withoutObjects entries es θ _ hc)
  | .object entries, v', θ, θ', h => by
    obtain ⟨⟨es, θ₁⟩, hc, he⟩ := Option.map_eq_some_iff.1 h
    cases he
    exact congrArg Value.object (cloneEntries_withoutObjects entries es θ _ hc)
  | .classVal _, _, _, _, h | .instanceVal _, _, _, _, h | .boundMethod _ _, _, _, _, h => by
    obtain ⟨r, -, he⟩ := Option.map_eq_some_iff.1 h
    cases he
    exact orNull_withoutObjects (fun _ => rfl) r.1
  | .number _, _, _, _, h | .string _, _, _, _, h | .integer _, _, _, _, h | .bool _, _, _, _, h
  | .bytes _, _, _, _, h | .vector _, _, _, _, h | .null, _, _, _, h | .function _, _, _, _, h
  | .coroutine _, _, _, _, h | .uuid _, _, _, _, h | .datetime _, _, _, _, h
  | .date _ _ _, _, _, _, h | .time _ _ _ _, _, _, _, h | .duration _, _, _, _, h
  | .decimal _, _, _, _, h | .bigint _, _, _, _, h | .money _ _, _, _, _, h | .enum _, _, _, _, h
  | .flags _, _, _, _, h | .offsetDatetime _ _, _, _, _, h | .typedArray _ _, _, _, _, h => by
    cases h
    rfl

theorem cloneValues_withoutObjects : ∀ (vs vs' : List (Value D)) (θ θ' : Θ),
    cloneValues cl w vs θ = some (vs', θ') → allWithoutObjects vs' = allWithoutObjects vs
  | [], _, _, _, h => by
    cases h
    rfl
  | v :: vs, vs', θ, θ', h => by
    rw [cloneValues] at h
    cases hv : cloneValue cl w v θ with
    | none =>
      rw [hv] at h
      cases h
    | some r =>
      rw [hv] at h
      obtain ⟨⟨us, θ₂⟩, hc, he⟩ := Option.map_eq_some_iff.1 h
      cases he
      exact congrArg₂ List.cons (cloneValue_withoutObjects v r.1 θ r.2 hv)
        (cloneValues_withoutObjects vs us r.2 _ hc)

theorem cloneEntries_withoutObjects : ∀ (es es' : List (Name × Value D)) (θ θ' : Θ),
    cloneEntries cl w es θ = some (es', θ') → entriesWithoutObjects es' = entriesWithoutObjects es
  | [], _, _, _, h => by
    cases h
    rfl
  | (key, v) :: es, es', θ, θ', h => by
    rw [cloneEntries] at h
    cases hv : cloneValue cl w v θ with
    | none =>
      rw [hv] at h
      cases h
    | some r =>
      rw [hv] at h
      obtain ⟨⟨us, θ₂⟩, hc, he⟩ := Option.map_eq_some_iff.1 h
      cases he
      exact congrArg₂ List.cons (congrArg (Prod.mk key) (cloneValue_withoutObjects v r.1 θ r.2 hv))
        (cloneEntries_withoutObjects es us r.2 _ hc)
end

end Values

/-! Environments. -/

structure Entry (D : Type) where
  name : Name
  value : Value D
  isConstant : Bool

abbrev Slots (D : Type) := List (Option (Entry D))

/-- An environment: the slots of its hash table, a deleted one being `none`, and its parents,
    nearest first. -/
structure Scope (D : Type) where
  slots : Slots D := []
  outer : List EnvId := []

structure Memory (D Θ : Type) where
  scopes : EnvId → Scope D
  next : EnvId
  objects : Θ
  /-- The parents of an environment exist. -/
  outer_lt : ∀ e < next, ∀ p ∈ (scopes e).outer, p < next

section Tables
variable {D : Type}

def live (slots : Slots D) : List (Entry D) := slots.filterMap id

def first (x : Name) (bs : List (Entry D)) : Option (Entry D) := bs.find? fun b => b.name = x

/-- `HTAB_FIND`. -/
def findEntry (x : Name) (slots : Slots D) : Option (Entry D) := first x (live slots)

/-- `HTAB_REPLACE`. -/
def replaceEntry (b : Entry D) (slots : Slots D) : Slots D :=
  slots.map fun slot => slot.map fun c => if c.name = b.name then b else c

/-- `HTAB_INSERT`. -/
def insertEntry (b : Entry D) (slots : Slots D) : Slots D := slots ++ [some b]

theorem first_append (x : Name) (bs bs' : List (Entry D)) :
    first x (bs ++ bs') = (first x bs).or (first x bs') := List.find?_append

theorem live_replaceEntry (b : Entry D) (slots : Slots D) :
    live (replaceEntry b slots) = (live slots).map fun c => if c.name = b.name then b else c := by
  unfold live replaceEntry
  rw [List.filterMap_map, List.map_filterMap]
  rfl

theorem findEntry_replaceEntry (b : Entry D) (slots : Slots D) (y : Name) :
    findEntry y (replaceEntry b slots) =
      if y = b.name then (findEntry y slots).map fun _ => b else findEntry y slots := by
  unfold findEntry
  rw [live_replaceEntry]
  generalize live slots = bs
  induction bs with
  | nil =>
    rw [List.map_nil]
    by_cases hy : y = b.name
    · rw [if_pos hy]
      rfl
    · rw [if_neg hy]
  | cons c bs ih =>
    unfold first at ih ⊢
    rw [List.map_cons, List.find?_cons, List.find?_cons, ih]
    by_cases hc : c.name = b.name
    · -- the entry is the one replaced: both ask for its name
      rw [if_pos hc, hc]
      by_cases hy : y = b.name
      · simp [hy]
      · simp [hy, Ne.symm hy]
    · rw [if_neg hc]
      by_cases hy : c.name = y
      · have hb : y ≠ b.name := by
          rw [← hy]
          exact hc
        simp [hy, hb]
      · simp [hy]

theorem findEntry_insertEntry {b : Entry D} {slots : Slots D} (h : findEntry b.name slots = none)
    (y : Name) : findEntry y (insertEntry b slots) = if y = b.name then some b else findEntry y slots := by
  unfold findEntry insertEntry live
  unfold findEntry live at h
  rw [List.filterMap_append, first_append]
  by_cases hy : y = b.name
  · rw [if_pos hy, hy, h]
    simp [first]
  · rw [if_neg hy]
    simp [first, Ne.symm hy]

end Tables

section Environments
variable {D Θ : Type}

namespace Memory

/-- The environment and its parents, as `curr_env = curr_env->parent` visits them. -/
def path (m : Memory D Θ) (e : EnvId) : List EnvId := e :: (m.scopes e).outer

def slots (m : Memory D Θ) (e : EnvId) : Slots D := (m.scopes e).slots

def setSlots (m : Memory D Θ) (e : EnvId) (slots : Slots D) : Memory D Θ where
  scopes := update m.scopes e { m.scopes e with slots := slots }
  next := m.next
  objects := m.objects
  outer_lt := by
    intro i hi p hp
    by_cases h : i = e
    · subst h
      rw [update_self] at hp
      exact m.outer_lt i hi p hp
    · rw [update_of_ne h] at hp
      exact m.outer_lt i hi p hp

def setObjects (m : Memory D Θ) (objects : Θ) : Memory D Θ := { m with objects := objects }

theorem setSlots_slots (m : Memory D Θ) (e i : EnvId) (slots : Slots D) :
    (m.setSlots e slots).slots i = if i = e then slots else m.slots i := by
  by_cases h : i = e
  · subst h
    simp [Memory.slots, setSlots]
  · simp [Memory.slots, setSlots, h]

theorem setSlots_path (m : Memory D Θ) (e i : EnvId) (slots : Slots D) :
    (m.setSlots e slots).path i = m.path i := by
  by_cases h : i = e
  · subst h
    simp [path, setSlots]
  · simp [path, setSlots, h]

theorem path_lt (m : Memory D Θ) {e : EnvId} (he : e < m.next) : ∀ i ∈ m.path e, i < m.next := by
  intro i hi
  rcases List.mem_cons.1 hi with rfl | hi
  · exact he
  · exact m.outer_lt e he i hi

end Memory

def lookup (m : Memory D Θ) (e : EnvId) (x : Name) : Option (Entry D) :=
  (m.path e).findSome? fun i => findEntry x (m.slots i)

/-- `exprtk_env_get`: an unbound name reads as the number zero. -/
def envGet [Double D] (m : Memory D Θ) (e : EnvId) (x : Name) : Value D :=
  match lookup m e x with
  | some b => b.value
  | none => zero

/-- A value put into the table of one environment; constants stay. -/
def writeLocal (m : Memory D Θ) (e : EnvId) (x : Name) (v : Value D) : Memory D Θ :=
  match findEntry x (m.slots e) with
  | some b => if b.isConstant then m else m.setSlots e (replaceEntry { b with value := v } (m.slots e))
  | none => m.setSlots e (insertEntry ⟨x, v, false⟩ (m.slots e))

def envSetLocal (m : Memory D Θ) (e : EnvId) (x : Name) (v : Value D) : Memory D Θ :=
  writeLocal m e x (storeValue v)

/-- `exprtk_env_set_local_cloned`: nothing is copied for a name that is a constant there. -/
def envSetLocalCloned (cl : Cloner D Θ) (m : Memory D Θ) (e : EnvId) (x : Name) (v : Value D) :
    Option (Memory D Θ) :=
  match findEntry x (m.slots e) with
  | some ⟨_, _, true⟩ => some m
  | _ => (cloneValue cl e v m.objects).map fun r => (writeLocal m e x r.1).setObjects r.2

def envSet (m : Memory D Θ) (e : EnvId) (x : Name) (v : Value D) : Memory D Θ :=
  match (m.path e).find? fun i => (findEntry x (m.slots i)).isSome with
  | some i => writeLocal m i x (storeValue v)
  | none => envSetLocal m e x v

def envSetConstant (m : Memory D Θ) (e : EnvId) (x : Name) (v : Value D) : Memory D Θ :=
  let m := envSet m e x v
  match findEntry x (m.slots e) with
  | some b => m.setSlots e (replaceEntry { b with isConstant := true } (m.slots e))
  | none => m

/-! The walk. -/

section Walk
variable (cl : Cloner D Θ)

/-- Without a list of names all are wanted. -/
def wanted (names : Option (List Name)) (x : Name) : Bool :=
  match names with
  | some ns => x ∈ ns
  | none => true

/-- An entry is taken over if it is wanted and its name is new. -/
def captureEntry (names : Option (List Name)) (w : EnvId) (b : Entry D) (m : Memory D Θ) :
    Option (Memory D Θ) :=
  if !wanted names b.name || (findEntry b.name (m.slots w)).isSome then some m
  else
    (envSetLocalCloned cl m w b.name b.value).map fun m =>
      if b.isConstant then envSetConstant m w b.name b.value else m

def captureSlots (names : Option (List Name)) (w : EnvId) : Slots D → Memory D Θ → Option (Memory D Θ)
  | [], m => some m
  | none :: slots, m => captureSlots names w slots m
  | some b :: slots, m => (captureEntry cl names w b m).bind (captureSlots names w slots)

def captureScopes (names : Option (List Name)) (w : EnvId) : List EnvId → Memory D Θ → Option (Memory D Θ)
  | [], m => some m
  | i :: is, m => (captureSlots cl names w (m.slots i) m).bind (captureScopes names w is)

def newScope (m : Memory D Θ) : Memory D Θ where
  scopes := update m.scopes m.next {}
  next := m.next + 1
  objects := m.objects
  outer_lt := by
    intro e he p hp
    by_cases h : e = m.next
    · rw [h, update_self] at hp
      cases hp
    · rw [update_of_ne h] at hp
      have he' : e < m.next := Nat.lt_of_le_of_ne (Nat.lt_succ_iff.1 he) h
      exact Nat.lt_succ_of_lt (m.outer_lt e he' p hp)

/-- `exprtk_env_snapshot_names`. -/
def snapshotNames (m : Memory D Θ) (e : EnvId) (names : Option (List Name)) : Option (EnvId × Memory D Θ) :=
  (captureScopes cl names m.next (m.path e) (newScope m)).map fun m' => (m.next, m')

end Walk

/-! One table and its setters. -/

theorem findEntry_writeLocal (m : Memory D Θ) (e : EnvId) (x : Name) (v : Value D)
    (h : findEntry x (m.slots e) = none) (y : Name) :
    findEntry y ((writeLocal m e x v).slots e) =
      if y = x then some ⟨x, v, false⟩ else findEntry y (m.slots e) := by
  unfold writeLocal
  rw [h]
  show findEntry y ((m.setSlots e _).slots e) = _
  rw [Memory.setSlots_slots, if_pos rfl]
  exact findEntry_insertEntry h y

structure Confined (w : EnvId) (m m' : Memory D Θ) : Prop where
  slots : ∀ i, i ≠ w → m'.slots i = m.slots i
  path : ∀ i, m'.path i = m.path i
  next : m'.next = m.next

namespace Confined

theorem refl (w : EnvId) (m : Memory D Θ) : Confined w m m := ⟨fun _ _ => rfl, fun _ => rfl, rfl⟩

theorem trans {w : EnvId} {m m' m'' : Memory D Θ} (h : Confined w m m') (h' : Confined w m' m'') :
    Confined w m m'' where
  slots i hi := (h'.slots i hi).trans (h.slots i hi)
  path i := (h'.path i).trans (h.path i)
  next := h'.next.trans h.next

theorem setSlots (m : Memory D Θ) (w : EnvId) (slots : Slots D) : Confined w m (m.setSlots w slots) where
  slots i hi := by rw [Memory.setSlots_slots, if_neg hi]
  path i := Memory.setSlots_path m w i slots
  next := rfl

theorem setObjects (m : Memory D Θ) (w : EnvId) (objects : Θ) :
    Confined w m (m.setObjects objects) := ⟨fun _ _ => rfl, fun _ => rfl, rfl⟩

theorem writeLocal (m : Memory D Θ) (w : EnvId) (x : Name) (v : Value D) :
    Confined w m (writeLocal m w x v) := by
  unfold Capture.writeLocal
  cases findEntry x (m.slots w) with
  | none => exact setSlots m w _
  | some b =>
    show Confined w m (if b.isConstant then m else _)
    by_cases hb : b.isConstant
    · rw [if_pos hb]
      exact refl w m
    · rw [if_neg hb]
      exact setSlots m w _

end Confined

variable {m : Memory D Θ} {e : EnvId}

theorem envSet_here {x : Name} {b : Entry D} (h : findEntry x (m.slots e) = some b) (v : Value D) :
    envSet m e x v = writeLocal m e x v := by
  unfold envSet Memory.path
  rw [List.find?_cons, h]
  show writeLocal m e x (storeValue v) = _
  rw [storeValue_eq]

theorem findEntry_envSetConstant {x : Name} {u : Value D}
    (h : findEntry x (m.slots e) = some ⟨x, u, false⟩) (v : Value D) (y : Name) :
    findEntry y ((envSetConstant m e x v).slots e) =
      if y = x then some ⟨x, v, true⟩ else findEntry y (m.slots e) := by
  have hwrite : (writeLocal m e x v).slots e = replaceEntry ⟨x, v, false⟩ (m.slots e) := by
    unfold writeLocal
    rw [h]
    show (m.setSlots e _).slots e = _
    rw [Memory.setSlots_slots, if_pos rfl]
  have hfind : findEntry x ((writeLocal m e x v).slots e) = some ⟨x, v, false⟩ := by
    rw [hwrite, findEntry_replaceEntry, if_pos rfl, h]
    rfl
  unfold envSetConstant
  rw [envSet_here h]
  show findEntry y (Memory.slots (match findEntry x ((writeLocal m e x v).slots e) with
    | some b => _
    | none => _) e) = _
  rw [hfind]
  show findEntry y ((Memory.setSlots _ e _).slots e) = _
  rw [Memory.setSlots_slots, if_pos rfl, hwrite, findEntry_replaceEntry, findEntry_replaceEntry]
  by_cases hy : y = x
  · subst hy
    simp [h]
  · simp [hy]

theorem Confined.envSetConstant {w : EnvId} {x : Name} {b : Entry D}
    (h : findEntry x (m.slots w) = some b) (v : Value D) :
    Confined w m (envSetConstant m w x v) := by
  unfold Capture.envSetConstant
  rw [envSet_here h]
  have hwrite := Confined.writeLocal m w x v
  show Confined w m (match findEntry x ((Capture.writeLocal m w x v).slots w) with
    | some b => _
    | none => _)
  cases findEntry x ((Capture.writeLocal m w x v).slots w) with
  | none => exact hwrite
  | some b => exact hwrite.trans (Confined.setSlots _ w _)

/-! What the walk leaves in the snapshot. -/

section Captured
variable (cl : Cloner D Θ)

/-- How the snapshot `w` holds an entry: a constant with its value, a variable with the copy
    made of it, which differs from it in its objects only. -/
structure HeldAs (w : EnvId) (b b' : Entry D) : Prop where
  isConstant : b'.isConstant = b.isConstant
  constant : b.isConstant = true → b'.value = b.value
  cloned : b.isConstant = false → ∃ θ θ', cloneValue cl w b.value θ = some (b'.value, θ')

/-- What is found for a name that the entries `bs` may bind. -/
def Taken (names : Option (List Name)) (w : EnvId) (bs : List (Entry D)) (x : Name)
    (r : Option (Entry D)) : Prop :=
  match if wanted names x then first x bs else none with
  | some b => ∃ b', r = some b' ∧ HeldAs cl w b b'
  | none => r = none

/-- The entries `bs` are gone through: names that were bound in `w` are so still, the others
    as the first of `bs` says. -/
structure Captured (names : Option (List Name)) (w : EnvId) (bs : List (Entry D))
    (m m' : Memory D Θ) : Prop extends Confined w m m' where
  kept : ∀ x b, findEntry x (m.slots w) = some b → findEntry x (m'.slots w) = some b
  taken : ∀ x, findEntry x (m.slots w) = none → Taken cl names w bs x (findEntry x (m'.slots w))

variable {cl}

theorem Captured.nil (names : Option (List Name)) (w : EnvId) (m : Memory D Θ) :
    Captured cl names w [] m m where
  toConfined := Confined.refl w m
  kept _ _ h := h
  taken x h := by
    unfold Taken first
    rw [List.find?_nil, ite_self]
    exact h

variable {names : Option (List Name)} {w : EnvId} {m m' : Memory D Θ}

theorem Captured.append {bs bs' : List (Entry D)} {m'' : Memory D Θ}
    (h : Captured cl names w bs m m') (h' : Captured cl names w bs' m' m'') :
    Captured cl names w (bs ++ bs') m m'' where
  toConfined := h.toConfined.trans h'.toConfined
  kept x b hb := h'.kept x b (h.kept x b hb)
  taken x hx := by
    have ht := h.taken x hx
    unfold Taken at ht ⊢
    rw [first_append]
    by_cases hw : wanted names x = true
    · rw [if_pos hw] at ht ⊢
      cases hf : first x bs with
      | some b =>
        rw [hf] at ht
        obtain ⟨b', hb', hh⟩ := ht
        exact ⟨b', h'.kept x b' hb', hh⟩
      | none =>
        rw [hf] at ht
        have ht' := h'.taken x ht
        unfold Taken at ht'
        rw [if_pos hw] at ht'
        exact ht'
    · rw [if_neg hw] at ht ⊢
      have ht' := h'.taken x ht
      unfold Taken at ht'
      rw [if_neg hw] at ht'
      exact ht'

theorem Captured.skip {b : Entry D}
    (h : wanted names b.name = false ∨ (findEntry b.name (m.slots w)).isSome = true) :
    Captured cl names w [b] m m where
  toConfined := Confined.refl w m
  kept _ _ h := h
  taken x hx := by
    have hnone : (if wanted names x then first x [b] else none) = none := by
      by_cases hw : wanted names x = true
      · rw [if_pos hw]
        by_cases hb : b.name = x
        · subst hb
          rcases h with h | h
          · rw [hw] at h
            cases h
          · rw [hx] at h
            cases h
        · simp [first, hb]
      · rw [if_neg hw]
    unfold Taken
    rw [hnone]
    exact hx

theorem captureEntry_new {b : Entry D} (hw : wanted names b.name = true)
    (hnew : findEntry b.name (m.slots w) = none)
    (h : (envSetLocalCloned cl m w b.name b.value).map (fun m =>
      if b.isConstant then envSetConstant m w b.name b.value else m) = some m') :
    Captured cl names w [b] m m' := by
  have hset : envSetLocalCloned cl m w b.name b.value = (cloneValue cl w b.value m.objects).map fun r =>
        (writeLocal m w b.name r.1).setObjects r.2 := by
    unfold envSetLocalCloned
    rw [hnew]
  rw [hset, Option.map_map] at h
  obtain ⟨⟨u, θ⟩, hclone, rfl⟩ := Option.map_eq_some_iff.1 h
  have hwritten : ∀ y, findEntry y (((writeLocal m w b.name u).setObjects θ).slots w) =
      if y = b.name then some ⟨b.name, u, false⟩ else findEntry y (m.slots w) :=
    findEntry_writeLocal m w b.name u hnew
  have hhere := hwritten b.name
  rw [if_pos rfl] at hhere
  have hconf : Confined w m ((writeLocal m w b.name u).setObjects θ) :=
    (Confined.writeLocal m w b.name u).trans (Confined.setObjects _ w θ)
  -- the entry as it stands in the end, and that no other one has changed
  have hfound : ∃ b', HeldAs cl w b b' ∧ Confined w m (if b.isConstant then
        envSetConstant ((writeLocal m w b.name u).setObjects θ) w b.name b.value
        else (writeLocal m w b.name u).setObjects θ) ∧
      ∀ y, findEntry y ((if b.isConstant then
        envSetConstant ((writeLocal m w b.name u).setObjects θ) w b.name b.value
        else (writeLocal m w b.name u).setObjects θ).slots w) =
        if y = b.name then some b' else findEntry y (m.slots w) := by
    by_cases hb : b.isConstant = true
    · rw [if_pos hb]
      refine ⟨⟨b.name, b.value, true⟩, ⟨hb.symm, fun _ => rfl, ?_⟩, ?_, ?_⟩
      · intro hf
        rw [hb] at hf
        cases hf
      · exact hconf.trans (Confined.envSetConstant hhere b.value)
      · intro y
        rw [findEntry_envSetConstant hhere b.value y, hwritten y]
        by_cases hy : y = b.name
        · rw [if_pos hy, if_pos hy]
        · rw [if_neg hy, if_neg hy, if_neg hy]
    · rw [if_neg hb]
      have hfalse : b.isConstant = false := Bool.not_eq_true _ ▸ hb
      exact ⟨⟨b.name, u, false⟩,
        ⟨hfalse.symm, fun ht => absurd ht hb, fun _ => ⟨m.objects, θ, hclone⟩⟩, hconf, hwritten⟩
  obtain ⟨b', hheld, hconf', hfind⟩ := hfound
  refine ⟨hconf', ?_, ?_⟩
  · intro x c hc
    have hx : x ≠ b.name := by
      rintro rfl
      rw [hnew] at hc
      cases hc
    exact (hfind x).trans ((if_neg hx).trans hc)
  · intro x hx
    unfold Taken
    by_cases hxb : x = b.name
    · subst hxb
      have hfirst : first b.name [b] = some b := by simp [first]
      rw [if_pos hw, hfirst]
      exact ⟨b', (hfind b.name).trans (if_pos rfl), hheld⟩
    · have hnone : (if wanted names x then first x [b] else none) = none := by
        simp [first, Ne.symm hxb]
      rw [hnone]
      exact (hfind x).trans ((if_neg hxb).trans hx)

theorem captureEntry_captured {b : Entry D} (h : captureEntry cl names w b m = some m') :
    Captured cl names w [b] m m' := by
  unfold captureEntry at h
  by_cases hs : (!wanted names b.name || (findEntry b.name (m.slots w)).isSome) = true
  · rw [if_pos hs] at h
    cases h
    rw [Bool.or_eq_true, Bool.not_eq_true'] at hs
    exact Captured.skip hs
  · rw [if_neg hs] at h
    rw [Bool.not_eq_true, Bool.or_eq_false_iff, Bool.not_eq_false'] at hs
    exact captureEntry_new hs.1 (Option.isNone_iff_eq_none.1 (by simpa using hs.2)) h

theorem captureSlots_captured (slots : Slots D) (h : captureSlots cl names w slots m = some m') :
    Captured cl names w (live slots) m m' := by
  induction slots generalizing m with
  | nil =>
    cases h
    exact Captured.nil names w _
  | cons slot slots ih =>
    cases slot with
    | none => exact ih h
    | some b =>
      obtain ⟨m₁, h₁, h₂⟩ := Option.bind_eq_some_iff.1 h
      exact (captureEntry_captured h₁).append (ih h₂)

theorem captureScopes_captured (is : List EnvId) (hw : w ∉ is)
    (h : captureScopes cl names w is m = some m') :
    Captured cl names w (is.flatMap fun i => live (m.slots i)) m m' := by
  induction is generalizing m with
  | nil =>
    cases h
    exact Captured.nil names w _
  | cons i is ih =>
    rw [List.mem_cons, not_or] at hw
    obtain ⟨m₁, h₁, h₂⟩ := Option.bind_eq_some_iff.1 h
    have head := captureSlots_captured (m.slots i) h₁
    have tail := ih hw.2 h₂
    have hsame : (is.flatMap fun j => live (m₁.slots j)) = is.flatMap fun j => live (m.slots j) := by
      apply List.flatMap_congr
      intro j hj
      have hne : j ≠ w := by
        rintro rfl
        exact hw.2 hj
      rw [head.slots j hne]
    rw [hsame] at tail
    exact head.append tail

theorem lookup_eq_first (m : Memory D Θ) (e : EnvId) (x : Name) :
    lookup m e x = first x ((m.path e).flatMap fun i => live (m.slots i)) := by
  unfold lookup
  induction m.path e with
  | nil => rfl
  | cons i is ih =>
    rw [List.findSome?_cons, List.flatMap_cons, first_append, ← ih]
    have hfind : first x (live (m.slots i)) = findEntry x (m.slots i) := rfl
    rw [hfind]
    cases findEntry x (m.slots i) with
    | none | some => rfl

end Captured

/-! Later assignments. -/

inductive Assign (D : Type)
  | set (x : Name) (v : Value D)
  | setLocal (x : Name) (v : Value D)
  | setConstant (x : Name) (v : Value D)

def Assign.perform (e : EnvId) (m : Memory D Θ) : Assign D → Memory D Θ
  | .set x v => envSet m e x v
  | .setLocal x v => envSetLocal m e x v
  | .setConstant x v => envSetConstant m e x v

/-- Tables outside the chain of the environment stay, and so do all chains. -/
structure Reaches (e : EnvId) (m m' : Memory D Θ) : Prop where
  slots : ∀ i, i ∉ m.path e → m'.slots i = m.slots i
  path : ∀ i, m'.path i = m.path i

theorem Confined.reaches {w : EnvId} {m' : Memory D Θ} (hw : w ∈ m.path e) (h : Confined w m m') :
    Reaches e m m' where
  slots i hi := by
    apply h.slots i
    rintro rfl
    exact hi hw
  path := h.path

theorem Reaches.trans {m' m'' : Memory D Θ} (h : Reaches e m m') (h' : Reaches e m' m'') :
    Reaches e m m'' where
  slots i hi := by
    have hi' : i ∉ m'.path e := by
      rw [h.path e]
      exact hi
    exact (h'.slots i hi').trans (h.slots i hi)
  path i := (h'.path i).trans (h.path i)

theorem self_mem_path (m : Memory D Θ) (e : EnvId) : e ∈ m.path e := List.mem_cons_self

theorem envSet_reaches (m : Memory D Θ) (e : EnvId) (x : Name) (v : Value D) :
    Reaches e m (envSet m e x v) := by
  unfold envSet
  cases hf : (m.path e).find? fun i => (findEntry x (m.slots i)).isSome with
  | some i => exact (Confined.writeLocal m i x _).reaches (List.mem_of_find?_eq_some hf)
  | none => exact (Confined.writeLocal m e x _).reaches (self_mem_path m e)

theorem perform_reaches (m : Memory D Θ) (e : EnvId) (a : Assign D) : Reaches e m (a.perform e m) := by
  cases a with
  | set x v => exact envSet_reaches m e x v
  | setLocal x v => exact (Confined.writeLocal m e x _).reaches (self_mem_path m e)
  | setConstant x v =>
    have hset := envSet_reaches m e x v
    show Reaches e m (match findEntry x ((envSet m e x v).slots e) with
      | some b => _
      | none => _)
    cases findEntry x ((envSet m e x v).slots e) with
    | none => exact hset
    | some b => exact hset.trans ((Confined.setSlots _ e _).reaches (self_mem_path _ e))

theorem assigns_reach (e : EnvId) (as : List (Assign D)) (m : Memory D Θ) :
    Reaches e m (as.foldl (Assign.perform e) m) := by
  induction as generalizing m with
  | nil => exact ⟨fun _ _ => rfl, fun _ => rfl⟩
  | cons a as ih => exact (perform_reaches m e a).trans (ih (a.perform e m))

/-! The snapshot. -/

section Snapshot
variable {cl : Cloner D Θ}

/-- The snapshot, seen from the environment it was taken of: its table is what the chain has,
    it has no parent, and it lies outside the chain. -/
structure Snapshot (cl : Cloner D Θ) (names : Option (List Name)) (e w : EnvId)
    (m m' : Memory D Θ) : Prop where
  taken : ∀ x, Taken cl names w ((m.path e).flatMap fun i => live (m.slots i)) x
    (findEntry x (m'.slots w))
  alone : m'.path w = [w]
  apart : w ∉ m'.path e

theorem newScope_slots (m : Memory D Θ) {i : EnvId} (h : i ≠ m.next) :
    (newScope m).slots i = m.slots i := by
  show (update m.scopes m.next {} i).slots = _
  rw [update_of_ne h]
  rfl

theorem snapshotNames_spec {m m' : Memory D Θ} {e w : EnvId} (he : e < m.next)
    {names : Option (List Name)} (h : snapshotNames cl m e names = some (w, m')) :
    Snapshot cl names e w m m' := by
  obtain ⟨m₁, hwalk, hpair⟩ := Option.map_eq_some_iff.1 h
  cases hpair
  have hout : m.next ∉ m.path e := fun hi => Nat.lt_irrefl _ (m.path_lt he _ hi)
  have hne : e ≠ m.next := Nat.ne_of_lt he
  have hpath : (newScope m).path e = m.path e := by
    show e :: (update m.scopes m.next {} e).outer = _
    rw [update_of_ne hne]
    rfl
  have hnew : (newScope m).path m.next = [m.next] := by
    show m.next :: (update m.scopes m.next {} m.next).outer = _
    rw [update_self]
  have hempty : (newScope m).slots m.next = [] := by
    show (update m.scopes m.next {} m.next).slots = _
    rw [update_self]
  have hall := captureScopes_captured (m.path e) hout hwalk
  have hsame : ((m.path e).flatMap fun i => live ((newScope m).slots i)) =
      (m.path e).flatMap fun i => live (m.slots i) := by
    apply List.flatMap_congr
    intro i hi
    rw [newScope_slots m (Nat.ne_of_lt (m.path_lt he i hi))]
  rw [hsame] at hall
  refine ⟨fun x => hall.taken x ?_, (hall.path m.next).trans hnew, ?_⟩
  · rw [hempty]
    rfl
  · rw [hall.path e, hpath]
    exact hout

theorem lookup_alone {m : Memory D Θ} {w : EnvId} (h : m.path w = [w]) (x : Name) :
    lookup m w x = findEntry x (m.slots w) := by
  unfold lookup
  rw [h, List.findSome?_cons]
  cases findEntry x (m.slots w) with
  | none | some => rfl

/-- What a snapshot of the names `ns` says of a name. -/
structure Agrees (cl : Cloner D Θ) [Double D] (ns : List Name) (e w : EnvId) (m m' : Memory D Θ)
    (x : Name) : Prop where
  /-- A name that is not listed is unbound in it. -/
  unlisted : x ∉ ns → lookup m' w x = none
  /-- A listed name is bound in it just when it is bound on the chain. -/
  bound : x ∈ ns → ((lookup m' w x).isSome = (lookup m e x).isSome)
  constness : x ∈ ns → (lookup m' w x).map Entry.isConstant = (lookup m e x).map Entry.isConstant
  /-- A constant has its value. -/
  constant : x ∈ ns → (lookup m e x).map Entry.isConstant = some true →
    envGet m' w x = envGet m e x
  /-- A variable has a copy of its value, in which only the objects are others. -/
  cloned : x ∈ ns → (lookup m e x).map Entry.isConstant = some false →
    ∃ θ θ', cloneValue cl w (envGet m e x) θ = some (envGet m' w x, θ')
  shape : x ∈ ns → withoutObjects (envGet m' w x) = withoutObjects (envGet m e x)
  plain : x ∈ ns → holdsObject (envGet m e x) = false → envGet m' w x = envGet m e x

theorem snapshot_agrees [Double D] {names : List Name} {e w : EnvId} {m m' : Memory D Θ}
    (h : Snapshot cl (some names) e w m m') (x : Name) : Agrees cl names e w m m' x := by
  have htaken := h.taken x
  rw [← lookup_alone h.alone x] at htaken
  unfold Taken at htaken
  rw [← lookup_eq_first m e x] at htaken
  by_cases hx : x ∈ names
  · have hw : wanted (some names) x = true := decide_eq_true hx
    rw [if_pos hw] at htaken
    cases hb : lookup m e x with
    | none =>
      -- unbound in both: both read as zero
      rw [hb] at htaken
      have hget : envGet m' w x = envGet m e x := by
        unfold envGet
        rw [htaken, hb]
      refine ⟨fun hn => absurd hx hn, fun _ => by rw [htaken, hb], fun _ => by rw [htaken, hb], ?_, ?_,
        fun _ => by rw [hget], fun _ _ => hget⟩
      · intro _ hc
        exact hget
      · intro _ hc
        rw [hb] at hc
        cases hc
    | some b =>
      rw [hb] at htaken
      obtain ⟨b', hb', hheld⟩ := htaken
      have hget : envGet m e x = b.value := by
        unfold envGet
        rw [hb]
      have hget' : envGet m' w x = b'.value := by
        unfold envGet
        rw [hb']
      have hequal : (b.isConstant = true ∨ holdsObject b.value = false) → b'.value = b.value := by
        intro hor
        by_cases hc : b.isConstant = true
        · exact hheld.constant hc
        · obtain ⟨θ, θ', hcopy⟩ := hheld.cloned (Bool.not_eq_true _ ▸ hc)
          rcases hor with hor | hor
          · exact absurd hor hc
          · rw [cloneValue_plain cl w b.value θ hor] at hcopy
            exact (congrArg Prod.fst (Option.some.inj hcopy)).symm
      refine ⟨fun hn => absurd hx hn, fun _ => by rw [hb', hb]; rfl, ?_, ?_, ?_, ?_, ?_⟩
      · intro _
        rw [hb', hb]
        exact congrArg some hheld.isConstant
      · intro _ hc
        rw [hb] at hc
        rw [hget', hget]
        exact hequal (.inl (Option.some.inj hc))
      · intro _ hc
        rw [hb] at hc
        rw [hget', hget]
        exact hheld.cloned (Option.some.inj hc)
      · intro _
        rw [hget', hget]
        by_cases hc : b.isConstant = true
        · rw [hheld.constant hc]
        · obtain ⟨θ, θ', hcopy⟩ := hheld.cloned (Bool.not_eq_true _ ▸ hc)
          exact cloneValue_withoutObjects cl w b.value b'.value θ θ' hcopy
      · intro _ hp
        rw [hget] at hp
        rw [hget', hget]
        exact hequal (.inr hp)
  · have hw : ¬wanted (some names) x = true := by
      show ¬decide (x ∈ names) = true
      rwa [decide_eq_true_eq]
    rw [if_neg hw] at htaken
    refine ⟨fun _ => htaken, ?_, ?_, ?_, ?_, ?_, ?_⟩ <;> exact fun h => absurd h hx

end Snapshot

end Environments

/-- `const k = 3; p = new Point()`, the instance being number 1. -/
def pointMemory : Memory ℚ Nat where
  scopes := fun e => if e = 0
    then { slots := [some ⟨"k", .integer 3, true⟩, none, some ⟨"p", .instanceVal 1, false⟩] } else {}
  next := 1
  objects := 2
  outer_lt := by
    intro e he p hp
    rw [Nat.lt_one_iff.1 he] at hp
    cases hp

def numbering : Cloner ℚ Nat where
  cloneClass _ _ n := some (some n, n + 1)
  cloneInstance _ _ n := some (some n, n + 1)
  rebind _ method _ := method

/-- Every listed name that is bound has the value it had. -/
def SameValues (names : List Name) (e w : EnvId) (m m' : Memory ℚ Nat) : Prop :=
  ∀ x ∈ names, (lookup m e x).isSome = true → envGet m' w x = envGet m e x

end TurboScript.Exprtk.Capture
