import TurboScript.Oop.Define

/- What never changes about a class and an instance.

   A class that has been defined keeps its name, its prototype and its methods. The layout
   of its instance fields and its static fields only grow at the end. An instance keeps its
   class and its used slots, and its slots move only when the version of its fields changes.

   1. Lookups that depend on the chain only.
   2. `WorldOk`: prototypes come before their subclasses, the static version counts the
      entries, and what an instance stores it has a slot for.
   3. `Kept`, and that every operation keeps both. -/
namespace TurboScript.Oop
open Function
open Exprtk (Name ClassId InstanceId AccessLevel)

/-! Lookups. -/

section Lookups
variable {V : Type} {w w' : World V}

theorem mem_of_lookup {α β : Type} [BEq α] [LawfulBEq α] {l : List (α × β)} {a : α} {b : β}
    (h : l.lookup a = some b) : (a, b) ∈ l := by
  obtain ⟨before, after, he, -⟩ := List.lookup_eq_some_iff.mp h
  rw [he]
  exact List.mem_append_right _ List.mem_cons_self

theorem chainFrom_congr (n : Nat) : ∀ c,
    (∀ k ∈ chainFrom w.classes n c, (w'.classes k).prototype = (w.classes k).prototype) →
      chainFrom w'.classes n c = chainFrom w.classes n c := by
  induction n with
  | zero => intro c _; rfl
  | succ n ih =>
    intro c h
    simp only [chainFrom] at h ⊢
    rw [h c (List.mem_cons_self ..)]
    congr 1
    cases hp : (w.classes c).prototype with
    | none => rfl
    | some p =>
      rw [hp] at h
      exact ih p fun k hk => h k (List.mem_cons_of_mem _ hk)

theorem chain_congr {c : ClassId}
    (h : ∀ k ∈ chain w c, (w'.classes k).prototype = (w.classes k).prototype) :
    chain w' c = chain w c := chainFrom_congr (c + 1) c h

theorem findSome_congr {α β : Type} {f g : α → Option β} :
    ∀ {l : List α}, (∀ a ∈ l, f a = g a) → l.findSome? f = l.findSome? g
  | [], _ => rfl
  | a :: l, h => by
    rw [List.findSome?_cons, List.findSome?_cons, h a (List.mem_cons_self ..),
      findSome_congr fun b hb => h b (List.mem_cons_of_mem _ hb)]

theorem self_mem_chain (w : World V) (c : ClassId) : c ∈ chain w c := by
  simp [chain, chainFrom]

theorem lookupMethodTyped_congr {c : ClassId}
    (hp : ∀ k ∈ chain w c, (w'.classes k).prototype = (w.classes k).prototype)
    (hm : ∀ k ∈ chain w c, ∀ s, methodTable w' k s = methodTable w k s)
    (name : Name) (isStatic : Bool) (types : List Name) (scores : List (Method → Name → Nat)) :
    lookupMethodTyped w' c name isStatic types scores =
      lookupMethodTyped w c name isStatic types scores := by
  unfold lookupMethodTyped
  rw [chain_congr hp]
  exact findSome_congr fun k hk => by rw [hm k hk]

theorem lookupMethod_congr {c : ClassId}
    (hp : ∀ k ∈ chain w c, (w'.classes k).prototype = (w.classes k).prototype)
    (hm : ∀ k ∈ chain w c, ∀ s, methodTable w' k s = methodTable w k s)
    (name : Name) (isStatic : Bool) :
    lookupMethod w' c name isStatic = lookupMethod w c name isStatic := by
  unfold lookupMethod
  rw [chain_congr hp]
  exact findSome_congr fun k hk => by rw [hm k hk]

end Lookups

section Chains
variable {V : Type} {w : World V}

variable {bound c : ClassId}

theorem chainFrom_lt (h : ∀ c < bound, ∀ p, (w.classes c).prototype = some p → p < c) (n : Nat) :
    ∀ c, c < bound → ∀ k ∈ chainFrom w.classes n c, k ≤ c := by
  induction n with
  | zero => intro c _ k hk; cases hk
  | succ n ih =>
    intro c hc k hk
    simp only [chainFrom] at hk
    obtain rfl | hk := List.mem_cons.mp hk
    · exact Nat.le_refl _
    · cases hp : (w.classes c).prototype with
      | none => rw [hp] at hk; cases hk
      | some p =>
        rw [hp] at hk
        have hpc := h c hc p hp
        exact (ih p (hpc.trans hc) k hk).trans hpc.le

theorem chainFrom_tail_lt (h : ∀ c < bound, ∀ p, (w.classes c).prototype = some p → p < c)
    (n : Nat) (c : ClassId) (hc : c < bound) : ∀ k ∈ (chainFrom w.classes n c).tail, k < c := by
  intro k hk
  cases n with
  | zero => cases hk
  | succ n =>
    simp only [chainFrom, List.tail_cons] at hk
    cases hp : (w.classes c).prototype with
    | none => rw [hp] at hk; cases hk
    | some p =>
      rw [hp] at hk
      have hpc := h c hc p hp
      exact (chainFrom_lt h n p (hpc.trans hc) k hk).trans_lt hpc

theorem chainFrom_fuel (h : ∀ c < bound, ∀ p, (w.classes c).prototype = some p → p < c) (c : ClassId) :
    c < bound → ∀ n, c < n → chainFrom w.classes n c = chain w c := by
  induction c using Nat.strong_induction_on with
  | _ c ih =>
    intro hc n hn
    obtain ⟨n, rfl⟩ := Nat.exists_eq_succ_of_ne_zero (Nat.ne_of_gt (Nat.zero_lt_of_lt hn))
    simp only [chain, chainFrom]
    congr 1
    cases hp : (w.classes c).prototype with
    | none => rfl
    | some p =>
      have hpc := h c hc p hp
      dsimp only
      rw [ih p hpc (hpc.trans hc) n (hpc.trans_le (Nat.lt_succ_iff.mp hn)), ih p hpc (hpc.trans hc) c hpc]

theorem chain_cons (h : ∀ c < bound, ∀ p, (w.classes c).prototype = some p → p < c)
    (hc : c < bound) {p : ClassId} (hp : (w.classes c).prototype = some p) :
    chain w c = c :: chain w p := by
  have hpc := h c hc p hp
  rw [chain, chainFrom, hp]
  dsimp only
  rw [chainFrom_fuel h p (hpc.trans hc) c hpc]

theorem chain_root (hp : (w.classes c).prototype = none) : chain w c = [c] := by
  rw [chain, chainFrom, hp]

theorem staticFieldSlot_own {name : Name} {e : StaticField V}
    (h : ((w.classes c).staticFields.find? fun e => e.name == name) = some e) :
    staticFieldSlot w c name = some (c, e) := by
  simp [staticFieldSlot, chain, chainFrom, h]

theorem staticFieldSlot_entry {k : ClassId} {name : Name} {e : StaticField V}
    (h : staticFieldSlot w c name = some (k, e)) :
    k ∈ chain w c ∧ ((w.classes k).staticFields.find? fun e => e.name == name) = some e := by
  obtain ⟨k', hk', he⟩ := List.exists_of_findSome?_eq_some h
  obtain ⟨e', hf, heq⟩ := Option.map_eq_some_iff.mp he
  cases heq
  exact ⟨hk', hf⟩

end Chains

/-! Layouts. -/

section Layouts
variable {V : Type}

theorem layout_le_append (layout : List (FieldDecl V)) (d : FieldDecl V) :
    layout <+: appendField layout d := by
  unfold appendField
  split
  · exact List.prefix_refl _
  · exact List.prefix_append ..

theorem layout_le_foldl : ∀ (ds layout : List (FieldDecl V)), layout <+: ds.foldl appendField layout
  | [], layout => List.prefix_refl layout
  | d :: ds, layout =>
    (layout_le_append layout d).trans (layout_le_foldl ds (appendField layout d))

def hasField (layout : List (FieldDecl V)) (name : Name) : Bool :=
  layout.any fun e => e.name == name

theorem hasField_mono {layout layout' : List (FieldDecl V)} (h : layout <+: layout')
    {name : Name} (hf : hasField layout name = true) : hasField layout' name = true := by
  obtain ⟨d, hd, he⟩ := List.any_eq_true.mp hf
  exact List.any_eq_true.mpr ⟨d, h.subset hd, he⟩

theorem hasField_appendField (layout : List (FieldDecl V)) (d : FieldDecl V) :
    hasField (appendField layout d) d.name = true := by
  unfold appendField
  split
  · rename_i h
    exact h
  · simp [hasField]

theorem hasField_foldl : ∀ (ds layout : List (FieldDecl V)), ∀ d ∈ ds,
    hasField (ds.foldl appendField layout) d.name = true
  | e :: ds, layout, d, hd => by
    obtain rfl | hd := List.mem_cons.mp hd
    · exact hasField_mono (layout_le_foldl ds _) (hasField_appendField layout d)
    · exact hasField_foldl ds (appendField layout e) d hd

theorem foldl_appendField_present : ∀ (ds : List (FieldDecl V)) {layout : List (FieldDecl V)},
    (∀ d ∈ ds, hasField layout d.name = true) → ds.foldl appendField layout = layout
  | [], _, _ => rfl
  | d :: ds, layout, h => by
    have hd : appendField layout d = layout := if_pos (h d (List.mem_cons_self ..))
    rw [List.foldl_cons, hd]
    exact foldl_appendField_present ds fun e he => h e (List.mem_cons_of_mem _ he)

theorem fieldIndex_of_hasField {k : Class V} {name : Name} (h : hasField k.instanceFields name = true) :
    ∃ index, fieldIndex k name = some index := by
  cases hi : fieldIndex k name with
  | some index => exact ⟨index, rfl⟩
  | none =>
    obtain ⟨d, hd, he⟩ := List.any_eq_true.mp h
    rw [fieldIndex, List.findIdx?_eq_none_iff] at hi
    rw [hi d hd] at he
    cases he

theorem fieldIndex_lt {k : Class V} {name : Name} {index : Nat}
    (h : fieldIndex k name = some index) : index < k.instanceFields.length :=
  (List.findIdx?_eq_some_iff_findIdx_eq.mp h).1

theorem fieldDecl_of_fieldIndex {k : Class V} {name : Name} {index : Nat}
    (h : fieldIndex k name = some index) : ∃ d, fieldDecl k name = some d := by
  obtain ⟨hl, he, -⟩ := List.findIdx?_eq_some_iff_getElem.mp h
  cases hf : fieldDecl k name with
  | some d => exact ⟨d, rfl⟩
  | none =>
    rw [fieldDecl, List.find?_eq_none] at hf
    exact absurd he (hf _ (List.getElem_mem hl))

end Layouts

section Capacity

theorem growCapacity_ge {needed : Nat} (n : Nat) : ∀ {capacity : Nat},
    needed ≤ capacity * 2 ^ n → needed ≤ growCapacity n capacity needed := by
  induction n with
  | zero => intro capacity h; simpa [growCapacity] using h
  | succ n ih =>
    intro capacity h
    unfold growCapacity
    split
    · exact ih (by rw [Nat.mul_assoc, ← Nat.pow_succ']; exact h)
    · omega

theorem le_growCapacity {needed : Nat} (n : Nat) : ∀ {capacity : Nat},
    capacity ≤ growCapacity n capacity needed := by
  induction n with
  | zero => intro capacity; exact Nat.le_refl _
  | succ n ih =>
    intro capacity
    unfold growCapacity
    split
    · have := @ih (capacity * 2)
      omega
    · exact Nat.le_refl _

theorem needed_le_ensureCapacity (capacity needed : Nat) : needed ≤ ensureCapacity capacity needed := by
  unfold ensureCapacity
  split
  · assumption
  · apply growCapacity_ge
    have hpow : needed < 2 ^ needed := Nat.lt_two_pow_self
    split
    · omega
    · have hpos : 0 < capacity := by omega
      calc needed ≤ 2 ^ needed := hpow.le
        _ ≤ capacity * 2 ^ needed := Nat.le_mul_of_pos_left _ hpos

theorem le_ensureCapacity (capacity needed : Nat) : capacity ≤ ensureCapacity capacity needed := by
  unfold ensureCapacity
  split
  · exact Nat.le_refl _
  · split
    · omega
    · exact le_growCapacity needed

end Capacity

/-! Worlds. -/

section Worlds
variable {V : Type}

/-- What the records of a world satisfy; numbers that are not given out yet are free. -/
structure WorldOk (w : World V) : Prop where
  prototype : ∀ c < w.nextClass, ∀ p, (w.classes c).prototype = some p → p < c
  static : ∀ c < w.nextClass, StaticOk c (w.classes c)
  klass : ∀ i < w.nextInstance, (w.instances i).klass < w.nextClass
  used : ∀ i < w.nextInstance, ∀ index, ((w.instances i).slots index).isSome →
    index < (w.classes (w.instances i).klass).instanceFields.length ∧ index < (w.instances i).slotCapacity
  entry : ∀ i < w.nextInstance, ∀ name, ((w.instances i).fields.lookup name).isSome →
    ∃ index, fieldIndex (w.classes (w.instances i).klass) name = some index ∧
      ((w.instances i).slots index).isSome

structure ClassKept (k k' : Class V) : Prop where
  name : k'.name = k.name
  prototype : k'.prototype = k.prototype
  methods : k'.methods = k.methods
  staticMethods : k'.staticMethods = k.staticMethods
  layout : k.instanceFields <+: k'.instanceFields
  static : ∀ name e, (k.staticFields.find? fun e => e.name == name) = some e →
    ∃ e', (k'.staticFields.find? fun e => e.name == name) = some e' ∧
      e'.owner = e.owner ∧ e'.access = e.access

structure InstanceKept (inst inst' : Instance V) : Prop where
  klass : inst'.klass = inst.klass
  version : inst.fieldVersion ≤ inst'.fieldVersion
  capacity : inst'.fieldVersion = inst.fieldVersion → inst'.slotCapacity = inst.slotCapacity
  used : ∀ index, (inst.slots index).isSome → (inst'.slots index).isSome

structure Kept (w w' : World V) : Prop where
  nextClass : w.nextClass ≤ w'.nextClass
  nextInstance : w.nextInstance ≤ w'.nextInstance
  classes : ∀ c < w.nextClass, ClassKept (w.classes c) (w'.classes c)
  instances : ∀ i < w.nextInstance, InstanceKept (w.instances i) (w'.instances i)

theorem ClassKept.refl (k : Class V) : ClassKept k k :=
  ⟨rfl, rfl, rfl, rfl, List.prefix_refl _, fun _ e he => ⟨e, he, rfl, rfl⟩⟩

theorem ClassKept.trans {k k' k'' : Class V} (h : ClassKept k k') (h' : ClassKept k' k'') :
    ClassKept k k'' where
  name := h'.name.trans h.name
  prototype := h'.prototype.trans h.prototype
  methods := h'.methods.trans h.methods
  staticMethods := h'.staticMethods.trans h.staticMethods
  layout := h.layout.trans h'.layout
  static name e he := by
    obtain ⟨e', he', ho, ha⟩ := h.static name e he
    obtain ⟨e'', he'', ho', ha'⟩ := h'.static name e' he'
    exact ⟨e'', he'', ho'.trans ho, ha'.trans ha⟩

theorem InstanceKept.refl (inst : Instance V) : InstanceKept inst inst :=
  ⟨rfl, Nat.le_refl _, fun _ => rfl, fun _ h => h⟩

theorem InstanceKept.trans {inst inst' inst'' : Instance V} (h : InstanceKept inst inst')
    (h' : InstanceKept inst' inst'') : InstanceKept inst inst'' where
  klass := h'.klass.trans h.klass
  version := h.version.trans h'.version
  capacity hv := by
    have h1 := h.version
    have h2 := h'.version
    rw [h'.capacity (by omega), h.capacity (by omega)]
  used index hu := h'.used index (h.used index hu)

theorem Kept.refl (w : World V) : Kept w w :=
  ⟨Nat.le_refl _, Nat.le_refl _, fun _ _ => .refl _, fun _ _ => .refl _⟩

theorem Kept.trans {w w' w'' : World V} (h : Kept w w') (h' : Kept w' w'') : Kept w w'' where
  nextClass := h.nextClass.trans h'.nextClass
  nextInstance := h.nextInstance.trans h'.nextInstance
  classes c hc := (h.classes c hc).trans (h'.classes c (hc.trans_le h.nextClass))
  instances i hi := (h.instances i hi).trans (h'.instances i (hi.trans_le h.nextInstance))

theorem ClassKept.fieldIndex {k k' : Class V} (h : ClassKept k k') {name : Name} {index : Nat}
    (hi : fieldIndex k name = some index) : fieldIndex k' name = some index :=
  h.layout.findIdx?_eq_some hi

theorem ClassKept.layoutAccess {k k' : Class V} (h : ClassKept k k') {name : Name} {index : Nat}
    (hi : Oop.fieldIndex k name = some index) :
    Oop.layoutAccess k' name = Oop.layoutAccess k name := by
  obtain ⟨d, hd⟩ := fieldDecl_of_fieldIndex hi
  have hd' : fieldDecl k' name = some d := h.layout.find?_eq_some hd
  rw [Oop.layoutAccess, Oop.layoutAccess, hd, hd']

theorem WorldOk.empty : WorldOk (World.empty : World V) where
  prototype _ hc := absurd hc (Nat.not_lt_zero _)
  static _ hc := absurd hc (Nat.not_lt_zero _)
  klass _ hi := absurd hi (Nat.not_lt_zero _)
  used _ hi := absurd hi (Nat.not_lt_zero _)
  entry _ hi := absurd hi (Nat.not_lt_zero _)

variable {w w' : World V}

variable {c : ClassId}

theorem WorldOk.chain_lt (h : WorldOk w) (hc : c < w.nextClass) :
    ∀ k ∈ chain w c, k < w.nextClass := fun k hk =>
  (chainFrom_lt h.prototype (c + 1) c hc k hk).trans_lt hc

theorem WorldOk.tail_lt (h : WorldOk w) (hc : c < w.nextClass) :
    ∀ k ∈ (chain w c).tail, k < c := chainFrom_tail_lt h.prototype (c + 1) c hc

theorem Kept.chain (h : Kept w w') (hok : WorldOk w) {c : ClassId} (hc : c < w.nextClass) :
    chain w' c = chain w c :=
  chain_congr fun k hk => (h.classes k (hok.chain_lt hc k hk)).prototype

theorem ClassKept.methodTable {c : ClassId} (h : ClassKept (w.classes c) (w'.classes c))
    (isStatic : Bool) : methodTable w' c isStatic = methodTable w c isStatic := by
  cases isStatic
  · exact h.methods
  · exact h.staticMethods

theorem Kept.lookupMethodTyped (h : Kept w w') (hok : WorldOk w) {c : ClassId}
    (hc : c < w.nextClass) (name : Name) (isStatic : Bool) (types : List Name)
    (scores : List (Method → Name → Nat)) :
    lookupMethodTyped w' c name isStatic types scores = lookupMethodTyped w c name isStatic types scores :=
  lookupMethodTyped_congr (fun k hk => (h.classes k (hok.chain_lt hc k hk)).prototype)
    (fun k hk s => (h.classes k (hok.chain_lt hc k hk)).methodTable s) name isStatic types scores

/-! One class changes. -/

@[simp] theorem updateClass_self (w : World V) (c : ClassId) (f : Class V → Class V) :
    (w.updateClass c f).classes c = f (w.classes c) := by
  simp [World.updateClass]

@[simp] theorem updateClass_of_ne (w : World V) {k : ClassId} (h : k ≠ c) (f : Class V → Class V) :
    (w.updateClass c f).classes k = w.classes k := by
  simp [World.updateClass, h]

theorem updateClass_kept {f : Class V → Class V} (hf : ClassKept (w.classes c) (f (w.classes c)))
    (k : ClassId) :
    ClassKept (w.classes k) ((w.updateClass c f).classes k) := by
  by_cases hk : k = c
  · subst hk
    simpa using hf
  · rw [updateClass_of_ne w hk]
    exact .refl _

theorem updateClass_step (h : WorldOk w) {f : Class V → Class V}
    (hf : ClassKept (w.classes c) (f (w.classes c)))
    (hs : StaticOk c (w.classes c) → StaticOk c (f (w.classes c))) :
    WorldOk (w.updateClass c f) ∧ Kept w (w.updateClass c f) := by
  have hk := updateClass_kept hf
  refine ⟨⟨?_, ?_, h.klass, ?_, ?_⟩, ⟨Nat.le_refl _, Nat.le_refl _, fun k _ => hk k, fun _ _ => .refl _⟩⟩
  · intro k hlt p hp
    exact h.prototype k hlt p ((hk k).prototype ▸ hp)
  · intro k hlt
    by_cases hkc : k = c
    · subst hkc
      rw [updateClass_self]
      exact hs (h.static k hlt)
    · rw [updateClass_of_ne w hkc]
      exact h.static k hlt
  · intro i hi index hu
    have hlen := (hk (w.instances i).klass).layout.length_le
    have := h.used i hi index hu
    exact ⟨this.1.trans_le hlen, this.2⟩
  · intro i hi name hn
    obtain ⟨index, hidx, hu⟩ := h.entry i hi name hn
    exact ⟨index, (hk _).fieldIndex hidx, hu⟩

theorem ClassKept.of_layout {k : Class V} {layout : List (FieldDecl V)}
    (h : k.instanceFields <+: layout) : ClassKept k { k with instanceFields := layout } :=
  ⟨rfl, rfl, rfl, rfl, h, fun _ e he => ⟨e, he, rfl, rfl⟩⟩

theorem extendLayout_step (h : WorldOk w) (c : ClassId)
    {g : List (FieldDecl V) → List (FieldDecl V)} (hg : ∀ layout, layout <+: g layout) :
    WorldOk (w.updateClass c fun k => { k with instanceFields := g k.instanceFields }) ∧
      Kept w (w.updateClass c fun k => { k with instanceFields := g k.instanceFields }) :=
  updateClass_step h (.of_layout (hg _)) fun hs => ⟨hs.version, hs.owner⟩

theorem syncFields_step (h : WorldOk w) (c : ClassId) :
    WorldOk (syncFields w c) ∧ Kept w (syncFields w c) :=
  extendLayout_step h c (layout_le_foldl (inheritedFields w c))

theorem syncFields_classKept (w : World V) (c k : ClassId) :
    ClassKept (w.classes k) ((syncFields w c).classes k) :=
  updateClass_kept (.of_layout (layout_le_foldl (inheritedFields w c) _)) k

theorem getField_kept (h : WorldOk w) {i : InstanceId} (hi : i < w.nextInstance)
    (hinst : w'.instances i = w.instances i)
    (hk : ClassKept (w.classes (w.instances i).klass) (w'.classes (w.instances i).klass))
    (name : Name) : getField w' i name = getField w i name := by
  unfold getField
  dsimp only
  rw [hinst]
  cases hidx : fieldIndex (w.classes (w.instances i).klass) name with
  | some index => rw [hk.fieldIndex hidx]
  | none =>
    -- a position the name gets now lies beyond the slots in use
    have hslot : ∀ index, fieldIndex (w'.classes (w.instances i).klass) name = some index →
        (w.instances i).slots index = none := by
      intro index hnew
      by_contra hu
      have hlt := (h.used i hi index (Option.isSome_iff_ne_none.mpr hu)).1
      obtain ⟨hl, he, -⟩ := List.findIdx?_eq_some_iff_getElem.mp hnew
      rw [← hk.layout.getElem hlt] at he
      rw [fieldIndex, List.findIdx?_eq_none_iff] at hidx
      rw [hidx _ (List.getElem_mem hlt)] at he
      cases he
    cases hnew : fieldIndex (w'.classes (w.instances i).klass) name with
    | none => rfl
    | some index =>
      rw [Option.bind_some, hslot index hnew]
      rfl

theorem syncFields_idem (h : WorldOk w) (hc : c < w.nextClass) :
    syncFields (syncFields w c) c = syncFields w c := by
  have hchain : chain (syncFields w c) c = chain w c := (syncFields_step h c).2.chain h hc
  have hinh : inheritedFields (syncFields w c) c = inheritedFields w c := by
    rw [inheritedFields, inheritedFields, hchain]
    simp only [List.flatMap]
    congr 1
    apply List.map_congr_left
    intro k hk
    have hlt := h.tail_lt hc k (List.mem_reverse.mp hk)
    rw [syncFields, updateClass_of_ne w hlt.ne]
  have hpresent : ∀ d ∈ inheritedFields w c,
      hasField ((syncFields w c).classes c).instanceFields d.name = true := by
    intro d hd
    rw [syncFields, updateClass_self]
    exact hasField_foldl (inheritedFields w c) _ d hd
  conv_lhs => rw [syncFields, hinh]
  -- the outer update puts back what is there
  simp only [World.updateClass, foldl_appendField_present (inheritedFields w c) hpresent,
    update_eq_self]

end Worlds

/-! The operations. -/

section Operations
variable {V : Type} {w : World V}

theorem lookup_tableSet_eq {α β : Type} [BEq α] [LawfulBEq α] (table : List (α × β)) (key : α)
    (v : β) (name : α) :
    (tableSet table key v).lookup name = if name == key then some v else table.lookup name := by
  have hmap : ∀ table : List (α × β), (table.map fun p => if p.1 == key then (key, v) else p).lookup name =
        if (name == key && table.any fun p => p.1 == key) = true then some v
        else table.lookup name := by
    intro table
    induction table with
    | nil => simp
    | cons p table ih =>
      obtain ⟨k, x⟩ := p
      rw [List.map_cons]
      by_cases hk : (k == key) = true
      · have hkk : k = key := eq_of_beq hk
        subst hkk
        cases hn : name == k with
        | true => simp [List.lookup_cons, hn]
        | false =>
          simp only [hk, if_true, List.lookup_cons, hn, ih]
          simp
      · rw [Bool.not_eq_true] at hk
        simp only [hk, Bool.false_eq_true, if_false, List.lookup_cons, List.any_cons, Bool.false_or, ih]
        cases hn : name == key with
        | true =>
          have hnk : (name == k) = false := by
            rw [eq_of_beq hn, beq_eq_false_iff_ne]
            exact fun h => absurd hk (by simp [h])
          simp [hnk]
        | false => simp
  unfold tableSet
  split
  · rename_i hany
    rw [hmap, hany, Bool.and_true]
  · rename_i hany
    rw [List.lookup_append]
    cases hn : name == key with
    | false => simp [List.lookup_cons, hn]
    | true =>
      have hnone : table.lookup name = none := by
        rw [List.lookup_eq_none_iff]
        intro p hp
        rw [Bool.not_eq_true, List.any_eq_false] at hany
        rw [eq_of_beq hn, bne_iff_ne]
        exact fun h => hany p hp (by simp [h])
      simp [List.lookup_cons, hn, hnone]

theorem lookup_tableSet {β : Type} {table : List (Name × β)} {key name : Name} {v : β}
    (h : ((tableSet table key v).lookup name).isSome) : name = key ∨ (table.lookup name).isSome := by
  rw [lookup_tableSet_eq] at h
  by_cases hk : name = key
  · exact .inl hk
  · rw [if_neg (by simpa using hk)] at h
    exact .inr h

theorem store_kept {inst : Instance V} {index : Nat} (name : Name) (v : V)
    (hused : (inst.slots index).isSome → index < inst.slotCapacity) :
    InstanceKept inst (inst.store index name v) where
  klass := rfl
  version := by
    simp only [Instance.store]
    split <;> omega
  capacity hv := by
    simp only [Instance.store] at hv ⊢
    split at hv
    · rename_i hu
      exact if_pos (hused hu)
    · omega
  used j hj := by
    by_cases hji : j = index
    · simp [Instance.store, hji]
    · simpa [Instance.store, hji] using hj

theorem store_step (h : WorldOk w) {i : InstanceId} (hi : i < w.nextInstance) {index : Nat}
    {name : Name} (hidx : fieldIndex (w.classes (w.instances i).klass) name = some index) (v : V) :
    WorldOk (w.updateInstance i fun inst => inst.store index name v) ∧
      Kept w (w.updateInstance i fun inst => inst.store index name v) := by
  have hold := store_kept name v fun hu => (h.used i hi index hu).2
  have hother (j : InstanceId) (hj : j ≠ i) :
      (w.updateInstance i fun inst => inst.store index name v).instances j = w.instances j := by
    simp [World.updateInstance, hj]
  have hself : (w.updateInstance i fun inst => inst.store index name v).instances i =
      (w.instances i).store index name v := by
    simp [World.updateInstance]
  refine ⟨⟨h.prototype, h.static, ?_, ?_, ?_⟩, ⟨Nat.le_refl _, Nat.le_refl _, fun _ _ => .refl _, ?_⟩⟩
  · intro j hj
    by_cases hji : j = i
    · rw [hji, hself]
      exact h.klass i hi
    · rw [hother j hji]
      exact h.klass j hj
  · intro j hj
    by_cases hji : j = i
    · rw [hji, hself]
      intro slot hu
      have hcap := le_ensureCapacity (w.instances i).slotCapacity (index + 1)
      by_cases hs : slot = index
      · rw [hs]
        exact ⟨fieldIndex_lt hidx, needed_le_ensureCapacity _ (index + 1)⟩
      · have hu' : ((w.instances i).slots slot).isSome := by simpa [Instance.store, hs] using hu
        have := h.used i hi slot hu'
        exact ⟨this.1, this.2.trans_le hcap⟩
    · rw [hother j hji]
      exact h.used j hj
  · intro j hj
    by_cases hji : j = i
    · rw [hji, hself]
      intro n hn
      obtain rfl | hn := lookup_tableSet hn
      · exact ⟨index, hidx, by simp [Instance.store]⟩
      · obtain ⟨index', hidx', hu⟩ := h.entry i hi n hn
        exact ⟨index', hidx', hold.used index' hu⟩
    · rw [hother j hji]
      exact h.entry j hj
  · intro j hj
    by_cases hji : j = i
    · rw [hji, hself]
      exact hold
    · rw [hother j hji]
      exact .refl _

theorem step_trans {w' w'' : World V} (h : WorldOk w' ∧ Kept w w')
    (h' : WorldOk w' → WorldOk w'' ∧ Kept w' w'') : WorldOk w'' ∧ Kept w w'' :=
  ⟨(h' h.1).1, h.2.trans (h' h.1).2⟩

theorem find_setValue {fields : List (StaticField V)} {name n : Name} {v : V} :
    (fields.map fun e => if e.name == name then { e with value := v } else e).find? (fun e => e.name == n) =
      (fields.find? fun e => e.name == n).map fun e =>
        if e.name == name then { e with value := v } else e := by
  rw [List.find?_map]
  congr 1
  congr 1
  funext e
  simp only [comp]
  split <;> rfl

theorem storeStatic_kept (k : Class V) (c : ClassId) (name : Name) (t : Option Name) (v : V) :
    ClassKept k (k.storeStatic c name t v) := by
  unfold Class.storeStatic
  split
  · refine ⟨rfl, rfl, rfl, rfl, List.prefix_refl _, ?_⟩
    intro n e he
    refine ⟨_, by rw [find_setValue, he]; rfl, ?_, ?_⟩ <;> dsimp only <;> split <;> rfl
  · refine ⟨rfl, rfl, rfl, rfl, List.prefix_refl _, ?_⟩
    intro n e he
    exact ⟨e, by rw [List.find?_append, he]; rfl, rfl, rfl⟩

theorem storeStatic_ok {k : Class V} {c : ClassId} (h : StaticOk c k) (name : Name)
    (t : Option Name) (v : V) : StaticOk c (k.storeStatic c name t v) := by
  unfold Class.storeStatic
  split
  · refine ⟨by simpa using h.version, ?_⟩
    intro e he
    obtain ⟨g, hg, rfl⟩ := List.mem_map.mp he
    split <;> exact h.owner g hg
  · refine ⟨by simp [h.version], ?_⟩
    intro e he
    obtain he | he := List.mem_append.mp he
    · exact h.owner e he
    · rw [List.mem_singleton.mp he]

theorem newInstance_step (h : WorldOk w) {inst : Instance V} (hk : inst.klass < w.nextClass)
    (hs : ∀ index, inst.slots index = none) (hf : inst.fields = []) :
    WorldOk ⟨w.classes, w.nextClass, Function.update w.instances w.nextInstance inst, w.nextInstance + 1⟩ ∧
      Kept w ⟨w.classes, w.nextClass, Function.update w.instances w.nextInstance inst,
        w.nextInstance + 1⟩ := by
  have hother : ∀ j < w.nextInstance,
      Function.update w.instances w.nextInstance inst j = w.instances j := fun j hj =>
    update_of_ne hj.ne _ _
  refine ⟨⟨h.prototype, h.static, ?_, ?_, ?_⟩,
    ⟨Nat.le_refl _, Nat.le_succ _, fun _ _ => .refl _, ?_⟩⟩ <;> dsimp only
  · intro j hj
    obtain hj | rfl := Nat.lt_succ_iff_lt_or_eq.mp hj
    · rw [hother j hj]
      exact h.klass j hj
    · rw [update_self]
      exact hk
  · intro j hj index hu
    obtain hj | rfl := Nat.lt_succ_iff_lt_or_eq.mp hj
    · rw [hother j hj] at hu ⊢
      exact h.used j hj index hu
    · rw [update_self, hs] at hu
      cases hu
  · intro j hj name hn
    obtain hj | rfl := Nat.lt_succ_iff_lt_or_eq.mp hj
    · rw [hother j hj] at hn ⊢
      exact h.entry j hj name hn
    · rw [update_self, hf] at hn
      cases hn
  · intro j hj
    rw [hother j hj]
    exact .refl _

theorem touches_step (h : WorldOk w) {w' : World V} {d : ClassDef V} {parent : Option ClassId}
    (hp : ∀ p, parent = some p → p < w.nextClass)
    (ht : Touches w.nextClass (createClass w d parent).2 w') : WorldOk w' ∧ Kept w w' := by
  let k : Class V :=
    { name := d.name, prototype := parent, isAbstract := d.isAbstract || d.isInterface,
      isInterface := d.isInterface }
  let w₀ : World V :=
    { w with classes := Function.update w.classes w.nextClass k, nextClass := w.nextClass + 1 }
  have hall : Touches w.nextClass w₀ w' := (syncFields_touches w₀).trans ht
  have hself : w₀.classes w.nextClass = k := update_self ..
  have hother : ∀ c < w.nextClass, w'.classes c = w.classes c := fun c hc =>
    (hall.others c hc.ne).trans (update_of_ne hc.ne _ _)
  have hn : w'.nextClass = w.nextClass + 1 := hall.nextClass
  have hi : w'.instances = w.instances := hall.instances
  have hni : w'.nextInstance = w.nextInstance := hall.nextInstance
  refine ⟨⟨?_, ?_, ?_, ?_, ?_⟩, ⟨hn ▸ Nat.le_succ _, hni.ge, ?_, ?_⟩⟩
  · intro c hc p hcp
    rw [hn] at hc
    obtain hc | rfl := Nat.lt_succ_iff_lt_or_eq.mp hc
    · rw [hother c hc] at hcp
      exact h.prototype c hc p hcp
    · rw [hall.prototype, hself] at hcp
      exact hp p hcp
  · intro c hc
    rw [hn] at hc
    obtain hc | rfl := Nat.lt_succ_iff_lt_or_eq.mp hc
    · rw [hother c hc]
      exact h.static c hc
    · apply hall.static
      rw [hself]
      exact ⟨rfl, fun e he => nomatch he⟩
  · intro i hlt
    rw [hni] at hlt
    rw [hi, hn]
    exact (h.klass i hlt).trans (Nat.lt_succ_self _)
  · intro i hlt index hu
    rw [hni] at hlt
    rw [hi] at hu ⊢
    rw [hother _ (h.klass i hlt)]
    exact h.used i hlt index hu
  · intro i hlt name hf
    rw [hni] at hlt
    rw [hi] at hf ⊢
    rw [hother _ (h.klass i hlt)]
    exact h.entry i hlt name hf
  · intro c hc
    rw [hother c hc]
    exact .refl _
  · intro i _
    rw [hi]
    exact .refl _

variable [FieldValue V]

theorem setField_step (h : WorldOk w) {i : InstanceId} (hi : i < w.nextInstance) (name : Name)
    (v : V) : WorldOk (setField w i name v) ∧ Kept w (setField w i name v) := by
  have hsync := syncFields_step h (w.instances i).klass
  unfold setField
  dsimp only
  split
  · exact hsync
  · refine step_trans hsync fun h1 => ?_
    have hext := extendLayout_step h1 (w.instances i).klass fun layout =>
      layout_le_append layout ⟨name, .publicAccess, (w.instances i).klass, none, none⟩
    refine step_trans hext fun h2 => ?_
    split
    · rename_i index hidx
      exact store_step h2 hi hidx v
    · exact ⟨h2, .refl _⟩

theorem setFieldChecked_step (h : WorldOk w) {i : InstanceId} (hi : i < w.nextInstance)
    (name : Name) (v : V) :
    WorldOk (setFieldChecked w i name v).2 ∧ Kept w (setFieldChecked w i name v).2 := by
  unfold setFieldChecked
  dsimp only
  split
  · exact syncFields_step h _
  · exact step_trans (syncFields_step h _) fun h1 => setField_step h1 hi name v

theorem setStaticField_step (h : WorldOk w) (c : ClassId) (name : Name) (v : V) :
    WorldOk (setStaticField w c name v) ∧ Kept w (setStaticField w c name v) := by
  unfold setStaticField
  dsimp only
  split
  · exact ⟨h, .refl w⟩
  · exact updateClass_step h (storeStatic_kept ..) fun hs => storeStatic_ok hs ..

theorem setStaticFieldChecked_step (h : WorldOk w) (c : ClassId) (name : Name) (v : V) :
    WorldOk (setStaticFieldChecked w c name v).2 ∧ Kept w (setStaticFieldChecked w c name v).2 := by
  unfold setStaticFieldChecked
  split
  · exact ⟨h, .refl w⟩
  · exact setStaticField_step h c name v

theorem foldl_setField_step {i : InstanceId} {α : Type} (name : α → Name) (value : α → V) :
    ∀ (as : List α) {w : World V}, WorldOk w → i < w.nextInstance →
      WorldOk (as.foldl (fun w a => setField w i (name a) (value a)) w) ∧
        Kept w (as.foldl (fun w a => setField w i (name a) (value a)) w)
  | [], w, h, _ => ⟨h, .refl w⟩
  | a :: as, w, h, hi => by
    have ha := setField_step h hi (name a) (value a)
    exact step_trans ha fun h' =>
      foldl_setField_step name value as h' (hi.trans_le ha.2.nextInstance)

theorem createInstance_step (h : WorldOk w) {c : ClassId} (hc : c < w.nextClass) :
    WorldOk (createInstance w c).2 ∧ Kept w (createInstance w c).2 := by
  unfold createInstance
  exact step_trans (newInstance_step h (by exact hc) (fun _ => rfl) rfl) fun h' =>
    foldl_setField_step FieldDecl.name (fun d => d.default.getD FieldValue.null) _ h' (Nat.lt_succ_self _)

theorem defineClass_step (h : WorldOk w) {scope : ClassScope}
    (hscope : ∀ p ∈ scope, p.2 < w.nextClass) (d : ClassDef V) :
    WorldOk (defineClass scope w d).2 ∧ Kept w (defineClass scope w d).2 := by
  obtain he | ⟨parent, hp, ht⟩ := defineClass_touches w scope d
  · rw [he]
    exact ⟨h, .refl w⟩
  · apply touches_step h _ ht
    intro p hparent
    obtain ⟨name, hname⟩ := hp p hparent
    exact hscope (name, p) (mem_of_lookup hname)

end Operations

end TurboScript.Oop
