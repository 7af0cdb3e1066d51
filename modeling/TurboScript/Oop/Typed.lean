import TurboScript.Oop.Declared

/- Typed fields over whole runs (`exprtk_instance_set_field`, `exprtk_class_set_static_field`
   and their checked forms, `exprtk_instance_create`).

   Every definition and every write keeps values that fit the types of their own entries; that
   the records say what the bodies say is an invariant besides. -/
namespace TurboScript.Oop.Typed
open Exprtk (Name ClassId InstanceId AccessLevel)
open Lib Function

/-! Reads after writes. -/

section Reads
variable {V : Type} {w w' : World V} {i : InstanceId}

theorem getField_eq (h : WorldOk w) (hi : i < w.nextInstance) (name : Name) : getField w i name =
      (fieldIndex (w.classes (w.instances i).klass) name).bind (w.instances i).slots := by
  show ((fieldIndex (w.classes (w.instances i).klass) name).bind (w.instances i).slots).or
    ((w.instances i).fields.lookup name) = _
  cases hl : (w.instances i).fields.lookup name with
  | none => rw [Option.or_none]
  | some u =>
    obtain ⟨index, hidx, hused⟩ := h.entry i hi name (by rw [hl]; rfl)
    obtain ⟨v, hv⟩ := Option.isSome_iff_exists.mp hused
    rw [hidx, Option.bind_some, hv]
    rfl

variable {name T : Name}

theorem fieldIndex_inj {k : Class V} {name' : Name} {index : Nat}
    (h : fieldIndex k name = some index) (h' : fieldIndex k name' = some index) : name = name' := by
  obtain ⟨hl, he, -⟩ := List.findIdx?_eq_some_iff_getElem.mp h
  obtain ⟨hl', he', -⟩ := List.findIdx?_eq_some_iff_getElem.mp h'
  rw [← eq_of_beq he, ← eq_of_beq he']

theorem getField_store (h : WorldOk w) (hi : i < w.nextInstance) {index : Nat}
    (hidx : fieldIndex (w.classes (w.instances i).klass) name = some index) (v : V)
    {j : InstanceId} (hj : j < w.nextInstance) (x : Name) :
    getField (w.updateInstance i fun inst => inst.store index name v) j x =
      if j = i ∧ x = name then some v else getField w j x := by
  have hok := (store_step h hi hidx v).1
  rw [getField_eq hok hj, getField_eq h hj]
  by_cases hji : j = i
  · have hself : (w.updateInstance i fun inst => inst.store index name v).instances i =
        (w.instances i).store index name v := by
      simp [World.updateInstance]
    rw [hji, hself]
    show (fieldIndex (w.classes (w.instances i).klass) x).bind
      (Function.update (w.instances i).slots index (some v)) = _
    by_cases hx : x = name
    · rw [if_pos ⟨rfl, hx⟩, hx, hidx, Option.bind_some, update_self]
    · rw [if_neg fun h => hx h.2]
      cases hx' : fieldIndex (w.classes (w.instances i).klass) x with
      | none => rfl
      | some index' =>
        have hne : index' ≠ index := by
          rintro rfl
          exact hx (fieldIndex_inj hx' hidx)
        rw [Option.bind_some, Option.bind_some, update_of_ne hne]
  · have hother : (w.updateInstance i fun inst => inst.store index name v).instances j = w.instances j := by
      simp [World.updateInstance, hji]
    rw [if_neg fun h => hji h.1, hother]
    rfl

/-- The type a write looks up, after the layout has been brought up to date. -/
def writeType (w : World V) (i : InstanceId) (name : Name) : Option Name :=
  (fieldDecl ((syncFields w (w.instances i).klass).classes (w.instances i).klass) name).bind
    FieldDecl.declaredType

theorem writeType_of_layout
    (ht : layoutType (w.classes (w.instances i).klass).instanceFields name = some (some T)) :
    writeType w i name = some T := by
  have hsync := layoutType_mono (syncFields_classKept w (w.instances i).klass _).layout ht
  obtain ⟨d, -, -, hd, htype⟩ := fieldDecl_of_layoutType hsync
  unfold writeType
  rw [hd]
  exact htype

variable [FieldValue V]

theorem setField_reads (h : WorldOk w) (hi : i < w.nextInstance) (name : Name) (v : V)
    {j : InstanceId} (hj : j < w.nextInstance) (x : Name) :
    getField (setField w i name v) j x =
      if (misfit (writeType w i name) v).isSome = false ∧ j = i ∧ x = name then some v
      else getField w j x := by
  obtain ⟨hok₁, hkept₁⟩ := syncFields_step h (w.instances i).klass
  have hread₁ : getField (syncFields w (w.instances i).klass) j x = getField w j x :=
    getField_kept h hj (by rfl) (syncFields_classKept w _ _) x
  unfold setField
  dsimp only
  by_cases hmis : (misfit (writeType w i name) v).isSome = true
  · have hlost : ¬((misfit (writeType w i name) v).isSome = false ∧ j = i ∧ x = name) := by
      rw [hmis]
      exact fun h => Bool.noConfusion h.1
    rw [if_neg hlost]
    unfold writeType at hmis
    rw [if_pos hmis]
    exact hread₁
  · have hmis' := hmis
    unfold writeType at hmis'
    rw [if_neg hmis']
    obtain ⟨hok₂, hkept₂⟩ := extendLayout_step hok₁ (w.instances i).klass fun layout =>
      layout_le_append layout ⟨name, .publicAccess, (w.instances i).klass, none, none⟩
    generalize hw₂ : (syncFields w (w.instances i).klass).updateClass (w.instances i).klass
      (fun k => { k with
        instanceFields := appendField k.instanceFields
          ⟨name, .publicAccess, (w.instances i).klass, none, none⟩ }) = w₂ at hok₂ hkept₂ ⊢
    have hinst₂ : w₂.instances = w.instances := by rw [← hw₂]; rfl
    have hnext₂ : w₂.nextInstance = w.nextInstance := by rw [← hw₂]; rfl
    have hread₂ : getField w₂ j x = getField w j x := by
      rw [← hread₁]
      exact getField_kept hok₁ hj (by rw [hinst₂]; rfl) (hkept₂.classes _ (hok₁.klass j hj)) x
    -- the name has a position by now
    have hhas : hasField (w₂.classes (w.instances i).klass).instanceFields name = true := by
      rw [← hw₂, updateClass_self]
      exact hasField_appendField _ _
    obtain ⟨index, hidx⟩ := fieldIndex_of_hasField hhas
    rw [hidx]
    have hidx' : fieldIndex (w₂.classes (w₂.instances i).klass) name = some index := by
      rw [hinst₂]
      exact hidx
    show getField (w₂.updateInstance i fun inst => inst.store index name v) j x = _
    rw [getField_store hok₂ (hnext₂ ▸ hi) hidx' v (hnext₂ ▸ hj), hread₂]
    rw [Bool.not_eq_true] at hmis
    simp only [hmis, true_and]

theorem misfit_eq_false {v : V} : (misfit (some T) v).isSome = false ↔ FieldValue.fits v T = true := by
  unfold misfit
  cases hf : FieldValue.fits v T <;> simp [Option.filter, hf]

/-- A value of an instance that fits the recorded type. -/
def Holds (w : World V) (i : InstanceId) (name T : Name) : Prop :=
  ∃ v, getField w i name = some v ∧ FieldValue.fits v T = true

theorem Holds.setField (h : WorldOk w) (hi : i < w.nextInstance) (name : Name) (v : V)
    {j : InstanceId} (hj : j < w.nextInstance) {x : Name}
    (ht : layoutType (w.classes (w.instances j).klass).instanceFields x = some (some T))
    (hx : Holds w j x T) : Holds (setField w i name v) j x T := by
  unfold Holds
  rw [setField_reads h hi name v hj]
  split
  · rename_i hstored
    obtain ⟨hfit, rfl, rfl⟩ := hstored
    rw [writeType_of_layout ht, misfit_eq_false] at hfit
    exact ⟨v, rfl, hfit⟩
  · exact hx

theorem setField_readBack (h : WorldOk w) (hi : i < w.nextInstance) {v : V}
    (ht : layoutType (w.classes (w.instances i).klass).instanceFields name = some (some T))
    (hv : FieldValue.fits v T = true) : getField (setField w i name v) i name = some v := by
  rw [setField_reads h hi name v hi, writeType_of_layout ht, if_pos ⟨misfit_eq_false.2 hv, rfl, rfl⟩]

theorem setFieldChecked_readBack (h : WorldOk w) (hi : i < w.nextInstance) {v : V}
    (ht : layoutType (w.classes (w.instances i).klass).instanceFields name = some (some T))
    (hv : FieldValue.fits v T = true) :
    (setFieldChecked w i name v).1 = .ok () ∧ getField (setFieldChecked w i name v).2 i name = some v := by
  have hwt := writeType_of_layout ht
  have hnone : misfit (writeType w i name) v = none := by
    rw [hwt, ← Option.isNone_iff_eq_none, ← Option.not_isSome, misfit_eq_false.2 hv]
    rfl
  unfold setFieldChecked
  dsimp only
  unfold writeType at hnone
  rw [hnone]
  refine ⟨rfl, ?_⟩
  apply setField_readBack (syncFields_step h _).1 hi _ hv
  exact layoutType_mono (syncFields_classKept w (w.instances i).klass _).layout ht

end Reads

/-! Every entry fits its own type. -/

section Entries
variable {V : Type} [FieldValue V] {w w' : World V} {c : ClassId}

/-- The default of an entry fits its type. -/
def Fits (d : FieldDecl V) : Prop := (d.default.bind (misfit d.declaredType)).isSome = false

structure Fitting (w : World V) : Prop where
  layout : ∀ k, ∀ d ∈ (w.classes k).instanceFields, Fits d
  static : ∀ k name e, ((w.classes k).staticFields.find? fun e => e.name == name) = some e →
    (misfit e.declaredType e.value).isSome = false

omit [FieldValue V] in
theorem mem_foldl_appendField {d : FieldDecl V} : ∀ {ds layout : List (FieldDecl V)},
    d ∈ ds.foldl appendField layout → d ∈ layout ∨ d ∈ ds
  | [], _, h => .inl h
  | e :: ds, layout, h => by
    rw [List.foldl_cons] at h
    obtain h | h := @mem_foldl_appendField d ds _ h
    · unfold appendField at h
      split at h
      · exact .inl h
      · obtain h | h := List.mem_append.mp h
        · exact .inl h
        · exact .inr (List.mem_cons.mpr (.inl (List.mem_singleton.mp h)))
    · exact .inr (List.mem_cons_of_mem _ h)

omit [FieldValue V] in
theorem mem_declareField {layout : List (FieldDecl V)} {d e : FieldDecl V}
    (h : e ∈ declareField layout d) : e ∈ layout ∨ e = d := by
  unfold declareField at h
  split at h
  · obtain ⟨f, hf, rfl⟩ := List.mem_map.mp h
    split
    · exact .inr rfl
    · exact .inl hf
  · obtain h | h := List.mem_append.mp h
    · exact .inl h
    · exact .inr (List.mem_singleton.mp h)

namespace Fitting

theorem update (h : Fitting w) {f : Class V → Class V} (hl : ∀ d ∈ (f (w.classes c)).instanceFields, Fits d)
    (hs : ∀ name e, ((f (w.classes c)).staticFields.find? fun e => e.name == name) = some e →
      (misfit e.declaredType e.value).isSome = false) : Fitting (w.updateClass c f) := by
  constructor <;> intro k <;> by_cases hk : k = c
  · rw [hk, updateClass_self]
    exact hl
  · rw [updateClass_of_ne w hk]
    exact h.layout k
  · rw [hk, updateClass_self]
    exact hs
  · rw [updateClass_of_ne w hk]
    exact h.static k

theorem same (h : Fitting w) (hs : SameFields w w') : Fitting w' where
  layout k := by
    rw [hs.layout k]
    exact h.layout k
  static k := by
    rw [hs.static k]
    exact h.static k

theorem sync (h : Fitting w) (c : ClassId) : Fitting (syncFields w c) := by
  apply h.update
  · intro d hd
    obtain hd | hd := mem_foldl_appendField hd
    · exact h.layout c d hd
    · obtain ⟨k, -, hd⟩ := List.mem_flatMap.mp hd
      exact h.layout k d hd
  · exact h.static c

theorem member (h : Fitting w) (scope : ClassScope) (m : Member V) :
    Fitting (defineMember scope w c m).2 := by
  cases m with
  | field n declaredType initial isStatic access =>
    cases isStatic with
    | true =>
      simp only [defineMember, defineField, if_true]
      split
      · exact h
      · rename_i hfit
        dsimp only
        apply h.update
        · unfold Class.declareStatic
          split <;> exact h.layout c
        · intro name e he
          rw [find_declareStatic] at he
          split at he
          · cases he
            rwa [Bool.not_eq_true] at hfit
          · exact h.static c name e he
    | false =>
      show Fitting (declareInstanceField w c _)
      unfold declareInstanceField
      split
      · exact h
      · rename_i hfit
        rw [Bool.not_eq_true] at hfit
        apply (h.sync c).update
        · intro d hd
          obtain hd | rfl := mem_declareField hd
          · exact (h.sync c).layout c d hd
          · exact hfit
        · exact (h.sync c).static c
  | ctor isAbstract => cases isAbstract <;> exact h
  | method n params isStatic isAbstract isOverride isFinal access body =>
    exact h.same (.defineMethod w c _ isAbstract isOverride)

theorem complete (h : Fitting w) (scope : ClassScope) (d : ClassDef V) :
    Fitting (completeClass scope w c d).2 := by
  unfold completeClass
  have hm : Fitting (untilError (fun w m => defineMember scope w c m) w d.members).2 :=
    untilError_keeps (fun _ m hw => hw.member scope m) d.members h
  split
  · rename_i w₁ he
    rwa [he] at hm
  · rename_i w₁ he
    rw [he] at hm
    have hi : Fitting (untilError (defineInterface scope c) w₁ d.interfaces).2 :=
      untilError_keeps (fun w name hw => hw.same (.defineInterface scope c w name)) d.interfaces hm
    split
    · rename_i w₂ he'
      rwa [he'] at hi
    · rename_i w₂ he'
      rw [he'] at hi
      dsimp only
      exact hi.same ((SameFields.finalizeAbstractMethods w₂ c).trans (.update rfl rfl))

theorem create (h : Fitting w) (d : ClassDef V) (parent : Option ClassId) :
    Fitting (createClass w d parent).2 := by
  apply sync
  constructor <;> intro k <;> dsimp only <;> by_cases hk : k = w.nextClass
  · rw [hk, update_self]
    intro d hd
    cases hd
  · rw [update_of_ne hk]
    exact h.layout k
  · rw [hk, update_self]
    intro name e he
    cases he
  · rw [update_of_ne hk]
    exact h.static k

theorem defineClass (h : Fitting w) (scope : ClassScope) (d : ClassDef V) :
    Fitting (defineClass scope w d).2 := by
  obtain hw | ⟨parent, -, hw | hw⟩ := @defineClass_world V w _ scope d
  · rw [hw]
    exact h
  · rw [hw]
    exact h.create d parent
  · rw [hw]
    exact (h.create d parent).complete scope d

theorem setField (h : Fitting w) (i : InstanceId) (name : Name) (v : V) :
    Fitting (setField w i name v) := by
  have hsync := h.sync (w.instances i).klass
  unfold Oop.setField
  dsimp only
  split
  · exact hsync
  · have happend : Fitting ((syncFields w (w.instances i).klass).updateClass (w.instances i).klass
        fun k => { k with
          instanceFields := appendField k.instanceFields
            ⟨name, .publicAccess, (w.instances i).klass, none, none⟩ }) := by
      apply hsync.update
      · intro d hd
        obtain hd | hd := @mem_foldl_appendField V d
          [⟨name, .publicAccess, (w.instances i).klass, none, none⟩] _ hd
        · exact hsync.layout _ d hd
        · rw [List.mem_singleton.mp hd]
          rfl
      · exact hsync.static _
    split
    · exact ⟨happend.layout, happend.static⟩
    · exact happend

theorem foldl_setField {α : Type} (i : InstanceId) (name : α → Name) (value : α → V) :
    ∀ (as : List α) {w : World V}, Fitting w →
      Fitting (as.foldl (fun w a => Oop.setField w i (name a) (value a)) w)
  | [], _, h => h
  | a :: as, _, h => foldl_setField i name value as (h.setField i (name a) (value a))

end Fitting

end Entries

/-! Static fields. -/

section Statics
variable {V : Type} {w w' : World V} {c : ClassId}

theorem staticFieldSlot_cons {p : ClassId} (hc : chain w c = c :: chain w p) (name : Name) :
    staticFieldSlot w c name =
      (((w.classes c).staticFields.find? fun e => e.name == name).map fun e => (c, e)).or
        (staticFieldSlot w p name) := by
  unfold staticFieldSlot
  rw [hc, List.findSome?_cons]
  cases (w.classes c).staticFields.find? fun e => e.name == name <;> rfl

theorem staticFieldSlot_root (hc : chain w c = [c]) (name : Name) : staticFieldSlot w c name =
      ((w.classes c).staticFields.find? fun e => e.name == name).map fun e => (c, e) := by
  unfold staticFieldSlot
  rw [hc, List.findSome?_cons]
  cases (w.classes c).staticFields.find? fun e => e.name == name <;> rfl

theorem staticFieldSlot_congr (hc : chain w' c = chain w c)
    (hs : ∀ k ∈ chain w c, (w'.classes k).staticFields = (w.classes k).staticFields) (name : Name) :
    staticFieldSlot w' c name = staticFieldSlot w c name := by
  unfold staticFieldSlot
  rw [hc]
  exact findSome_congr fun k hk => by rw [hs k hk]

theorem find_storeStatic (k : Class V) (name : Name) (t : Option Name) (v : V) (x : Name) :
    (k.storeStatic c name t v).staticFields.find? (fun e => e.name == x) =
      if x = name then
        some (((k.staticFields.find? fun e => e.name == name).map fun e =>
          { e with value := v }).getD ⟨name, v, .publicAccess, c, t⟩)
      else k.staticFields.find? fun e => e.name == x := by
  have hname {e : StaticField V} {n : Name}
      (h : (k.staticFields.find? fun e => e.name == n) = some e) : e.name = n := by
    simpa using List.find?_some h
  unfold Class.storeStatic
  split
  · rename_i hany
    rw [find_setValue]
    split
    · rename_i hx
      obtain ⟨e, he, hen⟩ := List.any_eq_true.mp hany
      have hsome : (k.staticFields.find? fun e => e.name == name).isSome = true := by
        rw [List.find?_isSome]
        exact ⟨e, he, hen⟩
      obtain ⟨e', he'⟩ := Option.isSome_iff_exists.mp hsome
      rw [hx, he', Option.map_some, if_pos (by rw [hname he', beq_self_eq_true])]
      rfl
    · rename_i hx
      cases he : k.staticFields.find? fun e => e.name == x with
      | none => rfl
      | some e =>
        have hne : ¬(e.name == name) = true := by
          rw [hname he, beq_iff_eq]
          exact hx
        rw [Option.map_some, if_neg hne]
  · rename_i hany
    have hnone : (k.staticFields.find? fun e => e.name == name) = none := by
      rw [List.find?_eq_none]
      exact fun e he h => hany (List.any_eq_true.mpr ⟨e, he, h⟩)
    rw [List.find?_append]
    split
    · rename_i hx
      rw [hx, hnone]
      simp
    · rename_i hx
      have hx' : ¬name = x := fun h => hx h.symm
      simp [hx']

theorem type_of_own {e : StaticField V} {name : Name}
    (h : ((w.classes c).staticFields.find? fun e => e.name == name) = some e) :
    getStaticFieldType w c name = e.declaredType := by
  unfold getStaticFieldType
  rw [staticFieldSlot_own h]
  rfl

theorem getStaticFieldType_store (h : WorldOk w) (c₀ : ClassId) (name : Name) (v : V) (x : Name) :
    ∀ c < w.nextClass, getStaticFieldType
      (w.updateClass c₀ fun k => k.storeStatic c₀ name (getStaticFieldType w c₀ name) v) c x =
        getStaticFieldType w c x := by
  intro c
  have hstep := @updateClass_step V w c₀ h (fun k => k.storeStatic c₀ name (getStaticFieldType w c₀ name) v)
    (storeStatic_kept _ c₀ name _ v) fun hs => storeStatic_ok hs name _ v
  generalize hw' : (w.updateClass c₀ fun k =>
    k.storeStatic c₀ name (getStaticFieldType w c₀ name) v) = w' at hstep ⊢
  induction c using Nat.strong_induction_on with
  | _ c ih =>
    intro hc
    have hproto : (w'.classes c).prototype = (w.classes c).prototype :=
      (hstep.2.classes c hc).prototype
    by_cases hstored : c = c₀ ∧ x = name
    · obtain ⟨rfl, rfl⟩ := hstored
      have hfind := @find_storeStatic V c (w.classes c) x (getStaticFieldType w c x) v x
      rw [if_pos rfl, ← updateClass_self w c fun k =>
        k.storeStatic c x (getStaticFieldType w c x) v, hw'] at hfind
      rw [type_of_own hfind]
      cases he : (w.classes c).staticFields.find? fun e => e.name == x with
      | none => rfl
      | some e => exact (type_of_own he).symm
    · have hown : ((w'.classes c).staticFields.find? fun e => e.name == x) =
          (w.classes c).staticFields.find? fun e => e.name == x := by
        rw [← hw']
        by_cases hcc : c = c₀
        · rw [hcc, updateClass_self, find_storeStatic, if_neg fun hx => hstored ⟨hcc, hx⟩]
        · rw [updateClass_of_ne w hcc]
      unfold getStaticFieldType
      cases hp : (w.classes c).prototype with
      | none =>
        rw [staticFieldSlot_root (chain_root hp), staticFieldSlot_root (chain_root (hproto.trans hp)), hown]
      | some p =>
        have hpc := h.prototype c hc p hp
        have hparent := ih p hpc (hpc.trans hc)
        unfold getStaticFieldType at hparent
        rw [staticFieldSlot_cons (chain_cons h.prototype hc hp),
          staticFieldSlot_cons (chain_cons hstep.1.prototype (hc.trans_le hstep.2.nextClass)
            (hproto.trans hp)), hown]
        cases (w.classes c).staticFields.find? fun e => e.name == x with
        | none => exact hparent
        | some e => rfl

variable [FieldValue V]

theorem setStaticField_type (h : WorldOk w) (c₀ : ClassId) (name : Name) (v : V) {c : ClassId}
    (hc : c < w.nextClass) (x : Name) :
    getStaticFieldType (setStaticField w c₀ name v) c x = getStaticFieldType w c x := by
  unfold setStaticField
  dsimp only
  split
  · rfl
  · exact getStaticFieldType_store h c₀ name v x c hc

theorem Fitting.setStaticField (h : Fitting w) (c : ClassId) (name : Name) (v : V) :
    Fitting (setStaticField w c name v) := by
  unfold Oop.setStaticField
  dsimp only
  split
  · exact h
  · rename_i hfit
    rw [Bool.not_eq_true] at hfit
    apply h.update
    · unfold Class.storeStatic
      split <;> exact h.layout c
    · intro x e he
      rw [find_storeStatic] at he
      split at he
      · rename_i hx
        cases hown : (w.classes c).staticFields.find? fun e => e.name == name with
        | none =>
          rw [hown] at he
          cases he
          exact hfit
        | some e' =>
          rw [hown] at he
          cases he
          rw [type_of_own hown] at hfit
          exact hfit
      · exact h.static c x e he

theorem setStaticField_readBack {name T : Name} {v : V}
    (ht : getStaticFieldType w c name = some T) (hv : FieldValue.fits v T = true) :
    (setStaticFieldChecked w c name v).1 = .ok () ∧
      getStaticField (setStaticFieldChecked w c name v).2 c name = some v ∧
      getStaticField (setStaticField w c name v) c name = some v := by
  have hfit : (misfit (getStaticFieldType w c name) v).isSome = false := by
    rw [ht]
    exact misfit_eq_false.2 hv
  have hnone : misfit (getStaticFieldType w c name) v = none := by
    rwa [← Option.isNone_iff_eq_none, ← Option.not_isSome, Bool.not_eq_true']
  have hread : getStaticField (setStaticField w c name v) c name = some v := by
    unfold setStaticField
    dsimp only
    rw [if_neg (by rw [hfit]; exact Bool.false_ne_true)]
    unfold getStaticField
    have hfind := @find_storeStatic V c (w.classes c) name (getStaticFieldType w c name) v name
    rw [if_pos rfl, ← updateClass_self w c fun k =>
      k.storeStatic c name (getStaticFieldType w c name) v] at hfind
    rw [staticFieldSlot_own hfind]
    cases (w.classes c).staticFields.find? fun e => e.name == name <;> rfl
  unfold setStaticFieldChecked
  rw [hnone]
  exact ⟨rfl, hread, hread⟩

end Statics

/-! The invariant. -/

section Invariant
variable {V : Type} {s : State V} {w' : World V} {c : ClassId}

theorem State.fieldType_cons {isStatic : Bool} {p : ClassId}
    (hc : chain s.world c = c :: chain s.world p) (name : Name) :
    s.fieldType isStatic c name =
      match declaredIn isStatic name (s.bodies c) with
      | some t => t
      | none => s.fieldType isStatic p name := by
  unfold State.fieldType
  rw [hc, List.findSome?_cons]
  cases declaredIn isStatic name (s.bodies c) <;> rfl

theorem State.fieldType_root {isStatic : Bool} (hc : chain s.world c = [c]) (name : Name) :
    s.fieldType isStatic c name = (declaredIn isStatic name (s.bodies c)).join := by
  unfold State.fieldType
  rw [hc, List.findSome?_cons]
  cases declaredIn isStatic name (s.bodies c) <;> rfl

theorem State.fieldType_congr {s' : State V} (hc : chain s'.world c = chain s.world c)
    (hb : ∀ k ∈ chain s.world c, s'.bodies k = s.bodies k) (isStatic : Bool) (name : Name) :
    s'.fieldType isStatic c name = s.fieldType isStatic c name := by
  unfold State.fieldType
  rw [hc]
  congr 1
  exact findSome_congr fun k hk => by rw [hb k hk]

variable [FieldValue V]

structure Ok (s : State V) : Prop where
  world : WorldOk s.world
  fitting : Fitting s.world
  defined : ∀ c ∈ s.defined, c < s.world.nextClass
  klass : ∀ i < s.world.nextInstance, (s.world.instances i).klass ∈ s.defined
  recorded : ∀ c ∈ s.defined, ∀ name T, s.fieldType false c name = some T →
    layoutType (s.world.classes c).instanceFields name = some (some T)
  recordedStatic : ∀ c ∈ s.defined, ∀ name T, s.fieldType true c name = some T →
    getStaticFieldType s.world c name = some T
  holds : ∀ i < s.world.nextInstance, ∀ name T,
    s.fieldType false (s.world.instances i).klass name = some T → Holds s.world i name T

theorem Ok.init : Ok (State.init : State V) where
  world := .empty
  fitting := ⟨fun _ _ hd => (nomatch hd), fun _ _ _ he => (nomatch he)⟩
  defined _ hc := nomatch hc
  klass _ hi := absurd hi (Nat.not_lt_zero _)
  recorded _ hc := nomatch hc
  recordedStatic _ hc := nomatch hc
  holds _ hi := absurd hi (Nat.not_lt_zero _)

theorem Ok.worldStep (h : Ok s) (hw : WorldOk w' ∧ Kept s.world w') (hfit : Fitting w')
    (hklass : ∀ i < w'.nextInstance, (w'.instances i).klass ∈ s.defined)
    (hstatic : ∀ c < s.world.nextClass, ∀ name,
      getStaticFieldType w' c name = getStaticFieldType s.world c name)
    (hholds : ∀ i < w'.nextInstance, ∀ name T,
      s.fieldType false (w'.instances i).klass name = some T → Holds w' i name T) :
    Ok { s with world := w' } := by
  have htype : ∀ c ∈ s.defined, ∀ isStatic name,
      State.fieldType { s with world := w' } isStatic c name = s.fieldType isStatic c name := by
    intro c hc isStatic name
    exact @State.fieldType_congr V s c { s with world := w' }
      (hw.2.chain h.world (h.defined c hc)) (fun _ _ => rfl) isStatic name
  refine ⟨hw.1, hfit, ?_, hklass, ?_, ?_, ?_⟩
  · exact fun c hc => (h.defined c hc).trans_le hw.2.nextClass
  · intro c hc name T ht
    rw [htype c hc] at ht
    exact layoutType_mono (hw.2.classes c (h.defined c hc)).layout (h.recorded c hc name T ht)
  · intro c hc name T ht
    rw [htype c hc] at ht
    rw [hstatic c (h.defined c hc)]
    exact h.recordedStatic c hc name T ht
  · intro i hi name T ht
    rw [htype _ (hklass i hi)] at ht
    exact hholds i hi name T ht

theorem Ok.layout (h : Ok s) {i : InstanceId} (hi : i < s.world.nextInstance) {name T : Name}
    (ht : s.fieldType false (s.world.instances i).klass name = some T) :
    layoutType (s.world.classes (s.world.instances i).klass).instanceFields name = some (some T) :=
  h.recorded _ (h.klass i hi) name T ht

theorem Ok.enforced (h : Ok s) : Enforced s where
  holds := h.holds
  holdsStatic c hc name T ht := by
    have htype := h.recordedStatic c hc name T ht
    unfold getStaticFieldType at htype
    obtain ⟨⟨k, e⟩, hslot, he⟩ := Option.bind_eq_some_iff.mp htype
    obtain ⟨-, hfind⟩ := staticFieldSlot_entry hslot
    have hfit := h.fitting.static k name e hfind
    refine ⟨e.value, ?_, ?_⟩
    · unfold getStaticField
      rw [hslot]
      rfl
    · rw [he, misfit_eq_false] at hfit
      exact hfit
  write i hi name T v ht hv := by
    have hlayout := h.layout hi ht
    obtain ⟨hanswer, hread⟩ := setFieldChecked_readBack h.world hi hlayout hv
    exact ⟨hanswer, hread, setField_readBack h.world hi hlayout hv⟩
  writeStatic c hc name T v ht hv := setStaticField_readBack (h.recordedStatic c hc name T ht) hv

end Invariant

/-! Writes and creations. -/

section Writes
variable {V : Type} [FieldValue V] {w w' w'' : World V} {s : State V} {i j : InstanceId}
open FieldValue

/-- Worlds with the same instances, of the same classes, and the same static fields. -/
structure Frame (w w' : World V) : Prop where
  nextInstance : w'.nextInstance = w.nextInstance
  klass : ∀ j, (w'.instances j).klass = (w.instances j).klass
  static : ∀ k, (w'.classes k).staticFields = (w.classes k).staticFields

omit [FieldValue V] in
theorem Frame.trans (h : Frame w w') (h' : Frame w' w'') : Frame w w'' :=
  ⟨h'.nextInstance.trans h.nextInstance, fun j => (h'.klass j).trans (h.klass j),
    fun k => (h'.static k).trans (h.static k)⟩

theorem Frame.setField (w : World V) (i : InstanceId) (name : Name) (v : V) :
    Frame w (setField w i name v) := by
  have hlayout (w : World V) (c : ClassId) (g : List (FieldDecl V) → List (FieldDecl V)) :
      Frame w (w.updateClass c fun k => { k with instanceFields := g k.instanceFields }) := by
    refine ⟨rfl, fun _ => rfl, fun k => ?_⟩
    by_cases hk : k = c
    · rw [hk, updateClass_self]
    · rw [updateClass_of_ne w hk]
  have hsync := hlayout w (w.instances i).klass fun layout =>
    (inheritedFields w (w.instances i).klass).foldl appendField layout
  unfold Oop.setField
  dsimp only
  split
  · exact hsync
  · have happend := hsync.trans (hlayout (syncFields w (w.instances i).klass) (w.instances i).klass
      fun layout => appendField layout ⟨name, .publicAccess, (w.instances i).klass, none, none⟩)
    split
    · rename_i index _
      refine ⟨happend.nextInstance, fun j => ?_, happend.static⟩
      by_cases hj : j = i
      · simp [World.updateInstance, hj, Instance.store, syncFields, World.updateClass]
      · simp [World.updateInstance, hj, syncFields, World.updateClass]
    · exact happend

def fill (i : InstanceId) (ds : List (FieldDecl V)) (w : World V) : World V :=
  ds.foldl (fun w d => Oop.setField w i d.name (d.default.getD null)) w

theorem Frame.fill : ∀ (ds : List (FieldDecl V)) (w : World V), Frame w (fill i ds w)
  | [], _ => ⟨rfl, fun _ => rfl, fun _ => rfl⟩
  | d :: ds, w => (Frame.setField w i d.name _).trans (Frame.fill ds _)

theorem layoutType_setField (h : WorldOk w) (hi : i < w.nextInstance) (name : Name) (v : V)
    (hj : j < w.nextInstance) {x : Name} {t : Option Name}
    (ht : layoutType (w.classes (w.instances j).klass).instanceFields x = some t) :
    layoutType ((setField w i name v).classes
      ((setField w i name v).instances j).klass).instanceFields x = some t := by
  rw [(Frame.setField w i name v).klass j]
  exact layoutType_mono ((setField_step h hi name v).2.classes _ (h.klass j hj)).layout ht

theorem Holds.fill {x T : Name} : ∀ (ds : List (FieldDecl V)) {w : World V}, WorldOk w →
    i < w.nextInstance → j < w.nextInstance →
      layoutType (w.classes (w.instances j).klass).instanceFields x = some (some T) →
      Holds w j x T → Holds (fill i ds w) j x T
  | [], _, _, _, _, _, hx => hx
  | d :: ds, w, h, hi, hj, ht, hx => by
    have hnext := (Frame.setField w i d.name (d.default.getD null)).nextInstance
    apply Holds.fill ds (setField_step h hi d.name _).1 (hnext ▸ hi) (hnext ▸ hj)
    · exact layoutType_setField h hi d.name _ hj ht
    · exact hx.setField h hi d.name _ hj ht

theorem fill_holds (hnull : ∀ T, fits (null : V) T = true) {d : FieldDecl V} {T : Name}
    (hd : d.declaredType = some T) (hfits : Fits d) : ∀ (ds : List (FieldDecl V)) {w : World V},
    d ∈ ds → WorldOk w → i < w.nextInstance →
      layoutType (w.classes (w.instances i).klass).instanceFields d.name = some (some T) →
      Holds (fill i ds w) i d.name T
  | [], _, hmem, _, _, _ => nomatch hmem
  | e :: ds, w, hmem, h, hi, ht => by
    have hnext := (Frame.setField w i e.name (e.default.getD null)).nextInstance
    have hlayout := layoutType_setField h hi e.name (e.default.getD null) hi ht
    have hok := (setField_step h hi e.name (e.default.getD null)).1
    obtain rfl | hmem := List.mem_cons.mp hmem
    · have hv : fits (d.default.getD null) T = true := by
        unfold Fits at hfits
        rw [hd] at hfits
        cases hdef : d.default with
        | none => exact hnull T
        | some v =>
          rw [hdef] at hfits
          exact misfit_eq_false.1 hfits
      exact Holds.fill ds hok (hnext ▸ hi) (hnext ▸ hi) hlayout ⟨_, setField_readBack h hi ht hv, hv⟩
    · exact fill_holds hnull hd hfits ds hmem hok (hnext ▸ hi) hlayout

omit [FieldValue V] in
theorem Frame.staticType (hf : Frame w w') (hk : Kept w w') (h : WorldOk w) {c : ClassId}
    (hc : c < w.nextClass) (name : Name) :
    getStaticFieldType w' c name = getStaticFieldType w c name := by
  unfold getStaticFieldType
  rw [staticFieldSlot_congr (hk.chain h hc) fun k _ => hf.static k]

theorem Ok.setField (h : Ok s) (hi : i < s.world.nextInstance) (name : Name) (v : V) :
    Ok { s with world := Oop.setField s.world i name v } := by
  have hf := Frame.setField s.world i name v
  have hstep := setField_step h.world hi name v
  apply h.worldStep hstep (h.fitting.setField i name v)
  · intro j hj
    rw [hf.klass j]
    exact h.klass j (hf.nextInstance ▸ hj)
  · exact fun c hc => hf.staticType hstep.2 h.world hc
  · intro j hj x T ht
    rw [hf.klass j] at ht
    have hj' : j < s.world.nextInstance := hf.nextInstance ▸ hj
    exact (h.holds j hj' x T ht).setField h.world hi name v hj' (h.layout hj' ht)

theorem Ok.sync (h : Ok s) {c : ClassId} : Ok { s with world := syncFields s.world c } := by
  have hstep := syncFields_step h.world c
  apply h.worldStep hstep (h.fitting.sync c) h.klass
  · intro k hk name
    unfold getStaticFieldType
    rw [staticFieldSlot_congr (hstep.2.chain h.world hk)]
    intro a _
    by_cases hac : a = c
    · rw [hac, syncFields, updateClass_self]
    · rw [syncFields, updateClass_of_ne _ hac]
  · intro j hj x T ht
    unfold Holds
    rw [getField_kept h.world hj (by rfl) (syncFields_classKept s.world c _)]
    exact h.holds j hj x T ht

theorem Ok.setFieldChecked (h : Ok s) (hi : i < s.world.nextInstance) (name : Name) (v : V) :
    Ok { s with world := (Oop.setFieldChecked s.world i name v).2 } := by
  unfold Oop.setFieldChecked
  dsimp only
  split
  · exact h.sync
  · exact h.sync.setField hi name v

theorem Ok.setStaticField (h : Ok s) (c : ClassId) (name : Name) (v : V) :
    Ok { s with world := Oop.setStaticField s.world c name v } := by
  have hstep := setStaticField_step h.world c name v
  have hinst : (Oop.setStaticField s.world c name v).instances = s.world.instances ∧
      (Oop.setStaticField s.world c name v).nextInstance = s.world.nextInstance := by
    unfold Oop.setStaticField
    dsimp only
    split <;> exact ⟨rfl, rfl⟩
  apply h.worldStep hstep (h.fitting.setStaticField c name v)
  · rw [hinst.1, hinst.2]
    exact h.klass
  · exact fun k hk => setStaticField_type h.world c name v hk
  · rw [hinst.1, hinst.2]
    intro j hj x T ht
    unfold Holds
    rw [getField_kept h.world hj (by rw [hinst.1]) (hstep.2.classes _ (h.world.klass j hj))]
    exact h.holds j hj x T ht

theorem Ok.setStaticFieldChecked (h : Ok s) (c : ClassId) (name : Name) (v : V) :
    Ok { s with world := (Oop.setStaticFieldChecked s.world c name v).2 } := by
  unfold Oop.setStaticFieldChecked
  split
  · exact h
  · exact h.setStaticField c name v

end Writes

/-! Definitions and runs. -/

section Runs
variable {V : Type} [FieldValue V] {w w' : World V} {s : State V} {i : InstanceId} {c : ClassId}
  {scope : ClassScope} {d : ClassDef V}
open FieldValue

theorem Ok.createInstance (h : Ok s) (hnull : ∀ T, fits (null : V) T = true) (hc : c ∈ s.defined) :
    Ok { s with world := (Oop.createInstance s.world c).2 } := by
  have hlt := h.defined c hc
  have hstep := createInstance_step h.world hlt
  unfold Oop.createInstance at hstep ⊢
  dsimp only at hstep ⊢
  generalize hnew : (Instance.mk c (fun _ => none)
    (ensureCapacity 0 (s.world.classes c).instanceFields.length) [] 1 : Instance V) = new at hstep ⊢
  have hklass : new.klass = c := by rw [← hnew]
  have hstart := newInstance_step h.world (hklass ▸ hlt) (by rw [← hnew]; intro index; rfl) (by rw [← hnew])
  generalize hw₀ : (⟨s.world.classes, s.world.nextClass,
    Function.update s.world.instances s.world.nextInstance new, s.world.nextInstance + 1⟩ :
    World V) = w₀ at hstart hstep ⊢
  have hold : ∀ j < s.world.nextInstance, w₀.instances j = s.world.instances j := by
    intro j hj
    rw [← hw₀]
    exact update_of_ne hj.ne _ _
  have hself : w₀.instances s.world.nextInstance = new := by
    rw [← hw₀]
    exact update_self ..
  have hclasses : w₀.classes = s.world.classes := by rw [← hw₀]
  have hnext : w₀.nextInstance = s.world.nextInstance + 1 := by rw [← hw₀]
  have hi : s.world.nextInstance < w₀.nextInstance := by
    rw [hnext]
    exact Nat.lt_succ_self _
  change WorldOk (fill s.world.nextInstance (initialFields s.world c) w₀) ∧
    Kept s.world (fill s.world.nextInstance (initialFields s.world c) w₀) at hstep
  show Ok { s with world := fill s.world.nextInstance (initialFields s.world c) w₀ }
  have hf : Frame w₀ (fill s.world.nextInstance (initialFields s.world c) w₀) := Frame.fill _ _
  have hcases : ∀ j < (fill s.world.nextInstance (initialFields s.world c) w₀).nextInstance,
      j < s.world.nextInstance ∨ j = s.world.nextInstance := by
    intro j hj
    rw [hf.nextInstance, hnext] at hj
    exact Nat.lt_succ_iff_lt_or_eq.mp hj
  apply h.worldStep hstep
  · apply Fitting.foldl_setField
    refine ⟨?_, ?_⟩ <;> rw [hclasses]
    · exact h.fitting.layout
    · exact h.fitting.static
  · intro j hj
    rw [hf.klass j]
    obtain hj | rfl := hcases j hj
    · rw [hold j hj]
      exact h.klass j hj
    · rw [hself, hklass]
      exact hc
  · intro k hk name
    unfold getStaticFieldType
    rw [staticFieldSlot_congr (hstep.2.chain h.world hk)]
    intro a _
    rw [hf.static a, hclasses]
  · intro j hj x T ht
    rw [hf.klass j] at ht
    obtain hj | rfl := hcases j hj
    · -- an older instance
      rw [hold j hj] at ht
      have hj₀ : j < w₀.nextInstance := hj.trans hi
      apply Holds.fill _ hstart.1 hi hj₀
      · rw [hold j hj, hclasses]
        exact h.layout hj ht
      · unfold Holds
        rw [getField_kept h.world hj (hold j hj) (by rw [hclasses]; exact .refl _)]
        exact h.holds j hj x T ht
    · -- the new instance gets the default of every entry of the layout
      rw [hself, hklass] at ht
      have hrec := h.recorded c hc x T ht
      obtain ⟨d, hmem, rfl, -, hd⟩ := fieldDecl_of_layoutType hrec
      have hinit : d ∈ initialFields s.world c := by
        unfold initialFields
        rw [if_neg]
        · exact (syncFields_classKept s.world c c).layout.subset hmem
        · rw [List.isEmpty_iff]
          intro he
          rw [he] at hmem
          cases hmem
      apply fill_holds hnull hd (h.fitting.layout c d hmem) _ hinit hstart.1 hi
      rw [hself, hklass, hclasses]
      exact hrec

theorem defineClass_frame (w : World V) (scope : ClassScope) (d : ClassDef V) :
    (∀ k < w.nextClass, (defineClass scope w d).2.classes k = w.classes k) ∧
      (defineClass scope w d).2.instances = w.instances ∧
      (defineClass scope w d).2.nextInstance = w.nextInstance := by
  obtain he | ⟨parent, -, ht⟩ := defineClass_touches w scope d
  · rw [he]
    exact ⟨fun _ _ => rfl, rfl, rfl⟩
  · refine ⟨fun k hk => (ht.others k hk.ne).trans ?_, ht.instances, ht.nextInstance⟩
    exact (@createClass_facts V scope w d parent).1 k hk.ne

theorem defineClass_new (hd : defineClass scope w d = (.ok c, w')) : w'.nextClass = w.nextClass + 1 ∧
      (w'.classes c).prototype = d.parent.bind fun name => scope.lookup name := by
  obtain ⟨rfl, hcomplete⟩ := defineClass_ok hd
  have htouch := @completeClass_touches V w.nextClass
    (createClass w d (d.parent.bind fun name => scope.lookup name)).2 _ scope d
  rw [hcomplete] at htouch
  obtain ⟨-, hnext, hproto, -⟩ :=
    @createClass_facts V scope w d (d.parent.bind fun name => scope.lookup name)
  exact ⟨htouch.nextClass.trans hnext, htouch.prototype.trans hproto⟩

theorem Ok.defineClass (h : Ok s) (hscope : ∀ p ∈ scope, p.2 ∈ s.defined) :
    Ok { s with world := (Oop.defineClass scope s.world d).2 } := by
  obtain ⟨hold, hinst, hnext⟩ := defineClass_frame s.world scope d
  have hstep := defineClass_step h.world (fun p hp => h.defined p.2 (hscope p hp)) d
  apply h.worldStep hstep (h.fitting.defineClass scope d)
  · rw [hinst, hnext]
    exact h.klass
  · intro k hk name
    unfold getStaticFieldType
    rw [staticFieldSlot_congr (hstep.2.chain h.world hk)]
    intro a ha
    rw [hold a (h.world.chain_lt hk a ha)]
  · rw [hinst, hnext]
    intro j hj x T ht
    unfold Holds
    rw [getField_kept h.world hj (by rw [hinst]) (hstep.2.classes _ (h.world.klass j hj))]
    exact h.holds j hj x T ht

omit [FieldValue V] in
theorem createClass_layout (h : WorldOk w) {p : ClassId} (hp : p < w.nextClass) (name : Name) :
    layoutType ((createClass w d (some p)).2.classes w.nextClass).instanceFields name =
      layoutType (importedFields w p) name := by
  let k : Class V :=
    { name := d.name, prototype := some p, isAbstract := d.isAbstract || d.isInterface,
      isInterface := d.isInterface }
  let w₀ : World V :=
    { w with classes := Function.update w.classes w.nextClass k, nextClass := w.nextClass + 1 }
  have hself : w₀.classes w.nextClass = k := update_self ..
  have hother : ∀ a < w.nextClass, w₀.classes a = w.classes a := fun a ha =>
    update_of_ne ha.ne _ _
  have hproto : ∀ a < w.nextClass + 1, ∀ q, (w₀.classes a).prototype = some q → q < a := by
    intro a ha q hq
    obtain ha | rfl := Nat.lt_succ_iff_lt_or_eq.mp ha
    · rw [hother a ha] at hq
      exact h.prototype a ha q hq
    · rw [hself] at hq
      cases hq
      exact hp
  have hchain : chain w₀ w.nextClass = w.nextClass :: chain w p := by
    rw [chain_cons hproto (Nat.lt_succ_self _) (by rw [hself])]
    rw [chain_congr fun a ha => by rw [hother a (h.chain_lt hp a ha)]]
  have himport : inheritedFields w₀ w.nextClass = importedFields w p := by
    unfold inheritedFields importedFields
    rw [hchain, List.tail_cons]
    simp only [List.flatMap]
    congr 1
    apply List.map_congr_left
    intro a ha
    rw [hother a (h.chain_lt hp a (List.mem_reverse.mp ha))]
  show layoutType ((syncFields w₀ w.nextClass).classes w.nextClass).instanceFields name = _
  rw [syncFields, updateClass_self, himport, hself]
  unfold layoutType
  rw [find_foldl_appendField]
  rfl

omit [FieldValue V] in
theorem parent_defined (hscope : ∀ p ∈ scope, p.2 ∈ s.defined) {p : ClassId}
    (hp : (d.parent.bind fun name => scope.lookup name) = some p) : p ∈ s.defined := by
  obtain ⟨x, -, hx⟩ := Option.bind_eq_some_iff.mp hp
  exact hscope (x, p) (mem_of_lookup hx)

theorem fieldType_new (h : Ok s) (hscope : ∀ p ∈ scope, p.2 ∈ s.defined)
    (hok : WorldOk w' ∧ Kept s.world w') (hn : s.world.nextClass < w'.nextClass)
    (hproto : (w'.classes s.world.nextClass).prototype =
      d.parent.bind fun name => scope.lookup name) (isStatic : Bool) (name : Name) :
    State.fieldType ⟨w', Function.update s.bodies s.world.nextClass d.members,
        s.world.nextClass :: s.defined⟩ isStatic s.world.nextClass name =
      match declaredIn isStatic name d.members with
      | some t => t
      | none => (d.parent.bind fun name => scope.lookup name).bind fun p =>
          s.fieldType isStatic p name := by
  have hbody : Function.update s.bodies s.world.nextClass d.members s.world.nextClass = d.members :=
    update_self ..
  cases hp : d.parent.bind fun name => scope.lookup name with
  | none =>
    rw [hp] at hproto
    rw [State.fieldType_root (chain_root hproto)]
    dsimp only
    rw [hbody]
    cases declaredIn isStatic name d.members <;> rfl
  | some p =>
    rw [hp] at hproto
    have hlt := h.defined p (parent_defined hscope hp)
    rw [State.fieldType_cons (chain_cons hok.1.prototype hn hproto)]
    dsimp only
    rw [hbody, Option.bind_some]
    have hparent : State.fieldType ⟨w', Function.update s.bodies s.world.nextClass d.members,
        s.world.nextClass :: s.defined⟩ isStatic p name = s.fieldType isStatic p name := by
      apply State.fieldType_congr (hok.2.chain h.world hlt)
      intro k hk
      exact update_of_ne (h.world.chain_lt hlt k hk).ne _ _
    rw [hparent]

theorem defineClass_records (h : Ok s) (hscope : ∀ p ∈ scope, p.2 ∈ s.defined)
    (hd : Oop.defineClass scope s.world d = (.ok c, w')) (hrec : Recorded s scope d)
    (hok : WorldOk w' ∧ Kept s.world w') (name T : Name) :
    (State.fieldType ⟨w', Function.update s.bodies c d.members, c :: s.defined⟩ false c name =
        some T → layoutType (w'.classes c).instanceFields name = some (some T)) ∧
      (State.fieldType ⟨w', Function.update s.bodies c d.members, c :: s.defined⟩ true c name =
        some T → getStaticFieldType w' c name = some T) := by
  obtain ⟨hold, -, -⟩ := defineClass_frame s.world scope d
  rw [hd] at hold
  obtain ⟨hnext, hproto⟩ := defineClass_new hd
  obtain ⟨rfl, hcomplete⟩ := defineClass_ok hd
  have hn : s.world.nextClass < w'.nextClass := by
    rw [hnext]
    exact Nat.lt_succ_self _
  obtain ⟨w₁, hmembers, hsame⟩ := completeClass_fields hcomplete
  rw [fieldType_new h hscope hok hn hproto, fieldType_new h hscope hok hn hproto]
  refine ⟨fun ht => ?_, fun ht => ?_⟩
  · rw [hsame.layout]
    apply members_layout d.members hmembers hrec.initial
    cases hdecl : declaredIn false name d.members with
    | some t =>
      rw [hdecl] at ht
      exact congrArg some ht
    | none =>
      rw [hdecl] at ht
      obtain ⟨p, hp, htp⟩ := Option.bind_eq_some_iff.mp ht
      rw [Option.none_or, hp, createClass_layout h.world (h.defined p (parent_defined hscope hp))]
      exact hrec.inherited p hp name T hdecl htp
  · have hown := @members_static V _ w₁ s.world.nextClass scope name d.members _ hmembers
    have hnew : ownStaticType ((createClass s.world d (d.parent.bind fun name =>
        scope.lookup name)).2.classes s.world.nextClass) name = none := by
      simp [ownStaticType, createClass, syncFields]
    rw [hnew, Option.or_none] at hown
    unfold ownStaticType at hown
    rw [← hsame.static] at hown
    cases hdecl : declaredIn true name d.members with
    | some t =>
      rw [hdecl] at ht hown
      obtain ⟨e, he, hte⟩ := Option.map_eq_some_iff.mp hown
      rw [type_of_own he, hte]
      exact ht
    | none =>
      rw [hdecl] at ht hown
      obtain ⟨p, hp, htp⟩ := Option.bind_eq_some_iff.mp ht
      have hlt := h.defined p (parent_defined hscope hp)
      rw [hp] at hproto
      unfold getStaticFieldType
      rw [staticFieldSlot_cons (chain_cons hok.1.prototype hn hproto), Option.map_eq_none_iff.mp hown]
      rw [staticFieldSlot_congr (hok.2.chain h.world hlt)
        fun k hk => by rw [hold k (h.world.chain_lt hlt k hk)]]
      exact h.recordedStatic p (parent_defined hscope hp) name T htp

theorem Ok.defined_ok (h : Ok s) (hscope : ∀ p ∈ scope, p.2 ∈ s.defined)
    (hd : Oop.defineClass scope s.world d = (.ok c, w')) (hrec : Recorded s scope d) :
    Ok ⟨w', Function.update s.bodies c d.members, c :: s.defined⟩ := by
  have hstep := defineClass_step h.world (fun p hp => h.defined p.2 (hscope p hp)) d
  have hw := h.defineClass (d := d) hscope
  have hrecords := defineClass_records h hscope hd hrec
  rw [hd] at hstep hw
  replace hrecords := hrecords hstep
  have hc : c = s.world.nextClass := (defineClass_ok hd).1
  -- the older classes declare what they declared
  have hold : ∀ k ∈ s.defined, ∀ isStatic name,
      State.fieldType ⟨w', Function.update s.bodies c d.members, c :: s.defined⟩ isStatic k name =
        State.fieldType { s with world := w' } isStatic k name := by
    intro k hk isStatic name
    refine @State.fieldType_congr V { s with world := w' } k
      ⟨w', Function.update s.bodies c d.members, c :: s.defined⟩ rfl (fun a ha => ?_) isStatic name
    rw [show chain w' k = chain s.world k from hstep.2.chain h.world (h.defined k hk)] at ha
    exact update_of_ne (hc ▸ (h.world.chain_lt (h.defined k hk) a ha).ne) _ _
  have hn : c < w'.nextClass := by
    rw [(defineClass_new hd).1, hc]
    exact Nat.lt_succ_self _
  refine ⟨hw.world, hw.fitting, ?_, ?_, ?_, ?_, ?_⟩
  · intro k hk
    obtain rfl | hk := List.mem_cons.mp hk
    · exact hn
    · exact hw.defined k hk
  · exact fun i hi => List.mem_cons_of_mem _ (hw.klass i hi)
  · intro k hk name T ht
    obtain rfl | hk := List.mem_cons.mp hk
    · exact (hrecords name T).1 ht
    · rw [hold k hk] at ht
      exact hw.recorded k hk name T ht
  · intro k hk name T ht
    obtain rfl | hk := List.mem_cons.mp hk
    · exact (hrecords name T).2 ht
    · rw [hold k hk] at ht
      exact hw.recordedStatic k hk name T ht
  · intro i hi name T ht
    rw [hold _ (hw.klass i hi)] at ht
    exact hw.holds i hi name T ht

theorem Ok.perform (h : Ok s) (hnull : ∀ T, fits (null : V) T = true) {op : Op V}
    (hadm : op.admissible s = true) (hrec : ∀ scope d, op = .define scope d → Recorded s scope d) :
    Ok (perform s op) := by
  cases op with
  | define scope d =>
    have hscope : ∀ p ∈ scope, p.2 ∈ s.defined := by
      intro p hp
      exact List.contains_iff_mem.mp (List.all_eq_true.mp hadm p hp)
    unfold Typed.perform
    dsimp only
    split
    · rename_i c w hd
      exact h.defined_ok hscope hd (hrec scope d rfl)
    · rename_i msg w hd
      have hw := h.defineClass (d := d) hscope
      rw [hd] at hw
      exact hw
  | create c => exact h.createInstance hnull (List.contains_iff_mem.mp hadm)
  | setField i name v => exact h.setField (of_decide_eq_true hadm) name v
  | setFieldChecked i name v => exact h.setFieldChecked (of_decide_eq_true hadm) name v
  | setStaticField c name v => exact h.setStaticField c name v
  | setStaticFieldChecked c name v => exact h.setStaticFieldChecked c name v

theorem run_enforced (hnull : ∀ T, fits (null : V) T = true) : ∀ (ops : List (Op V)) {s t : State V},
      Ok s → RecordedRun s ops → run step s ops = some t → Enforced t := by
  intro ops
  induction ops with
  | nil =>
    intro s t h _ hrun
    cases hrun
    exact h.enforced
  | cons op ops ih =>
    intro s t h hrec hrun
    obtain ⟨s', o, hs, hrest⟩ := run_cons hrun
    unfold step at hs
    split at hs
    · rename_i hadm
      cases hs
      exact ih (h.perform hnull hadm hrec.1) hrec.2 hrest
    · cases hs

end Runs

/-! When declared types are enforced. -/

section Stored

/-- The values that fields hold, and the class names that the type tests see. -/
def Stored (D : Type) (_ : Hierarchy ClassId) (_ : InstanceId → ClassId) : Type := Exprtk.Value D

variable {D : Type} {h : Hierarchy ClassId} {classOf : InstanceId → ClassId}

instance : FieldValue (Stored D h classOf) where
  null := (.null : Exprtk.Value D)
  signatureType v := (valueType (v : Exprtk.Value D)).signature
  fits v T := matchesFieldType h classOf v T

theorem null_fits (T : Name) : FieldValue.fits (FieldValue.null : Stored D h classOf) T = true := rfl

/-- **When declared types are enforced and honoured.** In every run whose definitions record
what they say, typed fields hold null or a value of the declared type, and a write of such a
value is read back. A field and a parameter of one declared type take the same value exactly
when it is not one of those that only one of the two tests knows. -/
theorem declared_types_enforced (D : Type) (h : Hierarchy ClassId) (classOf : InstanceId → ClassId) :
    (∀ (ops : List (Op (Stored D h classOf))) (s : State (Stored D h classOf)),
      RecordedRun State.init ops → run step State.init ops = some s → Enforced s) ∧
    ∀ (v : Exprtk.Value D) (m : Method) (T : Name),
      matchesFieldType h classOf v T = matchesParamType h classOf v m T ↔
        SameTest h classOf v m T := by
  constructor
  · intro ops s hrec hrun
    exact run_enforced null_fits ops Ok.init hrec hrun
  · exact sameTest_iff h classOf

end Stored

/-! A typed field with an initial value of another type. -/

section Wrong

def noClasses : Hierarchy ClassId where
  name _ := ""
  typeId _ := 0
  prototype _ := none
  interfaces _ := []
  rank _ := 0
  prototype_lt _ _ h := nomatch h
  interfaces_lt _ _ h := nomatch h

/-- `class A { x: number = initial }`, an instance of it, and a write to its field. -/
def writeX (initial v : Exprtk.Value Unit) : List (Op (Stored Unit noClasses fun _ => 0)) :=
  [.define [] { name := "A"
                members := [.field "x" (some "number") (some initial) false .publicAccess] },
    .create 0, .setFieldChecked 0 "x" v]

def afterWriteX (initial v : Exprtk.Value Unit) : State (Stored Unit noClasses fun _ => 0) :=
  (run step State.init (writeX initial v)).getD State.init

theorem writeX_runs {initial v : Exprtk.Value Unit}
    (h : (run step State.init (writeX initial v)).isSome = true) :
    run step State.init (writeX initial v) = some (afterWriteX initial v) := by
  obtain ⟨s, hs⟩ := Option.isSome_iff_exists.1 h
  unfold afterWriteX
  rw [hs]
  rfl

/-- A definition whose initial value fits records what it says. -/
theorem declared_types_enforced_number : Enforced (afterWriteX (.number ()) (.number ())) := by
  have hruns := @writeX_runs (.number ()) (.number ()) (by decide)
  refine (declared_types_enforced Unit noClasses fun _ => 0).1 (writeX (.number ()) (.number ()))
    _ ⟨?_, ?_, ?_, trivial⟩ hruns
  · intro scope d hd
    cases hd
    refine ⟨?_, fun p hp => nomatch hp⟩
    intro name t v access hmem
    cases List.mem_singleton.mp hmem
    rfl
  · intro scope d hd
    cases hd
  · intro scope d hd
    cases hd

/-- The declaration of a field whose initial value does not fit is dropped without an error,
and the field takes every value. -/
theorem typed_field_holds_string : ¬ ∀ (D : Type) (h : Hierarchy ClassId) (classOf : InstanceId → ClassId),
      (∀ (ops : List (Op (Stored D h classOf))) (s : State (Stored D h classOf)),
        run step State.init ops = some s → Enforced s) ∧
      ∀ (v : Exprtk.Value D) (m : Method) (T : Name),
        matchesFieldType h classOf v T = matchesParamType h classOf v m T := by
  intro hclaim
  have hruns := @writeX_runs (.string "s") (.string "t") (by decide)
  have henforced := (hclaim Unit noClasses fun _ => 0).1 _ _ hruns
  obtain ⟨v, hv, hfits⟩ := henforced.holds 0 (by decide) "x" "number" (by decide)
  have hread : getField (afterWriteX (.string "s") (.string "t")).world 0 "x" =
      some (Exprtk.Value.string "t" : Exprtk.Value Unit) := rfl
  rw [hread] at hv
  cases hv
  revert hfits
  decide

end Wrong

end TurboScript.Oop.Typed
