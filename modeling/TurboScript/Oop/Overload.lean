import TurboScript.Oop.Abstract

/- The registration of methods (`exprtk_class_add_method`, `exprtk_class_lookup_method_arity`,
   `exprtk_class_lookup_method_typed`, `exprtk_class_lookup_method_signature`).

   A method is entered under its name and under a second key, which holds the number of its
   parameters or, when all have a declared type, their types. All overloads share one table. The
   hash map behind it fixes the order in which its entries are visited; it is a parameter here,
   `walk`. -/
namespace TurboScript.Oop
open Exprtk (Name ClassId AccessLevel)

/-! A table after additions. -/

section Additions

structure Signature where
  name : Name
  isStatic : Bool
  argc : Nat
  types : Option (List Name)
  deriving DecidableEq

def Method.signature (m : Method) : Signature := ⟨m.name, m.isStatic, m.params.length, fullTypes m⟩

theorem signature_eq_iff {m m' : Method} :
    m.signature = m'.signature ↔ m.isStatic = m'.isStatic ∧ typeKey m = typeKey m' := by
  unfold Method.signature typeKey
  rw [Signature.mk.injEq]
  cases hf : fullTypes m with
  | none =>
    cases hf' : fullTypes m' with
    | none => simp [and_left_comm]
    | some ts' => simp
  | some ts =>
    cases hf' : fullTypes m' with
    | none => simp
    | some ts' =>
      simp only [Option.some.injEq, MethodKey.types.injEq]
      constructor
      · rintro ⟨hn, hs, -, ht⟩
        exact ⟨hs, hn, ht⟩
      · rintro ⟨hs, hn, ht⟩
        refine ⟨hn, hs, ?_, ht⟩
        rw [← fullTypes_length hf, ← fullTypes_length hf', ht]

/-- The last of the methods that satisfies `p`. -/
def lastOf (p : Method → Bool) (ms : List Method) : Option Method := ms.reverse.find? p

theorem lastOf_cons (p : Method → Bool) (m : Method) (ms : List Method) :
    lastOf p (m :: ms) = (lastOf p ms).or (if p m then some m else none) := by
  unfold lastOf
  rw [List.reverse_cons, List.find?_append, List.find?_singleton]

theorem lastOf_append (p : Method → Bool) (ms : List Method) (m : Method) :
    lastOf p (ms ++ [m]) = if p m then some m else lastOf p ms := by
  unfold lastOf
  rw [List.reverse_append, List.reverse_singleton, List.singleton_append, List.find?_cons]
  cases p m <;> rfl

variable {ms : List Method}

theorem lastOf_spec {p : Method → Bool} {m : Method} (h : lastOf p ms = some m) : m ∈ ms ∧ p m = true :=
  ⟨List.mem_reverse.1 (List.mem_of_find?_eq_some h), List.find?_some h⟩

theorem lastOf_isSome {p : Method → Bool} {m : Method} (hm : m ∈ ms) (hp : p m = true) :
    ∃ m', lastOf p ms = some m' := by
  have h : (ms.reverse.find? p).isSome = true := List.find?_isSome.2 ⟨m, List.mem_reverse.2 hm, hp⟩
  exact Option.isSome_iff_exists.1 h

theorem lastOf_congr {p q : Method → Bool} (h : ∀ m ∈ ms, p m = q m) : lastOf p ms = lastOf q ms := by
  induction ms with
  | nil => rfl
  | cons m ms ih =>
    rw [lastOf_cons, lastOf_cons, ih fun m' hm' => h m' (List.mem_cons_of_mem m hm'),
      h m List.mem_cons_self]

theorem lookup_enterMethod (table : List (MethodKey × Method)) (m : Method) (key : MethodKey) :
    (enterMethod table m).lookup key =
      if (methodKeys m.name m).contains key then some m else table.lookup key := by
  unfold enterMethod
  rw [methodKeys_eq]
  simp only [List.foldl_cons, List.foldl_nil, lookup_tableSet_eq, List.contains_cons,
    List.contains_nil, Bool.or_false, Bool.or_eq_true]
  by_cases htype : (key == typeKey m) = true
  · rw [if_pos htype, if_pos (.inr htype)]
  · rw [if_neg htype]
    by_cases hname : (key == MethodKey.name m.name) = true
    · rw [if_pos hname, if_pos (.inl hname)]
    · rw [if_neg hname, if_neg (by simp [htype, hname])]

theorem lookup_enterAll (ms : List Method) (key : MethodKey) :
    ∀ table : List (MethodKey × Method), (ms.foldl enterMethod table).lookup key =
      (lastOf (fun m => (methodKeys m.name m).contains key) ms).or (table.lookup key) := by
  induction ms with
  | nil => intro table; rfl
  | cons m ms ih =>
    intro table
    rw [List.foldl_cons, ih, lookup_enterMethod, lastOf_cons, Option.or_assoc]
    congr 1
    split <;> rfl

theorem mem_enterAll : ∀ {table : List (MethodKey × Method)}, (∀ e ∈ table, table.lookup e.1 = some e.2) →
      ∀ e ∈ ms.foldl enterMethod table, (ms.foldl enterMethod table).lookup e.1 = some e.2 := by
  induction ms with
  | nil => intro table h; exact h
  | cons m ms ih =>
    intro table h
    rw [List.foldl_cons]
    apply ih
    intro e he
    rw [lookup_enterMethod, methodKeys_eq]
    rcases mem_enterMethod.1 he with rfl | rfl | ⟨he, hname, htype⟩
    · simp
    · simp
    · rw [if_neg (by simp [hname, htype])]
      exact h e he

end Additions

/-! What the lookups find. -/

section Lookups
variable {V : Type}

/-- `exprtk_class_lookup_method_arity`. -/
def lookupMethodArity (w : World V) (c : ClassId) (name : Name) (isStatic : Bool) (argc : Nat) :
    Option Method :=
  (chain w c).findSome? fun k => (methodTable w k isStatic).lookup (.arity name argc)

/-- `exprtk_class_lookup_method_signature`, which visits the entries of a table in its order. -/
def lookupMethodSignatureIn (walk : List (MethodKey × Method) → List (MethodKey × Method))
    (w : World V) (c : ClassId) (signature : Method) : Option Method :=
  (chain w c).findSome? fun k =>
    ((walk (methodTable w k signature.isStatic)).find? fun entry =>
      signaturesMatch w signature entry.2).map Prod.snd

/-- The class after a series of `exprtk_class_add_method`. -/
def addMethods (w : World V) (c : ClassId) (ms : List Method) : World V := ms.foldl (addMethod · c ·) w

theorem addMethod_name (w : World V) (c k : ClassId) (m : Method) :
    ((addMethod w c m).classes k).name = (w.classes k).name :=
  (addMethod_touches w m).names k

theorem addMethod_prototype (w : World V) (c k : ClassId) (m : Method) :
    ((addMethod w c m).classes k).prototype = (w.classes k).prototype := by
  by_cases hk : k = c
  · rw [hk]
    exact (addMethod_touches w m).prototype
  · rw [(addMethod_touches w m).others k hk]

theorem methodTable_addMethods (c : ClassId) (isStatic : Bool) (ms : List Method) :
    ∀ w : World V, methodTable (addMethods w c ms) c isStatic =
      (ms.filter fun m => m.isStatic == isStatic).foldl enterMethod (methodTable w c isStatic) := by
  induction ms with
  | nil => intro w; rfl
  | cons m ms ih =>
    intro w
    show methodTable (addMethods (addMethod w c m) c ms) c isStatic = _
    rw [ih, methodTable_addMethod, List.filter_cons]
    by_cases hm : m.isStatic = isStatic
    · rw [if_pos hm, if_pos (beq_iff_eq.2 hm), List.foldl_cons]
    · rw [if_neg hm, if_neg (by simpa using hm)]

theorem addMethods_name (c k : ClassId) (ms : List Method) :
    ∀ w : World V, ((addMethods w c ms).classes k).name = (w.classes k).name := by
  induction ms with
  | nil => intro w; rfl
  | cons m ms ih => exact fun w => (ih (addMethod w c m)).trans (addMethod_name w c k m)

theorem lastOf_filter (p q : Method → Bool) (ms : List Method) :
    lastOf p (ms.filter q) = lastOf (fun m => q m && p m) ms := by
  unfold lastOf
  rw [← List.filter_reverse, List.find?_filter]
  congr 1
  funext m
  rw [Bool.decide_and, Bool.decide_eq_true, Bool.decide_eq_true]

variable {m : Method}

theorem lastOf_weaken {p q : Method → Bool} {ms : List Method} (h : lastOf p ms = some m)
    (hq : q m = true) (hpq : ∀ m' ∈ ms, q m' = true → p m' = true) : lastOf q ms = some m := by
  induction ms with
  | nil => cases h
  | cons x ms ih =>
    rw [lastOf_cons] at h ⊢
    have hsub : ∀ m' ∈ ms, q m' = true → p m' = true := fun m' hm' => hpq m' (List.mem_cons_of_mem x hm')
    cases hp : lastOf p ms with
    | some y =>
      rw [hp, Option.some_or] at h
      cases h
      rw [ih hp hsub, Option.some_or]
    | none =>
      have hnone : lastOf q ms = none := by
        cases hl : lastOf q ms with
        | none => rfl
        | some y =>
          obtain ⟨hy, hqy⟩ := lastOf_spec hl
          obtain ⟨z, hz⟩ := lastOf_isSome hy (hsub y hy hqy)
          rw [hp] at hz
          cases hz
      rw [hp, Option.none_or] at h
      rw [hnone, Option.none_or]
      split at h
      · cases h
        rw [if_pos hq]
      · cases h

theorem typeKey_name {m' : Method} (h : typeKey m = typeKey m') : m.name = m'.name := by
  unfold typeKey at h
  split at h
  · split at h
    · exact (MethodKey.arity.inj h).1
    · cases h
  · split at h
    · cases h
    · exact (MethodKey.types.inj h).1

theorem callTypeKey_eq {ts : List Name} (h : fullTypes m = some ts) :
    callTypeKey m.name ts = typeKey m := by
  have hne : ts.isEmpty = false := by
    rw [List.isEmpty_eq_false_iff, ← List.length_pos_iff, fullTypes_length h, List.length_pos_iff]
    intro hp
    unfold fullTypes at h
    rw [hp] at h
    cases h
  unfold callTypeKey typeKey
  rw [hne, h]
  rfl

theorem chain_findSome {α : Type} {w : World V} {c : ClassId} {f : ClassId → Option α} {a : α}
    (h : f c = some a) : (chain w c).findSome? f = some a := by
  unfold chain chainFrom
  rw [List.findSome?_cons, h]

variable {w : World V} {c : ClassId} {ms : List Method}

def Fresh (w : World V) (c : ClassId) : Prop := ∀ isStatic, methodTable w c isStatic = []

theorem lookup_signature (h : Fresh w c) (m : Method) :
    (methodTable (addMethods w c ms) c m.isStatic).lookup (typeKey m) =
      lastOf (fun m' => m'.signature = m.signature) ms := by
  rw [methodTable_addMethods, lookup_enterAll, h, List.lookup_nil, Option.or_none, lastOf_filter]
  apply lastOf_congr
  intro m' _
  rw [Bool.eq_iff_iff, decide_eq_true_iff, Bool.and_eq_true, beq_iff_eq, signature_eq_iff, methodKeys_eq]
  simp only [List.contains_cons, List.contains_nil, Bool.or_false, Bool.or_eq_true, beq_iff_eq,
    typeKey_ne_name, false_or]
  exact and_congr_right fun _ => eq_comm

theorem entry_last (h : Fresh w c) {isStatic : Bool} {e : MethodKey × Method}
    (he : e ∈ methodTable (addMethods w c ms) c isStatic) :
    e.2.isStatic = isStatic ∧ lastOf (fun m => m.signature = e.2.signature) ms = some e.2 := by
  rw [methodTable_addMethods, h] at he
  have hlookup := mem_enterAll (fun _ hnil => absurd hnil List.not_mem_nil) e he
  rw [lookup_enterAll, List.lookup_nil, Option.or_none, lastOf_filter] at hlookup
  obtain ⟨hmem, hkey⟩ := lastOf_spec hlookup
  rw [Bool.and_eq_true, beq_iff_eq] at hkey
  refine ⟨hkey.1, lastOf_weaken hlookup (by simp) fun m _ hm => ?_⟩
  -- what has the same signature was entered under the same keys
  rw [decide_eq_true_iff, signature_eq_iff] at hm
  rw [Bool.and_eq_true, beq_iff_eq]
  refine ⟨hm.1.trans hkey.1, ?_⟩
  rw [methodKeys_eq] at hkey ⊢
  rw [hm.2, typeKey_name hm.2]
  exact hkey.2

theorem arity_found (h : Fresh w c) (hm : m ∈ ms) (hf : fullTypes m = none) :
    lookupMethodArity (addMethods w c ms) c m.name m.isStatic m.params.length =
      lastOf (fun m' => m'.signature = m.signature) ms := by
  obtain ⟨m', hlast⟩ := lastOf_isSome (p := fun m' => m'.signature = m.signature) hm (by simp)
  have hkey : typeKey m = .arity m.name m.params.length := by
    unfold typeKey
    rw [hf]
  have hown := @lookup_signature _ _ _ ms h m
  rw [hkey, hlast] at hown
  rw [hlast]
  exact chain_findSome hown

theorem types_found (h : Fresh w c) (hm : m ∈ ms) {ts : List Name} (hf : fullTypes m = some ts)
    (scores : List (Method → Name → Nat)) :
    lookupMethodTyped (addMethods w c ms) c m.name m.isStatic ts scores =
      lastOf (fun m' => m'.signature = m.signature) ms := by
  obtain ⟨m', hlast⟩ := lastOf_isSome (p := fun m' => m'.signature = m.signature) hm (by simp)
  have hown := @lookup_signature _ _ _ ms h m
  rw [hlast] at hown
  rw [hlast]
  apply chain_findSome
  unfold ownMethodTyped
  rw [callTypeKey_eq hf, hown, Option.some_or]

/-- What a declared type names is the same for all methods of a definition. -/
def Uniform (w : World V) (ms : List Method) : Prop :=
  ∀ m ∈ ms, ∀ m' ∈ ms, paramKey w m = paramKey w m'

instance paramRefl : ReflBEq (ClassId ⊕ Name) where
  rfl := by
    intro key
    cases key with
    | inl c => exact beq_self_eq_true c
    | inr name => exact beq_self_eq_true name

theorem signaturesMatch_of_signature {m' : Method} (hsig : m'.signature = m.signature)
    (hu : paramKey w m' = paramKey w m) : signaturesMatch w m m' = true := by
  unfold Method.signature at hsig
  rw [Signature.mk.injEq] at hsig
  obtain ⟨hn, hs, hl, ht⟩ := hsig
  have hkeys : paramKeys w m' = paramKeys w m := by
    rw [paramKeys, paramKeys, ht, hu]
  rw [signaturesMatch, hn, hs, hl, hkeys]
  cases paramKeys w m <;> simp

theorem signature_of_match {m' : Method} (h : signaturesMatch w m m' = true)
    (ht : fullTypes m' = fullTypes m) : m'.signature = m.signature := by
  simp only [signaturesMatch, Bool.and_eq_true, beq_iff_eq] at h
  obtain ⟨⟨⟨hn, hs⟩, hl⟩, -⟩ := h
  unfold Method.signature
  rw [hn, hs, hl, ht]

theorem signature_found (h : Fresh w c) {walk : List (MethodKey × Method) → List (MethodKey × Method)}
    (hwalk : ∀ table, (walk table).Perm table) (hm : m ∈ ms) (hu : Uniform w ms)
    (hspelled : ∀ m' ∈ ms, signaturesMatch w m m' = true → fullTypes m' = fullTypes m) :
    lookupMethodSignatureIn walk (addMethods w c ms) c m =
      lastOf (fun m' => m'.signature = m.signature) ms := by
  obtain ⟨m', hlast⟩ := lastOf_isSome (p := fun m' => m'.signature = m.signature) hm (by simp)
  obtain ⟨hm', hsig⟩ := lastOf_spec hlast
  rw [decide_eq_true_iff] at hsig
  have hmatch : ∀ m₁ : Method, signaturesMatch (addMethods w c ms) m m₁ = signaturesMatch w m m₁ :=
    fun m₁ => signaturesMatch_congr (addMethods_name ..) (addMethods_name ..)
  -- the table has the last method with the signature, under its second key
  have hin : (typeKey m, m') ∈ walk (methodTable (addMethods w c ms) c m.isStatic) := by
    rw [(hwalk _).mem_iff]
    exact mem_of_lookup ((@lookup_signature _ _ _ ms h m).trans hlast)
  have hsome : ((walk (methodTable (addMethods w c ms) c m.isStatic)).find? fun e =>
      signaturesMatch (addMethods w c ms) m e.2).isSome = true := by
    rw [List.find?_isSome]
    exact ⟨_, hin, (hmatch m').trans (signaturesMatch_of_signature hsig (hu m' hm' m hm))⟩
  obtain ⟨e, he⟩ := Option.isSome_iff_exists.1 hsome
  -- and no entry that matches is another method
  have hmem := (hwalk _).mem_iff.1 (List.mem_of_find?_eq_some he)
  obtain ⟨-, hlast'⟩ := entry_last h hmem
  have hfound : signaturesMatch (addMethods w c ms) m e.2 = true :=
    List.find?_some (p := fun e : MethodKey × Method => signaturesMatch (addMethods w c ms) m e.2) he
  rw [hmatch] at hfound
  have hsame := signature_of_match hfound (hspelled e.2 (lastOf_spec hlast').1 hfound)
  rw [hsame] at hlast'
  rw [hlast']
  apply chain_findSome
  rw [he]
  rfl

/-- **Registration.** What is not fully typed is found by its arity and what is fully typed by
its types, and a fully typed signature by itself unless another overload spells the same
classes otherwise: the last method added with the signature. Additions with other signatures
change none of this. -/
theorem registration_faithful (h : Fresh w c) : (∀ m ∈ ms, fullTypes m = none →
      lookupMethodArity (addMethods w c ms) c m.name m.isStatic m.params.length =
        lastOf (fun m' => m'.signature = m.signature) ms) ∧
    (∀ m ∈ ms, ∀ ts, fullTypes m = some ts → ∀ scores,
      lookupMethodTyped (addMethods w c ms) c m.name m.isStatic ts scores =
        lastOf (fun m' => m'.signature = m.signature) ms) ∧
    (∀ walk : List (MethodKey × Method) → List (MethodKey × Method), (∀ table, (walk table).Perm table) →
      Uniform w ms → ∀ m ∈ ms, (fullTypes m).isSome = true →
        (∀ m' ∈ ms, signaturesMatch w m m' = true → fullTypes m' = fullTypes m) →
          lookupMethodSignatureIn walk (addMethods w c ms) c m =
            lastOf (fun m' => m'.signature = m.signature) ms) ∧
    ∀ m, (∀ name isStatic argc, m.signature ≠ ⟨name, isStatic, argc, none⟩ →
        lookupMethodArity (addMethods w c (ms ++ [m])) c name isStatic argc =
          lookupMethodArity (addMethods w c ms) c name isStatic argc) ∧
      ∀ m₀ ∈ ms, ∀ ts, fullTypes m₀ = some ts → m.signature ≠ m₀.signature → ∀ scores,
        lookupMethodTyped (addMethods w c (ms ++ [m])) c m₀.name m₀.isStatic ts scores =
          lookupMethodTyped (addMethods w c ms) c m₀.name m₀.isStatic ts scores := by
  refine ⟨fun m hm hf => arity_found h hm hf, fun m hm ts hf scores => types_found h hm hf scores,
    fun walk hwalk hu m hm _ hspelled => signature_found h hwalk hm hu hspelled, fun m => ⟨?_, ?_⟩⟩
  · intro name isStatic argc hne
    have happend : addMethods w c (ms ++ [m]) = addMethod (addMethods w c ms) c m :=
      List.foldl_append
    rw [happend]
    unfold lookupMethodArity
    rw [chain_congr fun k _ => addMethod_prototype _ c k m]
    apply findSome_congr
    intro k _
    by_cases hk : k = c
    · subst hk
      rw [methodTable_addMethod]
      split
      · rename_i hstatic
        rw [lookup_enterMethod, if_neg]
        rw [methodKeys_eq]
        simp only [List.contains_cons, List.contains_nil, Bool.or_false, Bool.or_eq_true, beq_iff_eq]
        rintro (hkey | hkey)
        · cases hkey
        · apply hne
          unfold typeKey at hkey
          unfold Method.signature
          split at hkey
          · rename_i hf
            cases hkey
            rw [hstatic, hf]
          · cases hkey
      · rfl
    · unfold methodTable
      rw [(addMethod_touches _ m).others k hk]
  · intro m₀ hm₀ ts hf hne scores
    rw [types_found h hm₀ hf, types_found h (List.mem_append_left _ hm₀) hf, lastOf_append,
      if_neg (by simpa using hne)]

end Lookups

/-! Overloads of one name. -/

section Overloads

def overload (types : List (Option Name)) (body : Nat) : Method :=
  { name := "f", params := types, owner := 0, body := body }

theorem fresh_empty : Fresh (World.empty : World Unit) 0 := fun isStatic => by cases isStatic <;> rfl

/-- `f(x)` and `f(x: number)` are told apart. -/
theorem registration_faithful_two :
    lookupMethodArity (addMethods (World.empty : World Unit) 0 [overload [none] 1, overload [some "number"] 2])
      0 "f" false 1 = some (overload [none] 1) :=
  (registration_faithful fresh_empty).1 (overload [none] 1) List.mem_cons_self rfl

/-- The distances of an instance of `Derived`. -/
def derivedScore (_ : Method) (declaredType : Name) : Nat :=
  if declaredType = "Derived" then 100 else if declaredType = "Base" then 99 else 0

/-- The signature of `f(x)` also matches `f(x: number)`, which is found first. An instance is
dispatched to `f(x: Base)` until there is `f(x: Derived)`. -/
theorem registration_ambiguous : (lookupMethodSignatureIn id
        (addMethods (World.empty : World Unit) 0 [overload [none] 1, overload [some "number"] 2]) 0
        (overload [none] 1) = some (overload [some "number"] 2) ∧
      lastOf (fun m => m.signature = (overload [none] 1).signature)
        [overload [none] 1, overload [some "number"] 2] = some (overload [none] 1)) ∧
    lookupMethodTyped (addMethods (World.empty : World Unit) 0 [overload [some "Base"] 1]) 0 "f" false
        ["instance"] [derivedScore] = some (overload [some "Base"] 1) ∧
      lookupMethodTyped
        (addMethods (World.empty : World Unit) 0 [overload [some "Base"] 1, overload [some "Derived"] 2])
        0 "f" false ["instance"] [derivedScore] = some (overload [some "Derived"] 2) := by
  decide

end Overloads

end TurboScript.Oop
