import TurboScript.Oop.Kept
import TurboScript.Lib.Transition

/- When a class can be instantiated.

   The code keeps, for each class, a table of the abstract methods it still lacks. The table is
   a set that can be read off the definitions, whatever the order in which members and
   interfaces were written:

   1. What a definition says (`Spec`), and the requirements `Unmet` by a class.
   2. The method tables hold the methods of the definition, up to equal signatures.
   3. `TableFor`: the table as a set, and what each operation makes of it.
   4. Every sequence of definitions: a class can be instantiated exactly when it is complete.
      An abstract method that a class declares again is a requirement of its own, which only
      that class and those below it can meet. -/
namespace TurboScript.Oop
open Exprtk (Name ClassId InstanceId AccessLevel)
open Lib
open List (any_eq_true mem_append mem_cons mem_cons_of_mem mem_singleton)

/-! What a definition says. -/

structure Spec where
  /-- Declared abstract, or an interface. -/
  declared : Bool := false
  isInterface : Bool := false
  interfaces : List ClassId := []
  abstracts : List Method := []
  concretes : List Method := []

section Specs
variable {V : Type}

/-- The method a member stands for, and whether it is abstract. -/
def Member.asMethod (scope : ClassScope) (c : ClassId) : Member V → Option (Method × Bool)
  | .method name params isStatic isAbstract _ isFinal access body =>
    some (⟨name, params, isStatic, c, access, isFinal, scope, body⟩, isAbstract)
  | _ => none

def methodMembers (scope : ClassScope) (c : ClassId) (isAbstract : Bool)
    (members : List (Member V)) : List Method :=
  members.filterMap fun member =>
    ((member.asMethod scope c).filter fun p => p.2 == isAbstract).map Prod.fst

/-- What the definition of `c` says, the names of its interfaces looked up in its scope. -/
def specOf (scope : ClassScope) (c : ClassId) (d : ClassDef V) : Spec where
  declared := d.isAbstract || d.isInterface
  isInterface := d.isInterface
  interfaces := d.interfaces.filterMap fun name => scope.lookup name
  abstracts := methodMembers scope c true d.members
  concretes := methodMembers scope c false d.members

/-- What the grammar has for an interface: no parent, and abstract methods only. -/
def ClassDef.wellFormed (d : ClassDef V) : Bool :=
  !d.isInterface || d.parent.isNone && d.members.all fun
    | .method _ _ _ isAbstract _ _ _ _ => isAbstract
    | _ => false

variable (w : World V) (spec : ClassId → Spec)

inductive InterfaceRequires : ClassId → Method → Prop
  | own {i r} : r ∈ (spec i).abstracts → InterfaceRequires i r
  | extends {i j r} : j ∈ (spec i).interfaces → InterfaceRequires j r → InterfaceRequires i r

/-- A class has a concrete method that satisfies the requirement. -/
def OwnMet (c : ClassId) (r : Method) : Prop :=
  ∃ m ∈ (spec c).concretes, signaturesMatch w r m = true

def Met (c : ClassId) (r : Method) : Prop := ∃ k ∈ chain w c, OwnMet w spec k r

/-- A requirement that some class of the chain declares, and that neither that class nor one
    below it meets. -/
def UnmetDeclared (c : ClassId) (r : Method) : Prop :=
  ∃ below k above, chain w c = below ++ k :: above ∧ r ∈ (spec k).abstracts ∧
    ∀ k' ∈ below ++ [k], ¬OwnMet w spec k' r

/-- A requirement of an interface that some class of the chain implements, and that no class
    of the chain meets. -/
def UnmetInterface (c : ClassId) (r : Method) : Prop :=
  ∃ k ∈ chain w c, ∃ i ∈ (spec k).interfaces, InterfaceRequires spec i r ∧ ¬Met w spec c r

def Unmet (c : ClassId) (r : Method) : Prop :=
  UnmetDeclared w spec c r ∨ UnmetInterface w spec c r

structure Complete (c : ClassId) : Prop where
  declared : (spec c).declared = false
  abstracts : ∀ below k above, chain w c = below ++ k :: above → ∀ r ∈ (spec k).abstracts,
    ∃ k' ∈ below ++ [k], OwnMet w spec k' r
  interfaces : ∀ k ∈ chain w c, ∀ i ∈ (spec k).interfaces, ∀ r, InterfaceRequires spec i r →
    Met w spec c r

theorem complete_iff {c : ClassId} :
    Complete w spec c ↔ (spec c).declared = false ∧ ∀ r, ¬Unmet w spec c r := by
  constructor
  · intro h
    refine ⟨h.declared, ?_⟩
    intro r hu
    obtain ⟨below, k, above, hc, hr, hno⟩ | ⟨k, hk, i, hi, hr, hno⟩ := hu
    · obtain ⟨k', hk', hmet⟩ := h.abstracts below k above hc r hr
      exact hno k' hk' hmet
    · exact hno (h.interfaces k hk i hi r hr)
  · intro h
    refine ⟨h.1, ?_, ?_⟩
    · intro below k above hc r hr
      by_contra hno
      exact h.2 r (.inl ⟨below, k, above, hc, hr, fun k' hk' hm => hno ⟨k', hk', hm⟩⟩)
    · intro k hk i hi r hr
      by_contra hno
      exact h.2 r (.inr ⟨k, hk, i, hi, hr, hno⟩)

end Specs

/-! Signatures. -/

section Signatures
variable {V : Type} {w w' : World V}

variable {m r : Method}

theorem paramKeys_congr (h : (w'.classes m.owner).name = (w.classes m.owner).name) :
    paramKeys w' m = paramKeys w m := by
  unfold paramKeys paramKey resolveDeclaredClass
  rw [h]

theorem signaturesMatch_congr (hr : (w'.classes r.owner).name = (w.classes r.owner).name)
    (hm : (w'.classes m.owner).name = (w.classes m.owner).name) :
    signaturesMatch w' r m = signaturesMatch w r m := by
  rw [signaturesMatch, signaturesMatch, paramKeys_congr hr, paramKeys_congr hm]

theorem requirementKey_congr (hr : (w'.classes r.owner).name = (w.classes r.owner).name) :
    requirementKey w' r = requirementKey w r := by
  rw [requirementKey, requirementKey, paramKeys_congr hr]

theorem signaturesMatch_of_key {r' : Method} (h : requirementKey w r = requirementKey w r')
    (m : Method) : signaturesMatch w r m = signaturesMatch w r' m := by
  simp only [requirementKey, RequirementKey.mk.injEq] at h
  obtain ⟨hs, hn, hl, hp⟩ := h
  rw [signaturesMatch, signaturesMatch, hs, hn, hl, hp]

theorem signaturesMatch_candidate {m' : Method} (hn : m'.name = m.name)
    (hs : m'.isStatic = m.isStatic) (hl : m'.params.length = m.params.length)
    (hp : paramKeys w m' = paramKeys w m) : signaturesMatch w r m' = signaturesMatch w r m := by
  rw [signaturesMatch, signaturesMatch, hn, hs, hl, hp]

theorem signaturesMatch_static (h : signaturesMatch w r m = true) : r.isStatic = m.isStatic := by
  simp only [signaturesMatch, Bool.and_eq_true, beq_iff_eq] at h
  exact h.1.1.2

/-- The second key of a method: its declared types, or its number of parameters. -/
def typeKey (m : Method) : MethodKey :=
  match fullTypes m with
  | none => .arity m.name m.params.length
  | some types => .types m.name types

theorem methodKeys_eq (m : Method) : methodKeys m.name m = [.name m.name, typeKey m] := by
  unfold methodKeys typeKey
  cases fullTypes m <;> rfl

theorem typeKey_ne_name (m : Method) (n : Name) : typeKey m ≠ .name n := by
  unfold typeKey
  split <;> exact fun h => by cases h

theorem length_mapM_id {α : Type} : ∀ {l : List (Option α)} {l' : List α},
    l.mapM id = some l' → l'.length = l.length
  | [], _, h => by cases h; rfl
  | a :: l, l', h => by
    simp only [List.mapM_cons, id, bind, Option.bind_eq_some_iff, pure, Option.some.injEq] at h
    obtain ⟨_, -, l'', hl, rfl⟩ := h
    simp [length_mapM_id hl]

theorem fullTypes_length {types : List Name} (h : fullTypes m = some types) :
    types.length = m.params.length := by
  unfold fullTypes at h
  split at h
  · cases h
  · exact length_mapM_id h

theorem typeKey_signature {m' : Method} (hk : typeKey m' = typeKey m)
    (hs : m'.isStatic = m.isStatic) (ho : m'.owner = m.owner) (hc : m'.closure = m.closure) :
    signaturesMatch w r m' = signaturesMatch w r m := by
  have hparam : paramKey w m' = paramKey w m := by
    funext t
    rw [paramKey, paramKey, resolveDeclaredClass, resolveDeclaredClass, ho, hc]
  unfold typeKey at hk
  cases hf' : fullTypes m' with
  | none =>
    cases hf : fullTypes m with
    | none =>
      rw [hf, hf'] at hk
      obtain ⟨hn, hl⟩ := MethodKey.arity.inj hk
      exact signaturesMatch_candidate hn hs hl (by rw [paramKeys, paramKeys, hf, hf']; rfl)
    | some types =>
      rw [hf, hf'] at hk
      cases hk
  | some types' =>
    cases hf : fullTypes m with
    | none =>
      rw [hf, hf'] at hk
      cases hk
    | some types =>
      rw [hf, hf'] at hk
      obtain ⟨hn, ht⟩ := MethodKey.types.inj hk
      have hl : m'.params.length = m.params.length := by
        rw [← fullTypes_length hf, ← fullTypes_length hf', ht]
      exact signaturesMatch_candidate hn hs hl (by rw [paramKeys, paramKeys, hf, hf', ht, hparam])

end Signatures

/-! The method tables. -/

section MethodTables
variable {V : Type} {w : World V} {c : ClassId}

theorem mem_tableSet {α β : Type} [DecidableEq α] {table : List (α × β)} {key : α} {v : β}
    {e : α × β} : e ∈ tableSet table key v ↔ e = (key, v) ∨ e ∈ table ∧ e.1 ≠ key := by
  unfold tableSet
  split
  · rename_i hany
    constructor
    · intro he
      obtain ⟨p, hp, rfl⟩ := List.mem_map.mp he
      by_cases hk : p.1 = key
      · simp [hk]
      · right
        simpa [hk] using hp
    · intro hu
      obtain rfl | ⟨he, hk⟩ := hu
      · obtain ⟨p, hp, hk⟩ := any_eq_true.mp hany
        exact List.mem_map.mpr ⟨p, hp, if_pos hk⟩
      · exact List.mem_map.mpr ⟨e, he, by simp [hk]⟩
  · rename_i hany
    have hnot : ∀ p ∈ table, p.1 ≠ key := fun p hp hk =>
      hany (any_eq_true.mpr ⟨p, hp, by simp [hk]⟩)
    constructor
    · intro he
      obtain he | he := mem_append.mp he
      · exact .inr ⟨he, hnot e he⟩
      · exact .inl (mem_singleton.mp he)
    · intro hu
      obtain rfl | ⟨he, -⟩ := hu
      · exact mem_append.mpr (.inr (mem_singleton.mpr rfl))
      · exact mem_append.mpr (.inl he)

theorem mem_enterMethod {table : List (MethodKey × Method)} {m : Method}
    {e : MethodKey × Method} : e ∈ enterMethod table m ↔ e = (typeKey m, m) ∨ e = (.name m.name, m) ∨
        e ∈ table ∧ e.1 ≠ .name m.name ∧ e.1 ≠ typeKey m := by
  have hne : MethodKey.name m.name ≠ typeKey m := (typeKey_ne_name m m.name).symm
  rw [enterMethod, methodKeys_eq]
  simp only [List.foldl_cons, List.foldl_nil, mem_tableSet]
  constructor
  · intro hu
    obtain h | ⟨h | ⟨h, h1⟩, h2⟩ := hu
    · exact .inl h
    · exact .inr (.inl h)
    · exact .inr (.inr ⟨h, h1, h2⟩)
  · intro hu
    obtain h | h | ⟨h, h1, h2⟩ := hu
    · exact .inl h
    · exact .inr ⟨.inl h, by rw [h]; exact hne⟩
    · exact .inr ⟨.inr ⟨h, h1⟩, h2⟩

/-- The tables of a class hold the methods of a list: every entry is one of them, and every
    one of them is there or was replaced by one with the same second key. -/
structure Holds (w : World V) (c : ClassId) (methods : List Method) : Prop where
  entry : ∀ isStatic, ∀ e ∈ methodTable w c isStatic,
    e.2 ∈ methods ∧ e.2.isStatic = isStatic ∧ e.1 ∈ methodKeys e.2.name e.2
  present : ∀ m ∈ methods, ∃ m', (typeKey m, m') ∈ methodTable w c m.isStatic ∧
    typeKey m' = typeKey m

def OfClass (scope : ClassScope) (c : ClassId) (m : Method) : Prop :=
  m.owner = c ∧ m.closure = scope

theorem Holds.hasOwnConcrete_iff {scope : ClassScope} {methods : List Method}
    (h : Holds w c methods) (ho : ∀ m ∈ methods, OfClass scope c m) (r : Method) :
    hasOwnConcrete w c r = true ↔ ∃ m ∈ methods, signaturesMatch w r m = true := by
  unfold hasOwnConcrete
  rw [any_eq_true]
  constructor
  · intro ⟨e, he, hm⟩
    rw [Bool.and_eq_true] at hm
    exact ⟨e.2, (h.entry _ e he).1, hm.2⟩
  · intro ⟨m, hm, hsig⟩
    obtain ⟨m', hmem, hkey⟩ := h.present m hm
    obtain ⟨hin, hstatic, hentry⟩ := h.entry _ _ hmem
    have hsame : signaturesMatch w r m' = signaturesMatch w r m :=
      typeKey_signature hkey hstatic ((ho m' hin).1.trans (ho m hm).1.symm)
        ((ho m' hin).2.trans (ho m hm).2.symm)
    refine ⟨(typeKey m, m'), (signaturesMatch_static hsig).symm ▸ hmem, ?_⟩
    rw [Bool.and_eq_true]
    refine ⟨?_, hsame.trans hsig⟩
    rw [entryIsFor, Bool.or_eq_true]
    exact .inl (List.contains_iff_mem.mpr hentry)

theorem methodTable_addMethod (w : World V) (c : ClassId) (m : Method) (isStatic : Bool) :
    methodTable (addMethod w c m) c isStatic =
      if m.isStatic = isStatic then enterMethod (methodTable w c isStatic) m
      else methodTable w c isStatic := by
  unfold addMethod removeSatisfied methodTable
  cases isStatic <;> cases m.isStatic <;> simp

theorem Holds.addMethod {methods : List Method} (h : Holds w c methods) (m : Method) :
    Holds (addMethod w c m) c (methods ++ [m]) where
  entry isStatic e he := by
    rw [methodTable_addMethod] at he
    have hold : e ∈ methodTable w c isStatic →
        e.2 ∈ methods ++ [m] ∧ e.2.isStatic = isStatic ∧ e.1 ∈ methodKeys e.2.name e.2 := by
      intro he
      obtain ⟨hin, hs, hk⟩ := h.entry isStatic e he
      exact ⟨mem_append.mpr (.inl hin), hs, hk⟩
    have hlast : m ∈ methods ++ [m] := by simp
    split at he
    · rename_i hs
      obtain rfl | rfl | ⟨he, -⟩ := mem_enterMethod.mp he
      · exact ⟨hlast, hs, by simp [methodKeys_eq]⟩
      · exact ⟨hlast, hs, by simp [methodKeys_eq]⟩
      · exact hold he
    · exact hold he
  present m₀ hm₀ := by
    rw [methodTable_addMethod]
    obtain hm₀ | hm₀ := mem_append.mp hm₀
    · obtain ⟨m', hmem, hkey⟩ := h.present m₀ hm₀
      split
      · by_cases hsame : typeKey m₀ = typeKey m
        · exact ⟨m, mem_enterMethod.mpr (.inl (by rw [hsame])), hsame.symm⟩
        · exact ⟨m', mem_enterMethod.mpr (.inr (.inr ⟨hmem, typeKey_ne_name _ _, hsame⟩)), hkey⟩
      · exact ⟨m', hmem, hkey⟩
    · cases mem_singleton.mp hm₀
      rw [if_pos rfl]
      exact ⟨m, mem_enterMethod.mpr (.inl rfl), rfl⟩

end MethodTables

/-! The table of abstract methods as a set. -/

section AbstractTables
variable {V : Type} {w w' : World V} {c : ClassId} {P Q : Method → Prop}

structure TableFor (w : World V) (c : ClassId) (P : Method → Prop) : Prop where
  sound : ∀ e ∈ (w.classes c).abstractMethods, e.1 = requirementKey w e.2 ∧ P e.2
  complete : ∀ r, P r → ∃ e ∈ (w.classes c).abstractMethods, e.1 = requirementKey w r

theorem TableFor.of_keys (h : TableFor w c P) (hsub : ∀ r, P r → Q r)
    (hkeys : ∀ r, Q r → ∃ r', P r' ∧ requirementKey w r' = requirementKey w r) :
    TableFor w c Q where
  sound e he := ⟨(h.sound e he).1, hsub _ (h.sound e he).2⟩
  complete r hr := by
    obtain ⟨r', hp, hk⟩ := hkeys r hr
    obtain ⟨e, he, hke⟩ := h.complete r' hp
    exact ⟨e, he, hke.trans hk⟩

theorem TableFor.congr (h : TableFor w c P) (hPQ : ∀ r, P r ↔ Q r) : TableFor w c Q :=
  h.of_keys (fun r => (hPQ r).mp) fun r hr => ⟨r, (hPQ r).mpr hr, rfl⟩

theorem TableFor.empty_iff (h : TableFor w c P) : (w.classes c).abstractMethods = [] ↔ ∀ r, ¬P r := by
  constructor
  · intro he r hr
    obtain ⟨e, hmem, -⟩ := h.complete r hr
    rw [he] at hmem
    cases hmem
  · intro hno
    rw [List.eq_nil_iff_forall_not_mem]
    exact fun e he => hno e.2 (h.sound e he).2

theorem TableFor.frame (h : TableFor w c P)
    (hn : ∀ r, P r → (w'.classes r.owner).name = (w.classes r.owner).name)
    (ht : (w'.classes c).abstractMethods = (w.classes c).abstractMethods) : TableFor w' c P where
  sound e he := by
    rw [ht] at he
    obtain ⟨hk, hp⟩ := h.sound e he
    exact ⟨hk.trans (requirementKey_congr (hn _ hp)).symm, hp⟩
  complete r hr := by
    obtain ⟨e, he, hk⟩ := h.complete r hr
    exact ⟨e, ht ▸ he, hk.trans (requirementKey_congr (hn r hr)).symm⟩

theorem addAbstractEntry_methodTable (w : World V) (c : ClassId) (entry : RequirementKey × Method)
    (isStatic : Bool) :
    methodTable (addAbstractEntry w c entry) c isStatic = methodTable w c isStatic := by
  unfold addAbstractEntry
  split
  · rfl
  · split
    · rfl
    · cases isStatic <;> simp [methodTable]

theorem addAbstractEntry_names (w : World V) (c : ClassId) (entry : RequirementKey × Method)
    (k : ClassId) : ((addAbstractEntry w c entry).classes k).name = (w.classes k).name :=
  (addAbstractEntry_touches w entry).names k

theorem TableFor.add (h : TableFor w c P) (r : Method) :
    TableFor (addAbstractEntry w c (requirementKey w r, r)) c
      fun r' => P r' ∨ r' = r ∧ hasOwnConcrete w c r = false := by
  have hkey : ∀ r', requirementKey (addAbstractEntry w c (requirementKey w r, r)) r' =
      requirementKey w r' := fun r' => requirementKey_congr (addAbstractEntry_names w c _ _)
  unfold addAbstractEntry at hkey ⊢
  split
  · rename_i hown
    refine h.congr fun r' => ⟨.inl, ?_⟩
    intro hu
    obtain hp | ⟨-, hno⟩ := hu
    · exact hp
    · rw [hown] at hno
      cases hno
  · rename_i hown
    rw [if_neg hown] at hkey
    split
    · rename_i hany
      rw [if_pos hany] at hkey
      obtain ⟨e₀, he₀, hk₀⟩ := any_eq_true.mp hany
      refine ⟨fun e he => ?_, ?_⟩
      · obtain ⟨hk, hp⟩ := h.sound e he
        exact ⟨hk, .inl hp⟩
      · intro r' hu
        obtain hp | ⟨rfl, -⟩ := hu
        · exact h.complete r' hp
        · exact ⟨e₀, he₀, eq_of_beq hk₀⟩
    · rename_i hany
      rw [if_neg hany] at hkey
      refine ⟨fun e he => ?_, ?_⟩
      · rw [updateClass_self] at he
        rw [hkey]
        obtain he | he := mem_append.mp he
        · obtain ⟨hk, hp⟩ := h.sound e he
          exact ⟨hk, .inl hp⟩
        · cases mem_singleton.mp he
          exact ⟨rfl, .inr ⟨rfl, Bool.eq_false_iff.mpr hown⟩⟩
      · intro r' hu
        obtain hp | ⟨rfl, -⟩ := hu
        · obtain ⟨e, he, hk⟩ := h.complete r' hp
          refine ⟨e, ?_, by rw [hkey]; exact hk⟩
          rw [updateClass_self]
          exact mem_append.mpr (.inl he)
        · refine ⟨(requirementKey w r', r'), ?_, (hkey r').symm⟩
          rw [updateClass_self]
          exact mem_append.mpr (.inr (mem_singleton.mpr rfl))

theorem TableFor.addMethod (h : TableFor w c P) (m : Method) :
    TableFor (addMethod w c m) c fun r => P r ∧ signaturesMatch w r m = false := by
  have hkey : ∀ r, requirementKey (Oop.addMethod w c m) r = requirementKey w r := fun r =>
    requirementKey_congr ((addMethod_touches w m).names r.owner)
  have htable : ((Oop.addMethod w c m).classes c).abstractMethods =
      (w.classes c).abstractMethods.filter fun e => !signaturesMatch w e.2 m := by
    unfold Oop.addMethod removeSatisfied
    cases m.isStatic <;> simp
  refine ⟨fun e he => ?_, fun r ⟨hp, hm⟩ => ?_⟩
  · rw [htable, List.mem_filter, Bool.not_eq_true'] at he
    obtain ⟨hk, hp⟩ := h.sound e he.1
    exact ⟨by rw [hkey]; exact hk, hp, he.2⟩
  · obtain ⟨e, he, hk⟩ := h.complete r hp
    refine ⟨e, ?_, by rw [hkey]; exact hk⟩
    have hsame := signaturesMatch_of_key ((h.sound e he).1.symm.trans hk) m
    rw [htable, List.mem_filter, Bool.not_eq_true']
    exact ⟨he, hsame.trans hm⟩

end AbstractTables

/-! The members of a definition. -/

section Members
variable {V : Type} {w w' : World V} {c : ClassId} {scope : ClassScope}

theorem signaturesMatch_names (h : ∀ k, (w'.classes k).name = (w.classes k).name) (r m : Method) :
    signaturesMatch w' r m = signaturesMatch w r m := signaturesMatch_congr (h _) (h _)

theorem Holds.frame {methods : List Method} (h : Holds w c methods)
    (ht : ∀ isStatic, methodTable w' c isStatic = methodTable w c isStatic) :
    Holds w' c methods where
  entry isStatic := by
    rw [ht]
    exact h.entry isStatic
  present m hm := by
    rw [ht]
    exact h.present m hm

theorem methodMembers_ofClass {isAbstract : Bool} {members : List (Member V)} {m : Method}
    (h : m ∈ methodMembers scope c isAbstract members) : OfClass scope c m := by
  obtain ⟨member, -, hm⟩ := List.mem_filterMap.mp h
  obtain ⟨p, hp, rfl⟩ := Option.map_eq_some_iff.mp hm
  obtain ⟨hp, -⟩ := Option.filter_eq_some_iff.mp hp
  cases member with
  | method =>
    cases hp
    exact ⟨rfl, rfl⟩
  | field | ctor => cases hp

theorem methodMembers_cons (isAbstract : Bool) (member : Member V) (members : List (Member V)) :
    methodMembers scope c isAbstract (member :: members) =
      methodMembers scope c isAbstract [member] ++ methodMembers scope c isAbstract members := by
  rw [methodMembers, methodMembers, methodMembers, ← List.filterMap_append]
  rfl

/-- A class after some of its members: the abstract and the concrete ones among them, and
    the flag it was created with. -/
structure MembersDone (w : World V) (c : ClassId) (scope : ClassScope) (declared : Bool)
    (abstracts concretes : List Method) : Prop where
  flag : (w.classes c).isAbstract = declared
  holds : Holds w c concretes
  table : TableFor w c fun r => r ∈ abstracts ∧ ∀ m ∈ concretes, signaturesMatch w r m = false
  owned : ∀ m ∈ concretes, OfClass scope c m

variable {declared : Bool} {abstracts concretes : List Method}

theorem MembersDone.frame (h : MembersDone w c scope declared abstracts concretes)
    (hn : ∀ k, (w'.classes k).name = (w.classes k).name)
    (ht : ∀ isStatic, methodTable w' c isStatic = methodTable w c isStatic)
    (ha : (w'.classes c).abstractMethods = (w.classes c).abstractMethods)
    (hf : (w'.classes c).isAbstract = (w.classes c).isAbstract) :
    MembersDone w' c scope declared abstracts concretes where
  flag := hf.trans h.flag
  holds := h.holds.frame ht
  table := (h.table.frame (fun r _ => hn r.owner) ha).congr fun r => by
    simp only [signaturesMatch_names hn]
  owned := h.owned

theorem MembersDone.hasOwnConcrete_false (h : MembersDone w c scope declared abstracts concretes)
    (r : Method) :
    hasOwnConcrete w c r = false ↔ ∀ m ∈ concretes, signaturesMatch w r m = false := by
  rw [← Bool.not_eq_true, h.holds.hasOwnConcrete_iff h.owned r]
  simp

theorem addAbstractEntry_isAbstract (w : World V) (c : ClassId) (entry : RequirementKey × Method) :
    ((addAbstractEntry w c entry).classes c).isAbstract = (w.classes c).isAbstract := by
  unfold addAbstractEntry
  split
  · rfl
  · split
    · rfl
    · simp

theorem addMethod_isAbstract (w : World V) (c : ClassId) (m : Method) :
    ((addMethod w c m).classes c).isAbstract = (w.classes c).isAbstract := by
  unfold addMethod removeSatisfied
  cases m.isStatic <;> simp

theorem MembersDone.abstract (h : MembersDone w c scope declared abstracts concretes) (m : Method) :
    MembersDone (addAbstractMethod w c m) c scope declared (abstracts ++ [m]) concretes where
  flag := (addAbstractEntry_isAbstract w c _).trans h.flag
  holds := h.holds.frame (addAbstractEntry_methodTable w c _)
  owned := h.owned
  table := by
    apply (h.table.add m).congr
    intro r
    have hn := addAbstractEntry_names w c (requirementKey w m, m)
    simp only [addAbstractMethod, signaturesMatch_names hn, h.hasOwnConcrete_false]
    constructor
    · intro hu
      obtain ⟨hr, hno⟩ | ⟨rfl, hno⟩ := hu
      · exact ⟨mem_append.mpr (.inl hr), hno⟩
      · exact ⟨mem_append.mpr (.inr (mem_singleton.mpr rfl)), hno⟩
    · intro hu
      obtain ⟨hr, hno⟩ := hu
      obtain hr | hr := mem_append.mp hr
      · exact .inl ⟨hr, hno⟩
      · cases mem_singleton.mp hr
        exact .inr ⟨rfl, hno⟩

theorem MembersDone.concrete (h : MembersDone w c scope declared abstracts concretes) {m : Method}
    (hm : OfClass scope c m) :
    MembersDone (addMethod w c m) c scope declared abstracts (concretes ++ [m]) where
  flag := (addMethod_isAbstract w c m).trans h.flag
  holds := h.holds.addMethod m
  owned m' hm' := by
    obtain hm' | hm' := mem_append.mp hm'
    · exact h.owned m' hm'
    · cases mem_singleton.mp hm'
      exact hm
  table := by
    apply (h.table.addMethod m).congr
    intro r
    simp only [signaturesMatch_names (addMethod_touches w m).names]
    constructor
    · intro ⟨⟨hr, hno⟩, hlast⟩
      refine ⟨hr, fun m' hm' => ?_⟩
      obtain hm' | hm' := mem_append.mp hm'
      · exact hno m' hm'
      · cases mem_singleton.mp hm'
        exact hlast
    · intro ⟨hr, hno⟩
      exact ⟨⟨hr, fun m' hm' => hno m' (mem_append.mpr (.inl hm'))⟩,
        hno m (mem_append.mpr (.inr (mem_singleton.mpr rfl)))⟩

variable [FieldValue V]

theorem defineField_tables (name : Name) (declaredType : Option Name) (initial : Option V)
    (isField : Bool) (access : AccessLevel) :
    (∀ isStatic, methodTable (defineField w c name declaredType initial isField access).2 c isStatic =
        methodTable w c isStatic) ∧
      ((defineField w c name declaredType initial isField access).2.classes c).abstractMethods =
        (w.classes c).abstractMethods ∧
      ((defineField w c name declaredType initial isField access).2.classes c).isAbstract =
        (w.classes c).isAbstract := by
  have hstatic (e : StaticField V) : ∀ k : Class V, (k.declareStatic e).methods = k.methods ∧
      (k.declareStatic e).staticMethods = k.staticMethods ∧
      (k.declareStatic e).abstractMethods = k.abstractMethods ∧
      (k.declareStatic e).isAbstract = k.isAbstract := by
    intro k
    unfold Class.declareStatic
    split <;> exact ⟨rfl, rfl, rfl, rfl⟩
  unfold defineField
  dsimp only
  split
  · split
    · exact ⟨fun _ => rfl, rfl, rfl⟩
    · refine ⟨fun isStatic => ?_, ?_, ?_⟩
      · cases isStatic <;> simp [methodTable, (hstatic _ _).1, (hstatic _ _).2.1]
      · simp [(hstatic _ _).2.2.1]
      · simp [(hstatic _ _).2.2.2]
  · unfold declareInstanceField
    split
    · exact ⟨fun _ => rfl, rfl, rfl⟩
    · refine ⟨fun isStatic => ?_, ?_, ?_⟩
      · cases isStatic <;> simp [methodTable, syncFields]
      · simp [syncFields]
      · simp [syncFields]

theorem MembersDone.member (h : MembersDone w c scope declared abstracts concretes) (member : Member V)
    (hd : defineMember scope w c member = (.ok (), w')) :
    MembersDone w' c scope declared (abstracts ++ methodMembers scope c true [member])
      (concretes ++ methodMembers scope c false [member]) := by
  cases member with
  | field name declaredType initial isField access =>
    have ht := @defineField_tables V w c _ name declaredType initial isField access
    have hn := (@defineField_touches V c w _ name declaredType initial isField access).names
    simp only [defineMember] at hd
    rw [hd] at ht hn
    simpa [methodMembers, Member.asMethod] using h.frame hn ht.1 ht.2.1 ht.2.2
  | ctor isAbstract =>
    cases isAbstract with
    | true => cases hd
    | false =>
      cases hd
      simpa [methodMembers, Member.asMethod] using h
  | method name params isStatic isAbstract isOverride isFinal access body =>
    simp only [defineMember, defineMethod] at hd
    split at hd
    · cases hd
    · split at hd
      · cases hd
      · split at hd
        · rename_i hab
          cases hd
          cases hab
          simpa [methodMembers, Member.asMethod, Option.filter] using h.abstract _
        · rename_i hab
          cases hd
          cases Bool.eq_false_iff.mpr hab
          simpa [methodMembers, Member.asMethod, Option.filter] using
            h.concrete (m := ⟨name, params, isStatic, c, access, isFinal, scope, body⟩) ⟨rfl, rfl⟩

theorem MembersDone.members : ∀ (members : List (Member V)) {w : World V}
    {abstracts concretes : List Method}, MembersDone w c scope declared abstracts concretes →
      untilError (fun w member => defineMember scope w c member) w members = (.ok (), w') →
        MembersDone w' c scope declared (abstracts ++ methodMembers scope c true members)
          (concretes ++ methodMembers scope c false members)
  | [], w, abstracts, concretes, h, hd => by
    cases hd
    simpa [methodMembers] using h
  | member :: members, w, abstracts, concretes, h, hd => by
    simp only [untilError] at hd
    split at hd
    · rename_i w₁ hstep
      have h₁ := h.member member hstep
      rw [methodMembers_cons true member, methodMembers_cons false member, ← List.append_assoc, ← List.append_assoc]
      exact MembersDone.members members h₁ hd
    · cases hd

end Members

/-! Interfaces and the parent. -/

section Imports
variable {V : Type} {w w' w'' : World V} {c : ClassId} {P Q : Method → Prop}

structure SameMethods (w w' : World V) : Prop where
  name : ∀ k, (w'.classes k).name = (w.classes k).name
  prototype : ∀ k, (w'.classes k).prototype = (w.classes k).prototype
  table : ∀ k isStatic, methodTable w' k isStatic = methodTable w k isStatic

namespace SameMethods

theorem refl : SameMethods w w := ⟨fun _ => rfl, fun _ => rfl, fun _ _ => rfl⟩

theorem trans (h : SameMethods w w') (h' : SameMethods w' w'') : SameMethods w w'' :=
  ⟨fun k => (h'.name k).trans (h.name k), fun k => (h'.prototype k).trans (h.prototype k),
    fun k s => (h'.table k s).trans (h.table k s)⟩

theorem of_touches (ht : Touches c w w')
    (hm : ∀ isStatic, methodTable w' c isStatic = methodTable w c isStatic) : SameMethods w w' where
  name := ht.names
  prototype k := by
    by_cases hk : k = c
    · rw [hk]
      exact ht.prototype
    · rw [ht.others k hk]
  table k isStatic := by
    by_cases hk : k = c
    · rw [hk]
      exact hm isStatic
    · rw [methodTable, methodTable, ht.others k hk]

theorem addAbstractEntry (w : World V) (c : ClassId) (entry : RequirementKey × Method) :
    SameMethods w (addAbstractEntry w c entry) :=
  of_touches (addAbstractEntry_touches w entry) (addAbstractEntry_methodTable w c entry)

theorem hasOwnConcrete (h : SameMethods w w') (k : ClassId) (r : Method) :
    hasOwnConcrete w' k r = hasOwnConcrete w k r := by
  rw [Oop.hasOwnConcrete, Oop.hasOwnConcrete, h.table]
  simp only [signaturesMatch_names h.name]

theorem hasConcrete (h : SameMethods w w') (k : ClassId) (r : Method) :
    hasConcrete w' k r = hasConcrete w k r := by
  rw [Oop.hasConcrete, Oop.hasConcrete, chain_congr fun k _ => h.prototype k]
  simp only [h.hasOwnConcrete]

end SameMethods

theorem hasOwnConcrete_of_key {r r' : Method} (h : requirementKey w r = requirementKey w r')
    (k : ClassId) : hasOwnConcrete w k r = hasOwnConcrete w k r' := by
  have hs : r.isStatic = r'.isStatic := congrArg RequirementKey.isStatic h
  rw [hasOwnConcrete, hasOwnConcrete, hs]
  simp only [signaturesMatch_of_key h]

theorem hasConcrete_of_key {r r' : Method} (h : requirementKey w r = requirementKey w r')
    (k : ClassId) : hasConcrete w k r = hasConcrete w k r' := by
  rw [hasConcrete, hasConcrete]
  simp only [hasOwnConcrete_of_key h]

/-- Entries taken over one by one, but for those to be skipped. -/
def importEntries (w : World V) (c : ClassId) (skip : Method → Bool)
    (entries : List (RequirementKey × Method)) : World V :=
  entries.foldl (fun w entry => if skip entry.2 then w else addAbstractEntry w c entry) w

theorem importEntries_cons (w : World V) (c : ClassId) (skip : Method → Bool)
    (entry : RequirementKey × Method) (entries : List (RequirementKey × Method)) :
    importEntries w c skip (entry :: entries) =
      importEntries (if skip entry.2 then w else addAbstractEntry w c entry) c skip entries := rfl

theorem SameMethods.importEntries (skip : Method → Bool) :
    ∀ (entries : List (RequirementKey × Method)) (w : World V),
      SameMethods w (importEntries w c skip entries)
  | [], _ => .refl
  | entry :: entries, w => by
    rw [importEntries_cons]
    split
    · exact SameMethods.importEntries skip entries w
    · exact (SameMethods.addAbstractEntry w c entry).trans (SameMethods.importEntries skip entries _)

theorem importEntries_isAbstract (skip : Method → Bool) :
    ∀ (entries : List (RequirementKey × Method)) (w : World V),
      ((importEntries w c skip entries).classes c).isAbstract = (w.classes c).isAbstract
  | [], _ => rfl
  | entry :: entries, w => by
    rw [importEntries_cons, importEntries_isAbstract skip entries]
    split
    · rfl
    · exact addAbstractEntry_isAbstract w c entry

theorem TableFor.importEntries (skip : Method → Bool) :
    ∀ (entries : List (RequirementKey × Method)) {w : World V} {P : Method → Prop},
      TableFor w c P → (∀ e ∈ entries, e.1 = requirementKey w e.2) →
        TableFor (importEntries w c skip entries) c fun r =>
          P r ∨ ∃ e ∈ entries, r = e.2 ∧ skip r = false ∧ hasOwnConcrete w c r = false
  | [], w, P, h, _ => h.congr fun r => ⟨.inl, fun hr => hr.elim id fun ⟨_, he, _⟩ => nomatch he⟩
  | entry :: entries, w, P, h, hk => by
    have hrest : ∀ e ∈ entries, e.1 = requirementKey w e.2 := fun e he =>
      hk e (mem_cons_of_mem _ he)
    rw [importEntries_cons]
    split
    · rename_i hskip
      apply (TableFor.importEntries skip entries h hrest).congr
      intro r
      constructor
      · intro hu
        obtain hp | ⟨e, he, hr⟩ := hu
        · exact .inl hp
        · exact .inr ⟨e, mem_cons_of_mem _ he, hr⟩
      · intro hu
        obtain hp | ⟨e, he, rfl, hs, ho⟩ := hu
        · exact .inl hp
        · obtain rfl | he := mem_cons.mp he
          · rw [hskip] at hs
            cases hs
          · exact .inr ⟨e, he, rfl, hs, ho⟩
    · rename_i hskip
      have hsame := SameMethods.addAbstractEntry w c entry
      have hentry : entry = (requirementKey w entry.2, entry.2) :=
        Prod.ext (hk entry (List.mem_cons_self ..)) rfl
      have hadd := h.add entry.2
      rw [← hentry] at hadd
      have hkeys : ∀ e ∈ entries, e.1 = requirementKey (addAbstractEntry w c entry) e.2 :=
        fun e he => (hrest e he).trans (requirementKey_congr (hsame.name _)).symm
      apply (TableFor.importEntries skip entries hadd hkeys).congr
      intro r
      simp only [hsame.hasOwnConcrete]
      constructor
      · intro hu
        obtain (hp | ⟨rfl, ho⟩) | ⟨e, he, hr⟩ := hu
        · exact .inl hp
        · exact .inr ⟨entry, List.mem_cons_self .., rfl, Bool.eq_false_iff.mpr hskip, ho⟩
        · exact .inr ⟨e, mem_cons_of_mem _ he, hr⟩
      · intro hu
        obtain hp | ⟨e, he, rfl, hs, ho⟩ := hu
        · exact .inl (.inl hp)
        · obtain rfl | he := mem_cons.mp he
          · exact .inl (.inr ⟨rfl, ho⟩)
          · exact .inr ⟨e, he, rfl, hs, ho⟩

theorem TableFor.takeOver (h : TableFor w c P) {source : ClassId} (hs : TableFor w source Q)
    (skip : Method → Bool)
    (hskip : ∀ r r', requirementKey w r = requirementKey w r' → skip r = skip r') :
    TableFor (Oop.importEntries w c skip (w.classes source).abstractMethods) c fun r =>
      P r ∨ Q r ∧ skip r = false ∧ hasOwnConcrete w c r = false := by
  have hsame := @SameMethods.importEntries V c skip (w.classes source).abstractMethods w
  apply (h.importEntries skip _ fun e he => (hs.sound e he).1).of_keys
  · intro r hu
    obtain hp | ⟨e, he, rfl, hr⟩ := hu
    · exact .inl hp
    · exact .inr ⟨(hs.sound e he).2, hr⟩
  · intro r hu
    obtain hp | ⟨hq, hskipr, ho⟩ := hu
    · exact ⟨r, .inl hp, rfl⟩
    · obtain ⟨e, he, hk⟩ := hs.complete r hq
      have hkey : requirementKey w e.2 = requirementKey w r := (hs.sound e he).1.symm.trans hk
      refine ⟨e.2, .inr ⟨e, he, rfl, ?_, ?_⟩, ?_⟩
      · rw [hskip _ _ hkey]
        exact hskipr
      · rw [hasOwnConcrete_of_key hkey]
        exact ho
      · rw [requirementKey_congr (hsame.name _), requirementKey_congr (hsame.name _), hkey]

theorem addAbstractMethodsFrom_eq (w : World V) (c source : ClassId) : addAbstractMethodsFrom w c source =
      importEntries w c (hasConcrete w c) (w.classes source).abstractMethods := by
  have hfold : ∀ (entries : List (RequirementKey × Method)) (w' : World V), SameMethods w w' →
      entries.foldl (fun w entry =>
          if hasConcrete w c entry.2 then w else addAbstractEntry w c entry) w' =
        importEntries w' c (hasConcrete w c) entries := by
    intro entries
    induction entries with
    | nil => intro w' _; rfl
    | cons entry entries ih =>
      intro w' hw'
      rw [importEntries_cons, List.foldl_cons, hw'.hasConcrete]
      split
      · exact ih w' hw'
      · exact ih _ (hw'.trans (.addAbstractEntry w' c entry))
  exact hfold _ w .refl

end Imports

section Completion
variable {V : Type} {w w' : World V} {c : ClassId} {scope : ClassScope} {P : Method → Prop}

theorem hasOwnConcrete_of_hasConcrete {r : Method} (h : hasConcrete w c r = false) :
    hasOwnConcrete w c r = false := by
  rw [hasConcrete, List.any_eq_false] at h
  exact Bool.eq_false_iff.mpr (h c (self_mem_chain w c))

theorem TableFor.touches {k : ClassId} {Q : Method → Prop} (h : TableFor w k Q) (hk : k ≠ c)
    (ht : Touches c w w') : TableFor w' k Q :=
  h.frame (fun r _ => ht.names r.owner) (by rw [ht.others k hk])

theorem TableFor.interfaces {Q : ClassId → Method → Prop} :
    ∀ (names : List Name) {w : World V} {P : Method → Prop}, TableFor w c P →
      (∀ name ∈ names, ∀ i, scope.lookup name = some i → i ≠ c ∧ TableFor w i (Q i)) →
      untilError (defineInterface scope c) w names = (.ok (), w') →
        SameMethods w w' ∧ (w'.classes c).isAbstract = (w.classes c).isAbstract ∧ TableFor w' c fun r =>
            P r ∨ ∃ i ∈ names.filterMap fun name => scope.lookup name, Q i r ∧ hasConcrete w c r = false
  | [], w, P, h, _, hd => by
    cases hd
    exact ⟨.refl, rfl, h.congr fun r => by simp⟩
  | name :: names, w, P, h, hs, hd => by
    simp only [untilError] at hd
    split at hd
    · rename_i w₂ hstep
      unfold defineInterface at hstep
      split at hstep
      · cases hstep
      · rename_i i hi
        obtain ⟨hic, hsource⟩ := hs name (List.mem_cons_self ..) i hi
        split at hstep
        · cases hstep
          have htouch : Touches c w (addInterface w c i) := .update_frame rfl rfl rfl rfl rfl
          have hadd : SameMethods w (addInterface w c i) := by
            refine .of_touches htouch fun isStatic => ?_
            cases isStatic <;> simp [methodTable, addInterface]
          have htable : TableFor (addInterface w c i) c P :=
            h.frame (fun r _ => hadd.name r.owner) (by simp [addInterface])
          have htake := htable.takeOver (hsource.touches hic htouch)
            (hasConcrete (addInterface w c i) c) fun r r' hk => hasConcrete_of_key hk c
          rw [← addAbstractMethodsFrom_eq] at htake
          have hstep₂ : SameMethods w (addAbstractMethodsFrom (addInterface w c i) c i) := by
            rw [addAbstractMethodsFrom_eq]
            exact hadd.trans (.importEntries ..)
          have htouch₂ : Touches c w (addAbstractMethodsFrom (addInterface w c i) c i) :=
            htouch.trans (addAbstractMethodsFrom_touches _ i)
          have hflag : ((addAbstractMethodsFrom (addInterface w c i) c i).classes c).isAbstract =
              (w.classes c).isAbstract := by
            rw [addAbstractMethodsFrom_eq, importEntries_isAbstract]
            simp [addInterface]
          obtain ⟨hsame, hflag', hrest⟩ := TableFor.interfaces names htake (fun name' hname' j hj => by
              obtain ⟨hjc, hj'⟩ := hs name' (mem_cons_of_mem _ hname') j hj
              exact ⟨hjc, hj'.touches hjc htouch₂⟩) hd
          refine ⟨hstep₂.trans hsame, hflag'.trans hflag, hrest.congr fun r => ?_⟩
          simp only [hstep₂.hasConcrete, hadd.hasConcrete, hadd.hasOwnConcrete,
            List.filterMap_cons, hi, mem_cons, exists_eq_or_imp]
          constructor
          · intro hu
            obtain (hp | ⟨hq, hno, -⟩) | hr := hu
            · exact .inl hp
            · exact .inr (.inl ⟨hq, hno⟩)
            · exact .inr (.inr hr)
          · intro hu
            obtain hp | ⟨hq, hno⟩ | hr := hu
            · exact .inl (.inl hp)
            · exact .inl (.inr ⟨hq, hno, hasOwnConcrete_of_hasConcrete hno⟩)
            · exact .inr hr
        · cases hstep
    · cases hd

theorem TableFor.finalize {Q : ClassId → Method → Prop} (h : TableFor w c P)
    (hp : ∀ p, (w.classes c).prototype = some p → TableFor w p (Q p)) :
    SameMethods w (finalizeAbstractMethods w c) ∧ (TableFor (finalizeAbstractMethods w c) c fun r =>
        P r ∨ ∃ p, (w.classes c).prototype = some p ∧ Q p r ∧ hasOwnConcrete w c r = false) ∧
      ((finalizeAbstractMethods w c).classes c).isAbstract = ((w.classes c).isAbstract ||
          !((finalizeAbstractMethods w c).classes c).abstractMethods.isEmpty) := by
  have hfold : ∀ entries : List (RequirementKey × Method),
      entries.foldl (addAbstractEntry · c ·) w = Oop.importEntries w c (fun _ => false) entries :=
    fun _ => rfl
  unfold finalizeAbstractMethods
  dsimp only
  rw [hfold]
  -- the flag leaves names, methods and the table alone
  have hflag (w₁ : World V) : SameMethods w₁ (w₁.updateClass c fun k =>
      { k with isAbstract := k.isAbstract || !k.abstractMethods.isEmpty }) := by
    refine .of_touches (.update_frame rfl rfl rfl rfl rfl) fun isStatic => ?_
    cases isStatic <;> simp [methodTable]
  have hset {w₁ : World V} {R : Method → Prop} (hr : TableFor w₁ c R) : TableFor (w₁.updateClass c fun k =>
        { k with isAbstract := k.isAbstract || !k.abstractMethods.isEmpty }) c R :=
    hr.frame (fun r _ => (hflag w₁).name r.owner) (by simp)
  cases hproto : (w.classes c).prototype with
  | none =>
    dsimp only
    refine ⟨hflag w, hset (h.congr fun r => by simp), ?_⟩
    simp [Oop.importEntries]
  | some p =>
    dsimp only
    have htake := h.takeOver (hp p hproto) (fun _ => false) fun _ _ _ => rfl
    refine ⟨(SameMethods.importEntries _ _ w).trans (hflag _), hset (htake.congr fun r => ?_), ?_⟩
    · simp
    · simp [importEntries_isAbstract]

end Completion

/-! Requirements along the chain. -/

section Recursion
variable {V : Type} {w w' : World V} {spec spec' : ClassId → Spec} {c p : ClassId} {r : Method}

variable {k n : ClassId}

theorem mem_below {below above : List ClassId} {k' : ClassId} (h : k' ∈ below ++ [k]) :
    k' ∈ below ++ k :: above := by
  rw [List.append_cons]
  exact List.mem_append_left above h

theorem met_cons (hc : chain w c = c :: chain w p) :
    Met w spec c r ↔ OwnMet w spec c r ∨ Met w spec p r := by
  simp [Met, hc]

theorem met_root (hc : chain w c = [c]) : Met w spec c r ↔ OwnMet w spec c r := by
  simp [Met, hc]

theorem unmet_cons (hc : chain w c = c :: chain w p) : Unmet w spec c r ↔
      (r ∈ (spec c).abstracts ∧ ¬OwnMet w spec c r) ∨
      (Unmet w spec p r ∧ ¬OwnMet w spec c r) ∨
      ∃ i ∈ (spec c).interfaces, InterfaceRequires spec i r ∧ ¬Met w spec c r := by
  constructor
  · intro hu
    obtain ⟨below, k, above, he, hr, hno⟩ | ⟨k, hk, i, hi, hr, hno⟩ := hu
    · rw [hc] at he
      cases below with
      | nil =>
        cases he
        exact .inl ⟨hr, hno c (by simp)⟩
      | cons b below =>
        obtain ⟨rfl, he'⟩ := List.cons.inj he
        refine .inr (.inl ⟨.inl ⟨below, k, above, he', hr, fun k' hk' => hno k' ?_⟩, hno c (by simp)⟩)
        exact mem_cons_of_mem _ hk'
    · rw [hc] at hk
      obtain rfl | hk := mem_cons.mp hk
      · exact .inr (.inr ⟨i, hi, hr, hno⟩)
      · rw [met_cons hc, not_or] at hno
        exact .inr (.inl ⟨.inr ⟨k, hk, i, hi, hr, hno.2⟩, hno.1⟩)
  · intro hu
    obtain ⟨hr, hno⟩ | ⟨h, hno⟩ | ⟨i, hi, hr, hno⟩ := hu
    · exact .inl ⟨[], c, chain w p, hc, hr, by simpa using hno⟩
    · obtain ⟨below, k, above, he, hr, hno'⟩ | ⟨k, hk, i, hi, hr, hno'⟩ := h
      · refine .inl ⟨c :: below, k, above, by rw [hc, he]; rfl, hr, fun k' hk' => ?_⟩
        obtain rfl | hk' := mem_cons.mp hk'
        · exact hno
        · exact hno' k' hk'
      · refine .inr ⟨k, by rw [hc]; exact mem_cons_of_mem _ hk, i, hi, hr, ?_⟩
        rw [met_cons hc, not_or]
        exact ⟨hno, hno'⟩
    · exact .inr ⟨c, self_mem_chain w c, i, hi, hr, hno⟩

theorem unmet_root (hc : chain w c = [c]) : Unmet w spec c r ↔
      (r ∈ (spec c).abstracts ∧ ¬OwnMet w spec c r) ∨
      ∃ i ∈ (spec c).interfaces, InterfaceRequires spec i r ∧ ¬Met w spec c r := by
  constructor
  · intro hu
    obtain ⟨below, k, above, he, hr, hno⟩ | ⟨k, hk, i, hi, hr, hno⟩ := hu
    · rw [hc] at he
      cases below with
      | nil =>
        cases he
        exact .inl ⟨hr, hno c (by simp)⟩
      | cons b below => simp at he
    · rw [hc] at hk
      cases mem_singleton.mp hk
      exact .inr ⟨i, hi, hr, hno⟩
  · intro hu
    obtain ⟨hr, hno⟩ | ⟨i, hi, hr, hno⟩ := hu
    · exact .inl ⟨[], c, [], hc, hr, by simpa using hno⟩
    · exact .inr ⟨c, self_mem_chain w c, i, hi, hr, hno⟩

theorem unmet_interface (hp : (w.classes c).prototype = none) (hno : (spec c).concretes = []) :
    Unmet w spec c r ↔ InterfaceRequires spec c r := by
  have hc := chain_root hp
  have hown : ¬OwnMet w spec c r := by
    intro hu
    obtain ⟨m, hm, -⟩ := hu
    rw [hno] at hm
    cases hm
  rw [unmet_root hc, met_root hc]
  constructor
  · intro hu
    obtain ⟨hr, -⟩ | ⟨i, hi, hr, -⟩ := hu
    · exact .own hr
    · exact .extends hi hr
  · intro h
    cases h with
    | own hr => exact .inl ⟨hr, hown⟩
    | «extends» hi hr => exact .inr ⟨_, hi, hr, hown⟩

/-- Specifications whose references are smaller, and whose methods belong to their class. -/
structure SpecOk (n : ClassId) (spec : ClassId → Spec) : Prop where
  refs : ∀ c < n, ∀ i ∈ (spec c).interfaces, i < c
  abstracts : ∀ c < n, ∀ r ∈ (spec c).abstracts, r.owner = c
  concretes : ∀ c < n, ∃ scope, ∀ m ∈ (spec c).concretes, OfClass scope c m

theorem SpecOk.owner_lt (h : SpecOk n spec) {i : ClassId} (hr : InterfaceRequires spec i r) :
    i < n → r.owner < n := by
  induction hr with
  | own hr =>
    intro hi
    rw [h.abstracts _ hi _ hr]
    exact hi
  | «extends» hj _ ih => exact fun hi => ih ((h.refs _ hi _ hj).trans hi)

theorem interfaceRequires_congr (h : SpecOk n spec) (hs : ∀ k < n, spec' k = spec k) {i : ClassId}
    (hi : i < n) :
    InterfaceRequires spec' i r ↔ InterfaceRequires spec i r := by
  constructor
  · intro hr
    induction hr with
    | own hr => exact .own (hs _ hi ▸ hr)
    | «extends» hj _ ih =>
      rw [hs _ hi] at hj
      exact .extends hj (ih ((h.refs _ hi _ hj).trans hi))
  · intro hr
    induction hr with
    | own hr => exact .own ((hs _ hi).symm ▸ hr)
    | «extends» hj _ ih =>
      exact .extends ((hs _ hi).symm ▸ hj) (ih ((h.refs _ hi _ hj).trans hi))

theorem ownMet_congr (h : SpecOk n spec) (hs : ∀ k < n, spec' k = spec k)
    (hn : ∀ k < n, (w'.classes k).name = (w.classes k).name) (hk : k < n) (hr : r.owner < n) :
    OwnMet w' spec' k r ↔ OwnMet w spec k r := by
  obtain ⟨scope, howned⟩ := h.concretes k hk
  unfold OwnMet
  rw [hs k hk]
  constructor
  · intro hu
    obtain ⟨m, hm, hsig⟩ := hu
    rw [signaturesMatch_congr (hn _ hr) (hn _ ((howned m hm).1 ▸ hk))] at hsig
    exact ⟨m, hm, hsig⟩
  · intro hu
    obtain ⟨m, hm, hsig⟩ := hu
    refine ⟨m, hm, ?_⟩
    rw [signaturesMatch_congr (hn _ hr) (hn _ ((howned m hm).1 ▸ hk))]
    exact hsig

theorem unmet_congr (hw : WorldOk w) (hnext : w.nextClass = n) (h : SpecOk n spec)
    (hs : ∀ k < n, spec' k = spec k) (hc : ∀ k < n, w'.classes k = w.classes k) (hk : k < n) :
    Unmet w' spec' k r ↔ Unmet w spec k r := by
  have hlt : ∀ k' ∈ chain w k, k' < n := fun k' hk' => hnext ▸ hw.chain_lt (hnext.symm ▸ hk) k' hk'
  have hchain : chain w' k = chain w k := chain_congr fun k' hk' => by rw [hc k' (hlt k' hk')]
  have hown {k' : ClassId} (hk' : k' ∈ chain w k) (hr : r.owner < n) :
      OwnMet w' spec' k' r ↔ OwnMet w spec k' r :=
    ownMet_congr h hs (fun k hk => by rw [hc k hk]) (hlt k' hk') hr
  have hmet (hr : r.owner < n) : Met w' spec' k r ↔ Met w spec k r := by
    unfold Met
    rw [hchain]
    exact exists_congr fun k' => and_congr_right fun hk' => hown hk' hr
  constructor
  · intro hu
    obtain ⟨below, j, above, he, hr, hno⟩ | ⟨j, hj, i, hi, hr, hno⟩ := hu
    · rw [hchain] at he
      have hj : j ∈ chain w k := by simp [he]
      rw [hs j (hlt j hj)] at hr
      have howner := h.abstracts j (hlt j hj) r hr ▸ hlt j hj
      refine .inl ⟨below, j, above, he, hr, fun k' hk' => ?_⟩
      have hmem : k' ∈ chain w k := he ▸ mem_below hk'
      exact fun hm => hno k' hk' ((hown hmem howner).mpr hm)
    · rw [hchain] at hj
      rw [hs j (hlt j hj)] at hi
      have hin := (h.refs j (hlt j hj) i hi).trans (hlt j hj)
      have hr' := (interfaceRequires_congr h hs hin).mp hr
      exact .inr ⟨j, hj, i, hi, hr', fun hm => hno ((hmet (h.owner_lt hr' hin)).mpr hm)⟩
  · intro hu
    obtain ⟨below, j, above, he, hr, hno⟩ | ⟨j, hj, i, hi, hr, hno⟩ := hu
    · have hj : j ∈ chain w k := by simp [he]
      have howner := h.abstracts j (hlt j hj) r hr ▸ hlt j hj
      refine .inl ⟨below, j, above, hchain.trans he, by rw [hs j (hlt j hj)]; exact hr, fun k' hk' => ?_⟩
      have hmem : k' ∈ chain w k := he ▸ mem_below hk'
      exact fun hm => hno k' hk' ((hown hmem howner).mp hm)
    · have hin := (h.refs j (hlt j hj) i hi).trans (hlt j hj)
      exact .inr ⟨j, hchain.symm ▸ hj, i, by rw [hs j (hlt j hj)]; exact hi,
        (interfaceRequires_congr h hs hin).mpr hr,
        fun hm => hno ((hmet (h.owner_lt hr hin)).mp hm)⟩

theorem Unmet.owner_lt (hw : WorldOk w) (hnext : w.nextClass = n) (h : SpecOk n spec) (hk : k < n)
    (hu : Unmet w spec k r) : r.owner < n := by
  have hlt : ∀ k' ∈ chain w k, k' < n := fun k' hk' => hnext ▸ hw.chain_lt (hnext.symm ▸ hk) k' hk'
  obtain ⟨below, j, above, he, hr, -⟩ | ⟨j, hj, i, hi, hr, -⟩ := hu
  · have hj : j < n := hlt j (by simp [he])
    rw [h.abstracts j hj r hr]
    exact hj
  · exact h.owner_lt hr ((h.refs j (hlt j hj) i hi).trans (hlt j hj))

end Recursion

/-! Every sequence of definitions. -/

structure Program (V : Type) where
  world : World V
  spec : ClassId → Spec

section Programs
variable {V : Type}

def Program.init : Program V := ⟨World.empty, fun _ => {}⟩

variable [FieldValue V]

/-- A definition that evaluates without error. The scope is that of the place, and holds
    classes that exist. -/
def Program.define (s : Program V) (d : ClassScope × ClassDef V) : Option (Program V × ClassId) :=
  if (d.1.all fun p => p.2 < s.world.nextClass) ∧ d.2.wellFormed then
    match defineClass d.1 s.world d.2 with
    | (.ok c, w) => some (⟨w, Function.update s.spec c (specOf d.1 c d.2)⟩, c)
    | (.error _, _) => none
  else none

variable {w w' : World V} {c : ClassId} {scope : ClassScope} {d : ClassDef V}

theorem completeClass_ok (h : completeClass scope w c d = (.ok (), w')) :
    ∃ w₁ w₂, untilError (fun w member => defineMember scope w c member) w d.members = (.ok (), w₁) ∧
      untilError (defineInterface scope c) w₁ d.interfaces = (.ok (), w₂) ∧
      w' = (finalizeAbstractMethods w₂ c).updateClass c fun k => { k with isFinal := d.isFinal } := by
  unfold completeClass at h
  split at h
  · cases h
  · rename_i w₁ h₁
    split at h
    · cases h
    · rename_i w₂ h₂
      cases h
      exact ⟨w₁, w₂, h₁, h₂, rfl⟩

theorem defineClass_ok (h : defineClass scope w d = (.ok c, w')) : c = w.nextClass ∧
      completeClass scope (createClass w d (d.parent.bind fun name => scope.lookup name)).2 c d =
        (.ok (), w') := by
  unfold defineClass at h
  split at h
  · rename_i hnone
    dsimp only at h
    split at h
    · rename_i w₁ hcomplete
      cases h
      rw [hnone]
      exact ⟨rfl, hcomplete⟩
    · cases h
  · rename_i name hname
    split at h
    · cases h
    · rename_i p hp
      split at h
      · cases h
      · dsimp only at h
        split at h
        · rename_i w₁ hcomplete
          cases h
          rw [hname, Option.bind_some, hp]
          exact ⟨rfl, hcomplete⟩
        · cases h

omit [FieldValue V] in
theorem interfaces_known : ∀ (names : List Name) {w : World V},
    untilError (defineInterface scope c) w names = (.ok (), w') →
      ∀ name ∈ names, ∀ i, scope.lookup name = some i → i ≠ c → (w.classes i).isInterface = true
  | [], _, _ => fun _ h => nomatch h
  | name :: names, w, hd => by
    simp only [untilError] at hd
    split at hd
    · rename_i w₁ hstep
      have htouch := @defineInterface_touches V c w scope name
      rw [hstep] at htouch
      intro name' hname' i hi hic
      obtain rfl | hname' := mem_cons.mp hname'
      · unfold defineInterface at hstep
        rw [hi] at hstep
        dsimp only at hstep
        split at hstep
        · assumption
        · cases hstep
      · have := interfaces_known names hd name' hname' i hi hic
        rwa [htouch.others i hic] at this
    · cases hd

/-- What holds of every program: the records of its world, and that its tables are the sets
    the definitions say. -/
structure ProgramOk (s : Program V) : Prop where
  world : WorldOk s.world
  spec : SpecOk s.world.nextClass s.spec
  kind : ∀ c < s.world.nextClass, (s.world.classes c).isInterface = (s.spec c).isInterface
  interface : ∀ c < s.world.nextClass, (s.spec c).isInterface = true →
    (s.world.classes c).prototype = none ∧ (s.spec c).concretes = []
  holds : ∀ c < s.world.nextClass, Holds s.world c (s.spec c).concretes
  table : ∀ c < s.world.nextClass, TableFor s.world c (Unmet s.world s.spec c)
  flag : ∀ c < s.world.nextClass, (s.world.classes c).isAbstract =
    ((s.spec c).declared || !(s.world.classes c).abstractMethods.isEmpty)

omit [FieldValue V] in
theorem ProgramOk.init : ProgramOk (Program.init : Program V) where
  world := .empty
  spec := ⟨fun _ h => absurd h (Nat.not_lt_zero _), fun _ h => absurd h (Nat.not_lt_zero _),
    fun _ h => absurd h (Nat.not_lt_zero _)⟩
  kind _ h := absurd h (Nat.not_lt_zero _)
  interface _ h := absurd h (Nat.not_lt_zero _)
  holds _ h := absurd h (Nat.not_lt_zero _)
  table _ h := absurd h (Nat.not_lt_zero _)
  flag _ h := absurd h (Nat.not_lt_zero _)

omit [FieldValue V] in
theorem hasConcrete_iff {spec : ClassId → Spec} {n : ClassId} (hs : SpecOk n spec)
    (hh : ∀ k < n, Holds w k (spec k).concretes) (hlt : ∀ k ∈ chain w c, k < n) (r : Method) :
    hasConcrete w c r = true ↔ Met w spec c r := by
  rw [hasConcrete, any_eq_true]
  unfold Met
  refine exists_congr fun k => and_congr_right fun hk => ?_
  obtain ⟨scope, howned⟩ := hs.concretes k (hlt k hk)
  exact (hh k (hlt k hk)).hasOwnConcrete_iff howned r

structure Defined (s : Program V) (scope : ClassScope) (d : ClassDef V) (c : ClassId)
    (w' : World V) : Prop where
  fresh : c = s.world.nextClass
  world : WorldOk w'
  nextClass : w'.nextClass = c + 1
  others : ∀ k < c, w'.classes k = s.world.classes k
  prototype : d.parent = none → (w'.classes c).prototype = none
  kind : (w'.classes c).isInterface = d.isInterface
  interfaces : ∀ i ∈ (specOf scope c d).interfaces, i < c ∧ (s.world.classes i).isInterface = true
  holds : Holds w' c (specOf scope c d).concretes
  flag : (w'.classes c).isAbstract =
    ((specOf scope c d).declared || !(w'.classes c).abstractMethods.isEmpty)
  table : TableFor w' c fun r =>
    (r ∈ (specOf scope c d).abstracts ∧ hasOwnConcrete w' c r = false) ∨
    (∃ i ∈ (specOf scope c d).interfaces, Unmet s.world s.spec i r ∧ hasConcrete w' c r = false) ∨
    ∃ p, (w'.classes c).prototype = some p ∧ Unmet s.world s.spec p r ∧ hasOwnConcrete w' c r = false

omit [FieldValue V] in
theorem createClass_facts (w : World V) (d : ClassDef V) (parent : Option ClassId) :
    (∀ k, k ≠ w.nextClass → (createClass w d parent).2.classes k = w.classes k) ∧
      (createClass w d parent).2.nextClass = w.nextClass + 1 ∧
      ((createClass w d parent).2.classes w.nextClass).prototype = parent ∧
      ((createClass w d parent).2.classes w.nextClass).isInterface = d.isInterface ∧
      MembersDone (createClass w d parent).2 w.nextClass scope (d.isAbstract || d.isInterface) [] [] := by
  refine ⟨fun k hk => ?_, rfl, ?_, ?_, ?_⟩
  · simp [createClass, syncFields, World.updateClass, hk]
  · simp [createClass, syncFields]
  · simp [createClass, syncFields]
  · refine ⟨by simp [createClass, syncFields], ⟨fun isStatic e he => ?_, fun m hm => ?_⟩,
      ⟨fun e he => ?_, fun r hr => ?_⟩, fun m hm => ?_⟩
    · cases isStatic <;> simp [methodTable, createClass, syncFields] at he
    · cases hm
    · simp [createClass, syncFields] at he
    · cases hr.1
    · cases hm

theorem defineClass_defined {s : Program V} (h : ProgramOk s)
    (hscope : ∀ p ∈ scope, p.2 < s.world.nextClass)
    (hd : defineClass scope s.world d = (.ok c, w')) : Defined s scope d c w' := by
  have hlookup {name : Name} {i : ClassId} (hi : scope.lookup name = some i) : i < s.world.nextClass :=
    hscope (name, i) (mem_of_lookup hi)
  obtain ⟨rfl, hcomplete⟩ := defineClass_ok hd
  have hroot (hn : d.parent = none) : (d.parent.bind fun name => scope.lookup name) = none := by
    rw [hn]
    rfl
  have hparent (p : ClassId) (hp : (d.parent.bind fun name => scope.lookup name) = some p) :
      ∃ name, scope.lookup name = some p := by
    obtain ⟨name, -, hname⟩ := Option.bind_eq_some_iff.mp hp
    exact ⟨name, hname⟩
  generalize (d.parent.bind fun name => scope.lookup name) = parent at hroot hparent hcomplete
  obtain ⟨w₁, w₂, hmembers, hinterfaces, rfl⟩ := completeClass_ok hcomplete
  obtain ⟨hother₀, hnext₀, hproto₀, hkind₀, hdone₀⟩ :=
    @createClass_facts V scope s.world d parent
  have htouch₁ : Touches s.world.nextClass (createClass s.world d parent).2 w₁ := by
    have := Touches.untilError (fun w member => @defineMember_touches V s.world.nextClass w _ scope
      member) d.members (createClass s.world d parent).2
    rwa [hmembers] at this
  have htouch₂ : Touches s.world.nextClass w₁ w₂ := by
    have := Touches.untilError (fun w name => @defineInterface_touches V s.world.nextClass w scope
      name) d.interfaces w₁
    rwa [hinterfaces] at this
  have htouch₃ := @finalizeAbstractMethods_touches V s.world.nextClass w₂
  have hdone := hdone₀.members d.members hmembers
  -- the tables of earlier classes are as they were
  have hother₂ (k : ClassId) (hk : k < s.world.nextClass) : w₂.classes k = s.world.classes k :=
    (htouch₂.others k hk.ne).trans ((htouch₁.others k hk.ne).trans (hother₀ k hk.ne))
  have hsource₁ (i : ClassId) (hi : i < s.world.nextClass) : TableFor w₁ i (Unmet s.world s.spec i) := by
    refine (h.table i hi).frame (fun r hr => ?_) ?_
    · have hlt := Unmet.owner_lt h.world rfl h.spec hi hr
      rw [htouch₁.others _ hlt.ne, hother₀ _ hlt.ne]
    · rw [htouch₁.others _ hi.ne, hother₀ _ hi.ne]
  obtain ⟨hsame₂, hflag₂, htable₂⟩ := TableFor.interfaces d.interfaces hdone.table
    (fun name _ i hi => ⟨(hlookup hi).ne, hsource₁ i (hlookup hi)⟩) hinterfaces
  have hproto₂ : (w₂.classes s.world.nextClass).prototype = parent :=
    htouch₂.prototype.trans (htouch₁.prototype.trans hproto₀)
  obtain ⟨hsame₃, htable₃, hflag₃⟩ := htable₂.finalize (Q := Unmet s.world s.spec) fun p hp => by
    rw [hproto₂] at hp
    obtain ⟨name, hname⟩ := hparent p hp
    exact (hsource₁ p (hlookup hname)).touches (hlookup hname).ne htouch₂
  have htouch₄ : Touches s.world.nextClass (finalizeAbstractMethods w₂ s.world.nextClass)
      ((finalizeAbstractMethods w₂ s.world.nextClass).updateClass s.world.nextClass fun k =>
        { k with isFinal := d.isFinal }) := .update_frame rfl rfl rfl rfl rfl
  have hsame₄ : SameMethods (finalizeAbstractMethods w₂ s.world.nextClass)
      ((finalizeAbstractMethods w₂ s.world.nextClass).updateClass s.world.nextClass fun k =>
        { k with isFinal := d.isFinal }) := by
    refine .of_touches htouch₄ fun isStatic => ?_
    cases isStatic <;> simp [methodTable]
  have htouch := ((htouch₁.trans htouch₂).trans htouch₃).trans htouch₄
  have hsame := (hsame₂.trans hsame₃).trans hsame₄
  refine ⟨rfl, ?_, htouch.nextClass.trans hnext₀, ?_, ?_, htouch.kind.trans hkind₀, ?_, ?_, ?_, ?_⟩
  · refine (touches_step h.world (fun p hp => ?_) htouch).1
    obtain ⟨name, hname⟩ := hparent p hp
    exact hlookup hname
  · exact fun k hk => (htouch.others k hk.ne).trans (hother₀ k hk.ne)
  · exact fun hn => htouch.prototype.trans (hproto₀.trans (hroot hn))
  · intro i hi
    obtain ⟨name, hname, hi⟩ := List.mem_filterMap.mp hi
    have hlt := hlookup hi
    have hknown := interfaces_known d.interfaces hinterfaces name hname i hi hlt.ne
    rw [htouch₁.others i hlt.ne, hother₀ i hlt.ne] at hknown
    exact ⟨hlt, hknown⟩
  · exact hdone.holds.frame (hsame.table s.world.nextClass)
  · rw [updateClass_self]
    exact hflag₃.trans (by rw [hflag₂, hdone.flag]; rfl)
  · have htable₄ : (((finalizeAbstractMethods w₂ s.world.nextClass).updateClass s.world.nextClass
        fun k => { k with isFinal := d.isFinal }).classes s.world.nextClass).abstractMethods =
        ((finalizeAbstractMethods w₂ s.world.nextClass).classes
          s.world.nextClass).abstractMethods := by simp
    have hframe := htable₃.frame (fun r _ => hsame₄.name r.owner) htable₄
    refine hframe.congr fun r => ?_
    have hproto := (htouch₃.trans htouch₄).prototype
    rw [hproto]
    simp only [← hdone.hasOwnConcrete_false, ← hsame₂.hasOwnConcrete, ← hsame₂.hasConcrete,
      ← (hsame₃.trans hsame₄).hasOwnConcrete, ← (hsame₃.trans hsame₄).hasConcrete]
    exact or_assoc

end Programs

section Runs
variable {V : Type} {w' : World V} {c : ClassId} {scope : ClassScope} {d : ClassDef V}

theorem wellFormed_interface (hwf : d.wellFormed = true) (hi : d.isInterface = true) :
    d.parent = none ∧ methodMembers scope c false d.members = [] := by
  simp only [ClassDef.wellFormed, hi, Bool.not_true, Bool.false_or, Bool.and_eq_true,
    List.all_eq_true, Option.isNone_iff_eq_none] at hwf
  refine ⟨hwf.1, List.filterMap_eq_nil_iff.mpr fun member hm => ?_⟩
  have := hwf.2 member hm
  cases member with
  | method name params isStatic isAbstract isOverride isFinal access body =>
    simp_all [Member.asMethod, Option.filter]
  | field | ctor => cases this

def withSpec (s : Program V) (scope : ClassScope) (c : ClassId) (d : ClassDef V) : ClassId → Spec :=
  Function.update s.spec c (specOf scope c d)

theorem withSpec_self (s : Program V) : withSpec s scope c d c = specOf scope c d :=
  Function.update_self ..

theorem withSpec_lt (s : Program V) {k : ClassId} (hk : k < c) :
    withSpec s scope c d k = s.spec k := Function.update_of_ne hk.ne ..

variable {s : Program V}

theorem forall_lt_succ {P : ClassId → Prop} (hlt : ∀ k < c, P k) (hc : P c) : ∀ k < c + 1, P k := by
  intro k hk
  obtain hk | rfl := Nat.lt_succ_iff_lt_or_eq.mp hk
  · exact hlt k hk
  · exact hc

theorem Defined.specOk (h : ProgramOk s) (hd : Defined s scope d c w') :
    SpecOk (c + 1) (withSpec s scope c d) where
  refs := by
    refine forall_lt_succ (fun k hk => ?_) ?_
    · rw [withSpec_lt s hk]
      exact h.spec.refs k (hd.fresh ▸ hk)
    · rw [withSpec_self]
      exact fun i hi => (hd.interfaces i hi).1
  abstracts := by
    refine forall_lt_succ (fun k hk => ?_) ?_
    · rw [withSpec_lt s hk]
      exact h.spec.abstracts k (hd.fresh ▸ hk)
    · rw [withSpec_self]
      exact fun r hr => (methodMembers_ofClass hr).1
  concretes := by
    refine forall_lt_succ (fun k hk => ?_) ?_
    · rw [withSpec_lt s hk]
      exact h.spec.concretes k (hd.fresh ▸ hk)
    · rw [withSpec_self]
      exact ⟨scope, fun m hm => methodMembers_ofClass hm⟩

theorem Defined.allHold (h : ProgramOk s) (hd : Defined s scope d c w') :
    ∀ k < c + 1, Holds w' k (withSpec s scope c d k).concretes := by
  refine forall_lt_succ (fun k hk => ?_) ?_
  · rw [withSpec_lt s hk]
    refine (h.holds k (hd.fresh ▸ hk)).frame fun isStatic => ?_
    rw [methodTable, methodTable, hd.others k hk]
  · rw [withSpec_self]
    exact hd.holds

theorem Defined.unmet_congr (h : ProgramOk s) (hd : Defined s scope d c w') {k : ClassId}
    (hk : k < c) (r : Method) :
    Unmet w' (withSpec s scope c d) k r ↔ Unmet s.world s.spec k r :=
  Oop.unmet_congr h.world hd.fresh.symm (hd.fresh ▸ h.spec) (fun _ hj => withSpec_lt s hj) hd.others hk

theorem Defined.unmet_iff (h : ProgramOk s) (hd : Defined s scope d c w') (r : Method) :
    ((r ∈ (specOf scope c d).abstracts ∧ hasOwnConcrete w' c r = false) ∨
      (∃ i ∈ (specOf scope c d).interfaces, Unmet s.world s.spec i r ∧ hasConcrete w' c r = false) ∨
      ∃ p, (w'.classes c).prototype = some p ∧ Unmet s.world s.spec p r ∧ hasOwnConcrete w' c r = false) ↔
      Unmet w' (withSpec s scope c d) c r := by
  have hspec := hd.specOk h
  have hlt : c < w'.nextClass := hd.nextClass ▸ Nat.lt_succ_self c
  have hown : hasOwnConcrete w' c r = false ↔ ¬OwnMet w' (withSpec s scope c d) c r := by
    obtain ⟨scope', howned⟩ := hspec.concretes c (Nat.lt_succ_self c)
    rw [← Bool.not_eq_true]
    exact not_congr ((hd.allHold h c (Nat.lt_succ_self c)).hasOwnConcrete_iff howned r)
  have hmet : hasConcrete w' c r = false ↔ ¬Met w' (withSpec s scope c d) c r := by
    rw [← Bool.not_eq_true]
    exact not_congr (hasConcrete_iff hspec (hd.allHold h)
      (fun k hk => hd.nextClass ▸ hd.world.chain_lt hlt k hk) r)
  -- what an interface lacks is what it requires
  have hinterface : ∀ i ∈ (specOf scope c d).interfaces,
      (Unmet s.world s.spec i r ↔ InterfaceRequires (withSpec s scope c d) i r) := by
    intro i hi
    obtain ⟨hic, hkind⟩ := hd.interfaces i hi
    have hin : i < s.world.nextClass := hd.fresh ▸ hic
    obtain ⟨hproto, hno⟩ := h.interface i hin ((h.kind i hin).symm.trans hkind)
    rw [← hd.unmet_congr h hic, unmet_interface]
    · rw [hd.others i hic]
      exact hproto
    · rw [withSpec_lt s hic]
      exact hno
  have hinterfaces : (∃ i ∈ (specOf scope c d).interfaces, Unmet s.world s.spec i r ∧
      hasConcrete w' c r = false) ↔ ∃ i ∈ (withSpec s scope c d c).interfaces,
        InterfaceRequires (withSpec s scope c d) i r ∧ ¬Met w' (withSpec s scope c d) c r := by
    rw [withSpec_self, hmet]
    exact exists_congr fun i => and_congr_right fun hi => and_congr_left fun _ => hinterface i hi
  have habstract : r ∈ (specOf scope c d).abstracts ↔ r ∈ (withSpec s scope c d c).abstracts := by
    rw [withSpec_self]
  rw [hinterfaces, hown, habstract]
  cases hproto : (w'.classes c).prototype with
  | none =>
    rw [unmet_root (chain_root hproto)]
    simp
  | some p =>
    have hp := hd.world.prototype c hlt p hproto
    rw [unmet_cons (chain_cons hd.world.prototype hlt hproto), hd.unmet_congr h hp]
    constructor
    · intro hu
      obtain hr | hr | ⟨p', hp', hr⟩ := hu
      · exact .inl hr
      · exact .inr (.inr hr)
      · cases hp'
        exact .inr (.inl hr)
    · intro hu
      obtain hr | hr | hr := hu
      · exact .inl hr
      · exact .inr (.inr ⟨p, rfl, hr⟩)
      · exact .inr (.inl hr)

theorem Defined.programOk (h : ProgramOk s) (hd : Defined s scope d c w')
    (hwf : d.wellFormed = true) : ProgramOk ⟨w', withSpec s scope c d⟩ where
  world := hd.world
  spec := by
    rw [hd.nextClass]
    exact hd.specOk h
  kind := by
    dsimp only
    rw [hd.nextClass]
    refine forall_lt_succ (fun k hk => ?_) ?_
    · rw [hd.others k hk, withSpec_lt s hk]
      exact h.kind k (hd.fresh ▸ hk)
    · rw [withSpec_self]
      exact hd.kind
  interface := by
    dsimp only
    rw [hd.nextClass]
    refine forall_lt_succ (fun k hk => ?_) ?_
    · rw [hd.others k hk, withSpec_lt s hk]
      exact h.interface k (hd.fresh ▸ hk)
    · rw [withSpec_self]
      intro hi
      obtain ⟨hparent, hno⟩ := @wellFormed_interface V c scope d hwf hi
      exact ⟨hd.prototype hparent, hno⟩
  holds := by
    rw [hd.nextClass]
    exact hd.allHold h
  table := by
    dsimp only
    rw [hd.nextClass]
    refine forall_lt_succ (fun k hk => ?_) (hd.table.congr (hd.unmet_iff h))
    have hkn : k < s.world.nextClass := hd.fresh ▸ hk
    have hframe : TableFor w' k (Unmet s.world s.spec k) := by
      refine (h.table k hkn).frame (fun r hr => ?_) (by rw [hd.others k hk])
      rw [hd.others _ (hd.fresh ▸ Unmet.owner_lt h.world rfl h.spec hkn hr)]
    exact hframe.congr fun r => (hd.unmet_congr h hk r).symm
  flag := by
    dsimp only
    rw [hd.nextClass]
    refine forall_lt_succ (fun k hk => ?_) ?_
    · rw [hd.others k hk, withSpec_lt s hk]
      exact h.flag k (hd.fresh ▸ hk)
    · rw [withSpec_self]
      exact hd.flag

variable [FieldValue V]

theorem Program.define_ok {s' : Program V} {d : ClassScope × ClassDef V} (h : ProgramOk s)
    (hd : s.define d = some (s', c)) : ProgramOk s' := by
  unfold Program.define at hd
  split at hd
  · rename_i hcond
    split at hd
    · rename_i c' w' hdef
      cases hd
      have hscope : ∀ p ∈ d.1, p.2 < s.world.nextClass := fun p hp => by
        simpa using List.all_eq_true.mp hcond.1 p hp
      exact (defineClass_defined h hscope hdef).programOk h hcond.2
    · cases hd
  · cases hd

theorem program_ok {defs : List (ClassScope × ClassDef V)}
    (h : run Program.define Program.init defs = some s) : ProgramOk s :=
  run_invariant (P := ProgramOk) (fun _ _ _ _ hs hd => Program.define_ok hs hd) defs _ s .init h

/-- After any sequence of definitions that evaluates without error, a class can be
    instantiated exactly when it is not declared abstract and nothing it must have is missing.
    The condition does not mention the order of members or interfaces. -/
theorem instantiable_iff_complete {defs : List (ClassScope × ClassDef V)}
    (h : run Program.define Program.init defs = some s) {c : ClassId}
    (hc : c < s.world.nextClass) :
    (s.world.classes c).isAbstract = false ↔ Complete s.world s.spec c := by
  have hok := program_ok h
  rw [hok.flag c hc, complete_iff, ← (hok.table c hc).empty_iff]
  simp

end Runs

/-! A class that declares a method of its parent abstract again. -/

section Redeclared

/-- Every requirement of the chain and of its interfaces is met somewhere on the chain. -/
structure MetAnywhere {V : Type} (w : World V) (spec : ClassId → Spec) (c : ClassId) : Prop where
  declared : (spec c).declared = false
  abstracts : ∀ k ∈ chain w c, ∀ r ∈ (spec k).abstracts, Met w spec c r
  interfaces : ∀ k ∈ chain w c, ∀ i ∈ (spec k).interfaces, ∀ r, InterfaceRequires spec i r →
    Met w spec c r

/-- One value, of every type. -/
instance unitValue : FieldValue Unit := ⟨(), fun _ => "null", fun _ _ => true⟩

def fooMember (isAbstract : Bool) : Member Unit :=
  .method "foo" [] false isAbstract false false .publicAccess 0

/-- `A` has `foo`, and `B` declares it abstract. -/
def redeclared : List (ClassScope × ClassDef Unit) :=
  [([], { name := "A", members := [fooMember false] }),
    ([("A", 0)], { name := "B", parent := some "A", members := [fooMember true] })]

def redeclaredProgram : Program Unit := (run Program.define Program.init redeclared).getD .init

/-- `B` stays abstract, although the method of `A` is on its chain. -/
theorem redeclared_stays_abstract :
    ¬ ∀ (V : Type) (_ : FieldValue V) (defs : List (ClassScope × ClassDef V)) (s : Program V),
      run Program.define Program.init defs = some s → ∀ c < s.world.nextClass,
        ((s.world.classes c).isAbstract = false ↔ MetAnywhere s.world s.spec c) := by
  intro h
  have hB := h Unit unitValue redeclared redeclaredProgram rfl 1 (by decide)
  have hchain : chain redeclaredProgram.world 1 = [1, 0] := by decide
  have hA : (redeclaredProgram.spec 0).abstracts = [] := by decide
  have hB' : (redeclaredProgram.spec 1).abstracts = [⟨"foo", [], false, 1, .publicAccess, false,
    [("A", 0)], 0⟩] := by decide
  have hnone : ∀ k ∈ [1, 0], (redeclaredProgram.spec k).interfaces = [] := by decide
  have habstract : (redeclaredProgram.world.classes 1).isAbstract = false := by
    refine hB.mpr ⟨by decide, ?_, ?_⟩
    · rw [hchain]
      intro k hk r hr
      obtain rfl | rfl : k = 1 ∨ k = 0 := by simpa using hk
      · rw [hB'] at hr
        cases mem_singleton.mp hr
        exact ⟨0, by decide, ⟨"foo", [], false, 0, .publicAccess, false, [], 0⟩, by decide, by decide⟩
      · rw [hA] at hr
        cases hr
    · rw [hchain]
      intro k hk i hi
      rw [hnone k hk] at hi
      cases hi
  revert habstract
  decide

theorem instantiable_iff_complete_redeclared : (redeclaredProgram.world.classes 1).isAbstract = false ↔
      Complete redeclaredProgram.world redeclaredProgram.spec 1 :=
  @instantiable_iff_complete Unit redeclaredProgram _ redeclared rfl 1 (by decide)

end Redeclared

end TurboScript.Oop
