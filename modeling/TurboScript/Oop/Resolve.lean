import TurboScript.Lib.Best
import TurboScript.Oop.Hierarchy
import TurboScript.Oop.Overload
import Mathlib.Data.List.Nodup

/- Overload resolution (`exprtk_class_lookup_method_typed`,
   `exprtk_class_lookup_constructor_typed`).

   A class answers with the overload that spells the types of the arguments, or else with the
   fully typed overload of the highest score, the first one that is visited, or else with the
   method of that arity that is not fully typed. The nearest class with an answer decides. A
   constructor has one more try, the first constructor of the class, if it has that arity.
   `Best` is what resolution should do. -/
namespace TurboScript.Oop.Resolve
open Lib
open Exprtk (Name ClassId)

/-! Scores. -/

inductive Argument
  | builtin (type : Name)
  | instance (klass : ClassId)
  | class (klass : ClassId)

/-- `value_signature_type`. -/
def Argument.signatureType : Argument → Name
  | .builtin type => type
  | .instance _ => "instance"
  | .class _ => "class"

def Argument.klass : Argument → Option ClassId
  | .builtin _ => none
  | .instance k | .class k => some k

section Scores
variable (h : Hierarchy ClassId)

/-- `method_resolve_declared_class`. -/
def resolveClass (m : Method) (declaredType : Name) : Option ClassId :=
  if h.name m.owner = declaredType then some m.owner else m.closure.lookup declaredType

/-- The number of edges from the class of an argument to a declared type. -/
def edges (m : Method) (declaredType : Name) (a : Argument) : Option Nat :=
  match resolveClass h m declaredType with
  | some t => a.klass.bind fun k => h.identityMatchDepth k t
  | none => a.klass.bind fun k => h.nameMatchDepth k declaredType

def valueMatchesDeclaredType (a : Argument) (m : Method) (declaredType : Name) : Nat :=
  if declaredType = a.signatureType then 10
  else match edges h m declaredType a with
    | some n => 100 - n
    | none => 0

/-- `method_match_type_score`. -/
def score (name : Name) (args : List Argument) (m : Method) : Nat :=
  matchTypeScore m name (args.map (valueMatchesDeclaredType h))

/-- The argument has the declared type: it spells it, or its class is that class or below it. -/
def fitsType (m : Method) (a : Argument) (declaredType : Name) : Bool :=
  declaredType == a.signatureType ||
    match resolveClass h m declaredType with
    | some t => a.klass.any fun k => h.isA k t
    | none => a.klass.any fun k => (h.nameMatchDepth k declaredType).isSome

def Fits (name : Name) (args : List Argument) (m : Method) : Prop :=
  m.name = name ∧ m.params.length = args.length ∧ ∀ p ∈ args.zip m.params, p.2.all (fitsType h m p.1) = true

/-- A parameter of `m'` that takes strictly less than one of `m`. -/
def narrower (m' m : Method) : Option Name → Option Name → Bool
  | none, _ => false
  | some _, none => true
  | some t', some t =>
    match resolveClass h m' t', resolveClass h m t with
    | some k', some k => h.isA k' k && !h.isA k k'
    | _, _ => false

/-- Every parameter of `m'` takes strictly less. -/
def MoreSpecific (m' m : Method) : Prop :=
  m'.params.length = m.params.length ∧ ∀ p ∈ m'.params.zip m.params, narrower h m' m p.1 p.2 = true

end Scores

/-! The lookups. -/

inductive Kind
  | method (name : Name)
  | constructor
  deriving DecidableEq

def Kind.name : Kind → Name
  | .method name => name
  | .constructor => "constructor"

/-- `exprtk_class_add_method`, or `exprtk_class_add_constructor`, which enters no name. -/
def enter : Kind → List (MethodKey × Method) → Method → List (MethodKey × Method)
  | .method _, table, m => enterMethod table m
  | .constructor, table, m => tableSet table (typeKey m) m

structure Declared where
  table : List (MethodKey × Method)
  first : Option Method

/-- The overloads of each class. No two of one class have the same second key: the later one
would replace the other. -/
structure Overloads (kind : Kind) where
  hierarchy : Hierarchy ClassId
  methods : ClassId → List Method
  distinct : ∀ k, ((methods k).map typeKey).Nodup
  owner : ∀ k, ∀ m ∈ methods k, m.owner = k
  named : kind = .constructor → ∀ k, ∀ m ∈ methods k, m.name = "constructor"

/-- `klass->constructor`, if it has that many parameters. -/
def firstConstructor : Kind → List Argument → Declared → Option Method
  | .method _, _, _ => none
  | .constructor, args, d => d.first.filter fun m => m.params.length == args.length

/-- Without arguments the topmost class gives its first constructor in the end. -/
def topConstructor : Kind → List Argument → Option Declared → Option Method
  | .constructor, [], some d => d.first
  | _, _, _ => none

section Lookups
variable (kind : Kind) (h : Hierarchy ClassId) (declared : ClassId → Declared)

def prototypesFrom : Nat → ClassId → List ClassId
  | 0, _ => []
  | n + 1, c => c :: match h.prototype c with
    | none => []
    | some p => prototypesFrom n p

def prototypes (c : ClassId) : List ClassId := prototypesFrom h (h.rank c + 1) c

/-- The part of the lookup that stays in one class. -/
def own (args : List Argument) (d : Declared) : Option Method :=
  (ownMethodTyped d.table kind.name (args.map Argument.signatureType)
      (args.map (valueMatchesDeclaredType h))).or (firstConstructor kind args d)

def lookupTyped (c : ClassId) (args : List Argument) : Option Method :=
  ((prototypes h c).findSome? fun k => own kind h args (declared k)).or
    (topConstructor kind args ((prototypes h c).getLast?.map declared))

/-- `exprtk_class_lookup_method_typed`. -/
def lookupMethodTyped (c : ClassId) (name : Name) (args : List Argument) : Option Method :=
  lookupTyped (.method name) h declared c args

/-- `exprtk_class_lookup_constructor_typed`. -/
def lookupConstructorTyped (c : ClassId) (args : List Argument) : Option Method :=
  lookupTyped .constructor h declared c args

/-- The overloads were declared in some order, and the table is visited in some order. -/
def Realises (ms : List Method) (d : Declared) : Prop :=
  ∃ order : List Method, order.Perm ms ∧ d.table.Perm (order.foldl (enter kind) []) ∧ d.first = order.head?

end Lookups

/-! What resolution should do. -/

section Best
variable {kind : Kind} (o : Overloads kind) (c : ClassId) (args : List Argument)

def Possible (declared : ClassId → Declared) : Prop := ∀ k, Realises kind (o.methods k) (declared k)

/-- The lookup finds an applicable overload if there is one, none of its class is applicable
and more specific, and neither order matters. -/
structure Best : Prop where
  complete : ∀ declared, Possible o declared →
    (∃ k ∈ prototypes o.hierarchy c, ∃ m ∈ o.methods k, Fits o.hierarchy kind.name args m) →
      (lookupTyped kind o.hierarchy declared c args).isSome = true
  applicable : ∀ declared, Possible o declared →
    ∀ m, lookupTyped kind o.hierarchy declared c args = some m → Fits o.hierarchy kind.name args m
  specific : ∀ declared, Possible o declared →
    ∀ m, lookupTyped kind o.hierarchy declared c args = some m → ∀ m' ∈ o.methods m.owner, m' ≠ m →
      Fits o.hierarchy kind.name args m' → ¬MoreSpecific o.hierarchy m' m
  orderFree : ∀ declared declared', Possible o declared → Possible o declared' →
    lookupTyped kind o.hierarchy declared c args = lookupTyped kind o.hierarchy declared' c args

def spelled (kind : Kind) (args : List Argument) : MethodKey :=
  callTypeKey kind.name (args.map Argument.signatureType)

def scoreOf (m : Method) : Nat := score o.hierarchy kind.name args m

/-- No other overload of the class is applicable and more specific. -/
def Unrivalled (k : ClassId) (m : Method) : Prop :=
  ∀ m' ∈ o.methods k, m' ≠ m → Fits o.hierarchy kind.name args m' → ¬MoreSpecific o.hierarchy m' m

/-- No overload of the class spells the types of the arguments. -/
def Unspelled (k : ClassId) : Prop := ∀ m ∈ o.methods k, typeKey m ≠ spelled kind args

/-- No overload of the class is fully typed and near enough to the arguments. -/
def Unscored (k : ClassId) : Prop := ∀ m ∈ o.methods k, scoreOf o args m = 0

/-- No method of the class has the arity and is not fully typed. -/
def Untyped (k : ClassId) : Prop := ∀ m ∈ o.methods k, typeKey m ≠ .arity kind.name args.length

structure Silent (k : ClassId) : Prop where
  unspelled : Unspelled o args k
  unscored : Unscored o args k
  untyped : Untyped o args k
  arity : kind = .constructor → ∀ m ∈ o.methods k, m.params.length ≠ args.length

/-- An overload that spells the types of the arguments is unrivalled. If there is none, one
overload has the highest score alone, and is unrivalled. If none scores, the method that is
not fully typed is applicable and unrivalled. If there is none either, the constructor is the
only one and applicable. -/
structure Decides (k : ClassId) : Prop where
  spells : ∀ m ∈ o.methods k, typeKey m = spelled kind args → Unrivalled o args k m
  scores : Unspelled o args k → ¬Unscored o args k →
    ∃ m ∈ o.methods k, (∀ m' ∈ o.methods k, m' ≠ m → scoreOf o args m' < scoreOf o args m) ∧
      Unrivalled o args k m
  arity : Unspelled o args k → Unscored o args k →
    ∀ m ∈ o.methods k, typeKey m = .arity kind.name args.length →
      Fits o.hierarchy kind.name args m ∧ Unrivalled o args k m
  first : kind = .constructor → Unspelled o args k → Unscored o args k → Untyped o args k →
    ∀ m ∈ o.methods k, m.params.length = args.length → o.methods k = [m] ∧ Fits o.hierarchy kind.name args m

/-- The nearest class that is not silent decides, and if all are silent, nothing on the chain
is applicable. -/
structure Settled : Prop where
  nearest : ∀ below k above, prototypes o.hierarchy c = below ++ k :: above →
    (∀ j ∈ below, Silent o args j) → ¬Silent o args k → Decides o args k
  silent : (∀ k ∈ prototypes o.hierarchy c, Silent o args k) →
    ∀ k ∈ prototypes o.hierarchy c, ∀ m ∈ o.methods k, ¬Fits o.hierarchy kind.name args m
  top : kind = .constructor → args = [] → (∀ k ∈ prototypes o.hierarchy c, Silent o args k) →
    ∀ k, (prototypes o.hierarchy c).getLast? = some k → o.methods k = []

end Best

/-! What a table holds. -/

section Tables
variable {kind : Kind} {ms : List Method} {table : List (MethodKey × Method)}

structure Holding (ms : List Method) (table : List (MethodKey × Method)) : Prop where
  entry : ∀ e ∈ table, e.2 ∈ ms ∧ (e.1 = typeKey e.2 ∨ e.1 = .name e.2.name)
  present : ∀ m ∈ ms, (typeKey m, m) ∈ table

theorem mem_enter {m : Method} {e : MethodKey × Method} (he : e ∈ enter kind table m) :
    e = (typeKey m, m) ∨ e = (.name m.name, m) ∨ e ∈ table := by
  cases kind with
  | method name =>
    rcases mem_enterMethod.1 he with h | h | h
    · exact .inl h
    · exact .inr (.inl h)
    · exact .inr (.inr h.1)
  | constructor =>
    rcases mem_tableSet.1 he with h | h
    · exact .inl h
    · exact .inr (.inr h.1)

theorem self_mem_enter (m : Method) : (typeKey m, m) ∈ enter kind table m := by
  cases kind with
  | method name => exact mem_enterMethod.2 (.inl rfl)
  | constructor => exact mem_tableSet.2 (.inl rfl)

theorem mem_enter_of_ne {m m' : Method} (h : (typeKey m', m') ∈ table) (hne : typeKey m' ≠ typeKey m) :
    (typeKey m', m') ∈ enter kind table m := by
  cases kind with
  | method name => exact mem_enterMethod.2 (.inr (.inr ⟨h, typeKey_ne_name _ _, hne⟩))
  | constructor => exact mem_tableSet.2 (.inr ⟨h, hne⟩)

theorem Holding.enter (h : Holding ms table) {m : Method}
    (hsame : ∀ m' ∈ ms, typeKey m' = typeKey m → m' = m) :
    Holding (ms ++ [m]) (Resolve.enter kind table m) := by
  refine ⟨?_, ?_⟩
  · intro e he
    rcases mem_enter he with rfl | rfl | he
    · exact ⟨by simp, .inl rfl⟩
    · exact ⟨by simp, .inr rfl⟩
    · obtain ⟨hmem, hkey⟩ := h.entry e he
      exact ⟨List.mem_append_left _ hmem, hkey⟩
  · intro m' hm'
    rcases List.mem_append.1 hm' with hm' | hm'
    · by_cases hkey : typeKey m' = typeKey m
      · rw [hsame m' hm' hkey]
        exact self_mem_enter m
      · exact mem_enter_of_ne (h.present m' hm') hkey
    · rw [List.mem_singleton.1 hm']
      exact self_mem_enter m

/-- The second keys of overloads tell them apart. -/
def KeysApart (ms : List Method) : Prop := ∀ m ∈ ms, ∀ m' ∈ ms, typeKey m = typeKey m' → m = m'

theorem keysApart_of_nodup (h : (ms.map typeKey).Nodup) : KeysApart ms :=
  fun _ hm _ hm' => List.inj_on_of_nodup_map h hm hm'

theorem foldl_holding : ∀ {ms₀ : List Method} {table : List (MethodKey × Method)}, Holding ms₀ table →
    KeysApart (ms₀ ++ ms) → Holding (ms₀ ++ ms) (ms.foldl (enter kind) table) := by
  induction ms with
  | nil =>
    intro ms₀ table h _
    rw [List.append_nil]
    exact h
  | cons m ms ih =>
    intro ms₀ table h hapart
    rw [List.foldl_cons]
    have hsplit : ms₀ ++ m :: ms = (ms₀ ++ [m]) ++ ms := by simp
    rw [hsplit] at hapart ⊢
    exact ih (h.enter fun m' hm' => hapart m' (by simp [hm']) m (by simp)) hapart

theorem Holding.congr {ms' : List Method} {table' : List (MethodKey × Method)} (h : Holding ms table)
    (hms : ∀ m, m ∈ ms' ↔ m ∈ ms) (htable : ∀ e, e ∈ table' ↔ e ∈ table) : Holding ms' table' where
  entry e he := by
    rw [hms]
    exact h.entry e ((htable e).1 he)
  present m hm := (htable _).2 (h.present m ((hms m).1 hm))

theorem foldl_enter_holding (hapart : KeysApart ms) : Holding ms (ms.foldl (enter kind) []) := by
  have hempty : Holding [] [] := ⟨nofun, nofun⟩
  exact foldl_holding hempty hapart

theorem Realises.holding {d : Declared} (h : Realises kind ms d) (hdistinct : (ms.map typeKey).Nodup) :
    Holding ms d.table := by
  obtain ⟨order, horder, htable, -⟩ := h
  have hfold : Holding order (order.foldl (enter kind) []) :=
    foldl_enter_holding (keysApart_of_nodup ((horder.map typeKey).nodup_iff.2 hdistinct))
  exact hfold.congr (fun m => horder.mem_iff.symm) fun e => htable.mem_iff

theorem Holding.lookup (h : Holding ms table) (hdistinct : (ms.map typeKey).Nodup) {m : Method}
    (hm : m ∈ ms) : table.lookup (typeKey m) = some m := by
  have hsome : (table.lookup (typeKey m)).isSome = true :=
    List.lookup_isSome_iff.2 ⟨_, h.present m hm, beq_self_eq_true _⟩
  obtain ⟨m', hm'⟩ := Option.isSome_iff_exists.1 hsome
  obtain ⟨hin, hkey | hkey⟩ := h.entry _ (mem_of_lookup hm')
  · have hsame : m' = m := List.inj_on_of_nodup_map hdistinct hin hm hkey.symm
    rw [hm', hsame]
  · exact absurd hkey (typeKey_ne_name m m'.name)

theorem Holding.lookup_none (h : Holding ms table) {key : MethodKey} (hname : ∀ n, key ≠ .name n)
    (hne : ∀ m ∈ ms, typeKey m ≠ key) : table.lookup key = none := by
  rw [List.lookup_eq_none_iff]
  intro e he
  rw [bne_iff_ne]
  intro hkey
  obtain ⟨hin, htype | hn⟩ := h.entry e he
  · exact hne e.2 hin (htype.symm.trans hkey.symm)
  · exact hname _ (hkey.trans hn)

theorem Holding.mem_values (h : Holding ms table) {m : Method} : m ∈ table.map Prod.snd ↔ m ∈ ms := by
  constructor
  · intro hm
    obtain ⟨e, he, rfl⟩ := List.mem_map.1 hm
    exact (h.entry e he).1
  · intro hm
    exact List.mem_map.2 ⟨_, h.present m hm, rfl⟩

end Tables

/-! Scores and applicability. -/

section Fits
variable {h : Hierarchy ClassId}

variable {m : Method}

theorem fitsType_of_score {a : Argument} {t : Name} (hs : valueMatchesDeclaredType h a m t ≠ 0) :
    fitsType h m a t = true := by
  unfold valueMatchesDeclaredType at hs
  unfold fitsType
  rw [Bool.or_eq_true]
  split at hs
  · rename_i heq
    exact .inl (beq_iff_eq.2 heq)
  · right
    split at hs
    · rename_i n hn
      unfold edges at hn
      split at hn
      · rename_i t' hres
        obtain ⟨k, hk, hdepth⟩ := Option.bind_eq_some_iff.1 hn
        have hisA : h.isA k t' = true :=
          Lineage.found_iff.2 (Lineage.depth_isSome_iff.1 (by
            show (h.identityMatchDepth k t').isSome = true
            rw [hdepth]
            rfl))
        rw [hk]
        exact hisA
      · obtain ⟨k, hk, hdepth⟩ := Option.bind_eq_some_iff.1 hn
        rw [hk]
        show (h.nameMatchDepth k t).isSome = true
        rw [hdepth]
        rfl
    · exact absurd rfl hs

theorem mapM_id_eq {α : Type} {l : List (Option α)} {l' : List α} (h : l.mapM id = some l') :
    l = l'.map some := by
  induction l generalizing l' with
  | nil => cases h; rfl
  | cons a l ih =>
    simp only [List.mapM_cons, id, bind, Option.bind_eq_some_iff, pure, Option.some.injEq] at h
    obtain ⟨b, rfl, l'', hl, rfl⟩ := h
    rw [List.map_cons, ih hl]

theorem fullTypes_params {ts : List Name} (h : fullTypes m = some ts) : m.params = ts.map some := by
  unfold fullTypes at h
  split at h
  · cases h
  · exact mapM_id_eq h

theorem fits_of_types {name : Name} {args : List Argument} {ts : List Name}
    (hname : m.name = name) (hts : fullTypes m = some ts) (hlen : ts.length = args.length)
    (hall : ∀ p ∈ args.zip ts, fitsType h m p.1 p.2 = true) : Fits h name args m := by
  refine ⟨hname, (fullTypes_length hts).symm.trans hlen, ?_⟩
  intro p hp
  rw [fullTypes_params hts, List.zip_map_right] at hp
  obtain ⟨q, hq, rfl⟩ := List.mem_map.1 hp
  exact hall q hq

theorem fits_of_score {name : Name} {args : List Argument} (hs : 0 < score h name args m) :
    Fits h name args m := by
  unfold score matchTypeScore at hs
  split at hs
  · exact absurd hs (Nat.lt_irrefl 0)
  · rename_i ts hts
    split at hs
    · exact absurd hs (Nat.lt_irrefl 0)
    · rename_i hok
      rw [not_or, not_not, not_not, List.length_map] at hok
      dsimp only at hs
      split at hs
      · exact absurd hs (Nat.lt_irrefl 0)
      · rename_i hany
        apply fits_of_types hok.1 hts hok.2
        intro p hp
        apply fitsType_of_score
        intro hzero
        apply hany
        rw [List.any_eq_true]
        refine ⟨_, List.mem_map_of_mem (f := fun q : (Method → Name → Nat) × Name => q.1 m q.2)
          (a := (valueMatchesDeclaredType h p.1, p.2)) ?_, beq_iff_eq.2 hzero⟩
        rw [List.zip_map_left]
        exact List.mem_map.2 ⟨p, hp, rfl⟩

theorem zip_map_self {α β : Type} (f : α → β) (l : List α) : l.zip (l.map f) = l.map fun a => (a, f a) := by
  induction l with
  | nil => rfl
  | cons a l ih => rw [List.map_cons, List.zip_cons_cons, ih, List.map_cons]

theorem fits_of_spelled {kind : Kind} {args : List Argument}
    (hkey : typeKey m = spelled kind args) : Fits h kind.name args m := by
  unfold typeKey spelled callTypeKey at hkey
  cases args with
  | nil =>
    cases hts : fullTypes m with
    | some ts =>
      rw [hts] at hkey
      cases hkey
    | none =>
      rw [hts] at hkey
      obtain ⟨hn, hl⟩ := MethodKey.arity.inj hkey
      exact ⟨hn, hl, fun p hp => absurd hp (by simp)⟩
  | cons a args =>
    cases hts : fullTypes m with
    | none =>
      rw [hts] at hkey
      cases hkey
    | some ts =>
      rw [hts] at hkey
      obtain ⟨hn, hl⟩ := MethodKey.types.inj hkey
      apply fits_of_types hn hts
      · rw [hl, List.length_map]
      · intro p hp
        rw [hl, zip_map_self] at hp
        obtain ⟨b, -, rfl⟩ := List.mem_map.1 hp
        unfold fitsType
        rw [Bool.or_eq_true]
        exact .inl (beq_self_eq_true _)

end Fits

/-! What one class answers. -/

section Outcomes
variable {kind : Kind} {ms : List Method}

theorem Realises.exists (kind : Kind) (ms : List Method) : ∃ d, Realises kind ms d :=
  ⟨⟨ms.foldl (enter kind) [], ms.head?⟩, ms, .refl _, .refl _, rfl⟩

variable {m : Method}

theorem Realises.visited_first (kind : Kind) (hdistinct : (ms.map typeKey).Nodup) (hm : m ∈ ms) :
    ∃ d, Realises kind ms d ∧ ∃ rest, d.table = (typeKey m, m) :: rest := by
  obtain ⟨d, hd⟩ := Realises.exists kind ms
  have hmem := (hd.holding hdistinct).present m hm
  obtain ⟨order, horder, htable, hfirst⟩ := hd
  refine ⟨⟨(typeKey m, m) :: d.table.erase (typeKey m, m), d.first⟩, ?_, _, rfl⟩
  exact ⟨order, horder, (List.perm_cons_erase hmem).symm.trans htable, hfirst⟩

theorem Realises.declared_first (kind : Kind) (hm : m ∈ ms) : ∃ d, Realises kind ms d ∧ d.first = some m :=
  ⟨⟨(m :: ms.erase m).foldl (enter kind) [], some m⟩,
    ⟨m :: ms.erase m, (List.perm_cons_erase hm).symm, .refl _, rfl⟩, rfl⟩

/-- The tables hold the overloads, and the first constructor is one of them. -/
structure Held (ms : List Method) (d : Declared) : Prop where
  holding : Holding ms d.table
  first_mem : ∀ m, d.first = some m → m ∈ ms

theorem Realises.held {d : Declared} (h : Realises kind ms d) (hdistinct : (ms.map typeKey).Nodup) :
    Held ms d := by
  refine ⟨h.holding hdistinct, ?_⟩
  obtain ⟨order, horder, -, hfirst⟩ := h
  intro m hm
  rw [hfirst] at hm
  exact horder.mem_iff.1 (List.mem_of_mem_head? hm)

theorem findTypedMatch_eq (h : Hierarchy ClassId) (name : Name) (args : List Argument)
    (table : List (MethodKey × Method)) :
    findTypedMatch table name (args.map (valueMatchesDeclaredType h)) =
      bestOf (score h name args) (table.map Prod.snd) := by
  unfold findTypedMatch bestOf
  rw [List.foldl_map]
  rfl

theorem spelled_ne_name (kind : Kind) (args : List Argument) (n : Name) : spelled kind args ≠ .name n := by
  unfold spelled callTypeKey
  split <;> exact fun h => by cases h

variable {o : Overloads kind} {args : List Argument} {k : ClassId} {d : Declared}
  (hd : Holding (o.methods k) d.table)
include hd

theorem own_spelled (hm : m ∈ o.methods k) (hkey : typeKey m = spelled kind args) :
    own kind o.hierarchy args d = some m := by
  have hlookup := hd.lookup (o.distinct k) hm
  rw [hkey] at hlookup
  unfold own ownMethodTyped
  rw [show d.table.lookup (callTypeKey kind.name (args.map Argument.signatureType)) = some m from hlookup]
  rfl

theorem own_unspelled (hu : Unspelled o args k) :
    own kind o.hierarchy args d = ((bestOf (scoreOf o args) (d.table.map Prod.snd)).or
      (d.table.lookup (.arity kind.name args.length))).or (firstConstructor kind args d) := by
  have hlookup : d.table.lookup (callTypeKey kind.name (args.map Argument.signatureType)) = none :=
    hd.lookup_none (spelled_ne_name kind args) hu
  unfold own ownMethodTyped
  rw [hlookup, findTypedMatch_eq, Option.none_or, List.length_map]
  rfl

theorem own_scored (hu : Unspelled o args k) (hm : m ∈ o.methods k) (hpos : 0 < scoreOf o args m)
    (hmax : ∀ m' ∈ o.methods k, m' ≠ m → scoreOf o args m' < scoreOf o args m) :
    own kind o.hierarchy args d = some m := by
  have hvalues := fun m' => hd.mem_values (m := m')
  have hbest : bestOf (scoreOf o args) (d.table.map Prod.snd) = some m :=
    bestOf_of_unique ((hvalues m).2 hm) hpos fun m' hm' => hmax m' ((hvalues m').1 hm')
  rw [own_unspelled hd hu, hbest]
  rfl

theorem own_unscored (hu : Unspelled o args k) (h0 : Unscored o args k) :
    own kind o.hierarchy args d = (d.table.lookup (.arity kind.name args.length)).or
      (firstConstructor kind args d) := by
  have hvalues := fun m' => hd.mem_values (m := m')
  have hbest : bestOf (scoreOf o args) (d.table.map Prod.snd) = none :=
    bestOf_eq_none.2 fun m hm => h0 m ((hvalues m).1 hm)
  rw [own_unspelled hd hu, hbest, Option.none_or]

theorem own_arity (hu : Unspelled o args k) (h0 : Unscored o args k) (hm : m ∈ o.methods k)
    (hkey : typeKey m = .arity kind.name args.length) :
    own kind o.hierarchy args d = some m := by
  have hlookup := hd.lookup (o.distinct k) hm
  rw [hkey] at hlookup
  rw [own_unscored hd hu h0, hlookup]
  rfl

theorem own_untyped (hu : Unspelled o args k) (h0 : Unscored o args k) (hn : Untyped o args k) :
    own kind o.hierarchy args d = firstConstructor kind args d := by
  have hlookup : d.table.lookup (.arity kind.name args.length) = none :=
    hd.lookup_none (fun n h => by cases h) hn
  rw [own_unscored hd hu h0, hlookup, Option.none_or]

omit hd

theorem own_silent (hd : Held (o.methods k) d) (hs : Silent o args k) : own kind o.hierarchy args d = none := by
  rw [own_untyped hd.holding hs.unspelled hs.unscored hs.untyped]
  have hfirst := fun m => hd.first_mem m
  have harity := hs.arity
  cases kind with
  | method name => rfl
  | constructor =>
    show (d.first.filter fun m => m.params.length == args.length) = none
    cases hm : d.first with
    | none => rfl
    | some m =>
      have hlen := harity rfl m (hfirst m hm)
      rw [Option.filter_some, if_neg (by simpa using hlen)]

theorem own_mem (hd : Held (o.methods k) d) (hown : own kind o.hierarchy args d = some m) :
    m ∈ o.methods k := by
  have hholding := hd.holding
  have hlookup : ∀ key, d.table.lookup key = some m → m ∈ o.methods k := by
    intro key hkey
    exact (hholding.entry (key, m) (mem_of_lookup hkey)).1
  unfold own ownMethodTyped at hown
  rw [findTypedMatch_eq] at hown
  rcases Option.or_eq_some_iff.1 hown with htyped | ⟨-, hfirst⟩
  · rcases Option.or_eq_some_iff.1 htyped with hkey | ⟨-, hrest⟩
    · exact hlookup _ hkey
    · rcases Option.or_eq_some_iff.1 hrest with hbest | ⟨-, hkey⟩
      · exact hholding.mem_values.1 (bestOf_spec hbest).1
      · exact hlookup _ hkey
  · cases kind with
    | method name => cases hfirst
    | constructor => exact hd.first_mem _ (Option.filter_eq_some_iff.1 hfirst).1

end Outcomes

/-! The chain. -/

section Chain
variable {h : Hierarchy ClassId}

theorem prototypesFrom_sorted (n : Nat) : ∀ c, (∀ k ∈ prototypesFrom h n c, h.rank k ≤ h.rank c) ∧
    (prototypesFrom h n c).Pairwise fun a b => h.rank b < h.rank a := by
  induction n with
  | zero => intro c; exact ⟨nofun, .nil⟩
  | succ n ih =>
    intro c
    unfold prototypesFrom
    cases hp : h.prototype c with
    | none =>
      refine ⟨?_, List.pairwise_singleton _ _⟩
      intro k hk
      rw [List.mem_singleton.1 hk]
    | some p =>
      have hlt := h.prototype_lt c p hp
      obtain ⟨hle, hsorted⟩ := ih p
      refine ⟨?_, List.pairwise_cons.2 ⟨fun k hk => (hle k hk).trans_lt hlt, hsorted⟩⟩
      intro k hk
      rcases List.mem_cons.1 hk with rfl | hk
      · exact Nat.le_refl _
      · exact Nat.le_of_lt ((hle k hk).trans_lt hlt)

theorem not_mem_above {c : ClassId} {below above : List ClassId} {k : ClassId}
    (hsplit : prototypes h c = below ++ k :: above) : k ∉ above := by
  have hsorted := (@prototypesFrom_sorted h (h.rank c + 1) c).2
  rw [show prototypesFrom h (h.rank c + 1) c = below ++ k :: above from hsplit] at hsorted
  intro hk
  exact Nat.lt_irrefl _ ((List.pairwise_cons.1 (List.pairwise_append.1 hsorted).2.1).1 k hk)

theorem all_or_first {α : Type} (p : α → Prop) (l : List α) :
    (∀ a ∈ l, p a) ∨ ∃ below a above, l = below ++ a :: above ∧ (∀ b ∈ below, p b) ∧ ¬p a := by
  induction l with
  | nil => exact .inl nofun
  | cons a l ih =>
    by_cases ha : p a
    · rcases ih with hall | ⟨below, b, above, rfl, hbelow, hb⟩
      · exact .inl fun b hb => (List.mem_cons.1 hb).elim (fun heq => heq ▸ ha) (hall b)
      · refine .inr ⟨a :: below, b, above, rfl, ?_, hb⟩
        exact fun x hx => (List.mem_cons.1 hx).elim (fun heq => heq ▸ ha) (hbelow x)
    · exact .inr ⟨[], a, l, rfl, nofun, ha⟩

variable {kind : Kind} {declared : ClassId → Declared} {c : ClassId} {args : List Argument}

theorem lookup_nearest {below above : List ClassId} {k : ClassId} {m : Method}
    (hsplit : prototypes h c = below ++ k :: above)
    (hbelow : ∀ j ∈ below, own kind h args (declared j) = none)
    (hk : own kind h args (declared k) = some m) : lookupTyped kind h declared c args = some m := by
  have hfind : (prototypes h c).findSome? (fun k => own kind h args (declared k)) = some m := by
    rw [hsplit, List.findSome?_append, List.findSome?_eq_none_iff.2 hbelow, Option.none_or,
      List.findSome?_cons, hk]
  unfold lookupTyped
  rw [hfind]
  rfl

theorem lookup_silent (hall : ∀ k ∈ prototypes h c, own kind h args (declared k) = none) :
    lookupTyped kind h declared c args =
      topConstructor kind args ((prototypes h c).getLast?.map declared) := by
  unfold lookupTyped
  rw [List.findSome?_eq_none_iff.2 hall, Option.none_or]

theorem lookup_above {below above : List ClassId} {k : ClassId} {m : Method}
    (hsplit : prototypes h c = below ++ k :: above)
    (hbelow : ∀ j ∈ below, own kind h args (declared j) = none)
    (hk : own kind h args (declared k) = none) (hm : lookupTyped kind h declared c args = some m) :
    (∃ j ∈ above, own kind h args (declared j) = some m) ∨
      topConstructor kind args ((prototypes h c).getLast?.map declared) = some m := by
  unfold lookupTyped at hm
  rcases Option.or_eq_some_iff.1 hm with hfind | ⟨-, htop⟩
  · left
    rw [hsplit, List.findSome?_append, List.findSome?_eq_none_iff.2 hbelow, Option.none_or,
      List.findSome?_cons, hk] at hfind
    exact List.exists_of_findSome?_eq_some hfind
  · exact .inr htop

end Chain

/-! When resolution does what it should. -/

section Iff
variable {kind : Kind} {o : Overloads kind} {c : ClassId} {args : List Argument}

theorem Possible.exists (o : Overloads kind) : ∃ declared, Possible o declared := by
  choose declared hdeclared using fun k => Realises.exists kind (o.methods k)
  exact ⟨declared, hdeclared⟩

theorem Possible.held {declared : ClassId → Declared} (hp : Possible o declared) (k : ClassId) :
    Held (o.methods k) (declared k) := (hp k).held (o.distinct k)

theorem Possible.update {declared : ClassId → Declared} (hp : Possible o declared) {k : ClassId}
    {d : Declared} (hd : Realises kind (o.methods k) d) : Possible o (Function.update declared k d) := by
  intro j
  by_cases hj : j = k
  · rw [hj, Function.update_self]
    exact hd
  · rw [Function.update_of_ne hj]
    exact hp j

theorem eq_singleton {α : Type} {l : List α} {a : α} (hn : l.Nodup) (ha : a ∈ l)
    (h : ∀ b ∈ l, b = a) : l = [a] := by
  apply List.perm_singleton.1
  rw [List.perm_ext_iff_of_nodup hn (List.nodup_singleton a)]
  intro b
  rw [List.mem_singleton]
  exact ⟨h b, fun hb => hb ▸ ha⟩

theorem exists_best {k : ClassId} (h : ¬Unscored o args k) :
    ∃ m ∈ o.methods k, 0 < scoreOf o args m ∧ ∀ m' ∈ o.methods k, scoreOf o args m' ≤ scoreOf o args m := by
  cases hb : bestOf (scoreOf o args) (o.methods k) with
  | none => exact absurd (bestOf_eq_none.1 hb) h
  | some m => exact ⟨m, bestOf_spec hb⟩

theorem Decides.answer {k : ClassId} (hdec : Decides o args k) (hns : ¬Silent o args k) :
    ∃ m ∈ o.methods k, Fits o.hierarchy kind.name args m ∧ Unrivalled o args k m ∧
      ∀ d, Realises kind (o.methods k) d → own kind o.hierarchy args d = some m := by
  by_cases hu : Unspelled o args k
  · by_cases h0 : Unscored o args k
    · by_cases hn : Untyped o args k
      · have harity : ¬(kind = .constructor → ∀ m ∈ o.methods k, m.params.length ≠ args.length) :=
          fun harity => hns ⟨hu, h0, hn, harity⟩
        push Not at harity
        obtain ⟨hkind, m, hm, hlen⟩ := harity
        obtain ⟨honly, hfits⟩ := hdec.first hkind hu h0 hn m hm hlen
        refine ⟨m, hm, hfits, ?_, ?_⟩
        · intro m' hm' hne
          rw [honly] at hm'
          exact absurd (List.mem_singleton.1 hm') hne
        · intro d hd
          rw [own_untyped (hd.holding (o.distinct k)) hu h0 hn]
          obtain ⟨order, horder, -, hfirst⟩ := hd
          rw [honly] at horder
          rw [List.perm_singleton.1 horder] at hfirst
          subst hkind
          show (d.first.filter fun m => m.params.length == args.length) = some m
          rw [hfirst]
          show Option.filter _ (some m) = some m
          rw [Option.filter_some, if_pos (beq_iff_eq.2 hlen)]
      · unfold Untyped at hn
        push Not at hn
        obtain ⟨m, hm, hkey⟩ := hn
        obtain ⟨hfits, hun⟩ := hdec.arity hu h0 m hm hkey
        exact ⟨m, hm, hfits, hun, fun d hd => own_arity (hd.holding (o.distinct k)) hu h0 hm hkey⟩
    · obtain ⟨m, hm, hmax, hun⟩ := hdec.scores hu h0
      obtain ⟨b, hb, hpos, -⟩ := exists_best h0
      have hm0 : 0 < scoreOf o args m := by
        by_cases hbm : b = m
        · rw [← hbm]
          exact hpos
        · exact hpos.trans (hmax b hb hbm)
      exact ⟨m, hm, fits_of_score hm0, hun, fun d hd => own_scored (hd.holding (o.distinct k)) hu hm hm0 hmax⟩
  · unfold Unspelled at hu
    push Not at hu
    obtain ⟨m, hm, hkey⟩ := hu
    exact ⟨m, hm, fits_of_spelled hkey, hdec.spells m hm hkey, fun d hd => own_spelled (hd.holding (o.distinct k)) hm hkey⟩

theorem topConstructor_silent {declared : ClassId → Declared} (hp : Possible o declared)
    (htop : kind = .constructor → args = [] → ∀ k, (prototypes o.hierarchy c).getLast? = some k →
      o.methods k = []) :
    topConstructor kind args ((prototypes o.hierarchy c).getLast?.map declared) = none := by
  cases kind with
  | method name => rfl
  | constructor =>
    cases args with
    | cons a args => rfl
    | nil =>
      cases hlast : (prototypes o.hierarchy c).getLast? with
      | none => rfl
      | some k =>
        show (declared k).first = none
        obtain ⟨order, horder, -, hfirst⟩ := hp k
        rw [htop rfl rfl k hlast] at horder
        rw [hfirst, List.perm_nil.1 horder]
        rfl

theorem Settled.answer (hs : Settled o c args) :
    (∃ k m, m ∈ o.methods k ∧ Fits o.hierarchy kind.name args m ∧ Unrivalled o args k m ∧
      ∀ declared, Possible o declared → lookupTyped kind o.hierarchy declared c args = some m) ∨
    ((∀ k ∈ prototypes o.hierarchy c, ∀ m ∈ o.methods k, ¬Fits o.hierarchy kind.name args m) ∧
      ∀ declared, Possible o declared → lookupTyped kind o.hierarchy declared c args = none) := by
  rcases all_or_first (Silent o args) (prototypes o.hierarchy c) with hall | ⟨below, k, above, hsplit, hbelow, hk⟩
  · refine .inr ⟨hs.silent hall, fun declared hp => ?_⟩
    rw [lookup_silent fun k hk => own_silent (hp.held k) (hall k hk)]
    exact topConstructor_silent hp fun hkind hargs => hs.top hkind hargs hall
  · obtain ⟨m, hm, hfits, hun, hown⟩ := (hs.nearest below k above hsplit hbelow hk).answer hk
    refine .inl ⟨k, m, hm, hfits, hun, fun declared hp => ?_⟩
    exact lookup_nearest hsplit (fun j hj => own_silent (hp.held j) (hbelow j hj)) (hown _ (hp k))

theorem Settled.best (hs : Settled o c args) : Best o c args := by
  rcases hs.answer with ⟨k, m, hm, hfits, hun, hlookup⟩ | ⟨hnone, hlookup⟩
  · refine ⟨?_, ?_, ?_, ?_⟩
    · intro declared hp _
      rw [hlookup declared hp]
      rfl
    · intro declared hp m' hm'
      rw [hlookup declared hp] at hm'
      cases hm'
      exact hfits
    · intro declared hp m' hm'
      rw [hlookup declared hp] at hm'
      cases hm'
      rw [o.owner k m hm]
      exact hun
    · intro declared declared' hp hp'
      rw [hlookup declared hp, hlookup declared' hp']
  · refine ⟨?_, ?_, ?_, ?_⟩
    · rintro declared hp ⟨k, hk, m, hm, hfits⟩
      exact absurd hfits (hnone k hk m hm)
    · intro declared hp m hm
      rw [hlookup declared hp] at hm
      cases hm
    · intro declared hp m hm
      rw [hlookup declared hp] at hm
      cases hm
    · intro declared declared' hp hp'
      rw [hlookup declared hp, hlookup declared' hp']

theorem possible_at {k : ClassId} {d : Declared} (hd : Realises kind (o.methods k) d) :
    ∃ declared, Possible o declared ∧ declared k = d := by
  obtain ⟨declared, hp⟩ := Possible.exists o
  exact ⟨_, hp.update hd, Function.update_self ..⟩

section Nearest
variable (hb : Best o c args) {below above : List ClassId} {k : ClassId}
  (hsplit : prototypes o.hierarchy c = below ++ k :: above)
  (hbelow : ∀ j ∈ below, Silent o args j)
include hb hsplit hbelow

theorem Best.unrivalled {d : Declared} (hd : Realises kind (o.methods k) d) {m : Method}
    (hown : own kind o.hierarchy args d = some m) :
    Fits o.hierarchy kind.name args m ∧ Unrivalled o args k m := by
  obtain ⟨declared, hp, hk⟩ := possible_at hd
  have hlookup : lookupTyped kind o.hierarchy declared c args = some m :=
    lookup_nearest hsplit (fun j hj => own_silent (hp.held j) (hbelow j hj)) (hk ▸ hown)
  refine ⟨hb.applicable declared hp m hlookup, ?_⟩
  have hspecific := hb.specific declared hp m hlookup
  rw [o.owner k m (own_mem (hd.held (o.distinct k)) hown)] at hspecific
  exact hspecific

theorem Best.same {d d' : Declared} (hd : Realises kind (o.methods k) d)
    (hd' : Realises kind (o.methods k) d') {m m' : Method}
    (hown : own kind o.hierarchy args d = some m) (hown' : own kind o.hierarchy args d' = some m') :
    m = m' := by
  obtain ⟨declared, hp, hk⟩ := possible_at hd
  obtain ⟨declared', hp', hk'⟩ := possible_at hd'
  have hfree := hb.orderFree declared declared' hp hp'
  rw [lookup_nearest hsplit (fun j hj => own_silent (hp.held j) (hbelow j hj)) (hk ▸ hown),
    lookup_nearest hsplit (fun j hj => own_silent (hp'.held j) (hbelow j hj)) (hk' ▸ hown')] at hfree
  exact Option.some.inj hfree

theorem Best.always (hargs : args ≠ []) {d d' : Declared} (hd : Realises kind (o.methods k) d)
    (hd' : Realises kind (o.methods k) d') {m : Method}
    (hown : own kind o.hierarchy args d = some m) : own kind o.hierarchy args d' = some m := by
  obtain ⟨declared, hp, hk⟩ := possible_at hd
  obtain ⟨declared', hp', hk'⟩ := possible_at hd'
  have hlookup : lookupTyped kind o.hierarchy declared' c args = some m := by
    rw [← hb.orderFree declared declared' hp hp']
    exact lookup_nearest hsplit (fun j hj => own_silent (hp.held j) (hbelow j hj)) (hk ▸ hown)
  cases hnone : own kind o.hierarchy args d' with
  | some m' => rw [hb.same hsplit hbelow hd hd' hown hnone]
  | none =>
    rcases lookup_above hsplit (fun j hj => own_silent (hp'.held j) (hbelow j hj)) (hk' ▸ hnone) hlookup
      with ⟨j, hj, hown'⟩ | htop
    · -- the owner of the overload tells the classes apart
      have hjk : j = k := (o.owner j m (own_mem (hp'.held j) hown')).symm.trans (o.owner k m (own_mem (hd.held (o.distinct k)) hown))
      exact absurd (hjk ▸ hj) (not_mem_above hsplit)
    · unfold topConstructor at htop
      split at htop
      · exact absurd rfl hargs
      · cases htop

theorem Best.decides : Decides o args k := by
  refine ⟨?_, ?_, ?_, ?_⟩
  · intro m hm hkey
    obtain ⟨d, hd⟩ := Realises.exists kind (o.methods k)
    exact (hb.unrivalled hsplit hbelow hd (own_spelled (hd.holding (o.distinct k)) hm hkey)).2
  · intro hu h0
    obtain ⟨m, hm, hpos, hmax⟩ := exists_best h0
    -- visited first, any best overload is the answer
    have hfirst : ∀ m ∈ o.methods k, 0 < scoreOf o args m →
        (∀ m' ∈ o.methods k, scoreOf o args m' ≤ scoreOf o args m) →
          ∃ d, Realises kind (o.methods k) d ∧ own kind o.hierarchy args d = some m := by
      intro m hm hpos hmax
      obtain ⟨d, hd, rest, htable⟩ := Realises.visited_first kind (o.distinct k) hm
      have hvalues := fun m' => (hd.holding (o.distinct k)).mem_values (m := m')
      refine ⟨d, hd, ?_⟩
      have hbest : bestOf (scoreOf o args) (d.table.map Prod.snd) = some m := by
        rw [htable] at hvalues ⊢
        exact bestOf_cons hpos fun m' hm' => hmax m' ((hvalues m').1 (List.mem_cons_of_mem _ hm'))
      rw [own_unspelled (hd.holding (o.distinct k)) hu, hbest]
      rfl
    obtain ⟨d, hd, hown⟩ := hfirst m hm hpos hmax
    refine ⟨m, hm, ?_, (hb.unrivalled hsplit hbelow hd hown).2⟩
    intro m' hm' hne
    apply lt_of_le_of_ne (hmax m' hm')
    intro heq
    obtain ⟨d', hd', hown'⟩ := hfirst m' hm' (heq ▸ hpos) (heq ▸ hmax)
    exact hne (hb.same hsplit hbelow hd' hd hown' hown)
  · intro hu h0 m hm hkey
    obtain ⟨d, hd⟩ := Realises.exists kind (o.methods k)
    exact hb.unrivalled hsplit hbelow hd (own_arity (hd.holding (o.distinct k)) hu h0 hm hkey)
  · intro hkind hu h0 hn m hm hlen
    subst hkind
    have hown : ∀ d, Realises .constructor (o.methods k) d → ∀ m, d.first = some m →
        own .constructor o.hierarchy args d = if m.params.length == args.length then some m else none := by
      intro d hd m hfirst
      rw [own_untyped (hd.holding (o.distinct k)) hu h0 hn]
      show (d.first.filter fun m => m.params.length == args.length) = _
      rw [hfirst, Option.filter_some]
    obtain ⟨d, hd, hfirst⟩ := Realises.declared_first .constructor hm
    have hanswer := hown d hd m hfirst
    rw [if_pos (beq_iff_eq.2 hlen)] at hanswer
    refine ⟨?_, (hb.unrivalled hsplit hbelow hd hanswer).1⟩
    -- a constructor without parameters has no types
    have hargs : args ≠ [] := by
      rintro rfl
      apply hn m hm
      have hnone : fullTypes m = none := by
        unfold fullTypes
        rw [List.length_eq_zero_iff.1 hlen]
        rfl
      unfold typeKey
      rw [hnone, o.named rfl k m hm, hlen]
      rfl
    have hsame : ∀ m' ∈ o.methods k, m' = m := by
      intro m' hm'
      obtain ⟨d', hd', hfirst'⟩ := Realises.declared_first .constructor hm'
      have hanswer' := hb.always hsplit hbelow hargs hd hd' hanswer
      rw [hown d' hd' m' hfirst'] at hanswer'
      split at hanswer'
      · exact Option.some.inj hanswer'
      · cases hanswer'
    exact eq_singleton (o.distinct k).of_map hm hsame

end Nearest

theorem Best.settled (hb : Best o c args) : Settled o c args where
  nearest below k above hsplit hbelow _ := hb.decides hsplit hbelow
  silent hall := by
    rintro k hk m hm hfits
    obtain ⟨declared, hp⟩ := Possible.exists o
    have hsome := hb.complete declared hp ⟨k, hk, m, hm, hfits⟩
    rw [lookup_silent fun k hk => own_silent (hp.held k) (hall k hk)] at hsome
    unfold topConstructor at hsome
    split at hsome
    · exact (hall k hk).arity rfl m hm hfits.2.1
    · cases hsome
  top hkind hargs hall k hlast := by
    subst hkind hargs
    by_contra hne
    obtain ⟨m, hm⟩ := List.exists_mem_of_ne_nil _ hne
    obtain ⟨declared, hp⟩ := Possible.exists o
    obtain ⟨order, horder, -, hfirst⟩ := hp k
    have hmem : k ∈ prototypes o.hierarchy c := List.mem_of_getLast? hlast
    cases hhead : order.head? with
    | none =>
      rw [List.head?_eq_none_iff.1 hhead] at horder
      exact hne horder.nil_eq.symm
    | some m =>
      have hlookup : lookupTyped .constructor o.hierarchy declared c [] = some m := by
        rw [lookup_silent fun k hk => own_silent (hp.held k) (hall k hk), hlast]
        show (declared k).first = some m
        rw [hfirst, hhead]
      have hfits := hb.applicable declared hp m hlookup
      exact (hall k hmem).arity rfl m (horder.mem_iff.1 (List.mem_of_mem_head? hhead)) hfits.2.1

end Iff

/-! A nearer interface. -/

section Nearer

/-- `interface I`, `class T implements I`, `class P extends T`, `class K extends P implements I`
and `class S`. -/
def nearer : Hierarchy ClassId where
  name
    | 0 => "I"
    | 1 => "T"
    | 2 => "P"
    | 3 => "K"
    | _ => "S"
  typeId c := c + 1
  prototype
    | 2 => some 1
    | 3 => some 2
    | _ => none
  interfaces
    | 1 => [0]
    | 3 => [0]
    | _ => []
  rank c := c
  prototype_lt := by
    rintro (_ | _ | _ | _ | c) p hp <;> cases hp <;> decide
  interfaces_lt := by
    rintro (_ | _ | _ | _ | c) i hi
    · cases hi
    · rw [List.mem_singleton.1 hi]
      decide
    · cases hi
    · rw [List.mem_singleton.1 hi]
      decide
    · cases hi

/-- `f(x: I)` or `f(x: T)` of the class `S`. -/
def takes (type : Name) : Method :=
  { name := "f", params := [some type], owner := 4, closure := [("I", 0), ("T", 1)] }

def nearerOverloads : Overloads (.method "f") where
  hierarchy := nearer
  methods k := if k = 4 then [takes "I", takes "T"] else []
  distinct k := by
    split
    · decide
    · exact .nil
  owner k m hm := by
    split at hm
    · rename_i hk
      rw [hk]
      rcases List.mem_cons.1 hm with rfl | hm
      · rfl
      · rw [List.mem_singleton.1 hm]
        rfl
    · cases hm
  named h := by cases h

def nearerTables (k : ClassId) : Declared :=
  ⟨(nearerOverloads.methods k).foldl (enter (.method "f")) [], (nearerOverloads.methods k).head?⟩

end Nearer

end TurboScript.Oop.Resolve
