import TurboScript.Oop.Resolve
import Mathlib.Data.List.Induction

/- Class clones (`exprtk_class_clone_to_arena`).

   A clone is built by the operations that build a class: the methods and constructors of the
   tables are added one by one in the order in which the tables are visited, then the abstract
   methods and the fields of the layout. It has the type id of its original, and its prototype
   and interfaces are clones too; the subtype functions tell classes apart by their type ids, so
   that here a class and its clone are one class with two records. -/
namespace TurboScript.Oop.Clone
open Lib
open Oop.Resolve
open Exprtk (Name ClassId AccessLevel)

/-! Records. -/

structure Record (V : Type) where
  methods : Bool → List (MethodKey × Method)
  constructors : List (MethodKey × Method)
  constructor : Option Method
  abstractMethods : List (RequirementKey × Method)
  instanceFields : List (FieldDecl V)
  staticFields : List (StaticField V)
  isAbstract : Bool
  isInterface : Bool
  isFinal : Bool

section Cloning
variable {V : Type}

/-- `class_clone_methods` and `class_clone_constructors`. -/
def cloneTable (kind : Kind) (visited : List (MethodKey × Method)) : List (MethodKey × Method) :=
  ((visited.filter entryIsFor).map Prod.snd).foldl (enter kind) []

/-- `class_clone_abstract_methods`; `satisfies` is `method_signatures_exactly_match`. -/
def cloneAbstract (satisfies : Method → Method → Bool) (methods : Bool → List (MethodKey × Method))
    (visited : List (RequirementKey × Method)) : List (RequirementKey × Method) :=
  visited.foldl (fun table e =>
    if (methods e.2.isStatic).any fun x => entryIsFor x && satisfies e.2 x.2 then table
    else if table.any fun x => x.1 == e.1 then table
    else table ++ [e]) []

/-- The layout, appended with `update_existing`. -/
def cloneFields (layout : List (FieldDecl V)) : List (FieldDecl V) := layout.foldl declareField []

/-- `exprtk_class_clone_to_arena`. The order in which a table is visited is that of its hash
map; the static fields are not visited. -/
structure IsClone (satisfies : Method → Method → Bool) (r r' : Record V) : Prop where
  methods : ∀ isStatic, ∃ visited, visited.Perm (r.methods isStatic) ∧
    (r'.methods isStatic).Perm (cloneTable (.method "") visited)
  constructors : ∃ visited, visited.Perm r.constructors ∧
    r'.constructors.Perm (cloneTable .constructor visited)
  constructor : r'.constructor = r.constructor
  abstractMethods : ∃ visited, visited.Perm r.abstractMethods ∧
    r'.abstractMethods.Perm (cloneAbstract satisfies r'.methods visited)
  instanceFields : r'.instanceFields = cloneFields r.instanceFields
  staticFields : r'.staticFields = []
  isAbstract : r'.isAbstract = r.isAbstract
  isInterface : r'.isInterface = r.isInterface
  isFinal : r'.isFinal = r.isFinal

/-! Queries. -/

section Queries
variable (h : Hierarchy ClassId) (r : ClassId → Record V) (c : ClassId)

/-- `exprtk_class_lookup_method`. -/
def methodByName (name : Name) (isStatic : Bool) : Option Method :=
  (prototypes h c).findSome? fun k => ((r k).methods isStatic).lookup (.name name)

/-- `exprtk_class_lookup_method_arity`. -/
def methodByArity (name : Name) (isStatic : Bool) (argc : Nat) : Option Method :=
  (prototypes h c).findSome? fun k => ((r k).methods isStatic).lookup (.arity name argc)

/-- `exprtk_class_lookup_method_typed`. -/
def methodTyped (name : Name) (isStatic : Bool) (args : List Argument) : Option Method :=
  Resolve.lookupMethodTyped h (fun k => ⟨(r k).methods isStatic, none⟩) c name args

/-- `exprtk_class_lookup_constructor_typed`. -/
def constructorTyped (args : List Argument) : Option Method :=
  lookupConstructorTyped h (fun k => ⟨(r k).constructors, (r k).constructor⟩) c args

/-- The entry of a field in the layout after `class_sync_prototype_instance_fields`: its type,
its access level and its default. -/
def instanceField (name : Name) : Option (FieldDecl V) :=
  ((((prototypes h c).tail.reverse.flatMap fun k => (r k).instanceFields).foldl appendField
    (r c).instanceFields)).find? fun d => d.name == name

/-- The entry of a static field: `exprtk_class_get_static_field` and the queries beside it. -/
def staticField (name : Name) : Option (StaticField V) :=
  (prototypes h c).findSome? fun k => (r k).staticFields.find? fun e => e.name == name

end Queries

structure SameAnswers (h : Hierarchy ClassId) (r r' : ClassId → Record V) (c : ClassId) : Prop where
  byName : ∀ name isStatic, methodByName h r' c name isStatic = methodByName h r c name isStatic
  byArity : ∀ name isStatic argc,
    methodByArity h r' c name isStatic argc = methodByArity h r c name isStatic argc
  typed : ∀ name isStatic args, methodTyped h r' c name isStatic args = methodTyped h r c name isStatic args
  constructor : ∀ args, constructorTyped h r' c args = constructorTyped h r c args
  field : ∀ name, instanceField h r' c name = instanceField h r c name
  static : ∀ name, staticField h r' c name = staticField h r c name
  abstract : (r' c).abstractMethods.Perm (r c).abstractMethods
  flags : (r' c).isAbstract = (r c).isAbstract ∧ (r' c).isInterface = (r c).isInterface ∧
    (r' c).isFinal = (r c).isFinal

/-- Classes as definitions build them: whatever is added in whatever order, the last method of
each key is entered (`entered_of_additions`). -/
structure Built (V : Type) (satisfies : Method → Method → Bool) where
  hierarchy : Hierarchy ClassId
  records : ClassId → Record V
  methods : Bool → ClassId → List Method
  constructors : ClassId → List Method
  distinct : ∀ isStatic k, ((methods isStatic k).map typeKey).Nodup
  owner : ∀ isStatic k, ∀ m ∈ methods isStatic k, m.owner = k
  entered : ∀ isStatic k, ∃ order : List Method, order.Perm (methods isStatic k) ∧
    ((records k).methods isStatic).Perm (order.foldl enterMethod [])
  constructors_distinct : ∀ k, ((constructors k).map typeKey).Nodup
  constructors_owner : ∀ k, ∀ m ∈ constructors k, m.owner = k
  constructors_named : ∀ k, ∀ m ∈ constructors k, m.name = "constructor"
  constructors_entered : ∀ k, ∃ order : List Method, order.Perm (constructors k) ∧
    (records k).constructors.Perm (order.foldl (enter .constructor) [])
  abstract_distinct : ∀ k, ((records k).abstractMethods.map Prod.fst).Nodup
  abstract_open : ∀ k, ∀ e ∈ (records k).abstractMethods, ∀ x ∈ (records k).methods e.2.isStatic,
    (entryIsFor x && satisfies e.2 x.2) = false
  fields_distinct : ∀ k, ((records k).instanceFields.map FieldDecl.name).Nodup

section Conditions
variable {satisfies : Method → Method → Bool} (b : Built V satisfies) (c : ClassId)

/-- The methods of one kind, asked for one name. -/
def Built.overloads (name : Name) (isStatic : Bool) : Overloads (.method name) where
  hierarchy := b.hierarchy
  methods := b.methods isStatic
  distinct := b.distinct isStatic
  owner := b.owner isStatic
  named h := by cases h

def Built.constructorOverloads : Overloads .constructor where
  hierarchy := b.hierarchy
  methods := b.constructors
  distinct := b.constructors_distinct
  owner := b.constructors_owner
  named _ := b.constructors_named

section Ties
variable {kind : Kind} (o : Overloads kind) (first : ClassId → Option Method) (args : List Argument)

structure Passes (k : ClassId) : Prop where
  unspelled : Unspelled o args k
  unscored : Unscored o args k
  untyped : Untyped o args k
  first : kind = .constructor → ∀ m, first k = some m → m.params.length ≠ args.length

/-- In the nearest class with an answer, two overloads do not share the highest score, unless
one spells the types of the arguments. -/
def NoTie : Prop :=
  ∀ below k above, prototypes o.hierarchy c = below ++ k :: above → (∀ j ∈ below, Passes o first args j) →
    Unspelled o args k → ∀ m ∈ o.methods k, ∀ m' ∈ o.methods k, 0 < scoreOf o args m →
      (∀ x ∈ o.methods k, scoreOf o args x ≤ scoreOf o args m) →
        scoreOf o args m' = scoreOf o args m → m' = m

end Ties

/-- The nearest class with methods of a name has only one. -/
def OneOfName (isStatic : Bool) : Prop :=
  ∀ below k above, prototypes b.hierarchy c = below ++ k :: above →
    ∀ m ∈ b.methods isStatic k, ∀ m' ∈ b.methods isStatic k, m'.name = m.name →
      (∀ j ∈ below, ∀ x ∈ b.methods isStatic j, x.name ≠ m.name) → m' = m

/-- No class of the chain has static fields, no name is overloaded where it is looked up by
name, and no arguments fit two overloads equally well. -/
structure Cloneable : Prop where
  statics : ∀ k ∈ prototypes b.hierarchy c, (b.records k).staticFields = []
  names : ∀ isStatic, OneOfName b c isStatic
  ties : ∀ name isStatic args, NoTie c (b.overloads name isStatic) (fun _ => none) args
  constructor_ties : ∀ args,
    NoTie c b.constructorOverloads (fun k => (b.records k).constructor) args

end Conditions

/-! What is in a cloned table. -/

section Tables
variable {ms : List Method} {table table' : List (MethodKey × Method)}

theorem entryIsFor_of_key {e : MethodKey × Method} (h : e.1 = typeKey e.2 ∨ e.1 = .name e.2.name) :
    entryIsFor e = true := by
  unfold entryIsFor
  rw [methodKeys_eq, Bool.or_eq_true]
  left
  rcases h with h | h <;> simp [h]

theorem visited_values (h : Holding ms table) {visited : List (MethodKey × Method)}
    (hv : visited.Perm table) :
    visited.filter entryIsFor = visited ∧ ∀ m, m ∈ visited.map Prod.snd ↔ m ∈ ms := by
  refine ⟨?_, ?_⟩
  · rw [List.filter_eq_self]
    intro e he
    exact entryIsFor_of_key (h.entry e (hv.mem_iff.1 he)).2
  · intro m
    rw [← h.mem_values]
    exact (hv.map Prod.snd).mem_iff

theorem cloneTable_holding (kind : Kind) (h : Holding ms table) (hapart : KeysApart ms)
    {visited : List (MethodKey × Method)} (hv : visited.Perm table)
    (ht : table'.Perm (cloneTable kind visited)) : Holding ms table' := by
  obtain ⟨hfilter, hmem⟩ := visited_values h hv
  have hapart' : KeysApart (visited.map Prod.snd) :=
    fun m hm m' hm' => hapart m ((hmem m).1 hm) m' ((hmem m').1 hm')
  have hfold := @foldl_enter_holding kind _ hapart'
  unfold cloneTable at ht
  rw [hfilter] at ht
  exact hfold.congr (fun m => (hmem m).symm) fun e => ht.mem_iff

theorem holding_lookup_same (h : Holding ms table) (h' : Holding ms table')
    (hdistinct : (ms.map typeKey).Nodup) {key : MethodKey} (hname : ∀ n, key ≠ .name n) :
    table'.lookup key = table.lookup key := by
  by_cases hkey : ∃ m ∈ ms, typeKey m = key
  · obtain ⟨m, hm, rfl⟩ := hkey
    rw [h.lookup hdistinct hm, h'.lookup hdistinct hm]
  · have hne : ∀ m ∈ ms, typeKey m ≠ key := fun m hm heq => hkey ⟨m, hm, heq⟩
    rw [h.lookup_none hname hne, h'.lookup_none hname hne]

/-- The table has an entry for every name. -/
def Named (ms : List Method) (table : List (MethodKey × Method)) : Prop :=
  ∀ m ∈ ms, ∃ m', (MethodKey.name m.name, m') ∈ table

theorem foldl_named (ms : List Method) : Named ms (ms.foldl enterMethod []) := by
  intro m hm
  have hkey : (methodKeys m.name m).contains (.name m.name) = true := by
    rw [methodKeys_eq]
    simp
  obtain ⟨m', hlast⟩ :=
    lastOf_isSome (p := fun m' => (methodKeys m'.name m').contains (.name m.name)) hm hkey
  have hlookup := lookup_enterAll ms (.name m.name) []
  rw [hlast, Option.some_or] at hlookup
  exact ⟨m', mem_of_lookup hlookup⟩

theorem holding_lookup_name (h : Holding ms table) (hn : Named ms table) {m : Method} (hm : m ∈ ms)
    (halone : ∀ m' ∈ ms, m'.name = m.name → m' = m) : table.lookup (.name m.name) = some m := by
  obtain ⟨m₀, hm₀⟩ := hn m hm
  have hsome : (table.lookup (.name m.name)).isSome = true :=
    List.lookup_isSome_iff.2 ⟨_, hm₀, beq_self_eq_true _⟩
  obtain ⟨m', hm'⟩ := Option.isSome_iff_exists.1 hsome
  obtain ⟨hin, hkey | hkey⟩ := h.entry _ (mem_of_lookup hm')
  · exact absurd hkey.symm (typeKey_ne_name m' m.name)
  · rw [hm', halone m' hin (MethodKey.name.inj hkey).symm]

theorem holding_lookup_name_none (h : Holding ms table) {n : Name} (hn : ∀ m ∈ ms, m.name ≠ n) :
    table.lookup (.name n) = none := by
  rw [List.lookup_eq_none_iff]
  intro e he
  rw [bne_iff_ne]
  intro hkey
  obtain ⟨hin, htype | hname⟩ := h.entry e he
  · exact absurd (htype.symm.trans hkey.symm) (typeKey_ne_name e.2 n)
  · exact hn e.2 hin (MethodKey.name.inj (hname.symm.trans hkey.symm))

theorem lookup_cloneTable_name {rest : List (MethodKey × Method)} {m : Method} :
    (cloneTable (.method "") (rest ++ [(typeKey m, m)])).lookup (.name m.name) = some m := by
  have hfor : entryIsFor (typeKey m, m) = true := entryIsFor_of_key (.inl rfl)
  unfold cloneTable
  rw [List.filter_append, List.filter_cons_of_pos hfor, List.filter_nil, List.map_append,
    List.map_singleton]
  show (((rest.filter entryIsFor).map Prod.snd ++ [m]).foldl enterMethod []).lookup _ = _
  rw [lookup_enterAll, lastOf_append, if_pos, Option.some_or]
  rw [methodKeys_eq]
  simp

end Tables

/-! Fields and abstract methods. -/

section Rest

theorem foldl_declareField (ds : List (FieldDecl V)) : ∀ layout : List (FieldDecl V),
    ((layout ++ ds).map FieldDecl.name).Nodup → ds.foldl declareField layout = layout ++ ds := by
  induction ds with
  | nil => intro layout _; exact (List.append_nil layout).symm
  | cons d ds ih =>
    intro layout hnodup
    have hnew : (layout.any fun e => e.name == d.name) = false := by
      rw [List.any_eq_false]
      intro e he heq
      rw [List.map_append] at hnodup
      exact (List.nodup_append.1 hnodup).2.2 _ (List.mem_map_of_mem he) _ (by simp) (eq_of_beq heq)
    have hstep : declareField layout d = layout ++ [d] := by
      unfold declareField
      rw [hnew]
      rfl
    have hsplit : layout ++ d :: ds = (layout ++ [d]) ++ ds := by simp
    rw [List.foldl_cons, hstep, hsplit]
    exact ih _ (hsplit ▸ hnodup)

theorem cloneFields_eq {layout : List (FieldDecl V)} (h : (layout.map FieldDecl.name).Nodup) :
    cloneFields layout = layout :=
  foldl_declareField layout [] h

theorem cloneAbstract_eq {satisfies : Method → Method → Bool}
    {methods : Bool → List (MethodKey × Method)} {visited : List (RequirementKey × Method)}
    (hkeys : (visited.map Prod.fst).Nodup)
    (hopen : ∀ e ∈ visited, ((methods e.2.isStatic).any fun x => entryIsFor x && satisfies e.2 x.2) = false) :
    cloneAbstract satisfies methods visited = visited := by
  have hfold : ∀ (visited table : List (RequirementKey × Method)), ((table ++ visited).map Prod.fst).Nodup →
      (∀ e ∈ visited, ((methods e.2.isStatic).any fun x => entryIsFor x && satisfies e.2 x.2) = false) →
      visited.foldl (fun table e =>
        if (methods e.2.isStatic).any fun x => entryIsFor x && satisfies e.2 x.2 then table
        else if table.any fun x => x.1 == e.1 then table
        else table ++ [e]) table = table ++ visited := by
    intro visited
    induction visited with
    | nil => intro table _ _; exact (List.append_nil table).symm
    | cons e visited ih =>
      intro table hnodup hopen
      have hnew : (table.any fun x => x.1 == e.1) = false := by
        rw [List.any_eq_false]
        intro x hx heq
        rw [List.map_append] at hnodup
        exact (List.nodup_append.1 hnodup).2.2 _ (List.mem_map_of_mem hx) _ (by simp) (eq_of_beq heq)
      have hsplit : table ++ e :: visited = (table ++ [e]) ++ visited := by simp
      rw [List.foldl_cons, hopen e List.mem_cons_self, hnew, hsplit]
      exact ih _ (hsplit ▸ hnodup) fun x hx => hopen x (List.mem_cons_of_mem e hx)
  exact hfold visited [] hkeys hopen

end Rest

/-! Answers. -/

section Answers
variable {kind : Kind} {o : Overloads kind} {first : ClassId → Option Method} {args : List Argument}
  {k : ClassId} {d d' : Declared}

theorem own_passes (hd : Holding (o.methods k) d.table) (hf : d.first = first k) (hp : Passes o first args k) :
    own kind o.hierarchy args d = none := by
  rw [own_untyped hd hp.unspelled hp.unscored hp.untyped]
  have hfirst := hp.first
  rw [← hf] at hfirst
  cases kind with
  | method name => rfl
  | constructor =>
    show (d.first.filter fun m => m.params.length == args.length) = none
    cases hm : d.first with
    | none => rfl
    | some m =>
      have hlen := hfirst rfl m hm
      rw [Option.filter_some, if_neg (by simpa using hlen)]

theorem own_same (hd : Holding (o.methods k) d.table) (hd' : Holding (o.methods k) d'.table) (hf : d'.first = d.first)
    (htie : Unspelled o args k → ∀ m ∈ o.methods k, ∀ m' ∈ o.methods k, 0 < scoreOf o args m →
      (∀ x ∈ o.methods k, scoreOf o args x ≤ scoreOf o args m) →
        scoreOf o args m' = scoreOf o args m → m' = m) :
    own kind o.hierarchy args d' = own kind o.hierarchy args d := by
  by_cases hu : Unspelled o args k
  · by_cases h0 : Unscored o args k
    · have hfirst : firstConstructor kind args d' = firstConstructor kind args d := by
        unfold firstConstructor
        cases kind with
        | method name => rfl
        | constructor =>
          show (d'.first.filter fun m => m.params.length == args.length) = d.first.filter _
          rw [hf]
      rw [own_unscored hd hu h0, own_unscored hd' hu h0, hfirst,
        holding_lookup_same hd hd' (o.distinct k) fun n h => by cases h]
    · obtain ⟨m, hm, hpos, hmax⟩ := exists_best h0
      have hless : ∀ m' ∈ o.methods k, m' ≠ m → scoreOf o args m' < scoreOf o args m := by
        intro m' hm' hne
        exact lt_of_le_of_ne (hmax m' hm') fun heq => hne (htie hu m hm m' hm' hpos hmax heq)
      rw [own_scored hd hu hm hpos hless, own_scored hd' hu hm hpos hless]
  · unfold Unspelled at hu
    push Not at hu
    obtain ⟨m, hm, hkey⟩ := hu
    rw [own_spelled hd hm hkey, own_spelled hd' hm hkey]

theorem Passes.of_own (hd : Holding (o.methods k) d.table) (hf : d.first = first k)
    (hown : own kind o.hierarchy args d = none) : Passes o first args k := by
  have hu : Unspelled o args k := by
    intro m hm hkey
    rw [own_spelled hd hm hkey] at hown
    cases hown
  have h0 : Unscored o args k := by
    intro m hm
    rw [own_unspelled hd hu] at hown
    exact bestOf_eq_none.1 (Option.or_eq_none_iff.1 (Option.or_eq_none_iff.1 hown).1).1 m
      (hd.mem_values.2 hm)
  have hn : Untyped o args k := by
    intro m hm hkey
    rw [own_arity hd hu h0 hm hkey] at hown
    cases hown
  refine ⟨hu, h0, hn, ?_⟩
  rintro rfl m hm hlen
  rw [own_untyped hd hu h0 hn] at hown
  have hsome : d.first.filter (fun m => m.params.length == args.length) = some m := by
    rw [hf, hm, Option.filter_some, if_pos (beq_iff_eq.2 hlen)]
  rw [show firstConstructor .constructor args d = some m from hsome] at hown
  cases hown

variable {c : ClassId} {declared declared' : ClassId → Declared}

theorem lookup_same (hd : ∀ k, Holding (o.methods k) (declared k).table) (hd' : ∀ k, Holding (o.methods k) (declared' k).table)
    (hf : ∀ k, (declared k).first = first k) (hf' : ∀ k, (declared' k).first = first k)
    (htie : NoTie c o first args) :
    lookupTyped kind o.hierarchy declared' c args = lookupTyped kind o.hierarchy declared c args := by
  rcases all_or_first (Passes o first args) (prototypes o.hierarchy c) with
    hall | ⟨below, k, above, hsplit, hbelow, hk⟩
  · rw [lookup_silent fun k hk => own_passes (hd k) (hf k) (hall k hk),
      lookup_silent fun k hk => own_passes (hd' k) (hf' k) (hall k hk)]
    cases hlast : (prototypes o.hierarchy c).getLast? with
    | none => rfl
    | some j =>
      show topConstructor kind args (some (declared' j)) = topConstructor kind args (some (declared j))
      unfold topConstructor
      cases kind with
      | method name => rfl
      | constructor =>
        cases args with
        | nil => exact (hf' j).trans (hf j).symm
        | cons a args => rfl
  · have hsame := own_same (hd k) (hd' k) ((hf' k).trans (hf k).symm) (htie below k above hsplit hbelow)
    cases hown : own kind o.hierarchy args (declared k) with
    | none => exact absurd (Passes.of_own (hd k) (hf k) hown) hk
    | some m =>
      rw [lookup_nearest hsplit (fun j hj => own_passes (hd j) (hf j) (hbelow j hj)) hown,
        lookup_nearest hsplit (fun j hj => own_passes (hd' j) (hf' j) (hbelow j hj)) (hsame.trans hown)]

theorem noTie_of_same
    (hsame : ∀ k, ∀ m ∈ o.methods k, ∃ declared', (∀ k, Holding (o.methods k) (declared' k).table) ∧
      (∀ k, (declared' k).first = first k) ∧ (∃ rest, (declared' k).table = (typeKey m, m) :: rest) ∧
      lookupTyped kind o.hierarchy declared' c args = lookupTyped kind o.hierarchy declared c args) :
    NoTie c o first args := by
  intro below k above hsplit hbelow hu m hm m' hm' hpos hmax heq
  -- visited first, each of the two is the answer
  have hanswer : ∀ m ∈ o.methods k, 0 < scoreOf o args m →
      (∀ x ∈ o.methods k, scoreOf o args x ≤ scoreOf o args m) →
        lookupTyped kind o.hierarchy declared c args = some m := by
    intro m hm hpos hmax
    obtain ⟨declared', hd', hf', ⟨rest, htable⟩, hlookup⟩ := hsame k m hm
    have hvalues := fun x => (hd' k).mem_values (m := x)
    have hbest : bestOf (scoreOf o args) ((declared' k).table.map Prod.snd) = some m := by
      rw [htable] at hvalues ⊢
      exact bestOf_cons hpos fun x hx => hmax x ((hvalues x).1 (List.mem_cons_of_mem _ hx))
    have hown : own kind o.hierarchy args (declared' k) = some m := by
      rw [own_unspelled (hd' k) hu, hbest]
      rfl
    rw [← hlookup]
    exact lookup_nearest hsplit (fun j hj => own_passes (hd' j) (hf' j) (hbelow j hj)) hown
  have h := hanswer m hm hpos hmax
  rw [hanswer m' hm' (heq ▸ hpos) (heq ▸ hmax)] at h
  exact Option.some.inj h

end Answers

/-! When a clone answers like its original. -/

section Iff
variable {satisfies : Method → Method → Bool} {b : Built V satisfies} {c : ClassId}

theorem built_holding (b : Built V satisfies) (isStatic : Bool) (k : ClassId) :
    Holding (b.methods isStatic k) ((b.records k).methods isStatic) := by
  obtain ⟨order, horder, htable⟩ := b.entered isStatic k
  have hapart : KeysApart order :=
    keysApart_of_nodup ((horder.map typeKey).nodup_iff.2 (b.distinct isStatic k))
  have hfold := @foldl_enter_holding (.method "") order hapart
  exact hfold.congr (fun m => horder.mem_iff.symm) fun e => htable.mem_iff

theorem built_named (b : Built V satisfies) (isStatic : Bool) (k : ClassId) :
    Named (b.methods isStatic k) ((b.records k).methods isStatic) := by
  obtain ⟨order, horder, htable⟩ := b.entered isStatic k
  intro m hm
  obtain ⟨m', hm'⟩ := foldl_named order m (horder.mem_iff.2 hm)
  exact ⟨m', htable.mem_iff.2 hm'⟩

theorem built_constructors (b : Built V satisfies) (k : ClassId) :
    Holding (b.constructors k) (b.records k).constructors := by
  obtain ⟨order, horder, htable⟩ := b.constructors_entered k
  have hapart : KeysApart order :=
    keysApart_of_nodup ((horder.map typeKey).nodup_iff.2 (b.constructors_distinct k))
  have hfold := @foldl_enter_holding .constructor order hapart
  exact hfold.congr (fun m => horder.mem_iff.symm) fun e => htable.mem_iff

variable {r' : ClassId → Record V} (hc : ∀ k, IsClone satisfies (b.records k) (r' k))
include hc

theorem clone_holding (isStatic : Bool) (k : ClassId) :
    Holding (b.methods isStatic k) ((r' k).methods isStatic) := by
  obtain ⟨visited, hv, ht⟩ := (hc k).methods isStatic
  exact cloneTable_holding _ (built_holding b isStatic k) (keysApart_of_nodup (b.distinct isStatic k)) hv ht

theorem clone_named (isStatic : Bool) (k : ClassId) :
    Named (b.methods isStatic k) ((r' k).methods isStatic) := by
  obtain ⟨visited, hv, ht⟩ := (hc k).methods isStatic
  obtain ⟨hfilter, hmem⟩ := visited_values (built_holding b isStatic k) hv
  intro m hm
  obtain ⟨m', hm'⟩ := foldl_named (visited.map Prod.snd) m ((hmem m).2 hm)
  unfold cloneTable at ht
  rw [hfilter] at ht
  exact ⟨m', ht.mem_iff.2 hm'⟩

theorem clone_constructors (k : ClassId) : Holding (b.constructors k) (r' k).constructors := by
  obtain ⟨visited, hv, ht⟩ := (hc k).constructors
  exact cloneTable_holding _ (built_constructors b k) (keysApart_of_nodup (b.constructors_distinct k)) hv ht

theorem clone_abstract (k : ClassId) : (r' k).abstractMethods.Perm (b.records k).abstractMethods := by
  obtain ⟨visited, hv, ht⟩ := (hc k).abstractMethods
  have hkeys : (visited.map Prod.fst).Nodup := (hv.map Prod.fst).nodup_iff.2 (b.abstract_distinct k)
  rw [cloneAbstract_eq hkeys] at ht
  · exact ht.trans hv
  · intro e he
    rw [List.any_eq_false]
    intro x hx
    -- the method is in the table of the original, under its second key
    have hin := ((clone_holding hc e.2.isStatic k).entry x hx).1
    have hopen := b.abstract_open k e (hv.mem_iff.1 he) _ ((built_holding b e.2.isStatic k).present x.2 hin)
    rw [entryIsFor_of_key (.inl rfl), Bool.true_and] at hopen
    rw [show satisfies e.2 x.2 = false from hopen, Bool.and_false]
    exact Bool.false_ne_true

theorem clone_byName (hone : ∀ isStatic, OneOfName b c isStatic) (name : Name) (isStatic : Bool) :
    methodByName b.hierarchy r' c name isStatic = methodByName b.hierarchy b.records c name isStatic := by
  unfold methodByName
  rcases all_or_first (fun k => ∀ x ∈ b.methods isStatic k, x.name ≠ name) (prototypes b.hierarchy c) with
    hall | ⟨below, k, above, hsplit, hbelow, hk⟩
  · apply findSome_congr
    intro k hk
    rw [holding_lookup_name_none (clone_holding hc isStatic k) (hall k hk),
      holding_lookup_name_none (built_holding b isStatic k) (hall k hk)]
  · push Not at hk
    obtain ⟨m, hm, rfl⟩ := hk
    have halone : ∀ m' ∈ b.methods isStatic k, m'.name = m.name → m' = m :=
      fun m' hm' hname => hone isStatic below k above hsplit m hm m' hm' hname hbelow
    have hclone := holding_lookup_name (clone_holding hc isStatic k) (clone_named hc isStatic k) hm halone
    have hbuilt := holding_lookup_name (built_holding b isStatic k) (built_named b isStatic k) hm halone
    have hnone : ∀ j ∈ below, ((r' j).methods isStatic).lookup (.name m.name) = none :=
      fun j hj => holding_lookup_name_none (clone_holding hc isStatic j) (hbelow j hj)
    have hnone' : ∀ j ∈ below, ((b.records j).methods isStatic).lookup (.name m.name) = none :=
      fun j hj => holding_lookup_name_none (built_holding b isStatic j) (hbelow j hj)
    rw [hsplit, List.findSome?_append, List.findSome?_append, List.findSome?_eq_none_iff.2 hnone,
      List.findSome?_eq_none_iff.2 hnone', Option.none_or, Option.none_or, List.findSome?_cons,
      List.findSome?_cons, hclone, hbuilt]

theorem Cloneable.same (h : Cloneable b c) : SameAnswers b.hierarchy b.records r' c where
  byName := clone_byName hc h.names
  byArity name isStatic argc := by
    apply findSome_congr
    intro k _
    exact holding_lookup_same (built_holding b isStatic k) (clone_holding hc isStatic k)
      (b.distinct isStatic k) fun n heq => by cases heq
  typed name isStatic args :=
    @lookup_same _ (b.overloads name isStatic) (fun _ => none) _ _ _ _
      (built_holding b isStatic) (clone_holding hc isStatic)
      (fun _ => rfl) (fun _ => rfl) (h.ties name isStatic args)
  constructor args :=
    @lookup_same _ b.constructorOverloads (fun k => (b.records k).constructor) _ _ _ _
      (built_constructors b) (clone_constructors hc) (fun _ => rfl) (fun k => (hc k).constructor)
      (h.constructor_ties args)
  field name := by
    have hfields : ∀ k, (r' k).instanceFields = (b.records k).instanceFields := by
      intro k
      rw [(hc k).instanceFields, cloneFields_eq (b.fields_distinct k)]
    unfold instanceField
    simp only [hfields]
  static name := by
    apply findSome_congr
    intro k hk
    rw [(hc k).staticFields, h.statics k hk]
  abstract := clone_abstract hc c
  flags := ⟨(hc c).isAbstract, (hc c).isInterface, (hc c).isFinal⟩

omit hc

/-- A clone with tables in any order that may come out. -/
def cloneWith (satisfies : Method → Method → Bool) (r : Record V)
    (methods : Bool → List (MethodKey × Method)) (constructors : List (MethodKey × Method)) : Record V where
  methods := methods
  constructors := constructors
  constructor := r.constructor
  abstractMethods := cloneAbstract satisfies methods r.abstractMethods
  instanceFields := cloneFields r.instanceFields
  staticFields := []
  isAbstract := r.isAbstract
  isInterface := r.isInterface
  isFinal := r.isFinal

theorem cloneWith_isClone {r : Record V} {methods : Bool → List (MethodKey × Method)}
    {constructors : List (MethodKey × Method)}
    (hm : ∀ isStatic, ∃ visited, visited.Perm (r.methods isStatic) ∧
      (methods isStatic).Perm (cloneTable (.method "") visited))
    (hctor : ∃ visited, visited.Perm r.constructors ∧ constructors.Perm (cloneTable .constructor visited)) :
    IsClone satisfies r (cloneWith satisfies r methods constructors) :=
  ⟨hm, hctor, rfl, ⟨_, .refl _, .refl _⟩, rfl, rfl, rfl, rfl, rfl⟩

theorem exists_clone (b : Built V satisfies) (k : ClassId) (isStatic : Bool)
    {table : List (MethodKey × Method)}
    (ht : ∃ visited, visited.Perm ((b.records k).methods isStatic) ∧
      table.Perm (cloneTable (.method "") visited)) :
    ∃ r' : ClassId → Record V, (∀ j, IsClone satisfies (b.records j) (r' j)) ∧ (r' k).methods isStatic = table := by
  refine ⟨fun j => cloneWith satisfies (b.records j)
    (fun st => if j = k ∧ st = isStatic then table else cloneTable (.method "") ((b.records j).methods st))
    (cloneTable .constructor (b.records j).constructors), ?_, if_pos ⟨rfl, rfl⟩⟩
  intro j
  apply cloneWith_isClone
  · intro st
    split
    · rename_i heq
      rw [heq.1, heq.2]
      exact ht
    · exact ⟨_, .refl _, .refl _⟩
  · exact ⟨_, .refl _, .refl _⟩

theorem exists_constructor_clone (b : Built V satisfies) (k : ClassId) {table : List (MethodKey × Method)}
    (ht : ∃ visited, visited.Perm (b.records k).constructors ∧
      table.Perm (cloneTable .constructor visited)) :
    ∃ r' : ClassId → Record V, (∀ j, IsClone satisfies (b.records j) (r' j)) ∧ (r' k).constructors = table := by
  refine ⟨fun j => cloneWith satisfies (b.records j)
    (fun st => cloneTable (.method "") ((b.records j).methods st))
    (if j = k then table else cloneTable .constructor (b.records j).constructors), ?_, if_pos rfl⟩
  intro j
  apply cloneWith_isClone
  · exact fun st => ⟨_, .refl _, .refl _⟩
  · split
    · rename_i heq
      rw [heq]
      exact ht
    · exact ⟨_, .refl _, .refl _⟩

theorem first_in_clone (kind : Kind) {ms : List Method} {table : List (MethodKey × Method)}
    (h : Holding ms table) (hapart : KeysApart ms) {m : Method} (hm : m ∈ ms) :
    ((typeKey m, m) :: (cloneTable kind table).erase (typeKey m, m)).Perm (cloneTable kind table) :=
  (List.perm_cons_erase ((cloneTable_holding kind h hapart (.refl _) (.refl _)).present m hm)).symm

section Necessary
variable (hall : ∀ r', (∀ k, IsClone satisfies (b.records k) (r' k)) →
  SameAnswers b.hierarchy b.records r' c)
include hall

theorem statics_of_same : ∀ k ∈ prototypes b.hierarchy c, (b.records k).staticFields = [] := by
  intro k hk
  by_contra hne
  obtain ⟨e, he⟩ := List.exists_mem_of_ne_nil _ hne
  obtain ⟨r', hc, -⟩ := exists_clone b k false ⟨_, .refl _, .refl _⟩
  have hstatic := (hall r' hc).static e.name
  have hnone : staticField b.hierarchy r' c e.name = none := by
    unfold staticField
    rw [List.findSome?_eq_none_iff]
    intro j _
    rw [(hc j).staticFields]
    rfl
  have hsome : (staticField b.hierarchy b.records c e.name).isSome = true := by
    unfold staticField
    rw [List.findSome?_isSome_iff]
    refine ⟨k, hk, ?_⟩
    rw [List.find?_isSome]
    exact ⟨e, he, beq_self_eq_true _⟩
  rw [← hstatic, hnone] at hsome
  cases hsome

theorem names_of_same (isStatic : Bool) : OneOfName b c isStatic := by
  intro below k above hsplit m hm m' hm' hname hbelow
  -- visited last, each of the two gets the name
  have hanswer : ∀ x ∈ b.methods isStatic k, x.name = m.name →
      methodByName b.hierarchy b.records c m.name isStatic = some x := by
    intro x hx hxm
    have hpresent := (built_holding b isStatic k).present x hx
    have hv : (((b.records k).methods isStatic).erase (typeKey x, x) ++ [(typeKey x, x)]).Perm
        ((b.records k).methods isStatic) :=
      (List.perm_append_singleton _ _).trans (List.perm_cons_erase hpresent).symm
    obtain ⟨r', hc, htable⟩ := exists_clone b k isStatic ⟨_, hv, .refl _⟩
    rw [← (hall r' hc).byName m.name isStatic]
    have hnone : ∀ j ∈ below, ((r' j).methods isStatic).lookup (.name m.name) = none :=
      fun j hj => holding_lookup_name_none (clone_holding hc isStatic j) (hbelow j hj)
    unfold methodByName
    rw [hsplit, List.findSome?_append, List.findSome?_eq_none_iff.2 hnone, Option.none_or,
      List.findSome?_cons, htable, ← hxm, lookup_cloneTable_name]
  have h := hanswer m hm rfl
  rw [hanswer m' hm' hname] at h
  exact Option.some.inj h

theorem ties_of_same (name : Name) (isStatic : Bool) (args : List Argument) :
    NoTie c (b.overloads name isStatic) (fun _ => none) args := by
  refine @noTie_of_same _ (b.overloads name isStatic) _ _ _
    (fun k => ⟨(b.records k).methods isStatic, none⟩) fun k m hm => ?_
  have hperm := first_in_clone (.method "") (built_holding b isStatic k)
    (keysApart_of_nodup (b.distinct isStatic k)) hm
  obtain ⟨r', hc, htable⟩ := exists_clone b k isStatic ⟨_, .refl _, hperm⟩
  exact ⟨fun k => ⟨(r' k).methods isStatic, none⟩, clone_holding hc isStatic,
    fun _ => rfl, ⟨_, htable⟩, (hall r' hc).typed name isStatic args⟩

theorem constructor_ties_of_same (args : List Argument) :
    NoTie c b.constructorOverloads (fun k => (b.records k).constructor) args := by
  refine @noTie_of_same _ b.constructorOverloads _ _ _
    (fun k => ⟨(b.records k).constructors, (b.records k).constructor⟩) fun k m hm => ?_
  have hperm := first_in_clone .constructor (built_constructors b k)
    (keysApart_of_nodup (b.constructors_distinct k)) hm
  obtain ⟨r', hc, htable⟩ := exists_constructor_clone b k ⟨_, .refl _, hperm⟩
  exact ⟨fun k => ⟨(r' k).constructors, (r' k).constructor⟩, clone_constructors hc,
    fun k => (hc k).constructor, ⟨_, htable⟩, (hall r' hc).constructor args⟩

end Necessary

end Iff

end Cloning

/-! A class with a static field. -/

section Counter

def flat : Hierarchy ClassId where
  name _ := "Counter"
  typeId c := c + 1
  prototype _ := none
  interfaces _ := []
  rank c := c
  prototype_lt _ _ h := nomatch h
  interfaces_lt _ _ h := nomatch h

/-- `class Counter { static seed = 1 }`. -/
def counterRecord (isClone : Bool) : Record Nat where
  methods _ := []
  constructors := []
  constructor := none
  abstractMethods := []
  instanceFields := []
  staticFields := if isClone then [] else [⟨"seed", 1, .publicAccess, 0, none⟩]
  isAbstract := false
  isInterface := false
  isFinal := false

def counter : Built Nat (fun _ _ => true) where
  hierarchy := flat
  records _ := counterRecord false
  methods _ _ := []
  constructors _ := []
  distinct _ _ := .nil
  owner _ _ _ h := nomatch h
  entered _ _ := ⟨[], .refl _, .refl _⟩
  constructors_distinct _ := .nil
  constructors_owner _ _ h := nomatch h
  constructors_named _ _ h := nomatch h
  constructors_entered _ := ⟨[], .refl _, .refl _⟩
  abstract_distinct _ := .nil
  abstract_open _ _ h := nomatch h
  fields_distinct _ := .nil

end Counter

end TurboScript.Oop.Clone
