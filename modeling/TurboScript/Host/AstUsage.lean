import Mathlib.Algebra.GroupWithZero.Nat
import TurboScript.Exprtk.NodeCopy

/- The accounting of a syntax tree when a module is compiled (`ts_host_ast_usage`).

   1. The walk, kind by kind: `usageRule` lists what a case does to the fields of the node.
   2. The walk makes the charges of all nodes of the tree (`astUsage_eq`), each node before
      its children.
   3. A list of charges, in any order, stays within the limits exactly when the sums do, and
      no counter wraps (`chargeAll_isSome`, `chargeAll_exact`). -/
namespace TurboScript.Host.AstUsage
open Exprtk.NodeCopy

/-- The fields of `ts_host_ast_usage_t`. -/
inductive Counter
  | nodes | imports | stringBytes
  deriving DecidableEq

/-- `ts_host_ast_usage_t`; the limits that the options have for its fields are one, too. -/
abbrev Usage := Counter → UInt64

/-- What the walk reads of `turbo_script_module_options_t`. -/
structure Options where
  limit : Usage
  moduleNameSize : UInt64

/-- `ts_host_charge`, on one counter. -/
def charge (limit : Usage) (usage : Usage) (c : Counter) (amount : UInt64) : Option Usage :=
  if limit c < usage c ∨ limit c - usage c < amount then none
  else some (Function.update usage c (usage c + amount))

/-- What a case does to a field: nothing, a charge of one import when the string is `import`, a
    charge of the length, a visit of the child, of all children of an array. -/
inductive Visit
  | skip | importName | length | child | all
  deriving DecidableEq

/-- The `switch` of `ts_host_ast_usage`; the fields after the last one listed are not read. -/
def usageRule : NodeType → List Visit
  | .number | .integer | .varRef | .null | .restParameter | .thisExpr => []
  | .block => [.all]
  | .string | .templateString => [.skip, .length]
  | .functionExpression | .functionDefinition => [.skip, .all, .child]
  | .functionCall => [.importName, .all]
  | .binaryOp => [.skip, .child, .child]
  | .assignment | .constantDecl => [.skip, .child]
  | .flow => [.skip, .child]
  | .ifStmt => [.child, .child, .child]
  | .whileLoop => [.child, .child]
  | .forLoop => [.child, .child, .child, .child]
  | .vector => [.all]
  | .index => [.child, .child]
  | .slice => [.child, .child, .child]
  | .memberCall => [.child, .skip, .all]
  | .switch => [.child, .all, .child]
  | .doWhile => [.child, .child]
  | .mapLiteral => [.skip, .all]
  | .memberAccess => [.child]
  | .memberSet => [.child, .skip, .child]
  | .forIn => [.skip, .child, .child]
  | .spread => [.child]
  | .destructuringAssignment => [.child, .child]
  | .tryCatch => [.child, .skip, .child]
  | .throwStmt | .yieldExpr => [.child]
  | .generatorFunction => [.skip, .all, .child]
  | .classDef => [.skip, .child, .all, .all]
  | .method => [.skip, .all, .child]
  | .fieldDecl => [.skip, .skip, .child]
  | .newExpr => [.skip, .all]
  | .superExpr => [.skip, .all]
  | .instanceOf => [.child, .skip, .child]

section Walk
variable {A D : Type} (limit : Usage)

/-- `strcmp` with `import`; the name may be missing. -/
def isImport (name : Option (A × List Char)) : Bool :=
  name.any fun s => cstr s.2 = "import".toList

mutual
/-- `ts_host_ast_usage`; `none` is 0. -/
def astUsage : Ptr A D → Usage → Option Usage
  | .null, usage => some usage
  | .node _ type _ _ _ fields, usage => do
    let usage ← charge limit usage .nodes 1
    fieldsUsage (usageRule type) fields usage

def fieldsUsage : List Visit → Fields A D → Usage → Option Usage
  | _, .nil, usage => some usage
  | vs, .word len rest, usage => do
    let usage ←
      if vs.headD .skip = .length then charge limit usage .stringBytes (.ofInt len) else some usage
    fieldsUsage vs.tail rest usage
  | vs, .double _ rest, usage | vs, .texts _ _ rest, usage => fieldsUsage vs.tail rest usage
  | vs, .text s rest, usage => do
    let usage ←
      if vs.headD .skip = .importName ∧ isImport s then charge limit usage .imports 1
      else some usage
    fieldsUsage vs.tail rest usage
  | vs, .child c rest, usage => do
    let usage ← if vs.headD .skip = .child then astUsage c usage else some usage
    fieldsUsage vs.tail rest usage
  | vs, .children _ cs rest, usage => do
    let usage ← if vs.headD .skip = .all then ptrsUsage cs usage else some usage
    fieldsUsage vs.tail rest usage

def ptrsUsage : Ptrs A D → Usage → Option Usage
  | .nil, usage => some usage
  | .cons c cs, usage => do
    let usage ← astUsage c usage
    ptrsUsage cs usage
end

end Walk

/-- The usage a walk starts with. -/
def Options.start (options : Options) : Usage
  | .stringBytes => options.moduleNameSize
  | _ => 0

/-- The accounting of `ts_host_module_compile_impl`: a module name beyond the limit is rejected
    before the source is parsed. -/
def moduleUsage {A D : Type} (options : Options) (ast : Ptr A D) : Option Usage :=
  if options.limit .stringBytes < options.moduleNameSize then none
  else astUsage options.limit ast options.start

/-! What there is to charge. -/

section Charges
variable {A D : Type}

mutual
def nodesOf : Ptr A D → List (NodeType × Fields A D)
  | .null => []
  | .node _ type _ _ _ fields => (type, fields) :: nodesBelow fields

def nodesBelow : Fields A D → List (NodeType × Fields A D)
  | .nil => []
  | .word _ rest | .double _ rest | .text _ rest | .texts _ _ rest => nodesBelow rest
  | .child c rest => nodesOf c ++ nodesBelow rest
  | .children _ cs rest => nodesOfAll cs ++ nodesBelow rest

def nodesOfAll : Ptrs A D → List (NodeType × Fields A D)
  | .nil => []
  | .cons c cs => nodesOf c ++ nodesOfAll cs
end

def literalBytes : NodeType × Fields A D → UInt64
  | (.string, .text _ (.word len _)) | (.templateString, .text _ (.word len _)) => .ofInt len
  | _ => 0

def isImportCall : NodeType × Fields A D → Bool
  | (.functionCall, .text name _) => isImport name
  | _ => false

def total (options : Options) (order : List (NodeType × Fields A D)) : Counter → Nat
  | .nodes => order.length
  | .imports => order.countP isImportCall
  | .stringBytes =>
    options.moduleNameSize.toNat + (order.map fun node => (literalBytes node).toNat).sum

def ownCharges (node : NodeType × Fields A D) : List (Counter × UInt64) :=
  match node.1 with
  | .string | .templateString => [(.stringBytes, literalBytes node)]
  | _ => if isImportCall node then [(.imports, 1)] else []

def charges (node : NodeType × Fields A D) : List (Counter × UInt64) :=
  (.nodes, 1) :: ownCharges node

end Charges

def chargeAll (limit : Usage) (l : List (Counter × UInt64)) (usage : Usage) : Option Usage :=
  l.foldlM (fun usage x => charge limit usage x.1 x.2) usage

def amount (l : List (Counter × UInt64)) (c : Counter) : Nat :=
  ((l.filter fun x => x.1 = c).map fun x => x.2.toNat).sum

section Lists
variable {limit usage usage' : Usage} {l : List (Counter × UInt64)}

def Within (limit usage : Usage) : Prop := ∀ c, usage c ≤ limit c

theorem charge_eq_some {c : Counter} {n : UInt64} (hin : Within limit usage) :
    (∃ u, charge limit usage c n = some u) ↔ (usage c).toNat + n.toNat ≤ (limit c).toNat := by
  have hle := UInt64.le_iff_toNat_le.1 (hin c)
  have hsub := UInt64.toNat_sub_of_le _ _ (hin c)
  simp only [charge, UInt64.lt_iff_toNat_lt, hsub]
  split
  · simp
    omega
  · simp
    omega

theorem charge_exact {c : Counter} {n : UInt64} (hin : Within limit usage)
    (h : charge limit usage c n = some usage') :
    Within limit usage' ∧ ∀ k, (usage' k).toNat = (usage k).toNat + amount [(c, n)] k := by
  have hfit := (charge_eq_some hin).1 ⟨usage', h⟩
  have hlim := (limit c).toNat_lt
  rw [charge] at h
  split at h
  · cases h
  · cases h
    have hsum : (usage c + n).toNat = (usage c).toNat + n.toNat := by
      rw [UInt64.toNat_add]
      exact Nat.mod_eq_of_lt (by omega)
    refine ⟨fun k => ?_, fun k => ?_⟩
    · by_cases hk : k = c
      · subst hk
        rw [Function.update_self, UInt64.le_iff_toNat_le, hsum]
        exact hfit
      · rw [Function.update_of_ne hk]
        exact hin k
    · by_cases hk : k = c
      · subst hk
        simp [amount, hsum]
      · rw [Function.update_of_ne hk]
        simp [amount, Ne.symm hk]

theorem amount_cons (x : Counter × UInt64) (c : Counter) :
    amount (x :: l) c = amount [x] c + amount l c := by
  by_cases hx : x.1 = c
  · simp [amount, hx]
  · simp [amount, hx]

theorem chargeAll_exact (hin : Within limit usage) (h : chargeAll limit l usage = some usage') :
    ∀ c, (usage' c).toNat = (usage c).toNat + amount l c := by
  induction l generalizing usage with
  | nil =>
    intro c
    cases h
    simp [amount]
  | cons x l ih =>
    intro c
    rw [chargeAll, List.foldlM_cons] at h
    obtain ⟨u, hx, hl⟩ := Option.bind_eq_some_iff.1 h
    obtain ⟨hu, hone⟩ := charge_exact hin hx
    have hsum : amount (x :: l) c = amount [(x.1, x.2)] c + amount l c := amount_cons x c
    rw [ih hu hl c, hone c, hsum, Nat.add_assoc]

theorem chargeAll_isSome (hin : Within limit usage) :
    (chargeAll limit l usage).isSome ↔ ∀ c, (usage c).toNat + amount l c ≤ (limit c).toNat := by
  induction l generalizing usage with
  | nil => simpa [chargeAll, amount, Within, UInt64.le_iff_toNat_le] using hin
  | cons x l ih =>
    have hhead : ∀ c, amount (x :: l) c = amount [(x.1, x.2)] c + amount l c := amount_cons x
    have hx : amount [(x.1, x.2)] x.1 = x.2.toNat := by simp [amount]
    rw [chargeAll, List.foldlM_cons]
    cases hc : charge limit usage x.1 x.2 with
    | none =>
      have hno : ¬ ∃ u, charge limit usage x.1 x.2 = some u := by simp [hc]
      rw [charge_eq_some hin] at hno
      refine ⟨fun h => by simp at h, fun h => ?_⟩
      have := h x.1
      have := hhead x.1
      omega
    | some u =>
      obtain ⟨hu, hone⟩ := charge_exact hin hc
      refine (ih hu).trans (forall_congr' fun c => ?_)
      rw [hone c, hhead c, Nat.add_assoc]

theorem amount_perm {l' : List (Counter × UInt64)} (h : l.Perm l') : amount l = amount l' :=
  funext fun _ => ((h.filter _).map _).sum_nat

end Lists

/-! The walk makes the charges of all nodes. -/

section Exact
variable {A D : Type} (limit : Usage)

/-- The rule goes on to every child that a kind has, and reads nothing else. -/
def visitsChildren : List Visit → List FieldKind → Bool
  | vs, .child :: ks => vs.headD .skip = .child && visitsChildren vs.tail ks
  | vs, .children :: ks => vs.headD .skip = .all && visitsChildren vs.tail ks
  | vs, _ :: ks => vs.headD .skip = .skip && visitsChildren vs.tail ks
  | _, [] => true

theorem chargeAll_append (l l' : List (Counter × UInt64)) (usage : Usage) :
    chargeAll limit (l ++ l') usage = (chargeAll limit l usage).bind (chargeAll limit l') :=
  List.foldlM_append

theorem fits_text {fields : Fields A D} {ks : List FieldKind} (h : fields.Fits (.text :: ks)) :
    ∃ s rest, fields = .text s rest ∧ rest.Fits ks := by
  cases fields with
  | text s rest =>
    obtain ⟨ks', hks, hrest⟩ := h
    cases hks
    exact ⟨s, rest, rfl, hrest⟩
  | nil => cases h
  | word | double | texts | child | children =>
    obtain ⟨ks', hks, _⟩ := h
    cases hks

theorem fits_word {fields : Fields A D} {ks : List FieldKind} (h : fields.Fits (.word :: ks)) :
    ∃ i rest, fields = .word i rest ∧ rest.Fits ks := by
  cases fields with
  | word i rest =>
    obtain ⟨ks', hks, hrest⟩ := h
    cases hks
    exact ⟨i, rest, rfl, hrest⟩
  | nil => cases h
  | text | double | texts | child | children =>
    obtain ⟨ks', hks, _⟩ := h
    cases hks

theorem chargeAll_one (c : Counter) (n : UInt64) (usage : Usage) :
    chargeAll limit [(c, n)] usage = charge limit usage c n :=
  bind_pure _

mutual
theorem astUsage_eq : ∀ {p : Ptr A D}, p.WellFormed → ∀ usage,
    astUsage limit p usage = chargeAll limit ((nodesOf p).flatMap charges) usage
  | .null, _, usage => rfl
  | .node _ type _ _ _ fields, hp, usage => by
    rw [nodesOf, List.flatMap_cons, chargeAll_append, astUsage, charges, chargeAll,
      List.foldlM_cons, Option.bind_eq_bind, Option.bind_assoc]
    exact Option.bind_congr fun u _ => ruleUsage_eq hp u

theorem ruleUsage_eq : ∀ {fields : Fields A D} {type : NodeType}, fields.Fits (layout type) →
    ∀ usage, fieldsUsage limit (usageRule type) fields usage =
      (chargeAll limit (ownCharges (type, fields)) usage).bind
        (chargeAll limit ((nodesBelow fields).flatMap charges)) := by
  intro fields type hf usage
  have hkids : visitsChildren (usageRule type) (layout type) = true →
      ownCharges (type, fields) = [] → fieldsUsage limit (usageRule type) fields usage =
        (chargeAll limit (ownCharges (type, fields)) usage).bind
          (chargeAll limit ((nodesBelow fields).flatMap charges)) := fun hv hown => by
    rw [hown]
    exact fieldsUsage_eq hv hf usage
  cases type with
  | string | templateString =>
    obtain ⟨s, rest, rfl, hrest⟩ := fits_text hf
    obtain ⟨len, last, rfl, hlast⟩ := fits_word hrest
    have hnone := @fieldsUsage_eq last [] _ rfl hlast
    simp only [usageRule, fieldsUsage, ownCharges, chargeAll_one, nodesBelow, literalBytes]
    exact Option.bind_congr fun u _ => hnone u
  | functionCall =>
    obtain ⟨name, rest, rfl, hrest⟩ := fits_text hf
    have hargs := @fieldsUsage_eq rest [.all] _ rfl hrest
    by_cases himport : isImport name
    · simp only [usageRule, fieldsUsage, ownCharges, isImportCall, himport, nodesBelow, if_true,
        chargeAll_one]
      exact Option.bind_congr fun u _ => hargs u
    · simp only [usageRule, fieldsUsage, ownCharges, isImportCall, himport, nodesBelow]
      exact hargs usage
  | _ => exact hkids (by decide) rfl

theorem fieldsUsage_eq : ∀ {fields : Fields A D} {vs : List Visit} {ks : List FieldKind},
    visitsChildren vs ks = true → fields.Fits ks → ∀ usage, fieldsUsage limit vs fields usage =
      chargeAll limit ((nodesBelow fields).flatMap charges) usage
  | .nil, vs, ks, _, _, usage => by
    rw [fieldsUsage]
    rfl
  | .word len rest, vs, ks, hv, hf, usage | .double _ rest, vs, ks, hv, hf, usage
  | .text _ rest, vs, ks, hv, hf, usage | .texts _ _ rest, vs, ks, hv, hf, usage => by
    obtain ⟨ks', rfl, hrest⟩ := hf
    obtain ⟨hhead, htail⟩ := Bool.and_eq_true_iff.1 hv
    have hskip : vs.headD .skip = .skip := of_decide_eq_true hhead
    simp only [fieldsUsage, hskip, nodesBelow, reduceCtorEq, false_and, if_false,
      Option.bind_eq_bind, Option.bind_some]
    exact fieldsUsage_eq htail hrest usage
  | .child c rest, vs, ks, hv, hf, usage => by
    obtain ⟨ks', rfl, hc, hrest⟩ := hf
    obtain ⟨hhead, htail⟩ := Bool.and_eq_true_iff.1 hv
    rw [fieldsUsage, if_pos (of_decide_eq_true hhead), nodesBelow, List.flatMap_append,
      chargeAll_append, astUsage_eq hc]
    exact Option.bind_congr fun u _ => fieldsUsage_eq htail hrest u
  | .children _ cs rest, vs, ks, hv, hf, usage => by
    obtain ⟨ks', rfl, hcs, hrest⟩ := hf
    obtain ⟨hhead, htail⟩ := Bool.and_eq_true_iff.1 hv
    rw [fieldsUsage, if_pos (of_decide_eq_true hhead), nodesBelow, List.flatMap_append,
      chargeAll_append, ptrsUsage_eq hcs]
    exact Option.bind_congr fun u _ => fieldsUsage_eq htail hrest u

theorem ptrsUsage_eq : ∀ {cs : Ptrs A D}, cs.WellFormed → ∀ usage,
    ptrsUsage limit cs usage = chargeAll limit ((nodesOfAll cs).flatMap charges) usage
  | .nil, _, usage => rfl
  | .cons c cs, hp, usage => by
    rw [ptrsUsage, nodesOfAll, List.flatMap_append, chargeAll_append, astUsage_eq hp.1]
    exact Option.bind_congr fun u _ => ptrsUsage_eq hp.2 u
end

theorem amount_append (l l' : List (Counter × UInt64)) (c : Counter) :
    amount (l ++ l') c = amount l c + amount l' c := by
  simp [amount]

theorem amount_charges (node : NodeType × Fields A D) (c : Counter) : amount (charges node) c = match c with
      | .nodes => 1
      | .imports => if isImportCall node then 1 else 0
      | .stringBytes => (literalBytes node).toNat := by
  obtain ⟨type, fields⟩ := node
  cases type with
  | functionCall =>
    have hown : charges (.functionCall, fields) =
        (.nodes, 1) :: if isImportCall (.functionCall, fields) then [(.imports, 1)] else [] := rfl
    rw [hown]
    split
    · cases c <;> rfl
    · cases c <;> rfl
  | _ => cases c <;> rfl

theorem amount_total (options : Options) (order : List (NodeType × Fields A D)) (c : Counter) :
    (options.start c).toNat + amount (order.flatMap charges) c = total options order c := by
  induction order with
  | nil => cases c <;> rfl
  | cons node order ih =>
    have hone := amount_charges node c
    rw [List.flatMap_cons, amount_append, hone]
    cases c with
    | nodes =>
      dsimp only [total] at ih ⊢
      rw [List.length_cons]
      omega
    | imports =>
      dsimp only [total] at ih ⊢
      rw [List.countP_cons]
      omega
    | stringBytes =>
      dsimp only [total] at ih ⊢
      rw [List.map_cons, List.sum_cons]
      omega

theorem start_within {options : Options} (hname : options.moduleNameSize ≤ options.limit .stringBytes) :
    Within options.limit options.start := by
  intro c
  cases c with
  | nodes | imports => exact UInt64.zero_le
  | stringBytes => exact hname

/-- The accounting of a syntax tree is exact: it succeeds exactly when the nodes, the calls of
    `import` and the bytes of the literals with the name of the module are within their limits,
    and has counted these. The charges could be made for the nodes in any order, and before each
    of them a counter is the sum of those made. -/
theorem ast_usage_exact (options : Options) {ast : Ptr A D} (hast : ast.WellFormed) :
    ((moduleUsage options ast).isSome ↔ ∀ c, total options (nodesOf ast) c ≤ (options.limit c).toNat) ∧
    (∀ usage, moduleUsage options ast = some usage → ∀ c, (usage c).toNat = total options (nodesOf ast) c) ∧
    (options.moduleNameSize ≤ options.limit .stringBytes → moduleUsage options ast =
        chargeAll options.limit ((nodesOf ast).flatMap charges) options.start ∧
      ∀ order : List (NodeType × Fields A D), order.Perm (nodesOf ast) →
        ((chargeAll options.limit (order.flatMap charges) options.start).isSome ↔
          (moduleUsage options ast).isSome) ∧
        ∀ made left usage, order.flatMap charges = made ++ left →
          chargeAll options.limit made options.start = some usage →
          ∀ c, (usage c).toNat = (options.start c).toNat + amount made c) := by
  by_cases hname : options.moduleNameSize ≤ options.limit .stringBytes
  · have hstart := start_within hname
    have hwalk : moduleUsage options ast =
        chargeAll options.limit ((nodesOf ast).flatMap charges) options.start := by
      rw [moduleUsage, if_neg (UInt64.not_lt.2 hname), astUsage_eq options.limit hast]
    have hsome : (moduleUsage options ast).isSome ↔
        ∀ c, total options (nodesOf ast) c ≤ (options.limit c).toNat := by
      rw [hwalk, chargeAll_isSome hstart]
      exact forall_congr' fun c => by rw [amount_total]
    refine ⟨hsome, fun usage husage c => ?_, fun _ => ⟨hwalk, fun order horder => ⟨?_, ?_⟩⟩⟩
    · rw [hwalk] at husage
      rw [chargeAll_exact hstart husage c, amount_total]
    · rw [hwalk, chargeAll_isSome hstart, chargeAll_isSome hstart,
        amount_perm (horder.flatMap_right charges)]
    · intro made left usage _ hmade
      exact chargeAll_exact hstart hmade
  · have hnone : moduleUsage options ast = none := if_pos (UInt64.not_le.1 hname)
    refine ⟨?_, fun usage husage => ?_, fun h => absurd h hname⟩
    · rw [hnone]
      refine ⟨fun h => by simp at h, fun h => absurd (h .stringBytes) ?_⟩
      have hlt := UInt64.lt_iff_toNat_lt.1 (UInt64.not_le.1 hname)
      dsimp only [total]
      omega
    · rw [hnone] at husage
      cases husage

end Exact

section Example

/-- `import("lib")`. -/
def importModule : Ptr Unit Unit :=
  .node () .block 1 1 (-1) (.children () (.cons
    (.node () .functionCall 1 1 (-1) (.text (some ((), "import".toList)) (.children () (.cons
      (.node () .string 1 8 (-1) (.text (some ((), "lib".toList)) (.word 3 .nil))) .nil) .nil)))
    .nil) .nil)

/-- Limits that leave no room, for a module with a name of four bytes. -/
def tightOptions : Options where
  limit
    | .nodes => 3
    | .imports => 1
    | .stringBytes => 7
  moduleNameSize := 4

theorem ast_usage_exact_import : (moduleUsage tightOptions importModule).isSome :=
  (@ast_usage_exact _ _ tightOptions importModule
    ⟨_, rfl, ⟨⟨_, rfl, _, rfl, ⟨⟨_, rfl, _, rfl, rfl⟩, trivial⟩, rfl⟩, trivial⟩, rfl⟩).1.2
    fun c => by cases c <;> decide

end Example

end TurboScript.Host.AstUsage
