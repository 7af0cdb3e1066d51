import Mathlib.Data.List.TakeWhile

/- Syntax trees in memory and `exprtk_node_copy`.

   1. A tree is what is reached from a pointer: a node has an address and the fields of its
      kind, in the order `struct exprtk_node_s` declares them (`layout`). A string and an
      array have addresses of their own. An address names its arena.
   2. `exprtk_node_copy` copies the bits of a node and then treats the fields its `switch`
      has statements for (`copyRule`); a kind without a case keeps the original's pointers.
   3. A copy is complete when it has the original's contents, none of its addresses, and can
      still be read when the arena of the original is released. -/
namespace TurboScript.Exprtk.NodeCopy

/-- `exprtk_node_type_t`. -/
inductive NodeType
  | number | integer | varRef | binaryOp | functionCall | assignment | ifStmt | whileLoop
  | forLoop | spread | block | flow | string | vector | index | slice | functionDefinition
  | memberCall | constantDecl | switch | doWhile | mapLiteral | memberAccess | memberSet
  | forIn | null | templateString | destructuringAssignment | restParameter | tryCatch
  | throwStmt | functionExpression | yieldExpr | generatorFunction | classDef | method
  | fieldDecl | newExpr | thisExpr | superExpr | instanceOf
  deriving DecidableEq, Repr

structure Addr where
  arena : Nat
  slot : Nat
  deriving DecidableEq

mutual
inductive Ptr (A D : Type)
  | null
  | node (addr : A) (type : NodeType) (line column inferredType : Int) (fields : Fields A D)

/-- The fields of a node: words (flags, token and literal values, lengths), a double, strings,
    arrays of strings, node pointers, arrays of them. -/
inductive Fields (A D : Type)
  | nil
  | word (i : Int) (rest : Fields A D)
  | double (x : D) (rest : Fields A D)
  | text (s : Option (A × List Char)) (rest : Fields A D)
  | texts (addr : A) (ss : List (Option (A × List Char))) (rest : Fields A D)
  | child (c : Ptr A D) (rest : Fields A D)
  | children (addr : A) (cs : Ptrs A D) (rest : Fields A D)

inductive Ptrs (A D : Type)
  | nil
  | cons (c : Ptr A D) (cs : Ptrs A D)
end

inductive FieldKind
  | word | double | text | texts | child | children
  deriving DecidableEq, Repr

def layout : NodeType → List FieldKind
  | .number => [.double]
  | .integer => [.word]
  | .varRef => [.text]
  | .binaryOp => [.word, .child, .child]
  | .functionCall => [.text, .children]
  | .assignment | .constantDecl => [.text, .child]
  | .ifStmt => [.child, .child, .child]
  | .whileLoop | .doWhile => [.child, .child]
  | .forLoop => [.child, .child, .child, .child]
  | .spread => [.child]
  | .block => [.children]
  | .flow => [.word, .child]
  | .string | .templateString => [.text, .word]
  | .vector => [.children]
  | .index => [.child, .child]
  | .slice => [.child, .child, .child]
  | .functionDefinition | .functionExpression | .generatorFunction => [.text, .children, .child]
  | .memberCall => [.child, .text, .children]
  | .switch => [.child, .children, .child]
  | .mapLiteral => [.texts, .children]
  | .memberAccess => [.child, .text]
  | .memberSet => [.child, .text, .child]
  | .forIn => [.text, .child, .child]
  | .destructuringAssignment => [.child, .child, .word]
  | .tryCatch => [.child, .text, .child]
  | .throwStmt | .yieldExpr => [.child]
  | .classDef =>
    [.text, .child, .children, .children, .text, .texts, .word, .word, .word]
  | .method => [.text, .children, .child, .word, .word, .word, .word, .word]
  | .fieldDecl => [.text, .text, .child, .word, .word]
  | .newExpr => [.text, .children]
  | .superExpr => [.text, .children, .word]
  | .instanceOf => [.child, .text, .child]
  | .null | .restParameter | .thisExpr => []

/-- What the copy does to a field after the bits of the node are copied: nothing,
    `mem_strdup` unless it is NULL, `mem_strdup` of every element, a copy of as many bytes as
    the length says, `exprtk_node_copy`, `exprtk_node_copy` of every element. -/
inductive Treatment
  | bits | strdup | strdupAll | memdup | copy | copyAll
  deriving DecidableEq, Repr

/-- The `switch` of `exprtk_node_copy`; fields after the last one listed are left alone. -/
def copyRule : NodeType → List Treatment
  | .number => []
  | .varRef => [.strdup]
  | .binaryOp => [.bits, .copy, .copy]
  | .functionCall => [.strdup, .copyAll]
  | .constantDecl | .assignment => [.strdup, .copy]
  | .ifStmt => [.copy, .copy, .copy]
  | .whileLoop => [.copy, .copy]
  | .forLoop => [.copy, .copy, .copy, .copy]
  | .block => [.copyAll]
  | .flow => [.bits, .copy]
  | .string => [.memdup]
  | .vector => [.copyAll]
  | .index => [.copy, .copy]
  | .slice => [.copy, .copy, .copy]
  | .functionExpression | .functionDefinition => [.strdup, .copyAll, .copy]
  | .memberCall => [.copy, .strdup, .copyAll]
  | .instanceOf => [.copy, .strdup, .copy]
  | .spread => [.copy]
  | .destructuringAssignment => [.copy, .copy, .bits]
  | .restParameter => []
  | .switch => [.copy, .copyAll, .copy]
  | .doWhile => [.copy, .copy]
  | .mapLiteral => [.strdupAll, .copyAll]
  | .memberAccess => [.copy, .strdup]
  | .memberSet => [.copy, .strdup, .copy]
  | .forIn => [.strdup, .copy, .copy]
  | .null => []
  | .templateString => [.strdup, .bits]
  | .tryCatch => [.copy, .strdup, .copy]
  | .throwStmt => [.copy]
  -- no case in the source
  | .integer | .yieldExpr | .generatorFunction | .classDef | .method | .fieldDecl | .newExpr
  | .thisExpr | .superExpr => []

def noCase (type : NodeType) : Bool :=
  type ∈ [.yieldExpr, .generatorFunction, .classDef, .method, .fieldDecl, .newExpr, .superExpr]

/-- The pool library: whether its `mem_strdup` returns NULL for NULL. -/
structure Pool where
  dupNull : Bool

section Copy
variable {D : Type}

/-- Allocation in the destination arena; the state is its next free address. A failure is
    a crash. -/
abbrev Alloc := StateT Nat Option

def alloc (dest : Nat) : Alloc Addr := fun n => some (⟨dest, n⟩, n + 1)

def cstr (s : List Char) : List Char := s.takeWhile (· ≠ '\x00')

def memStrdup (dest : Nat) (s : List Char) : Alloc (Addr × List Char) := do
  return (← alloc dest, cstr s)

def copyText (dest : Nat) (t : Treatment) (s : Option (Addr × List Char)) :
    Alloc (Option (Addr × List Char)) :=
  match t, s with
  | .strdup, some (_, s) => do return some (← memStrdup dest s)
  | .memdup, some (_, s) => do return some (← alloc dest, s)
  | _, s => return s

/-- An array of strings; NULL is not tested for. -/
def copyTexts (pool : Pool) (dest : Nat) :
    List (Option (Addr × List Char)) → Alloc (List (Option (Addr × List Char)))
  | [] => return []
  | some (_, s) :: ss => do
    let s ← memStrdup dest s
    return some s :: (← copyTexts pool dest ss)
  | none :: ss =>
    if pool.dupNull then do return none :: (← copyTexts pool dest ss) else fun _ => none

/-- An array is allocated when it has elements. -/
def allocArray (dest : Nat) (addr : Addr) (empty : Bool) : Alloc Addr :=
  if empty then return addr else alloc dest

def Ptrs.isNil {A : Type} : Ptrs A D → Bool
  | .nil => true
  | .cons _ _ => false

mutual
/-- `exprtk_node_copy`. The keys of a map literal are copied before its values, the source
    copies them in turn. -/
def nodeCopy (pool : Pool) (dest : Nat) : Ptr Addr D → Alloc (Ptr Addr D)
  | .null => return .null
  | .node _ type line column inferredType fields => do
    let addr ← alloc dest
    return .node addr type line column inferredType (← copyFields pool dest (copyRule type) fields)

def copyFields (pool : Pool) (dest : Nat) : List Treatment → Fields Addr D → Alloc (Fields Addr D)
  | _, .nil => return .nil
  | ts, .word i rest => do return .word i (← copyFields pool dest ts.tail rest)
  | ts, .double x rest => do return .double x (← copyFields pool dest ts.tail rest)
  | ts, .text s rest => do
    let s ← copyText dest (ts.headD .bits) s
    return .text s (← copyFields pool dest ts.tail rest)
  | ts, .texts addr ss rest => do
    match ts.headD .bits with
    | .strdupAll => do
      let addr ← allocArray dest addr ss.isEmpty
      let ss ← copyTexts pool dest ss
      return .texts addr ss (← copyFields pool dest ts.tail rest)
    | _ => return .texts addr ss (← copyFields pool dest ts.tail rest)
  | ts, .child c rest => do
    match ts.headD .bits with
    | .copy => do
      let c ← nodeCopy pool dest c
      return .child c (← copyFields pool dest ts.tail rest)
    | _ => return .child c (← copyFields pool dest ts.tail rest)
  | ts, .children addr cs rest => do
    match ts.headD .bits with
    | .copyAll => do
      let addr ← allocArray dest addr cs.isNil
      let cs ← copyPtrs pool dest cs
      return .children addr cs (← copyFields pool dest ts.tail rest)
    | _ => return .children addr cs (← copyFields pool dest ts.tail rest)

def copyPtrs (pool : Pool) (dest : Nat) : Ptrs Addr D → Alloc (Ptrs Addr D)
  | .nil => return .nil
  | .cons c cs => do
    let c ← nodeCopy pool dest c
    return .cons c (← copyPtrs pool dest cs)
end

/-! What a tree holds, where it lies and when it is well formed. -/

def dropText {A : Type} (s : Option (A × List Char)) : Option (Unit × List Char) :=
  s.map fun p => ((), p.2)

mutual
def Ptr.tree {A : Type} : Ptr A D → Ptr Unit D
  | .null => .null
  | .node _ type line column inferredType fields =>
    .node () type line column inferredType fields.tree

def Fields.tree {A : Type} : Fields A D → Fields Unit D
  | .nil => .nil
  | .word i rest => .word i rest.tree
  | .double x rest => .double x rest.tree
  | .text s rest => .text (dropText s) rest.tree
  | .texts _ ss rest => .texts () (ss.map dropText) rest.tree
  | .child c rest => .child c.tree rest.tree
  | .children _ cs rest => .children () cs.tree rest.tree

def Ptrs.tree {A : Type} : Ptrs A D → Ptrs Unit D
  | .nil => .nil
  | .cons c cs => .cons c.tree cs.tree
end

def textAddr {A : Type} (s : Option (A × List Char)) : List A := (s.map Prod.fst).toList

/-- An array without elements is not read. -/
def arrayAddr {A : Type} (addr : A) (empty : Bool) : List A := if empty then [] else [addr]

mutual
def Ptr.addresses {A : Type} : Ptr A D → List A
  | .null => []
  | .node addr _ _ _ _ fields => addr :: fields.addresses

def Fields.addresses {A : Type} : Fields A D → List A
  | .nil => []
  | .word _ rest | .double _ rest => rest.addresses
  | .text s rest => textAddr s ++ rest.addresses
  | .texts addr ss rest =>
    arrayAddr addr ss.isEmpty ++ ss.flatMap textAddr ++ rest.addresses
  | .child c rest => c.addresses ++ rest.addresses
  | .children addr cs rest => arrayAddr addr cs.isNil ++ cs.addresses ++ rest.addresses

def Ptrs.addresses {A : Type} : Ptrs A D → List A
  | .nil => []
  | .cons c cs => c.addresses ++ cs.addresses
end

mutual
def Ptr.WellFormed {A : Type} : Ptr A D → Prop
  | .null => True
  | .node _ type _ _ _ fields => fields.Fits (layout type)

def Fields.Fits {A : Type} : Fields A D → List FieldKind → Prop
  | .nil, ks => ks = []
  | .word _ rest, ks => ∃ ks', ks = .word :: ks' ∧ rest.Fits ks'
  | .double _ rest, ks => ∃ ks', ks = .double :: ks' ∧ rest.Fits ks'
  | .text _ rest, ks => ∃ ks', ks = .text :: ks' ∧ rest.Fits ks'
  | .texts _ _ rest, ks => ∃ ks', ks = .texts :: ks' ∧ rest.Fits ks'
  | .child c rest, ks => ∃ ks', ks = .child :: ks' ∧ c.WellFormed ∧ rest.Fits ks'
  | .children _ cs rest, ks => ∃ ks', ks = .children :: ks' ∧ cs.WellFormed ∧ rest.Fits ks'

def Ptrs.WellFormed {A : Type} : Ptrs A D → Prop
  | .nil => True
  | .cons c cs => c.WellFormed ∧ cs.WellFormed
end

/-- What can be read from a pointer once an arena is released. -/
def readAfterRelease (arena : Nat) (p : Ptr Addr D) : Option (Ptr Unit D) :=
  if ∀ a ∈ p.addresses, a.arena ≠ arena then some p.tree else none

/-- The tree is in an arena; in the destination it lies below the free addresses. -/
def Allocated (dest n : Nat) (addrs : List Addr) : Prop :=
  ∀ a ∈ addrs, a.arena = dest → a.slot < n

/-- The copy is structurally equal to the original, shares nothing with it, and reads as the
    original did when the original's arena is released: an evaluation, which sees a tree only
    through what it can read, goes as before. -/
def CopiesCompletely (pool : Pool) (dest n : Nat) (src : Ptr Addr D) : Prop :=
  ∃ dst m, nodeCopy pool dest src n = some (dst, m) ∧ dst.tree = src.tree ∧
    (∀ a ∈ dst.addresses, a ∉ src.addresses) ∧
    ∀ arena, arena ≠ dest → (∀ a ∈ src.addresses, a.arena = arena) →
      readAfterRelease arena dst = some src.tree

/-! The trees that are copied completely. -/

def Fields.Bare {A : Type} : Fields A D → Prop
  | .nil => True
  | .word _ rest | .double _ rest => rest.Bare
  | .text s rest => s = none ∧ rest.Bare
  | .texts _ ss rest => ss = [] ∧ rest.Bare
  | .child c rest => c = .null ∧ rest.Bare
  | .children _ cs rest => cs = .nil ∧ rest.Bare

mutual
/-- A node of a kind without a case points to nothing. Elsewhere no string but a literal has
    a NUL in it, and an entry without a key occurs only if the pool library takes it. -/
def Ptr.Copyable {A : Type} (pool : Pool) : Ptr A D → Prop
  | .null => True
  | .node _ type _ _ _ fields =>
    (noCase type = true → fields.Bare) ∧ (noCase type = false → fields.Copyable pool type)

def Fields.Copyable {A : Type} (pool : Pool) : Fields A D → NodeType → Prop
  | .nil, _ => True
  | .word _ rest, type | .double _ rest, type => rest.Copyable pool type
  | .text s rest, type =>
    (type ≠ .string → ∀ p, s = some p → '\x00' ∉ p.2) ∧ rest.Copyable pool type
  | .texts _ ss rest, type =>
    (none ∈ ss → pool.dupNull = true) ∧ (∀ p, some p ∈ ss → '\x00' ∉ p.2) ∧ rest.Copyable pool type
  | .child c rest, type => c.Copyable pool ∧ rest.Copyable pool type
  | .children _ cs rest, type => cs.Copyable pool ∧ rest.Copyable pool type

def Ptrs.Copyable {A : Type} (pool : Pool) : Ptrs A D → Prop
  | .nil => True
  | .cons c cs => c.Copyable pool ∧ cs.Copyable pool
end

/-! The table of cases against the table of fields. -/

/-- Every pointer of the layout has the treatment of its type. -/
def covered (type : NodeType) : List FieldKind → List Treatment → Bool
  | [], _ => true
  | .word :: ks, ts | .double :: ks, ts => covered type ks ts.tail
  | .text :: ks, ts =>
    ts.headD .bits == (if type = .string then .memdup else .strdup) && covered type ks ts.tail
  | .texts :: ks, ts => ts.headD .bits == .strdupAll && covered type ks ts.tail
  | .child :: ks, ts => ts.headD .bits == .copy && covered type ks ts.tail
  | .children :: ks, ts => ts.headD .bits == .copyAll && covered type ks ts.tail

theorem rule_covers (type : NodeType) (h : noCase type = false) :
    covered type (layout type) (copyRule type) = true := by
  cases type <;> first | rfl | cases h

theorem rule_of_noCase (type : NodeType) (h : noCase type = true) : copyRule type = [] := by
  cases type <;> first | rfl | cases h

/-! What one step of the copy does. -/

variable {n dest : Nat} {l : List Addr}

theorem bind_some {α β : Type} {x : Alloc α} {f : α → Alloc β} {r : β × Nat} :
    (x >>= f) n = some r ↔ ∃ a m, x n = some (a, m) ∧ f a m = some r := by
  show (x n).bind (fun p => f p.1 p.2) = some r ↔ _
  rw [Option.bind_eq_some_iff]
  constructor
  · rintro ⟨⟨a, m⟩, hx, hf⟩
    exact ⟨a, m, hx, hf⟩
  · rintro ⟨a, m, hx, hf⟩
    exact ⟨(a, m), hx, hf⟩

/-- New addresses: in the destination, from the free one on. -/
def New (dest n : Nat) (addrs : List Addr) : Prop :=
  ∀ a ∈ addrs, a.arena = dest ∧ n ≤ a.slot

theorem New.nil : New dest n [] := by
  intro a ha
  cases ha

theorem New.append {l' : List Addr} (h : New dest n l) (h' : New dest n l') : New dest n (l ++ l') := by
  intro a ha
  cases List.mem_append.mp ha with
  | inl ha => exact h a ha
  | inr ha => exact h' a ha

theorem New.cons (h : New dest n l) : New dest n (⟨dest, n⟩ :: l) := by
  intro a ha
  cases List.mem_cons.mp ha with
  | inl ha => exact ha ▸ ⟨rfl, Nat.le_refl n⟩
  | inr ha => exact h a ha

theorem New.mono {n' : Nat} (h : New dest n' l) (hn : n ≤ n') : New dest n l :=
  fun a ha => ⟨(h a ha).1, Nat.le_trans hn (h a ha).2⟩

theorem cstr_eq_self (s : List Char) : cstr s = s ↔ '\x00' ∉ s := by
  unfold cstr
  rw [List.takeWhile_eq_self_iff]
  constructor
  · intro h hmem
    simpa using h _ hmem
  · intro h c hc
    simp only [ne_eq, decide_not, Bool.not_eq_eq_eq_not, Bool.not_true, decide_eq_false_iff_not]
    rintro rfl
    exact h hc

theorem copyText_complete (dest : Nat) (type : NodeType) {s : Option (Addr × List Char)}
    (hnul : type ≠ .string → ∀ p, s = some p → '\x00' ∉ p.2) (n : Nat) :
    ∃ s' m, copyText dest (if type = .string then .memdup else .strdup) s n = some (s', m) ∧
      n ≤ m ∧ dropText s' = dropText s ∧ New dest n (textAddr s') := by
  cases s with
  | none =>
    refine ⟨none, n, ?_, Nat.le_refl _, rfl, New.nil⟩
    by_cases htype : type = .string
    · rw [if_pos htype]
      rfl
    · rw [if_neg htype]
      rfl
  | some p =>
    obtain ⟨a, s⟩ := p
    by_cases htype : type = .string
    · rw [if_pos htype]
      exact ⟨some (⟨dest, n⟩, s), n + 1, rfl, Nat.le_succ n, rfl, New.nil.cons⟩
    · rw [if_neg htype]
      refine ⟨some (⟨dest, n⟩, cstr s), n + 1, rfl, Nat.le_succ n, ?_, New.nil.cons⟩
      have hs : cstr s = s := (cstr_eq_self s).mpr (hnul htype _ rfl)
      rw [hs]
      rfl

theorem copyTexts_complete (pool : Pool) (dest : Nat) (ss : List (Option (Addr × List Char)))
    (hnull : none ∈ ss → pool.dupNull = true) (hnul : ∀ p, some p ∈ ss → '\x00' ∉ p.2)
    (n : Nat) :
    ∃ ss' m, copyTexts pool dest ss n = some (ss', m) ∧ n ≤ m ∧
      ss'.map dropText = ss.map dropText ∧ ss'.isEmpty = ss.isEmpty ∧
      New dest n (ss'.flatMap textAddr) := by
  induction ss generalizing n with
  | nil => exact ⟨[], n, rfl, Nat.le_refl _, rfl, rfl, New.nil⟩
  | cons s ss ih =>
    have hnull' : none ∈ ss → pool.dupNull = true := fun h => hnull (List.mem_cons_of_mem _ h)
    have hnul' : ∀ p, some p ∈ ss → '\x00' ∉ p.2 := fun p h => hnul p (List.mem_cons_of_mem _ h)
    cases s with
    | none =>
      obtain ⟨ss', m, hrun, hle, htree, -, hnew⟩ := ih hnull' hnul' n
      refine ⟨none :: ss', m, ?_, hle, ?_, rfl, hnew⟩
      · unfold copyTexts
        rw [if_pos (hnull List.mem_cons_self), bind_some]
        exact ⟨ss', m, hrun, rfl⟩
      · rw [List.map_cons, List.map_cons, htree]
    | some p =>
      obtain ⟨a, s⟩ := p
      obtain ⟨ss', m, hrun, hle, htree, -, hnew⟩ := ih hnull' hnul' (n + 1)
      have hs : cstr s = s := (cstr_eq_self s).mpr (hnul (a, s) List.mem_cons_self)
      refine ⟨some (⟨dest, n⟩, cstr s) :: ss', m, ?_, by omega, ?_, rfl, ?_⟩
      · unfold copyTexts
        rw [bind_some]
        exact ⟨(⟨dest, n⟩, cstr s), n + 1, rfl, bind_some.mpr ⟨ss', m, hrun, rfl⟩⟩
      · rw [List.map_cons, List.map_cons, htree, hs]
        rfl
      · exact (hnew.mono (Nat.le_succ n)).cons

theorem allocArray_complete (dest : Nat) (addr : Addr) (empty : Bool) (n : Nat) :
    ∃ addr' m, allocArray dest addr empty n = some (addr', m) ∧ n ≤ m ∧
      New dest n (arrayAddr addr' empty) := by
  cases empty with
  | true => exact ⟨addr, n, rfl, Nat.le_refl _, New.nil⟩
  | false => exact ⟨⟨dest, n⟩, n + 1, rfl, Nat.le_succ n, New.nil.cons⟩

theorem copyFields_bits (pool : Pool) (dest : Nat) : ∀ (fields : Fields Addr D) (n : Nat),
    copyFields pool dest [] fields n = some (fields, n)
  | .nil, _ => rfl
  | .word _ rest, n | .double _ rest, n => bind_some.mpr ⟨rest, n, copyFields_bits pool dest rest n, rfl⟩
  | .text s rest, n =>
    bind_some.mpr ⟨s, n, rfl, bind_some.mpr ⟨rest, n, copyFields_bits pool dest rest n, rfl⟩⟩
  | .texts _ _ rest, n | .child _ rest, n | .children _ _ rest, n =>
    bind_some.mpr ⟨rest, n, copyFields_bits pool dest rest n, rfl⟩

theorem Fields.Bare.addresses_nil : ∀ {fields : Fields Addr D}, fields.Bare → fields.addresses = []
  | .nil, _ => rfl
  | .word _ rest, h | .double _ rest, h => by
    have hrest : rest.addresses = [] := addresses_nil h
    exact hrest
  | .text _ rest, ⟨hs, h⟩ => by
    subst hs
    have hrest : rest.addresses = [] := addresses_nil h
    exact hrest
  | .texts _ _ rest, ⟨hss, h⟩ => by
    subst hss
    have hrest : rest.addresses = [] := addresses_nil h
    exact hrest
  | .child _ rest, ⟨hc, h⟩ => by
    subst hc
    have hrest : rest.addresses = [] := addresses_nil h
    exact hrest
  | .children _ _ rest, ⟨hcs, h⟩ => by
    subst hcs
    have hrest : rest.addresses = [] := addresses_nil h
    exact hrest

/-! A copyable tree is copied completely. -/

section Complete
variable (pool : Pool) (dest : Nat)

mutual
theorem nodeCopy_complete : ∀ (p : Ptr Addr D) (n : Nat), p.WellFormed → p.Copyable pool →
    ∃ q m, nodeCopy pool dest p n = some (q, m) ∧ n ≤ m ∧ q.tree = p.tree ∧ New dest n q.addresses
  | .null, n, _, _ => ⟨.null, n, rfl, Nat.le_refl _, rfl, New.nil⟩
  | .node addr type line column inferredType fields, n, hw, ⟨hbare, hcopy⟩ => by
    have hfields : ∃ fs m, copyFields pool dest (copyRule type) fields (n + 1) = some (fs, m) ∧
        n + 1 ≤ m ∧ fs.tree = fields.tree ∧ New dest (n + 1) fs.addresses := by
      cases hcase : noCase type with
      | true =>
        rw [rule_of_noCase type hcase]
        refine ⟨fields, n + 1, copyFields_bits pool dest fields _, Nat.le_refl _, rfl, ?_⟩
        rw [(hbare hcase).addresses_nil]
        exact New.nil
      | false =>
        exact copyFields_complete fields (n + 1) type (layout type) (copyRule type) hw
          (rule_covers type hcase) (hcopy hcase)
    obtain ⟨fs, m, hrun, hle, htree, hnew⟩ := hfields
    refine ⟨.node ⟨dest, n⟩ type line column inferredType fs, m, ?_, by omega, ?_, ?_⟩
    · exact bind_some.mpr ⟨_, _, rfl, bind_some.mpr ⟨fs, m, hrun, rfl⟩⟩
    · show Ptr.node () type line column inferredType fs.tree = _
      rw [htree]
      rfl
    · exact (hnew.mono (Nat.le_succ n)).cons

theorem copyFields_complete : ∀ (fields : Fields Addr D) (n : Nat) (type : NodeType)
    (ks : List FieldKind) (ts : List Treatment), fields.Fits ks → covered type ks ts = true →
    fields.Copyable pool type →
    ∃ fs m, copyFields pool dest ts fields n = some (fs, m) ∧ n ≤ m ∧ fs.tree = fields.tree ∧
      New dest n fs.addresses
  | .nil, n, _, _, _, _, _, _ => ⟨.nil, n, rfl, Nat.le_refl _, rfl, New.nil⟩
  | .word i rest, n, type, _, ts, ⟨ks, rfl, hfit⟩, hcov, hk => by
    obtain ⟨fs, m, hrun, hle, htree, hnew⟩ :=
      copyFields_complete rest n type ks ts.tail hfit hcov hk
    refine ⟨.word i fs, m, bind_some.mpr ⟨fs, m, hrun, rfl⟩, hle, ?_, hnew⟩
    show Fields.word i fs.tree = _
    rw [htree]
    rfl
  | .double x rest, n, type, _, ts, ⟨ks, rfl, hfit⟩, hcov, hk => by
    obtain ⟨fs, m, hrun, hle, htree, hnew⟩ :=
      copyFields_complete rest n type ks ts.tail hfit hcov hk
    refine ⟨.double x fs, m, bind_some.mpr ⟨fs, m, hrun, rfl⟩, hle, ?_, hnew⟩
    show Fields.double x fs.tree = _
    rw [htree]
    rfl
  | .text s rest, n, type, _, ts, ⟨ks, rfl, hfit⟩, hcov, ⟨hnul, hk⟩ => by
    obtain ⟨ht, hcov⟩ := Bool.and_eq_true_iff.mp hcov
    obtain ⟨s', n', hs, hle, hdrop, hnew⟩ := copyText_complete dest type hnul n
    rw [← beq_iff_eq.mp ht] at hs
    obtain ⟨fs, m, hrun, hle', htree, hnew'⟩ :=
      copyFields_complete rest n' type ks ts.tail hfit hcov hk
    refine ⟨.text s' fs, m, ?_, Nat.le_trans hle hle', ?_, hnew.append (hnew'.mono hle)⟩
    · exact bind_some.mpr ⟨s', n', hs, bind_some.mpr ⟨fs, m, hrun, rfl⟩⟩
    · show Fields.text (dropText s') fs.tree = _
      rw [htree, hdrop]
      rfl
  | .texts addr ss rest, n, type, _, ts, ⟨ks, rfl, hfit⟩, hcov, ⟨hnull, hnul, hk⟩ => by
    obtain ⟨ht, hcov⟩ := Bool.and_eq_true_iff.mp hcov
    obtain ⟨addr', n₁, harr, hle₁, hnew₁⟩ := allocArray_complete dest addr ss.isEmpty n
    obtain ⟨ss', n₂, hss, hle₂, hdrop, hempty, hnew₂⟩ :=
      copyTexts_complete pool dest ss hnull hnul n₁
    obtain ⟨fs, m, hrun, hle₃, htree, hnew₃⟩ :=
      copyFields_complete rest n₂ type ks ts.tail hfit hcov hk
    refine ⟨.texts addr' ss' fs, m, ?_, by omega, ?_, ?_⟩
    · show (match ts.headD .bits with
        | .strdupAll => _
        | _ => _ : Alloc (Fields Addr D)) n = _
      rw [beq_iff_eq.mp ht]
      exact bind_some.mpr ⟨addr', n₁, harr, bind_some.mpr ⟨ss', n₂, hss, bind_some.mpr ⟨fs, m, hrun, rfl⟩⟩⟩
    · show Fields.texts () (ss'.map dropText) fs.tree = _
      rw [htree, hdrop]
      rfl
    · show New dest n (arrayAddr addr' ss'.isEmpty ++ ss'.flatMap textAddr ++ fs.addresses)
      rw [hempty]
      exact (hnew₁.append (hnew₂.mono hle₁)).append (hnew₃.mono (by omega))
  | .child c rest, n, type, _, ts, ⟨ks, rfl, hw, hfit⟩, hcov, ⟨hc, hk⟩ => by
    obtain ⟨ht, hcov⟩ := Bool.and_eq_true_iff.mp hcov
    obtain ⟨c', n', hchild, hle, hctree, hnew⟩ := nodeCopy_complete c n hw hc
    obtain ⟨fs, m, hrun, hle', htree, hnew'⟩ :=
      copyFields_complete rest n' type ks ts.tail hfit hcov hk
    refine ⟨.child c' fs, m, ?_, Nat.le_trans hle hle', ?_, hnew.append (hnew'.mono hle)⟩
    · show (match ts.headD .bits with
        | .copy => _
        | _ => _ : Alloc (Fields Addr D)) n = _
      rw [beq_iff_eq.mp ht]
      exact bind_some.mpr ⟨c', n', hchild, bind_some.mpr ⟨fs, m, hrun, rfl⟩⟩
    · show Fields.child c'.tree fs.tree = _
      rw [htree, hctree]
      rfl
  | .children addr cs rest, n, type, _, ts, ⟨ks, rfl, hw, hfit⟩, hcov, ⟨hcs, hk⟩ => by
    obtain ⟨ht, hcov⟩ := Bool.and_eq_true_iff.mp hcov
    obtain ⟨addr', n₁, harr, hle₁, hnew₁⟩ := allocArray_complete dest addr cs.isNil n
    obtain ⟨cs', n₂, hptrs, hle₂, hctree, hnil, hnew₂⟩ := copyPtrs_complete cs n₁ hw hcs
    obtain ⟨fs, m, hrun, hle₃, htree, hnew₃⟩ :=
      copyFields_complete rest n₂ type ks ts.tail hfit hcov hk
    refine ⟨.children addr' cs' fs, m, ?_, by omega, ?_, ?_⟩
    · show (match ts.headD .bits with
        | .copyAll => _
        | _ => _ : Alloc (Fields Addr D)) n = _
      rw [beq_iff_eq.mp ht]
      exact bind_some.mpr ⟨addr', n₁, harr, bind_some.mpr ⟨cs', n₂, hptrs,
        bind_some.mpr ⟨fs, m, hrun, rfl⟩⟩⟩
    · show Fields.children () cs'.tree fs.tree = _
      rw [htree, hctree]
      rfl
    · show New dest n (arrayAddr addr' cs'.isNil ++ cs'.addresses ++ fs.addresses)
      rw [hnil]
      exact (hnew₁.append (hnew₂.mono hle₁)).append (hnew₃.mono (by omega))

theorem copyPtrs_complete : ∀ (cs : Ptrs Addr D) (n : Nat), cs.WellFormed → cs.Copyable pool →
    ∃ cs' m, copyPtrs pool dest cs n = some (cs', m) ∧ n ≤ m ∧ cs'.tree = cs.tree ∧
      cs'.isNil = cs.isNil ∧ New dest n cs'.addresses
  | .nil, n, _, _ => ⟨.nil, n, rfl, Nat.le_refl _, rfl, rfl, New.nil⟩
  | .cons c cs, n, ⟨hw, hws⟩, ⟨hc, hcs⟩ => by
    obtain ⟨c', n', hchild, hle, hctree, hnew⟩ := nodeCopy_complete c n hw hc
    obtain ⟨cs', m, hptrs, hle', htree, -, hnew'⟩ := copyPtrs_complete cs n' hws hcs
    refine ⟨.cons c' cs', m, ?_, Nat.le_trans hle hle', ?_, rfl, hnew.append (hnew'.mono hle)⟩
    · exact bind_some.mpr ⟨c', n', hchild, bind_some.mpr ⟨cs', m, hptrs, rfl⟩⟩
    · show Ptrs.cons c'.tree cs'.tree = _
      rw [htree, hctree]
      rfl
end

end Complete

/-! A tree that is copied completely is copyable. -/

theorem bare_of_addresses : ∀ (fields : Fields Addr D), fields.addresses = [] → fields.Bare
  | .nil, _ => trivial
  | .word _ rest, h | .double _ rest, h => bare_of_addresses rest h
  | .text s rest, h => by
    obtain ⟨hs, h⟩ := List.append_eq_nil_iff.mp h
    refine ⟨?_, bare_of_addresses rest h⟩
    cases s with
    | none => rfl
    | some p => cases hs
  | .texts _ ss rest, h => by
    obtain ⟨hss, h⟩ := List.append_eq_nil_iff.mp h
    refine ⟨?_, bare_of_addresses rest h⟩
    cases ss with
    | nil => rfl
    | cons s ss => cases hss
  | .child c rest, h => by
    obtain ⟨hc, h⟩ := List.append_eq_nil_iff.mp h
    refine ⟨?_, bare_of_addresses rest h⟩
    cases c with
    | null => rfl
    | node addr type line column inferredType fields => cases hc
  | .children _ cs rest, h => by
    obtain ⟨hcs, h⟩ := List.append_eq_nil_iff.mp h
    refine ⟨?_, bare_of_addresses rest h⟩
    cases cs with
    | nil => rfl
    | cons c cs => cases hcs

theorem copyText_uncut {m : Nat} {type : NodeType} {s s' : Option (Addr × List Char)}
    (hrun : copyText dest (if type = .string then .memdup else .strdup) s n = some (s', m))
    (htree : dropText s' = dropText s) (htype : type ≠ .string) :
    ∀ p, s = some p → '\x00' ∉ p.2 := by
  rintro ⟨a, cs⟩ rfl
  rw [if_neg htype] at hrun
  cases hrun
  have hcut : cstr cs = cs := congrArg Prod.snd (Option.some.inj htree)
  exact (cstr_eq_self cs).mp hcut

theorem copyTexts_uncut (pool : Pool) (dest : Nat) (ss ss' : List (Option (Addr × List Char)))
    {m : Nat} (hrun : copyTexts pool dest ss n = some (ss', m))
    (htree : ss'.map dropText = ss.map dropText) :
    (none ∈ ss → pool.dupNull = true) ∧ ∀ p, some p ∈ ss → '\x00' ∉ p.2 := by
  induction ss generalizing ss' n m with
  | nil => exact ⟨fun h => (List.not_mem_nil h).elim, fun p h => (List.not_mem_nil h).elim⟩
  | cons s ss ih =>
    cases s with
    | none =>
      cases hdup : pool.dupNull with
      | false =>
        unfold copyTexts at hrun
        rw [hdup, if_neg Bool.false_ne_true] at hrun
        cases hrun
      | true =>
        unfold copyTexts at hrun
        rw [if_pos hdup, bind_some] at hrun
        obtain ⟨rest, k, hrest, hret⟩ := hrun
        cases hret
        obtain ⟨-, htail⟩ := List.cons.inj htree
        obtain ⟨-, hnul⟩ := ih rest hrest htail
        refine ⟨fun _ => rfl, fun p hp => ?_⟩
        cases List.mem_cons.mp hp with
        | inl h => cases h
        | inr h => exact hnul p h
    | some q =>
      obtain ⟨a, cs⟩ := q
      unfold copyTexts at hrun
      rw [bind_some] at hrun
      obtain ⟨s', k, hdup, hrun⟩ := hrun
      rw [bind_some] at hrun
      obtain ⟨rest, k', hrest, hret⟩ := hrun
      cases hret
      cases hdup
      obtain ⟨hhead, htail⟩ := List.cons.inj htree
      obtain ⟨hnull, hnul⟩ := ih rest hrest htail
      have hcut : cstr cs = cs := congrArg Prod.snd (Option.some.inj hhead)
      refine ⟨fun h => hnull ?_, fun p hp => ?_⟩
      · cases List.mem_cons.mp h with
        | inl h => cases h
        | inr h => exact h
      · cases List.mem_cons.mp hp with
        | inl h =>
          cases h
          exact (cstr_eq_self cs).mp hcut
        | inr h => exact hnul p h

/-- Two lists of addresses that do not meet, part by part. -/
def Apart (l l' : List Addr) : Prop := ∀ a ∈ l, a ∉ l'

theorem Apart.left {l₁ l₂ l₁' l₂' : List Addr} (h : Apart (l₁ ++ l₂) (l₁' ++ l₂')) : Apart l₁ l₁' :=
  fun a ha ha' => h a (List.mem_append_left _ ha) (List.mem_append_left _ ha')

theorem Apart.right {l₁ l₂ l₁' l₂' : List Addr} (h : Apart (l₁ ++ l₂) (l₁' ++ l₂')) : Apart l₂ l₂' :=
  fun a ha ha' => h a (List.mem_append_right _ ha) (List.mem_append_right _ ha')

theorem Apart.eq_nil (h : Apart l l) : l = [] :=
  List.eq_nil_iff_forall_not_mem.mpr fun a ha => h a ha ha

section Copyable
variable (pool : Pool) (dest : Nat)

mutual
theorem nodeCopy_copyable : ∀ (p q : Ptr Addr D) (n m : Nat), p.WellFormed →
    nodeCopy pool dest p n = some (q, m) → q.tree = p.tree → Apart q.addresses p.addresses →
    p.Copyable pool
  | .null, _, _, _, _, _, _, _ => trivial
  | .node addr type line column inferredType fields, q, n, m, hw, hrun, htree, hapart => by
    obtain ⟨a, n', -, hrun⟩ := bind_some.mp hrun
    obtain ⟨fs, m', hfields, hret⟩ := bind_some.mp hrun
    obtain ⟨rfl, -⟩ := Prod.mk.inj (Option.some.inj hret)
    have htree : fs.tree = fields.tree := (Ptr.node.inj htree).2.2.2.2.2
    have hapart : Apart fs.addresses fields.addresses :=
      @Apart.right [a] _ [addr] _ hapart
    refine ⟨fun hcase => ?_, fun hcase => ?_⟩
    · -- no case: the fields of the copy are those of the original
      rw [rule_of_noCase type hcase, copyFields_bits] at hfields
      cases hfields
      exact bare_of_addresses _ hapart.eq_nil
    · exact copyFields_copyable fields fs n' m' type (layout type) (copyRule type) hw
        (rule_covers type hcase) hfields htree hapart

theorem copyFields_copyable : ∀ (fields fs : Fields Addr D) (n m : Nat) (type : NodeType)
    (ks : List FieldKind) (ts : List Treatment), fields.Fits ks → covered type ks ts = true →
    copyFields pool dest ts fields n = some (fs, m) → fs.tree = fields.tree →
    Apart fs.addresses fields.addresses → fields.Copyable pool type
  | .nil, _, _, _, _, _, _, _, _, _, _, _ => trivial
  | .word i rest, fs, n, m, type, _, ts, ⟨ks, rfl, hfit⟩, hcov, hrun, htree, hapart => by
    obtain ⟨rs, k, hrest, hret⟩ := bind_some.mp hrun
    obtain ⟨rfl, -⟩ := Prod.mk.inj (Option.some.inj hret)
    exact copyFields_copyable rest rs n k type ks ts.tail hfit hcov hrest (Fields.word.inj htree).2 hapart
  | .double x rest, fs, n, m, type, _, ts, ⟨ks, rfl, hfit⟩, hcov, hrun, htree, hapart => by
    obtain ⟨rs, k, hrest, hret⟩ := bind_some.mp hrun
    obtain ⟨rfl, -⟩ := Prod.mk.inj (Option.some.inj hret)
    exact copyFields_copyable rest rs n k type ks ts.tail hfit hcov hrest (Fields.double.inj htree).2 hapart
  | .text s rest, fs, n, m, type, _, ts, ⟨ks, rfl, hfit⟩, hcov, hrun, htree, hapart => by
    obtain ⟨ht, hcov⟩ := Bool.and_eq_true_iff.mp hcov
    obtain ⟨s', n', hs, hrun⟩ := bind_some.mp hrun
    obtain ⟨rs, k, hrest, hret⟩ := bind_some.mp hrun
    obtain ⟨rfl, -⟩ := Prod.mk.inj (Option.some.inj hret)
    obtain ⟨hdrop, htree⟩ := Fields.text.inj htree
    rw [beq_iff_eq.mp ht] at hs
    exact ⟨copyText_uncut hs hdrop,
      copyFields_copyable rest rs n' k type ks ts.tail hfit hcov hrest htree hapart.right⟩
  | .texts addr ss rest, fs, n, m, type, _, ts, ⟨ks, rfl, hfit⟩, hcov, hrun, htree, hapart => by
    obtain ⟨ht, hcov⟩ := Bool.and_eq_true_iff.mp hcov
    have hrun : (match ts.headD .bits with
        | .strdupAll => _
        | _ => _ : Alloc (Fields Addr D)) n = some (fs, m) := hrun
    rw [beq_iff_eq.mp ht] at hrun
    obtain ⟨addr', n₁, -, hrun⟩ := bind_some.mp hrun
    obtain ⟨ss', n₂, hss, hrun⟩ := bind_some.mp hrun
    obtain ⟨rs, k, hrest, hret⟩ := bind_some.mp hrun
    obtain ⟨rfl, -⟩ := Prod.mk.inj (Option.some.inj hret)
    obtain ⟨-, hdrop, htree⟩ := Fields.texts.inj htree
    obtain ⟨hnull, hnul⟩ := copyTexts_uncut pool dest ss ss' hss hdrop
    exact ⟨hnull, hnul, copyFields_copyable rest rs n₂ k type ks ts.tail hfit hcov hrest htree hapart.right⟩
  | .child c rest, fs, n, m, type, _, ts, ⟨ks, rfl, hw, hfit⟩, hcov, hrun, htree, hapart => by
    obtain ⟨ht, hcov⟩ := Bool.and_eq_true_iff.mp hcov
    have hrun : (match ts.headD .bits with
        | .copy => _
        | _ => _ : Alloc (Fields Addr D)) n = some (fs, m) := hrun
    rw [beq_iff_eq.mp ht] at hrun
    obtain ⟨c', n', hc, hrun⟩ := bind_some.mp hrun
    obtain ⟨rs, k, hrest, hret⟩ := bind_some.mp hrun
    obtain ⟨rfl, -⟩ := Prod.mk.inj (Option.some.inj hret)
    obtain ⟨hctree, htree⟩ := Fields.child.inj htree
    exact ⟨nodeCopy_copyable c c' n n' hw hc hctree hapart.left,
      copyFields_copyable rest rs n' k type ks ts.tail hfit hcov hrest htree hapart.right⟩
  | .children addr cs rest, fs, n, m, type, _, ts, ⟨ks, rfl, hw, hfit⟩, hcov, hrun, htree,
      hapart => by
    obtain ⟨ht, hcov⟩ := Bool.and_eq_true_iff.mp hcov
    have hrun : (match ts.headD .bits with
        | .copyAll => _
        | _ => _ : Alloc (Fields Addr D)) n = some (fs, m) := hrun
    rw [beq_iff_eq.mp ht] at hrun
    obtain ⟨addr', n₁, -, hrun⟩ := bind_some.mp hrun
    obtain ⟨cs', n₂, hcs, hrun⟩ := bind_some.mp hrun
    obtain ⟨rs, k, hrest, hret⟩ := bind_some.mp hrun
    obtain ⟨rfl, -⟩ := Prod.mk.inj (Option.some.inj hret)
    obtain ⟨-, hctree, htree⟩ := Fields.children.inj htree
    exact ⟨copyPtrs_copyable cs cs' n₁ n₂ hw hcs hctree hapart.left.right,
      copyFields_copyable rest rs n₂ k type ks ts.tail hfit hcov hrest htree hapart.right⟩

theorem copyPtrs_copyable : ∀ (cs cs' : Ptrs Addr D) (n m : Nat), cs.WellFormed →
    copyPtrs pool dest cs n = some (cs', m) → cs'.tree = cs.tree →
    Apart cs'.addresses cs.addresses → cs.Copyable pool
  | .nil, _, _, _, _, _, _, _ => trivial
  | .cons c cs, _, n, m, ⟨hw, hws⟩, hrun, htree, hapart => by
    obtain ⟨c', n', hc, hrun⟩ := bind_some.mp hrun
    obtain ⟨cs', k, hcs, hret⟩ := bind_some.mp hrun
    obtain ⟨rfl, -⟩ := Prod.mk.inj (Option.some.inj hret)
    obtain ⟨hctree, htree⟩ := Ptrs.cons.inj htree
    exact ⟨nodeCopy_copyable c c' n n' hw hc hctree hapart.left,
      copyPtrs_copyable cs cs' n' k hws hcs htree hapart.right⟩
end

end Copyable

/-- A well-formed tree is copied completely exactly if it is copyable: no `yield`, generator,
    class, method, field, `new` or `super` node in it points to anything, no string but a
    literal has a NUL, and a map entry without a key is taken by the pool library. -/
theorem copy_complete_iff (pool : Pool) (dest n : Nat) (src : Ptr Addr D) (hw : src.WellFormed)
    (halloc : Allocated dest n src.addresses) :
    CopiesCompletely pool dest n src ↔ src.Copyable pool := by
  constructor
  · rintro ⟨dst, m, hrun, htree, hapart, -⟩
    exact nodeCopy_copyable pool dest src dst n m hw hrun htree hapart
  · intro hk
    obtain ⟨dst, m, hrun, -, htree, hnew⟩ := nodeCopy_complete pool dest src n hw hk
    refine ⟨dst, m, hrun, htree, ?_, ?_⟩
    · -- what is new in the destination is at or past the free address
      intro a ha hmem
      obtain ⟨harena, hslot⟩ := hnew a ha
      have hlt : a.slot < n := halloc a hmem harena
      omega
    · intro arena harena _
      unfold readAfterRelease
      rw [if_pos, htree]
      intro a ha h
      exact harena (h.symm.trans (hnew a ha).1)

end Copy

section Samples

/-- `(a + 1)` in arena 0: a binary node (0) over a variable (1, its name at 2) and an
    integer (3). -/
def sampleSum : Ptr Addr ℕ :=
  .node ⟨0, 0⟩ .binaryOp 1 1 (-1) (.word 7 (.child
      (.node ⟨0, 1⟩ .varRef 1 1 (-1) (.text (some (⟨0, 2⟩, ['a'])) .nil))
      (.child (.node ⟨0, 3⟩ .integer 1 5 (-1) (.word 1 .nil)) .nil)))

/-- `new C()` in arena 0. -/
def sampleNew : Ptr Addr ℕ :=
  .node ⟨0, 0⟩ .newExpr 1 1 (-1) (.text (some (⟨0, 1⟩, ['C'])) (.children ⟨0, 2⟩ .nil .nil))

theorem sampleSum_copied : CopiesCompletely ⟨false⟩ 1 0 sampleSum := by
  apply (copy_complete_iff ⟨false⟩ 1 0 sampleSum ?_ ?_).mpr
  · refine ⟨nofun, fun _ => ⟨⟨nofun, fun _ => ⟨?_, trivial⟩⟩, ⟨nofun, fun _ => trivial⟩, trivial⟩⟩
    rintro - p hp
    cases hp
    decide
  · exact ⟨_, rfl, _, rfl, ⟨_, rfl, rfl⟩, _, rfl, ⟨_, rfl, rfl⟩, rfl⟩
  · show ∀ a ∈ sampleSum.addresses, a.arena = 1 → a.slot < 0
    decide

/-- The copy of `new C()` keeps the original's class name, which is gone with the arena. -/
theorem sampleNew_shares_name :
    let src := sampleNew
    ∃ dst m, nodeCopy ⟨true⟩ 1 src 0 = some (dst, m) ∧ (⟨0, 1⟩ : Addr) ∈ dst.addresses ∧
      (⟨0, 1⟩ : Addr) ∈ src.addresses ∧ readAfterRelease 0 dst = none ∧
      ¬CopiesCompletely ⟨true⟩ 1 0 src := by
  refine ⟨_, _, rfl, by decide, by decide, rfl, ?_⟩
  rintro ⟨dst, m, hrun, -, hapart, -⟩
  cases hrun
  exact hapart ⟨0, 1⟩ (by decide) (by decide)

end Samples

end TurboScript.Exprtk.NodeCopy
