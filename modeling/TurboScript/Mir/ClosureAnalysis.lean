import TurboScript.Exprtk.Value

/- The capture analysis of compiled functions (`ts_analyze_closure`).

   1. The analysis: one pass that collects names read, assigned and defined. It has a case for
      some node kinds only, and skips the others with everything below them.
   2. Occurrences: every place where a body, or a closure in it, reads or writes a variable,
      in evaluation order, and whether the pass gets there.
   3. The captured names are complete exactly when every free variable is seen read, is no loop
      variable, and is bound outside if it is seen assigned.

   A called name is no variable here: calls are resolved by name at run time. -/
namespace TurboScript.Mir
open Exprtk (Node)

abbrev VarName := Exprtk.Name

section Analysis
variable {D : Type}

structure Analysis where
  used : List VarName := []
  defined : List VarName := []
  assigned : List VarName := []
  readBeforeAssignment : List VarName := []
  hasNestedClosure : Bool := false
  deriving DecidableEq, Repr

def varSetAdd (set : List VarName) (x : VarName) : List VarName := if x ∈ set then set else set ++ [x]

theorem mem_varSetAdd {set : List VarName} {x y : VarName} : y ∈ varSetAdd set x ↔ y ∈ set ∨ y = x := by
  unfold varSetAdd
  by_cases h : x ∈ set
  · rw [if_pos h]
    constructor
    · exact .inl
    · rintro (hy | rfl)
      · exact hy
      · exact h
  · rw [if_neg h, List.mem_append, List.mem_singleton]

/-- `ts_analyze_variable`; no caller asks for the left side of an assignment. -/
def analyzeVariable (x : VarName) (a : Analysis) : Analysis :=
  { a with
    readBeforeAssignment :=
      if x ∈ a.defined ∨ x ∈ a.assigned then a.readBeforeAssignment
      else varSetAdd a.readBeforeAssignment x
    used := varSetAdd a.used x }

mutual
def analyzeNode : Node D → Analysis → Analysis
  | .varRef x, a => analyzeVariable x a
  | .assignment x value, a =>
    let a := analyzeNode value a
    { a with assigned := varSetAdd a.assigned x }
  | .functionDefinition _ _ _, a => { a with hasNestedClosure := true }
  | .functionExpression _ _, a => { a with hasNestedClosure := true }
  | .binary _ left right, a => analyzeNode right (analyzeOpt left a)
  | .functionCall _ args, a => analyzeNodes args a
  | .ifStmt c t f, a => analyzeOpt f (analyzeOpt t (analyzeNode c a))
  | .whileLoop c body, a => analyzeNode body (analyzeNode c a)
  | .forLoop init c post body, a =>
    analyzeNode body (analyzeOpt post (analyzeOpt c (analyzeOpt init a)))
  | .block statements, a => analyzeNodes statements a
  | .flowReturn value, a => analyzeOpt value a
  | .vector elements, a => analyzeNodes elements a
  | .index array index, a => analyzeNode index (analyzeNode array a)
  | .memberCall object _ args, a => analyzeNodes args (analyzeNode object a)
  | .memberAccess object _, a => analyzeNode object a
  | .forIn x collection body, a =>
    analyzeNode body (analyzeNode collection { a with defined := varSetAdd a.defined x })
  -- the default case visits nothing
  | _, a => a

def analyzeOpt : Option (Node D) → Analysis → Analysis
  | none, a => a
  | some node, a => analyzeNode node a

def analyzeNodes : List (Node D) → Analysis → Analysis
  | [], a => a
  | node :: nodes, a => analyzeNodes nodes (analyzeNode node a)
end

/-- `ts_outer_scope_defines_name`: the direct statements of the module only. -/
def outerScopeDefinesName (x : VarName) : Node D → Bool
  | .assignment name _ | .constantDecl name _ => name == x
  | .block statements => statements.any fun s => match s with
    | .assignment name _ | .constantDecl name _ => name == x
    | _ => false
  | _ => false

def paramDefines : Node D → List VarName
  | .varRef x => [x]
  | .assignment x _ => [x]
  | _ => []

structure ClosureAnalysis where
  capturedVars : List VarName
  canJit : Bool
  reason : Option String
  deriving DecidableEq, Repr

/-- `ts_analyze_closure`; `envHas` are the names bound in the closure environment. -/
def analyzeClosure (body : Node D) (params : List (Node D)) (envHas : VarName → Bool)
    (outerScope : Node D) : ClosureAnalysis :=
  let a := analyzeNode body { defined := params.flatMap paramDefines }
  let candidates := a.used.filter fun x => !a.defined.contains x
  let isLocal := fun x =>
    a.assigned.contains x && !envHas x && !outerScopeDefinesName x outerScope
  let free := candidates.filter fun x => !isLocal x
  let unbound := candidates.any fun x => isLocal x && a.readBeforeAssignment.contains x
  if unbound then ⟨free, false, some "unbound assignment requires interpreter scope"⟩
  else if a.hasNestedClosure then ⟨free, false, some "nested closure not supported"⟩
  else if 10 < free.length then ⟨free, false, some "too many captured variables (max 10)"⟩
  else ⟨free, true, none⟩

end Analysis

/-! Occurrences. -/

inductive Access
  | read
  | write
  | loopVariable
  deriving DecidableEq, Repr

/-- A place where a variable is read or written; `seen` when the analysis gets there. -/
structure Occurrence where
  name : VarName
  access : Access
  seen : Bool
  deriving DecidableEq, Repr

section Occurrences
variable {D : Type} (placeholders : String → List (VarName × Access))

mutual
def patternNames : Node D → List VarName
  | .varRef x => [x]
  | .assignment x _ => [x]
  | .memberAccess object _ => patternNames object
  | .spread child => patternNames child
  | .vector elements => patternNamesList elements
  | .mapLiteral entries => patternEntries entries
  | _ => []

def patternNamesList : List (Node D) → List VarName
  | [] => []
  | node :: nodes => patternNames node ++ patternNamesList nodes

def patternEntries : List (Option VarName × Node D) → List VarName
  | [] => []
  | (_, node) :: entries => patternNames node ++ patternEntries entries
end

def hide (names : List VarName) (os : List Occurrence) : List Occurrence :=
  os.filter fun o => !names.contains o.name

/-- Occurrences below a node the analysis does not enter. -/
def unseen (os : List Occurrence) : List Occurrence := os.map fun o => { o with seen := false }

def reading (x : VarName) : Occurrence := ⟨x, .read, true⟩
def writing (x : VarName) : Occurrence := ⟨x, .write, true⟩

mutual
/-- The occurrences of a node, in evaluation order. The placeholders of a template are what
    the parser finds in its text. -/
def occurrences : Node D → List Occurrence
  | .number _ | .integer _ | .string _ | .null | .flowBreak | .flowContinue | .thisExpr => []
  | .varRef x => [reading x]
  | .assignment x value => occurrences value ++ [writing x]
  | .binary _ left right => occurrencesOpt left ++ occurrences right
  | .functionCall _ args => occurrencesList args
  | .ifStmt c t f => occurrences c ++ occurrencesOpt t ++ occurrencesOpt f
  | .whileLoop c body => occurrences c ++ occurrences body
  | .forLoop init c post body =>
    occurrencesOpt init ++ occurrencesOpt c ++ occurrences body ++ occurrencesOpt post
  | .block statements => occurrencesList statements
  | .flowReturn value => occurrencesOpt value
  | .vector elements => occurrencesList elements
  | .index array index => occurrences array ++ occurrences index
  | .memberCall object _ args => occurrences object ++ occurrencesList args
  | .memberAccess object _ => occurrences object
  | .forIn x collection body =>
    occurrences collection ++ [⟨x, .loopVariable, true⟩] ++ occurrences body
  -- from here on the kinds the analysis has no case for, or does not enter
  | .functionDefinition _ params body | .functionExpression params body
  | .generator _ params body | .method _ params body _ _ _ _ _ =>
    unseen (hide (patternNamesList params) (occurrencesDefaults params ++ occurrences body))
  | .templateString text => (placeholders text).map fun p => ⟨p.1, p.2, false⟩
  | .constantDecl x value => unseen (occurrences value ++ [writing x])
  | .destructuring targets value _ =>
    unseen (occurrences value ++ (patternNames targets).map writing)
  | .doWhile body c => unseen (occurrences body ++ occurrences c)
  | .mapLiteral entries => unseen (occurrencesEntries entries)
  | .slice array start stop =>
    unseen (occurrences array ++ occurrencesOpt start ++ occurrencesOpt stop)
  | .spread child => unseen (occurrences child)
  | .memberSet object _ value => unseen (occurrences object ++ occurrences value)
  | .switch value cases defaultCase =>
    unseen (occurrences value ++ occurrencesList cases ++ occurrencesOpt defaultCase)
  | .throwStmt value => unseen (occurrencesOpt value)
  | .tryCatch tryBody catchVar catchBody =>
    unseen (occurrences tryBody ++ hide catchVar.toList (occurrences catchBody))
  | .yieldExpr value => unseen (occurrencesOpt value)
  | .classDef _ _ _ ctor members _ _ _ => unseen (occurrencesOpt ctor ++ occurrencesList members)
  | .fieldDecl _ _ initializer _ _ => unseen (occurrencesOpt initializer)
  | .newExpr _ args => unseen (occurrencesList args)
  | .superExpr _ args _ => unseen (occurrencesList args)
  | .instanceOf object _ classExpr => unseen (occurrences object ++ occurrencesOpt classExpr)

def occurrencesOpt : Option (Node D) → List Occurrence
  | none => []
  | some node => occurrences node

def occurrencesList : List (Node D) → List Occurrence
  | [] => []
  | node :: nodes => occurrences node ++ occurrencesList nodes

def occurrencesEntries : List (Option VarName × Node D) → List Occurrence
  | [] => []
  | (_, node) :: entries => occurrences node ++ occurrencesEntries entries

def occurrencesDefaults : List (Node D) → List Occurrence
  | [] => []
  | .assignment _ value :: params => occurrences value ++ occurrencesDefaults params
  | _ :: params => occurrencesDefaults params
end

end Occurrences

/-! What the analysis collects. -/

section Collected
variable {D : Type} (placeholders : String → List (VarName × Access))

def Analysis.recorded (a : Analysis) : Access → List VarName
  | .read => a.used
  | .write => a.assigned
  | .loopVariable => a.defined

/-- What an analysis has recorded of an access after a piece of code: what it had, and what
    it sees there. -/
def Records (a a' : Analysis) (os : List Occurrence) : Prop :=
  ∀ k x, x ∈ a'.recorded k ↔ x ∈ a.recorded k ∨ ⟨x, k, true⟩ ∈ os

theorem Records.nil (a : Analysis) : Records a a [] := by
  intro k x
  simp

theorem Records.append {a a' a'' : Analysis} {os os' : List Occurrence} (h : Records a a' os)
    (h' : Records a' a'' os') : Records a a'' (os ++ os') := by
  intro k x
  rw [h' k x, h k x, List.mem_append, or_assoc]

theorem Records.swap {a a' : Analysis} {os os' : List Occurrence} (h : Records a a' (os ++ os')) :
    Records a a' (os' ++ os) := by
  intro k x
  rw [h k x, List.mem_append, List.mem_append, @or_comm (_ ∈ os)]

theorem Records.unseen (a : Analysis) (os : List Occurrence) : Records a a (unseen os) := by
  intro k x
  simp [Mir.unseen]

theorem analyzeVariable_records (x : VarName) (a : Analysis) :
    Records a (analyzeVariable x a) [reading x] := by
  intro k y
  cases k with
  | read => simp [Analysis.recorded, analyzeVariable, mem_varSetAdd, reading]
  | write | loopVariable => simp [Analysis.recorded, analyzeVariable, reading]

theorem assigned_records (x : VarName) (a : Analysis) :
    Records a { a with assigned := varSetAdd a.assigned x } [writing x] := by
  intro k y
  cases k with
  | read => simp [Analysis.recorded, writing]
  | write => simp [Analysis.recorded, mem_varSetAdd, writing]
  | loopVariable => simp [Analysis.recorded, writing]

theorem defined_records (x : VarName) (a : Analysis) :
    Records a { a with defined := varSetAdd a.defined x } [⟨x, .loopVariable, true⟩] := by
  intro k y
  cases k with
  | read | write => simp [Analysis.recorded]
  | loopVariable => simp [Analysis.recorded, mem_varSetAdd]

theorem nested_records (a : Analysis) (os : List Occurrence) :
    Records a { a with hasNestedClosure := true } (unseen os) := by
  intro k x
  rw [← Records.unseen a os k x]
  cases k <;> rfl

mutual
/-- **The pass records the occurrences it sees.** -/
theorem analyzeNode_records : ∀ (node : Node D) (a : Analysis),
    Records a (analyzeNode node a) (occurrences placeholders node)
  | .number _, a | .integer _, a | .string _, a | .null, a | .flowBreak, a | .flowContinue, a
  | .thisExpr, a => .nil a
  | .varRef x, a => analyzeVariable_records x a
  | .assignment x value, a => (analyzeNode_records value a).append (assigned_records x _)
  | .binary _ left right, a => (analyzeOpt_records left a).append (analyzeNode_records right _)
  | .functionCall _ args, a => analyzeNodes_records args a
  | .ifStmt c t f, a =>
    ((analyzeNode_records c a).append (analyzeOpt_records t _)).append (analyzeOpt_records f _)
  | .whileLoop c body, a => (analyzeNode_records c a).append (analyzeNode_records body _)
  | .forLoop init c post body, a => by
    -- the pass takes the post-expression before the body
    have head := (analyzeOpt_records init a).append (analyzeOpt_records c _)
    have tail := ((analyzeOpt_records post (analyzeOpt c (analyzeOpt init a))).append
      (analyzeNode_records body _)).swap
    have all := head.append tail
    rw [← List.append_assoc] at all
    exact all
  | .block statements, a => analyzeNodes_records statements a
  | .flowReturn value, a => analyzeOpt_records value a
  | .vector elements, a => analyzeNodes_records elements a
  | .index array index, a => (analyzeNode_records array a).append (analyzeNode_records index _)
  | .memberCall object _ args, a =>
    (analyzeNode_records object a).append (analyzeNodes_records args _)
  | .memberAccess object _, a => analyzeNode_records object a
  | .forIn x collection body, a =>
    -- the loop variable is recorded before the collection
    ((defined_records x a).append (analyzeNode_records collection _)).swap.append
      (analyzeNode_records body _)
  | .functionDefinition _ params body, a | .functionExpression params body, a =>
    nested_records a _
  | .templateString text, a => fun k x => by simp [analyzeNode, occurrences]
  | .generator _ params body, a | .method _ params body _ _ _ _ _, a => .unseen a _
  | .constantDecl x value, a => .unseen a _
  | .destructuring targets value _, a => .unseen a _
  | .doWhile body c, a => .unseen a _
  | .mapLiteral entries, a => .unseen a _
  | .slice array start stop, a => .unseen a _
  | .spread child, a => .unseen a _
  | .memberSet object _ value, a => .unseen a _
  | .switch value cases defaultCase, a => .unseen a _
  | .throwStmt value, a => .unseen a _
  | .tryCatch tryBody catchVar catchBody, a => .unseen a _
  | .yieldExpr value, a => .unseen a _
  | .classDef _ _ _ _ _ _ _ _, a | .fieldDecl _ _ _ _ _, a | .newExpr _ _, a | .superExpr _ _ _, a
  | .instanceOf _ _ _, a => .unseen a _

theorem analyzeOpt_records : ∀ (node : Option (Node D)) (a : Analysis),
    Records a (analyzeOpt node a) (occurrencesOpt placeholders node)
  | none, a => .nil a
  | some node, a => analyzeNode_records node a

theorem analyzeNodes_records : ∀ (nodes : List (Node D)) (a : Analysis),
    Records a (analyzeNodes nodes a) (occurrencesList placeholders nodes)
  | [], a => .nil a
  | node :: nodes, a => (analyzeNode_records node a).append (analyzeNodes_records nodes _)
end

theorem mem_patternNamesList {params : List (Node D)} {x : VarName} :
    x ∈ params.flatMap paramDefines → x ∈ patternNamesList params := by
  induction params with
  | nil => exact id
  | cons p ps ih =>
    simp only [List.flatMap_cons, List.mem_append, patternNamesList]
    rintro (h | h)
    · left
      cases p <;> first | exact h | cases h
    · exact .inr (ih h)

variable (body : Node D) (params : List (Node D)) (envHas : VarName → Bool) (outerScope : Node D)

/-- The variable is bound when the function runs, as far as the analysis can tell. -/
def boundOutside (x : VarName) : Bool := envHas x || outerScopeDefinesName x outerScope

def WrittenFirst (os : List Occurrence) (x : VarName) : Prop :=
  ∃ o, os.find? (fun o => o.name == x) = some o ∧ o.access ≠ .read

/-- A variable the body or a closure in it reads or writes, and that is neither a parameter
    nor a local defined before use. -/
structure FreeVariable (x : VarName) : Prop where
  occurs : ∃ o ∈ occurrences placeholders body, o.name = x
  notParameter : x ∉ patternNamesList params
  notLocal : ¬(boundOutside envHas outerScope x = false ∧
    WrittenFirst (occurrences placeholders body) x)

variable {placeholders body params envHas outerScope} in
theorem FreeVariable.notDefined {x : VarName}
    (h : FreeVariable placeholders body params envHas outerScope x) :
    x ∉ params.flatMap paramDefines := by
  intro hx
  exact h.notParameter (mem_patternNamesList hx)

/-- The analysis sees the variable read, does not see it as the variable of a `for … in`,
    and if it sees it assigned knows it to be bound outside. -/
structure SeenFree (x : VarName) : Prop where
  read : reading x ∈ occurrences placeholders body
  notLoopVariable : ⟨x, .loopVariable, true⟩ ∉ occurrences placeholders body
  bound : writing x ∈ occurrences placeholders body → boundOutside envHas outerScope x = true

theorem captured_iff {x : VarName} (hparam : x ∉ params.flatMap paramDefines) :
    x ∈ (analyzeClosure body params envHas outerScope).capturedVars ↔
      SeenFree placeholders body envHas outerScope x := by
  have hrec := analyzeNode_records placeholders body { defined := params.flatMap paramDefines }
  have hused := hrec .read x
  have hassigned := hrec .write x
  have hdefined := hrec .loopVariable x
  simp only [Analysis.recorded, List.not_mem_nil, false_or, hparam] at hused hassigned hdefined
  have hcap : x ∈ (analyzeClosure body params envHas outerScope).capturedVars ↔
      (reading x ∈ occurrences placeholders body ∧
        ⟨x, .loopVariable, true⟩ ∉ occurrences placeholders body) ∧
      ¬(writing x ∈ occurrences placeholders body ∧ boundOutside envHas outerScope x = false) := by
    have hsplit : (analyzeClosure body params envHas outerScope).capturedVars =
        let a := analyzeNode body { defined := params.flatMap paramDefines }
        (a.used.filter fun x => !a.defined.contains x).filter fun x =>
          !(a.assigned.contains x && !envHas x && !outerScopeDefinesName x outerScope) := by
      unfold analyzeClosure
      dsimp only
      split
      · rfl
      · split
        · rfl
        · split <;> rfl
    rw [hsplit]
    simp only [List.mem_filter, hused, Bool.not_eq_true', List.contains_eq_mem, hdefined, hassigned,
      decide_eq_false_iff_not, boundOutside, Bool.and_eq_false_iff, Bool.or_eq_false_iff,
      Bool.not_eq_false', not_and_or, reading, writing, or_assoc, Bool.not_eq_false]
  rw [hcap]
  constructor
  · rintro ⟨⟨hr, hl⟩, hb⟩
    refine ⟨hr, hl, fun hw => ?_⟩
    rw [← Bool.not_eq_false]
    exact fun h => hb ⟨hw, h⟩
  · rintro ⟨hr, hl, hb⟩
    refine ⟨⟨hr, hl⟩, ?_⟩
    rintro ⟨hw, h⟩
    rw [hb hw] at h
    cases h

def CapturesEverything : Prop :=
  (analyzeClosure body params envHas outerScope).canJit = true →
    ∀ x, FreeVariable placeholders body params envHas outerScope x →
      x ∈ (analyzeClosure body params envHas outerScope).capturedVars

/-- **When the captured names are complete.** -/
theorem captures_everything_iff : CapturesEverything placeholders body params envHas outerScope ↔
      ((analyzeClosure body params envHas outerScope).canJit = true →
        ∀ x, FreeVariable placeholders body params envHas outerScope x →
          SeenFree placeholders body envHas outerScope x) := by
  constructor
  · intro h hjit x hx
    exact (captured_iff placeholders body params envHas outerScope hx.notDefined).1 (h hjit x hx)
  · intro h hjit x hx
    exact (captured_iff placeholders body params envHas outerScope hx.notDefined).2 (h hjit x hx)

end Collected

/-- `const k = y; return k` with `y` a variable of the module. -/
def constantOfOuter : Node ℚ :=
  .block [.constantDecl "k" (.varRef "y"), .flowReturn (some (.varRef "k"))]

/-- The function is compiled, and the outer variable is not captured. -/
theorem constant_initializer_not_captured :
    ¬CapturesEverything (fun _ => []) constantOfOuter [] (fun x => x == "y") (.block []) := by
  intro h
  have hfree : FreeVariable (fun _ => []) constantOfOuter [] (fun x => x == "y") (.block []) "y" := by
    refine ⟨⟨⟨"y", .read, false⟩, by decide, rfl⟩, by decide, ?_⟩
    rintro ⟨hb, _⟩
    cases hb
  have hmem := h (by decide) "y" hfree
  revert hmem
  decide

end TurboScript.Mir
