import Mathlib.Data.List.Nodup
import Mathlib.Logic.Relation
import TurboScript.Exprtk.Value

/- The validation of a syntax tree (`exprtk_validate`).

   1. The walk, with its stack of scopes. Its `switch` has cases for fourteen node kinds and
      passes over the rest. Positions of nodes are left out, and the scratch pool grants
      every request.
   2. What the walk is to find (`offending`), in any child of a node (`children`), and what
      it does find (`detected`), in the children it goes to (`walked`).
   3. `validateNode_error`: the walk reports an error when it has reached a node that it
      detects. Nothing the scopes hold can hide it, because the parameters of a function are
      compared within a scope of their own. -/
namespace TurboScript.Exprtk.Validate

/-- The messages of `report_error`. -/
inductive ValidationError
  | mapOperation
  | duplicateParameter (name : Name)
  deriving DecidableEq, Repr

def ValidationError.text : ValidationError → String
  | .mapOperation => "Invalid operation on Map type"
  | .duplicateParameter name => "Duplicate parameter '" ++ name ++ "'"

/-- `validate_ctx_t`: the error, and the scopes with the innermost one first. -/
structure ValidateCtx where
  error : Option ValidationError := none
  scope : List (List Name) := []
  deriving DecidableEq, Repr

structure Module where
  moduleName : Option Name
  entries : List Name

/-- What the walk asks an environment and its parents: whether a variable or a function is
    there, and the modules. -/
structure Surroundings where
  has : Name → Bool
  modules : List Module

section Scopes

def scopePush (ctx : ValidateCtx) : ValidateCtx := { ctx with scope := [] :: ctx.scope }

def scopePop (ctx : ValidateCtx) : ValidateCtx := { ctx with scope := ctx.scope.tail }

def scopeAdd (name : Name) (ctx : ValidateCtx) : ValidateCtx :=
  match ctx.scope with
  | [] => ctx
  | vars :: outer => if name ∈ vars then ctx else { ctx with scope := (vars ++ [name]) :: outer }

def scopeHas (env : Option Surroundings) (name : Name) (ctx : ValidateCtx) : Bool :=
  ctx.scope.any (fun vars => decide (name ∈ vars)) || env.any fun e => e.has name

def reportError (error : ValidationError) (ctx : ValidateCtx) : ValidateCtx :=
  if ctx.error.isSome then ctx else { ctx with error := some error }

def isModulePrefix (env : Option Surroundings) (name : Name) (ctx : ValidateCtx) : Bool :=
  match env with
  | none => false
  | some e =>
    e.modules.any (fun m => m.moduleName == some name ||
      m.entries.any fun entry => (name ++ ".").toList.isPrefixOf entry.toList) ||
    scopeHas env name ctx

/-- The longest beginning of a text with at most so many bytes. A cut inside a letter leaves a
    name that no variable has, so the letter is left out. -/
def cutBytes : Nat → List Char → List Char
  | _, [] => []
  | bytes, c :: cs => if c.utf8Size ≤ bytes then c :: cutBytes (bytes - c.utf8Size) cs else []

/-- The part of a function's name before its first dot, if it fits. -/
def namespaceOf (entry : Name) : Option Name :=
  let front := entry.toList.takeWhile (· ≠ '.')
  if '.' ∈ entry.toList ∧ (String.ofList front).utf8ByteSize < 64 then some (String.ofList front)
  else none

/-- `import("name")` adds the name and the namespaces of all known modules. -/
def addImport (env : Option Surroundings) (name : Name) (ctx : ValidateCtx) : ValidateCtx :=
  let namespaces := match env with
    | none => []
    | some e => (e.modules.flatMap Module.entries).filterMap namespaceOf
  namespaces.foldl (fun ctx name => scopeAdd name ctx)
    (scopeAdd (String.ofList (cutBytes 63 name.toList)) ctx)

end Scopes

section Walk
variable {D : Type}

def isMapLiteral : Node D → Bool
  | .mapLiteral _ => true
  | _ => false

/-- The operators whose operands are checked. -/
def checksOperands : BinOp → Bool
  | .plus | .minus | .multiply | .divide => true
  | _ => false

def checkOperands (op : BinOp) (left : Option (Node D)) (right : Node D) (ctx : ValidateCtx) :
    ValidateCtx :=
  if checksOperands op && (left.any isMapLiteral || isMapLiteral right) then
    reportError .mapOperation ctx
  else ctx

/-- A parameter that is no plain name is passed over. -/
def addParam (ctx : ValidateCtx) (param : Node D) : ValidateCtx :=
  match param with
  | .varRef name =>
    scopeAdd name (if name ∈ ctx.scope.headD [] then reportError (.duplicateParameter name) ctx
      else ctx)
  | _ => ctx

def enterImport (env : Option Surroundings) (name : Name) (args : List (Node D))
    (ctx : ValidateCtx) : ValidateCtx :=
  match args with
  | [.string s] => if name = "import" then addImport env s ctx else ctx
  | _ => ctx

def unlessError (ctx : ValidateCtx) (visit : ValidateCtx → ValidateCtx) : ValidateCtx :=
  if ctx.error.isSome then ctx else visit ctx

mutual
/-- `validate_node`. The look-ups of variables and functions have no effect. -/
def validateNode (env : Option Surroundings) : Node D → ValidateCtx → ValidateCtx
  | .assignment name value, ctx =>
    unlessError ctx fun ctx => scopeAdd name (validateNode env value ctx)
  | .constantDecl name value, ctx =>
    unlessError ctx fun ctx => scopeAdd name (validateNode env value ctx)
  | .binary op left right, ctx => unlessError ctx fun ctx =>
    checkOperands op left right (validateNode env right (validateOpt env left ctx))
  | .functionDefinition name params body, ctx => unlessError ctx fun ctx =>
    scopeAdd name (scopePop (validateNode env body (params.foldl addParam (scopePush ctx))))
  | .functionExpression params body, ctx => unlessError ctx fun ctx =>
    scopePop (validateNode env body (params.foldl addParam (scopePush ctx)))
  | .block statements, ctx => unlessError ctx fun ctx => validateNodes env statements ctx
  | .ifStmt condition ifBranch elseBranch, ctx => unlessError ctx fun ctx =>
    validateOpt env elseBranch (validateOpt env ifBranch (validateNode env condition ctx))
  | .whileLoop condition body, ctx => unlessError ctx fun ctx =>
    validateNode env body (validateNode env condition ctx)
  -- The fields of the other loop are read, which stand in the other order.
  | .doWhile body condition, ctx => unlessError ctx fun ctx =>
    validateNode env condition (validateNode env body ctx)
  | .forLoop init condition post body, ctx => unlessError ctx fun ctx =>
    scopePop (validateNode env body (validateOpt env post (validateOpt env condition
      (validateOpt env init (scopePush ctx)))))
  | .forIn varName collection body, ctx => unlessError ctx fun ctx =>
    scopePop (validateNode env body (scopeAdd varName (validateNode env collection (scopePush ctx))))
  | .functionCall name args, ctx => unlessError ctx fun ctx =>
    enterImport env name args (validateNodes env args ctx)
  | .memberCall object _ args, ctx => unlessError ctx fun ctx =>
    validateNodes env args (match object with
        | .varRef name =>
          if isModulePrefix env name ctx then ctx else validateNode env object ctx
        | _ => validateNode env object ctx)
  | .vector elements, ctx => unlessError ctx fun ctx => validateNodes env elements ctx
  | .mapLiteral entries, ctx => unlessError ctx fun ctx => validateEntries env entries ctx
  | _, ctx => ctx

def validateOpt (env : Option Surroundings) : Option (Node D) → ValidateCtx → ValidateCtx
  | none, ctx => ctx
  | some node, ctx => validateNode env node ctx

def validateNodes (env : Option Surroundings) : List (Node D) → ValidateCtx → ValidateCtx
  | [], ctx => ctx
  | node :: nodes, ctx => validateNodes env nodes (validateNode env node ctx)

def validateEntries (env : Option Surroundings) : List (Option Name × Node D) → ValidateCtx → ValidateCtx
  | [], ctx => ctx
  | (_, node) :: entries, ctx => validateEntries env entries (validateNode env node ctx)
end

/-- `exprtk_validate`: the status and the error. -/
def exprtkValidate (root : Option (Node D)) (env : Option Surroundings) : Nat × Option ValidationError :=
  match root with
  | none => (0, none)
  | some root =>
    let ctx := scopePop (validateNode env root (scopePush {}))
    (if ctx.error.isSome then 1 else 0, ctx.error)

/-! What there is to find. -/

def children : Node D → List (Node D)
  | .binary _ left right => left.toList ++ [right]
  | .functionCall _ args => args
  | .assignment _ value => [value]
  | .constantDecl _ value => [value]
  | .destructuring targets value _ => [targets, value]
  | .ifStmt condition ifBranch elseBranch => condition :: (ifBranch.toList ++ elseBranch.toList)
  | .whileLoop condition body => [condition, body]
  | .forLoop init condition post body =>
    init.toList ++ condition.toList ++ post.toList ++ [body]
  | .doWhile body condition => [body, condition]
  | .forIn _ collection body => [collection, body]
  | .block statements => statements
  | .flowReturn value => value.toList
  | .vector elements => elements
  | .mapLiteral entries => entries.map Prod.snd
  | .index array index => [array, index]
  | .slice array start stop => array :: (start.toList ++ stop.toList)
  | .spread child => [child]
  | .functionDefinition _ params body => params ++ [body]
  | .functionExpression params body => params ++ [body]
  | .generator _ params body => params ++ [body]
  | .memberCall object _ args => object :: args
  | .memberAccess object _ => [object]
  | .memberSet object _ value => [object, value]
  | .switch value cases defaultCase => value :: (cases ++ defaultCase.toList)
  | .throwStmt value => value.toList
  | .tryCatch tryBody _ catchBody => [tryBody, catchBody]
  | .yieldExpr value => value.toList
  | .classDef _ _ _ ctor members _ _ _ => ctor.toList ++ members
  | .method _ params body _ _ _ _ _ => params ++ [body]
  | .fieldDecl _ _ initializer _ _ => initializer.toList
  | .newExpr _ args => args
  | .superExpr _ args _ => args
  | .instanceOf object _ classExpr => object :: classExpr.toList
  | .number _ | .integer _ | .string _ | .null | .templateString _ | .varRef _ | .flowBreak
  | .flowContinue | .thisExpr => []

def walked : Node D → List (Node D)
  | .functionDefinition _ _ body => [body]
  | .functionExpression _ body => [body]
  | .binary op left right => children (.binary op left right)
  | .functionCall name args => children (.functionCall name args)
  | .assignment name value => children (.assignment name value)
  | .constantDecl name value => children (.constantDecl name value)
  | .ifStmt condition ifBranch elseBranch => children (.ifStmt condition ifBranch elseBranch)
  | .whileLoop condition body => children (.whileLoop condition body)
  | .forLoop init condition post body => children (.forLoop init condition post body)
  | .doWhile body condition => children (.doWhile body condition)
  | .forIn varName collection body => children (.forIn varName collection body)
  | .block statements => children (.block statements)
  | .vector elements => children (.vector elements)
  | .mapLiteral entries => children (.mapLiteral entries)
  | .memberCall object method args => children (.memberCall object method args)
  | _ => []

/-- A node at any depth, reached through the children that `next` gives. -/
def Reached (next : Node D → List (Node D)) (root node : Node D) : Prop :=
  Relation.ReflTransGen (fun parent child => child ∈ next parent) root node

def plainName? : Node D → Option Name
  | .varRef name => some name
  | _ => none

def plainNames (params : List (Node D)) : List Name := params.filterMap plainName?

def duplicateParams (params : List (Node D)) : Bool := decide (¬ (plainNames params).Nodup)

def isArithmetic : BinOp → Bool
  | .plus | .minus | .multiply | .divide | .mod | .power => true
  | _ => false

/-- An arithmetic operation on a map literal, or a function of any kind with a plain parameter
    twice. -/
def offending : Node D → Bool
  | .binary op left right => isArithmetic op && (left.any isMapLiteral || isMapLiteral right)
  | .functionDefinition _ params _ => duplicateParams params
  | .functionExpression params _ => duplicateParams params
  | .generator _ params _ => duplicateParams params
  | .method _ params _ _ _ _ _ _ => duplicateParams params
  | _ => false

def detected : Node D → Bool
  | .binary op left right => checksOperands op && (left.any isMapLiteral || isMapLiteral right)
  | .functionDefinition _ params _ => duplicateParams params
  | .functionExpression params _ => duplicateParams params
  | _ => false

/-- The walk comes to a node that it detects. -/
def Flagged (node : Node D) : Prop := ∃ n, Reached walked node n ∧ detected n = true

def AnyFlagged (nodes : List (Node D)) : Prop := ∃ node ∈ nodes, Flagged node

end Walk

/-! What the walk finds. -/

section Errors
variable {D : Type} {env : Option Surroundings} {ctx : ValidateCtx}

@[simp] theorem scopePush_error : (scopePush ctx).error = ctx.error := rfl
@[simp] theorem scopePop_error : (scopePop ctx).error = ctx.error := rfl

variable {name : Name}

@[simp] theorem scopeAdd_error : (scopeAdd name ctx).error = ctx.error := by
  unfold scopeAdd
  split
  · rfl
  · split <;> rfl

@[simp] theorem addImport_error : (addImport env name ctx).error = ctx.error := by
  unfold addImport
  have hfold : ∀ (names : List Name) (ctx : ValidateCtx),
      (names.foldl (fun ctx name => scopeAdd name ctx) ctx).error = ctx.error := by
    intro names
    induction names with
    | nil => exact fun _ => rfl
    | cons name names ih =>
      intro ctx
      rw [List.foldl_cons, ih, scopeAdd_error]
  rw [hfold, scopeAdd_error]

@[simp] theorem enterImport_error {args : List (Node D)} :
    (enterImport env name args ctx).error = ctx.error := by
  unfold enterImport
  split
  · split
    · exact addImport_error
    · rfl
  · rfl

@[simp] theorem reportError_error {error : ValidationError} :
    (reportError error ctx).error.isSome = true := by
  unfold reportError
  split <;> simp_all

theorem unlessError_error {visit : ValidateCtx → ValidateCtx} {P : Prop}
    (h : ∀ ctx, (visit ctx).error.isSome = true ↔ ctx.error.isSome = true ∨ P) :
    (unlessError ctx visit).error.isSome = true ↔ ctx.error.isSome = true ∨ P := by
  unfold unlessError
  split
  · next hset => simp [hset]
  · exact h ctx

theorem checkOperands_error {op : BinOp} {left : Option (Node D)} {right : Node D} :
    (checkOperands op left right ctx).error.isSome = true ↔
      ctx.error.isSome = true ∨ detected (.binary op left right) = true := by
  unfold checkOperands
  rw [detected]
  split
  · next h => simp [h]
  · next h => simp [h]

theorem duplicateParams_cons {param : Node D} {params : List (Node D)} (h : plainName? param = some name) :
    duplicateParams (param :: params) = true ↔
      name ∈ plainNames params ∨ duplicateParams params = true := by
  have hnames : plainNames (param :: params) = name :: plainNames params := by
    simp [plainNames, h]
  simp only [duplicateParams, hnames, List.nodup_cons, decide_eq_true_iff]
  tauto

theorem addParam_plain {param : Node D} {seen : List Name} {outer : List (List Name)}
    (h : plainName? param = some name) (hscope : ctx.scope = seen :: outer) :
    ((addParam ctx param).error.isSome = true ↔ ctx.error.isSome = true ∨ name ∈ seen) ∧
      ∃ seen', (addParam ctx param).scope = seen' :: outer ∧ ∀ x, x ∈ seen' ↔ x ∈ seen ∨ x = name := by
  have hparam : param = .varRef name := by
    cases param <;> simp_all [plainName?]
  subst hparam
  by_cases hmem : name ∈ seen
  · have hreport : (reportError (.duplicateParameter name) ctx).scope = seen :: outer := by
      unfold reportError
      split <;> exact hscope
    refine ⟨by simp [addParam, hscope, hmem], seen, ?_, fun x => ?_⟩
    · simp [addParam, hscope, hmem, scopeAdd, hreport]
    · exact ⟨.inl, fun hx => hx.elim id fun heq => heq ▸ hmem⟩
  · refine ⟨by simp [addParam, hscope, hmem], seen ++ [name], ?_, fun x => by simp⟩
    simp [addParam, hscope, hmem, scopeAdd]

theorem addParam_other {param : Node D} (h : plainName? param = none) : addParam ctx param = ctx := by
  cases param <;> simp_all [plainName?, addParam]

theorem addParams_error {params : List (Node D)} {seen : List Name} {outer : List (List Name)}
    (hscope : ctx.scope = seen :: outer) :
    (params.foldl addParam ctx).error.isSome = true ↔ ctx.error.isSome = true ∨
      (∃ name ∈ plainNames params, name ∈ seen) ∨ duplicateParams params = true := by
  induction params generalizing ctx seen with
  | nil => simp [plainNames, duplicateParams]
  | cons param params ih =>
    rw [List.foldl_cons]
    cases h : plainName? param with
    | none =>
      have hnames : plainNames (param :: params) = plainNames params := by simp [plainNames, h]
      rw [addParam_other h, ih hscope, duplicateParams, duplicateParams, hnames]
    | some name =>
      obtain ⟨herror, seen', hscope', hseen⟩ := addParam_plain h hscope
      have hnames : plainNames (param :: params) = name :: plainNames params := by
        simp [plainNames, h]
      rw [ih hscope', herror, duplicateParams_cons h, hnames]
      simp only [List.mem_cons, exists_eq_or_imp, hseen]
      constructor
      · rintro ((hctx | hname) | ⟨x, hx, hold | rfl⟩ | hdup)
        · exact .inl hctx
        · exact .inr (.inl (.inl hname))
        · exact .inr (.inl (.inr ⟨x, hx, hold⟩))
        · exact .inr (.inr (.inl hx))
        · exact .inr (.inr (.inr hdup))
      · rintro (hctx | (hname | ⟨x, hx, hold⟩) | hx | hdup)
        · exact .inl (.inl hctx)
        · exact .inl (.inr hname)
        · exact .inr (.inl ⟨x, hx, .inl hold⟩)
        · exact .inr (.inl ⟨name, hx, .inr rfl⟩)
        · exact .inr (.inr hdup)

theorem params_error {params : List (Node D)} :
    (params.foldl addParam (scopePush ctx)).error.isSome = true ↔
      ctx.error.isSome = true ∨ duplicateParams params = true := by
  have hscope : (scopePush ctx).scope = [] :: ctx.scope := rfl
  rw [addParams_error hscope]
  simp

theorem flagged_iff {node : Node D} : Flagged node ↔ detected node = true ∨ AnyFlagged (walked node) := by
  constructor
  · rintro ⟨n, hreach, hn⟩
    rcases Relation.ReflTransGen.cases_head hreach with rfl | ⟨child, hchild, hrest⟩
    · exact .inl hn
    · exact .inr ⟨child, hchild, n, hrest, hn⟩
  · rintro (hn | ⟨child, hchild, n, hrest, hn⟩)
    · exact ⟨node, .refl, hn⟩
    · exact ⟨n, .head hchild hrest, hn⟩

@[simp] theorem anyFlagged_nil : ¬ AnyFlagged ([] : List (Node D)) := by simp [AnyFlagged]

@[simp] theorem anyFlagged_cons {node : Node D} {nodes : List (Node D)} :
    AnyFlagged (node :: nodes) ↔ Flagged node ∨ AnyFlagged nodes := by simp [AnyFlagged]

@[simp] theorem anyFlagged_append {front back : List (Node D)} :
    AnyFlagged (front ++ back) ↔ AnyFlagged front ∨ AnyFlagged back := by
  simp [AnyFlagged, or_and_right, exists_or]

@[simp] theorem not_flagged_varRef : ¬ Flagged (.varRef name : Node D) := by
  rw [flagged_iff]
  simp [detected, walked]

mutual
theorem validateNode_error (node : Node D) (ctx : ValidateCtx) :
    (validateNode env node ctx).error.isSome = true ↔ ctx.error.isSome = true ∨ Flagged node := by
  rw [flagged_iff]
  cases node with
  | assignment _ value | constantDecl _ value =>
    apply unlessError_error
    intro ctx
    rw [scopeAdd_error, validateNode_error value]
    simp [detected, walked, children]
  | binary op left right =>
    apply unlessError_error
    intro ctx
    rw [checkOperands_error, validateNode_error right, validateOpt_error left]
    simp only [walked, children, anyFlagged_append, anyFlagged_cons, anyFlagged_nil, or_false,
      or_assoc, or_comm (a := detected _ = true)]
  | functionDefinition name params body =>
    apply unlessError_error
    intro ctx
    rw [scopeAdd_error, scopePop_error, validateNode_error body, params_error, or_assoc]
    simp [detected, walked]
  | functionExpression params body =>
    apply unlessError_error
    intro ctx
    rw [scopePop_error, validateNode_error body, params_error, or_assoc]
    simp [detected, walked]
  | block statements =>
    apply unlessError_error
    intro ctx
    rw [validateNodes_error statements]
    simp [detected, walked, children]
  | ifStmt condition ifBranch elseBranch =>
    apply unlessError_error
    intro ctx
    rw [validateOpt_error elseBranch, validateOpt_error ifBranch, validateNode_error condition]
    simp [detected, walked, children, or_assoc]
  | whileLoop condition body =>
    apply unlessError_error
    intro ctx
    rw [validateNode_error body, validateNode_error condition]
    simp [detected, walked, children, or_assoc]
  | doWhile body condition =>
    apply unlessError_error
    intro ctx
    rw [validateNode_error condition, validateNode_error body]
    simp [detected, walked, children, or_assoc]
  | forLoop init condition post body =>
    apply unlessError_error
    intro ctx
    rw [scopePop_error, validateNode_error body, validateOpt_error post,
      validateOpt_error condition, validateOpt_error init, scopePush_error]
    simp [detected, walked, children, or_assoc]
  | forIn varName collection body =>
    apply unlessError_error
    intro ctx
    rw [scopePop_error, validateNode_error body, scopeAdd_error, validateNode_error collection,
      scopePush_error]
    simp [detected, walked, children, or_assoc]
  | functionCall name args =>
    apply unlessError_error
    intro ctx
    rw [enterImport_error, validateNodes_error args]
    simp [detected, walked, children]
  | memberCall object method args =>
    apply unlessError_error
    intro ctx
    rw [validateNodes_error args]
    simp only [detected, walked, children, anyFlagged_cons, ← or_assoc]
    -- A name in the object's place is passed over or visited to no effect.
    split
    · split <;> simp [validateNode]
    · rw [validateNode_error object]
      simp
  | vector elements =>
    apply unlessError_error
    intro ctx
    rw [validateNodes_error elements]
    simp [detected, walked, children]
  | mapLiteral entries =>
    apply unlessError_error
    intro ctx
    rw [validateEntries_error entries]
    simp [detected, walked, children]
  | _ => simp [validateNode, detected, walked]

theorem validateOpt_error (node : Option (Node D)) (ctx : ValidateCtx) :
    (validateOpt env node ctx).error.isSome = true ↔ ctx.error.isSome = true ∨ AnyFlagged node.toList := by
  cases node with
  | none => simp [validateOpt]
  | some node =>
    rw [validateOpt, validateNode_error node]
    simp

theorem validateNodes_error (nodes : List (Node D)) (ctx : ValidateCtx) :
    (validateNodes env nodes ctx).error.isSome = true ↔ ctx.error.isSome = true ∨ AnyFlagged nodes := by
  cases nodes with
  | nil => simp [validateNodes]
  | cons node nodes =>
    rw [validateNodes, validateNodes_error nodes, validateNode_error node]
    simp [or_assoc]

theorem validateEntries_error (entries : List (Option Name × Node D)) (ctx : ValidateCtx) :
    (validateEntries env entries ctx).error.isSome = true ↔
      ctx.error.isSome = true ∨ AnyFlagged (entries.map Prod.snd) := by
  cases entries with
  | nil => simp [validateEntries]
  | cons entry entries =>
    rw [validateEntries, validateEntries_error entries, validateNode_error entry.2]
    simp [or_assoc]
end

theorem exprtkValidate_iff (root : Node D) : (exprtkValidate (some root) env).1 = 1 ↔ Flagged root := by
  have h : (validateNode env root (scopePush {})).error.isSome = true ↔ Flagged root := by
    rw [validateNode_error]
    simp
  rw [← h, exprtkValidate]
  dsimp only
  rw [scopePop_error]
  split <;> simp_all

theorem walked_subset {parent child : Node D} (h : child ∈ walked parent) : child ∈ children parent := by
  cases parent <;> simp_all [walked, children]

theorem detected_offending {node : Node D} (h : detected node = true) : offending node = true := by
  cases node with
  | binary op left right => cases op <;> simp_all [detected, offending, checksOperands, isArithmetic]
  | _ => simp_all [detected, offending]

theorem Flagged.offends {root : Node D} (h : Flagged root) :
    ∃ n, Reached children root n ∧ offending n = true := by
  obtain ⟨n, hreach, hn⟩ := h
  exact ⟨n, Relation.ReflTransGen.mono (fun _ _ => walked_subset) _ _ hreach, detected_offending hn⟩

/-- Validation finds what there is to find in a tree exactly if the walk comes to one such node
    that it detects, or there is none. -/
theorem validate_reaches (root : Node D) (env : Option Surroundings) :
    ((exprtkValidate (some root) env).1 = 1 ↔ ∃ n, Reached children root n ∧ offending n = true) ↔
      ((∃ n, Reached children root n ∧ offending n = true) →
        ∃ n, Reached walked root n ∧ detected n = true) := by
  rw [exprtkValidate_iff]
  constructor
  · intro h hoffending
    exact h.2 hoffending
  · intro h
    exact ⟨Flagged.offends, h⟩

/-- `map{} + 1` -/
def mapSum : Node ℚ := .binary .plus (some (.mapLiteral [])) (.integer 1)

/-- `return map{} + 1;` -/
def returnedSum : Node ℚ := .block [.flowReturn (some mapSum)]

theorem returnedSum_passes : ¬ ((exprtkValidate (some returnedSum) none).1 = 1 ↔
      ∃ n, Reached children returnedSum n ∧ offending n = true) := by
  intro h
  have hpass : (exprtkValidate (some returnedSum) none).1 = 0 := rfl
  have hsum : Reached children returnedSum mapSum :=
    .head (List.mem_singleton.2 rfl) (.single (List.mem_singleton.2 rfl))
  have hfound := h.2 ⟨_, hsum, rfl⟩
  rw [hpass] at hfound
  cases hfound

end Errors

end TurboScript.Exprtk.Validate
