import TurboScript.Mir.Specialize

/- How the lowering of a call hands the arguments to the callee (`ts_compile_expr`,
   `ts_emit_assignment`, `ts_emit_oop_receiver_to_temp`, the inlined `super` calls).

   1. The questions that choose a path. What the compiler knows at the call (its tables, the
      context's functions) is a record of facts; the walks over the arguments are embedded.
   2. What a path emits: registers (`ts_compile_call_args`), a packed array handed to one of
      the runtime bridges, the call node itself for evaluation at run time, a specialised
      copy, or a compilation failure. -/
namespace TurboScript.Mir.CallPaths
open Exprtk (Node BinOp)
open Mir.Specialize (CallSite Callee CompiledFunc FuncAlias argName
  callsParamFunction emitHofSpecializedCall specialize)

abbrev Arg (D : Type) := Node D × Nat

section Questions
variable {D : Type}

/-- What the paths read of the compiler and of the context it compiles for. -/
structure Facts (D : Type) where
  /-- the compiled functions, the module and the known classes -/
  compiler : Specialize.Compiler D
  /-- `ts_mir_is_known_class_name` -/
  knownClass : Exprtk.Name → Bool
  /-- `ts_find_func_alias` -/
  funcAlias : Exprtk.Name → Option Exprtk.Name
  /-- `ts_mir_find_var_class` -/
  varClass : Exprtk.Name → Option Exprtk.Name
  /-- `ts_mir_var_is_dynamic`, `ts_mir_var_is_stream` -/
  isDynamic : Exprtk.Name → Bool
  isStream : Exprtk.Name → Bool
  /-- `ts_env_has_func`, `ts_mir_admit_builtin`, `exprtk_find_builtin`,
      `ts_resolves_core_compat_func` -/
  envHasFunc : Exprtk.Name → Bool
  admitsBuiltin : Exprtk.Name → Bool
  findsBuiltin : Exprtk.Name → Bool
  coreCompat : Exprtk.Name → Bool
  /-- a native function of the context, and whether it preserves value types -/
  native : Exprtk.Name → Option Bool
  /-- a slot of the frozen host registry, with its arities -/
  hostSlot : Exprtk.Name → Option (Nat × Nat)
  /-- `ts_find_inlineable_instance_method`: class, method and argument count give parameters -/
  inlineable : Exprtk.Name → Exprtk.Name → Nat → Option (List Exprtk.Name)
  /-- `ts_direct_parent_class_name` -/
  parentClass : Exprtk.Name → Option Exprtk.Name
  /-- a number that is an integer -/
  intOf : D → Option Int

variable (F : Facts D)

def unaryMath : List Exprtk.Name :=
  ["abs", "acos", "asin", "atan", "ceil", "cos", "exp", "floor", "log", "round", "sin", "sqrt",
    "tan"]

def binaryMath : List Exprtk.Name := ["atan2", "max", "min"]

/-- `ts_find_math_dispatch`. -/
def mathDispatch (name : Exprtk.Name) (argc : Nat) : Bool :=
  (argc == 1 && unaryMath.contains name) || (argc == 2 && binaryMath.contains name)

def valueEvalPrefixes : List Exprtk.Name :=
  ["mat_", "matrix.", "linalg.", "table.", "http.", "json.", "xml.", "csv.", "os.", "map.",
    "parser.json_", "parser.xml_", "parser.csv_", "vec.", "vector_", "str_", "string."]

def callNameNeedsValueEval (name : Exprtk.Name) : Bool :=
  valueEvalPrefixes.any (fun start => start.toList.isPrefixOf name.toList) ||
    name == "stats.t_test_1samp"

def resolvesRuntimeFunc (name : Exprtk.Name) : Bool :=
  F.envHasFunc name || F.admitsBuiltin name || F.coreCompat name

def runtimeCallNeedsValueEval (name : Exprtk.Name) (argc : Nat) : Bool :=
  !mathDispatch name argc && (callNameNeedsValueEval name || resolvesRuntimeFunc F name)

def callAssignmentNeedsValueBridge (name : Exprtk.Name) (argc : Nat) : Bool :=
  let name := (F.funcAlias name).getD name
  (F.compiler.find name).isNone && !mathDispatch name argc && !F.findsBuiltin name && (F.native name).isNone

/-- The buffer of a qualified name has 256 characters. -/
def qualifiedName (object method : Exprtk.Name) : Exprtk.Name :=
  String.ofList ((object.toList ++ '.' :: method.toList).take 255)

def resolvesQualified (object method : Exprtk.Name) : Bool :=
  resolvesRuntimeFunc F (qualifiedName object method) ||
    callNameNeedsValueEval (qualifiedName object method)

def isNonNumericNode : Node D → Bool
  | .vector _ | .mapLiteral _ | .string _ | .templateString _ | .slice .. => true
  | .functionExpression .. => true
  | _ => false

def isSpread : Node D → Bool
  | .spread _ => true
  | _ => false

def isMemberAccess : Node D → Bool
  | .memberAccess .. => true
  | _ => false

def isNullNode : Node D → Bool
  | .null => true
  | _ => false

def oopArgNeedsValueBridge : Node D → Bool
  | .null | .string _ | .vector _ | .mapLiteral _ | .slice .. | .templateString _ => true
  | .newExpr .. | .thisExpr | .superExpr .. | .functionExpression .. | .classDef .. => true
  | .varRef x => (F.varClass x).isSome || F.knownClass x
  | .functionCall name args =>
    let name := (F.funcAlias name).getD name
    F.compiler.isClass name || callAssignmentNeedsValueBridge F name args.length
  | .memberAccess .. | .memberCall .. => true
  | _ => false

/-- The sources of `stream.of(..)` and its like. -/
def streamSources : List Exprtk.Name := ["of", "file", "lines", "text", "json", "xml", "csv"]

/-- `ts_member_call_is_stream_chain`. -/
def isStreamChain : Node D → Bool
  | .memberCall object method _ =>
    method == "stream" ||
      (match object with
        | .varRef x => x == "stream" && streamSources.contains method
        | _ => false) ||
      isStreamChain object
  | _ => false

/-- `ts_binary_is_null_eq_compare`. -/
def isNullEqCompare (op : BinOp) : Option (Node D) → Node D → Bool
  | none, _ => false
  | some left, right => (op == .eq || op == .ne) && (isNullNode left || isNullNode right)

def indexConstant : Node D → Option Int
  | .integer i => some i
  | .number x => F.intOf x
  | _ => none

mutual
def exprContainsValueCall : Node D → Bool
  | .varRef x => F.isDynamic x
  | .functionCall name args =>
    if name == "await" then false
    else
      runtimeCallNeedsValueEval F name args.length || callNameNeedsValueEval name ||
        callArgsNeedAstEval args || exprListContainsValueCall args
  | .memberCall object method args =>
    isMemberAccess object || isStreamChain (.memberCall object method args) || (match object with
        | .varRef x => F.isDynamic x || resolvesQualified F x method
        | _ => false) ||
      exprContainsValueCall object || callArgsNeedAstEval args || exprListContainsValueCall args
  | .binary op left right =>
    isNullEqCompare op left right || exprOptContainsValueCall left || exprContainsValueCall right
  | .index array index =>
    match array with
    | .varRef x => F.isDynamic x || exprContainsValueCall index
    | .vector elements =>
      match indexConstant F index with
      | none => true
      | some i => if i < 0 then true else exprNthContainsValueCall i.toNat elements
    | _ => true
  | .memberAccess object _ =>
    (match object with
      | .varRef x => F.isDynamic x
      | _ => false) ||
      exprContainsValueCall object
  | .ifStmt condition ifBranch elseBranch =>
    exprContainsValueCall condition || exprOptContainsValueCall ifBranch ||
      exprOptContainsValueCall elseBranch
  | _ => false

def exprOptContainsValueCall : Option (Node D) → Bool
  | none => false
  | some node => exprContainsValueCall node

def exprListContainsValueCall : List (Node D) → Bool
  | [] => false
  | node :: nodes => exprContainsValueCall node || exprListContainsValueCall nodes

/-- An index past the end of a vector literal needs evaluation too. -/
def exprNthContainsValueCall : Nat → List (Node D) → Bool
  | _, [] => true
  | 0, node :: _ => exprContainsValueCall node
  | i + 1, _ :: nodes => exprNthContainsValueCall i nodes

def callArgsNeedAstEval : List (Node D) → Bool
  | [] => false
  | arg :: args =>
    (isSpread arg || isNonNumericNode arg || oopArgNeedsValueBridge F arg ||
      exprContainsValueCall arg) || callArgsNeedAstEval args
end

def oopCallArgsNeedValueBridge (args : List (Node D)) : Bool := args.any (oopArgNeedsValueBridge F)

/-- Whether `ts_emit_oop_receiver_to_temp` finds a name for the receiver. -/
def hasReceiver : Node D → Bool
  | .varRef _ | .newExpr .. => true
  | .functionCall name args =>
    F.knownClass name || callAssignmentNeedsValueBridge F name args.length
  | .memberCall object _ _ | .memberAccess object _ => hasReceiver object
  | _ => false

/-- The class recorded for the name of the receiver. -/
def receiverClass : Node D → Option Exprtk.Name
  | .varRef x => F.varClass x
  | .newExpr name _ => some name
  | .functionCall name _ => if F.knownClass name then some name else none
  | _ => none

mutual
/-- `ts_oop_inline_expr_supported`, in a method of the class with these parameters. -/
def oopInlineExprSupported (className : Exprtk.Name) (params : List Exprtk.Name) : Node D → Bool
  | .number _ | .integer _ | .null => true
  | .varRef x => params.contains x
  | .memberAccess object _ => match object with
    | .thisExpr => true
    | _ => false
  | .superExpr member args isCall =>
    isCall && oopInlineExprsSupported className params args && (match F.parentClass className, member with
        | some parent, some member => (F.inlineable parent member args.length).isSome
        | _, _ => false)
  | .binary op left right => match left with
    | none => op == .plus || op == .minus
    | some left =>
      [BinOp.plus, .minus, .multiply, .divide, .lt, .gt, .le, .ge, .eq, .ne].contains op &&
        oopInlineExprSupported className params left && oopInlineExprSupported className params right
  | _ => false

def oopInlineExprsSupported (className : Exprtk.Name) (params : List Exprtk.Name) : List (Node D) → Bool
  | [] => true
  | node :: nodes =>
    oopInlineExprSupported className params node && oopInlineExprsSupported className params nodes
end

end Questions

section Codes
variable {D : Type}

inductive Bridge
  | call | native | builtin | hostSlot | instantiate | memberCall
  deriving DecidableEq, Repr

inductive CallCode (D : Type)
  /-- `ts_mir_fail` -/
  | failed
  /-- the call node is evaluated at run time, with all its arguments -/
  | tree (args : List (Arg D))
  /-- `ts_emit_await_value`, `ts_emit_await_assign` -/
  | awaited (arg : Option (Arg D))
  /-- `ts_emit_oop_predicate` -/
  | predicate (arg : Arg D)
  /-- one operand for each argument -/
  | direct (regs : List (Arg D))
  | packed (bridge : Bridge) (argc : Nat) (regs : List (Arg D))
  /-- the body of a method with registers for its parameters -/
  | inlined (regs : List (Arg D))
  /-- `ts_try_emit_hof_specialized_call`: for each argument the function it passes or none, for
      each parameter of the copy the function built in or none, and the operands -/
  | specialized (wanted builtIn : List (Option Exprtk.Name)) (regs : List (Arg D))
  /-- the constant 0 -/
  | zero

/-- What a call hands over in the place of one argument: its value or, to a parameter that a
    specialised callee calls, a function. -/
inductive Wanted (D : Type)
  | value (arg : Arg D)
  | function (name : Exprtk.Name)

inductive Passed (D : Type)
  /-- the number in the register that the node was compiled to -/
  | register (arg : Arg D)
  /-- what the node evaluates to, the elements of a spread one by one -/
  | evaluated (arg : Arg D)
  /-- a function built into the copy -/
  | builtIn (name : Exprtk.Name)
  /-- a parameter without an operand -/
  | missing

/-- `ts_mir_call_bridge`, `ts_mir_call_native`, `ts_mir_call_builtin` copy into an array of 16,
    `ts_mir_call_host_slot` refuses more, the bridges of the classes take every number. -/
def bridgeArgs (bridge : Bridge) (argc : Nat) (regs : List (Arg D)) : List (Arg D) :=
  match bridge with
  | .call | .native | .builtin => regs.take (min argc 16)
  | .hostSlot => if 16 < argc then [] else regs.take argc
  | .instantiate | .memberCall => regs.take argc

def copyArgs : List (Option Exprtk.Name) → List (Arg D) → List (Passed D)
  | [], _ => []
  | some name :: params, regs => .builtIn name :: copyArgs params regs
  | none :: params, reg :: regs => .register reg :: copyArgs params regs
  | none :: params, [] => .missing :: copyArgs params []

def receive : CallCode D → Option (List (Passed D))
  | .failed => none
  | .tree args => some (args.map .evaluated)
  | .awaited arg => some (arg.toList.map .register)
  | .predicate arg => some [.register arg]
  | .direct regs | .inlined regs => some (regs.map .register)
  | .packed bridge argc regs => some ((bridgeArgs bridge argc regs).map .register)
  | .specialized _ builtIn regs => some (copyArgs builtIn regs)
  | .zero => some []

def wantedBy : List (Arg D) → List (Option Exprtk.Name) → List (Wanted D)
  | arg :: args, none :: wanted => .value arg :: wantedBy args wanted
  | _ :: args, some name :: wanted => .function name :: wantedBy args wanted
  | _, _ => []

def wants (args : List (Arg D)) : CallCode D → List (Wanted D)
  | .specialized wanted _ _ => wantedBy args wanted
  | _ => args.map .value

/-- A register holds one number, so no spread. -/
def Carries : Wanted D → Passed D → Prop
  | .value arg, .register a => a = arg ∧ isSpread arg.1 = false
  | .value arg, .evaluated a => a = arg
  | .function name, .builtIn target => target = name
  | _, _ => False

def Kept (args : List (Arg D)) (code : CallCode D) : Prop :=
  ∀ received, receive code = some received → List.Forall₂ Carries (wants args code) received

end Codes

section Lowering
variable {D : Type} (F : Facts D)

/-- `ts_compile_call_args`: the registers are an array of 16. -/
def compileCallArgs (args : List (Arg D)) : List (Arg D) := args.take 16

/-- A call through `ts_emit_packed_args`. -/
def packedCall (bridge : Bridge) (regs : List (Arg D)) : CallCode D := .packed bridge regs.length regs

def emitDirectResolvedCall (name : Exprtk.Name) (regs : List (Arg D)) : Option (CallCode D) :=
  match F.hostSlot name with
  | some (minArity, maxArity) =>
    if regs.length < minArity ∨ maxArity < regs.length then some .failed
    else some (packedCall .hostSlot regs)
  | none =>
    match F.native name with
    | some preserves => if preserves then none else some (packedCall .native regs)
    | none => if F.admitsBuiltin name then some (packedCall .builtin regs) else none

def emitRuntimeCall (regs : List (Arg D)) : CallCode D :=
  if regs.length ≤ 3 then .direct regs else packedCall .call regs

def oopPredicateKind (name : Exprtk.Name) : Nat :=
  if name = "is_class" then 1
  else if name = "is_instance" then 2
  else if name = "is_function" then 3
  else if name = "is_null" then 4
  else 0

def oopPredicateCanPreserveValue (kind : Nat) (arg : Node D) : Bool :=
  kind != 4 || isNullNode arg || isMemberAccess arg ||
    match arg with
    | .varRef _ => true
    | _ => false

/-- The argument of a predicate that is compiled without evaluating the call. -/
def predicateArg (name : Exprtk.Name) : List (Arg D) → Option (Arg D)
  | [arg] =>
    if oopPredicateKind name ≠ 0 ∧ oopPredicateCanPreserveValue (oopPredicateKind name) arg.1 then
      some arg
    else none
  | _ => none

def specializedCall (site : CallSite D) : Option (CompiledFunc D × Specialize.Specialization D) :=
  (emitHofSpecializedCall F.compiler site).bind fun r =>
    (specialize F.compiler site).map fun p => (r.1, p)

/-- The functions that a call passes for the parameters that the callee calls. -/
def wantedFunctions (callee : Callee D) (args : List (Arg D)) : List (Option Exprtk.Name) :=
  callee.params.zipWith (fun param arg =>
    if callsParamFunction callee.body [param] then some (argName arg) else none) args

/-- `ts_func_alias_index` for each parameter of the copy. -/
def builtInFunctions (f : CompiledFunc D) : List (Option Exprtk.Name) :=
  f.params.map fun param => match param with
    | .varRef x => (f.aliases.find? fun a => a.paramName == x).map FuncAlias.targetName
    | _ => none

/-- `ts_try_emit_hof_specialized_call`. -/
def lowerSpecialized (f : CompiledFunc D) (p : Specialize.Specialization D) (args : List (Arg D)) :
    CallCode D :=
  .specialized (wantedFunctions p.callee args) (builtInFunctions f)
    (p.numericArgs.filterMap fun i => args[i]?)

def nodes (args : List (Arg D)) : List (Node D) := args.map Prod.fst

/-- The call needs the evaluation of its node in `ts_compile_expr`. -/
def functionNeedsTree (name : Exprtk.Name) (args : List (Arg D)) : Bool :=
  runtimeCallNeedsValueEval F name args.length || callArgsNeedAstEval F (nodes args) ||
    exprListContainsValueCall F (nodes args)

/-- `ts_compile_expr` at a function call. -/
def lowerFunction (name : Exprtk.Name) (args : List (Arg D)) : CallCode D :=
  match specializedCall F ⟨name, args⟩ with
  | some (f, p) => lowerSpecialized f p args
  | none =>
    let name := (F.funcAlias name).getD name
    if name = "await" then .awaited args.head?
    else if functionNeedsTree F name args then .tree args
    else match predicateArg name args with
      | some arg => .predicate arg
      | none =>
        let regs := compileCallArgs args
        if (F.compiler.find name).map CompiledFunc.argCount = some regs.length then .direct regs
        else if mathDispatch name regs.length then .direct regs
        else (emitDirectResolvedCall F name regs).getD (emitRuntimeCall regs)

/-- The call needs the evaluation of its node in `ts_compile_expr`. -/
def methodNeedsTree (object : Node D) (method : Exprtk.Name) (args : List (Arg D)) : Bool :=
  isMemberAccess object || isStreamChain (.memberCall object method (nodes args)) || (match object with
      | .varRef x => resolvesQualified F x method
      | _ => false) ||
    (callArgsNeedAstEval F (nodes args) && !oopCallArgsNeedValueBridge F (nodes args)) ||
    exprListContainsValueCall F (nodes args)

def emitQualifiedCall (object : Node D) (method : Exprtk.Name) (regs : List (Arg D)) :
    Option (CallCode D) :=
  match object with
  | .varRef x => emitDirectResolvedCall F (qualifiedName x method) regs
  | _ => none

/-- `ts_try_emit_oop_inline_method_call`, else the call of a method of the receiver. -/
def emitMethodCall (object : Node D) (method : Exprtk.Name) (regs : List (Arg D)) : CallCode D :=
  match (receiverClass F object).bind fun className => F.inlineable className method regs.length with
  | some _ => .inlined regs
  | none => packedCall .memberCall regs

/-- `ts_compile_expr` at a member call. -/
def lowerMethod (object : Node D) (method : Exprtk.Name) (args : List (Arg D)) : CallCode D :=
  if methodNeedsTree F object method args then .tree args
  else if !hasReceiver F object then .failed
  else if oopCallArgsNeedValueBridge F (nodes args) then .tree args
  else
    let regs := compileCallArgs args
    (emitQualifiedCall F object method regs).getD (emitMethodCall F object method regs)

/-- `ts_emit_oop_new_assign`, `ts_emit_oop_class_call_assign`. -/
def lowerInstantiation (args : List (Arg D)) : CallCode D :=
  if oopCallArgsNeedValueBridge F (nodes args) then .tree args
  else packedCall .instantiate (compileCallArgs args)

/-- `ts_emit_assignment` of a function call. -/
def lowerFunctionAssign (name : Exprtk.Name) (args : List (Arg D)) : CallCode D :=
  if F.knownClass name then lowerInstantiation F args
  else match specializedCall F ⟨name, args⟩ with
    | some (f, p) => lowerSpecialized f p args
    | none =>
      if name = "await" then .awaited args.head?
      else if callArgsNeedAstEval F (nodes args) then .tree args
      else if runtimeCallNeedsValueEval F name args.length then .tree args
      else if callAssignmentNeedsValueBridge F name args.length then
        packedCall .call (compileCallArgs args)
      else if exprContainsValueCall F (.functionCall name (nodes args)) then .tree args
      else lowerFunction F name args

/-- The assignment of a member call evaluates the call node. -/
def methodAssignNeedsTree (object : Node D) (method : Exprtk.Name) (args : List (Arg D)) : Bool :=
  isMemberAccess object || isStreamChain (.memberCall object method (nodes args)) || (match object with
      | .varRef x => F.isStream x || F.isDynamic x
      | _ => false) ||
    exprContainsValueCall F object ||
    (match object with
      | .varRef x => resolvesQualified F x method
      | _ => false) ||
    (callArgsNeedAstEval F (nodes args) && !oopCallArgsNeedValueBridge F (nodes args))

/-- `ts_emit_assignment` of a member call. -/
def lowerMethodAssign (object : Node D) (method : Exprtk.Name) (args : List (Arg D)) : CallCode D :=
  if methodAssignNeedsTree F object method args then .tree args
  else if !hasReceiver F object then .failed
  else if oopCallArgsNeedValueBridge F (nodes args) then .tree args
  else emitMethodCall F object method (compileCallArgs args)

/-- `ts_emit_oop_receiver_to_temp` at a function call. -/
def lowerFunctionReceiver (name : Exprtk.Name) (args : List (Arg D)) : CallCode D :=
  if F.knownClass name then lowerInstantiation F args
  else if callAssignmentNeedsValueBridge F name args.length then
    packedCall .call (compileCallArgs args)
  else .failed

/-- `ts_emit_oop_receiver_to_temp` at a member call. -/
def lowerMethodReceiver (object : Node D) (args : List (Arg D)) : CallCode D :=
  if !hasReceiver F object then .failed
  else if oopCallArgsNeedValueBridge F (nodes args) then .tree args
  else packedCall .memberCall (compileCallArgs args)

inductive Target (D : Type)
  | function (name : Exprtk.Name)
  | method (object : Node D) (methodName : Exprtk.Name)
  | construct (className : Exprtk.Name)
  | superMethod (member : Exprtk.Name)

def Target.node (target : Target D) (args : List (Arg D)) : Node D :=
  match target with
  | .function name => .functionCall name (nodes args)
  | .method object methodName => .memberCall object methodName (nodes args)
  | .construct className => .newExpr className (nodes args)
  | .superMethod member => .superExpr (some member) (nodes args) true

/-- `ts_emit_oop_inline_method_expr`: a method is inlined only if every expression of its body is
    supported; else the call is evaluated with the body. -/
def lowerInlined (className : Exprtk.Name) (params : List Exprtk.Name) (target : Target D)
    (args : List (Arg D)) :
    CallCode D :=
  if oopInlineExprSupported F className params (target.node args) then
    if 16 < args.length then .zero else .inlined args
  else .tree args

inductive Position
  /-- an operand, an argument or a statement -/
  | value
  | assignment
  | constant
  /-- the object of a member call or access -/
  | receiver
  /-- the body of a method of the class, with these parameters, at a call that may inline it -/
  | inlinedMethod (className : Exprtk.Name) (params : List Exprtk.Name)
  deriving DecidableEq, Repr

/-- `ts_compile_expr`: the creation of an instance and a `super` call are not lowered. -/
def lowerValue : Target D → List (Arg D) → CallCode D
  | .function name, args => lowerFunction F name args
  | .method object methodName, args => lowerMethod F object methodName args
  | .construct _, _ | .superMethod _, _ => .failed

def lowerCall : Position → Target D → List (Arg D) → CallCode D
  | .value, target, args => lowerValue F target args
  | .assignment, .function name, args => lowerFunctionAssign F name args
  | .assignment, .method object methodName, args => lowerMethodAssign F object methodName args
  | .assignment, .construct _, args => lowerInstantiation F args
  | .constant, target, args =>
    if exprContainsValueCall F (target.node args) then .tree args else lowerValue F target args
  | .receiver, .function name, args => lowerFunctionReceiver F name args
  | .receiver, .method object _, args => lowerMethodReceiver F object args
  | .receiver, .construct _, args => lowerInstantiation F args
  | .assignment, .superMethod _, _ | .receiver, .superMethod _, _ => .failed
  | .inlinedMethod className params, target, args => lowerInlined F className params target args

end Lowering

end TurboScript.Mir.CallPaths
