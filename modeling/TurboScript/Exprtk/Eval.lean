import TurboScript.Exprtk.Env

/- The tree evaluator (`exprtk_eval`), every node kind.

   The evaluator is open: `Evaluators` is what a node may call. The MIR value evaluator is
   one of its members, because the hooks of the MIR runtime route arguments and function
   bodies through it; the recursion is closed where that evaluator is defined. -/
namespace TurboScript.Exprtk
open Lib

section Operators
variable {D : Type} [Double D]
open Double

def opName : BinOp → String
  | .plus => "+" | .minus => "-" | .multiply => "*" | .divide => "/" | .mod => "%"
  | .power => "**" | .lt => "<" | .le => "<=" | .gt => ">" | .ge => ">="
  | .and => "&&" | .or => "||"
  | .eq | .ne | .not => "unknown"

/-- INTEGER and INTEGER; `none` when the operator has no case. -/
def integerBinary (op : BinOp) (l r : Int) : Option (Except String (Value D)) :=
  match op with
  | .plus => some (.ok (.integer (wrap64 (l + r))))
  | .minus => some (.ok (.integer (wrap64 (l - r))))
  | .multiply => some (.ok (.integer (wrap64 (l * r))))
  | .divide =>
    if r = 0 then some (.error "Division by zero")
    else if l.tmod r = 0 then some (.ok (.integer (wrap64 (l.tdiv r))))
    else some (.ok (.number (div (ofInt l) (ofInt r))))
  | .mod =>
    if r = 0 then some (.error "Modulo by zero")
    else some (.ok (.integer (l.tmod r)))
  | .power => some (.ok (.number (pow (ofInt l) (ofInt r))))
  | .eq => some (.ok (intOfBool (l == r)))
  | .ne => some (.ok (intOfBool (l != r)))
  | .lt => some (.ok (intOfBool (l < r)))
  | .le => some (.ok (intOfBool (l ≤ r)))
  | .gt => some (.ok (intOfBool (r < l)))
  | .ge => some (.ok (intOfBool (r ≤ l)))
  | .and => some (.ok (intOfBool (l != 0 && r != 0)))
  | .or => some (.ok (intOfBool (l != 0 || r != 0)))
  | .not => none

/-- The comparisons and connectives of double arithmetic, the same in both evaluators. -/
def doubleCompare (op : BinOp) (l r : D) : Option (Value D) :=
  match op with
  | .eq => some (ofBool (lt (fabs (sub l r)) eps))
  | .ne => some (ofBool (le eps (fabs (sub l r))))
  | .lt => some (ofBool (lt l r))
  | .le => some (ofBool (le l r))
  | .gt => some (ofBool (lt r l))
  | .ge => some (ofBool (le r l))
  | .and => some (ofBool (nonzero l && nonzero r))
  | .or => some (ofBool (nonzero l || nonzero r))
  | _ => none

def doubleBinary (op : BinOp) (l r : D) : Option (Except String (Value D)) :=
  match op with
  | .plus => some (.ok (.number (add l r)))
  | .minus => some (.ok (.number (sub l r)))
  | .multiply => some (.ok (.number (mul l r)))
  | .divide =>
    if lt (fabs r) tiny then some (.error "Division by zero") else some (.ok (.number (div l r)))
  | .mod =>
    if lt (fabs r) tiny then some (.error "Modulo by zero") else some (.ok (.number (fmod l r)))
  | .power => some (.ok (.number (pow l r)))
  | .not => none
  | op => (doubleCompare op l r).map .ok

/-- Equality of two values of one type, for the types whose `==` is defined. -/
def sameTypeEqual : Value D → Value D → Option Bool
  | .string a, .string b => some (a == b)
  | .bool a, .bool b => some (a == b)
  | .bytes a, .bytes b => some (a == b)
  | .uuid a, .uuid b => some (a == b)
  | .datetime a, .datetime b => some (a == b)
  | .offsetDatetime a i, .offsetDatetime b j => some (i == j && a == b)
  | .date y m d, .date y' m' d' => some (y == y' && m == m' && d == d')
  | .time h m s ms, .time h' m' s' ms' => some (h == h' && m == m' && s == s' && ms == ms')
  | .duration a, .duration b => some (a == b)
  | .decimal a, .decimal b => some (a.normalize == b.normalize)
  | .bigint a, .bigint b => some (a == b)
  | .money a c, .money b c' => some (a == b && c == c')
  | .enum a, .enum b => some (a.value == b.value && a.typeName == b.typeName)
  | .flags a, .flags b => some (a.value == b.value && a.typeName == b.typeName)
  | .null, .null => some true
  | .null, _ => some false
  | _, .null => some false
  | _, _ => none

def equalityResult (op : BinOp) (equal : Bool) : Option (Value D) :=
  match op with
  | .eq => some (ofBool equal)
  | .ne => some (ofBool (!equal))
  | _ => none

def typeError (op : BinOp) (l r : Value D) : String :=
  "Type error: cannot apply '" ++ opName op ++ "' to " ++ typeName l ++ " and " ++ typeName r

def isString : Value D → Bool
  | .string _ => true
  | _ => false

/-- The operator part of a binary node; an error is thrown. -/
def evalBinary [Formats] (op : BinOp) (l r : Value D) : Except String (Value D) :=
  let arithmetic :=
    match l, r with
    | .integer a, .integer b => (integerBinary op a b).orElse fun _ =>
        doubleBinary op (ofInt a) (ofInt b)
    | l, r => if isNumeric l && isNumeric r then doubleBinary op (valToDouble l) (valToDouble r)
        else none
  match arithmetic with
  | some result => result
  | none =>
    if op = .plus ∧ (isString l ∨ isString r) then
      match evalValueText 64 l, evalValueText 64 r with
      | some a, some b => .ok (.string (a ++ b))
      | _, _ => .error ("Type error: cannot stringify " ++ typeName l ++ " and " ++ typeName r)
    else
      match sameTypeEqual l r with
      | some equal =>
        match equalityResult op equal with
        | some v => .ok v
        | none => .error (typeError op l r)
      | none => .error (typeError op l r)

/-! Templates. -/

inductive Piece
  | char (c : Char)
  | expr (text : List Char)
  | unclosed
  deriving DecidableEq, Repr

/-- The text up to the brace that closes the current depth, and what follows it. -/
def scanExpr : Nat → List Char → List Char → Option (List Char × List Char)
  | _, [], _ => none
  | d, c :: cs, acc =>
    if c = '\x7b' then scanExpr (d + 1) cs (c :: acc)
    else if c = '\x7d' then
      if d ≤ 1 then some (acc.reverse, cs) else scanExpr (d - 1) cs (c :: acc)
    else scanExpr d cs (c :: acc)

def scanPieces : Nat → List Char → List Piece
  | 0, _ => []
  | _, [] => []
  | n + 1, '$' :: '\x7b' :: cs =>
    match scanExpr 1 cs [] with
    | some (text, rest) => .expr text :: scanPieces n rest
    | none => [.unclosed]
  | n + 1, c :: cs => .char c :: scanPieces n cs

def scanTemplate (text : String) : List Piece := scanPieces (text.length + 1) text.toList

/-- The text of a placeholder's value; types without a case add nothing. -/
def templateText [Formats] : Value D → String
  | .integer i => toString i
  | .bool b => if b then "true" else "false"
  | .number x => format x
  | .string s => s
  | .bytes b => bytesText b
  | .uuid b => (Formats.uuid 37 b).getD ""
  | .date y m d => dateText y m d
  | .time h m s ms => timeText h m s ms
  | .duration ms => durationText ms
  | .decimal d => (decimalText 0 64 d).getD ""
  | .null => "null"
  | .vector _ => "[vector]"
  | .map _ => "[map]"
  | .object _ => "[object]"
  | .list _ => "[list]"
  | _ => ""

end Operators

/-- The `int` a MIR evaluation returns and what it left in `out`. -/
abbrev Out (D : Type) := Bool × Value D

/-- What the evaluation of a node may call: the tree evaluator, the MIR value evaluator
    and the callback of a native. -/
structure Evaluators (D Θ : Type) where
  eval : Node D → EnvId → Eval D Θ (Value D)
  valueArg : Node D → EnvId → Eval D Θ (Out D)
  callable : Value D → List (Value D) → EnvId → Eval D Θ (Value D)

section Calls
variable {D Θ : Type} [Double D] (h : Host D Θ) (R : Evaluators D Θ)

def flowNormal (e : EnvId) : Eval D Θ Bool := do
  return (← getEnv e).flow = .normal

def running (e : EnvId) : Eval D Θ Bool := do
  let env ← getEnv e
  return env.flow = .normal ∧ env.aborted = false

/-- `ts_mir_value_arg_error`, but for the text it leaves. -/
def valueArgError (e : EnvId) : Eval D Θ Unit := do
  let env ← getEnv e
  if env.aborted = false ∧ env.errorMsg = "" then do
    abort e
    modifyEnv e fun env => { env with errorMsg := "MIR runtime error: unsupported runtime value" }
  else resume e

/-- `exprtk_env_eval_node`; with the hook, `turbo_script_mir_eval_node`. -/
def envEvalNode (node : Node D) (e : EnvId) : Eval D Θ (Value D) :=
  if h.mirHooks then do
    let r ← R.valueArg node e
    if r.1 then return r.2
    else do
      valueArgError e
      return r.2
  else R.eval node e

/-- The body of a script function; with the hook, `turbo_script_mir_exec_script_body`. -/
def execBody (node : Node D) (e : EnvId) : Eval D Θ (Value D) :=
  if h.mirHooks then do
    let r ← R.valueArg node e
    if r.1 then return r.2
    else do
      valueArgError e
      return zero
  else R.eval node e

def spreadValues : Value D → List (Value D)
  | .vector xs => xs.map .number
  | .list items => items
  | v => [v]

def expandArg (e : EnvId) : Node D → Eval D Θ (List (Value D))
  | .spread child => do return spreadValues (← envEvalNode h R child e)
  | node => do return [← envEvalNode h R node e]

/-- `eval_expand_args`: stops after the first part that leaves a flow. -/
def expandArgs (e : EnvId) : List (Node D) → Eval D Θ (List (Value D))
  | [] => return []
  | node :: nodes => do
    let vs ← expandArg h R e node
    if ← running e then return vs ++ (← expandArgs e nodes)
    else return vs

/-- `eval_current_class`. -/
def currentClass (e : EnvId) : Eval D Θ (Option ClassId) := do
  let envs := (← get).envs
  match findEnv envs (fun env => env.currentClass.isSome) (e + 1) e with
  | some i => return (envs i).currentClass
  | none => return none

def accessFrom (e : EnvId) (object : Node D) : Eval D Θ (Access D) := do
  let c ← currentClass e
  match object with
  | .varRef name => return ⟨c, object, ← envGet e name⟩
  | _ => return ⟨c, object, zero⟩

def Func.frame (f : Func D) (parent : EnvId) (p caller : Env D)
    (captured : Name → Option (Binding D)) : Env D where
  vars := importVars (fun _ => none) captured
  returnValue := zero
  errorValue := zero
  parent := some parent
  currentClass := if f.ownerClass.isSome then f.ownerClass else p.currentClass
  currentMethodIsStatic :=
    if f.ownerClass.isSome then f.isStaticMethod else p.currentMethodIsStatic
  currentMethodIsConstructor :=
    f.ownerClass.isSome && !f.isStaticMethod && f.name == "constructor"
  safePoint := caller.safePoint
  maxRecursion := caller.maxRecursion
  currRecursion := caller.currRecursion
  maxLoopIterations := caller.maxLoopIterations
  currLoopIterations := caller.currLoopIterations
  maxNodes := caller.maxNodes
  currNodes := caller.currNodes

/-- `eval_param_binding_node`: a typed parameter binds its variable. -/
def paramBindingNode : Node D → Node D
  | .memberAccess (.varRef name) _ => .varRef name
  | param => param

def capturedVars (f : Func D) : Eval D Θ (Name → Option (Binding D)) :=
  match f.closureEnv with
  | some i => do return (← getEnv i).vars
  | none => return fun _ => none

def paramValue (parent : EnvId) (param : Node D) (args : List (Value D)) : Eval D Θ (Value D) :=
  match args, param with
  | v :: _, _ => return v
  | [], .assignment _ value => unchecked (envEvalNode h R value parent)
  | [], _ => return zero

def bindParam (frame : EnvId) (param : Node D) (v : Value D) : Eval D Θ Unit :=
  match paramBindingNode param with
  | .assignment name _ => envSet frame name v
  | target => destructure false frame target v

/-- The positional parameters in order. A missing argument takes the parameter's default,
    evaluated in the parent environment; a last spread parameter takes the rest. -/
def bindParams (parent frame : EnvId) : List (Node D) → List (Value D) → Eval D Θ Unit
  | [], _ => return
  | [.spread child], args => destructure false frame (.spread child) (.list args)
  | param :: params, args => do
    bindParam frame param (← paramValue h R parent param args)
    bindParams parent frame params args.tail

/-- The caller takes over the frame's counters and its flow. -/
def leaveFrame (caller frame : EnvId) (result : Value D) : Eval D Θ (Value D) := do
  let l ← getEnv frame
  noteCleared caller l.aborted
  modifyEnv caller fun c => { c with
    currNodes := l.currNodes
    currLoopIterations := l.currLoopIterations
    aborted := l.aborted
    currRecursion := c.currRecursion - 1 }
  match l.flow with
  | .return => return l.returnValue
  | .throw => do
    modifyEnv caller fun c => { c with
      flow := .throw, errorValue := l.errorValue, errorMsg := l.errorMsg }
    return result
  | .yield => do
    setFlow caller .yield
    return result
  | _ => return result

def enterFunction (caller : EnvId) (safePoint : Bool) (bytes : Nat) : Eval D Θ Bool :=
  if safePoint then evalSafePoint h caller .functionEnter bytes else return true

def evalScriptFunction (f : Func D) (args : List (Value D)) (parent caller : EnvId) :
    Eval D Θ (Value D) := do
  let c ← getEnv caller
  let bytes := h.frameBytes args.length
  if !(← enterFunction h caller c.safePoint bytes) then return zero
  else do
    modifyEnv caller fun c => { c with currRecursion := c.currRecursion + 1 }
    if c.maxRecursion < c.currRecursion + 1 then do
      abort caller
      modifyEnv caller fun c => { c with currRecursion := c.currRecursion - 1 }
      if c.safePoint then do
        let _ ← callSafePoint h .functionLeave bytes
        return zero
      else return zero
    else do
      let c ← getEnv caller
      let p ← getEnv parent
      let captured ← capturedVars f
      let frame ← newEnv (f.frame parent p c captured)
      bindParams h R parent frame f.params args
      emit .resumed
      let result ← execBody h R f.body frame
      let result ← leaveFrame caller frame result
      if c.safePoint then do
        let _ ← evalSafePoint h caller .functionLeave bytes
        return result
      else return result

def callFunctionValue (f : Func D) (args : List (Value D)) (e : EnvId) : Eval D Θ (Value D) :=
  evalScriptFunction h R { f with name := "<function>" } args (f.closureEnv.getD e) e

def thisVars (i : InstanceId) : Name → Option (Binding D) :=
  Function.update (fun _ => none) "this" (some ⟨.instanceVal i, false⟩)

def evalInstanceScriptMethod (i : InstanceId) (m : Func D) (args : List (Value D)) (e : EnvId) :
    Eval D Θ (Value D) := do
  let env ← getEnv e
  let methodEnv ← newEnv { Env.childWithCounters e env with
    vars := thisVars i, currentClass := m.ownerClass }
  evalScriptFunction h R m args methodEnv e

def construct (c : ClassId) (args : List (Value D)) (e : EnvId) : Eval D Θ (Value D) := do
  let s ← get
  match h.classes.instanceCreate s.store c with
  | none => return zero
  | some (i, store) => do
    modify fun s => { s with store := store }
    match h.classes.findConstructor store c args with
    | some ctor => do
      let env ← getEnv e
      let ctorEnv ← newEnv { Env.childWithCounters e env with
        vars := thisVars i, currentClass := some c, currentMethodIsConstructor := true }
      let _ ← evalScriptFunction h R ctor args ctorEnv e
      if ← running e then return .instanceVal i else return zero
    | none => if ← running e then return .instanceVal i else return zero

def instantiationError (c : ClassId) (className : Name) : Eval D Θ (Option String) := do
  let s ← get
  if h.classes.isInterface s.store c then
    return some ("Cannot instantiate interface '" ++ className ++ "'")
  else if h.classes.isAbstract s.store c then
    return some ("Cannot instantiate abstract class '" ++ className ++ "'")
  else return none

/-- `eval_class_value_instantiation`. -/
def instantiateWith (c : ClassId) (className : Name) (args : List (Node D)) (e : EnvId) :
    Eval D Θ (Value D) := do
  match ← instantiationError h c className with
  | some msg => throwErr e msg
  | none => do
    let vs ← expandArgs h R e args
    if ← running e then construct h R c vs e else return zero

/-- `exprtk_oop_instantiate_class_value`. -/
def instantiateValues (c : ClassId) (className : Name) (args : List (Value D)) (e : EnvId) :
    Eval D Θ (Value D) := do
  match ← instantiationError h c className with
  | some msg => throwErr e msg
  | none => construct h R c args e

def runNative (e : EnvId) : Native D → Eval D Θ (Value D)
  | .ret v => return v
  | .throwErr msg => throwErr e msg
  | .abort => do
    abort e
    return zero
  | .getVar name k => do runNative e (k (← envGet e name))
  | .setVar name v k => do
    envSet e name v
    runNative e k
  | .call f args k => do
    let v ← R.callable f args e
    if ← running e then runNative e (k v) else return zero

def findFunc (e : EnvId) (name : Name) : Eval D Θ (Option (Callee D)) := do
  let envs := (← get).envs
  match findEnv envs (fun env => (env.funcs.lookup name).isSome) (e + 1) e with
  | some i => return (envs i).funcs.lookup name
  | none => return none

def callInternal (name : Name) (args : List (Value D)) (e : EnvId) : Eval D Θ (Value D) := do
  match ← findFunc e name with
  | some (.script f) => evalScriptFunction h R f args e e
  | some (.native id) => runNative R e (h.native id args)
  | none => do
    match ← envGet e name with
    | .classVal c => instantiateValues h R c name args e
    | .boundMethod i m => evalInstanceScriptMethod h R i m args e
    | .function f => callFunctionValue h R f args e
    | _ =>
      match h.builtin name with
      | some native => runNative R e (native args)
      | none => throwErr e ("Undefined function '" ++ name ++ "'")

/-- `exprtk_call_callable`, the callback of the natives. -/
def callCallable (f : Value D) (args : List (Value D)) (e : EnvId) : Eval D Θ (Value D) :=
  match f with
  | .string name => callInternal h R name args e
  | .function g => do
    envSetLocal e "__ts_pipeline_fn" (.function g)
    callInternal h R "__ts_pipeline_fn" args e
  | _ => return zero

end Calls

end TurboScript.Exprtk
