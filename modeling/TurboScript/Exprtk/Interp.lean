import TurboScript.Exprtk.Nodes
import TurboScript.Exprtk.FreeVars

/- Statements of `exprtk_eval` and the dispatch on the node kind.

   A loop of the source runs at most as often as the fuel allows; a run that needs more is
   cut off where it stands. The events of a loop mark the moments a pending throw must not
   reach: the condition, the post-expression and the start of an iteration. -/
namespace TurboScript.Exprtk
open Lib

section Statements
variable {D Θ : Type} [Double D] [Formats] (h : Host D Θ) (R : Evaluators D Θ)

def evalAssignment (name : Name) (value : Node D) (e : EnvId) : Eval D Θ (Value D) := do
  let v ← unchecked (R.eval value e)
  emit (.effect .assignment)
  envSet e name v
  envGet e name

def evalConstantDecl (name : Name) (value : Node D) (e : EnvId) : Eval D Θ (Value D) := do
  let v ← unchecked (R.eval value e)
  emit (.effect .constantDecl)
  envSetConstant e name v
  envGet e name

def evalDestructuring (targets value : Node D) (isConstant : Bool) (e : EnvId) : Eval D Θ (Value D) := do
  let v ← unchecked (R.eval value e)
  emit (.effect .destructuring)
  destructure isConstant e targets v
  return v

def evalIf (c : Node D) (t f : Option (Node D)) (e : EnvId) : Eval D Θ (Value D) := do
  let v ← R.eval c e
  if !(← flowNormal e) then return zero
  else if evalValueTruthy v then evalOpt R t e
  else evalOpt R f e

def loopCondition (c : Node D) (e : EnvId) : Eval D Θ Bool := do
  emit (.effect .loopCondition)
  let v ← R.eval c e
  if ← running e then return evalValueTruthy v else return false

def clearContinue (e : EnvId) (flow : Flow) : Eval D Θ Unit :=
  if flow = .continue then setFlow e .normal else return

def whileIter (c body : Node D) (e : EnvId) : Nat → Value D → Eval D Θ (Value D)
  | 0, _ => cutOff
  | n + 1, last => do
    let flow := (← getEnv e).flow
    if flow ≠ .normal ∧ flow ≠ .continue then return last
    else do
      clearContinue e flow
      if !(← loopCondition R c e) then return last
      else if !(← evalLoopTick h e) then return last
      else do
        emit (.effect .iteration)
        let last ← R.eval body e
        match (← getEnv e).flow with
        | .break => do
          setFlow e .normal
          return last
        | .return => return last
        | _ => whileIter c body e n last

def forCondition (c : Option (Node D)) (e : EnvId) : Eval D Θ Bool :=
  match c with
  | some c => loopCondition R c e
  | none => return true

/-- The post-expression; the loop goes on unless it leaves a flow other than CONTINUE. -/
def forPost (post : Option (Node D)) (e : EnvId) : Eval D Θ Bool :=
  match post with
  | none => return true
  | some post => do
    emit (.effect .loopPost)
    let _ ← R.eval post e
    match (← getEnv e).flow with
    | .normal => return true
    | .continue => do
      setFlow e .normal
      return true
    | _ => return false

/-- After the body only BREAK and RETURN end the loop. -/
def forIter (c post : Option (Node D)) (body : Node D) (e : EnvId) : Nat → Value D → Eval D Θ (Value D)
  | 0, _ => cutOff
  | n + 1, last => do
    if !(← forCondition R c e) then return last
    else if !(← evalLoopTick h e) then return last
    else do
      emit (.effect .iteration)
      let last ← unchecked (R.eval body e)
      match (← getEnv e).flow with
      | .break => do
        setFlow e .normal
        return last
      | .return => return last
      | _ => if ← forPost R post e then forIter c post body e n last else return last

def evalFor (init c post : Option (Node D)) (body : Node D) (e : EnvId) (n : Nat) : Eval D Θ (Value D) := do
  let _ ← evalOpt R init e
  if ← running e then forIter h R c post body e n zero else return zero

/-- After the body only BREAK and RETURN end the loop. -/
def doWhileIter (body c : Node D) (e : EnvId) : Nat → Eval D Θ (Value D)
  | 0 => cutOff
  | n + 1 => do
    emit (.effect .iteration)
    let last ← unchecked (R.eval body e)
    match (← getEnv e).flow with
    | .break => do
      setFlow e .normal
      return last
    | .return => return last
    | flow => do
      clearContinue e flow
      if !(← loopCondition R c e) then return last
      else if !(← evalLoopTick h e) then return last
      else doWhileIter body c e n

/-- What a `for … in` loop runs over. -/
def iterationItems : Value D → List (Value D)
  | .vector xs => xs.map .number
  | .map es | .object es => es.map fun kv => .string kv.1
  | .list items | .set items => items
  | .typedArray _ items => items
  | _ => []

/-- After the body CONTINUE is cleared; BREAK and RETURN end the loop. -/
def forInIter (name : Name) (body : Node D) (e : EnvId) : List (Value D) → Value D → Eval D Θ (Value D)
  | [], last => return last
  | v :: vs, last => do
    if !(← evalLoopTick h e) then return last
    else do
      emit (.effect .iteration)
      envSet e name v
      let last ← unchecked (R.eval body e)
      match (← getEnv e).flow with
      | .break => do
        setFlow e .normal
        return last
      | .return => return last
      | flow => do
        clearContinue e flow
        forInIter name body e vs last

def evalForIn (name : Name) (collection body : Node D) (e : EnvId) : Eval D Θ (Value D) := do
  let v ← R.eval collection e
  if ← running e then forInIter h R name body e (iterationItems v) zero else return zero

def evalBlock (e : EnvId) : List (Node D) → Value D → Eval D Θ (Value D)
  | [], last => return last
  | s :: ss, _ => do
    let v ← R.eval s e
    if ← running e then evalBlock e ss v else return v

def evalReturn (value : Option (Node D)) (e : EnvId) : Eval D Θ (Value D) := do
  let v ← evalOpt R value e
  modifyEnv e fun env => { env with returnValue := v }
  if value.isSome ∧ !(← running e) then return v
  else do
    setFlow e .return
    return v

def evalThrow (value : Option (Node D)) (e : EnvId) : Eval D Θ (Value D) := do
  let v ← unchecked (evalOpt R value e)
  raise e v
  return v

def catchEnv (e : EnvId) (env : Env D) (catchVar : Option Name) : Env D :=
  { Env.childWithCounters e env with
    vars := match catchVar with
      | some x => Function.update (fun _ => none) x (some ⟨env.errorValue, false⟩)
      | none => fun _ => none }

def leaveCatch (e c : EnvId) : Eval D Θ Unit := do
  let l ← getEnv c
  noteCleared e l.aborted
  modifyEnv e fun env => { env with
    currNodes := l.currNodes, currLoopIterations := l.currLoopIterations, aborted := l.aborted }
  if l.flow ≠ .normal then
    modifyEnv e fun env => { env with
      flow := l.flow, returnValue := l.returnValue, errorValue := l.errorValue }

def enterCatch (e : EnvId) (catchVar : Option Name) : Eval D Θ EnvId := do
  emit .caught
  setFlow e .normal
  newEnv (catchEnv e (← getEnv e) catchVar)

def evalTryCatch (tryBody : Node D) (catchVar : Option Name) (catchBody : Node D) (e : EnvId) :
    Eval D Θ (Value D) := do
  let v ← protectedBy (R.eval tryBody e)
  if (← getEnv e).flow = .throw then do
    let c ← enterCatch e catchVar
    let v ← R.eval catchBody c
    leaveCatch e c
    return v
  else return v

def evalFunctionExpression (params : List (Node D)) (body : Node D) (e : EnvId) : Eval D Θ (Value D) := do
  let closure ← snapshot e (some (closureFreeVars body params))
  return .function ⟨"", params, body, some closure, none, false, .publicAccess⟩

/-- The types a `switch` compares. -/
def isMatchable : Value D → Bool
  | .number _ | .integer _ | .bool _ | .string _ | .bytes _ | .uuid _ | .null => true
  | _ => false

def evalCases (v : Value D) (defaultCase : Option (Node D)) (e : EnvId) : List (Node D) → Eval D Θ (Value D)
  | c :: body :: cases => do
    let w ← R.eval c e
    if !(← flowNormal e) then return zero
    else if isMatchable v && isMatchable w && valuesMatch v w then R.eval body e
    else evalCases v defaultCase e cases
  | _ => evalOpt R defaultCase e

def evalSwitch (value : Node D) (cases : List (Node D)) (defaultCase : Option (Node D))
    (e : EnvId) : Eval D Θ (Value D) := do
  let v ← R.eval value e
  if !(← flowNormal e) then return zero
  else evalCases R v defaultCase e cases

/-- The dispatch of `exprtk_eval`. -/
def evalNode (n : Nat) (node : Node D) (e : EnvId) : Eval D Θ (Value D) :=
  match node with
  | .number x => return .number x
  | .integer i => return .integer i
  | .string s => return .string s
  | .null => return .null
  | .templateString text => evalTemplate h R e (scanTemplate text) ""
  | .varRef name => envGet e name
  | .binary op left right => evalBinaryNode R op left right e
  | .functionCall name args => evalFunctionCall h R name args e
  | .assignment name value => evalAssignment R name value e
  | .constantDecl name value => evalConstantDecl R name value e
  | .destructuring targets value isConstant => evalDestructuring R targets value isConstant e
  | .ifStmt c t f => evalIf R c t f e
  | .whileLoop c body => whileIter h R c body e n zero
  | .forLoop init c post body => evalFor h R init c post body e n
  | .doWhile body c => doWhileIter h R body c e n
  | .forIn name collection body => evalForIn h R name collection body e
  | .block statements => evalBlock R e statements zero
  | .flowReturn value => evalReturn R value e
  | .flowBreak => do
    setFlow e .break
    return zero
  | .flowContinue => do
    setFlow e .continue
    return zero
  | .vector elements => evalVector h R elements e
  | .mapLiteral entries => evalMapLiteral R e entries []
  | .index array index => evalIndex R array index e
  | .slice array start stop => evalSlice R array start stop e
  | .spread child => R.eval child e
  | .functionDefinition name params body => evalFunctionDefinition name params body e
  | .functionExpression params body => evalFunctionExpression params body e
  | .memberCall object method args => evalMemberCall h R object method args e
  | .memberAccess object member => evalMemberAccess h R object member e
  | .memberSet object member value => evalMemberSet h R object member value e
  | .switch value cases defaultCase => evalSwitch R value cases defaultCase e
  | .throwStmt value => evalThrow R value e
  | .tryCatch tryBody catchVar catchBody => evalTryCatch R tryBody catchVar catchBody e
  | .classDef name parent interfaces _ members _ _ _ =>
    evalClassDef h R node name parent interfaces members e
  | .newExpr className args => evalNew h R className args e
  | .thisExpr => evalThis e
  | .superExpr member args isCall => evalSuper h R member args isCall e
  | .instanceOf object className classExpr => evalInstanceOf h R object className classExpr e
  | .yieldExpr _ | .generator _ _ _ | .method _ _ _ _ _ _ _ _ | .fieldDecl _ _ _ _ _ =>
    return zero

/-- `exprtk_eval`: an aborted environment evaluates nothing, and every node is charged. -/
def exprtkEval (n : Nat) (node : Node D) (e : EnvId) : Eval D Θ (Value D) := do
  if (← getEnv e).aborted then return zero
  else if ← evalStep h e then evalNode h R n node e
  else return zero

end Statements

end TurboScript.Exprtk
