import TurboScript.Exprtk.Interp

/- The value evaluator of the MIR runtime (`ts_mir_runtime_value_arg`) and the recursion
   that ties it to the tree evaluator.

   A result is the `int` the function returns and what it left in `out`: `false` is the
   failure channel, separate from the flow flag. A child whose failure leaves `out`
   untouched reports the number zero. -/
namespace TurboScript.Exprtk
open Lib

section Values
variable {D : Type} [Double D]
open Double

/-- What the operator part of a binary node does: a value, a failure, or an abort. -/
inductive MirResult (D : Type)
  | ok (v : Value D)
  | fail
  | abort

def MirResult.ofOption : Option (Value D) → MirResult D
  | some v => .ok v
  | none => .abort

/-- `ts_mir_runtime_value_text` with the buffer size its callers pass; a type without a
    case is printed as its numeric value. -/
def mirValueText [Formats] (size : Nat) : Value D → Option String
  | .string s => some s
  | .integer i => some (toString i)
  | .bool b => some (if b then "true" else "false")
  | .bytes b => some (bytesText b)
  | .uuid b => Formats.uuid size b
  | .datetime t => Formats.datetime size t
  | .date y m d => some (dateText y m d)
  | .time h m s ms => some (timeText h m s ms)
  | .duration ms => some (durationText ms)
  | .decimal d => decimalText 0 size d
  | .null => some "null"
  | v => some (format (valToDouble v))

def mirEqual : Value D → Value D → Option Bool
  | .null, .null => some true
  | .null, _ => some false
  | _, .null => some false
  | .bool a, .bool b => some (a == b)
  | .bytes a, .bytes b => some (a == b)
  | .uuid a, .uuid b => some (a == b)
  | .datetime a, .datetime b => some (a == b)
  | .date y m d, .date y' m' d' => some (y == y' && m == m' && d == d')
  | .time h m s ms, .time h' m' s' ms' => some (h == h' && m == m' && s == s' && ms == ms')
  | .duration a, .duration b => some (a == b)
  | .decimal a, .decimal b => some (a.normalize == b.normalize)
  | .string a, .string b => some (a == b)
  | _, _ => none

/-- Double arithmetic of this evaluator: a zero divisor gives zero. -/
def mirArithmetic (op : BinOp) (l r : D) : Option (Value D) :=
  match op with
  | .plus => some (.number (add l r))
  | .minus => some (.number (sub l r))
  | .multiply => some (.number (mul l r))
  | .divide => some (.number (if eq r (ofInt 0) then ofInt 0 else div l r))
  | .mod => some (.number (fmod l r))
  | .power => some (.number (pow l r))
  | .not => none
  | op => doubleCompare op l r

/-- The part of `ts_mir_eval_value_binary` after both operands. -/
def mirBinary [Formats] (op : BinOp) (l r : Value D) : MirResult D :=
  match (mirEqual l r).bind (equalityResult op) with
  | some v => .ok v
  | none =>
    if op = .plus ∧ (isString l ∨ isString r) then
      match mirValueText 32 l, mirValueText 32 r with
      | some a, some b => .ok (.string (a ++ b))
      | _, _ => .fail
    else if isNumeric l && isNumeric r then
      .ofOption (mirArithmetic op (valToDouble l) (valToDouble r))
    else .abort

def mirUnary (op : BinOp) (r : Value D) : Option (Value D) :=
  match op with
  | .plus => some (.number (valToDouble r))
  | .minus => some (.number (neg (valToDouble r)))
  | .not => some (ofBool (le (fabs (valToDouble r)) eps))
  | _ => none

/-- `ts_mir_template_append_value`. -/
def mirTemplateText [Formats] : Value D → Option String
  | .integer i => some (toString i)
  | .number x => some (format x)
  | .bool b => some (if b then "true" else "false")
  | .string s => some s
  | .bytes b => some (bytesText b)
  | .uuid b => Formats.uuid 64 b
  | .datetime t => Formats.datetime 64 t
  | .date y m d => some (dateText y m d)
  | .time h m s ms => some (timeText h m s ms)
  | .duration ms => some (durationText ms)
  | .decimal d => decimalText 0 64 d
  | .null => some "null"
  | .vector _ => some "[vector]"
  | .map _ => some "[map]"
  | .object _ => some "[object]"
  | .list _ => some "[list]"
  | _ => some ""

/-- `ts_mir_value_truthy`: the types it does not list are false. -/
def mirValueTruthy : Value D → Bool
  | .bool b => b
  | .integer i => i != 0
  | .number x => nonzero x
  | .string s => !s.isEmpty
  | .bytes b => !b.isEmpty
  | .vector xs => !xs.isEmpty
  | .list items => !items.isEmpty
  | .map es => !es.isEmpty
  | .object es => !es.isEmpty
  | .uuid _ | .datetime _ | .date _ _ _ | .time _ _ _ _ | .duration _ | .decimal _
  | .function _ | .classVal _ | .instanceVal _ | .boundMethod _ _ => true
  | _ => false

/-- The element at an index already cast to `int64_t`; outside the range it is zero. -/
def mirElement (items : List (Value D)) (i : Int) : Value D :=
  if i < 0 then zero else (items[i.toNat]?).getD zero

/-- Indexing; `none` hands the node to the tree evaluator. -/
def mirIndexValue (arr idx : Value D) : Option (Value D) :=
  match entries? arr, idx with
  | some es, .string key => some (mapGet es key)
  | _, _ =>
    let i := toInt (valToDouble idx)
    if i < 0 then some zero
    else
      match arr with
      | .vector xs => some (mirElement (xs.map .number) i)
      | .list items | .set items => some (mirElement items i)
      | .bytes b => some (mirElement (b.map fun c => .integer c.toNat) i)
      | _ => none

/-- Slicing with the bounds given; `none` fails. -/
def mirSliceValue (arr : Value D) (start stop : Option Int) : Option (Value D) :=
  let length := match arr with
    | .vector xs => some (xs.length : Int)
    | .list items => some (items.length : Int)
    | _ => none
  match (stop.orElse fun _ => length) with
  | none => none
  | some b =>
    let a := start.getD 0
    if a < 0 ∨ b < a then none
    else
      match arr with
      | .vector xs =>
        if (xs.length : Int) < b then none
        else some (.vector ((xs.drop a.toNat).take (b - a).toNat))
      | .list items =>
        if (items.length : Int) < b then none
        else some (.list ((items.drop a.toNat).take (b - a).toNat))
      | _ => none

/-- The `length` of the types that have one here. -/
def mirLength : Value D → Option Nat
  | .list items | .set items => some items.length
  | .vector xs => some xs.length
  | .string s => some s.utf8ByteSize
  | .bytes b => some b.length
  | _ => none

end Values

section ValueArg
variable {D Θ : Type} [Double D] [Formats] (h : Host D Θ) (R : Evaluators D Θ)

/-- A child evaluated into a local; its failure leaves `out` alone. -/
def onValue (m : Eval D Θ (Out D)) (k : Value D → Eval D Θ (Out D)) : Eval D Θ (Out D) := do
  let r ← m
  if r.1 then k r.2 else return (false, zero)

/-- A child evaluated into `out`. -/
def onOut (m : Eval D Θ (Out D)) (k : Value D → Eval D Θ (Out D)) : Eval D Θ (Out D) := do
  let r ← m
  if r.1 then k r.2 else return r

def done (v : Value D) : Eval D Θ (Out D) := return (true, v)

def failed : Eval D Θ (Out D) := return (false, zero)

def unlessAborted (e : EnvId) (v : Value D) : Eval D Θ (Out D) := do
  return (!(← getEnv e).aborted, v)

/-- The node re-evaluated by `exprtk_eval`; a throw in it becomes a failure. -/
def viaTreeEval (node : Node D) (e : EnvId) : Eval D Θ (Out D) := do
  let v ← unchecked (R.eval node e)
  let env ← getEnv e
  return (!env.aborted && env.flow ≠ .throw, v)

def onceMore (node : Node D) (e : EnvId) : Eval D Θ (Out D) := do
  resume e
  viaTreeEval R node e

def mirOpt (node : Option (Node D)) (e : EnvId) : Eval D Θ (Out D) :=
  match node with
  | some node => R.valueArg node e
  | none => done zero

def mirOperand (node : Node D) (e : EnvId) (k : Value D → Eval D Θ (Out D)) : Eval D Θ (Out D) := do
  let r ← unchecked (R.valueArg node e)
  if r.1 then k r.2
  else do
    valueArgError e
    return (false, zero)

def mirEvalValueBinary (op : BinOp) (left : Option (Node D)) (right : Node D) (e : EnvId) :
    Eval D Θ (Out D) :=
  match left with
  | none => onValue (unchecked (R.valueArg right e)) fun r =>
      match mirUnary op r with
      | some v => done v
      | none => failed
  | some left =>
    mirOperand R left e fun l => mirOperand R right e fun r =>
      match mirBinary op l r with
      | .ok v => done v
      | .fail => failed
      | .abort => do
        abort e
        modifyEnv e fun env => { env with errorMsg := "MIR runtime error: unsupported runtime binary op" }
        failed

/-- `ts_mir_runtime_template_value`. -/
def mirTemplate (e : EnvId) : List Piece → String → Eval D Θ (Out D)
  | [], acc => done (.string acc)
  | .char c :: ps, acc => mirTemplate e ps (acc.push c)
  | .unclosed :: _, _ => failed
  | .expr [] :: ps, acc => mirTemplate e ps acc
  | .expr (c :: cs) :: ps, acc =>
    match h.parse (String.ofList (c :: cs)) with
    | none => failed
    | some node => onValue (unchecked (R.valueArg node e)) fun v =>
        match mirTemplateText v with
        | some text => mirTemplate e ps (acc ++ text)
        | none => failed

def mirElementValues (e : EnvId) (node : Node D) : Eval D Θ (Option (List (Value D))) :=
  match node with
  | .spread child => do
    let r ← R.valueArg child e
    return if r.1 then some (spreadValues r.2) else none
  | node => do
    let r ← R.valueArg node e
    return if r.1 then some [r.2] else none

/-- The values of an argument or element list; `none` when one fails. -/
def mirValues (e : EnvId) : List (Node D) → Eval D Θ (Option (List (Value D)))
  | [] => return some []
  | node :: nodes => do
    match ← mirElementValues R e node with
    | none => return none
    | some vs => do
      match ← mirValues e nodes with
      | some rest => return some (vs ++ rest)
      | none => return none

/-- `ts_mir_runtime_call_value_args`: the array of an argument list that expands to nothing
    is never allocated, which the callers take for a failure. -/
def mirCallArgs (args : List (Node D)) (e : EnvId) : Eval D Θ (Option (List (Value D))) := do
  match ← unchecked (mirValues R e args) with
  | some vs => return if vs.isEmpty ∧ !args.isEmpty then none else some vs
  | none => do
    valueArgError e
    return none

def mirFunctionCall (name : Name) (args : List (Node D)) (e : EnvId) : Eval D Θ (Out D) := do
  match ← mirCallArgs R args e with
  | none => failed
  | some vs => do
    let v ← callInternal h R name vs e
    unlessAborted e v

/-- `exprtk_member_call_checked_values`. -/
def memberCallValues (objectName method : Name) (object : Node D) (args : List (Value D))
    (e : EnvId) : Eval D Θ (Value D) := do
  match ← envGet e objectName with
  | .instanceVal i => callInstanceMethod h R i object method args e
  | .classVal c => callStaticMethod h R c object method args e
  | obj =>
    match obj with
    | .list _ | .set _ | .map _ | .object _ | .bytes _ | .uuid _ | .datetime _ | .date _ _ _
    | .time _ _ _ _ | .duration _ | .decimal _ | .offsetDatetime _ _ | .typedArray _ _
    | .string _ | .vector _ => runNative R e (h.method obj method args (receiverName object))
    | _ => callInternal h R (objectName ++ "." ++ method) args e

/-- `exprtk_member_call_checked_value_nodes`. -/
def memberCallNodes (objectName method : Name) (object : Node D) (args : List (Node D))
    (e : EnvId) : Eval D Θ (Value D) := do
  let vs ← unchecked (expandArgs h R e args)
  memberCallValues h R objectName method object vs e

def receiverTemp : Name := "__ts_mir_value_receiver"

/-- The receivers a method call is retried on through a temporary variable. -/
def isReceiver : Value D → Bool
  | .instanceVal _ | .classVal _ | .map _ | .object _ | .list _ | .set _ | .vector _
  | .string _ | .bytes _ => true
  | _ => false

/-- A method call on a variable that has aborted goes on with the receiver's value. -/
def mirRetryMember (node object : Node D) (method : Name) (args : List (Node D)) (e : EnvId) :
    Eval D Θ (Out D) := do
  let r ← unchecked (R.valueArg object e)
  if !r.1 then onceMore R node e
  else
    match if method = "length" ∧ args.isEmpty then mirLength r.2 else none with
    | some n => done (.number (Double.ofInt n))
    | none =>
      if isReceiver r.2 then do
        envSet e receiverTemp r.2
        let v ← memberCallNodes h R receiverTemp method object args e
        unlessAborted e v
      else failed

def mirMemberCall (node object : Node D) (method : Name) (args : List (Node D)) (e : EnvId) :
    Eval D Θ (Out D) := do
  match object with
  | .varRef name => do
    let full := name ++ "." ++ method
    if (← findFunc e full).isSome ∨ (h.builtin full).isSome then do
      match ← mirCallArgs R args e with
      | none => failed
      | some vs => do
        let v ← callInternal h R full vs e
        unlessAborted e v
    else do
      let v ← memberCallNodes h R name method object args e
      if (← getEnv e).aborted then mirRetryMember h R node object method args e
      else done v
  | _ => viaTreeEval R node e

def mirVector (elements : List (Node D)) (e : EnvId) : Eval D Θ (Out D) := do
  match ← unchecked (mirValues R e elements) with
  | some vs => done (.vector (vs.map valToDouble))
  | none => failed

def mirMapLiteral (e : EnvId) : List (Option Name × Node D) → List (Name × Value D) → Eval D Θ (Out D)
  | [], acc => done (.map acc)
  | (none, _) :: _, _ => failed
  | (some key, node) :: rest, acc =>
    onValue (unchecked (R.valueArg node e)) fun v => mirMapLiteral e rest (mapSet acc key v)

def mirIndex (node array index : Node D) (e : EnvId) : Eval D Θ (Out D) := do
  let a ← unchecked (R.valueArg array e)
  if !a.1 then onceMore R node e
  else do
    let i ← unchecked (R.valueArg index e)
    if !i.1 then onceMore R node e
    else
      match mirIndexValue a.2 i.2 with
      | some v => done v
      | none => do
        let v ← R.eval node e
        unlessAborted e v

def mirSlice (array : Node D) (start stop : Option (Node D)) (e : EnvId) : Eval D Θ (Out D) :=
  onValue (unchecked (R.valueArg array e)) fun arr =>
    onValue (unchecked (mirOpt R start e)) fun a =>
      onValue (unchecked (mirOpt R stop e)) fun b =>
        let bound := fun (n : Option (Node D)) (v : Value D) =>
          n.map fun _ => Double.toInt (valToDouble v)
        match mirSliceValue arr (bound start a) (bound stop b) with
        | some v => done v
        | none => failed

def bindReceiver (obj : Value D) (object : Node D) (e : EnvId) : Eval D Θ Unit :=
  match receiverName object with
  | some _ => return
  | none => envSet e receiverTemp obj

/-- A member of an instance or a class is read through a variable. -/
def mirObjectMember (obj : Value D) (object : Node D) (member : Name) (e : EnvId) : Eval D Θ (Out D) := do
  bindReceiver obj object e
  let v ← memberValue h obj object member e
  unlessAborted e v

def mirMember (obj : Value D) (object : Node D) (member : Name) (e : EnvId) : Eval D Θ (Out D) :=
  match if member = "length" then mirLength obj else none with
  | some n => done (.number (Double.ofInt n))
  | none =>
    match obj with
    | .map es | .object es => done (mapGet es member)
    | .datetime _ | .date _ _ _ | .time _ _ _ _ | .duration _ | .decimal _ =>
      match h.property obj member with
      | some v => done v
      | none => failed
    | .instanceVal _ | .classVal _ => mirObjectMember h obj object member e
    | _ => do
      let v ← throwErr e ("Member access '" ++ member ++ "' is invalid for " ++ typeName obj)
      done v

def mirMemberAccess (object : Node D) (member : Name) (e : EnvId) : Eval D Θ (Out D) :=
  onValue (unchecked (R.valueArg object e)) fun obj => mirMember h obj object member e

/-- A class member is written without the check of its type. -/
def mirWriteStatic (c : ClassId) (object : Node D) (member : Name) (v : Value D) (e : EnvId) :
    Eval D Θ (Value D) := do
  match ← staticDenied h c object member e with
  | some msg => throwErr e msg
  | none => do
    emit (.effect .memberWrite)
    modify fun s => { s with store := h.classes.setStaticFieldUnchecked s.store c member v }
    return v

def mirSetVariable (name member : Name) (v : Value D) (e : EnvId) : Eval D Θ (Value D) := do
  match ← envGet e name with
  | .map es => writeEntry name member .map es v e
  | .object es => writeEntry name member .object es v e
  | .instanceVal i => do
    let c := h.classes.classOf (← get).store i
    writeField h i c (.varRef name) member v e
  | .classVal c => mirWriteStatic h c (.varRef name) member v e
  | _ => throwErr e (memberSetError member)

def mirSetThis (member : Name) (v : Value D) (e : EnvId) : Eval D Θ (Value D) := do
  let this ← evalThis e
  if !(← flowNormal e) then return zero
  else
    match this with
    | .instanceVal i => do
      let c := h.classes.classOf (← get).store i
      writeField h i c .thisExpr member v e
    | _ => return zero

def mirSetSuper (object : Node D) (member : Name) (v : Value D) (e : EnvId) : Eval D Θ (Value D) := do
  let s ← get
  match (← currentClass e).bind (h.classes.prototype s.store) with
  | none => throwErr e "super is only valid inside class methods"
  | some parent => do
    if (← getEnv e).currentMethodIsStatic then mirWriteStatic h parent object member v e
    else do
      match ← envGet e "this" with
      | .instanceVal i => writeField h i parent object member v e
      | _ => throwErr e "super is only valid inside instance methods or constructors"

/-- `ts_mir_runtime_member_set_value`. -/
def mirMemberSet (object : Node D) (member : Name) (value : Node D) (e : EnvId) : Eval D Θ (Out D) :=
  match object with
  | .varRef _ | .thisExpr | .superExpr _ _ _ =>
    onValue (R.valueArg value e) fun v => do
      if !(← flowNormal e) then done zero
      else
        match object with
        | .varRef name => do done (← mirSetVariable h name member v e)
        | .thisExpr => do done (← mirSetThis h member v e)
        | _ => do done (← mirSetSuper h object member v e)
  | _ => do
    done (← throwErr e ("Member assignment '" ++ member ++
      "' requires a variable receiver, this, or static super"))

def mirSuper (member : Option Name) (args : List (Node D)) (isCall : Bool) (e : EnvId) :
    Eval D Θ (Out D) := do
  match ← superValue h R (mirCallArgs R args e) (.superExpr member args isCall) member isCall e with
  | some v => done v
  | none => failed

def mirInstanceOf (object : Node D) (className : Name) (classExpr : Option (Node D))
    (e : EnvId) : Eval D Θ (Out D) :=
  onValue (R.valueArg object e) fun obj => do
    if !(← flowNormal e) then done zero
    else
      match obj with
      | .instanceVal i => do
        let result := fun c : Value D => do
          match c with
          | .classVal c => done (ofBool (h.classes.instanceOf (← get).store i c))
          | _ => done (ofBool false)
        match classExpr with
        | some node => onValue (R.valueArg node e) result
        | none => do result (← envGet e className)
      | _ => done zero

/-! Statements. -/

def mirAssignment (name : Name) (value : Node D) (e : EnvId) : Eval D Θ (Out D) :=
  onOut (unchecked (R.valueArg value e)) fun v => do
    emit (.effect .assignment)
    envSet e name v
    done (← envGet e name)

def mirConstantDecl (name : Name) (value : Node D) (e : EnvId) : Eval D Θ (Out D) :=
  onOut (unchecked (R.valueArg value e)) fun v => do
    emit (.effect .constantDecl)
    envSetConstant e name v
    done (← envGet e name)

def mirDestructuring (targets value : Node D) (isConstant : Bool) (e : EnvId) : Eval D Θ (Out D) :=
  onOut (R.valueArg value e) fun v => do
    if ← running e then do
      emit (.effect .destructuring)
      destructure isConstant e targets v
      done v
    else done v

def mirBlock (e : EnvId) : List (Node D) → Value D → Eval D Θ (Out D)
  | [], last => done last
  | s :: ss, _ => onValue (R.valueArg s e) fun v => do
    if ← running e then mirBlock e ss v else done v

def mirReturn (value : Option (Node D)) (e : EnvId) : Eval D Θ (Out D) :=
  onOut (mirOpt R value e) fun v => do
    if value.isSome ∧ !(← flowNormal e) then done v
    else do
      modifyEnv e fun env => { env with returnValue := v, flow := .return }
      done v

def mirThrow (value : Option (Node D)) (e : EnvId) : Eval D Θ (Out D) :=
  onOut (unchecked (mirOpt R value e)) fun v => do
    raise e v
    done v

def mirIf (c : Node D) (t f : Option (Node D)) (e : EnvId) : Eval D Θ (Out D) :=
  onValue (unchecked (R.valueArg c e)) fun v =>
    if mirValueTruthy v then mirOpt R t e else mirOpt R f e

def mirCondition (c : Node D) (e : EnvId) : Eval D Θ (Option Bool) := do
  emit (.effect .loopCondition)
  let r ← R.valueArg c e
  if !r.1 then return none
  else if ← running e then return some (mirValueTruthy r.2)
  else return some false

/-- `ts_mir_runtime_body_flow_done`: whether the loop ends here. -/
def mirBodyFlowDone (e : EnvId) : Eval D Θ Bool := do
  let env ← getEnv e
  match env.flow with
  | .break => do
    setFlow e .normal
    return true
  | .continue => do
    setFlow e .normal
    return false
  | flow => return flow ≠ .normal ∨ env.aborted

def mirWhile (c body : Node D) (e : EnvId) : Nat → Value D → Eval D Θ (Out D)
  | 0, _ => cutOff
  | n + 1, last => do
    let flow := (← getEnv e).flow
    if flow ≠ .normal ∧ flow ≠ .continue then done last
    else do
      clearContinue e flow
      match ← mirCondition R c e with
      | none => failed
      | some false => done last
      | some true => do
        if !(← evalLoopTick h e) then done last
        else do
          emit (.effect .iteration)
          let r ← R.valueArg body e
          if !r.1 then failed
          else if ← mirBodyFlowDone e then done r.2
          else mirWhile c body e n r.2

def mirForCondition (c : Option (Node D)) (e : EnvId) : Eval D Θ (Option Bool) :=
  match c with
  | some c => mirCondition R c e
  | none => return some true

def mirForPost (post : Option (Node D)) (last : Value D) (e : EnvId) :
    Eval D Θ (Option (Bool × Value D)) := do
  match post with
  | some post => do
    emit (.effect .loopPost)
    let r ← R.valueArg post e
    if !r.1 then return none
    else do
      let flow := (← getEnv e).flow
      if flow ≠ .normal ∧ flow ≠ .continue then return some (false, r.2)
      else do
        clearContinue e flow
        return some (!(← mirBodyFlowDone e), r.2)
  | none => do
    clearContinue e (← getEnv e).flow
    return some (!(← mirBodyFlowDone e), last)

def mirForIter (c post : Option (Node D)) (body : Node D) (e : EnvId) : Nat → Value D → Eval D Θ (Out D)
  | 0, _ => cutOff
  | n + 1, last => do
    match ← mirForCondition R c e with
    | none => failed
    | some false => done last
    | some true => do
      if !(← evalLoopTick h e) then done last
      else do
        emit (.effect .iteration)
        let r ← R.valueArg body e
        if !r.1 then failed
        else do
          let env ← getEnv e
          if env.flow = .break then do
            setFlow e .normal
            done r.2
          else if env.flow = .return ∨ env.flow = .throw ∨ env.aborted then done r.2
          else do
            match ← mirForPost R post r.2 e with
            | none => failed
            | some (false, last) => done last
            | some (true, last) => mirForIter c post body e n last

def mirFor (init c post : Option (Node D)) (body : Node D) (e : EnvId) (n : Nat) : Eval D Θ (Out D) := do
  let r ← mirOpt R init e
  if !r.1 then failed
  else if ← running e then mirForIter h R c post body e n r.2
  else done zero

def mirDoWhile (body c : Node D) (e : EnvId) : Nat → Eval D Θ (Out D)
  | 0 => cutOff
  | n + 1 => do
    emit (.effect .iteration)
    let r ← R.valueArg body e
    if !r.1 then failed
    else do
      let env ← getEnv e
      if env.flow = .break then do
        setFlow e .normal
        done r.2
      else if env.flow = .return ∨ env.flow = .throw ∨ env.aborted then done r.2
      else do
        clearContinue e env.flow
        match ← mirCondition R c e with
        | none => failed
        | some false => done r.2
        | some true => do
          if !(← evalLoopTick h e) then done r.2 else mirDoWhile body c e n

/-- Sets and typed arrays are not iterated here. -/
def mirIterationItems : Value D → List (Value D)
  | .vector xs => xs.map .number
  | .map es | .object es => es.map fun kv => .string kv.1
  | .list items => items
  | _ => []

def mirForInIter (name : Name) (body : Node D) (e : EnvId) : List (Value D) → Value D → Eval D Θ (Out D)
  | [], last => done last
  | v :: vs, last => do
    if !(← evalLoopTick h e) then done last
    else do
      emit (.effect .iteration)
      envSet e name v
      let r ← R.valueArg body e
      if !r.1 then failed
      else if ← mirBodyFlowDone e then done r.2
      else mirForInIter name body e vs r.2

def mirForIn (name : Name) (collection body : Node D) (e : EnvId) : Eval D Θ (Out D) :=
  onValue (R.valueArg collection e) fun v => do
    if ← running e then mirForInIter h R name body e (mirIterationItems v) zero
    else done zero

def mirCases (v : Value D) (defaultCase : Option (Node D)) (e : EnvId) : List (Node D) → Eval D Θ (Out D)
  | c :: body :: cases => onValue (R.valueArg c e) fun w => do
    if ← running e then
      if valuesMatch v w then R.valueArg body e else mirCases v defaultCase e cases
    else done zero
  | _ => mirOpt R defaultCase e

def mirSwitch (value : Node D) (cases : List (Node D)) (defaultCase : Option (Node D))
    (e : EnvId) : Eval D Θ (Out D) :=
  onValue (R.valueArg value e) fun v => do
    if ← running e then mirCases R v defaultCase e cases else done zero

/-- `ts_mir_runtime_try_catch_value`. A body that fails is not caught, and a catch clause
    that fails leaves without taking its counters along. -/
def mirTryCatch (tryBody : Node D) (catchVar : Option Name) (catchBody : Node D) (e : EnvId) :
    Eval D Θ (Out D) :=
  onValue (protectedBy (R.valueArg tryBody e)) fun v => do
    if (← getEnv e).flow = .throw then do
      let c ← enterCatch e catchVar
      onValue (R.valueArg catchBody c) fun v => do
        leaveCatch e c
        done v
    else done v

/-- The dispatch of `ts_mir_runtime_value_arg`. -/
def mirNode (n : Nat) (node : Node D) (e : EnvId) : Eval D Θ (Out D) :=
  match node with
  | .number x => done (.number x)
  | .integer i => done (.integer i)
  | .string s => done (.string s)
  | .null => done .null
  | .thisExpr => do done (← evalThis e)
  | .superExpr member args isCall => mirSuper h R member args isCall e
  | .classDef name parent interfaces _ members _ _ _ => do
    done (← evalClassDef h R node name parent interfaces members e)
  | .newExpr className args => do done (← evalNew h R className args e)
  | .templateString text => mirTemplate h R e (scanTemplate text) ""
  | .functionExpression params body => do done (← evalFunctionExpression params body e)
  | .functionDefinition name params body => do
    done (← evalFunctionDefinition name params body e)
  | .varRef name => do done (← envGet e name)
  | .assignment name value => mirAssignment R name value e
  | .constantDecl name value => mirConstantDecl R name value e
  | .destructuring targets value isConstant => mirDestructuring R targets value isConstant e
  | .block statements => mirBlock R e statements zero
  | .flowReturn value => mirReturn R value e
  | .flowBreak => do
    setFlow e .break
    done zero
  | .flowContinue => do
    setFlow e .continue
    done zero
  | .throwStmt value => mirThrow R value e
  | .tryCatch tryBody catchVar catchBody => mirTryCatch R tryBody catchVar catchBody e
  | .ifStmt c t f => mirIf R c t f e
  | .whileLoop c body => mirWhile h R c body e n zero
  | .forLoop init c post body => mirFor h R init c post body e n
  | .doWhile body c => mirDoWhile h R body c e n
  | .forIn name collection body => mirForIn h R name collection body e
  | .switch value cases defaultCase => mirSwitch R value cases defaultCase e
  | .binary op left right => mirEvalValueBinary R op left right e
  | .instanceOf object className classExpr => mirInstanceOf h R object className classExpr e
  | .functionCall name args => mirFunctionCall h R name args e
  | .memberCall object method args => mirMemberCall h R node object method args e
  | .vector elements => mirVector R elements e
  | .mapLiteral entries => mirMapLiteral R e entries []
  | .index array index => mirIndex R node array index e
  | .slice array start stop => mirSlice R array start stop e
  | .memberAccess object member => mirMemberAccess h R object member e
  | .memberSet object member value => mirMemberSet h R object member value e
  | .spread _ | .yieldExpr _ | .generator _ _ _ | .method _ _ _ _ _ _ _ _
  | .fieldDecl _ _ _ _ _ => failed

def mirRuntimeValueArg (n : Nat) (node : Node D) (e : EnvId) : Eval D Θ (Out D) := do
  if ← evalStep h e then mirNode h R n node e else failed

/-- Both evaluators with `n` levels of fuel. -/
def evaluators : Nat → Evaluators D Θ
  | 0 => ⟨fun _ _ => cutOff, fun _ _ => cutOff, fun _ _ _ => cutOff⟩
  | n + 1 => ⟨exprtkEval h (evaluators n) n, mirRuntimeValueArg h (evaluators n) n,
      callCallable h (evaluators n)⟩

end ValueArg

end TurboScript.Exprtk
