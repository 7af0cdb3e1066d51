import TurboScript.Exprtk.Eval

/- The node kinds of `exprtk_eval`, each a function of the evaluators one level of fuel
   below.

   A part after which the source does not look at `env->flow` is evaluated under
   `unchecked`; a part whose value is returned as it is needs no test. -/
namespace TurboScript.Exprtk
open Lib

section Expressions
variable {D Θ : Type} [Double D] [Formats] (h : Host D Θ) (R : Evaluators D Θ)

def evalOpt (node : Option (Node D)) (e : EnvId) : Eval D Θ (Value D) :=
  match node with
  | some node => R.eval node e
  | none => return zero

def binaryResult (op : BinOp) (l r : Value D) (e : EnvId) : Eval D Θ (Value D) :=
  match evalBinary op l r with
  | .ok v => return v
  | .error msg => throwErr e msg

def evalBinaryNode (op : BinOp) (left : Option (Node D)) (right : Node D) (e : EnvId) :
    Eval D Θ (Value D) := do
  let l ← evalOpt R left e
  if !(← flowNormal e) then return zero
  else do
    let r ← R.eval right e
    if !(← flowNormal e) then return zero
    else binaryResult op l r e

/-- The pieces in order; an unreadable placeholder adds nothing. -/
def evalTemplate (e : EnvId) : List Piece → String → Eval D Θ (Value D)
  | [], acc => return .string acc
  | .char c :: ps, acc => evalTemplate e ps (acc.push c)
  | .unclosed :: ps, acc => evalTemplate e ps acc
  | .expr [] :: ps, acc => evalTemplate e ps acc
  | .expr (c :: cs) :: ps, acc =>
    match h.parse (String.ofList (c :: cs)) with
    | none => evalTemplate e ps acc
    | some node => do
      let v ← unchecked (R.eval node e)
      evalTemplate e ps (acc ++ templateText v)

/-- The cast of an index to `int`. -/
def indexOf? : Value D → Option Int
  | .integer i => some (i.bmod (2 ^ 32))
  | .number x => some (Double.toInt x)
  | _ => none

/-- The cast of a length to `int`. -/
def lengthInt (length : Nat) : Int := (length : Int).bmod 4294967296

def inBounds (i : Int) (length : Nat) : Bool := 0 ≤ i && i < lengthInt length

def elementAt (what : String) (items : List (Value D)) (i : Int) : Except String (Value D) :=
  match if inBounds i items.length then items[i.toNat]? else none with
  | some v => .ok v
  | none => .error (what ++ " index " ++ toString i ++ " out of bounds [0, " ++
      toString items.length ++ ")")

def indexValue (arr idx : Value D) : Except String (Value D) :=
  let invalid := Except.error ("Invalid indexing: expected vector[number], list[number], " ++
    "typed_array[number], or map[string], got " ++ typeName arr ++ "[" ++ typeName idx ++ "]")
  match arr, indexOf? idx, idx with
  | .vector xs, some i, _ => elementAt "Array" (xs.map .number) i
  | .list items, some i, _ => elementAt "List" items i
  | .set items, some i, _ => elementAt "List" items i
  | .typedArray _ items, some i, _ => elementAt "Typed array" items i
  | .bytes b, some i, _ => elementAt "Bytes" (b.map fun c => .integer c.toNat) i
  | .map es, none, .string key => .ok (mapGet es key)
  | .object es, none, .string key => .ok (mapGet es key)
  | _, _, _ => invalid

def evalIndex (array index : Node D) (e : EnvId) : Eval D Θ (Value D) := do
  let arr ← unchecked (R.eval array e)
  let idx ← unchecked (R.eval index e)
  match indexValue arr idx with
  | .ok v => return v
  | .error msg => throwErr e msg

def sliceBounds (start stop : Int) (length : Nat) : Int × Int :=
  (max start 0, min stop (lengthInt length))

def sliceValue (arr start stop : Value D) : Except String (Value D) :=
  match arr, indexOf? start, indexOf? stop with
  | .vector xs, some i, some j =>
    let (a, b) := sliceBounds i j xs.length
    if b < a then
      .error ("Invalid slice range [" ++ toString a ++ ":" ++ toString b ++ "]")
    else .ok (.vector ((xs.drop a.toNat).take (b - a).toNat))
  | _, _, _ => .error ("Invalid slice: expected vector[number:number], got " ++ typeName arr ++
      "[" ++ typeName start ++ ":" ++ typeName stop ++ "]")

def evalSlice (array : Node D) (start stop : Option (Node D)) (e : EnvId) : Eval D Θ (Value D) := do
  let arr ← unchecked (R.eval array e)
  let a ← unchecked (evalOpt R start e)
  let b ← unchecked (evalOpt R stop e)
  match sliceValue arr a b with
  | .ok v => return v
  | .error msg => throwErr e msg

/-- An empty vector literal is the number zero. -/
def evalVector (elements : List (Node D)) (e : EnvId) : Eval D Θ (Value D) := do
  let vs ← expandArgs h R e elements
  if vs.isEmpty then return zero else return .vector (vs.map valToDouble)

/-- The entries of a spread value are merged; other values are ignored. -/
def evalMapLiteral (e : EnvId) : List (Option Name × Node D) → List (Name × Value D) → Eval D Θ (Value D)
  | [], acc => return .map acc
  | (none, node) :: rest, acc => do
    let v ← unchecked (R.eval node e)
    match entries? v with
    | some es => evalMapLiteral e rest (es.foldl (fun m kv => mapSet m kv.1 kv.2) acc)
    | none => evalMapLiteral e rest acc
  | (some key, node) :: rest, acc => do
    let v ← R.eval node e
    if !(← flowNormal e) then return .map acc
    else evalMapLiteral e rest (mapSet acc key v)

/-! Calls. -/

/-- The class is looked up before the arguments are evaluated, everything else after. -/
def evalFunctionCall (name : Name) (args : List (Node D)) (e : EnvId) : Eval D Θ (Value D) := do
  match ← envGet e name with
  | .classVal c => instantiateWith h R c name args e
  | .boundMethod i m => do
    let vs ← unchecked (expandArgs h R e args)
    evalInstanceScriptMethod h R i m vs e
  | .function f => do
    let vs ← unchecked (expandArgs h R e args)
    callFunctionValue h R f vs e
  | _ => do
    let vs ← unchecked (expandArgs h R e args)
    callInternal h R name vs e

/-- `eval_class_instantiation`. -/
def evalNew (className : Name) (args : List (Node D)) (e : EnvId) : Eval D Θ (Value D) := do
  match ← envGet e className with
  | .classVal c => instantiateWith h R c className args e
  | _ => throwErr e ("Undefined class '" ++ className ++ "'")

/-- A redefinition replaces the entry in place, a new name is put in front. -/
def defineFunc (funcs : List (Name × Callee D)) (f : Func D) : List (Name × Callee D) :=
  if (funcs.lookup f.name).isSome then
    funcs.map fun p => if p.1 = f.name then (p.1, .script f) else p
  else (f.name, .script f) :: funcs

def evalFunctionDefinition (name : Name) (params : List (Node D)) (body : Node D) (e : EnvId) :
    Eval D Θ (Value D) := do
  modifyEnv e fun env => { env with funcs := defineFunc env.funcs ⟨name, params, body, none, none, false, .publicAccess⟩ }
  return zero

/-- A receiver that is a chain of names, with its root. -/
def qualifiedReceiver : Node D → Option (Name × Name)
  | .varRef name => if name = "" then none else some (name, name)
  | .memberAccess object member =>
    if member = "" then none
    else (qualifiedReceiver object).map fun p => (p.1, p.2 ++ "." ++ member)
  | _ => none

def qualifiedName (object : Node D) (method : Name) : Option (Name × Name) :=
  match qualifiedReceiver object with
  | some (root, receiver) =>
    let name := receiver ++ "." ++ method
    if method = "" ∨ 256 ≤ name.utf8ByteSize then none else some (root, name)
  | none => none

def callInstanceMethod (i : InstanceId) (object : Node D) (method : Name)
    (args : List (Value D)) (e : EnvId) : Eval D Θ (Value D) := do
  let s ← get
  match h.classes.lookupMethodTyped s.store (h.classes.classOf s.store i) method false args with
  | none => throwErr e ("Instance has no method '" ++ method ++ "'")
  | some m => do
    match h.classes.methodDenied s.store (← accessFrom e object) m method with
    | some msg => throwErr e msg
    | none => evalInstanceScriptMethod h R i m args e

def callStaticMethod (c : ClassId) (object : Node D) (method : Name)
    (args : List (Value D)) (e : EnvId) : Eval D Θ (Value D) := do
  let s ← get
  match h.classes.lookupMethodTyped s.store c method true args with
  | none => throwErr e ("Class has no static method '" ++ method ++ "'")
  | some m => do
    match h.classes.methodDenied s.store (← accessFrom e object) m method with
    | some msg => throwErr e msg
    | none => evalScriptFunction h R m args e e

def receiverName : Node D → Option Name
  | .varRef name => some name
  | _ => none

def dispatchMethod (obj : Value D) (object : Node D) (method : Name) (args : List (Value D))
    (e : EnvId) : Eval D Θ (Value D) :=
  match obj with
  | .list _ | .set _ | .map _ | .object _ | .bytes _ | .uuid _ | .datetime _ | .date _ _ _
  | .time _ _ _ _ | .duration _ | .decimal _ | .offsetDatetime _ _ | .typedArray _ _
  | .string _ | .vector _ => runNative R e (h.method obj method args (receiverName object))
  | .instanceVal i => callInstanceMethod h R i object method args e
  | .boundMethod i m => evalInstanceScriptMethod h R i m args e
  | .classVal c => callStaticMethod h R c object method args e
  | obj =>
    match object with
    | .varRef name => callInternal h R (name ++ "." ++ method) args e
    | _ => throwErr e ("Method call '" ++ method ++ "' is invalid for " ++ typeName obj)

/-- The native a member call names, if its receiver is no variable. -/
def qualifiedNative (object : Node D) (method : Name) (e : EnvId) : Eval D Θ (Option Name) :=
  match qualifiedName object method with
  | some (root, name) => do
    let bound ← envHas e root
    let f ← findFunc e name
    return if !bound ∧ f.isSome then some name else none
  | none => return none

/-- Arguments first, then the receiver, unless the receiver is a namespace of natives. -/
def evalMemberCall (object : Node D) (method : Name) (args : List (Node D)) (e : EnvId) :
    Eval D Θ (Value D) := do
  let vs ← unchecked (expandArgs h R e args)
  match ← qualifiedNative object method e with
  | some name => callInternal h R name vs e
  | none => do
    let obj ← unchecked (R.eval object e)
    dispatchMethod h R obj object method vs e

/-! Members. -/

def instanceMember (i : InstanceId) (object : Node D) (member : Name) (e : EnvId) : Eval D Θ (Value D) := do
  let s ← get
  let access ← accessFrom e object
  match h.classes.getField s.store i member with
  | some v =>
    match h.classes.fieldDenied s.store access (h.classes.classOf s.store i) false member with
    | some msg => throwErr e msg
    | none => return v
  | none =>
    match h.classes.lookupMethod s.store (h.classes.classOf s.store i) member false with
    | some m =>
      match h.classes.methodDenied s.store access m member with
      | some msg => throwErr e msg
      | none => return .boundMethod i m
    | none => throwErr e ("Instance has no field or method '" ++ member ++ "'")

def staticMember (c : ClassId) (object : Node D) (member missing : String) (e : EnvId) :
    Eval D Θ (Value D) := do
  let s ← get
  let access ← accessFrom e object
  match h.classes.getStaticField s.store c member with
  | some v =>
    match h.classes.fieldDenied s.store access c true member with
    | some msg => throwErr e msg
    | none => return v
  | none =>
    match h.classes.lookupMethod s.store c member true with
    | some m =>
      match h.classes.methodDenied s.store access m member with
      | some msg => throwErr e msg
      | none => return .function m
    | none => throwErr e (missing ++ " has no static field or method '" ++ member ++ "'")

def memberValue (obj : Value D) (object : Node D) (member : Name) (e : EnvId) : Eval D Θ (Value D) :=
  match obj with
  | .instanceVal i => instanceMember h i object member e
  | .classVal c => staticMember h c object member "Class" e
  | .map es | .object es => return mapGet es member
  | obj =>
    match h.property obj member with
    | some v => return v
    | none => throwErr e ("Member access '" ++ member ++ "' is invalid for " ++ typeName obj)

def evalMemberAccess (object : Node D) (member : Name) (e : EnvId) : Eval D Θ (Value D) := do
  let obj ← unchecked (R.eval object e)
  memberValue h obj object member e

/-- A checked write to a field; `access` names the class the access check starts from. -/
def writeField (i : InstanceId) (owner : ClassId) (object : Node D) (member : Name)
    (v : Value D) (e : EnvId) : Eval D Θ (Value D) := do
  let s ← get
  match h.classes.fieldDenied s.store (← accessFrom e object) owner false member with
  | some msg => throwErr e msg
  | none =>
    match h.classes.setField s.store i member v with
    | .error msg => throwErr e msg
    | .ok store => do
      emit (.effect .memberWrite)
      modify fun s => { s with store := store }
      return v

def writeStaticField (c : ClassId) (member : Name) (v : Value D) (e : EnvId) : Eval D Θ (Value D) := do
  match h.classes.setStaticField (← get).store c member v with
  | .error msg => throwErr e msg
  | .ok store => do
    emit (.effect .memberWrite)
    modify fun s => { s with store := store }
    return v

def writeEntry (name member : Name) (rebuild : List (Name × Value D) → Value D)
    (es : List (Name × Value D)) (v : Value D) (e : EnvId) : Eval D Θ (Value D) := do
  emit (.effect .memberWrite)
  envSet e name (rebuild (mapSet es member v))
  return v

def staticDenied (c : ClassId) (object : Node D) (member : Name) (e : EnvId) :
    Eval D Θ (Option String) := do
  let s ← get
  return h.classes.fieldDenied s.store (← accessFrom e object) c true member

def memberSetError (member : Name) : String :=
  "Member assignment '" ++ member ++ "' requires a map, instance, or class"

def thisError : String := "this is only valid inside instance methods or constructors"

/-- `this`, in a static method or outside a method an error. -/
def evalThis (e : EnvId) : Eval D Θ (Value D) := do
  if (← getEnv e).currentMethodIsStatic then throwErr e thisError
  else do
    match ← envGet e "this" with
    | .instanceVal i => return .instanceVal i
    | _ => throwErr e thisError

def setVariableMember (name member : Name) (v : Value D) (e : EnvId) : Eval D Θ (Value D) := do
  match ← envGet e name with
  | .map es => writeEntry name member .map es v e
  | .object es => writeEntry name member .object es v e
  | .instanceVal i => do
    let c := h.classes.classOf (← get).store i
    writeField h i c (.varRef name) member v e
  | .classVal c => do
    match ← staticDenied h c (.varRef name) member e with
    | some msg => throwErr e msg
    | none => writeStaticField h c member v e
  | _ => throwErr e (memberSetError member)

def setThisMember (member : Name) (v : Value D) (e : EnvId) : Eval D Θ (Value D) := do
  let this ← R.eval .thisExpr e
  if !(← flowNormal e) then return zero
  else
    match this with
    | .instanceVal i => do
      let c := h.classes.classOf (← get).store i
      writeField h i c .thisExpr member v e
    | _ => throwErr e thisError

/-- `super.m = value`: the access check precedes the value in a static method and follows
    it in an instance method. -/
def setSuperMember (object : Node D) (member : Name) (value : Node D) (e : EnvId) : Eval D Θ (Value D) := do
  match ← currentClass e with
  | none => throwErr e "super is only valid inside class methods"
  | some owner => do
    let s ← get
    match h.classes.prototype s.store owner with
    | none => throwErr e ("Class '" ++ h.classes.className s.store owner ++ "' has no parent class")
    | some parent => do
      if (← getEnv e).currentMethodIsStatic then do
        match ← staticDenied h parent object member e with
        | some msg => throwErr e msg
        | none => do
          let v ← R.eval value e
          if !(← flowNormal e) then return zero
          else writeStaticField h parent member v e
      else do
        match ← envGet e "this" with
        | .instanceVal i => do
          let v ← R.eval value e
          if !(← flowNormal e) then return zero
          else writeField h i parent object member v e
        | _ => throwErr e "super is only valid inside instance methods or constructors"

def evalMemberSet (object : Node D) (member : Name) (value : Node D) (e : EnvId) : Eval D Θ (Value D) :=
  match object with
  | .superExpr (some _) _ false => setSuperMember h R object member value e
  | .superExpr _ _ _ =>
    throwErr e "super field assignment is only valid inside class methods"
  | .varRef name => do
    let v ← R.eval value e
    if !(← flowNormal e) then return zero
    else setVariableMember h name member v e
  | .thisExpr => do
    let v ← R.eval value e
    if !(← flowNormal e) then return zero
    else setThisMember h R member v e
  | _ => throwErr e ("Member assignment '" ++ member ++
      "' requires a variable receiver, this, or static super")

/-! `super`, in both evaluators. `args` evaluates the arguments and is `none` when the
    caller gives up there. -/

def superStatic (args : Eval D Θ (Option (List (Value D)))) (node : Node D) (c : ClassId)
    (member : Option Name) (isCall : Bool) (e : EnvId) : Eval D Θ (Option (Value D)) := do
  let s ← get
  match h.classes.prototype s.store c, member with
  | none, _ =>
    some <$> throwErr e ("Class '" ++ h.classes.className s.store c ++ "' has no parent class")
  | some _, none => some <$> throwErr e "super() is only valid inside instance constructors"
  | some parent, some m => do
    if isCall then do
      match ← args with
      | none => return none
      | some vs => do
        let s ← get
        match h.classes.lookupMethodTyped s.store parent m true vs with
        | none => some <$> throwErr e ("Parent class has no static method '" ++ m ++ "'")
        | some f => do
          match h.classes.methodDenied s.store (← accessFrom e node) f m with
          | some msg => some <$> throwErr e msg
          | none => some <$> evalScriptFunction h R f vs e e
    else some <$> staticMember h parent node m "Parent class" e

def superConstructor (args : Eval D Θ (Option (List (Value D)))) (parent : ClassId) (e : EnvId) :
    Eval D Θ (Option (Value D)) := do
  if !(← getEnv e).currentMethodIsConstructor then
    some <$> throwErr e "super() is only valid inside instance constructors"
  else do
    match ← args with
    | none => return none
    | some vs => do
      match h.classes.findConstructor (← get).store parent vs with
      | none => return some zero
      | some ctor => some <$> evalScriptFunction h R ctor vs e e

def superMethod (args : Eval D Θ (Option (List (Value D)))) (node : Node D) (parent : ClassId)
    (m : Name) (e : EnvId) : Eval D Θ (Option (Value D)) := do
  match ← args with
  | none => return none
  | some vs => do
    let s ← get
    match h.classes.lookupMethodTyped s.store parent m false vs with
    | none => some <$> throwErr e ("Parent class has no method '" ++ m ++ "'")
    | some f => do
      match h.classes.methodDenied s.store (← accessFrom e node) f m with
      | some msg => some <$> throwErr e msg
      | none => some <$> evalScriptFunction h R f vs e e

def superMember (node : Node D) (i : InstanceId) (parent : ClassId) (m : Name) (e : EnvId) :
    Eval D Θ (Value D) := do
  let s ← get
  let access ← accessFrom e node
  match h.classes.lookupMethod s.store parent m false with
  | some f =>
    match h.classes.methodDenied s.store access f m with
    | some msg => throwErr e msg
    | none => return .boundMethod i f
  | none =>
    match h.classes.getField s.store i m with
    | some v =>
      match h.classes.fieldDenied s.store access parent false m with
      | some msg => throwErr e msg
      | none => return v
    | none => throwErr e ("Parent class has no method or instance field '" ++ m ++ "'")

def superInstance (args : Eval D Θ (Option (List (Value D)))) (node : Node D)
    (owner : Option ClassId) (member : Option Name) (isCall : Bool) (e : EnvId) :
    Eval D Θ (Option (Value D)) := do
  match ← envGet e "this" with
  | .instanceVal i => do
    let s ← get
    let c := owner.getD (h.classes.classOf s.store i)
    match h.classes.prototype s.store c, member with
    | none, _ =>
      some <$> throwErr e ("Class '" ++ h.classes.className s.store c ++ "' has no parent class")
    | some parent, none => superConstructor h R args parent e
    | some parent, some m =>
      if isCall then superMethod h R args node parent m e
      else some <$> superMember h node i parent m e
  | _ => some <$> throwErr e "super is only valid inside instance methods or constructors"

def superValue (args : Eval D Θ (Option (List (Value D)))) (node : Node D)
    (member : Option Name) (isCall : Bool) (e : EnvId) : Eval D Θ (Option (Value D)) := do
  let owner ← currentClass e
  if (← getEnv e).currentMethodIsStatic then
    match owner with
    | none => some <$> throwErr e "super is only valid inside class methods"
    | some c => superStatic h R args node c member isCall e
  else superInstance h R args node owner member isCall e

def evalSuper (member : Option Name) (args : List (Node D)) (isCall : Bool) (e : EnvId) :
    Eval D Θ (Value D) := do
  let evalArgs := do
    let vs ← expandArgs h R e args
    if ← running e then return some vs else return none
  return (← superValue h R evalArgs (.superExpr member args isCall) member isCall e).getD zero

/-- The right-hand side of `instanceof`: an expression or a name. -/
def instanceOfClass (className : Name) (classExpr : Option (Node D)) (e : EnvId) : Eval D Θ (Value D) :=
  match classExpr with
  | some node => R.eval node e
  | none => envGet e className

/-- `obj instanceof C`. -/
def evalInstanceOf (object : Node D) (className : Name) (classExpr : Option (Node D))
    (e : EnvId) : Eval D Θ (Value D) := do
  let obj ← R.eval object e
  if !(← flowNormal e) then return zero
  else
    match obj with
    | .instanceVal i => do
      let c ← instanceOfClass R className classExpr e
      if !(← flowNormal e) then return zero
      else
        match c with
        | .classVal c => do return ofBool (h.classes.instanceOf (← get).store i c)
        | _ => return ofBool false
    | _ => return ofBool false

/-! Class definitions. -/

def commitClasses (result : Except String Θ) (e : EnvId) : Eval D Θ Bool :=
  match result with
  | .ok store => do
    modify fun s => { s with store := store }
    return true
  | .error msg => do
    let _ ← throwErr e msg
    return false

def fieldInitial (initializer : Option (Node D)) (e : EnvId) : Eval D Θ (Value D) :=
  match initializer with
  | some node => envEvalNode h R node e
  | none => return .null

def declareMember (c : ClassId) (closure e : EnvId) (member : Node D) : Eval D Θ Bool :=
  match member with
  | .fieldDecl _ _ initializer _ _ => do
    let v ← fieldInitial h R initializer e
    if !(← running e) then return false
    else do commitClasses (h.classes.declareField (← get).store c member v) e
  | _ => do commitClasses (h.classes.addMethod (← get).store c member closure) e

/-- The fields and methods in order; a field's initial value is evaluated on the way. -/
def declareMembers (c : ClassId) (closure e : EnvId) : List (Node D) → Eval D Θ Bool
  | [] => return true
  | member :: members => do
    if ← declareMember h R c closure e member then declareMembers c closure e members
    else return false

def addInterfaces (c : ClassId) (e : EnvId) : List Name → Eval D Θ Bool
  | [] => return true
  | name :: names => do
    match ← envGet e name with
    | .classVal i => do
      if h.classes.isInterface (← get).store i then do
        modify fun s => { s with store := h.classes.addInterface s.store c i }
        addInterfaces c e names
      else do
        let _ ← throwErr e ("Class '" ++ name ++ "' is not an interface")
        return false
    | _ => do
      let _ ← throwErr e ("Undefined interface '" ++ name ++ "'")
      return false

/-- The class of a parent name; `none` when the definition fails there. -/
def parentClass (parent : Option Name) (e : EnvId) : Eval D Θ (Option (Option ClassId)) := do
  match parent with
  | none => return some none
  | some name => do
    match ← envGet e name with
    | .classVal p => return some (some p)
    | _ => do
      let _ ← throwErr e ("Undefined parent class '" ++ name ++ "'")
      return none

def finalParent (parent : Option ClassId) : Eval D Θ (Option Name) := do
  let s ← get
  match parent with
  | some p => return if h.classes.isFinal s.store p then some (h.classes.className s.store p) else none
  | none => return none

def completeClass (c : ClassId) (closure : EnvId) (name : Name) (interfaces : List Name)
    (members : List (Node D)) (e : EnvId) : Eval D Θ (Value D) := do
  if !(← declareMembers h R c closure e members) then return zero
  else if !(← addInterfaces h c e interfaces) then return zero
  else do
    match h.classes.finish (← get).store c with
    | .error msg => throwErr e msg
    | .ok store => do
      modify fun s => { s with store := store }
      envSetLocal e name (.classVal c)
      return zero

/-- `eval_class_def_node`. The class is created and the scope captured before a final
    parent is refused. -/
def evalClassDef (node : Node D) (name : Name) (parent : Option Name) (interfaces : List Name)
    (members : List (Node D)) (e : EnvId) : Eval D Θ (Value D) := do
  match ← parentClass parent e with
  | none => return zero
  | some p => do
    let closure ← snapshot e none
    let (c, store) := h.classes.create (← get).store node closure p
    modify fun s => { s with store := store }
    match ← finalParent h p with
    | some parentName => throwErr e ("Cannot extend final class '" ++ parentName ++ "'")
    | none => completeClass h R c closure name interfaces members e

end Expressions

end TurboScript.Exprtk
