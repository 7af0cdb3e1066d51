import TurboScript.Exprtk.Eval

/- Inlining of instance methods (`turbo_script_mir_oop.c`).

   A call `obj.m(args)` whose receiver was last assigned from `new C(..)` is replaced by the
   body of `C.m` when the body passes a pattern walk. Parameters become the registers of the
   arguments, `this.f` is the field of whatever `obj` is bound to at run time, and all values
   are doubles.

   1. The walk (`findInlineable`). It asks nothing of the operand of a unary operator: one it
      would have refused is emitted as 0, or with an addition in place of its operator.
   2. The emitted code (`inlineCall`). A failed field access reports an error and goes on
      with 0.
   3. Dynamic dispatch on the same call (`dispatch`), over an arbitrary `host`.
   4. `FaithfulSite`: number arguments, the inlined method selected, and operations that
      doubles do the same way. -/
namespace TurboScript.Mir.Inline
open Exprtk (Node Value Name BinOp AccessLevel Double Formats valToDouble isNumeric
  evalBinary ofBool)
open Exprtk.Double Exprtk

/-! Classes. -/

structure FieldDecl where
  name : Name
  declaredType : Option Name
  isStatic : Bool
  access : AccessLevel
  deriving DecidableEq, Repr

structure Method (D : Type) where
  name : Name
  params : List (Node D)
  body : Node D
  isStatic : Bool
  isAbstract : Bool
  access : AccessLevel

/-- A class definition. `constants` are the constants of the scope that the class captured:
a call imports them into its frame before it binds the parameters. -/
structure Class (D : Type) where
  name : Name
  parent : Option Name
  interfaceCount : Nat
  isAbstract : Bool
  isInterface : Bool
  fields : List FieldDecl
  methods : List (Method D)
  constants : List (Name × Value D)

/-- The class definitions at the top level of the script, and the names assigned there. -/
structure Program (D : Type) where
  classes : List (Class D)
  assigned : List Name

section Walk
variable {D : Type}

/-- `ts_find_top_level_class_def`. -/
def findClass (P : Program D) (cls : Name) : Option (Class D) :=
  P.classes.find? fun c => c.name == cls

/-- `ts_direct_parent_class_name`. -/
def directParent (P : Program D) (cls : Name) : Option Name :=
  match findClass P cls with
  | none => none
  | some c => c.parent.filter fun p => !P.assigned.contains p

/-- `ts_inline_param_index`: the first parameter of that name. -/
def paramIndex (params : List (Node D)) (x : Name) : Option Nat :=
  params.findIdx? fun p =>
    match p with
    | .varRef y => y == x
    | _ => false

/-- The operators with a case in `ts_emit_oop_inline_binary`. -/
def inlineOp : BinOp → Bool
  | .plus | .minus | .multiply | .divide | .lt | .gt | .le | .ge | .eq | .ne => true
  | _ => false

mutual
/-- `ts_oop_inline_expr_supported`; `parentHas` is whether the parent has an inlineable method.
With no left operand only the operator is looked at. -/
def exprSupported (parentHas : Name → Nat → Bool) (params : List (Node D)) : Node D → Bool
  | .number _ | .integer _ | .null => true
  | .varRef x => (paramIndex params x).isSome
  | .memberAccess .thisExpr _ => true
  | .superExpr (some m) args true => exprsSupported parentHas params args && parentHas m args.length
  | .binary op none _ => op == .plus || op == .minus
  | .binary op (some l) r =>
    inlineOp op && exprSupported parentHas params l && exprSupported parentHas params r
  | _ => false

def exprsSupported (parentHas : Name → Nat → Bool) (params : List (Node D)) : List (Node D) → Bool
  | [] => true
  | e :: es => exprSupported parentHas params e && exprsSupported parentHas params es
end

mutual
/-- `ts_oop_inline_stmt_supported`. -/
def stmtSupported (parentHas : Name → Nat → Bool) (params : List (Node D)) : Node D → Bool
  | .block ss => stmtsSupported parentHas params ss
  | .flowReturn none => true
  | .flowReturn (some e) => exprSupported parentHas params e
  | .memberSet .thisExpr _ v => exprSupported parentHas params v
  | e => exprSupported parentHas params e

def stmtsSupported (parentHas : Name → Nat → Bool) (params : List (Node D)) : List (Node D) → Bool
  | [] => true
  | s :: ss => stmtSupported parentHas params s && stmtsSupported parentHas params ss
end

/-- The methods that match name and number of arguments; two of them are one too many. -/
def candidates (c : Class D) (m : Name) (argc : Nat) : List (Method D) :=
  c.methods.filter fun f => f.name == m && !f.isStatic && !f.isAbstract &&
    f.access == .publicAccess && f.params.length == argc

def isVariable : Node D → Bool
  | .varRef _ => true
  | _ => false

/-- `ts_find_inlineable_instance_method`. The number bounds how many parents the walk goes up. -/
def findInlineable (P : Program D) : Nat → Name → Name → Nat → Option (Method D)
  | 0, _, _, _ => none
  | n + 1, cls, m, argc =>
    match findClass P cls with
    | none => none
    | some c =>
      if m.startsWith "_" || P.assigned.contains cls || 0 < c.interfaceCount || c.isAbstract ||
          c.isInterface || c.fields.any fun f => f.access != .publicAccess then none
      else
        match candidates c m argc with
        | [f] =>
          let parentHas := fun m' argc' =>
            match directParent P cls with
            | none => false
            | some p => (findInlineable P n p m' argc').isSome
          if f.params.all isVariable && stmtSupported parentHas f.params f.body then some f
          else none
        | _ => none

end Walk

/-! The emitted code. -/

abbrev Fields (D : Type) := Name → Option (Value D)

structure St (D : Type) where
  fields : Fields D
  error : Option String

/-- The declaration of an instance field, and how many classes of the chain remain there. -/
def fieldDecl {D : Type} : List (Class D) → Name → Option (Nat × FieldDecl)
  | [], _ => none
  | c :: rest, f =>
    match c.fields.find? fun d => d.name == f && !d.isStatic with
    | some d => some (rest.length + 1, d)
    | none => fieldDecl rest f

/-- `exprtk_class_get_instance_field_access`: an undeclared field is public. -/
def fieldAccess {D : Type} (chain : List (Class D)) (f : Name) : AccessLevel :=
  ((fieldDecl chain f).map fun p => p.2.access).getD .publicAccess

def isDoubleField {D : Type} (chain : List (Class D)) (f : Name) : Bool :=
  match fieldDecl chain f with
  | some (_, d) => d.declaredType == some "number" || d.declaredType == some "float" ||
      d.declaredType == some "double"
  | none => false

/-- What is fixed for one call: the classes of the object that the variable is bound to, its
own first; which fields lowering decided to access by slot; the check of a field's declared
type; the overload that one class's method table has for the arguments; and the evaluation of
the nodes the walk does not admit. -/
structure Site (D : Type) where
  chain : List (Class D)
  slot : Name → Bool
  admits : Name → Value D → Bool
  lookup : Class D → Name → List (Value D) → Option (Method D)
  host : Node D → Fields D → Except String (Value D × Fields D)

section Emitted
variable {D : Type} [Double D] (S : Site D)

def setField (F : Fields D) (f : Name) (v : Value D) : Fields D := fun g => if g = f then some v else F g

/-- The check that a store makes of the field's declared type. -/
def admitted (f : Name) (v : Value D) : Bool :=
  match fieldDecl S.chain f with
  | some (_, d) => (d.declaredType.map fun t => S.admits t v).getD true
  | none => true

def St.fail (s : St D) (msg : String) : St D := { s with error := some (s.error.getD msg) }

/-- `ts_emit_oop_member_get`: the double in the slot, or `ts_mir_oop_member_get`. The access
check is made in the caller's environment, where no class is current. -/
def memberGet (f : Name) (s : St D) : D × St D :=
  match s.fields f with
  | none => (ofInt 0, s.fail "no such field")
  | some v =>
    if fieldAccess S.chain f ≠ .publicAccess then (ofInt 0, s.fail "field is not accessible")
    else if S.slot f then
      match v with
      | .number d => if isDoubleField S.chain f then (d, s) else (ofInt 0, s.fail "not a number field")
      | _ => (ofInt 0, s.fail "field violates its canonical number storage")
    else (valToDouble v, s)

/-- `ts_emit_oop_member_set_reg`. -/
def memberSet (f : Name) (d : D) (s : St D) : D × St D :=
  if fieldAccess S.chain f ≠ .publicAccess then (ofInt 0, s.fail "field is not accessible")
  else if S.slot f then
    match s.fields f with
    | none | some (.number _) =>
      if isDoubleField S.chain f then (d, { s with fields := setField s.fields f (.number d) })
      else (ofInt 0, s.fail "not a number field")
    | some _ => (ofInt 0, s.fail "field violates its canonical number storage")
  else if admitted S f (.number d) then
    (d, { s with fields := setField s.fields f (.number d) })
  else (ofInt 0, s.fail "field has another type")

/-- The instruction of an operator; one without a case is emitted as an addition. -/
def inlineBinary (op : BinOp) (l r : D) : D :=
  match op with
  | .minus => sub l r
  | .multiply => mul l r
  | .divide => div l r
  | .lt => ofInt (if lt l r then 1 else 0)
  | .gt => ofInt (if lt r l then 1 else 0)
  | .le => ofInt (if le l r then 1 else 0)
  | .ge => ofInt (if le r l then 1 else 0)
  | .eq => ofInt (if eq l r then 1 else 0)
  | .ne => ofInt (if eq l r then 0 else 1)
  | _ => add l r

mutual
/-- `ts_emit_oop_inline_method_expr`; `sup` is the inlined method of the parent. -/
def inlineExpr (sup : Name → List D → St D → D × St D) (params : List (Node D)) (regs : List D) :
    Node D → St D → D × St D
  | .number x, s => (x, s)
  | .integer i, s => (ofInt i, s)
  | .varRef x, s =>
    match paramIndex params x with
    | some i => (regs.getD i (ofInt 0), s)
    | none => (ofInt 0, s)
  | .memberAccess _ f, s => memberGet S f s
  | .binary op none r, s =>
    let (d, s₁) := inlineExpr sup params regs r s
    if op = .plus then (d, s₁) else (sub (ofInt 0) d, s₁)
  | .binary op (some l) r, s =>
    let (a, s₁) := inlineExpr sup params regs l s
    let (b, s₂) := inlineExpr sup params regs r s₁
    (inlineBinary op a b, s₂)
  | .superExpr (some m) args true, s =>
    if 16 < args.length then (ofInt 0, s)
    else
      let (ds, s₁) := inlineArgs sup params regs args s
      sup m ds s₁
  | _, s => (ofInt 0, s)

def inlineArgs (sup : Name → List D → St D → D × St D) (params : List (Node D)) (regs : List D) :
    List (Node D) → St D → List D × St D
  | [], s => ([], s)
  | e :: es, s =>
    let (d, s₁) := inlineExpr sup params regs e s
    let (ds, s₂) := inlineArgs sup params regs es s₁
    (d :: ds, s₂)
end

mutual
/-- `ts_emit_oop_inline_method_stmt`, with whether a `return` was emitted. -/
def inlineStmt (sup : Name → List D → St D → D × St D) (params : List (Node D)) (regs : List D) :
    Node D → St D → D × Bool × St D
  | .block ss, s => inlineStmts sup params regs (ofInt 0) ss s
  | .flowReturn none, s => (ofInt 0, true, s)
  | .flowReturn (some e), s =>
    let (d, s₁) := inlineExpr S sup params regs e s
    (d, true, s₁)
  | .memberSet _ f v, s =>
    let (d, s₁) := inlineExpr S sup params regs v s
    let (r, s₂) := memberSet S f d s₁
    (r, false, s₂)
  | e, s =>
    let (d, s₁) := inlineExpr S sup params regs e s
    (d, false, s₁)

def inlineStmts (sup : Name → List D → St D → D × St D) (params : List (Node D)) (regs : List D)
    (last : D) : List (Node D) → St D → D × Bool × St D
  | [], s => (last, false, s)
  | t :: ts, s =>
    let (d, returned, s₁) := inlineStmt sup params regs t s
    if returned then (d, true, s₁) else inlineStmts sup params regs d ts s₁
end

/-- The inlined body of a method of the class, with the methods of its parents inlined in it. -/
def inlineCall (P : Program D) : Nat → Name → Method D → List D → St D → D × St D
  | 0, _, _, _, s => (ofInt 0, s)
  | n + 1, cls, f, regs, s =>
    let sup := fun m ds s' =>
      match directParent P cls with
      | none => (ofInt 0, s')
      | some p =>
        match findInlineable P n p m ds.length with
        | none => (ofInt 0, s')
        | some g => inlineCall P n p g ds s'
    let (d, _, s₁) := inlineStmt S sup f.params regs f.body s
    (d, s₁)

end Emitted

/-! Dynamic dispatch. -/

/-- `can_access_declared_member`: `own` and `cur` are how many classes of the chain remain at
the owner and at the current class. -/
def mayAccess (access : AccessLevel) (own : Nat) (cur : Option Nat) : Bool :=
  match access, cur with
  | .publicAccess, _ => true
  | _, none => false
  | .protectedAccess, some c => own ≤ c
  | .privateAccess, some c => own == c

section Dynamic
variable {D : Type} [Double D] [Formats] (S : Site D)

def mayAccessField (cur : Nat) (f : Name) : Bool :=
  match fieldDecl S.chain f with
  | some (own, d) => mayAccess d.access own (some cur)
  | none => true

/-- The frame of a call: the constants of the captured scope, then the parameters, which
cannot replace a constant. -/
def frame (constants : List (Name × Value D)) (params : List (Node D)) (args : List (Value D))
    (x : Name) : Option (Value D) :=
  match constants.lookup x with
  | some v => some v
  | none =>
    ((params.zip args).reverse.find? fun p =>
      match p.1 with
      | .varRef y => y == x
      | _ => false).map Prod.snd

mutual
/-- `exprtk_eval` in the body of a method; `sup` is the call of a method of the parent. -/
def evalExpr (cur : Nat) (sup : Name → List (Value D) → Fields D → Except String (Value D × Fields D))
    (env : Name → Option (Value D)) : Node D → Fields D → Except String (Value D × Fields D)
  | .number x, F => .ok (.number x, F)
  | .integer i, F => .ok (.integer i, F)
  | .null, F => .ok (.null, F)
  | .varRef x, F =>
    match env x with
    | some v => .ok (v, F)
    | none => S.host (.varRef x) F
  | .memberAccess .thisExpr f, F =>
    match F f with
    | some v =>
      if mayAccessField S cur f then .ok (v, F)
      else .error ("Field '" ++ f ++ "' is not accessible")
    | none => S.host (.memberAccess .thisExpr f) F
  | .binary op none r, F => do
    let (b, F₁) ← evalExpr cur sup env r F
    let v ← evalBinary op zero b
    return (v, F₁)
  | .binary op (some l) r, F => do
    let (a, F₁) ← evalExpr cur sup env l F
    let (b, F₂) ← evalExpr cur sup env r F₁
    let v ← evalBinary op a b
    return (v, F₂)
  | .superExpr (some m) args true, F => do
    let (vs, F₁) ← evalArgs cur sup env args F
    sup m vs F₁
  | e, F => S.host e F

def evalArgs (cur : Nat) (sup : Name → List (Value D) → Fields D → Except String (Value D × Fields D))
    (env : Name → Option (Value D)) :
    List (Node D) → Fields D → Except String (List (Value D) × Fields D)
  | [], F => .ok ([], F)
  | e :: es, F => do
    let (v, F₁) ← evalExpr cur sup env e F
    let (vs, F₂) ← evalArgs cur sup env es F₁
    return (v :: vs, F₂)
end

mutual
def evalStmt (cur : Nat) (sup : Name → List (Value D) → Fields D → Except String (Value D × Fields D))
    (env : Name → Option (Value D)) : Node D → Fields D → Except String (Value D × Bool × Fields D)
  | .block ss, F => evalStmts cur sup env zero ss F
  | .flowReturn none, F => .ok (zero, true, F)
  | .flowReturn (some e), F => do
    let (v, F₁) ← evalExpr S cur sup env e F
    return (v, true, F₁)
  | .memberSet .thisExpr f e, F => do
    let (v, F₁) ← evalExpr S cur sup env e F
    if !mayAccessField S cur f then .error ("Field '" ++ f ++ "' is not accessible")
    else if !admitted S f v then .error ("field '" ++ f ++ "' expects another type")
    else return (v, false, setField F₁ f v)
  | e, F => do
    let (v, F₁) ← evalExpr S cur sup env e F
    return (v, false, F₁)

def evalStmts (cur : Nat) (sup : Name → List (Value D) → Fields D → Except String (Value D × Fields D))
    (env : Name → Option (Value D)) (last : Value D) :
    List (Node D) → Fields D → Except String (Value D × Bool × Fields D)
  | [], F => .ok (last, false, F)
  | t :: ts, F => do
    let (v, returned, F₁) ← evalStmt cur sup env t F
    if returned then return (v, true, F₁) else evalStmts cur sup env v ts F₁
end

/-- `eval_member_call` on an instance and, below it, `super.m(..)`: the first class of the chain
whose table has the method, with the classes behind it as its parents. -/
def dispatch : List (Class D) → Option Nat → Name → List (Value D) → Fields D →
    Except String (Value D × Fields D)
  | [], _, m, _, _ => .error ("Instance has no method '" ++ m ++ "'")
  | c :: rest, cur, m, args, F =>
    match S.lookup c m args with
    | none => dispatch rest cur m args F
    | some f =>
      if mayAccess f.access (rest.length + 1) cur then do
        let own := rest.length + 1
        let (v, _, F₁) ← evalStmt S own (dispatch rest (some own)) (frame c.constants f.params args)
          f.body F
        return (v, F₁)
      else .error ("Method '" ++ m ++ "' is not accessible")

end Dynamic

/-! When both agree. -/

section Faithful
variable {D : Type} [Double D] [Formats] (S : Site D)

/-- The double instruction gives what the operator gives: a division checks its divisor, and
equality has a tolerance. -/
def DoubleAgrees (op : BinOp) (x y : D) : Prop :=
  match op with
  | .divide => lt (fabs y) tiny = false
  | .eq => lt (fabs (sub x y)) eps = eq x y
  | .ne => le eps (fabs (sub x y)) = !eq x y
  | _ => True

def IntegerAgrees (D : Type) [Double D] (op : BinOp) (i j : Int) : Prop :=
  let x : D := ofInt i
  let y : D := ofInt j
  match op with
  | .plus => ofInt (wrap64 (i + j)) = add x y
  | .minus => ofInt (wrap64 (i - j)) = sub x y
  | .multiply => ofInt (wrap64 (i * j)) = mul x y
  | .divide => j ≠ 0 ∧ (i.tmod j = 0 → ofInt (wrap64 (i.tdiv j)) = div x y)
  | .lt => decide (i < j) = lt x y
  | .gt => decide (j < i) = lt y x
  | .le => decide (i ≤ j) = le x y
  | .ge => decide (j ≤ i) = le y x
  | .eq | .ne => (i == j) = eq x y
  | _ => True

def BinaryAgrees (op : BinOp) (a b : Value D) : Prop :=
  match a, b with
  | .integer i, .integer j => IntegerAgrees D op i j
  | a, b => DoubleAgrees op (valToDouble a) (valToDouble b)

mutual
/-- The expression is one the walk admits, down to the operands of unary operators; its
parameters are bound to their arguments; the fields it reads are public and hold numbers; and
its operators agree on the values they are applied to. -/
def FaithfulExpr (cur : Nat) (sup : Name → List (Value D) → Fields D → Except String (Value D × Fields D))
    (supFaithful : Name → List (Value D) → Fields D → Prop) (env : Name → Option (Value D))
    (params : List (Node D)) (args : List (Value D)) : Node D → Fields D → Prop
  | .number _, _ => True
  | .integer _, _ => True
  | .varRef x, _ => ∃ i v, paramIndex params x = some i ∧ args[i]? = some v ∧ env x = some v ∧
      isNumeric v = true
  | .memberAccess .thisExpr f, F => fieldAccess S.chain f = .publicAccess ∧
      ∃ v, F f = some v ∧ isNumeric v = true ∧
        (S.slot f = true → isDoubleField S.chain f = true ∧ ∃ d, v = .number d)
  | .binary op none r, F => (op = .plus ∨ op = .minus) ∧
      FaithfulExpr cur sup supFaithful env params args r F ∧
      ∀ b F₁, evalExpr S cur sup env r F = .ok (b, F₁) → op = .plus →
        add (ofInt 0) (valToDouble b) = valToDouble b
  | .binary op (some l) r, F => inlineOp op = true ∧
      FaithfulExpr cur sup supFaithful env params args l F ∧
      ∀ a F₁, evalExpr S cur sup env l F = .ok (a, F₁) →
        FaithfulExpr cur sup supFaithful env params args r F₁ ∧
          ∀ b F₂, evalExpr S cur sup env r F₁ = .ok (b, F₂) → BinaryAgrees op a b
  | .superExpr (some m) es true, F => es.length ≤ 16 ∧
      FaithfulArgs cur sup supFaithful env params args es F ∧
      ∀ vs F₁, evalArgs S cur sup env es F = .ok (vs, F₁) → supFaithful m vs F₁
  | _, _ => False

def FaithfulArgs (cur : Nat) (sup : Name → List (Value D) → Fields D → Except String (Value D × Fields D))
    (supFaithful : Name → List (Value D) → Fields D → Prop) (env : Name → Option (Value D))
    (params : List (Node D)) (args : List (Value D)) : List (Node D) → Fields D → Prop
  | [], _ => True
  | e :: es, F => FaithfulExpr cur sup supFaithful env params args e F ∧
      ∀ v F₁, evalExpr S cur sup env e F = .ok (v, F₁) →
        FaithfulArgs cur sup supFaithful env params args es F₁
end

mutual
/-- Every statement up to the first `return` is faithful, and a field that is written is public,
of a type that takes a number, and gets a NUMBER. -/
def FaithfulStmt (cur : Nat) (sup : Name → List (Value D) → Fields D → Except String (Value D × Fields D))
    (supFaithful : Name → List (Value D) → Fields D → Prop) (env : Name → Option (Value D))
    (params : List (Node D)) (args : List (Value D)) : Node D → Fields D → Prop
  | .block ss, F => FaithfulStmts cur sup supFaithful env params args ss F
  | .flowReturn none, _ => True
  | .flowReturn (some e), F => FaithfulExpr S cur sup supFaithful env params args e F
  | .memberSet .thisExpr f e, F => FaithfulExpr S cur sup supFaithful env params args e F ∧
      fieldAccess S.chain f = .publicAccess ∧
      ∀ v F₁, evalExpr S cur sup env e F = .ok (v, F₁) → admitted S f v = true ∧ (∃ d, v = .number d) ∧
          (S.slot f = true → isDoubleField S.chain f = true ∧ (F₁ f = none ∨ ∃ d, F₁ f = some (.number d)))
  | e, F => FaithfulExpr S cur sup supFaithful env params args e F

def FaithfulStmts (cur : Nat) (sup : Name → List (Value D) → Fields D → Except String (Value D × Fields D))
    (supFaithful : Name → List (Value D) → Fields D → Prop) (env : Name → Option (Value D))
    (params : List (Node D)) (args : List (Value D)) : List (Node D) → Fields D → Prop
  | [], _ => True
  | t :: ts, F => FaithfulStmt cur sup supFaithful env params args t F ∧
      ∀ v F₁, evalStmt S cur sup env t F = .ok (v, false, F₁) →
        FaithfulStmts cur sup supFaithful env params args ts F₁
end

/-- The method that the class of the receiver has for the arguments is the one inlined, its
body is faithful, and so is each call of a parent's method in it. -/
def FaithfulCall (P : Program D) : List (Class D) → Nat → Name → Name → List (Value D) → Fields D → Prop
  | [], _, _, _, _, _ => False
  | c :: rest, n, cls, m, args, F =>
    ∃ f, findInlineable P n cls m args.length = some f ∧ S.lookup c m args = some f ∧
      FaithfulStmt S (rest.length + 1) (dispatch S rest (some (rest.length + 1)))
        (fun m' vs F' => ∃ p, directParent P cls = some p ∧ FaithfulCall P rest (n - 1) p m' vs F')
        (frame c.constants f.params args) f.params args f.body F

def Agree (dynamic : Except String (Value D × Fields D)) (code : D × St D) : Prop :=
  ∃ v F, dynamic = .ok (v, F) ∧ isNumeric v = true ∧ code = (valToDouble v, ⟨F, none⟩)

def AgreeArgs (dynamic : Except String (List (Value D) × Fields D)) (code : List D × St D) : Prop :=
  ∃ vs F, dynamic = .ok (vs, F) ∧ (∀ v ∈ vs, isNumeric v = true) ∧ code = (vs.map valToDouble, ⟨F, none⟩)

def AgreeStmt (dynamic : Except String (Value D × Bool × Fields D)) (code : D × Bool × St D) : Prop :=
  ∃ v returned F, dynamic = .ok (v, returned, F) ∧ isNumeric v = true ∧
    code = (valToDouble v, returned, ⟨F, none⟩)

/-! Agreement, from the operators up. -/

variable {S}

theorem evalBinary_mixed {op : BinOp} {a b : Value D} (ha : isNumeric a = true)
    (hb : isNumeric b = true) (hi : ∀ i j, a = .integer i → b ≠ .integer j)
    {r : Except String (Value D)}
    (h : doubleBinary op (valToDouble a) (valToDouble b) = some r) :
    evalBinary op a b = r := by
  have hn : (isNumeric a && isNumeric b) = true := by rw [ha, hb]; rfl
  unfold evalBinary
  split
  · next i j => exact absurd rfl (hi i j rfl)
  · rw [if_pos hn, h]

omit [Formats] in
theorem doubleBinary_inline {op : BinOp} {x y : D} (hop : inlineOp op = true)
    (h : DoubleAgrees op x y) : ∃ v, doubleBinary op x y = some (.ok v) ∧
      isNumeric v = true ∧ valToDouble v = inlineBinary op x y := by
  cases op with
  | divide =>
    refine ⟨.number (div x y), ?_, rfl, rfl⟩
    have h' : lt (fabs y) tiny = false := h
    simp [doubleBinary, h']
  | eq =>
    have h' : lt (fabs (sub x y)) eps = eq x y := h
    exact ⟨ofBool (lt (fabs (sub x y)) eps), rfl, rfl, by simp [ofBool, valToDouble, inlineBinary, h']⟩
  | ne =>
    have h' : le eps (fabs (sub x y)) = !eq x y := h
    refine ⟨ofBool (le eps (fabs (sub x y))), rfl, rfl, ?_⟩
    cases he : eq x y <;> simp [ofBool, valToDouble, inlineBinary, h', he]
  | mod | power | and | or | not => cases hop
  | _ => exact ⟨_, rfl, rfl, rfl⟩

theorem integer_agrees {op : BinOp} {i j : Int} (hop : inlineOp op = true)
    (h : IntegerAgrees D op i j) : ∃ v, evalBinary op (.integer i : Value D) (.integer j) = .ok v ∧
      isNumeric v = true ∧ valToDouble v = inlineBinary op (ofInt i) (ofInt j) := by
  cases op with
  | plus | minus | multiply => exact ⟨_, rfl, rfl, h⟩
  | divide =>
    obtain ⟨hj, hdiv⟩ := h
    by_cases hm : i.tmod j = 0
    · exact ⟨.integer (wrap64 (i.tdiv j)), by simp [evalBinary, integerBinary, hj, hm],
        rfl, hdiv hm⟩
    · exact ⟨.number (div (ofInt i) (ofInt j)), by simp [evalBinary, integerBinary, hj, hm],
        rfl, rfl⟩
  | lt | gt | le | ge | eq =>
    refine ⟨_, rfl, rfl, ?_⟩
    simp only [IntegerAgrees] at h
    simp [intOfBool, valToDouble, inlineBinary, ← h]
  | ne =>
    refine ⟨_, rfl, rfl, ?_⟩
    show ofInt (if (i != j) = true then 1 else 0) =
      ofInt (if eq (ofInt i : D) (ofInt j) = true then 0 else 1)
    rw [← show (i == j) = eq (ofInt i : D) (ofInt j) from h]
    by_cases hij : i = j <;> simp [hij]
  | mod | power | and | or | not => cases hop

theorem binary_agrees {op : BinOp} {a b : Value D} (hop : inlineOp op = true)
    (ha : isNumeric a = true) (hb : isNumeric b = true) (h : BinaryAgrees op a b) :
    ∃ v, evalBinary op a b = .ok v ∧ isNumeric v = true ∧
      valToDouble v = inlineBinary op (valToDouble a) (valToDouble b) := by
  by_cases hi : ∀ i j, a = .integer i → b ≠ .integer j
  · have hd : DoubleAgrees op (valToDouble a) (valToDouble b) := by
      unfold BinaryAgrees at h
      split at h
      · next i j => exact absurd rfl (hi i j rfl)
      · exact h
    obtain ⟨v, hv, hn, he⟩ := doubleBinary_inline hop hd
    exact ⟨v, evalBinary_mixed ha hb hi hv, hn, he⟩
  · push Not at hi
    obtain ⟨i, j, rfl, rfl⟩ := hi
    exact integer_agrees hop h

omit [Double D] [Formats] in
theorem mayAccessField_public {cur : Nat} {f : Name} (h : fieldAccess S.chain f = .publicAccess) :
    mayAccessField S cur f = true := by
  unfold mayAccessField
  unfold fieldAccess at h
  cases hd : fieldDecl S.chain f with
  | none => rfl
  | some p =>
    rw [hd] at h
    show mayAccess p.2.access p.1 (some cur) = true
    rw [show p.2.access = .publicAccess from h]
    rfl

omit [Formats] in
theorem memberGet_agrees {f : Name} {F : Fields D} {v : Value D}
    (hp : fieldAccess S.chain f = .publicAccess) (hv : F f = some v)
    (hs : S.slot f = true → isDoubleField S.chain f = true ∧ ∃ d, v = .number d) :
    memberGet S f ⟨F, none⟩ = (valToDouble v, ⟨F, none⟩) := by
  unfold memberGet
  simp only [hv, hp, ne_eq, not_true_eq_false, if_false]
  by_cases hslot : S.slot f = true
  · obtain ⟨hd, d, rfl⟩ := hs hslot
    rw [if_pos hslot]
    simp [hd, valToDouble]
  · rw [if_neg hslot]

omit [Formats] in
theorem memberSet_agrees {f : Name} {F : Fields D} {d : D}
    (hp : fieldAccess S.chain f = .publicAccess) (ha : admitted S f (.number d) = true)
    (hs : S.slot f = true → isDoubleField S.chain f = true ∧ (F f = none ∨ ∃ x, F f = some (.number x))) :
    memberSet S f d ⟨F, none⟩ = (d, ⟨setField F f (.number d), none⟩) := by
  unfold memberSet
  simp only [hp, ne_eq, not_true_eq_false, if_false]
  by_cases hslot : S.slot f = true
  · obtain ⟨hd, hf⟩ := hs hslot
    rw [if_pos hslot]
    rcases hf with hf | ⟨x, hf⟩ <;> simp [hf, hd]
  · rw [if_neg hslot, if_pos ha]

section Body
variable {cur : Nat} {sup : Name → List (Value D) → Fields D → Except String (Value D × Fields D)}
  {supFaithful : Name → List (Value D) → Fields D → Prop} {env : Name → Option (Value D)}
  {params : List (Node D)} {args : List (Value D)} {isup : Name → List D → St D → D × St D}

theorem unary_agrees {op : BinOp} {b : Value D} (hop : op = .plus ∨ op = .minus)
    (hb : isNumeric b = true) (h : op = .plus → add (ofInt 0) (valToDouble b) = valToDouble b) :
    ∃ v, evalBinary op (zero : Value D) b = .ok v ∧ isNumeric v = true ∧
      valToDouble v = if op = .plus then valToDouble b else sub (ofInt 0) (valToDouble b) := by
  have hz : ∀ i j, (zero : Value D) = .integer i → b ≠ .integer j := by
    intro i j h
    cases h
  rcases hop with rfl | rfl
  · exact ⟨_, evalBinary_mixed rfl hb hz rfl, rfl, h rfl⟩
  · exact ⟨_, evalBinary_mixed rfl hb hz rfl, rfl, rfl⟩

theorem expr_args_agree
    (hsup : ∀ m vs F, supFaithful m vs F → Agree (sup m vs F) (isup m (vs.map valToDouble) ⟨F, none⟩)) :
    (∀ (e : Node D) F, FaithfulExpr S cur sup supFaithful env params args e F →
      Agree (evalExpr S cur sup env e F) (inlineExpr S isup params (args.map valToDouble) e ⟨F, none⟩)) ∧
    ∀ (es : List (Node D)) F, FaithfulArgs S cur sup supFaithful env params args es F →
      AgreeArgs (evalArgs S cur sup env es F)
        (inlineArgs S isup params (args.map valToDouble) es ⟨F, none⟩) := by
  refine FaithfulExpr.mutual_induct _ _ ?number ?integer ?var ?member ?unary ?binary ?super ?other
    ?nil ?cons
  case number => exact fun x F _ => ⟨.number x, F, rfl, rfl, rfl⟩
  case integer => exact fun i F _ => ⟨.integer i, F, rfl, rfl, rfl⟩
  case var =>
    rintro x F ⟨i, v, hi, hv, he, hn⟩
    refine ⟨v, F, ?_, hn, ?_⟩
    · simp [evalExpr, he]
    · simp [inlineExpr, hi, hv]
  case member =>
    rintro f F ⟨hp, v, hv, hn, hs⟩
    refine ⟨v, F, ?_, hn, memberGet_agrees hp hv hs⟩
    simp [evalExpr, hv, mayAccessField_public hp]
  case unary =>
    rintro op r F ih ⟨hop, hr, hplus⟩
    obtain ⟨b, F₁, hb, hbn, hbc⟩ := ih hr
    obtain ⟨v, hv, hvn, hvc⟩ := unary_agrees hop hbn (hplus b F₁ hb)
    refine ⟨v, F₁, ?_, hvn, ?_⟩
    · simp only [evalExpr, hb, hv, bind, Except.bind, pure, Except.pure]
    · simp only [inlineExpr, hbc, hvc]
      split <;> rfl
  case binary =>
    rintro op l r F ihl ihr ⟨hop, hl, hrest⟩
    obtain ⟨a, F₁, ha, han, hac⟩ := ihl hl
    obtain ⟨hr, hbin⟩ := hrest a F₁ ha
    obtain ⟨b, F₂, hb, hbn, hbc⟩ := ihr F₁ hr
    obtain ⟨v, hv, hvn, hvc⟩ := binary_agrees hop han hbn (hbin b F₂ hb)
    refine ⟨v, F₂, ?_, hvn, ?_⟩
    · simp only [evalExpr, ha, hb, hv, bind, Except.bind, pure, Except.pure]
    · simp only [inlineExpr, hac, hbc, hvc]
  case super =>
    rintro m es F ih ⟨hlen, hes, hcall⟩
    obtain ⟨vs, F₁, hvs, -, hcode⟩ := ih hes
    obtain ⟨v, F₂, hv, hn, hc⟩ := hsup m vs F₁ (hcall vs F₁ hvs)
    refine ⟨v, F₂, ?_, hn, ?_⟩
    · simp only [evalExpr, hvs, hv, bind, Except.bind]
    · simp only [inlineExpr, hcode, hc, if_neg (Nat.not_lt.mpr hlen)]
  case other =>
    -- every other node kind is unfaithful
    intro e F h₁ h₂ h₃ h₄ h₅ h₆ h₇ h
    rw [FaithfulExpr] at h
    · exact h.elim
    all_goals assumption
  case nil => exact fun F _ => ⟨[], F, rfl, by simp, rfl⟩
  case cons =>
    rintro e es F ihe ihes ⟨he, hes⟩
    obtain ⟨v, F₁, hv, hn, hc⟩ := ihe he
    obtain ⟨vs, F₂, hvs, hns, hcs⟩ := ihes F₁ (hes v F₁ hv)
    refine ⟨v :: vs, F₂, ?_, ?_, ?_⟩
    · simp only [evalArgs, hv, hvs, bind, Except.bind, pure, Except.pure]
    · simpa using ⟨hn, hns⟩
    · simp only [inlineArgs, hc, hcs, List.map_cons]

theorem stmt_stmts_agree
    (hsup : ∀ m vs F, supFaithful m vs F → Agree (sup m vs F) (isup m (vs.map valToDouble) ⟨F, none⟩)) :
    (∀ (t : Node D) F, FaithfulStmt S cur sup supFaithful env params args t F →
      AgreeStmt (evalStmt S cur sup env t F)
        (inlineStmt S isup params (args.map valToDouble) t ⟨F, none⟩)) ∧
    ∀ (ts : List (Node D)) F, FaithfulStmts S cur sup supFaithful env params args ts F →
      ∀ last : Value D, isNumeric last = true → AgreeStmt (evalStmts S cur sup env last ts F)
          (inlineStmts S isup params (args.map valToDouble) (valToDouble last) ts ⟨F, none⟩) := by
  have hexpr := (@expr_args_agree D _ _ S cur sup supFaithful env params args isup hsup).1
  refine FaithfulStmt.mutual_induct _ _ ?block ?bare ?ret ?set ?other ?nil ?cons
  case block => exact fun ss F ih h => ih h zero rfl
  case bare => exact fun F _ => ⟨zero, true, F, rfl, rfl, rfl⟩
  case ret =>
    intro e F h
    obtain ⟨v, F₁, hv, hn, hc⟩ := hexpr e F h
    refine ⟨v, true, F₁, ?_, hn, ?_⟩
    · simp only [evalStmt, hv, bind, Except.bind, pure, Except.pure]
    · simp only [inlineStmt, hc]
  case set =>
    rintro f e F ⟨he, hp, hset⟩
    obtain ⟨v, F₁, hv, hn, hc⟩ := hexpr e F he
    obtain ⟨ha, ⟨d, rfl⟩, hs⟩ := hset v F₁ hv
    refine ⟨.number d, false, setField F₁ f (.number d), ?_, rfl, ?_⟩
    · simp [evalStmt, hv, mayAccessField_public hp, ha, bind, Except.bind, pure, Except.pure]
    · simp only [inlineStmt, hc]
      rw [show valToDouble (.number d : Value D) = d from rfl, memberSet_agrees hp ha hs]
  case other =>
    intro e F h₁ h₂ h₃ h₄ h
    rw [FaithfulStmt] at h
    · obtain ⟨v, F₁, hv, hn, hc⟩ := hexpr e F h
      refine ⟨v, false, F₁, ?_, hn, ?_⟩
      · rw [evalStmt]
        · simp only [hv, bind, Except.bind, pure, Except.pure]
        all_goals assumption
      · have h₅ : ∀ o f x, e ≠ .memberSet o f x := by
          rintro o f x rfl
          exact h
        rw [inlineStmt]
        · simp only [hc]
        all_goals assumption
    all_goals assumption
  case nil => exact fun F _ last hl => ⟨last, false, F, rfl, hl, rfl⟩
  case cons =>
    rintro t ts F iht ihts ⟨ht, hts⟩ last -
    obtain ⟨v, returned, F₁, hv, hn, hc⟩ := iht ht
    cases returned with
    | true =>
      refine ⟨v, true, F₁, ?_, hn, ?_⟩
      · simp [evalStmts, hv, bind, Except.bind, pure, Except.pure]
      · simp [inlineStmts, hc]
    | false =>
      obtain ⟨w, returned, F₂, hw, hwn, hwc⟩ := ihts F₁ (hts v F₁ hv) v hn
      refine ⟨w, returned, F₂, ?_, hwn, ?_⟩
      · simpa [evalStmts, hv, bind, Except.bind, pure, Except.pure] using hw
      · simpa [inlineStmts, hc] using hwc

end Body

omit [Double D] [Formats] in
theorem findInlineable_spec {P : Program D} {n : Nat} {cls m : Name} {argc : Nat} {f : Method D}
    (h : findInlineable P n cls m argc = some f) : (∃ k, n = k + 1) ∧ f.access = .publicAccess := by
  cases n with
  | zero => cases h
  | succ k =>
    refine ⟨⟨k, rfl⟩, ?_⟩
    unfold findInlineable at h
    split at h
    · cases h
    · next c hc =>
      split at h
      · cases h
      · split at h
        · next g hg =>
          have hgm : g ∈ candidates c m argc := by rw [hg]; exact List.mem_singleton.mpr rfl
          have hga : g.access = .publicAccess := by
            simp only [candidates, List.mem_filter, Bool.and_eq_true, beq_iff_eq] at hgm
            exact hgm.2.1.2
          obtain ⟨-, hgf⟩ := Option.ite_none_right_eq_some.mp h
          cases hgf
          exact hga
        · cases h

theorem call_agrees {P : Program D} : ∀ (chain : List (Class D)) (cur : Option Nat) (n : Nat)
    (cls m : Name) (args : List (Value D)) (F : Fields D) (f : Method D),
    FaithfulCall S P chain n cls m args F → findInlineable P n cls m args.length = some f →
      Agree (dispatch S chain cur m args F) (inlineCall S P n cls f (args.map valToDouble) ⟨F, none⟩) := by
  intro chain
  induction chain with
  | nil => exact fun _ _ _ _ _ _ _ h => h.elim
  | cons c rest ih =>
    rintro cur n cls m args F f ⟨g, hg, hlookup, hbody⟩ hf
    rw [hg] at hf
    cases hf
    obtain ⟨⟨k, rfl⟩, hpublic⟩ := findInlineable_spec hg
    let isup : Name → List D → St D → D × St D := fun m' ds s' =>
      match directParent P cls with
      | none => (ofInt 0, s')
      | some p =>
        match findInlineable P k p m' ds.length with
        | none => (ofInt 0, s')
        | some g => inlineCall S P k p g ds s'
    have hsup : ∀ m' vs F', (∃ p, directParent P cls = some p ∧
        FaithfulCall S P rest (k + 1 - 1) p m' vs F') →
        Agree (dispatch S rest (some (rest.length + 1)) m' vs F')
          (isup m' (vs.map valToDouble) ⟨F', none⟩) := by
      rintro m' vs F' ⟨p, hp, hfaith⟩
      obtain ⟨g', hg'⟩ : ∃ g', findInlineable P k p m' vs.length = some g' := by
        cases rest with
        | nil => exact hfaith.elim
        | cons c' rest' => exact ⟨hfaith.choose, hfaith.choose_spec.1⟩
      simp only [isup, hp, List.length_map, hg']
      exact ih _ k p m' vs F' g' hfaith hg'
    obtain ⟨v, returned, F₁, hv, hn, hc⟩ := (stmt_stmts_agree hsup).1 f.body F hbody
    refine ⟨v, F₁, ?_, hn, ?_⟩
    · have hmay : mayAccess f.access (rest.length + 1) cur = true := by rw [hpublic]; rfl
      simp only [dispatch, hlookup, hmay, if_true, hv, bind, Except.bind, pure, Except.pure]
    · show ((inlineStmt S isup f.params (args.map valToDouble) f.body ⟨F, none⟩).1,
          (inlineStmt S isup f.params (args.map valToDouble) f.body ⟨F, none⟩).2.2) = _
      rw [hc]

end Faithful

/-! The call site. -/

/-- An argument: what its evaluation gives and what its code gives. `W` is all that arguments
read and write besides the fields of the receiver. -/
structure Arg (D W : Type) where
  eval : W → Fields D → Except String (Value D × W × Fields D)
  code : W → St D → D × W × St D

section CallSite
variable {D W : Type} [Double D] [Formats] (S : Site D)

def evalArguments : List (Arg D W) → W → Fields D → Except String (List (Value D) × W × Fields D)
  | [], w, F => .ok ([], w, F)
  | a :: as, w, F => do
    let (v, w₁, F₁) ← a.eval w F
    let (vs, w₂, F₂) ← evalArguments as w₁ F₁
    return (v :: vs, w₂, F₂)

/-- `obj.m(as)`: the arguments, then the method of the receiver's class. -/
def dispatchSite (m : Name) (as : List (Arg D W)) (w : W) (F : Fields D) :
    Except String (Value D × W × Fields D) := do
  let (vs, w₁, F₁) ← evalArguments as w F
  let (v, F₂) ← dispatch S S.chain none m vs F₁
  return (v, w₁, F₂)

def codeArguments : List (Arg D W) → W → St D → List D × W × St D
  | [], w, s => ([], w, s)
  | a :: as, w, s =>
    let (d, w₁, s₁) := a.code w s
    let (ds, w₂, s₂) := codeArguments as w₁ s₁
    (d :: ds, w₂, s₂)

/-- The code of `obj.m(as)` where `obj` was last assigned from `new cls(..)`; `none` when nothing
is inlined. `ts_compile_call_args` compiles the first sixteen arguments. -/
def inlineSite (P : Program D) (n : Nat) (cls m : Name) (as : List (Arg D W)) (w : W) (s : St D) :
    Option (D × W × St D) :=
  let taken := as.take 16
  match findInlineable P n cls m taken.length with
  | none => none
  | some f =>
    let (ds, w₁, s₁) := codeArguments taken w s
    let (d, s₂) := inlineCall S P n cls f ds s₁
    some (d, w₁, s₂)

def FaithfulArg (a : Arg D W) (w : W) (F : Fields D) : Prop :=
  ∃ v w' F', a.eval w F = .ok (v, w', F') ∧ isNumeric v = true ∧
    a.code w ⟨F, none⟩ = (valToDouble v, w', ⟨F', none⟩)

def FaithfulArguments : List (Arg D W) → W → Fields D → Prop
  | [], _, _ => True
  | a :: as, w, F => FaithfulArg a w F ∧
      ∀ v w' F', a.eval w F = .ok (v, w', F') → FaithfulArguments as w' F'

def FaithfulSite (P : Program D) (n : Nat) (cls m : Name) (as : List (Arg D W)) (w : W)
    (F : Fields D) : Prop :=
  as.length ≤ 16 ∧ FaithfulArguments as w F ∧ ∀ vs w' F', evalArguments as w F = .ok (vs, w', F') →
      FaithfulCall S P S.chain n cls m vs F'

omit [Formats] in
theorem arguments_agree : ∀ (as : List (Arg D W)) (w : W) (F : Fields D),
    FaithfulArguments as w F → ∃ vs w' F', evalArguments as w F = .ok (vs, w', F') ∧ vs.length = as.length ∧
      codeArguments as w ⟨F, none⟩ = (vs.map valToDouble, w', ⟨F', none⟩) := by
  intro as
  induction as with
  | nil => exact fun w F _ => ⟨[], w, F, rfl, rfl, rfl⟩
  | cons a as ih =>
    rintro w F ⟨⟨v, w₁, F₁, hv, -, hc⟩, has⟩
    obtain ⟨vs, w₂, F₂, hvs, hlen, hcs⟩ := ih w₁ F₁ (has v w₁ F₁ hv)
    refine ⟨v :: vs, w₂, F₂, ?_, ?_, ?_⟩
    · simp only [evalArguments, hv, hvs, bind, Except.bind, pure, Except.pure]
    · simp [hlen]
    · simp only [codeArguments, hc, hcs, List.map_cons]

end CallSite

section Sample

/-! `class C { x; add(a) { this.x = this.x + a; return this.x; } odd() { return -(this.x % 2); } }`,
and an instance with `x = 3`. -/

def addMethod : Method ℚ :=
  { name := "add", params := [.varRef "a"], isStatic := false, isAbstract := false,
    access := .publicAccess,
    body := .block [.memberSet .thisExpr "x"
        (.binary .plus (some (.memberAccess .thisExpr "x")) (.varRef "a")),
      .flowReturn (some (.memberAccess .thisExpr "x"))] }

def oddMethod : Method ℚ :=
  { name := "odd", params := [], isStatic := false, isAbstract := false, access := .publicAccess,
    body := .block [.flowReturn (some (.binary .minus none
      (.binary .mod (some (.memberAccess .thisExpr "x")) (.integer 2))))] }

def sampleClass : Class ℚ :=
  { name := "C", parent := none, interfaceCount := 0, isAbstract := false, isInterface := false,
    fields := [⟨"x", none, false, .publicAccess⟩], methods := [addMethod, oddMethod],
    constants := [] }

def sampleProgram : Program ℚ := { classes := [sampleClass], assigned := ["obj"] }

def sampleSite : Site ℚ :=
  { chain := [sampleClass], slot := fun _ => false, admits := fun _ _ => true,
    lookup := fun c m vs => c.methods.find? fun f => f.name == m && f.params.length == vs.length,
    host := fun _ _ => .error "not evaluated" }

def sampleFields : Fields ℚ := fun f => if f = "x" then some (.number 3) else none

/-- `n = n + 1`, as an argument. -/
def countingArg : Arg ℚ Nat :=
  { eval := fun w F => .ok (.number (w + 1), w + 1, F)
    code := fun w s => (w + 1, w + 1, s) }

theorem findInlineable_add : findInlineable sampleProgram 1 "C" "add" 1 = some addMethod := by
  have hname : ("add".startsWith "_") = false := by decide +kernel
  simp [findInlineable, hname, sampleProgram, findClass, sampleClass, addMethod, oddMethod,
    candidates, isVariable, stmtSupported, stmtsSupported, exprSupported, paramIndex, inlineOp]

theorem sampleSite_faithful :
    FaithfulSite sampleSite sampleProgram 1 "C" "add" [countingArg] 6 sampleFields := by
  refine ⟨by decide, ⟨⟨_, _, _, rfl, rfl, rfl⟩, fun _ _ _ _ => trivial⟩, ?_⟩
  rintro vs w F h
  cases h
  refine ⟨addMethod, findInlineable_add, rfl, ⟨⟨rfl, ?member, ?param⟩, rfl, ?value⟩, ?rest⟩
  case member => exact ⟨rfl, _, rfl, rfl, fun h => nomatch h⟩
  case param =>
    intro a F h
    cases h
    exact ⟨⟨0, _, rfl, rfl, rfl, rfl⟩, fun _ _ _ => trivial⟩
  case value =>
    intro v F h
    cases h
    exact ⟨rfl, ⟨_, rfl⟩, fun h => nomatch h⟩
  case rest =>
    intro v F h
    cases h
    exact ⟨⟨rfl, _, rfl, rfl, fun h => nomatch h⟩, fun _ _ h => nomatch h⟩

end Sample

end TurboScript.Mir.Inline
