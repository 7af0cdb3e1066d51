import Mathlib.Data.List.Basic
import Mathlib.Data.Rat.Lemmas
import Mathlib.Algebra.Order.Ring.Rat

/- Syntax trees and values of the expression language (`exprtk_node_t`,
   `exprtk_value_t`), and the operations on values that both evaluators use.

   1. `Double`: the double arithmetic, with nothing assumed about it; `ℚ` is the instance the
      examples run on.
   2. The nodes, one constructor a node kind, without source positions. A `switch` keeps its
      cases in one flat array, value and body alternating, as the parser builds it.
   3. The values. A captured environment, a class or an instance is an identifier; maps
      and lists are by value, because every store copies them. -/
namespace TurboScript.Exprtk

abbrev Name := String
abbrev EnvId := Nat
abbrev ClassId := Nat
abbrev InstanceId := Nat

/-- The double operations of the evaluators. `lt` and `le` are the machine comparisons,
    `format` is `"%g"` and `toInt` the cast to an integer. -/
class Double (D : Type) where
  ofInt : Int → D
  toInt : D → Int
  add : D → D → D
  sub : D → D → D
  mul : D → D → D
  div : D → D → D
  fmod : D → D → D
  pow : D → D → D
  neg : D → D
  fabs : D → D
  eq : D → D → Bool
  lt : D → D → Bool
  le : D → D → Bool
  /-- `1e-9` and `1e-15`. -/
  eps : D
  tiny : D
  format : D → String

def truncate (x : ℚ) : Int := x.num.tdiv x.den

/-- Rational arithmetic; a power is taken when the exponent is a natural number. -/
instance : Double ℚ where
  ofInt i := i
  toInt := truncate
  add := (· + ·)
  sub := (· - ·)
  mul := (· * ·)
  div := (· / ·)
  fmod a b := a - b * truncate (a / b)
  pow a b := a ^ (truncate b).toNat
  neg a := -a
  fabs a := if a < 0 then -a else a
  eq a b := decide (a = b)
  lt a b := decide (a < b)
  le a b := decide (a ≤ b)
  eps := 1 / 1000000000
  tiny := 1 / 1000000000000000
  format x := if x.den = 1 then toString x.num else toString x.num ++ "/" ++ toString x.den

/-- The operator tokens of a binary node; a unary operator has no left operand. -/
inductive BinOp
  | plus | minus | multiply | divide | mod | power
  | eq | ne | lt | le | gt | ge | and | or | not
  deriving DecidableEq, Repr

inductive AccessLevel
  | publicAccess | protectedAccess | privateAccess
  deriving DecidableEq, Repr

inductive Node (D : Type)
  | number (x : D)
  | integer (i : Int)
  | string (s : String)
  | null
  | templateString (text : String)
  | varRef (name : Name)
  | binary (op : BinOp) (left : Option (Node D)) (right : Node D)
  | functionCall (name : Name) (args : List (Node D))
  | assignment (name : Name) (value : Node D)
  | constantDecl (name : Name) (value : Node D)
  | destructuring (targets value : Node D) (isConstant : Bool)
  | ifStmt (condition : Node D) (ifBranch elseBranch : Option (Node D))
  | whileLoop (condition body : Node D)
  | forLoop (init condition post : Option (Node D)) (body : Node D)
  | doWhile (body condition : Node D)
  | forIn (varName : Name) (collection body : Node D)
  | block (statements : List (Node D))
  | flowReturn (value : Option (Node D))
  | flowBreak
  | flowContinue
  | vector (elements : List (Node D))
  | mapLiteral (entries : List (Option Name × Node D))
  | index (array index : Node D)
  | slice (array : Node D) (start stop : Option (Node D))
  | spread (child : Node D)
  | functionDefinition (name : Name) (params : List (Node D)) (body : Node D)
  | functionExpression (params : List (Node D)) (body : Node D)
  | memberCall (object : Node D) (method : Name) (args : List (Node D))
  | memberAccess (object : Node D) (member : Name)
  | memberSet (object : Node D) (member : Name) (value : Node D)
  | switch (value : Node D) (cases : List (Node D)) (defaultCase : Option (Node D))
  | throwStmt (value : Option (Node D))
  | tryCatch (tryBody : Node D) (catchVar : Option Name) (catchBody : Node D)
  | yieldExpr (value : Option (Node D))
  | generator (name : Name) (params : List (Node D)) (body : Node D)
  | classDef (name : Name) (parent : Option Name) (interfaces : List Name)
      (ctor : Option (Node D)) (members : List (Node D))
      (isAbstract isInterface isFinal : Bool)
  | method (name : Name) (params : List (Node D)) (body : Node D)
      (isStatic isAbstract isOverride isFinal : Bool) (access : AccessLevel)
  | fieldDecl (name : Name) (declaredType : Option Name) (initializer : Option (Node D))
      (isStatic : Bool) (access : AccessLevel)
  | newExpr (className : Name) (args : List (Node D))
  | thisExpr
  | superExpr (member : Option Name) (args : List (Node D)) (isCall : Bool)
  | instanceOf (object : Node D) (className : Name) (classExpr : Option (Node D))

/-- A script function: the data of `exprtk_func_t` that calls and access checks read. -/
structure Func (D : Type) where
  name : Name
  params : List (Node D)
  body : Node D
  closureEnv : Option EnvId := none
  ownerClass : Option ClassId := none
  isStaticMethod : Bool := false
  accessLevel : AccessLevel := .publicAccess

structure Decimal where
  mantissa : Int
  scale : Int
  deriving DecidableEq, Repr

structure DateTime where
  year : Int
  month : Int
  day : Int
  hour : Int
  minute : Int
  second : Int
  millisecond : Int := 0
  deriving DecidableEq, Repr

structure EnumValue where
  typeName : String
  symbol : String
  value : Int
  deriving DecidableEq, Repr

inductive TypedArrayKind
  | i32 | i64 | f32 | f64
  deriving DecidableEq, Repr

/-- The elements of a typed array are kept as `exprtk_typed_array_get_value` returns
    them. -/
inductive Value (D : Type)
  | number (x : D)
  | string (s : String)
  | integer (i : Int)
  | bool (b : Bool)
  | bytes (b : List UInt8)
  | vector (xs : List D)
  | map (entries : List (Name × Value D))
  | object (entries : List (Name × Value D))
  | null
  | list (items : List (Value D))
  | function (f : Func D)
  | coroutine (id : Nat)
  | classVal (c : ClassId)
  | instanceVal (i : InstanceId)
  | boundMethod (i : InstanceId) (m : Func D)
  | uuid (b : List UInt8)
  | datetime (t : DateTime)
  | date (year month day : Int)
  | time (hour minute second millisecond : Int)
  | duration (ms : Int)
  | decimal (d : Decimal)
  | bigint (text : String)
  | money (amount : Decimal) (currency : String)
  | enum (v : EnumValue)
  | flags (v : EnumValue)
  | set (items : List (Value D))
  | offsetDatetime (t : DateTime) (offsetMinutes : Int)
  | typedArray (kind : TypedArrayKind) (items : List (Value D))

section Values
variable {D : Type} [Double D]
open Double

def zero : Value D := .number (ofInt 0)

def ofBool (b : Bool) : Value D := .number (ofInt (if b then 1 else 0))

/-- `exprtk_val_int` of a C comparison. -/
def intOfBool (b : Bool) : Value D := .integer (if b then 1 else 0)

def wrap64 (i : Int) : Int := i.bmod (2 ^ 64)

omit [Double D] in
def typeName : Value D → String
  | .number _ => "number"
  | .integer _ => "int64"
  | .bool _ => "bool"
  | .string _ => "string"
  | .bytes _ => "bytes"
  | .vector _ => "vector"
  | .map _ => "map"
  | .object _ => "object"
  | .null => "null"
  | .list _ => "list"
  | .set _ => "set"
  | .function _ => "function"
  | .classVal _ => "class"
  | .instanceVal _ => "instance"
  | .boundMethod _ _ => "bound_method"
  | .uuid _ => "uuid"
  | .datetime _ => "datetime"
  | .date _ _ _ => "date"
  | .time _ _ _ _ => "time"
  | .duration _ => "duration"
  | .decimal _ => "decimal"
  | .bigint _ => "bigint"
  | .money _ _ => "money"
  | .enum _ => "enum"
  | .flags _ => "flags"
  | .offsetDatetime _ _ => "offset_datetime"
  | .typedArray _ _ => "typed_array"
  | .coroutine _ => "unknown"

/-- `val_to_double`; `ts_mir_numeric_value` is the same function. -/
def valToDouble : Value D → D
  | .integer i => ofInt i
  | .number x => x
  | .bool b => ofInt (if b then 1 else 0)
  | _ => ofInt 0

def isNumeric : Value D → Bool
  | .integer _ | .number _ | .bool _ => true
  | _ => false

def entries? : Value D → Option (List (Name × Value D))
  | .map es => some es
  | .object es => some es
  | _ => none

/-- `exprtk_map_get`: a missing key reads as the number zero. -/
def mapGet (es : List (Name × Value D)) (key : Name) : Value D :=
  (es.lookup key).getD zero

/-- `exprtk_map_set` on a map that does not contain itself. -/
def mapSet (es : List (Name × Value D)) (key : Name) (v : Value D) : List (Name × Value D) :=
  match es with
  | [] => [(key, v)]
  | (k, w) :: rest => if k = key then (k, v) :: rest else (k, w) :: mapSet rest key v

/-- `fabs x > 1e-9`. -/
def nonzero (x : D) : Bool := lt eps (fabs x)

def evalValueTruthy : Value D → Bool
  | .bool b => b
  | .integer i => i != 0
  | .number x => nonzero x
  | .string s => !s.isEmpty
  | .bytes b => !b.isEmpty
  | .bigint text => !text.isEmpty
  | .typedArray _ items => !items.isEmpty
  | .vector xs => !xs.isEmpty
  | .list items => !items.isEmpty
  | .set items => !items.isEmpty
  | .map es => !es.isEmpty
  | .object es => !es.isEmpty
  | .null | .coroutine _ => false
  | _ => true

/-- The decimal without trailing zeros, as `eval_value_text`, `values_match` and both
    evaluators normalise it. -/
def Decimal.normalize (d : Decimal) : Decimal :=
  let rec strip (m : Int) : Nat → Decimal
    | 0 => ⟨m, 0⟩
    | n + 1 => if m % 10 = 0 then strip (m.tdiv 10) n else ⟨m, n + 1⟩
  let e := if 0 < d.scale then strip d.mantissa d.scale.toNat else d
  if e.mantissa = 0 then ⟨0, 0⟩ else e

/-- `values_match`: different types never match, and types without a case of their own
    match whenever they are the same type. -/
def valuesMatch : Value D → Value D → Bool
  | .bool a, .bool b => a == b
  | .string a, .string b => a == b
  | .bytes a, .bytes b => a == b
  | .uuid a, .uuid b => a == b
  | .datetime a, .datetime b => a == b
  | .offsetDatetime a i, .offsetDatetime b j => i == j && a == b
  | .date y m d, .date y' m' d' => y == y' && m == m' && d == d'
  | .time h m s ms, .time h' m' s' ms' => h == h' && m == m' && s == s' && ms == ms'
  | .duration a, .duration b => a == b
  | .decimal a, .decimal b => a.normalize == b.normalize
  | .bigint a, .bigint b => a == b
  | .money a c, .money b c' => a == b && c == c'
  | .enum a, .enum b => a.value == b.value && a.typeName == b.typeName
  | .flags a, .flags b => a.value == b.value && a.typeName == b.typeName
  | .number a, .number b => lt (fabs (sub a b)) eps
  | .number a, .integer j => lt (fabs (sub a (ofInt j))) eps
  | .integer i, .number b => lt (fabs (sub (ofInt i) b)) eps
  | .integer i, .integer j => lt (fabs (sub (ofInt i : D) (ofInt j))) eps
  | a, b => typeName a == typeName b

/-! Texts. -/

/-- Formatters of the support library; the number is the size of the buffer they write
    to, and they fail when it is too small. -/
class Formats where
  uuid : Nat → List UInt8 → Option String
  datetime : Nat → DateTime → Option String

def hexDigit (n : Nat) : Char :=
  if n < 10 then Char.ofNat (48 + n) else Char.ofNat (87 + n)

/-- A UUID needs 37 bytes; the examples use no date and time. -/
instance : Formats where
  uuid size b :=
    if size < 37 then none
    else some (String.ofList (b.flatMap fun c => [hexDigit (c.toNat / 16), hexDigit (c.toNat % 16)]))
  datetime _ _ := none

/-- `"%0wd"`. -/
def padInt (w : Nat) (i : Int) : String :=
  let digits := (toString i.natAbs).toList
  let sign := if i < 0 then ['-'] else []
  String.ofList (sign ++ List.replicate (w - sign.length - digits.length) '0' ++ digits)

/-- A decimal written to a buffer of the given size after `start` characters; it fails
    where the source's bound check does. -/
def decimalText (start size : Nat) (d : Decimal) : Option String :=
  let n := d.normalize
  let digits := (toString n.mantissa.natAbs).toList
  let sign := if n.mantissa < 0 then ['-'] else []
  let pos := start + sign.length
  let scale := n.scale.toNat
  let text := fun l : List Char => some (String.ofList (sign ++ l))
  if n.scale = 0 then
    if size ≤ pos + digits.length then none else text digits
  else if digits.length ≤ scale then
    let zeros := scale - digits.length
    if size ≤ pos + 2 + zeros + digits.length then none
    else text (['0', '.'] ++ List.replicate zeros '0' ++ digits)
  else
    let whole := digits.length - scale
    if size ≤ pos + digits.length + 1 then none
    else text (digits.take whole ++ ['.'] ++ digits.drop whole)

def dateText (year month day : Int) : String :=
  padInt 4 year ++ "-" ++ padInt 2 month ++ "-" ++ padInt 2 day

def timeText (hour minute second millisecond : Int) : String :=
  let base := padInt 2 hour ++ ":" ++ padInt 2 minute ++ ":" ++ padInt 2 second
  if 0 < millisecond then base ++ "." ++ padInt 3 millisecond else base

/-- The least duration is its own negation. -/
def durationText (ms : Int) : String :=
  let rem := if ms < 0 then wrap64 (-ms) else ms
  (if ms < 0 then "-" else "") ++ toString (rem.tdiv 3600000) ++ ":" ++
    padInt 2 ((rem.tmod 3600000).tdiv 60000) ++ ":" ++
    padInt 2 ((rem.tmod 60000).tdiv 1000) ++ "." ++ padInt 3 (rem.tmod 1000)

def offsetDatetimeText (t : DateTime) (offset : Int) : String :=
  dateText t.year t.month t.day ++ "T" ++ timeText t.hour t.minute t.second 0 ++
    (if offset < 0 then "-" else "+") ++ padInt 2 (offset.natAbs / 60) ++ ":" ++
    padInt 2 (offset.natAbs % 60)

def bytesText (b : List UInt8) : String := "bytes(" ++ toString b.length ++ ")"

/-- `eval_value_text` with the buffer size its callers pass. -/
def evalValueText [Formats] (size : Nat) : Value D → Option String
  | .string s => some s
  | .integer i => some (toString i)
  | .number x => some (format x)
  | .bool b => some (if b then "true" else "false")
  | .bytes b => some (bytesText b)
  | .uuid b => Formats.uuid size b
  | .datetime t => Formats.datetime size t
  | .offsetDatetime t o => some (offsetDatetimeText t o)
  | .date y m d => some (dateText y m d)
  | .time h m s ms => some (timeText h m s ms)
  | .duration ms => some (durationText ms)
  | .decimal d => decimalText 0 size d
  | .bigint text => some text
  | .money a c =>
    if size ≤ 4 then none else (decimalText 4 size a).map (c ++ " " ++ ·)
  | .enum v | .flags v => some (if v.symbol.isEmpty then toString v.value else v.symbol)
  | .null => some "null"
  | _ => none

end Values

end TurboScript.Exprtk
