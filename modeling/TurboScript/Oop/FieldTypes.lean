import TurboScript.Oop.Resolve

/- The two type tests (`instance_value_matches_field_type`, `value_matches_declared_type`).

   A typed field and a typed parameter name their type by the same words. A value stored in
   the field goes through one test, an argument for the parameter through the other, and
   the two were written apart. -/
namespace TurboScript.Oop
open Exprtk (Name ClassId InstanceId)
open Oop.Resolve (Argument)

/-! The words. -/

inductive ValueType
  | number | integer | bool | string | bytes | vector | map | object | null | list | set
  | function | boundMethod | classVal | instanceVal | other
  deriving DecidableEq, Repr

def valueType {D : Type} : Exprtk.Value D → ValueType
  | .number _ => .number
  | .integer _ => .integer
  | .bool _ => .bool
  | .string _ => .string
  | .bytes _ => .bytes
  | .vector _ => .vector
  | .map _ => .map
  | .object _ => .object
  | .null => .null
  | .list _ => .list
  | .set _ => .set
  | .function _ => .function
  | .boundMethod _ _ => .boundMethod
  | .classVal _ => .classVal
  | .instanceVal _ => .instanceVal
  | _ => .other

/-- `value_signature_type`. -/
def ValueType.signature : ValueType → Name
  | .number | .integer => "number"
  | .string => "string"
  | .vector => "vector"
  | .map => "map"
  | .object => "object"
  | .null => "null"
  | .list => "list"
  | .function | .boundMethod => "function"
  | .classVal => "class"
  | .instanceVal => "instance"
  | .bool | .bytes | .set | .other => "unknown"

/-- The words of `instance_value_matches_field_type`, with what each of them takes. -/
def fieldWord : Name → Option (ValueType → Bool)
  | "any" => some fun _ => true
  | "number" | "float" => some fun t => t = .number
  | "int" | "int64" | "integer" => some fun t => t = .integer
  | "bool" | "boolean" => some fun t => t = .bool
  | "string" => some fun t => t = .string
  | "bytes" => some fun t => t = .bytes
  | "map" => some fun t => t = .map || t = .object
  | "object" => some fun t => t = .object
  | "list" | "array" => some fun t => t = .list || t = .set || t = .vector
  | "class" => some fun t => t = .classVal
  | "instance" => some fun t => t = .instanceVal
  | "function" => some fun t => t = .function || t = .boundMethod
  | "null" => some fun t => t = .null
  | _ => none

/-! The tests. -/

section Tests
variable {D : Type} (h : Hierarchy ClassId) (classOf : InstanceId → ClassId)

def klassOf : Exprtk.Value D → Option ClassId
  | .instanceVal i => some (classOf i)
  | .classVal c => some c
  | _ => none

/-- `instance_value_matches_field_type`. -/
def matchesFieldType (v : Exprtk.Value D) (declaredType : Name) : Bool :=
  valueType v = .null ||
    match fieldWord declaredType with
    | some takes => takes (valueType v)
    | none => (klassOf classOf v).any fun k => (h.nameMatchDepth k declaredType).isSome

def asArgument (v : Exprtk.Value D) : Argument :=
  match v with
  | .instanceVal i => .instance (classOf i)
  | .classVal c => .class c
  | v => .builtin (valueType v).signature

/-- A value is taken for a parameter of the method: its score is positive. -/
def matchesParamType (v : Exprtk.Value D) (m : Method) (declaredType : Name) : Bool :=
  0 < Resolve.valueMatchesDeclaredType h (asArgument classOf v) m declaredType

/-- The class of the value is one the parameter names, less than 100 edges away. -/
def nearEnough (v : Exprtk.Value D) (m : Method) (declaredType : Name) : Bool :=
  (Resolve.edges h m declaredType (asArgument classOf v)).any fun n => n < 100

def named (v : Exprtk.Value D) (declaredType : Name) : Bool :=
  (klassOf classOf v).any fun k => (h.nameMatchDepth k declaredType).isSome

theorem matchesParamType_eq (v : Exprtk.Value D) (m : Method) (declaredType : Name) :
    matchesParamType h classOf v m declaredType = (declaredType = (asArgument classOf v).signatureType ||
        nearEnough h classOf v m declaredType) := by
  unfold matchesParamType Resolve.valueMatchesDeclaredType nearEnough
  by_cases hs : declaredType = (asArgument classOf v).signatureType
  · simp [hs]
  · simp only [hs, if_false, decide_false, Bool.false_or]
    cases Resolve.edges h m declaredType (asArgument classOf v) with
    | none => rfl
    | some n =>
      show decide (0 < 100 - n) = decide (n < 100)
      rw [decide_eq_decide]
      omega

end Tests

/-! Where they agree. -/

/-- The words on which the tests differ for a value that is neither null nor of a class. -/
def oddWords : ValueType → List Name
  | .number => ["any", "float"]
  | .integer => ["any", "int", "int64", "integer", "number"]
  | .bool => ["any", "bool", "boolean", "unknown"]
  | .string | .map | .function | .boundMethod => ["any"]
  | .bytes => ["any", "bytes", "unknown"]
  | .vector => ["any", "list", "array", "vector"]
  | .object => ["any", "map"]
  | .list => ["any", "array"]
  | .set => ["any", "list", "array", "unknown"]
  | .other => ["any", "unknown"]
  | .null | .classVal | .instanceVal => []

section Agreement
variable {D : Type} (h : Hierarchy ClassId) (classOf : InstanceId → ClassId)

/-- A value of a class: the word is the one for such values; or it is `any` or a class name
    that both tests find; or it is a word for other values and no class the parameter means. -/
def SameForClass (v : Exprtk.Value D) (m : Method) (declaredType : Name) : Prop :=
  declaredType = (valueType v).signature ∨
    (declaredType = "any" ∧ nearEnough h classOf v m declaredType = true) ∨
    (declaredType ≠ "any" ∧ (fieldWord declaredType).isSome = true ∧
      nearEnough h classOf v m declaredType = false) ∨
    ((fieldWord declaredType).isSome = false ∧
      named h classOf v declaredType = nearEnough h classOf v m declaredType)

/-- The values and words on which the tests agree. -/
def SameTest (v : Exprtk.Value D) (m : Method) (declaredType : Name) : Prop :=
  match valueType v with
  | .null => declaredType = "null"
  | .classVal | .instanceVal => SameForClass h classOf v m declaredType
  | t => declaredType ∉ oddWords t

end Agreement

def fieldWords : List Name :=
  ["any", "number", "float", "int", "int64", "integer", "bool", "boolean", "string", "bytes",
    "map", "object", "list", "array", "class", "instance", "function", "null"]

theorem fieldWord_none {declaredType : Name} (h : declaredType ∉ fieldWords) :
    fieldWord declaredType = none := by
  unfold fieldWord
  split <;> first | rfl | exact absurd (by decide) h

/-- The types that neither null nor a class stands behind. -/
def plainTypes : List ValueType :=
  [.number, .integer, .bool, .string, .bytes, .vector, .map, .object, .list, .set, .function,
    .boundMethod, .other]

/-- What a field takes of such a type, beside what the parameter takes. -/
def fieldTakes (t : ValueType) (declaredType : Name) : Bool :=
  (fieldWord declaredType).any fun takes => takes t

theorem fieldTakes_plain {t : ValueType} (ht : t ∈ plainTypes) (declaredType : Name) :
    fieldTakes t declaredType = decide (declaredType = t.signature) ↔ declaredType ∉ oddWords t := by
  by_cases hw : declaredType ∈ fieldWords
  · have key : ∀ word ∈ fieldWords, ∀ t ∈ plainTypes,
        (fieldTakes t word = decide (word = t.signature) ↔ word ∉ oddWords t) := by decide
    exact key declaredType hw t ht
  · -- a word the field does not know: only `unknown` and `vector` may be odd
    have hnone : fieldTakes t declaredType = false := by
      unfold fieldTakes
      rw [fieldWord_none hw]
      rfl
    rw [hnone, eq_comm, decide_eq_false_iff_not, not_iff_not]
    simp only [fieldWords, List.mem_cons, List.not_mem_nil, or_false, not_or] at hw
    clear hnone
    cases t <;> simp_all [plainTypes, ValueType.signature, oddWords]

section Agreement
variable {D : Type} (h : Hierarchy ClassId) (classOf : InstanceId → ClassId)

theorem fieldWord_class {t : ValueType} (ht : t = .classVal ∨ t = .instanceVal)
    {declaredType : Name} {takes : ValueType → Bool} (hw : fieldWord declaredType = some takes) :
    takes t = true ↔ declaredType = "any" ∨ declaredType = t.signature := by
  have hmem : declaredType ∈ fieldWords := by
    by_contra hn
    rw [fieldWord_none hn] at hw
    cases hw
  have key : ∀ word ∈ fieldWords, ∀ t ∈ [ValueType.classVal, .instanceVal],
      (fieldTakes t word = true ↔ word = "any" ∨ word = t.signature) := by decide
  have ht' : t ∈ [ValueType.classVal, .instanceVal] := by
    rcases ht with rfl | rfl <;> decide
  have h := key declaredType hmem t ht'
  unfold fieldTakes at h
  rw [hw] at h
  exact h

variable {v : Exprtk.Value D}

theorem nearEnough_plain (hv : (asArgument classOf v).klass = none) (m : Method)
    (declaredType : Name) : nearEnough h classOf v m declaredType = false := by
  unfold nearEnough Resolve.edges
  rw [hv]
  cases Resolve.resolveClass h m declaredType <;> rfl

theorem asArgument_plain (hc : valueType v ≠ .classVal) (hi : valueType v ≠ .instanceVal) :
    asArgument classOf v = .builtin (valueType v).signature ∧ klassOf classOf v = none := by
  cases v with
  | classVal c => exact absurd rfl hc
  | instanceVal i => exact absurd rfl hi
  | _ => exact ⟨rfl, rfl⟩

theorem tests_plain (hc : valueType v ≠ .classVal) (hi : valueType v ≠ .instanceVal) (m : Method)
    (declaredType : Name) :
    matchesFieldType h classOf v declaredType =
        (valueType v = .null || fieldTakes (valueType v) declaredType) ∧
      matchesParamType h classOf v m declaredType = decide (declaredType = (valueType v).signature) := by
  obtain ⟨harg, hklass⟩ := asArgument_plain classOf hc hi
  constructor
  · unfold matchesFieldType fieldTakes
    rw [hklass]
    cases fieldWord declaredType <;> rfl
  · have hnear := nearEnough_plain h classOf (by rw [harg]; rfl) m declaredType
    rw [matchesParamType_eq, hnear, harg, Bool.or_false]
    rfl

theorem tests_class (hv : valueType v = .classVal ∨ valueType v = .instanceVal) (m : Method)
    (declaredType : Name) :
    matchesFieldType h classOf v declaredType = (match fieldWord declaredType with
          | some takes => takes (valueType v)
          | none => named h classOf v declaredType) ∧
      matchesParamType h classOf v m declaredType =
        (declaredType = (valueType v).signature || nearEnough h classOf v m declaredType) := by
  have hnull : valueType v ≠ .null := by
    rcases hv with hv | hv <;> simp [hv]
  constructor
  · unfold matchesFieldType
    rw [decide_eq_false hnull, Bool.false_or]
    rfl
  · rw [matchesParamType_eq]
    cases v with
    | classVal | instanceVal => rfl
    | _ => simp [valueType] at hv

theorem sameTest_class (hv : valueType v = .classVal ∨ valueType v = .instanceVal) (m : Method)
    (declaredType : Name) :
    matchesFieldType h classOf v declaredType = matchesParamType h classOf v m declaredType ↔
      SameForClass h classOf v m declaredType := by
  obtain ⟨hfield, hparam⟩ := tests_class h classOf hv m declaredType
  rw [hfield, hparam]
  unfold SameForClass
  cases hw : fieldWord declaredType with
  | none =>
    have hany : declaredType ≠ "any" := by
      rintro rfl
      cases hw
    have hsig : declaredType ≠ (valueType v).signature := by
      intro he
      rcases hv with hv | hv <;> rw [hv] at he <;> rw [he] at hw <;> cases hw
    simp [hany, hsig]
  | some takes =>
    have htakes := fieldWord_class hv hw
    dsimp only
    by_cases hsig : declaredType = (valueType v).signature
    · have : takes (valueType v) = true := htakes.2 (.inr hsig)
      simp [hsig, this]
    · by_cases hany : declaredType = "any"
      · have : takes (valueType v) = true := htakes.2 (.inl hany)
        rw [this, decide_eq_false hsig, Bool.false_or, eq_comm]
        rw [hany] at hsig
        simp [hany, hsig]
      · have : takes (valueType v) = false := by
          rw [← Bool.not_eq_true, htakes]
          exact fun h => h.elim hany hsig
        rw [this, decide_eq_false hsig, Bool.false_or, eq_comm]
        simp [hsig, hany]

/-- **When a field and a parameter of one declared type take the same value.** -/
theorem sameTest_iff (v : Exprtk.Value D) (m : Method) (declaredType : Name) :
    matchesFieldType h classOf v declaredType = matchesParamType h classOf v m declaredType ↔
      SameTest h classOf v m declaredType := by
  by_cases hclass : valueType v = .classVal ∨ valueType v = .instanceVal
  · rw [sameTest_class h classOf hclass]
    unfold SameTest
    rcases hclass with hv | hv <;> rw [hv]
  · rw [not_or] at hclass
    obtain ⟨hfield, hparam⟩ := tests_plain h classOf hclass.1 hclass.2 m declaredType
    rw [hfield, hparam]
    unfold SameTest
    cases ht : valueType v with
    | null =>
      show true = decide (declaredType = "null") ↔ declaredType = "null"
      rw [eq_comm, decide_eq_true_eq]
    | classVal => exact absurd ht hclass.1
    | instanceVal => exact absurd ht hclass.2
    | _ => exact fieldTakes_plain (by decide) declaredType

end Agreement

end TurboScript.Oop
