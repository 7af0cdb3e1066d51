import TurboScript.Exprtk.DecimalText
import TurboScript.Exprtk.Ieee
import TurboScript.Exprtk.IntArith

/- `values_match` and what is built on it: `indexOf` and `contains` of a list, and `set(...)`.

   1. `Same`: when two values denote equal values. Atoms have a denotation (`atom?`), containers
      are compared element by element, functions by an identity given from outside.
   2. `Clear`: the pairs on which `values_match` answers that question. It is not the pair of two
      integers with one double, of NUMBERs closer than the tolerance, of two spellings of one
      amount or big integer, or of different values of a type that has no case of its own. -/
namespace TurboScript.Exprtk.Matching
open Double
open DecimalText (readSign NormalForm)

/-- What doubles stand for, and what the test against the tolerance comes to. -/
class Denotes (D : Type) extends Double D where
  denote : D → Ext
  tolerance : ℚ
  tolerance_pos : 0 < tolerance
  tolerance_le : tolerance ≤ 1
  near_iff : ∀ x y, lt (fabs (sub x y)) eps = true ↔
    ∃ p q, denote x = .fin p ∧ denote y = .fin q ∧ |p - q| < tolerance
  ofInt_whole : ∀ i, InInt64 i → ∃ j : Int, denote (ofInt i) = .fin j
  ofInt_value : ∀ (i : Int) (x : D), InInt64 i → denote x = .fin i → denote (ofInt i) = .fin i
  ofInt_small : ∀ i : Int, |i| ≤ 2 ^ 53 → denote (ofInt i) = .fin i

open Denotes

def amount (d : Decimal) : ℚ := d.mantissa * 10 ^ (-d.scale)

/-- The integer a big integer's text spells: `core_bigint_valid_text` and the digits. -/
def bigintValue (text : String) : Option Int :=
  let (negative, digits) := readSign text.toList
  if digits ≠ [] ∧ digits.all Char.isDigit then
    let n : Int := Nat.ofDigitChars 10 digits 0
    some (if negative then -n else n)
  else none

inductive Atom
  | numeric (x : Ext)
  | bool (b : Bool)
  | string (s : String)
  | bytes (b : List UInt8)
  | uuid (b : List UInt8)
  | datetime (t : DateTime)
  | offsetDatetime (t : DateTime) (offsetMinutes : Int)
  | date (year month day : Int)
  | time (hour minute second millisecond : Int)
  | duration (ms : Int)
  | decimal (q : ℚ)
  | bigint (i : Int)
  | bigintText (text : String)
  | money (q : ℚ) (currency : String)
  | enum (value : Int) (typeName : String)
  | flags (value : Int) (typeName : String)
  | null
  | coroutine (id : Nat)
  | classVal (c : ClassId)
  | instanceVal (i : InstanceId)

def bigintAtom (text : String) : Atom :=
  match bigintValue text with
  | some i => .bigint i
  | none => .bigintText text

section Equality
variable {D : Type} [Denotes D]

def atom? : Value D → Option Atom
  | .number x => some (.numeric (denote x))
  | .integer i => some (.numeric (.fin i))
  | .bool b => some (.bool b)
  | .string s => some (.string s)
  | .bytes b => some (.bytes b)
  | .uuid b => some (.uuid b)
  | .datetime t => some (.datetime t)
  | .offsetDatetime t o => some (.offsetDatetime t o)
  | .date y m d => some (.date y m d)
  | .time h m s ms => some (.time h m s ms)
  | .duration ms => some (.duration ms)
  | .decimal d => some (.decimal (amount d))
  | .bigint text => some (bigintAtom text)
  | .money a c => some (.money (amount a) c)
  | .enum v => some (.enum v.value v.typeName)
  | .flags v => some (.flags v.value v.typeName)
  | .null => some .null
  | .coroutine id => some (.coroutine id)
  | .classVal c => some (.classVal c)
  | .instanceVal i => some (.instanceVal i)
  | .vector _ | .map _ | .object _ | .list _ | .set _ | .typedArray _ _ | .function _
  | .boundMethod _ _ => none

/-- Two values denote equal values; `ident` says which function values are one function. Sets
    have the same elements and maps the same keys in any order. -/
inductive Same (ident : Setoid (Func D)) : Value D → Value D → Prop
  | atom {a b : Value D} {x : Atom} : atom? a = some x → atom? b = some x → Same ident a b
  | function {f g : Func D} : ident.r f g → Same ident (.function f) (.function g)
  | boundMethod {i : InstanceId} {f g : Func D} : ident.r f g →
      Same ident (.boundMethod i f) (.boundMethod i g)
  | vector {xs ys : List D} : xs.map denote = ys.map denote → Same ident (.vector xs) (.vector ys)
  | list {xs ys : List (Value D)} : xs.length = ys.length →
      (∀ (k : Nat) v w, xs[k]? = some v → ys[k]? = some w → Same ident v w) →
      Same ident (.list xs) (.list ys)
  | typedArray {kind : TypedArrayKind} {xs ys : List (Value D)} : xs.length = ys.length →
      (∀ (k : Nat) v w, xs[k]? = some v → ys[k]? = some w → Same ident v w) →
      Same ident (.typedArray kind xs) (.typedArray kind ys)
  | set {xs ys : List (Value D)} (f g : Value D → Value D) :
      (∀ v ∈ xs, f v ∈ ys) → (∀ v ∈ xs, Same ident v (f v)) →
      (∀ w ∈ ys, g w ∈ xs) → (∀ w ∈ ys, Same ident (g w) w) → Same ident (.set xs) (.set ys)
  | map {es fs : List (Name × Value D)} :
      (∀ key, (es.lookup key).isSome = (fs.lookup key).isSome) →
      (∀ key v w, es.lookup key = some v → fs.lookup key = some w → Same ident v w) →
      Same ident (.map es) (.map fs)
  | object {es fs : List (Name × Value D)} :
      (∀ key, (es.lookup key).isSome = (fs.lookup key).isSome) →
      (∀ key v w, es.lookup key = some v → fs.lookup key = some w → Same ident v w) →
      Same ident (.object es) (.object fs)

variable {ident : Setoid (Func D)}

namespace Same

omit [Denotes D] in
theorem middle {xs ys : List (Value D)} (hlen : xs.length = ys.length) {k : Nat} {v : Value D}
    (hv : xs[k]? = some v) : ∃ w, ys[k]? = some w := by
  have hk : k < ys.length := hlen ▸ (List.getElem?_eq_some_iff.mp hv).1
  exact ⟨_, List.getElem?_eq_getElem hk⟩

omit [Denotes D] in
theorem middleKey {es fs : List (Name × Value D)} {key : Name}
    (hkeys : (es.lookup key).isSome = (fs.lookup key).isSome) {v : Value D}
    (hv : es.lookup key = some v) : ∃ w, fs.lookup key = some w := by
  rw [hv] at hkeys
  exact Option.isSome_iff_exists.mp hkeys.symm

theorem symm {a b : Value D} (h : Same ident a b) : Same ident b a := by
  induction h with
  | atom ha hb => exact .atom hb ha
  | function hf => exact .function (ident.symm hf)
  | boundMethod hf => exact .boundMethod (ident.symm hf)
  | vector hv => exact .vector hv.symm
  | list hlen _ ih => exact .list hlen.symm fun k v w hv hw => ih k w v hw hv
  | typedArray hlen _ ih => exact .typedArray hlen.symm fun k v w hv hw => ih k w v hw hv
  | set f g hf _ hg _ ihf ihg => exact .set g f hg ihg hf ihf
  | map hkeys _ ih => exact .map (fun key => (hkeys key).symm) fun key v w hv hw => ih key w v hw hv
  | object hkeys _ ih =>
    exact .object (fun key => (hkeys key).symm) fun key v w hv hw => ih key w v hw hv

theorem trans {a b c : Value D} (h : Same ident a b) (h' : Same ident b c) : Same ident a c := by
  induction h generalizing c with
  | atom ha hb =>
    cases h' with
    | atom hb' hc =>
      rw [hb] at hb'
      cases hb'
      exact .atom ha hc
    | _ => cases hb
  | function hf =>
    cases h' with
    | atom hb _ => cases hb
    | function hg => exact .function (ident.trans hf hg)
  | boundMethod hf =>
    cases h' with
    | atom hb _ => cases hb
    | boundMethod hg => exact .boundMethod (ident.trans hf hg)
  | vector hv =>
    cases h' with
    | atom hb _ => cases hb
    | vector hw => exact .vector (hv.trans hw)
  | @list xs ys hlen _ ih =>
    cases h' with
    | atom hb _ => cases hb
    | list hlen' hitems =>
      refine .list (hlen.trans hlen') fun k v w hv hw => ?_
      obtain ⟨u, hu⟩ := middle hlen hv
      exact ih k v u hv hu (hitems k u w hu hw)
  | @typedArray kind xs ys hlen _ ih =>
    cases h' with
    | atom hb _ => cases hb
    | typedArray hlen' hitems =>
      refine .typedArray (hlen.trans hlen') fun k v w hv hw => ?_
      obtain ⟨u, hu⟩ := middle hlen hv
      exact ih k v u hv hu (hitems k u w hu hw)
  | set f g hf _ hg _ ihf ihg =>
    cases h' with
    | atom hb _ => cases hb
    | set f' g' hf' hsf hg' hsg =>
      refine .set (f' ∘ f) (g ∘ g') (fun v hv => hf' _ (hf v hv)) (fun v hv => ?_)
        (fun w hw => hg _ (hg' w hw)) fun w hw => ?_
      · exact ihf v hv (hsf _ (hf v hv))
      · exact ihg (g' w) (hg' w hw) (hsg w hw)
  | map hkeys _ ih =>
    cases h' with
    | atom hb _ => cases hb
    | map hkeys' hvals =>
      refine .map (fun key => (hkeys key).trans (hkeys' key)) fun key v w hv hw => ?_
      obtain ⟨u, hu⟩ := middleKey (hkeys key) hv
      exact ih key v u hv hu (hvals key u w hu hw)
  | object hkeys _ ih =>
    cases h' with
    | atom hb _ => cases hb
    | object hkeys' hvals =>
      refine .object (fun key => (hkeys key).trans (hkeys' key)) fun key v w hv hw => ?_
      obtain ⟨u, hu⟩ := middleKey (hkeys key) hv
      exact ih key v u hv hu (hvals key u w hu hw)

omit [Denotes D] in
theorem sizeOf_lookup {es : List (Name × Value D)} {key : Name} {v : Value D}
    (h : es.lookup key = some v) : sizeOf v < sizeOf es := by
  induction es with
  | nil => cases h
  | cons entry es ih =>
    obtain ⟨k, w⟩ := entry
    rw [List.lookup_cons] at h
    split at h
    · cases h
      simp
      omega
    · have := ih h
      simp
      omega

theorem refl : ∀ v : Value D, Same ident v v
  | .vector xs => .vector rfl
  | .function f => .function (ident.refl f)
  | .boundMethod i f => .boundMethod (ident.refl f)
  | .list xs => .list rfl fun k v w hv hw => by
    have hmem := List.mem_of_getElem? hv
    rw [hv] at hw
    cases hw
    have := List.sizeOf_lt_of_mem hmem
    exact refl v
  | .typedArray kind xs => .typedArray rfl fun k v w hv hw => by
    have hmem := List.mem_of_getElem? hv
    rw [hv] at hw
    cases hw
    have := List.sizeOf_lt_of_mem hmem
    exact refl v
  | .set xs => .set id id (fun _ h => h)
    (fun v hv => by
      have := List.sizeOf_lt_of_mem hv
      exact refl v) (fun _ h => h)
    fun v hv => by
      have := List.sizeOf_lt_of_mem hv
      exact refl v
  | .map es => .map (fun _ => rfl) fun key v w hv hw => by
    rw [hv] at hw
    cases hw
    have := sizeOf_lookup hv
    exact refl v
  | .object es => .object (fun _ => rfl) fun key v w hv hw => by
    rw [hv] at hw
    cases hw
    have := sizeOf_lookup hv
    exact refl v
  | .number _ | .integer _ | .bool _ | .string _ | .bytes _ | .uuid _ | .datetime _
  | .offsetDatetime _ _ | .date _ _ _ | .time _ _ _ _ | .duration _ | .decimal _ | .bigint _
  | .money _ _ | .enum _ | .flags _ | .null | .coroutine _ | .classVal _ | .instanceVal _ =>
    .atom rfl rfl
termination_by v => sizeOf v

theorem equivalence : Equivalence (Same ident) := ⟨refl, symm, trans⟩

end Same

end Equality

/-! Decimals and amounts. -/

theorem amount_eq_value {d : Decimal} (h : 0 ≤ d.scale) : amount d = DecimalText.value d := by
  obtain ⟨n, hn⟩ := Int.eq_ofNat_of_zero_le h
  unfold amount DecimalText.value
  rw [hn, zpow_neg, zpow_natCast, Int.toNat_natCast]
  rfl

theorem amount_eq_zero {d : Decimal} : amount d = 0 ↔ d.mantissa = 0 := by
  have hpow : (10 : ℚ) ^ (-d.scale) ≠ 0 := zpow_ne_zero _ (by norm_num)
  rw [amount, mul_eq_zero, or_iff_left hpow, Int.cast_eq_zero]

theorem normalize_of_zero {d : Decimal} (h : d.mantissa = 0) : d.normalize = ⟨0, 0⟩ := by
  by_cases hs : 0 ≤ d.scale
  · have hzero : NormalForm ⟨0, 0⟩ := ⟨le_refl _, fun h => absurd h (lt_irrefl _), fun _ => rfl⟩
    refine (DecimalText.normalize_normalForm hs).unique hzero ?_
    rw [DecimalText.value_normalize hs]
    simp [DecimalText.value, h]
  · have hpos : ¬0 < d.scale := fun hpos => hs hpos.le
    simp [Decimal.normalize, hpos, h]

theorem normalize_of_neg {d : Decimal} (hs : d.scale < 0) (h : d.mantissa ≠ 0) : d.normalize = d := by
  have hpos : ¬0 < d.scale := by omega
  simp [Decimal.normalize, hpos, h]

theorem amount_normalize (d : Decimal) : amount d.normalize = amount d := by
  by_cases h : d.mantissa = 0
  · rw [normalize_of_zero h, amount_eq_zero.mpr h]
    exact amount_eq_zero.mpr rfl
  · by_cases hs : 0 ≤ d.scale
    · rw [amount_eq_value (DecimalText.normalize_normalForm hs).scale_nonneg, amount_eq_value hs]
      exact DecimalText.value_normalize hs
    · rw [normalize_of_neg (by omega) h]

theorem normalize_eq_iff {a b : Decimal} : (a.normalize = b.normalize ↔ amount a = amount b) ↔
      (amount a = amount b → a.mantissa = 0 ∨ (0 ≤ a.scale ∧ 0 ≤ b.scale) ∨ a = b) := by
  have hsound : a.normalize = b.normalize → amount a = amount b := by
    intro h
    rw [← amount_normalize a, h, amount_normalize]
  constructor
  · intro h heq
    have hnorm := h.mpr heq
    by_cases ha : a.mantissa = 0
    · exact .inl ha
    · have hb : b.mantissa ≠ 0 := by
        intro hb
        exact ha (amount_eq_zero.mp (heq.trans (amount_eq_zero.mpr hb)))
      by_cases hsa : 0 ≤ a.scale
      · by_cases hsb : 0 ≤ b.scale
        · exact .inr (.inl ⟨hsa, hsb⟩)
        · have hform := (DecimalText.normalize_normalForm hsa).scale_nonneg
          rw [hnorm, normalize_of_neg (by omega) hb] at hform
          exact absurd hform hsb
      · by_cases hsb : 0 ≤ b.scale
        · have hform := (DecimalText.normalize_normalForm hsb).scale_nonneg
          rw [← hnorm, normalize_of_neg (by omega) ha] at hform
          exact absurd hform hsa
        · rw [normalize_of_neg (by omega) ha, normalize_of_neg (by omega) hb] at hnorm
          exact .inr (.inr hnorm)
  · refine fun h => ⟨hsound, fun heq => ?_⟩
    obtain ha | ⟨ha, hb⟩ | hab := h heq
    · have hb := amount_eq_zero.mp (heq.symm.trans (amount_eq_zero.mpr ha))
      rw [normalize_of_zero ha, normalize_of_zero hb]
    · refine (DecimalText.normalize_normalForm ha).unique (DecimalText.normalize_normalForm hb) ?_
      rw [DecimalText.value_normalize ha, DecimalText.value_normalize hb, ← amount_eq_value ha,
        ← amount_eq_value hb]
      exact heq
    · rw [hab]

theorem eq_iff_amount {a b : Decimal} :
    (a = b ↔ amount a = amount b) ↔ (amount a = amount b → a.scale = b.scale) := by
  constructor
  · exact fun h heq => congrArg Decimal.scale (h.mpr heq)
  · refine fun h => ⟨congrArg amount, fun heq => ?_⟩
    have hscale := h heq
    have hpow : (10 : ℚ) ^ (-b.scale) ≠ 0 := zpow_ne_zero _ (by norm_num)
    have hmantissa : a.mantissa = b.mantissa := by
      unfold amount at heq
      rw [hscale] at heq
      exact_mod_cast mul_right_cancel₀ hpow heq
    cases a
    cases b
    cases hmantissa
    cases hscale
    rfl

/-! `values_match`. -/

section Matches
variable {D : Type} [Denotes D] {ident : Setoid (Func D)}

def Close (x y : Ext) : Prop := ∃ p q, x = .fin p ∧ y = .fin q ∧ |p - q| < tolerance D

/-- The pairs on which the answer is right. -/
def Clear (ident : Setoid (Func D)) (a b : Value D) : Prop :=
  match a, b with
  | .bool _, .bool _ | .string _, .string _ | .bytes _, .bytes _ | .uuid _, .uuid _
  | .datetime _, .datetime _ | .offsetDatetime _ _, .offsetDatetime _ _
  | .date _ _ _, .date _ _ _ | .time _ _ _ _, .time _ _ _ _ | .duration _, .duration _
  | .enum _, .enum _ | .flags _, .flags _ => True
  | .decimal a, .decimal b =>
    amount a = amount b → a.mantissa = 0 ∨ (0 ≤ a.scale ∧ 0 ≤ b.scale) ∨ a = b
  | .bigint a, .bigint b => bigintAtom a = bigintAtom b → a = b
  | .money a c, .money b c' => c = c' → amount a = amount b → a.scale = b.scale
  | .number x, .number y => (Close (D := D) (denote x) (denote y) → denote x = denote y) ∧
      (denote x = denote y → ∃ p, denote x = .fin p)
  | .number x, .integer i | .integer i, .number x =>
    Close (D := D) (denote x) (denote (ofInt i : D)) → denote x = .fin i
  | .integer i, .integer j => denote (ofInt i : D) = denote (ofInt j : D) → i = j
  -- the rest match whenever their types do
  | a, b => typeName a = typeName b → Same ident a b

/-- The payload of an INTEGER is an `int64_t`. -/
def IsInt64 : Value D → Prop
  | .integer i => InInt64 i
  | _ => True

variable {a b : Value D}

theorem same_atom {x : Atom} (ha : atom? a = some x) : Same ident a b ↔ atom? b = some x := by
  constructor
  · intro h
    cases h with
    | atom ha' hb =>
      rw [ha] at ha'
      cases ha'
      exact hb
    | _ => cases ha
  · exact .atom ha

theorem near_close (x y : D) :
    lt (fabs (sub x y)) eps = true ↔ Close (D := D) (denote x) (denote y) := near_iff x y

theorem Close.symm {x y : Ext} (h : Close (D := D) x y) : Close (D := D) y x := by
  obtain ⟨p, q, hp, hq, h⟩ := h
  exact ⟨q, p, hq, hp, by rwa [abs_sub_comm]⟩

theorem Close.self (q : ℚ) : Close (D := D) (.fin q) (.fin q) := by
  refine ⟨q, q, rfl, rfl, ?_⟩
  rw [sub_self, abs_zero]
  exact tolerance_pos

theorem close_integers {i j : Int} (hi : InInt64 i) (hj : InInt64 j) :
    Close (D := D) (denote (ofInt i : D)) (denote (ofInt j : D)) ↔
      denote (ofInt i : D) = denote (ofInt j : D) := by
  obtain ⟨m, hm⟩ := ofInt_whole (D := D) i hi
  obtain ⟨n, hn⟩ := ofInt_whole (D := D) j hj
  rw [hm, hn]
  constructor
  · rintro ⟨p, q, hp, hq, hclose⟩
    cases hp
    cases hq
    have hlt : |(m - n : ℚ)| < 1 := lt_of_lt_of_le hclose tolerance_le
    have hint : |m - n| < 1 := by exact_mod_cast hlt
    have heq : m = n := by
      have := Int.abs_lt_one_iff.mp hint
      omega
    rw [heq]
  · intro h
    rw [h]
    exact Close.self _

theorem integers_match {i j : Int} (hi : InInt64 i) (hj : InInt64 j) :
    (valuesMatch (.integer i : Value D) (.integer j) = true ↔
      Same ident (.integer i) (.integer j)) ↔ Clear ident (.integer i) (.integer j) := by
  have hmatch : valuesMatch (.integer i : Value D) (.integer j) = true ↔
      denote (ofInt i : D) = denote (ofInt j : D) := (near_close _ _).trans (close_integers hi hj)
  have hsame : Same ident (.integer i : Value D) (.integer j) ↔ i = j := by
    rw [same_atom rfl]
    simp [atom?, eq_comm]
  rw [hmatch, hsame]
  exact ⟨fun h => h.mp, fun h => ⟨h, fun hij => by rw [hij]⟩⟩

theorem numbers_match (x y : D) :
    (valuesMatch (.number x) (.number y) = true ↔ Same ident (.number x) (.number y)) ↔
      Clear ident (.number x) (.number y) := by
  have hmatch : valuesMatch (.number x) (.number y) = true ↔
      Close (D := D) (denote x) (denote y) := near_close x y
  have hsame : Same ident (.number x) (.number y) ↔ denote x = denote y := by
    rw [same_atom rfl]
    simp [atom?, eq_comm]
  rw [hmatch, hsame]
  constructor
  · refine fun h => ⟨h.mp, fun heq => ?_⟩
    obtain ⟨p, q, hp, -⟩ := h.mpr heq
    exact ⟨p, hp⟩
  · refine fun h => ⟨h.1, fun heq => ?_⟩
    obtain ⟨p, hp⟩ := h.2 heq
    rw [← heq, hp]
    exact Close.self p

theorem integer_number_close (x : D) (i : Int) : valuesMatch (.integer i) (.number x) = true ↔
      Close (D := D) (denote x) (denote (ofInt i : D)) :=
  (near_close (ofInt i) x).trans ⟨Close.symm, Close.symm⟩

theorem number_integer_match {x : D} {i : Int} (hi : InInt64 i) :
    (Close (D := D) (denote x) (denote (ofInt i : D)) ↔ denote x = .fin i) ↔
      (Close (D := D) (denote x) (denote (ofInt i : D)) → denote x = .fin i) := by
  refine ⟨fun h => h.mp, fun h => ⟨h, fun heq => ?_⟩⟩
  rw [ofInt_value i x hi heq, heq]
  exact Close.self _

def Atom.kind : Atom → String
  | .numeric _ => "number"
  | .bool _ => "bool"
  | .string _ => "string"
  | .bytes _ => "bytes"
  | .uuid _ => "uuid"
  | .datetime _ => "datetime"
  | .offsetDatetime _ _ => "offset_datetime"
  | .date _ _ _ => "date"
  | .time _ _ _ _ => "time"
  | .duration _ => "duration"
  | .decimal _ => "decimal"
  | .bigint _ | .bigintText _ => "bigint"
  | .money _ _ => "money"
  | .enum _ _ => "enum"
  | .flags _ _ => "flags"
  | .null => "null"
  | .coroutine _ => "unknown"
  | .classVal _ => "class"
  | .instanceVal _ => "instance"

/-- The types, the two numeric ones made one. -/
def kind (a : Value D) : String := if typeName a = "int64" then "number" else typeName a

theorem atom?_kind {x : Atom} (h : atom? a = some x) : kind a = x.kind := by
  cases a with
  | bigint text =>
    cases h
    unfold bigintAtom
    cases bigintValue text with
    | none | some => rfl
  | vector | map | object | list | set | typedArray | function | boundMethod => cases h
  | _ =>
    cases h
    rfl

theorem Same.kind {a b : Value D} (h : Same ident a b) : kind a = kind b := by
  cases h with
  | atom ha hb => rw [atom?_kind ha, atom?_kind hb]
  | _ => rfl

omit [Denotes D] in
theorem typeName_integer (h : typeName a = "int64") : ∃ i, a = .integer i := by
  cases a with
  | integer i => exact ⟨i, rfl⟩
  | _ => exact absurd h (by simp [typeName])

omit [Denotes D] in
theorem typeName_number (h : typeName a = "number") : ∃ x, a = .number x := by
  cases a with
  | number x => exact ⟨x, rfl⟩
  | _ => exact absurd h (by simp [typeName])

omit [Denotes D] in
theorem kind_eq (h : kind a = kind b) : typeName a = typeName b ∨ (∃ i x, a = .integer i ∧ b = .number x) ∨
      ∃ x i, a = .number x ∧ b = .integer i := by
  unfold kind at h
  by_cases ha : typeName a = "int64"
  · by_cases hb : typeName b = "int64"
    · exact .inl (ha.trans hb.symm)
    · rw [if_pos ha, if_neg hb] at h
      obtain ⟨i, hi⟩ := typeName_integer ha
      obtain ⟨x, hx⟩ := typeName_number h.symm
      exact .inr (.inl ⟨i, x, hi, hx⟩)
  · by_cases hb : typeName b = "int64"
    · rw [if_neg ha, if_pos hb] at h
      obtain ⟨x, hx⟩ := typeName_number h
      obtain ⟨i, hi⟩ := typeName_integer hb
      exact .inr (.inr ⟨x, i, hx, hi⟩)
    · rw [if_neg ha, if_neg hb] at h
      exact .inl h

theorem atoms_match {x y : Atom} (ha : atom? a = some x) (hb : atom? b = some y) :
    (valuesMatch a b = true ↔ Same ident a b) ↔ (valuesMatch a b = true ↔ x = y) := by
  have hsame : Same ident a b ↔ x = y := by
    rw [same_atom ha, hb, Option.some.injEq]
    exact eq_comm
  rw [hsame]

theorem types_match (hmatch : valuesMatch a b = (typeName a == typeName b))
    (hmixed : (∀ i x, a = .integer i → b ≠ .number x) ∧ ∀ x i, a = .number x → b ≠ .integer i) :
    (valuesMatch a b = true ↔ Same ident a b) ↔ (typeName a = typeName b → Same ident a b) := by
  rw [hmatch, beq_iff_eq]
  refine ⟨fun h => h.mp, fun h => ⟨h, fun hsame => ?_⟩⟩
  obtain htype | ⟨i, x, hi, hx⟩ | ⟨x, i, hx, hi⟩ := kind_eq hsame.kind
  · exact htype
  · exact absurd hx (hmixed.1 i x hi)
  · exact absurd hi (hmixed.2 x i hx)

theorem decimals_match (a b : Decimal) :
    (valuesMatch (.decimal a : Value D) (.decimal b) = true ↔ Same ident (.decimal a) (.decimal b)) ↔
      Clear ident (.decimal a) (.decimal b) := by
  have hmatch : valuesMatch (.decimal a : Value D) (.decimal b) = true ↔
      a.normalize = b.normalize := beq_iff_eq
  rw [atoms_match rfl rfl, hmatch, Atom.decimal.injEq]
  exact normalize_eq_iff

theorem bigints_match (a b : String) :
    (valuesMatch (.bigint a : Value D) (.bigint b) = true ↔ Same ident (.bigint a) (.bigint b)) ↔
      Clear ident (.bigint a) (.bigint b) := by
  have hmatch : valuesMatch (.bigint a : Value D) (.bigint b) = true ↔ a = b := beq_iff_eq
  rw [atoms_match rfl rfl, hmatch]
  exact ⟨fun h => h.mpr, fun h => ⟨congrArg bigintAtom, h⟩⟩

theorem money_match (a b : Decimal) (c c' : String) :
    (valuesMatch (.money a c : Value D) (.money b c') = true ↔
      Same ident (.money a c) (.money b c')) ↔ Clear ident (.money a c) (.money b c') := by
  have hmatch : valuesMatch (.money a c : Value D) (.money b c') = true ↔ a = b ∧ c = c' := by
    simp [valuesMatch]
  rw [atoms_match rfl rfl, hmatch, Atom.money.injEq]
  by_cases hc : c = c'
  · simp only [hc, and_true]
    refine eq_iff_amount.trans ⟨fun h _ => h, fun h => h rfl⟩
  · simp only [hc, and_false, iff_self, true_iff]
    exact fun h => absurd h hc

theorem match_iff (ha : IsInt64 a) (hb : IsInt64 b) :
    (valuesMatch a b = true ↔ Same ident a b) ↔ Clear ident a b := by
  have hexact : ∀ {a b : Value D} {x y : Atom}, atom? a = some x → atom? b = some y →
      (valuesMatch a b = true ↔ x = y) → ((valuesMatch a b = true ↔ Same ident a b) ↔ True) :=
    fun ha hb h => (atoms_match ha hb).trans (iff_true_intro h)
  unfold Clear
  split
  case h_1 => exact hexact rfl rfl (by simp [valuesMatch])
  case h_2 => exact hexact rfl rfl (by simp [valuesMatch])
  case h_3 => exact hexact rfl rfl (by simp [valuesMatch])
  case h_4 => exact hexact rfl rfl (by simp [valuesMatch])
  case h_5 => exact hexact rfl rfl (by simp [valuesMatch])
  case h_6 => exact hexact rfl rfl (by simp [valuesMatch, and_comm])
  case h_7 => exact hexact rfl rfl (by simp [valuesMatch, and_assoc])
  case h_8 => exact hexact rfl rfl (by simp [valuesMatch, and_assoc])
  case h_9 => exact hexact rfl rfl (by simp [valuesMatch])
  case h_10 => exact hexact rfl rfl (by simp [valuesMatch])
  case h_11 => exact hexact rfl rfl (by simp [valuesMatch])
  case h_12 => exact decimals_match _ _
  case h_13 => exact bigints_match _ _
  case h_14 => exact money_match _ _ _ _
  case h_15 => exact numbers_match _ _
  case h_16 x i =>
    rw [atoms_match rfl rfl, Atom.numeric.injEq]
    exact (iff_congr (near_close x (ofInt i)) Iff.rfl).trans (number_integer_match hb)
  case h_17 i x =>
    rw [atoms_match rfl rfl, integer_number_close, Atom.numeric.injEq, eq_comm (a := Ext.fin (i : ℚ))]
    exact number_integer_match ha
  case h_18 => exact integers_match ha hb
  case h_19 =>
    refine types_match ?_ ⟨fun i x hi hx => ?_, fun x i hx hi => ?_⟩
    · unfold valuesMatch
      split
      all_goals first | rfl | exact absurd rfl (by tauto)
    · tauto
    · tauto

end Matches

/-! The list methods and the construction of sets. -/

section Lists
variable {D : Type} [Denotes D] {ident : Setoid (Func D)}

/-- `indexOf` of `eval_list_method`. -/
def listIndexOf (items : List (Value D)) (x : Value D) : Value D :=
  match items.findIdx? (valuesMatch · x) with
  | some i => .number (ofInt i)
  | none => .number (ofInt (-1))

/-- `contains` of `eval_list_method`. -/
def listContains (items : List (Value D)) (x : Value D) : Value D :=
  ofBool (items.any (valuesMatch · x))

def addNew (set : List (Value D)) (v : Value D) : List (Value D) :=
  if set.any (valuesMatch · v) then set else set ++ [v]

/-- `fn_set`: the items of the set. -/
def fnSet (args : List (Value D)) : List (Value D) := args.foldl addNew []

/-- The position of the first element equal to `x`, or -1. -/
structure IsIndexOf (ident : Setoid (Func D)) (items : List (Value D)) (x r : Value D) : Prop where
  first (k : Nat) (v : Value D) : items[k]? = some v → Same ident v x →
    (∀ j < k, ∀ w, items[j]? = some w → ¬Same ident w x) → r = .number (ofInt k)
  absent : (∀ v ∈ items, ¬Same ident v x) → r = .number (ofInt (-1))

structure IsContains (ident : Setoid (Func D)) (items : List (Value D)) (x r : Value D) : Prop where
  found : (∃ v ∈ items, Same ident v x) → r = ofBool true
  absent : (∀ v ∈ items, ¬Same ident v x) → r = ofBool false

structure Representatives (ident : Setoid (Func D)) (args set : List (Value D)) : Prop where
  among : ∀ v ∈ set, v ∈ args
  covers : ∀ v ∈ args, ∃ w ∈ set, Same ident w v
  distinct : set.Pairwise fun v w => ¬Same ident v w

/-- The answers on pairs of elements of `s` are right. -/
def RightOn (ident : Setoid (Func D)) (s : Value D → Prop) : Prop :=
  ∀ a b, s a → s b → (valuesMatch a b = true ↔ Same ident a b)

theorem listIndexOf_right {items : List (Value D)} {x : Value D}
    (h : ∀ v ∈ items, (valuesMatch v x = true ↔ Same ident v x)) :
    IsIndexOf ident items x (listIndexOf items x) := by
  constructor
  · intro k v hv hsame hbefore
    have hidx : items.findIdx? (valuesMatch · x) = some k := by
      obtain ⟨hk, hget⟩ := List.getElem?_eq_some_iff.mp hv
      refine List.findIdx?_eq_some_iff_getElem.mpr ⟨hk, ?_, fun j hj => ?_⟩
      · rw [hget]
        exact (h v (List.mem_of_getElem? hv)).mpr hsame
      · have hj' : j < items.length := hj.trans hk
        intro hmatch
        exact hbefore j hj _ (List.getElem?_eq_getElem hj') ((h _ (List.getElem_mem hj')).mp hmatch)
    unfold listIndexOf
    rw [hidx]
  · intro habsent
    have hidx : items.findIdx? (valuesMatch · x) = none := by
      refine List.findIdx?_eq_none_iff.mpr fun v hv => ?_
      exact Bool.eq_false_iff.mpr fun hmatch => habsent v hv ((h v hv).mp hmatch)
    unfold listIndexOf
    rw [hidx]

theorem listContains_right {items : List (Value D)} {x : Value D}
    (h : ∀ v ∈ items, (valuesMatch v x = true ↔ Same ident v x)) :
    IsContains ident items x (listContains items x) := by
  constructor
  · rintro ⟨v, hv, hsame⟩
    have hany : items.any (valuesMatch · x) = true :=
      List.any_eq_true.mpr ⟨v, hv, (h v hv).mpr hsame⟩
    rw [listContains, hany]
  · intro habsent
    have hany : items.any (valuesMatch · x) = false :=
      List.any_eq_false.mpr fun v hv hmatch => habsent v hv ((h v hv).mp hmatch)
    rw [listContains, hany]

theorem Representatives.addNew {args set : List (Value D)} {v : Value D}
    (h : Representatives ident args set)
    (hright : ∀ w ∈ args, (valuesMatch w v = true ↔ Same ident w v)) :
    Representatives ident (args ++ [v]) (addNew set v) := by
  unfold Matching.addNew
  by_cases hany : set.any (valuesMatch · v) = true
  · rw [if_pos hany]
    obtain ⟨w, hw, hmatch⟩ := List.any_eq_true.mp hany
    refine ⟨fun u hu => List.mem_append_left _ (h.among u hu), fun u hu => ?_, h.distinct⟩
    obtain hu | hu := List.mem_append.mp hu
    · exact h.covers u hu
    · rw [List.mem_singleton.mp hu]
      exact ⟨w, hw, (hright w (h.among w hw)).mp hmatch⟩
  · rw [if_neg hany]
    refine ⟨fun u hu => ?_, fun u hu => ?_, ?_⟩
    · obtain hu | hu := List.mem_append.mp hu
      · exact List.mem_append_left _ (h.among u hu)
      · exact List.mem_append_right _ hu
    · obtain hu | hu := List.mem_append.mp hu
      · obtain ⟨w, hw, hsame⟩ := h.covers u hu
        exact ⟨w, List.mem_append_left _ hw, hsame⟩
      · rw [List.mem_singleton.mp hu]
        exact ⟨v, List.mem_append_right _ (List.mem_singleton.mpr rfl), Same.refl v⟩
    · refine List.pairwise_append.mpr ⟨h.distinct, List.pairwise_singleton _ _, ?_⟩
      intro w hw u hu hsame
      rw [List.mem_singleton.mp hu] at hsame
      exact hany (List.any_eq_true.mpr ⟨w, hw, (hright w (h.among w hw)).mpr hsame⟩)

theorem Representatives.foldl : ∀ {args read set : List (Value D)},
    Representatives ident read set → RightOn ident (· ∈ read ++ args) →
    Representatives ident (read ++ args) (args.foldl Matching.addNew set)
  | [], read, set, h, _ => by
    rw [List.append_nil]
    exact h
  | v :: args, read, set, h, hright => by
    have hstep := h.addNew fun w hw =>
      hright w v (List.mem_append_left _ hw) (List.mem_append_right _ List.mem_cons_self)
    have happend : read ++ v :: args = (read ++ [v]) ++ args := by simp
    rw [happend] at hright ⊢
    exact hstep.foldl hright

theorem fnSet_right {args : List (Value D)} (h : RightOn ident (· ∈ args)) :
    Representatives ident args (fnSet args) := by
  have hempty : Representatives ident ([] : List (Value D)) [] :=
    ⟨fun _ h => h, fun _ h => absurd h List.not_mem_nil, List.Pairwise.nil⟩
  exact hempty.foldl h

/-! The pairs are recovered from lists of one and two elements. -/

theorem ofBool_ne : (ofBool true : Value D) ≠ ofBool false := by
  intro h
  have h₁ := ofInt_small (D := D) 1 (by norm_num)
  have h₀ := ofInt_small (D := D) 0 (by norm_num)
  have heq : (ofInt 1 : D) = ofInt 0 := Value.number.inj h
  rw [heq, h₀] at h₁
  exact absurd (Ext.fin.inj h₁) (by norm_num)

theorem right_of_contains {a b : Value D} (h : IsContains ident [a] b (listContains [a] b)) :
    valuesMatch a b = true ↔ Same ident a b := by
  have hvalue : listContains [a] b = ofBool (valuesMatch a b) := by simp [listContains]
  rw [hvalue] at h
  constructor
  · intro hmatch
    by_contra hne
    have habsent := h.absent fun v hv => List.mem_singleton.mp hv ▸ hne
    rw [hmatch] at habsent
    exact ofBool_ne habsent
  · intro hsame
    have hfound := h.found ⟨a, List.mem_singleton.mpr rfl, hsame⟩
    by_contra hne
    rw [Bool.eq_false_iff.mpr hne] at hfound
    exact ofBool_ne hfound.symm

theorem right_of_set {a b : Value D} (h : Representatives ident [a, b] (fnSet [a, b])) :
    valuesMatch a b = true ↔ Same ident a b := by
  have hset : fnSet [a, b] = if valuesMatch a b then [a] else [a, b] := by
    simp [fnSet, Matching.addNew]
  by_cases hmatch : valuesMatch a b = true
  · rw [hset, if_pos hmatch] at h
    obtain ⟨w, hw, hsame⟩ := h.covers b (by simp)
    rw [List.mem_singleton.mp hw] at hsame
    exact ⟨fun _ => hsame, fun _ => hmatch⟩
  · rw [hset, if_neg hmatch] at h
    have hne : ¬Same ident a b := (List.pairwise_cons.mp h.distinct).1 b (List.mem_singleton.mpr rfl)
    exact ⟨fun hm => absurd hm hmatch, fun hs => absurd hs hne⟩

end Lists

section Samples

instance : Denotes ℚ where
  toDouble := inferInstance
  denote := .fin
  tolerance := 1 / 1000000000
  tolerance_pos := by norm_num
  tolerance_le := by norm_num
  near_iff x y := by
    have habs : (fabs (sub x y) : ℚ) = |x - y| := by
      show (if x - y < 0 then -(x - y) else x - y) = |x - y|
      split
      · next h => rw [abs_of_neg h]
      · next h => rw [abs_of_nonneg (not_lt.mp h)]
    rw [habs]
    show decide (|x - y| < 1 / 1000000000) = true ↔ _
    rw [decide_eq_true_iff]
    exact ⟨fun h => ⟨x, y, rfl, rfl, h⟩, fun ⟨p, q, hp, hq, h⟩ => by
      cases hp
      cases hq
      exact h⟩
  ofInt_whole i _ := ⟨i, rfl⟩
  ofInt_value _ _ _ _ := rfl
  ofInt_small _ _ := rfl

/-- Functions are one when their data are. -/
def sameData : Setoid (Func ℚ) := ⟨Eq, eq_equivalence⟩

end Samples

end TurboScript.Exprtk.Matching
