import TurboScript.Exprtk.Value

/- Doubles with what the model relies on of them (`Ieee`): comparisons are total but for NaN,
   zero and one are told apart. `Ext`, the rationals with what a division by zero gives, is an
   instance. -/
namespace TurboScript.Exprtk

/-- Doubles. A comparison with a NaN is false; `-0` may equal `0`. -/
class Ieee (D : Type) extends Double D where
  isNan : D → Bool
  lt_nan : ∀ a b, (isNan a || isNan b) = true → lt a b = false
  le_nan : ∀ a b, (isNan a || isNan b) = true → le a b = false
  le_eq : ∀ a b, isNan a = false → isNan b = false → le a b = !lt b a
  eq_zero : eq (ofInt 0) (ofInt 0) = true
  one_ne_zero : eq (ofInt 1) (ofInt 0) = false
  zero_small : ∀ a, eq a (ofInt 0) = true → lt eps (fabs a) = false
  one_large : lt eps (fabs (ofInt 1)) = true

/-! The rationals, with what a division by zero gives. There is no `-0`. -/

inductive Ext
  | nan
  | inf (negative : Bool)
  | fin (q : ℚ)
  deriving DecidableEq

namespace Ext

def neg : Ext → Ext
  | .nan => .nan
  | .inf n => .inf !n
  | .fin q => .fin (-q)

def add : Ext → Ext → Ext
  | .nan, _ | _, .nan => .nan
  | .inf n, .inf m => if n = m then .inf n else .nan
  | .inf n, .fin _ | .fin _, .inf n => .inf n
  | .fin a, .fin b => .fin (a + b)

/-- The sign of a product; zero counts as positive. -/
def negative : Ext → Bool
  | .nan => false
  | .inf n => n
  | .fin q => decide (q < 0)

def mul : Ext → Ext → Ext
  | .nan, _ | _, .nan => .nan
  | .fin a, .fin b => .fin (a * b)
  | a, b => if a = .fin 0 ∨ b = .fin 0 then .nan else .inf (a.negative != b.negative)

def div : Ext → Ext → Ext
  | .nan, _ | _, .nan | .inf _, .inf _ => .nan
  | .fin _, .inf _ => .fin 0
  | .inf n, .fin b => .inf (n != decide (b < 0))
  | .fin a, .fin b => if b = 0 then (if a = 0 then .nan else .inf (decide (a < 0))) else .fin (a / b)

def fmod : Ext → Ext → Ext
  | .nan, _ | _, .nan | .inf _, _ => .nan
  | .fin a, .inf _ => .fin a
  | .fin a, .fin b => if b = 0 then .nan else .fin (Double.fmod a b)

def lt : Ext → Ext → Bool
  | .nan, _ | _, .nan => false
  | .inf n, .inf m => n && !m
  | .inf n, .fin _ => n
  | .fin _, .inf m => !m
  | .fin a, .fin b => decide (a < b)

def le : Ext → Ext → Bool
  | .nan, _ | _, .nan => false
  | a, b => !lt b a

def eq : Ext → Ext → Bool
  | .nan, _ => false
  | a, b => decide (a = b)

def fabs : Ext → Ext
  | .nan => .nan
  | .inf _ => .inf false
  | .fin q => .fin |q|

end Ext

/-- `pow`, under which the rationals are not closed. -/
class PowFn where
  pow : Ext → Ext → Ext

instance [PowFn] : Ieee Ext where
  ofInt i := .fin i
  toInt
    | .fin q => truncate q
    | _ => 0
  add := Ext.add
  sub a b := Ext.add a b.neg
  mul := Ext.mul
  div := Ext.div
  fmod := Ext.fmod
  pow := PowFn.pow
  neg := Ext.neg
  fabs := Ext.fabs
  eq := Ext.eq
  lt := Ext.lt
  le := Ext.le
  eps := .fin (1 / 1000000000)
  tiny := .fin (1 / 1000000000000000)
  format
    | .nan => "nan"
    | .inf n => if n then "-inf" else "inf"
    | .fin q => Double.format q
  isNan
    | .nan => true
    | _ => false
  lt_nan a b hn := by cases a <;> cases b <;> simp_all [Ext.lt]
  le_nan a b hn := by cases a <;> cases b <;> simp_all [Ext.le]
  le_eq a b ha hb := by cases a <;> cases b <;> simp_all [Ext.le]
  eq_zero := by decide
  one_ne_zero := by decide
  zero_small a ha := by
    have h0 : a = .fin 0 := by
      cases a with
      | nan => cases ha
      | inf n => exact of_decide_eq_true ha
      | fin q => simpa [Ext.eq] using ha
    subst h0
    decide +kernel
  one_large := by decide +kernel

/-- Integral powers of rationals, for the instances to run on. -/
def powInt : Ext → Ext → Ext
  | .fin a, .fin b => if b.den = 1 then .fin (a ^ b.num) else .nan
  | _, _ => .nan

end TurboScript.Exprtk
