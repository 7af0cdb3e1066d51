import Mathlib.Data.Rat.Floor
import TurboScript.Exprtk.Value

/- Market rules (`market_rules.c`): what an order may be, the rounding of quantities, the
   clamping of prices and the commission. Numbers are rationals. -/
namespace TurboScript.Fin

/-- `universe_market_rules_t`, the fields the functions below read. -/
structure Rules where
  lotSizeDefault : ℚ
  fractionalAllowed : Bool
  tPlus : Nat
  hasPriceLimit : Bool
  priceLimitUp : ℚ
  priceLimitDn : ℚ
  shortAllowed : Bool
  commissionRate : ℚ
  minCommission : ℚ
  stampDuty : ℚ
  sessionOpen : ℚ
  sessionClose : ℚ
  hasLunchBreak : Bool
  lunchStart : ℚ
  lunchEnd : ℚ

def marketUsEquity : Rules where
  lotSizeDefault := 1
  fractionalAllowed := false
  tPlus := 0
  hasPriceLimit := false
  priceLimitUp := 0
  priceLimitDn := 0
  shortAllowed := true
  commissionRate := 0.0005
  minCommission := 1
  stampDuty := 0
  sessionOpen := 9.5
  sessionClose := 16
  hasLunchBreak := false
  lunchStart := 0
  lunchEnd := 0

def marketCnAstock : Rules where
  lotSizeDefault := 100
  fractionalAllowed := false
  tPlus := 1
  hasPriceLimit := true
  priceLimitUp := 0.10
  priceLimitDn := 0.10
  shortAllowed := false
  commissionRate := 0.0003
  minCommission := 5
  stampDuty := 0.001
  sessionOpen := 9.5
  sessionClose := 15
  hasLunchBreak := true
  lunchStart := 11.5
  lunchEnd := 13

inductive OrderError
  | ok
  | tPlus
  | lotSize
  | priceLimit
  | noShort
  | marketClosed
  | assetInactive
  | zeroQty
  | margin
  deriving DecidableEq, Repr

inductive Direction
  | buy
  | sell
  deriving DecidableEq, Repr

def Direction.sign : Direction → ℚ
  | .buy => 1
  | .sell => -1

/-- `1e-9`. -/
def tolerance : ℚ := 1 / 1000000000

def fmod (a b : ℚ) : ℚ := a - b * Exprtk.truncate (a / b)

/-- `session_open_check`; a negative time skips it. -/
def sessionOpenCheck (rules : Rules) (t : ℚ) : Bool :=
  if t < 0 then true
  else if t < rules.sessionOpen ∨ rules.sessionClose ≤ t then false
  else !(rules.hasLunchBreak && decide (rules.lunchStart ≤ t) && decide (t < rules.lunchEnd))

def validateSell (rules : Rules) (quantity currentPos boughtToday : ℚ) : OrderError :=
  if currentPos < quantity ∧ !rules.shortAllowed then .noShort
  else if 1 ≤ rules.tPlus ∧ currentPos - boughtToday + tolerance < quantity then .tPlus
  else .ok

/-- The checks made of every order, after those of its side. -/
def validatePriceAndLot (rules : Rules) (price quantity prevClose : ℚ) : OrderError :=
  if rules.hasPriceLimit ∧ 0 < prevClose ∧
      (prevClose * (1 + rules.priceLimitUp) < price ∨ price < prevClose * (1 - rules.priceLimitDn)) then
    .priceLimit
  else if !rules.fractionalAllowed ∧ 0 < rules.lotSizeDefault ∧
      tolerance < fmod quantity rules.lotSizeDefault then .lotSize
  else .ok

def marketValidateOrder (rules : Option Rules) (assetActive : Bool) (price quantity : ℚ)
    (direction : Direction) (prevClose currentPos boughtToday sessionTime : ℚ) : OrderError :=
  match rules with
  | none => .ok
  | some rules =>
    if !assetActive then .assetInactive
    else if quantity ≤ 0 then .zeroQty
    else if !sessionOpenCheck rules sessionTime then .marketClosed
    else
      let side := match direction with
        | .sell => validateSell rules quantity currentPos boughtToday
        | .buy => .ok
      if side ≠ .ok then side else validatePriceAndLot rules price quantity prevClose

def marketRoundLot (rules : Option Rules) (quantity : ℚ) : ℚ :=
  match rules with
  | none => quantity
  | some rules =>
    if rules.fractionalAllowed ∨ rules.lotSizeDefault ≤ 0 then quantity
    else ⌊quantity / rules.lotSizeDefault⌋ * rules.lotSizeDefault

def marketClampPrice (rules : Option Rules) (price prevClose : ℚ) : ℚ :=
  match rules with
  | none => price
  | some rules =>
    if !rules.hasPriceLimit ∨ prevClose ≤ 0 then price
    else
      let upper := prevClose * (1 + rules.priceLimitUp)
      let lower := prevClose * (1 - rules.priceLimitDn)
      let price := if upper < price then upper else price
      if price < lower then lower else price

/-- `market_commission`; the stamp duty is on sells. -/
def marketCommission (rules : Option Rules) (notional : ℚ) (direction : Direction) : ℚ :=
  match rules with
  | none => 0
  | some rules =>
    let comm := notional * rules.commissionRate
    let comm := if comm < rules.minCommission then rules.minCommission else comm
    if direction = .sell ∧ 0 < rules.stampDuty then comm + notional * rules.stampDuty else comm

end TurboScript.Fin
