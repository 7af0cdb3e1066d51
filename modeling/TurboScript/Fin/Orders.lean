import TurboScript.Fin.Market

/- The order manager (`order_manager.c`).

   1. Positions, orders and the manager. A slot of the position table with asset id 0 is empty.
   2. Fills: `executeFill` validates, `applyFill` changes the position, the cash and the trades.
   3. The operations. Each also gives the events a history is made of: orders that are submitted
      or linked, fills, the status an order is given. What a live executor answers is an argument.

   Allocations succeed. The equity curve and the executor's own writes are left out. -/
namespace TurboScript.Fin

abbrev AssetId := Nat
abbrev OrderId := Nat

inductive OrderType
  | limit
  | stop
  deriving DecidableEq, Repr

inductive OrderStatus
  | pending
  | filled
  | rejected
  | cancelled
  | expired
  deriving DecidableEq, Repr

structure Order where
  id : OrderId
  assetId : AssetId
  type : OrderType
  direction : Direction
  quantity : ℚ
  limitPrice : ℚ := 0
  stopPrice : ℚ := 0
  stopLoss : ℚ
  takeProfit : ℚ
  ocoLinkId : Nat := 0
  /-- -1 is good till cancelled, otherwise the bars left. -/
  barsValid : Int
  status : OrderStatus := .pending
  fillPrice : ℚ := 0
  fillDate : ℚ := 0

structure TradeRecord where
  assetId : AssetId
  direction : Int
  entryPrice : ℚ
  exitPrice : ℚ
  quantity : ℚ
  entryDate : ℚ
  exitDate : ℚ
  commission : ℚ
  pnl : ℚ
  pnlPct : ℚ

structure Position where
  assetId : AssetId := 0
  position : ℚ := 0
  avgEntryPrice : ℚ := 0
  entryDate : ℚ := 0
  boughtToday : ℚ := 0
  stopLoss : ℚ := 0
  takeProfit : ℚ := 0
  trailingDist : ℚ := 0
  trailingIsPct : Bool := false
  trailingPeak : ℚ := 0
  unrealizedPnl : ℚ := 0

/-- `order_manager_t`. `live` says that an executor is registered. -/
structure Manager where
  rules : Option Rules
  positions : List Position
  pending : List Order := []
  trades : List TradeRecord := []
  cash : ℚ
  equity : ℚ
  initialCash : ℚ
  slippagePct : ℚ := 0.0005
  spread : ℚ := 0
  nextOrderId : Nat := 1
  currentDate : ℚ := 0
  live : Bool := false

def create (rules : Option Rules) (cash0 : ℚ) (assetCap : Nat) : Manager where
  rules := rules
  positions := List.replicate assetCap {}
  cash := cash0
  equity := cash0
  initialCash := cash0

/-! Fills. -/

def findPosition (m : Manager) (a : AssetId) : Option Nat :=
  m.positions.findIdx? fun p => p.assetId == a && p.position != 0

def lookup (f : Position → ℚ) (ps : List Position) (a : AssetId) : ℚ :=
  match ps.find? fun p => p.assetId == a with
  | some p => f p
  | none => 0

def position (m : Manager) (a : AssetId) : ℚ := lookup Position.position m.positions a

def findOrCreatePosition (m : Manager) (a : AssetId) : Option (Manager × Nat × Position) :=
  match m.positions.findIdx? fun p => p.assetId == a with
  | some i => some (m, i, m.positions.getD i {})
  | none =>
    match m.positions.findIdx? fun p => p.assetId == 0 with
    | some i => some ({ m with positions := m.positions.set i { assetId := a } }, i, { assetId := a })
    | none => none

def applySlippage (m : Manager) (price : ℚ) (d : Direction) : ℚ :=
  price + d.sign * (price * m.slippagePct + m.spread)

def recordTrade (a : AssetId) (direction : Int) (entryPrice exitPrice quantity entryDate exitDate
    commission : ℚ) : TradeRecord :=
  let pnl := direction * (exitPrice - entryPrice) * quantity - commission
  let notional := entryPrice * quantity
  ⟨a, direction, entryPrice, exitPrice, quantity, entryDate, exitDate, commission, pnl,
    if tolerance < notional then pnl / notional else 0⟩

def Position.buy (p : Position) (quantity fillPrice date stopLoss takeProfit : ℚ) : Position :=
  { p with
    position := p.position + quantity
    avgEntryPrice :=
      if tolerance < p.position + quantity then
        (p.avgEntryPrice * |p.position| + fillPrice * quantity) / (p.position + quantity)
      else fillPrice
    boughtToday := p.boughtToday + quantity
    entryDate := if p.entryDate = 0 then date else p.entryDate
    stopLoss := if 0 < stopLoss then stopLoss else p.stopLoss
    takeProfit := if 0 < takeProfit then takeProfit else p.takeProfit }

def Position.closeQty (p : Position) (quantity : ℚ) : ℚ :=
  if quantity < |p.position| then quantity else |p.position|

/-- A remainder of at most `1e-9` is closed with the rest. -/
def Position.closes (p : Position) (quantity : ℚ) : Bool :=
  decide (|p.position| - tolerance ≤ p.closeQty quantity)

def Position.sell (p : Position) (quantity : ℚ) : Position :=
  if p.closes quantity then
    { p with position := 0, avgEntryPrice := 0, entryDate := 0, stopLoss := 0, takeProfit := 0 }
  else
    { p with position :=
        p.position - (if 0 < p.position then p.closeQty quantity else -p.closeQty quantity) }

def Position.side (p : Position) : Int := if 0 < p.position then 1 else -1

/-- `apply_fill` on slot `i`, which holds `p`. -/
def applyFill (m : Manager) (i : Nat) (p : Position) (d : Direction)
    (quantity fillPrice comm stopLoss takeProfit : ℚ) : Manager :=
  match d with
  | .buy =>
    { m with
      cash := m.cash - comm - fillPrice * quantity
      positions := m.positions.set i (p.buy quantity fillPrice m.currentDate stopLoss takeProfit) }
  | .sell =>
    { m with
      cash := m.cash - comm + fillPrice * p.closeQty quantity
      positions := m.positions.set i (p.sell quantity)
      trades := m.trades ++ [recordTrade p.assetId p.side p.avgEntryPrice fillPrice
        (if p.closes quantity then |p.position| else p.closeQty quantity) p.entryDate m.currentDate
        comm] }

inductive Outcome
  | rejected (e : OrderError)
  | accepted (price commission : ℚ)

/-- `execute_fill`. A sell is validated as if nothing had been bought in the session. -/
def executeFill (m : Manager) (a : AssetId) (d : Direction)
    (quantity execPrice prevClose stopLoss takeProfit : ℚ) : Manager × Outcome :=
  match findOrCreatePosition m a with
  | none => (m, .rejected .assetInactive)
  | some (m', i, p) =>
    let boughtToday := if d = .buy then p.boughtToday else 0
    let err := marketValidateOrder m.rules true execPrice quantity d prevClose p.position boughtToday (-1)
    if err ≠ .ok then (m', .rejected err)
    else
      let fillPrice := applySlippage m execPrice d
      let comm := marketCommission m.rules (fillPrice * quantity) d
      (applyFill m' i p d quantity fillPrice comm stopLoss takeProfit, .accepted fillPrice comm)

structure Attempt where
  assetId : AssetId
  direction : Direction
  quantity : ℚ
  outcome : Outcome
  before : Manager
  after : Manager

def attempt (m : Manager) (a : AssetId) (d : Direction)
    (quantity execPrice prevClose stopLoss takeProfit : ℚ) : Attempt :=
  let r := executeFill m a d quantity execPrice prevClose stopLoss takeProfit
  ⟨a, d, quantity, r.2, m, r.1⟩

/-! Operations. -/

inductive Event
  | submitted (id : OrderId) (a : AssetId) (barsValid : Int)
  /-- A bar of the asset, with the pending orders whose price it meets in a backtest. -/
  | bar (a : AssetId) (met : List OrderId)
  /-- A fill is attempted, for the pending order if there is one. -/
  | attempt (order : Option OrderId) (t : Attempt)
  /-- An order is given another status, or the same one again. -/
  | status (id : OrderId) (old new : OrderStatus)
  | linked (id₁ id₂ : OrderId)

def beginBar (m : Manager) (date : ℚ) : Manager :=
  let m := { m with currentDate := date }
  match m.rules with
  | some rules =>
    if 1 ≤ rules.tPlus then
      { m with positions := m.positions.map fun p => { p with boughtToday := 0 } }
    else m
  | none => m

def isPending (o : Order) : Bool := o.status == .pending

def expireOrder (a : AssetId) (o : Order) : Order :=
  if o.assetId = a ∧ isPending o then
    if o.barsValid = 0 then { o with status := .expired }
    else if 0 < o.barsValid then { o with barsValid := o.barsValid - 1 }
    else o
  else o

def expires (a : AssetId) (o : Order) : Bool :=
  o.assetId == a && isPending o && o.barsValid == 0

def triggerPrice (o : Order) (high low : ℚ) : Option ℚ :=
  match o.type, o.direction with
  | .limit, .buy => if low ≤ o.limitPrice then some o.limitPrice else none
  | .limit, .sell => if o.limitPrice ≤ high then some o.limitPrice else none
  | .stop, .buy => if o.stopPrice ≤ high then some o.stopPrice else none
  | .stop, .sell => if low ≤ o.stopPrice then some o.stopPrice else none

def meets (a : AssetId) (high low : ℚ) (o : Order) : Bool :=
  o.assetId == a && isPending o && (triggerPrice o high low).isSome

def expireOrders (m : Manager) (a : AssetId) (high low : ℚ) : Manager × List Event :=
  let pending := m.pending.map (expireOrder a)
  let met := if m.live then [] else (pending.filter (meets a high low)).map Order.id
  ({ m with pending := pending },
    .bar a met :: (m.pending.filter (expires a)).map fun o => .status o.id o.status .expired)

def trail (p : Position) (high low : ℚ) : Position :=
  if 0 < p.trailingDist then
    if 0 < p.position ∧ p.trailingPeak < high then
      let newSl := if p.trailingIsPct then high * (1 - p.trailingDist) else high - p.trailingDist
      { p with trailingPeak := high, stopLoss := if p.stopLoss < newSl then newSl else p.stopLoss }
    else if ¬0 < p.position ∧ low < p.trailingPeak then
      let newSl := if p.trailingIsPct then low * (1 + p.trailingDist) else low + p.trailingDist
      { p with
        trailingPeak := low
        stopLoss := if p.stopLoss = 0 ∨ newSl < p.stopLoss then newSl else p.stopLoss }
    else p
  else p

def exitLevel (p : Position) (high low : ℚ) : Option ℚ :=
  if 0 < p.stopLoss ∧ (if 0 < p.position then low ≤ p.stopLoss else p.stopLoss ≤ high) then
    some p.stopLoss
  else if 0 < p.takeProfit ∧ (if 0 < p.position then p.takeProfit ≤ high else low ≤ p.takeProfit) then
    some p.takeProfit
  else none

def close (m : Manager) (a : AssetId) (execPrice : ℚ) : Manager × List Event :=
  match findPosition m a with
  | none => (m, [])
  | some i =>
    let p := m.positions.getD i {}
    let d := if 0 < p.position then .sell else .buy
    if m.live then ({ m with nextOrderId := m.nextOrderId + 1 }, [])
    else
      let t := attempt m a d |p.position| execPrice 0 0 0
      (t.after, [.attempt none t])

def cancelLinked (link : Nat) (os : List Order) : List Order × List Event :=
  if 0 < link then
    (os.map fun o => if o.ocoLinkId = link ∧ isPending o then { o with status := .cancelled } else o,
      (os.filter fun o => o.ocoLinkId == link && isPending o).map fun o => .status o.id o.status .cancelled)
  else (os, [])

/-- The order at `i` meets the bar. Whatever the fill attempt gives, the order is filled. -/
def matchOrder (m : Manager) (a : AssetId) (high low prevClose : ℚ) (i : Nat) : Manager × List Event :=
  match m.pending[i]? with
  | none => (m, [])
  | some o =>
    if o.assetId ≠ a ∨ !isPending o then (m, [])
    else
      match triggerPrice o high low with
      | none => (m, [])
      | some price =>
        let price := marketClampPrice m.rules price prevClose
        let t := attempt m a o.direction o.quantity price prevClose o.stopLoss o.takeProfit
        let o' := { o with status := .filled, fillPrice := price, fillDate := m.currentDate }
        let linked := cancelLinked o.ocoLinkId (m.pending.set i o')
        ({ t.after with pending := linked.1 },
          .attempt (some o.id) t :: .status o.id o.status .filled :: linked.2)

/-- The orders from `i` on, `n` of them. -/
def matchOrders (m : Manager) (a : AssetId) (high low prevClose : ℚ) : Nat → Nat → Manager × List Event
  | _, 0 => (m, [])
  | i, n + 1 =>
    let (m, es) := matchOrder m a high low prevClose i
    let (m, es') := matchOrders m a high low prevClose (i + 1) n
    (m, es ++ es')

def compact (m : Manager) : Manager := { m with pending := m.pending.filter isPending }

def checkTriggers (m : Manager) (a : AssetId) (high low prevClose : ℚ) : Manager × List Event :=
  let (m, es) := expireOrders m a high low
  if m.live then (m, es)
  else
    let rest (m : Manager) : Manager × List Event :=
      let (m, es') := matchOrders m a high low prevClose 0 m.pending.length
      (compact m, es ++ es')
    match findPosition m a with
    | none => rest m
    | some i =>
      let p := trail (m.positions.getD i {}) high low
      let m := { m with positions := m.positions.set i p }
      match exitLevel p high low with
      | some level =>
        let (m, es') := close m a (marketClampPrice m.rules level prevClose)
        (m, es ++ es')
      | none => rest m

/-- A buy that the cash does not pay for is made smaller. -/
def affordable (m : Manager) (d : Direction) (quantity execPrice : ℚ) : ℚ :=
  let cost := quantity * execPrice * (1 + m.slippagePct) + m.spread
  if d = .buy ∧ m.cash < cost then
    marketRoundLot m.rules (m.cash / (execPrice * (1 + m.slippagePct)))
  else quantity

def market (m : Manager) (a : AssetId) (d : Direction) (fraction execPrice prevClose stopLoss
    takeProfit : ℚ) : Manager × List Event :=
  if fraction ≤ 0 ∨ execPrice ≤ 0 then (m, [])
  else
    let fraction := min fraction 1
    let quantity := marketRoundLot m.rules (m.equity * fraction / execPrice)
    if quantity ≤ 0 then (m, [])
    else
      let quantity := affordable m d quantity execPrice
      if quantity ≤ 0 then (m, [])
      else if m.live then ({ m with nextOrderId := m.nextOrderId + 1 }, [])
      else
        let t := attempt m a d quantity execPrice prevClose stopLoss takeProfit
        (t.after, [.attempt none t])

/-- An order is queued, unless a live executor refuses it. -/
def submit (m : Manager) (order : OrderId → Order) (answer : OrderError) : Manager × List Event :=
  let o := order m.nextOrderId
  let m := { m with nextOrderId := m.nextOrderId + 1 }
  if m.live ∧ answer ≠ .ok then (m, [])
  else ({ m with pending := m.pending ++ [o] }, [.submitted o.id o.assetId o.barsValid])

def limit (m : Manager) (a : AssetId) (d : Direction) (fraction limitPrice stopLoss takeProfit : ℚ)
    (barsValid : Int) (answer : OrderError) : Manager × List Event :=
  let quantity := marketRoundLot m.rules (m.equity * fraction / limitPrice)
  if quantity ≤ 0 then (m, [])
  else
    submit m (fun id =>
        { id := id
          assetId := a
          type := .limit
          direction := d
          quantity := quantity
          limitPrice := limitPrice
          stopLoss := stopLoss
          takeProfit := takeProfit
          barsValid := barsValid })
      answer

def stop (m : Manager) (a : AssetId) (d : Direction) (fraction stopPrice stopLoss takeProfit : ℚ)
    (barsValid : Int) (answer : OrderError) : Manager × List Event :=
  let quantity := marketRoundLot m.rules (m.equity * fraction / stopPrice)
  if quantity ≤ 0 then (m, [])
  else
    submit m (fun id =>
        { id := id
          assetId := a
          type := .stop
          direction := d
          quantity := quantity
          stopPrice := stopPrice
          stopLoss := stopLoss
          takeProfit := takeProfit
          barsValid := barsValid })
      answer

/-- The fill that an executor reports; it is not validated. -/
def reported (m : Manager) (a : AssetId) (d : Direction)
    (quantity price stopLoss takeProfit : ℚ) : Attempt :=
  match findOrCreatePosition m a with
  | none => ⟨a, d, quantity, .rejected .assetInactive, m, m⟩
  | some (m', i, p) =>
    let comm := marketCommission m.rules (price * quantity) d
    ⟨a, d, quantity, .accepted price comm, m, applyFill m' i p d quantity price comm stopLoss takeProfit⟩

/-- The first order with the id is filled, whatever its status. -/
def markFilled (m : Manager) (id : OrderId) (price : ℚ) : Manager × List Event :=
  match if 0 < id then m.pending.findIdx? fun o => o.id == id else none with
  | some i =>
    let o := m.pending.getD i ⟨0, 0, .limit, .buy, 0, 0, 0, 0, 0, 0, 0, .pending, 0, 0⟩
    let o' := { o with status := .filled, fillPrice := price, fillDate := m.currentDate }
    ({ m with pending := m.pending.set i o' }, [.status id o.status .filled])
  | none => (m, [])

def reportFill (m : Manager) (id : OrderId) (a : AssetId) (d : Direction)
    (quantity price stopLoss takeProfit : ℚ) : Manager × List Event :=
  let (m, es) := markFilled m id price
  let t := reported m a d quantity price stopLoss takeProfit
  (t.after, .attempt (some id) t :: es)

def setSlTp (m : Manager) (a : AssetId) (stopLoss takeProfit : ℚ) : Manager :=
  match findPosition m a with
  | none => m
  | some i =>
    let p := m.positions.getD i {}
    { m with positions := m.positions.set i { p with
        stopLoss := if 0 < stopLoss then stopLoss else p.stopLoss
        takeProfit := if 0 < takeProfit then takeProfit else p.takeProfit } }

def setTrailingStop (m : Manager) (a : AssetId) (distance : ℚ) (isPct : Bool) : Manager :=
  match findPosition m a with
  | none => m
  | some i =>
    let p := m.positions.getD i {}
    { m with positions := m.positions.set i { p with
        trailingDist := distance, trailingIsPct := isPct, trailingPeak := p.avgEntryPrice } }

/-- `order_manager_link_oco`: a later link takes the place of an earlier one. -/
def linkOco (m : Manager) (id₁ id₂ : OrderId) : Manager × List Event :=
  let link := m.nextOrderId
  ({ m with
      nextOrderId := m.nextOrderId + 1
      pending := m.pending.map fun o =>
        if o.id = id₁ ∨ o.id = id₂ then { o with ocoLinkId := link } else o },
    [.linked id₁ id₂])

/-- `order_manager_cancel_order`: the first order with the id, whatever its status. -/
def cancelOrder (m : Manager) (id : OrderId) : Manager × List Event :=
  match m.pending.findIdx? fun o => o.id == id with
  | some i =>
    let o := m.pending.getD i ⟨0, 0, .limit, .buy, 0, 0, 0, 0, 0, 0, 0, .pending, 0, 0⟩
    (compact { m with pending := m.pending.set i { o with status := .cancelled } },
      [.status id o.status .cancelled])
  | none => (compact m, [])

/-- `order_manager_cancel_pending`: the orders of the asset, whatever their status. -/
def cancelPending (m : Manager) (a : AssetId) : Manager × List Event :=
  (compact { m with pending := m.pending.map fun o =>
      if o.assetId = a then { o with status := .cancelled } else o },
    (m.pending.filter fun o => o.assetId == a).map fun o => .status o.id o.status .cancelled)

/-- The value of the positions with a price; the loop stops at the shorter of table and prices. -/
def positionsValue (m : Manager) (prices : List (AssetId × ℚ)) : ℚ :=
  ((m.positions.take prices.length).map fun p =>
    if p.position = 0 ∨ p.assetId = 0 then 0
    else match prices.lookup p.assetId with
      | some price => price * p.position
      | none => 0).sum

def mark (prices : List (AssetId × ℚ)) (p : Position) : Position :=
  if p.position = 0 ∨ p.assetId = 0 then p
  else match prices.lookup p.assetId with
    | some price => { p with unrealizedPnl := price * p.position - p.avgEntryPrice * |p.position| }
    | none => p

def markToMarket (m : Manager) (prices : List (AssetId × ℚ)) : Manager :=
  { m with
    positions :=
      (m.positions.take prices.length).map (mark prices) ++ m.positions.drop prices.length
    equity := m.cash + positionsValue m prices }

inductive Op
  | beginBar (date : ℚ)
  | checkTriggers (a : AssetId) (high low prevClose : ℚ)
  | market (a : AssetId) (d : Direction) (fraction execPrice prevClose stopLoss takeProfit : ℚ)
  | limit (a : AssetId) (d : Direction) (fraction limitPrice stopLoss takeProfit : ℚ)
      (barsValid : Int) (answer : OrderError)
  | stop (a : AssetId) (d : Direction) (fraction stopPrice stopLoss takeProfit : ℚ)
      (barsValid : Int) (answer : OrderError)
  | close (a : AssetId) (execPrice : ℚ)
  | reportFill (id : OrderId) (a : AssetId) (d : Direction) (quantity price stopLoss takeProfit : ℚ)
  | setSlTp (a : AssetId) (stopLoss takeProfit : ℚ)
  | setTrailingStop (a : AssetId) (distance : ℚ) (isPct : Bool)
  | linkOco (id₁ id₂ : OrderId)
  | cancelOrder (id : OrderId)
  | cancelPending (a : AssetId)
  | markToMarket (prices : List (AssetId × ℚ))

def perform (m : Manager) : Op → Manager × List Event
  | .beginBar date => (beginBar m date, [])
  | .checkTriggers a high low prevClose => checkTriggers m a high low prevClose
  | .market a d fraction execPrice prevClose stopLoss takeProfit =>
    market m a d fraction execPrice prevClose stopLoss takeProfit
  | .limit a d fraction limitPrice stopLoss takeProfit barsValid answer =>
    limit m a d fraction limitPrice stopLoss takeProfit barsValid answer
  | .stop a d fraction stopPrice stopLoss takeProfit barsValid answer =>
    stop m a d fraction stopPrice stopLoss takeProfit barsValid answer
  | .close a execPrice => close m a execPrice
  | .reportFill id a d quantity price stopLoss takeProfit =>
    reportFill m id a d quantity price stopLoss takeProfit
  | .setSlTp a stopLoss takeProfit => (setSlTp m a stopLoss takeProfit, [])
  | .setTrailingStop a distance isPct => (setTrailingStop m a distance isPct, [])
  | .linkOco id₁ id₂ => linkOco m id₁ id₂
  | .cancelOrder id => cancelOrder m id
  | .cancelPending a => cancelPending m a
  | .markToMarket prices => (markToMarket m prices, [])

def setUp (rules : Option Rules) (cash0 : ℚ) (assetCap : Nat) (slippagePct spread : ℚ)
    (live : Bool) : Manager :=
  { create rules cash0 assetCap with slippagePct := slippagePct, spread := spread, live := live }

def history (m : Manager) : List Op → Manager × List Event
  | [] => (m, [])
  | op :: ops =>
    let r := perform m op
    let r' := history r.1 ops
    (r'.1, r.2 ++ r'.2)

end TurboScript.Fin
