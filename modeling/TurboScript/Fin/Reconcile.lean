import TurboScript.Fin.Overdraft

/- Realized profit against cash, over whole backtests.

   1. `Holding`: average-cost accounting of one asset, on its own terms.
   2. `Trading`: what an operation does to cash, trades, positions and entry prices: attempts
      carried out by `executeFill`, and changes that leave these alone (`history_trading`).
   3. `Attempt.Clean`, and what a clean attempt does to the accounts (`Reckoned`).
   4. `profit_reconciles`. The commission of a buy is paid from the cash but never comes to a trade
      record, so the profits of a flat account exceed its gain by the commissions of its buys. -/
namespace TurboScript.Fin

/-! Average-cost accounting. -/

structure Holding where
  shares : ℚ := 0
  cost : ℚ := 0

def Holding.buy (h : Holding) (quantity price : ℚ) : Holding :=
  ⟨h.shares + quantity, h.cost + price * quantity⟩

/-- No more is sold than is held; what is sold takes its part of the cost along. -/
def Holding.sell (h : Holding) (quantity : ℚ) : Holding :=
  ⟨h.shares - min quantity h.shares, h.cost - h.cost / h.shares * min quantity h.shares⟩

/-- What an attempt makes of the holding of `a`. -/
def Holding.book (a : AssetId) (h : Holding) (t : Attempt) : Holding :=
  match t.outcome, t.direction with
  | .accepted price _, .buy => if t.assetId = a then h.buy t.quantity price else h
  | .accepted _ _, .sell => if t.assetId = a then h.sell t.quantity else h
  | .rejected _, _ => h

/-- The holding of `a` after the attempts. -/
def holding (ts : List Attempt) (a : AssetId) : Holding := ts.foldl (Holding.book a) {}

def Attempt.entryCommission (t : Attempt) : ℚ :=
  match t.outcome, t.direction with
  | .accepted _ commission, .buy => commission
  | _, _ => 0

/-! What operations do to the accounts. -/

def entryPrice (m : Manager) (a : AssetId) : ℚ := lookup Position.avgEntryPrice m.positions a

def Position.entryCost (p : Position) : ℚ := p.avgEntryPrice * p.position

structure SameAccounts (m m' : Manager) : Prop where
  cash : m'.cash = m.cash
  trades : m'.trades = m.trades
  positions : m'.positions.map (fun p => (p.assetId, p.position, p.avgEntryPrice)) =
    m.positions.map (fun p => (p.assetId, p.position, p.avgEntryPrice))

/-- The attempt is one of `executeFill`. -/
def Attempt.Executed (t : Attempt) : Prop :=
  ∃ execPrice prevClose stopLoss takeProfit, t = attempt t.before t.assetId t.direction t.quantity
    execPrice prevClose stopLoss takeProfit

inductive Trading : Manager → List Event → Manager → Prop
  | quiet {m m' : Manager} {es : List Event} (h : SameAccounts m m') (hes : attempts es = []) :
      Trading m es m'
  | fill {t : Attempt} (order : Option OrderId) (h : t.Executed) (hq : 0 < t.quantity) :
      Trading t.before [.attempt order t] t.after
  | seq {m m' m'' : Manager} {es es' : List Event} (h : Trading m es m') (h' : Trading m' es' m'') :
      Trading m (es ++ es') m''

theorem SameAccounts.refl (m : Manager) : SameAccounts m m := ⟨rfl, rfl, rfl⟩

theorem map_set_same {β : Type} {f : Position → β} {ps : List Position} {i : Nat} {p' : Position}
    (h : f p' = f (ps.getD i {})) : (ps.set i p').map f = ps.map f := by
  by_cases hi : i < ps.length
  · rw [List.getD_eq_getElem _ _ hi] at h
    rw [List.map_set, h]
    apply List.ext_getElem (by simp)
    intro j hj _
    rw [List.getElem_set]
    split
    · next hij =>
      subst hij
      rw [List.getElem_map]
    · rfl
  · rw [List.set_eq_of_length_le (not_lt.1 hi)]

section Operations
variable {m : Manager}

theorem sameAccounts_set {i : Nat} {p' : Position} (hid : p'.assetId = (m.positions.getD i {}).assetId)
    (hposition : p'.position = (m.positions.getD i {}).position)
    (havg : p'.avgEntryPrice = (m.positions.getD i {}).avgEntryPrice) :
    SameAccounts m { m with positions := m.positions.set i p' } :=
  ⟨rfl, rfl, map_set_same (by simp only [hid, hposition, havg])⟩

theorem trading_none (m : Manager) : Trading m [] m := .quiet (.refl m) rfl

theorem executed_attempt (m : Manager) (a : AssetId) (d : Direction)
    (q execPrice prevClose stopLoss takeProfit : ℚ) :
    (attempt m a d q execPrice prevClose stopLoss takeProfit).Executed :=
  ⟨execPrice, prevClose, stopLoss, takeProfit, rfl⟩

theorem close_trading (a : AssetId) (execPrice : ℚ) :
    Trading m (close m a execPrice).2 (close m a execPrice).1 := by
  unfold close
  split
  · exact trading_none m
  · next i hi =>
    dsimp only
    split
    · exact .quiet ⟨rfl, rfl, rfl⟩ rfl
    · exact .fill none (executed_attempt ..) (abs_pos.2 (findPosition_ne hi))

theorem market_trading (a : AssetId) (d : Direction)
    (fraction execPrice prevClose stopLoss takeProfit : ℚ) :
    Trading m (market m a d fraction execPrice prevClose stopLoss takeProfit).2
      (market m a d fraction execPrice prevClose stopLoss takeProfit).1 := by
  unfold market
  dsimp only
  split
  · exact trading_none m
  split
  · exact trading_none m
  split
  · exact trading_none m
  next hq =>
  split
  · exact .quiet ⟨rfl, rfl, rfl⟩ rfl
  · exact .fill none (executed_attempt ..) (not_le.1 hq)

theorem submit_trading (order : OrderId → Order) (answer : OrderError) :
    Trading m (submit m order answer).2 (submit m order answer).1 := by
  unfold submit
  dsimp only
  split <;> exact .quiet ⟨rfl, rfl, rfl⟩ rfl

theorem matchOrder_trading (hm : Sized m) (a : AssetId) (high low prevClose : ℚ) (i : Nat) :
    Trading m (matchOrder m a high low prevClose i).2 (matchOrder m a high low prevClose i).1 := by
  unfold matchOrder
  cases ho : m.pending[i]? with
  | none => exact trading_none m
  | some o =>
    dsimp only
    split
    · exact trading_none m
    · cases hprice : triggerPrice o high low with
      | none => exact trading_none m
      | some price =>
        have hq : 0 < o.quantity := hm o (List.mem_of_getElem? ho)
        -- the fill, then the status of the order and of those linked to it
        exact .seq (.fill (some o.id) (executed_attempt ..) hq)
          (.quiet ⟨rfl, rfl, rfl⟩ (cancelLinked_attempts _ _))

theorem matchOrders_trading (a : AssetId) (high low prevClose : ℚ) (n : Nat) :
    ∀ (m : Manager) (i : Nat), Sized m → Trading m (matchOrders m a high low prevClose i n).2
        (matchOrders m a high low prevClose i n).1 := by
  induction n with
  | zero => intro m i _; exact trading_none m
  | succ n ih =>
    intro m i hm
    exact .seq (matchOrder_trading hm a high low prevClose i)
      (ih _ (i + 1) (matchOrder_works hm a high low prevClose i).2)

theorem trail_avgEntryPrice (p : Position) (high low : ℚ) :
    (trail p high low).avgEntryPrice = p.avgEntryPrice := by
  unfold trail
  split
  · split
    · rfl
    · split <;> rfl
  · rfl

theorem checkTriggers_trading (hm : Sized m) (a : AssetId) (high low prevClose : ℚ) :
    Trading m (checkTriggers m a high low prevClose).2 (checkTriggers m a high low prevClose).1 := by
  have hexpire : Trading m (expireOrders m a high low).2 (expireOrders m a high low).1 :=
    .quiet ⟨rfl, rfl, rfl⟩ (attempts_status _ _)
  have hsized := (expireOrders_works hm a high low).2
  have hrest : ∀ m', Sized m' → Trading m' (matchOrders m' a high low prevClose 0 m'.pending.length).2
      (compact (matchOrders m' a high low prevClose 0 m'.pending.length).1) := by
    intro m' hm'
    have hcompact : Trading (matchOrders m' a high low prevClose 0 m'.pending.length).1 []
        (compact (matchOrders m' a high low prevClose 0 m'.pending.length).1) :=
      .quiet ⟨rfl, rfl, rfl⟩ rfl
    have h := Trading.seq (matchOrders_trading a high low prevClose _ m' 0 hm') hcompact
    rwa [List.append_nil] at h
  unfold checkTriggers
  dsimp only
  split
  · exact hexpire
  · cases hi : findPosition (expireOrders m a high low).1 a with
    | none => exact .seq hexpire (hrest _ hsized)
    | some i =>
      dsimp only
      obtain ⟨hid, hposition, _⟩ :=
        trail_keeps ((expireOrders m a high low).1.positions.getD i {}) high low
      have hsame := sameAccounts_set (i := i) hid hposition (trail_avgEntryPrice _ high low)
      have hquiet : attempts [] = [] := rfl
      have htrail := Trading.seq hexpire (.quiet hsame hquiet)
      rw [List.append_nil] at htrail
      cases hexit : exitLevel (trail ((expireOrders m a high low).1.positions.getD i {}) high low)
          high low with
      | some level => exact .seq htrail (close_trading a _)
      | none => exact .seq htrail (hrest _ hsized)

theorem markToMarket_trading (prices : List (AssetId × ℚ)) : Trading m [] (markToMarket m prices) := by
  refine .quiet ⟨rfl, rfl, ?_⟩ rfl
  show (List.map _ (m.positions.take prices.length) ++ m.positions.drop prices.length).map _ = _
  have hcomp : (fun p : Position => (p.assetId, p.position, p.avgEntryPrice)) ∘ mark prices =
      fun p => (p.assetId, p.position, p.avgEntryPrice) := by
    funext p
    simp only [Function.comp_apply]
    unfold mark
    split
    · rfl
    · split <;> rfl
  rw [List.map_append, List.map_map, hcomp, ← List.map_append, List.take_append_drop]

theorem perform_trading (hm : Sized m) {op : Op} (hreport : op.isReport = false) :
    Trading m (perform m op).2 (perform m op).1 := by
  cases op with
  | beginBar date =>
    refine .quiet ?_ rfl
    simp only [perform, beginBar]
    split
    · split
      · exact ⟨rfl, rfl, by simp [Function.comp_def]⟩
      · exact ⟨rfl, rfl, rfl⟩
    · exact ⟨rfl, rfl, rfl⟩
  | checkTriggers a high low prevClose => exact checkTriggers_trading hm a high low prevClose
  | market a d fraction execPrice prevClose stopLoss takeProfit =>
    exact market_trading a d fraction execPrice prevClose stopLoss takeProfit
  | limit a d fraction limitPrice stopLoss takeProfit barsValid answer =>
    simp only [perform, limit]
    split
    · exact trading_none m
    · exact submit_trading _ answer
  | stop a d fraction stopPrice stopLoss takeProfit barsValid answer =>
    simp only [perform, stop]
    split
    · exact trading_none m
    · exact submit_trading _ answer
  | close a execPrice => exact close_trading a execPrice
  | reportFill id a d quantity price stopLoss takeProfit => cases hreport
  | setSlTp a stopLoss takeProfit =>
    simp only [perform, setSlTp]
    split
    · exact trading_none m
    · exact .quiet (sameAccounts_set rfl rfl rfl) rfl
  | setTrailingStop a distance isPct =>
    simp only [perform, setTrailingStop]
    split
    · exact trading_none m
    · exact .quiet (sameAccounts_set rfl rfl rfl) rfl
  | linkOco id₁ id₂ => exact .quiet ⟨rfl, rfl, rfl⟩ rfl
  | cancelOrder id =>
    simp only [perform, cancelOrder]
    split <;> exact .quiet ⟨rfl, rfl, rfl⟩ rfl
  | cancelPending a => exact .quiet ⟨rfl, rfl, rfl⟩ (attempts_status _ _)
  | markToMarket prices => exact markToMarket_trading prices

end Operations

theorem perform_sized {m : Manager} (hm : Sized m) {op : Op} (hreport : op.isReport = false) :
    Sized (perform m op).1 := by
  by_cases hbar : op.isBar = true
  · cases op with
    | beginBar date =>
      show ∀ o ∈ (beginBar m date).pending, 0 < o.quantity
      rw [beginBar_pending]
      exact hm
    | _ => cases hbar
  · exact (perform_works hm hreport (by simpa using hbar)).2

theorem history_trading {ops : List Op} {m : Manager} (hm : Sized m)
    (hops : ∀ op ∈ ops, op.isReport = false) : Trading m (history m ops).2 (history m ops).1 := by
  induction ops generalizing m with
  | nil => exact trading_none m
  | cons op ops ih =>
    obtain ⟨hop, hrest⟩ := List.forall_mem_cons.1 hops
    exact .seq (perform_trading hm hop) (ih (perform_sized hm hop) hrest)

/-! Clean attempts. -/

/-- A buy is not lost in the tolerance, a sell is of the whole holding or leaves more than the
tolerance, and an asset without a slot is met only while nothing is held under id 0. -/
structure Attempt.Clean (t : Attempt) : Prop where
  buy : t.isAccepted = true → t.direction = .buy →
    position t.before t.assetId = 0 ∨ tolerance < position t.before t.assetId + t.quantity
  sell : t.isAccepted = true → t.direction = .sell →
    position t.before t.assetId ≤ t.quantity ∨ t.quantity + tolerance < position t.before t.assetId
  slot : hasSlot t.before.positions t.assetId = true ∨ position t.before 0 = 0

instance (t : Attempt) : Decidable t.Clean :=
  decidable_of_iff ((t.isAccepted = true → t.direction = .buy →
        position t.before t.assetId = 0 ∨ tolerance < position t.before t.assetId + t.quantity) ∧
      (t.isAccepted = true → t.direction = .sell → position t.before t.assetId ≤ t.quantity ∨
          t.quantity + tolerance < position t.before t.assetId) ∧
      (hasSlot t.before.positions t.assetId = true ∨ position t.before 0 = 0))
    ⟨fun h => ⟨h.1, h.2.1, h.2.2⟩, fun h => ⟨h.buy, h.sell, h.slot⟩⟩

theorem executed_cases {t : Attempt} (h : t.Executed) : (t.isAccepted = false ∧ t.after = t.before) ∨
    ∃ l q p r, Booked t.before.positions t.assetId l q p r ∧
      ((t.isAccepted = false ∧ t.after = { t.before with positions := l ++ p :: r }) ∨
        ∃ price comm stopLoss takeProfit, t.outcome = .accepted price comm ∧
          t.after = applyFill { t.before with positions := l ++ p :: r } l.length p t.direction
            t.quantity price comm stopLoss takeProfit) := by
  obtain ⟨execPrice, prevClose, stopLoss, takeProfit, he⟩ := h
  by_cases hacc : t.isAccepted = true
  · right
    have hacc' := hacc
    rw [he] at hacc'
    obtain ⟨m', i, p, hslot, hafter, hout⟩ := attempt_accepted hacc'
    obtain ⟨l, q, r, hbooked, rfl, rfl⟩ := findOrCreatePosition_cases hslot
    rw [← he] at hafter hout
    exact ⟨l, q, p, r, hbooked, .inr ⟨_, _, stopLoss, takeProfit, hout, hafter⟩⟩
  · have hrej : t.isAccepted = false := by simpa using hacc
    have hcases : Attempted t := by
      rw [he]
      exact attempt_cases ..
    cases hcases with
    | noSlot e full outcome after => exact .inl ⟨hrej, after⟩
    | rejected e l q p r slot outcome after => exact .inr ⟨l, q, p, r, slot, .inl ⟨hrej, after⟩⟩
    | accepted price comm l q p r slot outcome applied => simp [Attempt.isAccepted, outcome] at hrej

section Slots
variable {f : Position → ℚ} {ps l r : List Position} {q p p' : Position} {a : AssetId}

theorem Booked.sum_after (h : Booked ps a l q p r) (hf : f { assetId := a } = 0)
    (hzero : hasSlot ps a = true ∨ lookup f ps 0 = 0) :
    ((l ++ p' :: r).map f).sum = (ps.map f).sum - f p + f p' := by
  have hq : f q = f p := by
    rcases h.old with hq | ⟨hid, hp, hnone, hl⟩
    · rw [hq]
    · have hslot : hasSlot ps a = false := by simpa [hasSlot] using hnone
      have hfirst : lookup f ps 0 = f q := by
        rw [h.split, lookup_append hl, lookup_cons_self hid]
      rcases hzero with hslot' | hzero
      · rw [hslot] at hslot'
        cases hslot'
      · rw [hp, hf, ← hfirst, hzero]
  rw [h.split]
  simp only [List.map_append, List.map_cons, List.sum_append, List.sum_cons, hq]
  ring

theorem Booked.lookup_written (h : Booked ps a l q p r) (hs : Slots f ps)
    (hid : p'.assetId = a) (hzero : hasSlot ps a = true ∨ lookup f ps 0 = 0) (b : AssetId) :
    lookup f (l ++ p' :: r) b = if b = a then f p' else lookup f ps b := by
  by_cases hb : b = a
  · rw [if_pos hb, hb, h.lookup_after hid]
  · rw [if_neg hb]
    exact (h.others_iff hs hid).2 hzero b hb

theorem buy_entryCost {quantity price date stopLoss takeProfit : ℚ} (hp : 0 ≤ p.position)
    (hbig : p.position = 0 ∨ tolerance < p.position + quantity) :
    (p.buy quantity price date stopLoss takeProfit).entryCost = p.entryCost + price * quantity := by
  have htol := tolerance_pos
  simp only [Position.entryCost, Position.buy]
  split
  · next hlt =>
    rw [abs_of_nonneg hp, div_mul_cancel₀ _ (by linarith : p.position + quantity ≠ 0)]
  · next hlt =>
    rcases hbig with hzero | hbig
    · rw [hzero]
      ring
    · exact absurd hbig hlt

theorem sell_clean {quantity : ℚ} (hp : 0 ≤ p.position) (hq : 0 < quantity)
    (hclean : p.position ≤ quantity ∨ quantity + tolerance < p.position) :
    p.closeQty quantity = min quantity p.position ∧
      (if p.closes quantity then |p.position| else p.closeQty quantity) = min quantity p.position ∧
      (p.sell quantity).position = p.position - min quantity p.position ∧
      (p.sell quantity).entryCost = p.entryCost - p.avgEntryPrice * min quantity p.position := by
  have htol := tolerance_pos
  have habs := abs_of_nonneg hp
  rcases hclean with hle | hlt
  · have hmin : min quantity p.position = p.position := min_eq_right hle
    have hqty : p.closeQty quantity = p.position := by
      rw [Position.closeQty, habs, if_neg (not_lt.2 hle)]
    have hcloses : p.closes quantity = true := by
      simp [Position.closes, hqty, habs, htol.le]
    rw [hmin]
    refine ⟨hqty, by rw [if_pos hcloses, habs], ?_, ?_⟩
    · simp [Position.sell, hcloses]
    · simp [Position.sell, hcloses, Position.entryCost]
  · have hmin : min quantity p.position = quantity := min_eq_left (by linarith)
    have hqty : p.closeQty quantity = quantity := by
      rw [Position.closeQty, habs, if_pos (by linarith)]
    have hcloses : p.closes quantity = false := by
      simp only [Position.closes, hqty, habs, decide_eq_false_iff_not]
      linarith
    have hpos : 0 < p.position := by linarith
    rw [hmin]
    refine ⟨hqty, by rw [hcloses]; exact hqty, ?_, ?_⟩
    · simp [Position.sell, hcloses, hqty, hpos]
    · simp only [Position.sell, hcloses, hqty, hpos, if_true, Position.entryCost]
      simp only [Bool.false_eq_true, if_false]
      ring

end Slots

/-- The accounts after the attempts `ts`, of a manager that began with `cash0`. -/
structure Reckoned (cash0 : ℚ) (ts : List Attempt) (m : Manager) : Prop where
  slots : Slots Position.position m.positions
  costSlots : Slots Position.entryCost m.positions
  held : ∀ p ∈ m.positions, 0 ≤ p.position
  shares : ∀ a, (holding ts a).shares = position m a
  cost : ∀ a, (holding ts a).cost = lookup Position.entryCost m.positions a
  profit : m.cash + (m.positions.map Position.entryCost).sum =
    cash0 + (m.trades.map TradeRecord.pnl).sum - (ts.map Attempt.entryCommission).sum

theorem lookup_entryCost (ps : List Position) (a : AssetId) : lookup Position.entryCost ps a =
    lookup Position.avgEntryPrice ps a * lookup Position.position ps a := by
  induction ps with
  | nil => simp [lookup]
  | cons p ps ih =>
    by_cases hp : p.assetId = a
    · rw [lookup_cons_self hp, lookup_cons_self hp, lookup_cons_self hp]
      rfl
    · rw [lookup_cons_ne hp, lookup_cons_ne hp, lookup_cons_ne hp, ih]

section Reckoning
variable {cash0 : ℚ} {ts ts' : List Attempt} {m m' : Manager}

theorem Reckoned.same (h : Reckoned cash0 ts m) (hs : SameAccounts m m') : Reckoned cash0 ts m' := by
  have hmap : ∀ f : AssetId × ℚ × ℚ → ℚ,
      m'.positions.map (fun p => (p.assetId, f (p.assetId, p.position, p.avgEntryPrice))) =
        m.positions.map fun p => (p.assetId, f (p.assetId, p.position, p.avgEntryPrice)) := by
    intro f
    have := congrArg (List.map fun v => (v.1, f v)) hs.positions
    simpa [Function.comp_def] using this
  have hposition := hmap fun v => v.2.1
  have hcost := hmap fun v => v.2.2 * v.2.1
  refine ⟨h.slots.congr hposition, h.costSlots.congr hcost, ?_, ?_, ?_, ?_⟩
  · intro p hp
    have hmem : (p.assetId, p.position) ∈ m'.positions.map fun p => (p.assetId, p.position) :=
      List.mem_map_of_mem hp
    rw [hposition] at hmem
    obtain ⟨p₀, hp₀, he⟩ := List.mem_map.1 hmem
    have hsame : p₀.position = p.position := congrArg Prod.snd he
    rw [← hsame]
    exact h.held p₀ hp₀
  · intro a
    rw [h.shares, position, position, lookup_congr hposition]
  · intro a
    exact (h.cost a).trans (lookup_congr hcost).symm
  · have hsum : m'.positions.map Position.entryCost = m.positions.map Position.entryCost := by
      have := congrArg (List.map Prod.snd) hcost
      show m'.positions.map (fun p => p.avgEntryPrice * p.position) =
        m.positions.map fun p => p.avgEntryPrice * p.position
      simpa [Function.comp_def] using this
    rw [hs.cash, hs.trades, hsum]
    exact h.profit

theorem Reckoned.write {a : AssetId} {l r : List Position} {q p p' : Position}
    (h : Reckoned cash0 ts m) (hb : Booked m.positions a l q p r)
    (hzero : hasSlot m.positions a = true ∨ position m 0 = 0)
    (hps : m'.positions = l ++ p' :: r) (hid : p'.assetId = a) (hheld : 0 ≤ p'.position)
    (hother : ∀ b, b ≠ a → holding ts' b = holding ts b)
    (hshares : (holding ts' a).shares = p'.position)
    (hcost : (holding ts' a).cost = p'.entryCost)
    (hprofit : m'.cash - m.cash + (p'.entryCost - p.entryCost) =
      (m'.trades.map TradeRecord.pnl).sum - (m.trades.map TradeRecord.pnl).sum -
        ((ts'.map Attempt.entryCommission).sum - (ts.map Attempt.entryCommission).sum)) :
    Reckoned cash0 ts' m' := by
  have hzero' : hasSlot m.positions a = true ∨ lookup Position.entryCost m.positions 0 = 0 := by
    rcases hzero with hslot | hzero
    · exact .inl hslot
    · right
      rw [lookup_entryCost, show lookup Position.position m.positions 0 = 0 from hzero, mul_zero]
  refine ⟨?_, ?_, ?_, ?_, ?_, ?_⟩
  · rw [hps]
    exact hb.slots_after h.slots hid
  · rw [hps]
    exact hb.slots_after h.costSlots hid
  · intro x hx
    rw [hps] at hx
    rcases List.mem_append.1 hx with hx | hx
    · exact h.held x (by rw [hb.split]; exact List.mem_append_left _ hx)
    · rcases List.mem_cons.1 hx with rfl | hx
      · exact hheld
      · exact h.held x (by rw [hb.split]; simp [hx])
  · intro b
    rw [position, hps, hb.lookup_written h.slots hid hzero]
    by_cases hba : b = a
    · rw [if_pos hba, hba, hshares]
    · rw [if_neg hba, hother b hba, h.shares]
      rfl
  · intro b
    rw [hps, hb.lookup_written h.costSlots hid hzero']
    by_cases hba : b = a
    · rw [if_pos hba, hba, hcost]
    · rw [if_neg hba, hother b hba, h.cost]
  · have hsum : (m'.positions.map Position.entryCost).sum =
        (m.positions.map Position.entryCost).sum - p.entryCost + p'.entryCost := by
      rw [hps]
      exact hb.sum_after (by simp [Position.entryCost]) hzero'
    have hbefore := h.profit
    rw [hsum]
    linarith

theorem holding_append (t : Attempt) (a : AssetId) : holding (ts ++ [t]) a = (holding ts a).book a t := by
  simp [holding]

theorem entryCommission_append (t : Attempt) : ((ts ++ [t]).map Attempt.entryCommission).sum =
    (ts.map Attempt.entryCommission).sum + t.entryCommission := by
  simp

theorem book_rejected {t : Attempt} (h : t.isAccepted = false) (a : AssetId) (b : Holding) :
    b.book a t = b ∧ t.entryCommission = 0 := by
  cases hout : t.outcome with
  | accepted price comm => simp [Attempt.isAccepted, hout] at h
  | rejected e => simp [Holding.book, Attempt.entryCommission, hout]

theorem book_other {t : Attempt} {a : AssetId} (h : a ≠ t.assetId) (b : Holding) : b.book a t = b := by
  have hne : t.assetId ≠ a := fun e => h e.symm
  cases hout : t.outcome with
  | accepted price comm => cases hd : t.direction <;> simp [Holding.book, hout, hd, hne]
  | rejected e => simp [Holding.book, hout]

theorem Reckoned.fill {t : Attempt} (h : Reckoned cash0 ts t.before) (he : t.Executed)
    (hq : 0 < t.quantity) (hclean : t.Clean) : Reckoned cash0 (ts ++ [t]) t.after := by
  have hother : ∀ b, b ≠ t.assetId → holding (ts ++ [t]) b = holding ts b := by
    intro b hb
    rw [holding_append, book_other hb]
  rcases executed_cases he with ⟨hrej, hafter⟩ | ⟨l, q, p, r, hb, ⟨hrej, hafter⟩ | ⟨price, comm,
      stopLoss, takeProfit, hout, hafter⟩⟩
  · rw [hafter]
    have hnone := fun a => (book_rejected hrej a (holding ts a)).1
    have hcomm := (book_rejected hrej 0 {}).2
    refine ⟨h.slots, h.costSlots, h.held, ?_, ?_, ?_⟩
    · intro a
      rw [holding_append, hnone, h.shares]
    · intro a
      rw [holding_append, hnone, h.cost]
    · rw [entryCommission_append, hcomm, add_zero]
      exact h.profit
  all_goals
    have hown : position t.before t.assetId = p.position := hb.lookup_before rfl
    have hcostOwn : lookup Position.entryCost t.before.positions t.assetId = p.entryCost :=
      hb.lookup_before (by simp [Position.entryCost])
    have hshares := h.shares t.assetId
    have hcost := h.cost t.assetId
    rw [hown] at hshares
    rw [hcostOwn] at hcost
    have hheld : 0 ≤ p.position := by
      rcases hb.old with hqp | ⟨_, hp, _, _⟩
      · exact h.held p (by rw [hb.split, hqp]; simp)
      · rw [hp]
  · have hnone := (book_rejected hrej t.assetId (holding ts t.assetId)).1
    have hcomm := (book_rejected hrej 0 {}).2
    refine h.write hb hclean.slot (by rw [hafter]) hb.id hheld hother ?_ ?_ ?_
    · rw [holding_append, hnone, hshares]
    · rw [holding_append, hnone, hcost]
    · rw [entryCommission_append, hcomm, hafter]
      ring
  · have hacc : t.isAccepted = true := by simp [Attempt.isAccepted, hout]
    cases hd : t.direction with
    | buy =>
      have hbig := hclean.buy hacc hd
      rw [hown] at hbig
      rw [hd] at hafter
      have hbook : (holding ts t.assetId).book t.assetId t =
          (holding ts t.assetId).buy t.quantity price := by
        simp [Holding.book, hout, hd]
      have hentry : (p.buy t.quantity price t.before.currentDate stopLoss takeProfit).entryCost =
          p.entryCost + price * t.quantity := buy_entryCost hheld hbig
      have hslot : t.after.positions = l ++ p.buy t.quantity price t.before.currentDate stopLoss
          takeProfit :: r := by
        rw [hafter]
        exact set_slot _
      refine h.write hb hclean.slot hslot hb.id ?_ hother ?_ ?_ ?_
      · exact add_nonneg hheld hq.le
      · rw [holding_append, hbook]
        show (holding ts t.assetId).shares + t.quantity = p.position + t.quantity
        rw [hshares]
      · rw [holding_append, hbook, hentry]
        show (holding ts t.assetId).cost + price * t.quantity = _
        rw [hcost]
      · have hcomm : t.entryCommission = comm := by simp [Attempt.entryCommission, hout, hd]
        rw [entryCommission_append, hcomm, hentry, hafter]
        simp only [applyFill]
        ring
    | sell =>
      have hsize := hclean.sell hacc hd
      rw [hown] at hsize
      rw [hd] at hafter
      obtain ⟨hqty, hrecord, hposition, hentry⟩ := sell_clean hheld hq hsize
      have hbook : (holding ts t.assetId).book t.assetId t = (holding ts t.assetId).sell t.quantity := by
        simp [Holding.book, hout, hd]
      have hleft : 0 ≤ p.position - min t.quantity p.position :=
        sub_nonneg.2 (min_le_right ..)
      refine h.write hb hclean.slot (by rw [hafter]; exact set_slot _)
        (sell_assetId.trans hb.id) (by rw [hposition]; exact hleft) hother ?_ ?_ ?_
      · rw [holding_append, hbook, hposition]
        show (holding ts t.assetId).shares - min t.quantity (holding ts t.assetId).shares = _
        rw [hshares]
      · rw [holding_append, hbook, hentry]
        show (holding ts t.assetId).cost - (holding ts t.assetId).cost /
          (holding ts t.assetId).shares * min t.quantity (holding ts t.assetId).shares = _
        rw [hshares, hcost]
        by_cases hzero : p.position = 0
        · have hmin : min t.quantity p.position = 0 := by rw [hzero, min_eq_right hq.le]
          rw [hmin]
          ring
        · rw [Position.entryCost, mul_div_cancel_right₀ _ hzero]
      · have hcomm : t.entryCommission = 0 := by simp [Attempt.entryCommission, hout, hd]
        have hside : ((p.side : ℤ) : ℚ) * (price - p.avgEntryPrice) * min t.quantity p.position =
            (price - p.avgEntryPrice) * min t.quantity p.position := by
          by_cases hpos : 0 < p.position
          · simp [Position.side, hpos]
          · have hmin : min t.quantity p.position = 0 := by
              rw [le_antisymm (not_lt.1 hpos) hheld, min_eq_right hq.le]
            rw [hmin, mul_zero, mul_zero]
        have hpnl : (recordTrade p.assetId p.side p.avgEntryPrice price
            (min t.quantity p.position) p.entryDate t.before.currentDate comm).pnl =
              (price - p.avgEntryPrice) * min t.quantity p.position - comm := by
          simp only [recordTrade]
          rw [hside]
        rw [entryCommission_append, hcomm, hentry, hafter]
        simp only [applyFill]
        rw [hrecord, hqty, List.map_append, List.sum_append]
        simp only [List.map_cons, List.map_nil, List.sum_cons, List.sum_nil, hpnl]
        ring

theorem Reckoned.trading {es : List Event} (h : Trading m es m') :
    ∀ ts, Reckoned cash0 ts m → (∀ t ∈ attempts es, t.Clean) → Reckoned cash0 (ts ++ attempts es) m' := by
  induction h with
  | quiet hs hes =>
    intro ts hr _
    rw [hes, List.append_nil]
    exact hr.same hs
  | fill order he hq =>
    intro ts hr hclean
    exact hr.fill he hq (hclean _ (List.mem_singleton_self _))
  | seq _ _ ih ih' =>
    intro ts hr hclean
    rw [attempts_append, List.forall_mem_append] at hclean
    rw [attempts_append, ← List.append_assoc]
    exact ih' _ (ih ts hr hclean.1) hclean.2

end Reckoning

theorem setUp_reckoned (rules : Option Rules) (cash0 : ℚ) (assetCap : Nat) (slippagePct spread : ℚ) :
    Reckoned cash0 [] (setUp rules cash0 assetCap slippagePct spread false) where
  slots := setUp_slots Position.position rfl rules cash0 assetCap slippagePct spread false
  costSlots := setUp_slots Position.entryCost (by simp [Position.entryCost]) rules cash0 assetCap
    slippagePct spread false
  held p hp := by rw [List.eq_of_mem_replicate hp]
  shares a := (setUp_position Position.position rfl rules cash0 assetCap slippagePct spread false a).symm
  cost a := (setUp_position Position.entryCost (by simp [Position.entryCost]) rules cash0 assetCap
    slippagePct spread false a).symm
  profit := by
    have hsum : ((List.replicate assetCap ({} : Position)).map Position.entryCost).sum = 0 := by
      simp [Position.entryCost]
    show cash0 + ((List.replicate assetCap ({} : Position)).map Position.entryCost).sum = _
    rw [hsum]
    show cash0 + 0 = cash0 + 0 - 0
    ring

/-- What average-cost accounting expects of a manager after the attempts `ts`: its entry prices are
those of the shares held, and its recorded profits are its gain once every position is zero. -/
structure Reconciles (cash0 : ℚ) (m : Manager) (ts : List Attempt) : Prop where
  entryCost : ∀ a, entryPrice m a * position m a = (holding ts a).cost ∧
    position m a = (holding ts a).shares
  profit : (∀ p ∈ m.positions, p.position = 0) →
    (m.trades.map TradeRecord.pnl).sum = m.cash - cash0

/-- A backtest of clean attempts reconciles exactly if its buys have paid no commission by the time
every position is zero. -/
theorem profit_reconciles {rules : Option Rules} {cash0 : ℚ} {assetCap : Nat}
    {slippagePct spread : ℚ} {ops : List Op} {m : Manager} {es : List Event}
    (hrun : history (setUp rules cash0 assetCap slippagePct spread false) ops = (m, es))
    (hops : ∀ op ∈ ops, op.isReport = false) (hclean : ∀ t ∈ attempts es, t.Clean) :
    Reconciles cash0 m (attempts es) ↔ ((∀ p ∈ m.positions, p.position = 0) →
        ((attempts es).map Attempt.entryCommission).sum = 0) := by
  have hsized : Sized (setUp rules cash0 assetCap slippagePct spread false) := by
    intro o ho
    cases ho
  have htrading := history_trading hsized hops
  rw [hrun] at htrading
  have h := Reckoned.trading htrading [] (setUp_reckoned rules cash0 assetCap slippagePct spread) hclean
  rw [List.nil_append] at h
  have hgain : (∀ p ∈ m.positions, p.position = 0) → m.cash = cash0 +
      (m.trades.map TradeRecord.pnl).sum - ((attempts es).map Attempt.entryCommission).sum := by
    intro hflat
    have hzero : (m.positions.map Position.entryCost).sum = 0 := by
      apply List.sum_eq_zero
      intro x hx
      obtain ⟨p, hp, rfl⟩ := List.mem_map.1 hx
      rw [Position.entryCost, hflat p hp, mul_zero]
    have hprofit := h.profit
    rwa [hzero, add_zero] at hprofit
  apply Iff.intro
  · intro hrec hflat
    have hprofit := hrec.profit hflat
    have hcash := hgain hflat
    linarith
  · intro hfree
    refine ⟨?_, ?_⟩
    · intro a
      refine ⟨?_, (h.shares a).symm⟩
      rw [h.cost a, lookup_entryCost]
      rfl
    · intro hflat
      have hcash := hgain hflat
      rw [hfree hflat] at hcash
      linarith

/-- Two buys, a partial sell and a close, in a market without commission. -/
def roundTrip : List Op :=
  [.market 1 .buy (1 / 2) 10 10 0 0, .market 1 .buy (1 / 4) 20 20 0 0, .market 1 .sell (1 / 8) 30 30 0 0,
    .close 1 40]

theorem profit_reconciles_roundTrip : Reconciles 1000 (history (setUp none 1000 4 0 0 false) roundTrip).1
        (attempts (history (setUp none 1000 4 0 0 false) roundTrip).2) ↔
      ((∀ p ∈ (history (setUp none 1000 4 0 0 false) roundTrip).1.positions, p.position = 0) →
        ((attempts (history (setUp none 1000 4 0 0 false) roundTrip).2).map
          Attempt.entryCommission).sum = 0) :=
  profit_reconciles rfl (by decide) (by decide +kernel)

/-- A buy and a close at one price: the account has lost both commissions, the record has one. -/
theorem entry_commission_unrecorded : ¬ Reconciles 10000
      (history (setUp (some marketUsEquity) 10000 4 0 0 false)
        [.market 1 .buy (1 / 2) 100 100 0 0, .close 1 100]).1
      (attempts (history (setUp (some marketUsEquity) 10000 4 0 0 false)
        [.market 1 .buy (1 / 2) 100 100 0 0, .close 1 100]).2) := by
  intro h
  have hprofit := h.profit (by decide +kernel)
  have hrecorded : ((history (setUp (some marketUsEquity) 10000 4 0 0 false)
      [.market 1 .buy (1 / 2) 100 100 0 0, .close 1 100]).1.trades.map TradeRecord.pnl).sum =
        -5 / 2 := by decide +kernel
  have hlost : (history (setUp (some marketUsEquity) 10000 4 0 0 false)
      [.market 1 .buy (1 / 2) 100 100 0 0, .close 1 100]).1.cash - 10000 = -5 := by decide +kernel
  rw [hrecorded, hlost] at hprofit
  norm_num at hprofit

end TurboScript.Fin
