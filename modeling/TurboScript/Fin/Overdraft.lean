import TurboScript.Fin.Books

/- What a buy costs against the cash there is.

   1. `buyCost`, and the cash after an accepted buy.
   2. The buys of `market`, and those of pending orders in `checkTriggers`, which fill an order
      that was queued with its quantity.
   3. `overdraft_iff`: when the cash stays nonnegative. The test in `market` counts the half-spread
      once, not for each unit, and leaves the commission out; a pending order is not tested at
      all. -/
namespace TurboScript.Fin

/-- The price of a buy with slippage and half-spread on each unit, and its commission. -/
def buyCost (m : Manager) (quantity execPrice : ℚ) : ℚ :=
  quantity * (execPrice + (execPrice * m.slippagePct + m.spread)) + marketCommission m.rules
      ((execPrice + (execPrice * m.slippagePct + m.spread)) * quantity) .buy

/-- The quantity of a market buy: the lots for the fraction of the equity, or those the cash pays
for. -/
def marketQuantity (m : Manager) (fraction execPrice : ℚ) : ℚ :=
  affordable m .buy (marketRoundLot m.rules (m.equity * min fraction 1 / execPrice)) execPrice

section Attempts
variable {m : Manager} {a : AssetId} {d : Direction} {q execPrice prevClose stopLoss takeProfit : ℚ}

theorem applySlippage_buy (m : Manager) (price : ℚ) :
    applySlippage m price .buy = price + (price * m.slippagePct + m.spread) := by
  simp [applySlippage, Direction.sign]

theorem attempt_accepted (h : (attempt m a d q execPrice prevClose stopLoss takeProfit).isAccepted = true) :
    ∃ m' i p, findOrCreatePosition m a = some (m', i, p) ∧
      (attempt m a d q execPrice prevClose stopLoss takeProfit).after =
        applyFill m' i p d q (applySlippage m execPrice d)
          (marketCommission m.rules (applySlippage m execPrice d * q) d) stopLoss takeProfit ∧
      (attempt m a d q execPrice prevClose stopLoss takeProfit).outcome =
        .accepted (applySlippage m execPrice d)
          (marketCommission m.rules (applySlippage m execPrice d * q) d) := by
  have hr : ∀ r, executeFill m a d q execPrice prevClose stopLoss takeProfit = r →
      (⟨a, d, q, r.2, m, r.1⟩ : Attempt).isAccepted = true →
      ∃ m' i p, findOrCreatePosition m a = some (m', i, p) ∧
        r.1 = applyFill m' i p d q (applySlippage m execPrice d)
          (marketCommission m.rules (applySlippage m execPrice d * q) d) stopLoss takeProfit ∧
        r.2 = .accepted (applySlippage m execPrice d)
          (marketCommission m.rules (applySlippage m execPrice d * q) d) := by
    intro r hr hacc
    unfold executeFill at hr
    split at hr
    · subst hr
      cases hacc
    · next m' i p hslot =>
      dsimp only at hr
      by_cases herr : marketValidateOrder m.rules true execPrice q d prevClose p.position
          (if d = .buy then p.boughtToday else 0) (-1) = .ok
      · rw [if_neg (not_not.2 herr)] at hr
        subst hr
        exact ⟨m', i, p, hslot, rfl, rfl⟩
      · rw [if_pos herr] at hr
        subst hr
        cases hacc
  exact hr _ rfl h

theorem attempt_buy_cash
    (h : (attempt m a .buy q execPrice prevClose stopLoss takeProfit).isAccepted = true) :
    (attempt m a .buy q execPrice prevClose stopLoss takeProfit).after.cash =
      m.cash - buyCost m q execPrice := by
  obtain ⟨m', i, p, hslot, hafter, _⟩ := attempt_accepted h
  -- finding the slot does not touch the cash
  obtain ⟨l, q', r, _, _, rfl⟩ := findOrCreatePosition_cases hslot
  rw [hafter, applySlippage_buy]
  simp only [applyFill, buyCost]
  ring

theorem attempt_buy_iff
    (h : (attempt m a .buy q execPrice prevClose stopLoss takeProfit).isAccepted = true) :
    0 ≤ (attempt m a .buy q execPrice prevClose stopLoss takeProfit).after.cash ↔
      buyCost m q execPrice ≤ m.cash := by
  rw [attempt_buy_cash h]
  exact sub_nonneg

end Attempts

/-! The buys of `market`. -/

section Market
variable {m : Manager} {a : AssetId} {fraction execPrice prevClose stopLoss takeProfit : ℚ}

theorem market_attempts {t : Attempt}
    (h : t ∈ attempts (market m a .buy fraction execPrice prevClose stopLoss takeProfit).2) :
    0 < execPrice ∧ t = attempt m a .buy (marketQuantity m fraction execPrice) execPrice prevClose
      stopLoss takeProfit := by
  unfold market at h
  dsimp only at h
  split at h
  · cases h
  · next hinput =>
    split at h
    · cases h
    split at h
    · cases h
    split at h
    · cases h
    · refine ⟨not_le.1 fun hle => hinput (.inr hle), ?_⟩
      simpa [attempts, marketQuantity] using h

end Market

/-! The buys of pending orders. -/

section Pending
variable {a : AssetId} {high low prevClose : ℚ} {id : OrderId} {t : Attempt}

/-- The attempt of a pending order in a bar: the order still has its quantity, the manager is the
one the attempt finds. -/
def FillsOrder (os : List Order) (a : AssetId) (high low prevClose : ℚ) (id : OrderId)
    (t : Attempt) : Prop :=
  ∃ o ∈ os, isPending o = true ∧ o.id = id ∧ ∃ price, triggerPrice o high low = some price ∧
    t = attempt t.before a o.direction o.quantity
      (marketClampPrice t.before.rules price prevClose) prevClose o.stopLoss o.takeProfit

theorem cancelLinked_pending {link j : Nat} {os : List Order} {o : Order}
    (h : (cancelLinked link os).1[j]? = some o) (hp : isPending o = true) : os[j]? = some o := by
  unfold cancelLinked at h
  split at h
  · rw [List.getElem?_map] at h
    obtain ⟨o', ho', he⟩ := Option.map_eq_some_iff.1 h
    split at he
    · subst he
      cases hp
    · rw [ho', he]
  · exact h

theorem cancelLinked_no_attempt {link : Nat} {os : List Order} :
    ∀ e ∈ (cancelLinked link os).2, e ≠ .attempt (some id) t := by
  unfold cancelLinked
  split
  · intro e he
    obtain ⟨o, _, rfl⟩ := List.mem_map.1 he
    simp
  · simp

theorem matchOrder_fills (m : Manager) (a : AssetId) (high low prevClose : ℚ) (i : Nat) :
    (∀ (j : Nat) o, (matchOrder m a high low prevClose i).1.pending[j]? = some o → isPending o = true →
      m.pending[j]? = some o) ∧
    ∀ id t, .attempt (some id) t ∈ (matchOrder m a high low prevClose i).2 →
      FillsOrder m.pending a high low prevClose id t := by
  unfold matchOrder
  cases ho : m.pending[i]? with
  | none => exact ⟨fun j o h _ => h, fun id t h => by cases h⟩
  | some o =>
    dsimp only
    by_cases hno : o.assetId ≠ a ∨ (!isPending o) = true
    · rw [if_pos hno]
      exact ⟨fun j o h _ => h, fun id t h => by cases h⟩
    · rw [if_neg hno]
      simp only [not_or, not_not, Bool.not_eq_true, Bool.not_eq_false'] at hno
      cases hprice : triggerPrice o high low with
      | none => exact ⟨fun j o h _ => h, fun id t h => by cases h⟩
      | some price =>
        refine ⟨?_, ?_⟩
        · intro j o' hj hp
          have hset := cancelLinked_pending hj hp
          rw [List.getElem?_set] at hset
          split at hset
          · split at hset
            · cases hset
              cases hp
            · cases hset
          · exact hset
        · intro id t ht
          rcases List.mem_cons.1 ht with he | ht
          · cases he
            exact ⟨o, List.mem_of_getElem? ho, hno.2, rfl, price, hprice, rfl⟩
          · rcases List.mem_cons.1 ht with he | ht
            · cases he
            · exact absurd rfl (cancelLinked_no_attempt _ ht)

theorem matchOrders_fills (a : AssetId) (high low prevClose : ℚ) (os : List Order) (n : Nat) :
    ∀ (m : Manager) (i : Nat),
      (∀ (j : Nat) o, m.pending[j]? = some o → isPending o = true → os[j]? = some o) →
      ∀ id t, .attempt (some id) t ∈ (matchOrders m a high low prevClose i n).2 →
        FillsOrder os a high low prevClose id t := by
  induction n with
  | zero => intro m i _ id t ht; cases ht
  | succ n ih =>
    intro m i hkept id t ht
    obtain ⟨hnext, hown⟩ := matchOrder_fills m a high low prevClose i
    rcases List.mem_append.1 ht with ht | ht
    · obtain ⟨o, ho, hp, hrest⟩ := hown id t ht
      obtain ⟨j, hj⟩ := List.getElem?_of_mem ho
      exact ⟨o, List.mem_of_getElem? (hkept j o hj hp), hp, hrest⟩
    · exact ih _ (i + 1) (fun j o hj hp => hkept j o (hnext j o hj hp) hp) id t ht

theorem close_no_order (m : Manager) (a : AssetId) (price : ℚ) :
    .attempt (some id) t ∉ (close m a price).2 := by
  unfold close
  split
  · simp
  · dsimp only
    split <;> simp

theorem expireOrders_no_attempt (m : Manager) (a : AssetId) (high low : ℚ) :
    .attempt (some id) t ∉ (expireOrders m a high low).2 := by
  intro h
  rcases List.mem_cons.1 h with he | h
  · cases he
  · obtain ⟨o, _, he⟩ := List.mem_map.1 h
    cases he

theorem checkTriggers_fills {m : Manager}
    (h : .attempt (some id) t ∈ (checkTriggers m a high low prevClose).2) :
    FillsOrder (expireOrders m a high low).1.pending a high low prevClose id t := by
  rcases checkTriggers_cases m a high low prevClose with
    ⟨_, heq⟩ | ⟨_, m', _, hpending, _, ⟨_, level, heq⟩ | ⟨_, heq⟩⟩
  · rw [heq] at h
    exact absurd h (expireOrders_no_attempt m a high low)
  · rw [heq] at h
    rcases List.mem_append.1 h with h | h
    · exact absurd h (expireOrders_no_attempt m a high low)
    · exact absurd h (close_no_order m' a level)
  · rw [heq] at h
    rcases List.mem_append.1 h with h | h
    · exact absurd h (expireOrders_no_attempt m a high low)
    · rw [← hpending]
      exact matchOrders_fills a high low prevClose m'.pending _ m' 0 (fun _ _ hj _ => hj) id t h

end Pending

/-- A buy that is accepted leaves the cash nonnegative exactly if its whole cost, slippage and
half-spread on each unit and the commission, is no more than the cash: for the quantity of a market
order, and for that of a pending order against the cash it finds when it is filled. -/
theorem overdraft_iff (m : Manager) (a : AssetId) (prevClose : ℚ) :
    (∀ fraction execPrice stopLoss takeProfit,
      ∀ t ∈ attempts (market m a .buy fraction execPrice prevClose stopLoss takeProfit).2,
        t.isAccepted = true →
          (0 ≤ t.after.cash ↔ buyCost m (marketQuantity m fraction execPrice) execPrice ≤ m.cash)) ∧
    ∀ high low id t, .attempt (some id) t ∈ (checkTriggers m a high low prevClose).2 →
      t.isAccepted = true → t.direction = .buy → ∃ o ∈ (expireOrders m a high low).1.pending, o.id = id ∧
          ∃ price, triggerPrice o high low = some price ∧ t = attempt t.before a o.direction o.quantity
              (marketClampPrice t.before.rules price prevClose) prevClose o.stopLoss o.takeProfit ∧
            (0 ≤ t.after.cash ↔
              buyCost t.before o.quantity (marketClampPrice t.before.rules price prevClose) ≤
                t.before.cash) := by
  refine ⟨?_, ?_⟩
  · intro fraction execPrice stopLoss takeProfit t ht hacc
    obtain ⟨_, rfl⟩ := market_attempts ht
    exact attempt_buy_iff hacc
  · intro high low id t ht hacc hbuy
    obtain ⟨o, ho, _, hid, price, hprice, he⟩ := checkTriggers_fills ht
    refine ⟨o, ho, hid, price, hprice, he, ?_⟩
    have hdir : o.direction = .buy := by
      rw [he] at hbuy
      exact hbuy
    rw [hdir] at he
    generalize t.before = b at he ⊢
    subst he
    exact attempt_buy_iff hacc

/-- All the equity at a price it pays for exactly, without slippage; the commission is 5. -/
theorem overdrawn :
    (market (setUp (some marketUsEquity) 10000 4 0 0 false) 1 .buy 1 100 100 0 0).1.cash = -5 ∧
      ∀ t ∈ attempts (market (setUp (some marketUsEquity) 10000 4 0 0 false)
          1 .buy 1 100 100 0 0).2, t.isAccepted = true ∧ ¬ 0 ≤ t.after.cash := by
  decide +kernel

end TurboScript.Fin
