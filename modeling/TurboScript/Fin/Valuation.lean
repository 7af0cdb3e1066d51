import TurboScript.Fin.Work

/- Marking to market: equity against cash and holdings.

   1. `Valued`: what the account should show at given prices.
   2. `markToMarket_get`: what the loop does to each slot. It runs over the first slots only, as
      many as there are prices, skips id 0, and takes the entry cost of a short position as that
      of a long one.
   3. `valued_iff`: the states, and lists of assets, for which the account shows it at any prices. -/
namespace TurboScript.Fin

def priceOf (prices : List (AssetId × ℚ)) (a : AssetId) : ℚ := (prices.lookup a).getD 0

/-- Positions at their prices. Those that are zero add nothing. -/
def holdingsValue (m : Manager) (prices : List (AssetId × ℚ)) : ℚ :=
  (m.positions.map fun p => p.position * priceOf prices p.assetId).sum

/-- The account shows cash plus holdings, and each held position its profit. -/
structure Valued (prices : List (AssetId × ℚ)) (m : Manager) : Prop where
  equity : m.equity = m.cash + holdingsValue m prices
  pnl : ∀ p ∈ m.positions, p.position ≠ 0 →
    p.unrealizedPnl = p.position * (priceOf prices p.assetId - p.avgEntryPrice)

/-- Every held position is in one of the first `n` slots, is not that of asset 0, and is long or
has no entry price. -/
def Markable (m : Manager) (n : Nat) : Prop :=
  ∀ i p, m.positions[i]? = some p → p.position ≠ 0 →
    i < n ∧ p.assetId ≠ 0 ∧ (0 < p.position ∨ p.avgEntryPrice = 0)

section Mark
variable {m : Manager} {prices : List (AssetId × ℚ)} {p : Position}

theorem lookup_of_mem {a : AssetId} (h : a ∈ prices.map Prod.fst) :
    prices.lookup a = some (priceOf prices a) := by
  cases hl : prices.lookup a with
  | some x => simp [priceOf, hl]
  | none =>
    obtain ⟨⟨b, x⟩, hmem, rfl⟩ := List.mem_map.1 h
    have := List.lookup_eq_none_iff.1 hl (b, x) hmem
    simp at this

theorem mark_held (hp : p.position ≠ 0) (hid : p.assetId ≠ 0)
    (hmem : p.assetId ∈ prices.map Prod.fst) : mark prices p =
      { p with unrealizedPnl :=
          priceOf prices p.assetId * p.position - p.avgEntryPrice * |p.position| } := by
  unfold mark
  rw [if_neg (by simp [hp, hid]), lookup_of_mem hmem]

theorem mark_same (prices : List (AssetId × ℚ)) (p : Position) :
    (mark prices p).position = p.position ∧ (mark prices p).assetId = p.assetId ∧
      (mark prices p).avgEntryPrice = p.avgEntryPrice := by
  unfold mark
  split
  · exact ⟨rfl, rfl, rfl⟩
  · split <;> exact ⟨rfl, rfl, rfl⟩

theorem markToMarket_get (i : Nat) : (markToMarket m prices).positions[i]? =
    (m.positions[i]?).map fun p => if i < prices.length then mark prices p else p := by
  show ((m.positions.take prices.length).map (mark prices) ++ m.positions.drop prices.length)[i]? = _
  rw [← List.map_id (m.positions.drop prices.length)]
  by_cases hi : i < prices.length
  · by_cases hlen : i < m.positions.length
    · rw [List.getElem?_append_left (by simp; omega)]
      simp [hi]
    · have hnone : m.positions[i]? = none := by simp; omega
      rw [hnone]
      simp
      omega
  · by_cases hlen : prices.length ≤ m.positions.length
    · have hlen' : ((m.positions.take prices.length).map (mark prices)).length = prices.length := by
        simp
        omega
      rw [List.getElem?_append_right (by omega), hlen']
      simp [hi, show prices.length + (i - prices.length) = i by omega]
    · have hnone : m.positions[i]? = none := by simp; omega
      rw [hnone]
      simp
      omega

theorem markToMarket_holdings : holdingsValue (markToMarket m prices) prices =
    holdingsValue m prices := by
  have hcomp : (fun p : Position => p.position * priceOf prices p.assetId) ∘ mark prices =
      fun p => p.position * priceOf prices p.assetId := by
    funext p
    obtain ⟨hposition, hid, _⟩ := mark_same prices p
    simp [hposition, hid]
  show (List.map _ (List.map _ (m.positions.take prices.length) ++ m.positions.drop prices.length)).sum = _
  rw [List.map_append, List.map_map, hcomp, ← List.map_append, List.take_append_drop]
  rfl

end Mark

theorem positionsValue_eq {m : Manager} {prices : List (AssetId × ℚ)}
    (hcover : ∀ p ∈ m.positions, p.position ≠ 0 → p.assetId ∈ prices.map Prod.fst)
    (h : Markable m prices.length) : positionsValue m prices = holdingsValue m prices := by
  have hdrop : ((m.positions.drop prices.length).map fun p =>
      p.position * priceOf prices p.assetId).sum = 0 := by
    apply List.sum_eq_zero
    intro x hx
    obtain ⟨p, hp, rfl⟩ := List.mem_map.1 hx
    obtain ⟨i, hi, rfl⟩ := List.getElem_of_mem hp
    rw [List.getElem_drop]
    rw [List.length_drop] at hi
    by_cases hzero : (m.positions[prices.length + i]).position = 0
    · rw [hzero, zero_mul]
    · -- a position out of reach would be held
      have hreach := (h (prices.length + i) _ (List.getElem?_eq_getElem (by omega)) hzero).1
      omega
  have htake : positionsValue m prices =
      ((m.positions.take prices.length).map fun p => p.position * priceOf prices p.assetId).sum := by
    unfold positionsValue
    congr 1
    apply List.map_congr_left
    intro p hp
    have hmem : p ∈ m.positions := List.mem_of_mem_take hp
    by_cases hzero : p.position = 0
    · simp [hzero]
    · obtain ⟨i, hi, rfl⟩ := List.getElem_of_mem hmem
      have hid := (h i _ (List.getElem?_eq_getElem hi) hzero).2.1
      rw [if_neg (by simp [hzero, hid]), lookup_of_mem (hcover _ hmem hzero)]
      exact mul_comm _ _
  rw [htake]
  calc ((m.positions.take prices.length).map fun p => p.position * priceOf prices p.assetId).sum
      = ((m.positions.take prices.length).map fun p => p.position * priceOf prices p.assetId).sum +
        ((m.positions.drop prices.length).map fun p =>
          p.position * priceOf prices p.assetId).sum := by rw [hdrop, add_zero]
    _ = holdingsValue m prices := by
      unfold holdingsValue
      rw [← List.sum_append, ← List.map_append, List.take_append_drop]

/-- The list of `ids` with one price for `a` and nothing for the others. -/
def onePrice (ids : List AssetId) (a : AssetId) (x : ℚ) : List (AssetId × ℚ) :=
  ids.map fun b => (b, if b = a then x else 0)

theorem priceOf_onePrice {ids : List AssetId} {a : AssetId} (h : a ∈ ids) (x : ℚ) :
    priceOf (onePrice ids a x) a = x := by
  induction ids with
  | nil => cases h
  | cons b ids ih =>
    by_cases hb : a = b
    · simp [priceOf, onePrice, hb]
    · have ha : a ∈ ids := by simpa [hb] using h
      have htail := ih ha
      simp only [priceOf, onePrice, List.map_cons, List.lookup_cons] at htail ⊢
      rw [show (a == b) = false by simpa using hb]
      exact htail

/-- Marking to market shows cash plus holdings at any prices of the listed assets exactly if every
holding is within the loop's reach: not past as many slots as there are prices, not under id 0,
and not short with an entry price. -/
theorem valued_iff (m : Manager) (ids : List AssetId)
    (hcover : ∀ p ∈ m.positions, p.position ≠ 0 → p.assetId ∈ ids) :
    (∀ prices : List (AssetId × ℚ), prices.map Prod.fst = ids →
      Valued prices (markToMarket m prices)) ↔ Markable m ids.length := by
  apply Iff.intro
  · intro h i p hi hp
    have hmem : p ∈ m.positions := List.mem_of_getElem? hi
    have hid := hcover p hmem hp
    have hprices : ∀ x, (onePrice ids p.assetId x).map Prod.fst = ids := by
      intro x
      simp [onePrice, Function.comp_def]
    have hlen : ∀ x, (onePrice ids p.assetId x).length = ids.length := by
      intro x
      simp [onePrice]
    have hget : ∀ x, (markToMarket m (onePrice ids p.assetId x)).positions[i]? =
        some (if i < ids.length then mark (onePrice ids p.assetId x) p else p) := by
      intro x
      rw [markToMarket_get, hi, hlen]
      rfl
    by_cases hreach : i < ids.length ∧ p.assetId ≠ 0
    · obtain ⟨hlt, hne⟩ := hreach
      refine ⟨hlt, hne, ?_⟩
      have hmark : mark (onePrice ids p.assetId 0) p = _ :=
        mark_held hp hne (by rw [hprices]; exact hid)
      have hslot := hget 0
      rw [if_pos hlt, hmark] at hslot
      have hpnl := (h _ (hprices 0)).pnl _ (List.mem_of_getElem? hslot) hp
      simp only [priceOf_onePrice hid] at hpnl
      have hcost : p.avgEntryPrice * |p.position| = p.avgEntryPrice * p.position := by linarith
      rcases mul_eq_mul_left_iff.1 hcost with habs | hzero
      · exact .inl (lt_of_le_of_ne (abs_eq_self.1 habs) (Ne.symm hp))
      · exact .inr hzero
    · -- the slot keeps its profit whatever the price
      have hkeep : ∀ x, p.unrealizedPnl = p.position * (x - p.avgEntryPrice) := by
        intro x
        have hslot : (markToMarket m (onePrice ids p.assetId x)).positions[i]? = some p := by
          rw [hget x]
          by_cases hlt : i < ids.length
          · have hzero : p.assetId = 0 := by
              by_contra hne
              exact hreach ⟨hlt, hne⟩
            simp [hlt, mark, hzero]
          · simp [hlt]
        have hpnl := (h _ (hprices x)).pnl p (List.mem_of_getElem? hslot) hp
        rwa [priceOf_onePrice hid] at hpnl
      have hone := hkeep 1
      rw [hkeep 0] at hone
      exact absurd (by linarith : p.position = 0) hp
  · intro h prices hprices
    have hlen : prices.length = ids.length := by rw [← hprices, List.length_map]
    have hcover' : ∀ p ∈ m.positions, p.position ≠ 0 → p.assetId ∈ prices.map Prod.fst := by
      rw [hprices]
      exact hcover
    rw [← hlen] at h
    refine ⟨?_, ?_⟩
    · rw [markToMarket_holdings]
      show m.cash + positionsValue m prices = m.cash + holdingsValue m prices
      rw [positionsValue_eq hcover' h]
    · intro p' hp' hheld
      obtain ⟨i, hi⟩ := List.getElem?_of_mem hp'
      rw [markToMarket_get] at hi
      obtain ⟨p, hp, rfl⟩ := Option.map_eq_some_iff.1 hi
      have hposition : p.position ≠ 0 := by
        split at hheld
        · rwa [(mark_same prices p).1] at hheld
        · exact hheld
      obtain ⟨hlt, hid, hlong⟩ := h i p hp hposition
      have hmem := hcover' p (List.mem_of_getElem? hp) hposition
      rw [if_pos hlt, mark_held hposition hid hmem]
      have hcost : p.avgEntryPrice * |p.position| = p.avgEntryPrice * p.position := by
        rcases hlong with hlong | hzero
        · rw [abs_of_pos hlong]
        · rw [hzero, zero_mul, zero_mul]
      show priceOf prices p.assetId * p.position - p.avgEntryPrice * |p.position| =
        p.position * (priceOf prices p.assetId - p.avgEntryPrice)
      rw [hcost]
      ring

/-- A manager that has bought asset 1, closed it and bought asset 2. -/
def secondAsset : Manager :=
  (history (setUp none 100 4 0 0 false)
    [.market 1 .buy 1 10 10 0 0, .close 1 10, .market 2 .buy 1 10 10 0 0]).1

theorem valued_iff_secondAsset : (∀ prices : List (AssetId × ℚ), prices.map Prod.fst = [1, 2] →
      Valued prices (markToMarket secondAsset prices)) ↔ Markable secondAsset 2 :=
  valued_iff secondAsset [1, 2] (by decide +kernel)

/-- The price of the only asset held is given, but asset 2 is in the second slot. -/
theorem secondAsset_missed : (∀ p ∈ secondAsset.positions, p.position ≠ 0 → p.assetId ∈ [2]) ∧
      ¬ Valued [(2, 10)] (markToMarket secondAsset [(2, 10)]) := by
  refine ⟨by decide +kernel, ?_⟩
  intro h
  have hequity : (markToMarket secondAsset [(2, 10)]).equity = 0 := by decide +kernel
  have hworth : (markToMarket secondAsset [(2, 10)]).cash +
      holdingsValue (markToMarket secondAsset [(2, 10)]) [(2, 10)] = 100 := by decide +kernel
  have hvalued := h.equity
  rw [hequity, hworth] at hvalued
  norm_num at hvalued

end TurboScript.Fin
