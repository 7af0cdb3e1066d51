import TurboScript.Fin.Pending

/- The promises about pending orders, over whole histories.

   Attempts that are turned down leave things unchanged; reports of an executor are attempts that
   are not validated. A bar is done with every order it meets. `SafeStep`: what an operation must
   find for the promises to hold.

   The bar marks an order as filled whatever the attempt gave, a report does so whatever the
   order's status was, a stop-out returns before the orders are looked at, and a link takes the
   place of an earlier one. -/
namespace TurboScript.Fin
open List (append_nil mem_append mem_append_left mem_filter mem_map not_mem_nil)

/-! The attempts. -/

section Attempts
variable {t : Attempt}

structure Attempt.Unchanged (t : Attempt) : Prop where
  positions : ∀ a, position t.after a = position t.before a
  cash : t.after.cash = t.before.cash
  trades : t.after.trades = t.before.trades

/-- The asset has a slot, or the slot it may take is of nobody. -/
def Attempt.FreeSlot (t : Attempt) : Prop :=
  hasSlot t.before.positions t.assetId = true ∨ position t.before 0 = 0

/-- The attempt is accepted, and a sell finds something to sell. -/
def Attempt.Sure (t : Attempt) : Prop :=
  t.isAccepted = true ∧ (t.direction = .buy ∨ position t.before t.assetId ≠ 0)

theorem Attempted.unchanged (h : Attempted t) (hs : Slots Position.position t.before.positions)
    (hrejected : t.isAccepted = false) (hfree : t.FreeSlot) : t.Unchanged := by
  cases hout : t.outcome with
  | accepted price comm => simp [Attempt.isAccepted, hout] at hrejected
  | rejected e =>
    have hcovered : t.Covered := by
      refine ⟨fun hacc => ?_, hfree⟩
      rw [hacc] at hrejected
      cases hrejected
    obtain ⟨hcash, hpositions⟩ := (exact_iff_of_rejected h hout hs).2 hcovered
    refine ⟨fun a => ?_, ?_, ?_⟩
    · rw [hpositions]
      simp [Attempt.delta, hout]
    · rw [hcash]
      simp [Attempt.cost, hout]
    · cases h with
      | noSlot _ _ _ after | rejected _ _ _ _ _ _ _ after => rw [after]
      | accepted price comm l q p r slot outcome applied =>
        rw [hout] at outcome
        cases outcome

theorem sell_ne {p : Position} {q : ℚ} (hq : 0 < q) (hp : p.position ≠ 0) :
    (p.sell q).position ≠ p.position := by
  have hclosed : 0 < p.closeQty q := by
    unfold Position.closeQty
    split
    · exact hq
    · exact abs_pos.2 hp
  rw [sell_position]
  split
  · exact Ne.symm hp
  · intro heq
    have hzero : (if 0 < p.position then p.closeQty q else -p.closeQty q) = 0 := by linarith
    split at hzero
    · linarith
    · linarith

theorem Attempted.effective (h : Attempted t) (hq : 0 < t.quantity) (hsure : t.Sure) : t.Effective := by
  obtain ⟨hacc, hside⟩ := hsure
  refine ⟨hacc, ?_⟩
  cases h with
  | noSlot _ _ outcome | rejected _ _ _ _ _ _ outcome => simp [Attempt.isAccepted, outcome] at hacc
  | accepted price comm l q p r slot outcome applied =>
    obtain ⟨p', hps, hid, hposition, -⟩ := applied.slot
    have hheld : position t.before t.assetId = p.position := slot.lookup_before rfl
    have hown : position t.after t.assetId = p.filled t.direction t.quantity := by
      rw [position, hps, slot.lookup_after (hid.trans slot.id), hposition]
    rw [hheld] at hside
    rw [hown, hheld]
    cases hd : t.direction with
    | buy =>
      show p.position + t.quantity ≠ p.position
      linarith
    | sell =>
      rw [hd] at hside
      exact sell_ne hq (hside.resolve_left (by simp))

theorem Attempted.nextOrderId (h : Attempted t) : t.after.nextOrderId = t.before.nextOrderId := by
  cases h with
  | noSlot _ _ _ after | rejected _ _ _ _ _ _ _ after => rw [after]
  | accepted price comm l q p r slot outcome applied => exact applied.nextOrderId

theorem work_attempted {S : Manager → Manager → Prop} (hS : ∀ m m', S m m' → SameBooks m m')
    {m m' : Manager} {es : List Event} (h : Work S m es m')
    (hs : Slots Position.position m.positions) :
    Slots Position.position m'.positions ∧
      ∀ t ∈ attempts es, Attempted t ∧ Slots Position.position t.before.positions := by
  induction h with
  | quiet h hes =>
    refine ⟨hs.congr (hS _ _ h).positions, ?_⟩
    rw [hes]
    exact fun t ht => absurd ht (not_mem_nil)
  | fill order h hq =>
    exact ⟨h.slots hs, List.forall_mem_singleton.2 ⟨h, hs⟩⟩
  | seq _ _ ih ih' =>
    obtain ⟨hs', hall⟩ := ih hs
    obtain ⟨hs'', hall'⟩ := ih' hs'
    refine ⟨hs'', ?_⟩
    rw [attempts_append]
    exact List.forall_mem_append.2 ⟨hall, hall'⟩

theorem reported_attempted (m : Manager) (a : AssetId) (d : Direction)
    (quantity price stopLoss takeProfit : ℚ) :
    Attempted (reported m a d quantity price stopLoss takeProfit) := by
  have hr : ∀ t, reported m a d quantity price stopLoss takeProfit = t → Attempted t := by
    intro t ht
    unfold reported at ht
    split at ht
    · next hnone =>
      subst ht
      exact .noSlot _ (findOrCreatePosition_none hnone) rfl rfl
    · next m' i p hslot =>
      obtain ⟨l, q, r, hbooked, rfl, rfl⟩ := findOrCreatePosition_cases hslot
      subst ht
      exact .accepted _ _ l q p r hbooked rfl applyFill_applied
  exact hr _ rfl

theorem reported_fields (m : Manager) (a : AssetId) (d : Direction)
    (quantity price stopLoss takeProfit : ℚ) :
    (reported m a d quantity price stopLoss takeProfit).before = m ∧
    (reported m a d quantity price stopLoss takeProfit).assetId = a ∧
    (reported m a d quantity price stopLoss takeProfit).direction = d ∧
    (reported m a d quantity price stopLoss takeProfit).quantity = quantity := by
  unfold reported
  split <;> exact ⟨rfl, rfl, rfl, rfl⟩

theorem reported_accepted {m : Manager} {a : AssetId} {d : Direction}
    {quantity price stopLoss takeProfit : ℚ}
    (h : hasSlot m.positions a = true ∨ hasSlot m.positions 0 = true) :
    (reported m a d quantity price stopLoss takeProfit).isAccepted = true := by
  have hslot : ∀ b, hasSlot m.positions b = true →
      ∃ i, (m.positions.findIdx? fun p => p.assetId == b) = some i := fun b hb =>
    Option.isSome_iff_exists.1 (by rw [List.findIdx?_isSome]; exact hb)
  unfold reported findOrCreatePosition
  rcases ha : m.positions.findIdx? fun p => p.assetId == a with _ | i
  · rcases h with h | h
    · obtain ⟨i, hi⟩ := hslot a h
      rw [ha] at hi
      cases hi
    · obtain ⟨i, hi⟩ := hslot 0 h
      rw [ha, hi]
      rfl
  · rw [ha]
    rfl

end Attempts


/-! The operations. -/

section Operations
variable {past : List Event} {m : Manager}

def orderAttempts (es : List Event) : List Attempt :=
  es.filterMap fun e =>
    match e with
    | .attempt (some _) t => some t
    | _ => none

theorem mem_orderAttempts {es : List Event} {id : OrderId} {t : Attempt}
    (h : .attempt (some id) t ∈ es) : t ∈ orderAttempts es :=
  List.mem_filterMap.2 ⟨_, h, rfl⟩

/-- A reported fill is of a pending order that no other pending order is linked to, and there is a
slot for it; or it is of no order of this manager. -/
def MayReport (past : List Event) (m : Manager) (id : OrderId) (a : AssetId) (d : Direction)
    (quantity : ℚ) : Prop :=
  id < m.nextOrderId ∧ id ∉ submittedIds past ∨
  (∃ o ∈ m.pending, o.id = id ∧ isPending o = true ∧ ∀ q ∈ m.pending, q.id ≠ id →
    isPending q = true → q.ocoLinkId = o.ocoLinkId → o.ocoLinkId = 0) ∧
  0 < quantity ∧ (d = .buy ∨ position m a ≠ 0) ∧
  (hasSlot m.positions a = true ∨ hasSlot m.positions 0 = true)

/-- The operations that keep the orders as they should be. -/
def Safe (past : List Event) (m : Manager) : Op → Prop
  | .checkTriggers a high low prevClose =>
    (∀ t ∈ orderAttempts (checkTriggers m a high low prevClose).2, t.Sure) ∧
    (m.live = false → exitsOn m a high low = true →
      ∀ o ∈ m.pending, meets a high low (expireOrder a o) = false)
  | .reportFill id a d quantity _ _ _ => MayReport past m id a d quantity
  | .linkOco id₁ id₂ => MayLink m.pending id₁ id₂
  | _ => True

abbrev Kept (past : List Event) (m : Manager) : Prop := Inv past m.pending m.nextOrderId

theorem Inv.attempt {t : Attempt} (h : Kept past t.before) (ht : Attempted t) :
    Kept (past ++ [.attempt none t]) t.after := by
  show Inv _ t.after.pending t.after.nextOrderId
  rw [ht.pending, ht.nextOrderId]
  exact h.quiet fun e he => ⟨t, List.mem_singleton.1 he⟩

theorem matchOrder_kept (h : Kept past m) (hm : Sized m) {a : AssetId} {high low prevClose : ℚ}
    {i : Nat} (hsure : ∀ id t, .attempt (some id) t ∈ (matchOrder m a high low prevClose i).2 → t.Sure) :
    Kept (past ++ (matchOrder m a high low prevClose i).2) (matchOrder m a high low prevClose i).1 := by
  rcases matchOrder_cases m a high low prevClose i with
    ⟨heq, -⟩ | ⟨o, t, x, y, ho, hmeets, hattempted, rfl, hq, heq⟩
  · rw [heq, append_nil]
    exact h
  · rw [heq] at hsure ⊢
    have hp : isPending o = true := by
      simp only [meets, Bool.and_eq_true] at hmeets
      exact hmeets.1.2
    have heffective := hattempted.effective (hq ▸ hm o (List.mem_of_getElem? ho))
      (hsure o.id t (List.mem_cons_self ..))
    have hfill := h.fill ho hp heffective o.ocoLinkId (.inl rfl)
      { o with status := .filled, fillPrice := x, fillDate := y } rfl rfl rfl rfl
    show Inv _ _ t.after.nextOrderId
    rw [hattempted.nextOrderId]
    exact hfill

theorem matchOrders_kept {a : AssetId} {high low prevClose : ℚ} (i n : Nat) (h : Kept past m) (hm : Sized m)
    (hsure : ∀ id t, .attempt (some id) t ∈ (matchOrders m a high low prevClose i n).2 → t.Sure) :
    Kept (past ++ (matchOrders m a high low prevClose i n).2)
      (matchOrders m a high low prevClose i n).1 := by
  induction n generalizing past m i with
  | zero =>
    show Kept (past ++ []) m
    rw [append_nil]
    exact h
  | succ n ih =>
    have hfirst := matchOrder_kept h hm fun id t ht => hsure id t (mem_append_left _ ht)
    have hrest := ih (i + 1) hfirst (matchOrder_works hm a high low prevClose i).2
      fun id t ht => hsure id t (List.mem_append_right _ ht)
    rw [List.append_assoc] at hrest
    exact hrest

theorem close_kept (h : Kept past m) (a : AssetId) (execPrice : ℚ) :
    Kept (past ++ (close m a execPrice).2) (close m a execPrice).1 := by
  unfold close
  split
  · rw [append_nil]
    exact h
  dsimp only
  split
  · rw [append_nil]
    exact h.skip
  · next i _ _ =>
    have hattempted := attempt_cases m a (if 0 < (m.positions.getD i {}).position then .sell else .buy)
      |(m.positions.getD i {}).position| execPrice 0 0 0
    exact h.attempt hattempted

end Operations


/-! The orders that a bar meets. -/

section Met
variable {m : Manager} {a : AssetId} {high low prevClose : ℚ}

/-- The order leaves PENDING, and not because it expires. -/
def DoneIn (es : List Event) (id : OrderId) : Prop :=
  ∃ s, (s = .filled ∨ s = .cancelled) ∧ .status id .pending s ∈ es

theorem DoneIn.mono {es es' : List Event} {id : OrderId} (hsub : ∀ e ∈ es, e ∈ es')
    (h : DoneIn es id) : DoneIn es' id :=
  h.imp fun _ hs => ⟨hs.1, hsub _ hs.2⟩

theorem matchOrder_others {i j : Nat} {o : Order} (hj : m.pending[j]? = some o) (hij : j ≠ i)
    (hp : isPending o = true) :
    (matchOrder m a high low prevClose i).1.pending[j]? = some o ∨
      DoneIn (matchOrder m a high low prevClose i).2 o.id := by
  rcases matchOrder_cases m a high low prevClose i with
    ⟨heq, -⟩ | ⟨o', t, x, y, ho', -, -, -, -, heq⟩
  · rw [heq]
    exact .inl hj
  · rw [heq, cancelLinked_eq]
    have hset : (m.pending.set i { o' with status := .filled, fillPrice := x, fillDate := y })[j]? =
        some o := by
      rw [List.getElem?_set_ne (Ne.symm hij), hj]
    cases hhit : linkedTo o'.ocoLinkId o with
    | true =>
      refine .inr ⟨.cancelled, .inr rfl, ?_⟩
      refine List.mem_cons_of_mem _ (List.mem_cons_of_mem _ ?_)
      refine mem_map.2 ⟨o, mem_filter.2 ⟨List.mem_of_getElem? hset, hhit⟩, ?_⟩
      rw [isPending_iff.1 hp]
    | false =>
      left
      show (List.map _ _)[j]? = some o
      rw [List.getElem?_map, hset]
      simp [cancelIf, hhit]

theorem matchOrder_self {i : Nat} {o : Order} (hi : m.pending[i]? = some o)
    (hmeets : meets a high low o = true) :
    DoneIn (matchOrder m a high low prevClose i).2 o.id := by
  have hp : isPending o = true := by
    simp only [meets, Bool.and_eq_true] at hmeets
    exact hmeets.1.2
  rcases matchOrder_cases m a high low prevClose i with
    ⟨-, hno⟩ | ⟨o', t, x, y, ho', -, -, -, -, heq⟩
  · rw [hno o hi] at hmeets
    cases hmeets
  · rw [hi] at ho'
    cases ho'
    rw [heq]
    refine ⟨.filled, .inl rfl, List.mem_cons_of_mem _ ?_⟩
    rw [isPending_iff.1 hp]
    exact List.mem_cons_self ..

theorem matchOrders_done (i n : Nat) {j : Nat} {o : Order} (hij : i ≤ j) (hjn : j < i + n)
    (hj : m.pending[j]? = some o) (hmeets : meets a high low o = true) :
    DoneIn (matchOrders m a high low prevClose i n).2 o.id := by
  induction n generalizing m i with
  | zero => omega
  | succ n ih =>
    have hp : isPending o = true := by
      simp only [meets, Bool.and_eq_true] at hmeets
      exact hmeets.1.2
    by_cases hself : j = i
    · subst hself
      exact (matchOrder_self hj hmeets).mono fun e he => mem_append_left _ he
    · have hothers : (matchOrder m a high low prevClose i).1.pending[j]? = some o ∨
          DoneIn (matchOrder m a high low prevClose i).2 o.id := matchOrder_others hj hself hp
      rcases hothers with hstill | hdone
      · exact (ih (i + 1) (by omega) (by omega) hstill).mono fun e he => List.mem_append_right _ he
      · exact hdone.mono fun e he => mem_append_left _ he

end Met

section Operations
variable {past : List Event} {m : Manager}

def MetDone (es : List Event) : Prop := ∀ a met, .bar a met ∈ es → ∀ id ∈ met, DoneIn es id

theorem matchOrders_noBars (a : AssetId) (high low prevClose : ℚ) (i n : Nat) (b : AssetId)
    (met : List OrderId) : .bar b met ∉ (matchOrders m a high low prevClose i n).2 := by
  induction n generalizing m i with
  | zero => exact not_mem_nil
  | succ n ih =>
    intro hmem
    have hsplit : .bar b met ∈ (matchOrder m a high low prevClose i).2 ++
        (matchOrders (matchOrder m a high low prevClose i).1 a high low prevClose (i + 1) n).2 := hmem
    rcases mem_append.1 hsplit with hmem | hmem
    · rcases matchOrder_cases m a high low prevClose i with
        ⟨heq, -⟩ | ⟨o, t, x, y, -, -, -, -, -, heq⟩
      · rw [heq] at hmem
        cases hmem
      · rw [heq, cancelLinked_eq] at hmem
        simp only [List.mem_cons, reduceCtorEq, false_or] at hmem
        obtain ⟨o', -, -, hbar⟩ := mem_relabelled hmem
        cases hbar
    · exact ih (i + 1) hmem

theorem close_noBars (a : AssetId) (level : ℚ) (b : AssetId) (met : List OrderId) :
    .bar b met ∉ (close m a level).2 := by
  unfold close
  split
  · exact not_mem_nil
  · dsimp only
    split
    · exact not_mem_nil
    · simp

theorem checkTriggers_met {a : AssetId} {high low prevClose : ℚ}
    (hexit : m.live = false → exitsOn m a high low = true →
      ∀ o ∈ m.pending, meets a high low (expireOrder a o) = false) :
    MetDone (checkTriggers m a high low prevClose).2 := by
  have hbar : ∀ b met rest, (∀ b met, .bar b met ∉ rest) →
      .bar b met ∈ (expireOrders m a high low).2 ++ rest → met =
        if m.live then [] else ((m.pending.map (expireOrder a)).filter (meets a high low)).map Order.id := by
    intro b met rest hrest hmem
    rcases mem_append.1 hmem with hmem | hmem
    · rcases List.mem_cons.1 hmem with heq | hmem
      · cases heq
        rfl
      · obtain ⟨o, -, -, hbar⟩ := mem_relabelled (f := expires a) (s := .expired) hmem
        cases hbar
    · exact absurd hmem (hrest b met)
  rcases checkTriggers_cases m a high low prevClose with
    ⟨hlive, heq⟩ | ⟨hlive, m', -, hpending, -, ⟨hexits, level, heq⟩ | ⟨-, heq⟩⟩
  · intro b met hmem id hid
    rw [heq] at hmem
    have hmet := hbar b met [] (fun _ _ => not_mem_nil) (mem_append_left _ hmem)
    rw [hlive] at hmet
    rw [hmet] at hid
    cases hid
  · intro b met hmem id hid
    rw [heq] at hmem
    have hmet := hbar b met _ (close_noBars a level) hmem
    rw [hmet, hlive] at hid
    obtain ⟨o, ho, -⟩ := mem_map.1 hid
    obtain ⟨hmem, hmeets⟩ := mem_filter.1 ho
    obtain ⟨o', ho', rfl⟩ := mem_map.1 hmem
    rw [hexit hlive hexits o' ho'] at hmeets
    cases hmeets
  · intro b met hmem id hid
    rw [heq] at hmem ⊢
    have hmet := hbar b met _ (matchOrders_noBars a high low prevClose 0 _) hmem
    rw [hmet, hlive] at hid
    obtain ⟨o, ho, rfl⟩ := mem_map.1 hid
    obtain ⟨hmem, hmeets⟩ := mem_filter.1 ho
    obtain ⟨j, hj⟩ := List.mem_iff_getElem?.1 hmem
    have hj' : m'.pending[j]? = some o := by
      rw [hpending]
      exact hj
    have hlt : j < m'.pending.length := (List.getElem?_eq_some_iff.1 hj').1
    have hdone : DoneIn (matchOrders m' a high low prevClose 0 m'.pending.length).2 o.id :=
      matchOrders_done 0 m'.pending.length (Nat.zero_le j) (by omega) hj' hmeets
    exact hdone.mono fun e he => List.mem_append_right _ he

theorem checkTriggers_kept (h : Kept past m) (hm : Sized m) {a : AssetId} {high low prevClose : ℚ}
    (hsure : ∀ id t, .attempt (some id) t ∈ (checkTriggers m a high low prevClose).2 → t.Sure) :
    Kept (past ++ (checkTriggers m a high low prevClose).2) (checkTriggers m a high low prevClose).1 := by
  have hexpire : Kept (past ++ (expireOrders m a high low).2) (expireOrders m a high low).1 :=
    h.bar a _
  have hsized := (expireOrders_works hm a high low).2
  rcases checkTriggers_cases m a high low prevClose with
    ⟨-, heq⟩ | ⟨-, m', -, hpending, hnext, ⟨-, level, heq⟩ | ⟨-, heq⟩⟩
  · rw [heq]
    exact hexpire
  all_goals
    have hmoved : Kept (past ++ (expireOrders m a high low).2) m' := by
      show Inv _ _ _
      rw [hpending, hnext]
      exact hexpire
    rw [heq] at hsure ⊢
    rw [← List.append_assoc]
  · exact close_kept hmoved a level
  · have hsized' : Sized m' := by
      unfold Sized
      rw [hpending]
      exact hsized
    have hmatch := matchOrders_kept 0 m'.pending.length hmoved hsized' fun id t ht =>
      hsure id t (List.mem_append_right _ ht)
    exact hmatch.sub List.filter_sublist

end Operations


section Lifecycles
variable {past : List Event} {m : Manager}

theorem market_kept (h : Kept past m) (a : AssetId) (d : Direction)
    (fraction execPrice prevClose stopLoss takeProfit : ℚ) :
    Kept (past ++ (market m a d fraction execPrice prevClose stopLoss takeProfit).2)
      (market m a d fraction execPrice prevClose stopLoss takeProfit).1 := by
  have hsame : Kept (past ++ []) m := by rwa [append_nil]
  unfold market
  dsimp only
  split
  · exact hsame
  split
  · exact hsame
  split
  · exact hsame
  split
  · exact hsame.skip
  · exact h.attempt (attempt_cases m a d _ execPrice prevClose stopLoss takeProfit)

theorem submit_kept (h : Kept past m) {order : OrderId → Order}
    (horder : ∀ id, (order id).id = id ∧ isPending (order id) = true ∧ (order id).ocoLinkId = 0)
    (answer : OrderError) :
    Kept (past ++ (submit m order answer).2) (submit m order answer).1 := by
  obtain ⟨hid, hp, hl⟩ := horder m.nextOrderId
  unfold submit
  dsimp only
  split
  · rw [append_nil]
    exact h.skip
  · exact Inv.submit h hid hp hl

theorem Inv.find {ps : List Order} {n : Nat} (h : Inv past ps n) {o : Order} (ho : o ∈ ps)
    {d : Order} : ∃ i, (ps.findIdx? fun q => q.id == o.id) = some i ∧ ps[i]? = some o ∧
      ps.getD i d = o := by
  have hsome : (ps.findIdx? fun q => q.id == o.id).isSome := by
    rw [List.findIdx?_isSome]
    exact List.any_eq_true.2 ⟨o, ho, beq_self_eq_true _⟩
  obtain ⟨i, hi⟩ := Option.isSome_iff_exists.1 hsome
  obtain ⟨hlt, hid, -⟩ := List.findIdx?_eq_some_iff_getElem.1 hi
  have heq : ps[i] = o := h.eq_of_id ho (List.getElem_mem hlt) (beq_iff_eq.1 hid)
  refine ⟨i, hi, ?_, ?_⟩
  · rw [List.getElem?_eq_getElem hlt, heq]
  · rw [List.getD_eq_getElem _ _ hlt, heq]

theorem cancelOrder_kept (h : Kept past m) (id : OrderId) :
    Kept (past ++ (cancelOrder m id).2) (cancelOrder m id).1 := by
  unfold cancelOrder
  cases hi : m.pending.findIdx? fun o => o.id == id with
  | none =>
    dsimp only
    rw [append_nil]
    exact h.sub List.filter_sublist
  | some i =>
    obtain ⟨hlt, hid, -⟩ := List.findIdx?_eq_some_iff_getElem.1 hi
    have hid' : m.pending[i].id = id := beq_iff_eq.1 hid
    have hmem := List.getElem_mem hlt
    dsimp only
    rw [List.getD_eq_getElem _ _ hlt]
    -- the order at `i` is the only one that is cancelled
    have hone : relabelled (fun o => o.id == id) .cancelled m.pending =
        [.status id m.pending[i].status .cancelled] := by
      have hfilter : m.pending.filter (fun o => o.id == id) = [m.pending[i]] := by
        have hnd := h.nodup.of_map
        refine List.perm_singleton.1 ((List.perm_ext_iff_of_nodup (hnd.filter _)
          (List.nodup_singleton _)).2 fun q => ?_)
        rw [mem_filter, List.mem_singleton, beq_iff_eq]
        constructor
        · rintro ⟨hq, hqid⟩
          exact h.eq_of_id hmem hq (hqid.trans hid'.symm)
        · rintro rfl
          exact ⟨hmem, hid'⟩
      unfold relabelled
      rw [hfilter]
      simp [hid']
    have hset : m.pending.set i { m.pending[i] with status := .cancelled } =
        m.pending.map (cancelIf fun o => o.id == id) := by
      rw [set_eq_map h.nodup (List.getElem?_eq_getElem hlt)]
      refine List.map_congr_left fun q hq => ?_
      unfold cancelIf
      by_cases hqid : q.id = id
      · have heq := h.eq_of_id hmem hq (hqid.trans hid'.symm)
        rw [if_pos (hqid.trans hid'.symm), if_pos (beq_iff_eq.2 hqid), heq]
      · rw [if_neg (fun he => hqid (he.trans hid')), if_neg (by simpa using hqid)]
    rw [hset, ← hone]
    exact (h.cancel fun o => o.id == id).sub List.filter_sublist

theorem cancelPending_kept (h : Kept past m) (a : AssetId) :
    Kept (past ++ (cancelPending m a).2) (cancelPending m a).1 := by
  have hmap : (m.pending.map fun o => if o.assetId = a then { o with status := .cancelled } else o) =
      m.pending.map (cancelIf fun o => o.assetId == a) := by
    refine List.map_congr_left fun o _ => ?_
    unfold cancelIf
    simp only [beq_iff_eq]
  unfold cancelPending
  rw [hmap]
  exact (h.cancel fun o => o.assetId == a).sub List.filter_sublist

theorem reportFill_eq (m : Manager) (id : OrderId) (a : AssetId) (d : Direction)
    (quantity price stopLoss takeProfit : ℚ) :
    reportFill m id a d quantity price stopLoss takeProfit =
      ((reported (markFilled m id price).1 a d quantity price stopLoss takeProfit).after,
        .attempt (some id) (reported (markFilled m id price).1 a d quantity price stopLoss takeProfit) ::
          (markFilled m id price).2) := rfl

theorem reportFill_kept (h : Kept past m) {id : OrderId} {a : AssetId} {d : Direction}
    {quantity price stopLoss takeProfit : ℚ} (hreport : MayReport past m id a d quantity) :
    Kept (past ++ (reportFill m id a d quantity price stopLoss takeProfit).2)
      (reportFill m id a d quantity price stopLoss takeProfit).1 := by
  have hattempted := reported_attempted (markFilled m id price).1 a d quantity price stopLoss takeProfit
  obtain ⟨hbefore, hasset, hdirection, hquantity⟩ :=
    reported_fields (markFilled m id price).1 a d quantity price stopLoss takeProfit
  rw [reportFill_eq]
  show Inv _ (reported _ _ _ _ _ _ _).after.pending (reported _ _ _ _ _ _ _).after.nextOrderId
  rw [hattempted.pending, hattempted.nextOrderId, hbefore]
  rcases hreport with ⟨hlt, hno⟩ | ⟨⟨o, ho, rfl, hp, hpartner⟩, hq, hside, hslot⟩
  · -- no order has the id
    have hnone : (m.pending.findIdx? fun o => o.id == id) = none := by
      refine List.findIdx?_eq_none_iff.2 fun o ho => ?_
      simp only [beq_eq_false_iff_ne]
      exact fun he => hno (he ▸ h.submitted ho)
    have hmark : markFilled m id price = (m, []) := by
      unfold markFilled
      rw [hnone, ite_self]
    rw [hmark]
    exact h.stray hlt hno _
  · obtain ⟨i, hi, hget, hgetD⟩ := h.find ho
    obtain ⟨o', ho'⟩ : ∃ o' : Order,
        o' = { o with status := .filled, fillPrice := price, fillDate := m.currentDate } := ⟨_, rfl⟩
    have hmark : markFilled m o.id price =
        ({ m with pending := m.pending.set i o' }, [.status o.id o.status .filled]) := by
      unfold markFilled
      rw [if_pos (h.positive.2 o ho), hi]
      dsimp only
      rw [hgetD, ho']
    have hsame : o'.id = o.id ∧ o'.assetId = o.assetId ∧ o'.ocoLinkId = o.ocoLinkId ∧
        o'.status = .filled := by
      rw [ho']
      exact ⟨rfl, rfl, rfl, rfl⟩
    have hpositions : (markFilled m o.id price).1.positions = m.positions := by rw [hmark]
    have hsure : (reported (markFilled m o.id price).1 a d quantity price stopLoss takeProfit).Sure := by
      refine ⟨reported_accepted ?_, ?_⟩
      · rw [hpositions]
        exact hslot
      · rw [hdirection, hbefore, hasset, position, hpositions]
        exact hside
    have heffective := hattempted.effective (hquantity.symm ▸ hq) hsure
    have hnone : ∀ os, cancelLinked 0 os = (os, []) := fun os => rfl
    have hfill := h.fill hget hp heffective 0 (.inr hpartner) o' hsame.1 hsame.2.1 hsame.2.2.1 hsame.2.2.2
    rw [hnone] at hfill
    rw [hmark] at hfill ⊢
    exact hfill

structure Good (past : List Event) (m : Manager) : Prop where
  inv : Kept past m
  sized : Sized m
  slots : Slots Position.position m.positions
  met : MetDone past
  rejected : ∀ t ∈ attempts past, t.isAccepted = false → t.Unchanged

/-- An operation that is safe, and whose attempts find slots of their own or nobody's. -/
structure SafeStep (past : List Event) (m : Manager) (op : Op) : Prop where
  safe : Safe past m op
  slots : ∀ t ∈ attempts (perform m op).2, t.isAccepted = false → t.FreeSlot

theorem perform_kept (h : Kept past m) (hm : Sized m) {op : Op} (hsafe : Safe past m op) :
    Kept (past ++ (perform m op).2) (perform m op).1 := by
  have hquiet : ∀ m', m'.pending = m.pending → m'.nextOrderId = m.nextOrderId → Kept (past ++ []) m' := by
    intro m' hp hn
    show Inv _ m'.pending m'.nextOrderId
    rw [append_nil, hp, hn]
    exact h
  cases op with
  | beginBar date =>
    refine hquiet (beginBar m date) (beginBar_pending m date) ?_
    unfold beginBar
    dsimp only
    split
    · split <;> rfl
    · rfl
  | checkTriggers a high low prevClose => 
    exact checkTriggers_kept h hm fun id t ht => hsafe.1 t (mem_orderAttempts ht)
  | market a d fraction execPrice prevClose stopLoss takeProfit =>
    exact market_kept h a d fraction execPrice prevClose stopLoss takeProfit
  | limit a d fraction limitPrice stopLoss takeProfit barsValid answer =>
    unfold perform limit
    dsimp only
    split
    · exact hquiet m rfl rfl
    · exact submit_kept h (fun id => ⟨rfl, rfl, rfl⟩) answer
  | stop a d fraction stopPrice stopLoss takeProfit barsValid answer =>
    unfold perform stop
    dsimp only
    split
    · exact hquiet m rfl rfl
    · exact submit_kept h (fun id => ⟨rfl, rfl, rfl⟩) answer
  | close a execPrice => exact close_kept h a execPrice
  | reportFill id a d quantity price stopLoss takeProfit => exact reportFill_kept h hsafe
  | setSlTp a stopLoss takeProfit =>
    refine hquiet (setSlTp m a stopLoss takeProfit) ?_ ?_ <;>
      · unfold setSlTp
        split <;> rfl
  | setTrailingStop a distance isPct =>
    refine hquiet (setTrailingStop m a distance isPct) ?_ ?_ <;>
      · unfold setTrailingStop
        split <;> rfl
  | linkOco id₁ id₂ => exact h.link hsafe
  | cancelOrder id => exact cancelOrder_kept h id
  | cancelPending a => exact cancelPending_kept h a
  | markToMarket prices => exact hquiet _ rfl rfl

theorem reportFill_books (hm : Sized m) (hs : Slots Position.position m.positions) (id : OrderId)
    (a : AssetId) (d : Direction) (quantity price stopLoss takeProfit : ℚ) :
    Sized (reportFill m id a d quantity price stopLoss takeProfit).1 ∧
      Slots Position.position (reportFill m id a d quantity price stopLoss takeProfit).1.positions ∧
      ∀ t ∈ attempts (reportFill m id a d quantity price stopLoss takeProfit).2,
        Attempted t ∧ Slots Position.position t.before.positions := by
  have hattempted := reported_attempted (markFilled m id price).1 a d quantity price stopLoss takeProfit
  obtain ⟨hbefore, -⟩ :=
    reported_fields (markFilled m id price).1 a d quantity price stopLoss takeProfit
  have hmarked : Sized (markFilled m id price).1 ∧ (markFilled m id price).1.positions = m.positions ∧
      attempts (markFilled m id price).2 = [] := by
    unfold markFilled
    split
    · next i hi =>
      refine ⟨fun o ho => ?_, rfl, rfl⟩
      rcases List.mem_or_eq_of_mem_set ho with ho | rfl
      · exact hm o ho
      · have hfind : (m.pending.findIdx? fun o => o.id == id) = some i := by
          split at hi
          · exact hi
          · cases hi
        obtain ⟨hlt, -⟩ := List.findIdx?_eq_some_iff_getElem.1 hfind
        rw [List.getD_eq_getElem _ _ hlt]
        exact hm m.pending[i] (List.getElem_mem hlt)
    · exact ⟨hm, rfl, rfl⟩
  obtain ⟨hsized, hpositions, hattempts⟩ := hmarked
  have hslots : Slots Position.position
      (reported (markFilled m id price).1 a d quantity price stopLoss takeProfit).before.positions := by
    rw [hbefore, hpositions]
    exact hs
  rw [reportFill_eq]
  refine ⟨?_, hattempted.slots hslots, ?_⟩
  · unfold Sized
    rw [hattempted.pending, hbefore]
    exact hsized
  · have hone : ∀ t, attempts (.attempt (some id) t :: (markFilled m id price).2) =
        t :: attempts (markFilled m id price).2 := fun t => rfl
    rw [hone, hattempts]
    exact List.forall_mem_singleton.2 ⟨hattempted, hslots⟩

theorem perform_books (hm : Sized m) (hs : Slots Position.position m.positions) (op : Op) :
    Sized (perform m op).1 ∧ Slots Position.position (perform m op).1.positions ∧
      ∀ t ∈ attempts (perform m op).2, Attempted t ∧ Slots Position.position t.before.positions := by
  by_cases hbar : op.isBar = true
  · cases op with
    | beginBar date =>
      refine ⟨?_, hs.congr (beginBar_sameBooks m date).positions, fun t ht => by cases ht⟩
      show Sized (beginBar m date)
      unfold Sized
      rw [beginBar_pending]
      exact hm
    | _ => cases hbar
  · by_cases hreport : op.isReport = true
    · cases op with
      | reportFill id a d quantity price stopLoss takeProfit =>
        exact reportFill_books hm hs id a d quantity price stopLoss takeProfit
      | _ => cases hreport
    · have hworks := perform_works hm (by simpa using hreport) (by simpa using hbar)
      exact ⟨hworks.2, work_attempted (fun _ _ h => h.toSameBooks) hworks.1 hs⟩

theorem perform_noBars {op : Op} (hop : ∀ a high low prevClose, op ≠ .checkTriggers a high low prevClose)
    (b : AssetId) (met : List OrderId) : .bar b met ∉ (perform m op).2 := by
  have hsubmit : ∀ order answer, .bar b met ∉ (submit m order answer).2 := by
    intro order answer
    unfold submit
    dsimp only
    split <;> simp
  cases op with
  | checkTriggers a high low prevClose => exact absurd rfl (hop a high low prevClose)
  | market a d fraction execPrice prevClose stopLoss takeProfit =>
    unfold perform market
    dsimp only
    split
    · exact not_mem_nil
    split
    · exact not_mem_nil
    split
    · exact not_mem_nil
    split <;> simp
  | limit a d fraction limitPrice stopLoss takeProfit barsValid answer =>
    unfold perform limit
    dsimp only
    split
    · exact not_mem_nil
    · exact hsubmit _ _
  | stop a d fraction stopPrice stopLoss takeProfit barsValid answer =>
    unfold perform stop
    dsimp only
    split
    · exact not_mem_nil
    · exact hsubmit _ _
  | close a execPrice => exact close_noBars a execPrice b met
  | reportFill id a d quantity price stopLoss takeProfit =>
    show _ ∉ (reportFill m id a d quantity price stopLoss takeProfit).2
    rw [reportFill_eq]
    unfold markFilled
    split <;> simp
  | cancelOrder id =>
    unfold perform cancelOrder
    dsimp only
    split <;> simp
  | cancelPending a =>
    intro hmem
    obtain ⟨o, -, -, hbar⟩ := mem_relabelled (f := fun o => o.assetId == a) (s := .cancelled) hmem
    cases hbar
  | linkOco id₁ id₂ =>
    show _ ∉ [Event.linked id₁ id₂]
    simp
  | beginBar | setSlTp | setTrailingStop | markToMarket => exact not_mem_nil

theorem perform_met {op : Op} (hsafe : Safe past m op) : MetDone (perform m op).2 := by
  by_cases hop : ∀ a high low prevClose, op ≠ .checkTriggers a high low prevClose
  · exact fun b met hmem => absurd hmem (perform_noBars hop b met)
  · simp only [not_forall, not_not] at hop
    obtain ⟨a, high, low, prevClose, rfl⟩ := hop
    exact checkTriggers_met hsafe.2

theorem Good.step (h : Good past m) {op : Op} (hsafe : SafeStep past m op) :
    Good (past ++ (perform m op).2) (perform m op).1 := by
  obtain ⟨hsized, hslots, hattempted⟩ := perform_books h.sized h.slots op
  refine ⟨perform_kept h.inv h.sized hsafe.safe, hsized, hslots, ?_, ?_⟩
  · intro a met hmem id hid
    rcases List.mem_append.1 hmem with hmem | hmem
    · exact (h.met a met hmem id hid).mono fun e he => List.mem_append_left _ he
    · exact (perform_met hsafe.safe a met hmem id hid).mono fun e he => List.mem_append_right _ he
  · intro t ht hrejected
    rw [attempts_append] at ht
    rcases List.mem_append.1 ht with ht | ht
    · exact h.rejected t ht hrejected
    · obtain ⟨hatt, hs⟩ := hattempted t ht
      exact hatt.unchanged hs hrejected (hsafe.slots t ht hrejected)

/-- Every operation of the history is safe where it is made. -/
def SafeHistory (past : List Event) (m : Manager) : List Op → Prop
  | [] => True
  | op :: ops => SafeStep past m op ∧ SafeHistory (past ++ (perform m op).2) (perform m op).1 ops

theorem Good.history {ops : List Op} (h : Good past m) (hsafe : SafeHistory past m ops) :
    Good (past ++ (history m ops).2) (history m ops).1 := by
  induction ops generalizing past m with
  | nil =>
    show Good (past ++ []) m
    rw [List.append_nil]
    exact h
  | cons op ops ih =>
    have hrest := ih (h.step hsafe.1) hsafe.2
    rw [List.append_assoc] at hrest
    exact hrest

end Lifecycles

structure Lifecycle (es : List Event) : Prop where
  ids : (submittedIds es).Nodup
  leaves_once : ∀ id ∈ submittedIds es, es.countP (Event.leaves id) ≤ 1
  filled_iff : ∀ id ∈ submittedIds es,
    (∃ e ∈ es, e.marksFilled id = true) ↔ ∃ e ∈ es, e.Fills id
  dead_stays : ∀ id ∈ submittedIds es, es.Pairwise fun e e' => e.ends id = true → ¬e'.Fills id
  /-- Orders are filled on their bars and expire after them. -/
  timely : TimelyFrom [] es
  /-- A pending order whose price is met on one of its bars is filled on it, or cancelled by a
  linked one that is. -/
  met : MetDone es
  rejected : ∀ t ∈ attempts es, t.isAccepted = false → t.Unchanged
  oneFills : ∀ x y, x ≠ y → .linked x y ∈ es → ¬(FilledIn es x ∧ FilledIn es y)

theorem Good.lifecycle {es : List Event} {m : Manager} (h : Good es m) : Lifecycle es := by
  have hlived : ∀ id ∈ submittedIds es, ∃ b, Lived id b (track id es) := fun id hid =>
    (h.inv.gone id hid).imp fun _ hlife => hlife.lived
  refine ⟨h.inv.ids, fun id hid => ?_, fun id hid => ?_, fun id hid => ?_, h.inv.timely, h.met,
    h.rejected, fun x y hxy hl hboth => ?_⟩
  · obtain ⟨b, hb⟩ := hlived id hid
    exact hb.of_track.1
  · obtain ⟨b, hb⟩ := hlived id hid
    exact hb.of_track.2.1
  · obtain ⟨b, hb⟩ := hlived id hid
    exact hb.of_track.2.2.2
  · exact (h.inv.oneFills x y hxy (.inl hl) hboth.1).1 hboth.2

/-- In a history of safe operations the pending orders live as they should. -/
theorem pending_lifecycle (rules : Option Rules) (cash0 : ℚ) (assetCap : Nat)
    (slippagePct spread : ℚ) (live : Bool) (ops : List Op)
    (hsafe : SafeHistory [] (setUp rules cash0 assetCap slippagePct spread live) ops) :
    Lifecycle (history (setUp rules cash0 assetCap slippagePct spread live) ops).2 := by
  have hstart : Good [] (setUp rules cash0 assetCap slippagePct spread live) := by
    have hinv : Inv [] [] 1 := by
      refine ⟨?_, List.nodup_nil, List.nodup_nil, ?_, ?_, ?_, trivial, ?_, ⟨Nat.one_pos, ?_⟩, ?_, ?_, ?_⟩
      · exact fun e he => by cases he
      · exact fun o ho => by cases ho
      · exact fun id hid => by cases hid
      · exact fun o ho => by cases ho
      · exact fun o ho => by cases ho
      · exact fun o ho => by cases ho
      · rintro x y (h | h) <;> cases h
      · rintro x y - (h | h) <;> cases h
      · rintro x y - (h | h) <;> cases h
    have hslots := setUp_slots Position.position rfl rules cash0 assetCap slippagePct spread live
    refine ⟨hinv, ?_, hslots, ?_, ?_⟩
    · exact fun o ho => by cases ho
    · exact fun a met h => by cases h
    · exact fun t ht => by cases ht
  exact (hstart.history hsafe).lifecycle

section Decisions

instance (t : Attempt) : Decidable t.Sure := by
  unfold Attempt.Sure
  infer_instance

instance (t : Attempt) : Decidable t.FreeSlot := by
  unfold Attempt.FreeSlot
  infer_instance

instance (t : Attempt) : Decidable t.Effective := by
  unfold Attempt.Effective
  infer_instance

instance (e : Event) (id : OrderId) : Decidable (e.Fills id) := by
  unfold Event.Fills
  split <;> infer_instance

instance (ps : List Order) (x y : OrderId) : Decidable (MayLink ps x y) :=
  decidable_of_iff ((∃ o ∈ ps, o.id = x ∧ isPending o = true) ∧ (∃ o ∈ ps, o.id = y ∧ isPending o = true) ∧
      ∀ q ∈ ps, isPending q = true → q.id ≠ x → q.id ≠ y → ∀ o ∈ ps, o.id = x ∨ o.id = y →
        q.ocoLinkId = o.ocoLinkId → o.ocoLinkId = 0)
    ⟨fun h => ⟨h.1, h.2.1, h.2.2⟩, fun h => ⟨h.first, h.second, h.alone⟩⟩

instance (past : List Event) (m : Manager) (id : OrderId) (a : AssetId) (d : Direction) (q : ℚ) :
    Decidable (MayReport past m id a d q) := by
  unfold MayReport
  infer_instance

instance (past : List Event) (m : Manager) (op : Op) : Decidable (Safe past m op) := by
  cases op <;> unfold Safe <;> infer_instance

instance (past : List Event) (m : Manager) (op : Op) : Decidable (SafeStep past m op) :=
  decidable_of_iff (Safe past m op ∧ ∀ t ∈ attempts (perform m op).2, t.isAccepted = false → t.FreeSlot)
    ⟨fun h => ⟨h.1, h.2⟩, fun h => ⟨h.safe, h.slots⟩⟩

instance decidableSafeHistory (past : List Event) (m : Manager) :
    (ops : List Op) → Decidable (SafeHistory past m ops)
  | [] => isTrue trivial
  | op :: ops =>
    have := decidableSafeHistory (past ++ (perform m op).2) (perform m op).1 ops
    inferInstanceAs (Decidable (_ ∧ _))

end Decisions

/-- Two linked limit buys, of which the first is filled on the next bar. -/
theorem pending_lifecycle_linked : Lifecycle (history (setUp (some marketUsEquity) 10000 4 0 0 false)
    [.limit 1 .buy 0.5 100 0 0 2 .ok, .limit 1 .buy 0.5 90 0 0 2 .ok, .linkOco 1 2,
      .checkTriggers 1 110 95 100, .checkTriggers 1 110 80 100]).2 :=
  pending_lifecycle (some marketUsEquity) 10000 4 0 0 false
    [.limit 1 .buy 0.5 100 0 0 2 .ok, .limit 1 .buy 0.5 90 0 0 2 .ok, .linkOco 1 2,
      .checkTriggers 1 110 95 100, .checkTriggers 1 110 80 100] (by decide +kernel)

/-- A limit sell with nothing held is marked as filled and changes no position. -/
theorem filled_without_fill : ¬Lifecycle (history (setUp (some marketUsEquity) 10000 4 0 0 false)
    [.limit 1 .sell 0.5 100 0 0 2 .ok, .checkTriggers 1 110 95 100]).2 := by
  intro h
  have hmarked := h.filled_iff 1 (by decide +kernel)
  have hnone : ¬((∃ e ∈ (history (setUp (some marketUsEquity) 10000 4 0 0 false)
      [.limit 1 .sell 0.5 100 0 0 2 .ok, .checkTriggers 1 110 95 100]).2, Event.marksFilled 1 e = true) ↔
      ∃ e ∈ (history (setUp (some marketUsEquity) 10000 4 0 0 false)
        [.limit 1 .sell 0.5 100 0 0 2 .ok, .checkTriggers 1 110 95 100]).2, Event.Fills 1 e) := by
    decide +kernel
  exact hnone hmarked

end TurboScript.Fin
