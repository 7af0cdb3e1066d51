import TurboScript.Fin.Work

/- The books over whole histories: cash and positions against the fills that were accepted.

   1. `Exact` and `Covered`: what the books say of one attempt, and the sells and slots for which
      they say it (`exact_iff`).
   2. What work does to the books (`Accounted`), and `books_balance_iff`.

   A sell pays its commission and counts as filled whatever is held, but no more than the holding
   is closed, and a rest of `1e-9` is closed with it. A slot that holds a position under id 0 is
   given to the next new asset. -/
namespace TurboScript.Fin

/-- What an attempt adds to the position in `a`, if it is accepted. -/
def Attempt.delta (t : Attempt) (a : AssetId) : ℚ :=
  match t.outcome with
  | .accepted _ _ => if t.assetId = a then t.direction.sign * t.quantity else 0
  | .rejected _ => 0

def Attempt.cost (t : Attempt) : ℚ :=
  match t.outcome with
  | .accepted price commission => t.direction.sign * t.quantity * price + commission
  | .rejected _ => 0

def Attempt.Exact (t : Attempt) : Prop :=
  t.after.cash = t.before.cash - t.cost ∧ ∀ a, position t.after a = position t.before a + t.delta a

def Attempt.isAccepted (t : Attempt) : Bool :=
  match t.outcome with
  | .accepted _ _ => true
  | .rejected _ => false

/-- A sell that is accepted is of the whole holding, or of less by more than the tolerance; an
asset without a slot is met only while nothing is held under id 0. -/
structure Attempt.Covered (t : Attempt) : Prop where
  sell : t.isAccepted = true → t.direction = .sell →
    t.quantity = position t.before t.assetId ∨ t.quantity + tolerance < position t.before t.assetId
  slot : hasSlot t.before.positions t.assetId = true ∨ position t.before 0 = 0

theorem tolerance_pos : 0 < tolerance := by
  norm_num [tolerance]

theorem sell_position (p : Position) (q : ℚ) : (p.sell q).position =
    if p.closes q then 0
    else p.position - (if 0 < p.position then p.closeQty q else -p.closeQty q) := by
  unfold Position.sell
  split <;> rfl

variable {p : Position} {q : ℚ}

theorem sell_position_iff (hq : 0 < q) :
    (p.sell q).position = p.position - q ↔ q = p.position ∨ q + tolerance < p.position := by
  have htol := tolerance_pos
  rw [sell_position]
  by_cases hlt : q < |p.position|
  · have hqty : p.closeQty q = q := if_pos hlt
    rw [hqty]
    by_cases hclose : |p.position| - tolerance ≤ q
    · rw [if_pos (by simpa [Position.closes, hqty] using hclose)]
      constructor
      · intro h
        exact .inl (by linarith)
      · rintro (h | h)
        · linarith
        · linarith [le_abs_self p.position]
    · rw [if_neg (by simpa [Position.closes, hqty] using hclose)]
      by_cases hp : 0 < p.position
      · rw [if_pos hp, abs_of_pos hp] at *
        exact ⟨fun _ => .inr (by linarith), fun _ => rfl⟩
      · -- a short position moves towards zero instead
        rw [if_neg hp]
        constructor
        · intro h
          linarith
        · rintro (h | h) <;> linarith
  · have hqty : p.closeQty q = |p.position| := if_neg hlt
    rw [if_pos (by simpa [Position.closes, hqty] using htol.le)]
    constructor
    · intro h
      exact .inl (by linarith)
    · rintro (h | h)
      · linarith
      · linarith [le_abs_self p.position]

theorem closeQty_eq (h : q = p.position ∨ q + tolerance < p.position) (hq : 0 < q) : p.closeQty q = q := by
  have htol := tolerance_pos
  unfold Position.closeQty
  rcases h with h | h
  · rw [abs_of_pos (h ▸ hq), if_neg (by simp [h]), h]
  · have hp : 0 < p.position := by linarith
    rw [abs_of_pos hp, if_pos (by linarith)]

theorem filled_iff {d : Direction} (hq : 0 < q) : p.filled d q = p.position + d.sign * q ↔
      (d = .sell → q = p.position ∨ q + tolerance < p.position) := by
  cases d with
  | buy => simp [Position.filled, Direction.sign]
  | sell =>
    have hsign : p.position + Direction.sell.sign * q = p.position - q := by
      simp only [Direction.sign]
      ring
    rw [hsign]
    simp only [Position.filled, sell_position_iff hq, forall_const]

theorem paid_eq {d : Direction} (hq : 0 < q)
    (h : d = .sell → q = p.position ∨ q + tolerance < p.position) : p.paid d q = d.sign * q := by
  cases d with
  | buy => simp [Position.paid, Direction.sign]
  | sell => simp [Position.paid, Direction.sign, closeQty_eq (h rfl) hq]

theorem Booked.others_iff {f : Position → ℚ} {ps l r : List Position} {q p' : Position}
    {a : AssetId} (h : Booked ps a l q p r) (hs : Slots f ps) (hid : p'.assetId = a) :
    (∀ b, b ≠ a → lookup f (l ++ p' :: r) b = lookup f ps b) ↔ hasSlot ps a = true ∨ lookup f ps 0 = 0 := by
  constructor
  · intro hall
    by_contra hno
    obtain ⟨hslot, hzero⟩ := not_or.1 hno
    have ha : (0 : AssetId) ≠ a := by
      rintro rfl
      rcases h.old with hq | ⟨hq, -, hnone, -⟩
      · exact hslot (h.hasSlot_eq.2 hq)
      · exact hnone q (by rw [h.split]; simp) hq
    have h0 := hall 0 ha
    rw [h.lookup_other hs hid ha, if_pos ⟨rfl, by simpa using hslot⟩] at h0
    exact hzero h0.symm
  · intro hor b hb
    rw [h.lookup_other hs hid hb]
    split
    · next hcond =>
      rcases hor with hslot | hzero
      · rw [hslot] at hcond
        cases hcond.2
      · rw [hcond.1, hzero]
    · rfl


section Accounts
variable {m m' : Manager} {es : List Event}

theorem Attempted.slots {t : Attempt} (h : Attempted t)
    (hs : Slots Position.position t.before.positions) : Slots Position.position t.after.positions := by
  cases h with
  | noSlot e full outcome after =>
    rw [after]
    exact hs
  | rejected e l q p r slot outcome after =>
    rw [after]
    exact slot.slots_after hs slot.id
  | accepted price comm l q p r slot outcome applied =>
    obtain ⟨p', hps, hid, -⟩ := applied.slot
    rw [hps]
    exact slot.slots_after hs (hid.trans slot.id)

theorem exact_iff_of_rejected {t : Attempt} {e : OrderError} (h : Attempted t)
    (hout : t.outcome = .rejected e) (hs : Slots Position.position t.before.positions) :
    t.Exact ↔ t.Covered := by
  have hcost : t.cost = 0 := by simp [Attempt.cost, hout]
  have hdelta : ∀ b, t.delta b = 0 := fun b => by simp [Attempt.delta, hout]
  have hsell : t.isAccepted = true → t.direction = .sell → t.quantity = position t.before t.assetId ∨
      t.quantity + tolerance < position t.before t.assetId := by
    intro hacc
    simp [Attempt.isAccepted, hout] at hacc
  cases h with
  | noSlot e full outcome after =>
    refine ⟨fun _ => ⟨hsell, .inr ?_⟩, fun _ => ⟨?_, fun b => ?_⟩⟩
    · exact lookup_eq_zero fun x hx hx0 => absurd hx0 (full x hx)
    · rw [after, hcost, sub_zero]
    · rw [after, hdelta, add_zero]
  | rejected e l q p r slot outcome after =>
    have hothers := slot.others_iff hs slot.id
    refine ⟨fun hexact => ⟨hsell, ?_⟩, fun hcovered => ⟨?_, fun b => ?_⟩⟩
    · refine hothers.1 fun b _ => ?_
      have hb := hexact.2 b
      rwa [hdelta, add_zero, after] at hb
    · rw [after, hcost, sub_zero]
    · rw [hdelta, add_zero, after]
      by_cases hb : b = t.assetId
      · show lookup Position.position (l ++ p :: r) b = lookup Position.position t.before.positions b
        rw [hb, slot.lookup_after slot.id, slot.lookup_before rfl]
      · exact hothers.2 hcovered.slot b hb
  | accepted price comm l q p r slot outcome applied =>
    rw [outcome] at hout
    cases hout

theorem exact_iff {t : Attempt} (h : Attempted t) (hs : Slots Position.position t.before.positions)
    (hq : 0 < t.quantity) : t.Exact ↔ t.Covered := by
  cases h with
  | noSlot e full outcome after => exact exact_iff_of_rejected (.noSlot e full outcome after) outcome hs
  | rejected e l q p r slot outcome after =>
    exact exact_iff_of_rejected (.rejected e l q p r slot outcome after) outcome hs
  | accepted price comm l q p r slot outcome applied =>
    obtain ⟨p', hps, hid, hposition, -⟩ := applied.slot
    rw [slot.id] at hid
    have hothers := slot.others_iff hs hid
    have hafter : ∀ b, position t.after b = lookup Position.position (l ++ p' :: r) b := fun b => by
      rw [position, hps]
    have hown : position t.after t.assetId = p.filled t.direction t.quantity := by
      rw [hafter, slot.lookup_after hid, hposition]
    have hheld : position t.before t.assetId = p.position := slot.lookup_before rfl
    have hdelta : ∀ b, t.delta b = if t.assetId = b then t.direction.sign * t.quantity else 0 := by
      intro b
      simp only [Attempt.delta, outcome]
    have haccepted : t.isAccepted = true := by simp [Attempt.isAccepted, outcome]
    constructor
    · intro hexact
      refine ⟨fun _ => ?_, hothers.1 fun b hb => ?_⟩
      · have ha := hexact.2 t.assetId
        rw [hown, hheld, hdelta, if_pos rfl] at ha
        rw [hheld]
        exact (filled_iff hq).1 ha
      · have hb' := hexact.2 b
        rwa [hdelta, if_neg (Ne.symm hb), add_zero, hafter] at hb'
    · intro hcovered
      have hsell := hcovered.sell haccepted
      rw [hheld] at hsell
      refine ⟨?_, fun b => ?_⟩
      · rw [applied.cash, paid_eq hq hsell]
        simp only [Attempt.cost, outcome]
        ring
      · rw [hdelta]
        by_cases hb : t.assetId = b
        · rw [if_pos hb, ← hb, hown, hheld]
          exact (filled_iff hq).2 hsell
        · rw [if_neg hb, add_zero, hafter]
          exact hothers.2 hcovered.slot b (Ne.symm hb)

structure Accounted (m : Manager) (es : List Event) (m' : Manager) : Prop where
  slots : Slots Position.position m'.positions
  exact_iff : ∀ t ∈ attempts es, t.Exact ↔ t.Covered
  cash : (∀ t ∈ attempts es, t.Exact) → m'.cash = m.cash - ((attempts es).map Attempt.cost).sum
  positions : (∀ t ∈ attempts es, t.Exact) →
    ∀ a, position m' a = position m a + ((attempts es).map (·.delta a)).sum

theorem work_accounted (h : Work SameBooks m es m') (hs : Slots Position.position m.positions) :
    Accounted m es m' := by
  induction h with
  | quiet h hes =>
    refine ⟨hs.congr h.positions, ?_, fun _ => ?_, fun _ a => ?_⟩
    · rw [hes]
      simp
    · rw [hes, h.cash]
      simp
    · rw [hes]
      simp [position, lookup_congr h.positions]
  | fill order h hq =>
    refine ⟨h.slots hs, ?_, fun hexact => ?_, fun hexact b => ?_⟩
    · exact List.forall_mem_singleton.2 (exact_iff h hs hq)
    · have ht := hexact _ (List.mem_singleton_self _)
      exact ht.1.trans (by simp [attempts])
    · have ht := hexact _ (List.mem_singleton_self _)
      exact (ht.2 b).trans (by simp [attempts])
  | seq _ _ ih ih' =>
    have h := ih hs
    have h' := ih' h.slots
    refine ⟨h'.slots, ?_, fun hexact => ?_, fun hexact a => ?_⟩
    · intro t ht
      rw [attempts_append] at ht
      rcases List.mem_append.1 ht with ht | ht
      · exact h.exact_iff t ht
      · exact h'.exact_iff t ht
    · rw [attempts_append, List.forall_mem_append] at hexact
      rw [attempts_append, List.map_append, List.sum_append, h'.cash hexact.2, h.cash hexact.1]
      ring
    · rw [attempts_append, List.forall_mem_append] at hexact
      rw [attempts_append, List.map_append, List.sum_append, h'.positions hexact.2, h.positions hexact.1]
      ring

end Accounts

theorem history_work {ops : List Op} {m : Manager} (hm : Sized m) (hops : ∀ op ∈ ops, op.isReport = false) :
    Work SameBooks m (history m ops).2 (history m ops).1 := by
  induction ops generalizing m with
  | nil => exact .quiet ⟨rfl, rfl, rfl, rfl⟩ rfl
  | cons op ops ih =>
    obtain ⟨hop, hrest⟩ := List.forall_mem_cons.1 hops
    by_cases hbar : op.isBar = true
    · cases op with
      | beginBar date =>
        have hsized : Sized (beginBar m date) := by
          unfold Sized
          rw [beginBar_pending]
          exact hm
        exact .seq (.quiet (beginBar_sameBooks m date) rfl) (ih hsized hrest)
      | _ => cases hbar
    · have hworks := perform_works hm hop (by simpa using hbar)
      exact .seq (hworks.1.mono fun _ _ h => h.toSameBooks) (ih hworks.2 hrest)

theorem setUp_slots (f : Position → ℚ) (hf : f {} = 0) (rules : Option Rules) (cash0 : ℚ)
    (assetCap : Nat) (slippagePct spread : ℚ) (live : Bool) :
    Slots f (setUp rules cash0 assetCap slippagePct spread live).positions := by
  refine List.pairwise_replicate.2 (.inr fun _ => ⟨rfl, hf⟩)

theorem setUp_position (f : Position → ℚ) (hf : f {} = 0) (rules : Option Rules) (cash0 : ℚ)
    (assetCap : Nat) (slippagePct spread : ℚ) (live : Bool) (a : AssetId) :
    lookup f (setUp rules cash0 assetCap slippagePct spread live).positions a = 0 :=
  lookup_eq_zero fun x hx _ => by rw [List.eq_of_mem_replicate hx, hf]

structure Balanced (cash0 : ℚ) (m : Manager) (es : List Event) : Prop where
  exact : ∀ t ∈ attempts es, t.Exact
  cash : m.cash = cash0 - ((attempts es).map Attempt.cost).sum
  positions : ∀ a, position m a = ((attempts es).map (·.delta a)).sum
  slots : m.positions.Pairwise fun p p' => p.assetId = p'.assetId → p'.assetId = 0

/-- The books of a history balance exactly if all its attempts are covered. -/
theorem books_balance_iff (rules : Option Rules) (cash0 : ℚ) (assetCap : Nat)
    (slippagePct spread : ℚ) (ops : List Op) (hops : ∀ op ∈ ops, op.isReport = false) :
    Balanced cash0 (history (setUp rules cash0 assetCap slippagePct spread false) ops).1
      (history (setUp rules cash0 assetCap slippagePct spread false) ops).2 ↔
    ∀ t ∈ attempts (history (setUp rules cash0 assetCap slippagePct spread false) ops).2, t.Covered := by
  have hstart := setUp_slots Position.position rfl rules cash0 assetCap slippagePct spread false
  have hzero := setUp_position Position.position rfl rules cash0 assetCap slippagePct spread false
  have hcash : (setUp rules cash0 assetCap slippagePct spread false).cash = cash0 := rfl
  have hsized : Sized (setUp rules cash0 assetCap slippagePct spread false) := by
    intro o ho
    cases ho
  generalize setUp rules cash0 assetCap slippagePct spread false = m at *
  have h := work_accounted (history_work hsized hops) hstart
  constructor
  · intro hb t ht
    exact (h.exact_iff t ht).1 (hb.exact t ht)
  · intro hcovered
    have hexact := fun t ht => (h.exact_iff t ht).2 (hcovered t ht)
    refine ⟨hexact, ?_, fun a => ?_, h.slots.imp fun hp he => (hp he).1⟩
    · rw [h.cash hexact, hcash]
    · rw [h.positions hexact, position, hzero, zero_add]

/-- A buy and a sell of the holding. -/
theorem books_balance_round_trip : Balanced 10000 (history (setUp (some marketUsEquity) 10000 4 0 0 false)
      [.market 1 .buy 1 100 100 0 0, .close 1 110]).1
    (history (setUp (some marketUsEquity) 10000 4 0 0 false)
      [.market 1 .buy 1 100 100 0 0, .close 1 110]).2 ↔
    ∀ t ∈ attempts (history (setUp (some marketUsEquity) 10000 4 0 0 false)
      [.market 1 .buy 1 100 100 0 0, .close 1 110]).2, t.Covered :=
  books_balance_iff (some marketUsEquity) 10000 4 0 0
    [.market 1 .buy 1 100 100 0 0, .close 1 110] (by simp [Op.isReport])

/-- A short sale is accepted and charged, and no position is opened. -/
theorem short_sale_not_booked : ¬Balanced 10000
    (history (setUp (some marketUsEquity) 10000 4 0 0 false) [.market 1 .sell 1 100 100 0 0]).1
    (history (setUp (some marketUsEquity) 10000 4 0 0 false) [.market 1 .sell 1 100 100 0 0]).2 := by
  intro h
  have hposition := h.positions 1
  have hheld : position (history (setUp (some marketUsEquity) 10000 4 0 0 false)
      [.market 1 .sell 1 100 100 0 0]).1 1 = 0 := by decide +kernel
  have hsum : ((attempts (history (setUp (some marketUsEquity) 10000 4 0 0 false)
      [.market 1 .sell 1 100 100 0 0]).2).map (·.delta 1)).sum = -100 := by decide +kernel
  rw [hheld, hsum] at hposition
  norm_num at hposition

end TurboScript.Fin
