import TurboScript.Fin.Books

/- Settlement on the next day (`t_plus >= 1`): what may be sold in a session.

   A session is what happens from one `beginBar` to the next. `available` is what is held and was
   not bought in it: buys leave it alone, and a sell of no more than it takes its quantity from it
   (`attempt_available`). `executeFill` validates a sell against the whole holding instead. -/
namespace TurboScript.Fin

def boughtToday (m : Manager) (a : AssetId) : ℚ := lookup Position.boughtToday m.positions a

def available (m : Manager) (a : AssetId) : ℚ := max 0 (position m a - boughtToday m a)

/-- The quantity of `a` that an attempt sells. -/
def Attempt.sold (t : Attempt) (a : AssetId) : ℚ :=
  if t.isAccepted ∧ t.direction = .sell ∧ t.assetId = a then t.quantity else 0

/-- An accepted sell is of shares that were not bought in the session. -/
def Attempt.Settled (t : Attempt) : Prop :=
  t.isAccepted = true → t.direction = .sell →
    t.quantity ≤ position t.before t.assetId - boughtToday t.before t.assetId

structure Sound (rules : Rules) (m : Manager) : Prop where
  rules_eq : m.rules = some rules
  slots : Slots Position.position m.positions
  boughtSlots : Slots Position.boughtToday m.positions
  held : ∀ a, 0 ≤ position m a
  bought : ∀ a, 0 ≤ boughtToday m a

variable {p : Position} {q : ℚ}

theorem filled_nonneg {d : Direction} (hp : 0 ≤ p.position) (hq : 0 < q) : 0 ≤ p.filled d q := by
  cases d with
  | buy =>
    show 0 ≤ p.position + q
    linarith
  | sell =>
    show 0 ≤ (p.sell q).position
    rw [sell_position]
    split
    · exact le_refl 0
    · next hclose =>
      have hclosed : p.closeQty q ≤ |p.position| := by
        unfold Position.closeQty
        split
        · next hlt => exact hlt.le
        · exact le_refl _
      rw [abs_of_nonneg hp] at hclosed
      split
      · linarith
      · next hpos =>
        -- an empty position would be closed
        exfalso
        apply hclose
        have hzero : p.position = 0 := le_antisymm (not_lt.1 hpos) hp
        have htol := tolerance_pos
        unfold Position.closes Position.closeQty
        rw [hzero, abs_zero, if_neg hq.not_gt]
        exact decide_eq_true (by linarith)

theorem sell_le (hq : 0 < q) (hle : q ≤ p.position) : (p.sell q).position ≤ p.position - q := by
  have hp : 0 < p.position := by linarith
  rw [sell_position]
  split
  · linarith
  · rcases lt_or_eq_of_le hle with hlt | heq
    · have hqty : p.closeQty q = q := if_pos (by rwa [abs_of_pos hp])
      rw [hqty]
    · have hqty : p.closeQty q = q := closeQty_eq (.inl heq) hq
      rw [hqty]

theorem boughtAfter_nonneg {d : Direction} (hp : 0 ≤ p.boughtToday) (hq : 0 < q) :
    0 ≤ p.boughtAfter d q := by
  cases d with
  | buy => exact add_nonneg hp hq.le
  | sell => exact hp

theorem fill_takes {d : Direction} (hq : 0 < q) (hb : 0 ≤ p.boughtToday)
    (hle : d = .sell → q ≤ p.position - p.boughtToday) :
    (if d = .sell then q else 0) + max 0 (p.filled d q - p.boughtAfter d q) ≤
      max 0 (p.position - p.boughtToday) := by
  cases d with
  | buy =>
    have hdiff : p.filled .buy q - p.boughtAfter .buy q = p.position - p.boughtToday := by
      simp only [Position.filled, Position.boughtAfter]
      ring
    rw [hdiff, if_neg (by simp), zero_add]
  | sell =>
    have hq' := hle rfl
    have hless : (p.sell q).position ≤ p.position - q := sell_le hq (by linarith)
    rw [if_pos rfl, max_eq_right (by linarith : 0 ≤ p.position - p.boughtToday)]
    show q + max 0 ((p.sell q).position - p.boughtToday) ≤ p.position - p.boughtToday
    rcases max_cases 0 ((p.sell q).position - p.boughtToday) with ⟨h, -⟩ | ⟨h, -⟩ <;>
      rw [h] <;> linarith

section Sessions
variable {rules : Rules} {m m' : Manager} {es : List Event}

theorem Booked.other_cases {f : Position → ℚ} {ps l r : List Position} {q p p' : Position}
    {a b : AssetId} (h : Booked ps a l q p r) (hs : Slots f ps) (hid : p'.assetId = a) (hb : b ≠ a) :
    b = 0 ∧ hasSlot ps a = false ∧ lookup f (l ++ p' :: r) b = 0 ∨
      ¬(b = 0 ∧ hasSlot ps a = false) ∧ lookup f (l ++ p' :: r) b = lookup f ps b := by
  rw [h.lookup_other hs hid hb]
  by_cases hcond : b = 0 ∧ hasSlot ps a = false
  · rw [if_pos hcond]
    exact .inl ⟨hcond.1, hcond.2, rfl⟩
  · rw [if_neg hcond]
    exact .inr ⟨hcond, rfl⟩

theorem Sound.write {l r : List Position} {q p p' : Position} {a : AssetId} (hm : Sound rules m)
    (hbooked : Booked m.positions a l q p r) (hps : m'.positions = l ++ p' :: r)
    (hrules : m'.rules = m.rules) (hid : p'.assetId = a) (hheld : 0 ≤ p'.position)
    (hbought : 0 ≤ p'.boughtToday) :
    Sound rules m' ∧ ∀ b, b ≠ a → available m' b ≤ available m b := by
  have hother : ∀ b, b ≠ a → position m' b = 0 ∧ boughtToday m' b = 0 ∨
      position m' b = position m b ∧ boughtToday m' b = boughtToday m b := by
    intro b hb
    unfold position boughtToday
    rw [hps]
    rcases hbooked.other_cases hm.slots hid hb with ⟨h0, hslot, hp⟩ | ⟨hno, hp⟩
    · rcases hbooked.other_cases hm.boughtSlots hid hb with ⟨-, -, hp'⟩ | ⟨hno, -⟩
      · exact .inl ⟨hp, hp'⟩
      · exact absurd ⟨h0, hslot⟩ hno
    · rcases hbooked.other_cases hm.boughtSlots hid hb with ⟨h0, hslot, -⟩ | ⟨-, hp'⟩
      · exact absurd ⟨h0, hslot⟩ hno
      · exact .inr ⟨hp, hp'⟩
  have hown : ∀ f : Position → ℚ, lookup f m'.positions a = f p' := fun f => by
    rw [hps, hbooked.lookup_after hid]
  refine ⟨⟨hrules.trans hm.rules_eq, hps ▸ hbooked.slots_after hm.slots hid,
    hps ▸ hbooked.slots_after hm.boughtSlots hid, fun b => ?_, fun b => ?_⟩, fun b hb => ?_⟩
  · by_cases hb : b = a
    · rw [hb]
      exact hheld.trans_eq (hown Position.position).symm
    · rcases hother b hb with ⟨h, -⟩ | ⟨h, -⟩
      · exact h.symm.le
      · exact h ▸ hm.held b
  · by_cases hb : b = a
    · rw [hb]
      exact hbought.trans_eq (hown Position.boughtToday).symm
    · rcases hother b hb with ⟨-, h⟩ | ⟨-, h⟩
      · exact h.symm.le
      · exact h ▸ hm.bought b
  · unfold available
    rcases hother b hb with ⟨h, h'⟩ | ⟨h, h'⟩
    · rw [h, h', sub_zero, max_self]
      exact le_max_left ..
    · rw [h, h']

theorem attempt_available {t : Attempt} (h : Attempted t) (hm : Sound rules t.before)
    (hq : 0 < t.quantity) : Sound rules t.after ∧
      (t.Settled → ∀ b, t.sold b + available t.after b ≤ available t.before b) := by
  cases h with
  | noSlot e full outcome after =>
    have hsold : ∀ b, t.sold b = 0 := fun b => by simp [Attempt.sold, Attempt.isAccepted, outcome]
    rw [after]
    refine ⟨hm, fun _ b => ?_⟩
    rw [hsold, zero_add]
  | rejected e l q p r slot outcome after =>
    have hsold : ∀ b, t.sold b = 0 := fun b => by simp [Attempt.sold, Attempt.isAccepted, outcome]
    have hheld := hm.held t.assetId
    have hbought := hm.bought t.assetId
    rw [position, slot.lookup_before rfl] at hheld
    rw [boughtToday, slot.lookup_before rfl] at hbought
    have hps : t.after.positions = l ++ p :: r := by rw [after]
    have hrules : t.after.rules = t.before.rules := by rw [after]
    obtain ⟨hsound, hothers⟩ := hm.write slot hps hrules slot.id hheld hbought
    refine ⟨hsound, fun _ b => ?_⟩
    rw [hsold, zero_add]
    by_cases hb : b = t.assetId
    · unfold available position boughtToday
      rw [hb, hps, slot.lookup_after slot.id, slot.lookup_after slot.id, slot.lookup_before rfl,
        slot.lookup_before rfl]
    · exact hothers b hb
  | accepted price comm l q p r slot outcome applied =>
    obtain ⟨p', hps, hid, hposition, hboughtAfter⟩ := applied.slot
    rw [slot.id] at hid
    have hp := hm.held t.assetId
    have hb := hm.bought t.assetId
    rw [position, slot.lookup_before rfl] at hp
    rw [boughtToday, slot.lookup_before rfl] at hb
    have hheld : 0 ≤ p'.position := hposition ▸ filled_nonneg hp hq
    have hbought : 0 ≤ p'.boughtToday := hboughtAfter ▸ boughtAfter_nonneg hb hq
    obtain ⟨hsound, hothers⟩ := hm.write slot hps applied.rules hid hheld hbought
    refine ⟨hsound, fun hsettled b => ?_⟩
    have hsold : t.sold b = if t.direction = .sell ∧ t.assetId = b then t.quantity else 0 := by
      simp [Attempt.sold, Attempt.isAccepted, outcome]
    rw [hsold]
    by_cases hba : b = t.assetId
    · have hafter : available t.after b =
          max 0 (p.filled t.direction t.quantity - p.boughtAfter t.direction t.quantity) := by
        unfold available position boughtToday
        rw [hba, hps, slot.lookup_after hid, slot.lookup_after hid, hposition, hboughtAfter]
      have hnow : available t.before b = max 0 (p.position - p.boughtToday) := by
        unfold available position boughtToday
        rw [hba, slot.lookup_before rfl, slot.lookup_before rfl]
      have hle := hsettled (by simp [Attempt.isAccepted, outcome])
      rw [position, boughtToday, slot.lookup_before rfl, slot.lookup_before rfl] at hle
      rw [hafter, hnow]
      have htake := fill_takes hq hb hle
      by_cases hd : t.direction = .sell
      · rw [if_pos ⟨hd, hba.symm⟩]
        rwa [if_pos hd] at htake
      · rw [if_neg (fun h => hd h.1)]
        rwa [if_neg hd] at htake
    · rw [if_neg (fun h => hba h.2.symm), zero_add]
      exact hothers b hba

/-- The quantity of `a` sold in the events. -/
def sold (es : List Event) (a : AssetId) : ℚ := ((attempts es).map (·.sold a)).sum

theorem Sound.congr (hm : Sound rules m) (h : SameSession m m') :
    Sound rules m' ∧ ∀ a, available m' a = available m a := by
  have hp : ∀ a, position m' a = position m a := fun a => lookup_congr h.positions
  have hb : ∀ a, boughtToday m' a = boughtToday m a := fun a => lookup_congr h.bought
  refine ⟨⟨h.rules.trans hm.rules_eq, hm.slots.congr h.positions, hm.boughtSlots.congr h.bought,
    fun a => ?_, fun a => ?_⟩, fun a => ?_⟩
  · exact hp a ▸ hm.held a
  · exact hb a ▸ hm.bought a
  · rw [available, hp, hb, available]

theorem work_available (h : Work SameSession m es m') (hm : Sound rules m) :
    Sound rules m' ∧ ((∀ t ∈ attempts es, t.Settled) →
      ∀ a, sold es a + available m' a ≤ available m a) := by
  induction h with
  | quiet h hes =>
    obtain ⟨hsound, havailable⟩ := hm.congr h
    refine ⟨hsound, fun _ a => ?_⟩
    rw [sold, hes, havailable]
    exact (zero_add _).le
  | fill order h hq =>
    obtain ⟨hsound, havailable⟩ := attempt_available h hm hq
    refine ⟨hsound, fun hsettled b => ?_⟩
    rw [sold, attempts, List.filterMap_cons, List.filterMap_nil, List.map_singleton, List.sum_singleton]
    exact havailable (hsettled _ (List.mem_singleton_self _)) b
  | seq _ _ ih ih' =>
    obtain ⟨hsound, havailable⟩ := ih hm
    obtain ⟨hsound', havailable'⟩ := ih' hsound
    refine ⟨hsound', fun hsettled a => ?_⟩
    rw [attempts_append, List.forall_mem_append] at hsettled
    have h := havailable hsettled.1 a
    have h' := havailable' hsettled.2 a
    rw [sold, attempts_append, List.map_append, List.sum_append, ← sold, ← sold]
    linarith

theorem Sound.beginBar (hm : Sound rules m) (ht : 1 ≤ rules.tPlus) (date : ℚ) :
    Sound rules (beginBar m date) ∧ ∀ a, available (beginBar m date) a = position (beginBar m date) a := by
  have hsame := beginBar_sameBooks m date
  have hps : (Fin.beginBar m date).positions = m.positions.map fun p => { p with boughtToday := 0 } := by
    unfold Fin.beginBar
    simp only [hm.rules_eq]
    rw [if_pos ht]
  have hbought : ∀ a, boughtToday (Fin.beginBar m date) a = 0 := by
    intro a
    refine lookup_eq_zero fun x hx _ => ?_
    rw [hps] at hx
    obtain ⟨p, -, rfl⟩ := List.mem_map.1 hx
    rfl
  have hheld : ∀ a, position (Fin.beginBar m date) a = position m a := fun a => lookup_congr hsame.positions
  refine ⟨⟨hsame.rules.trans hm.rules_eq, hm.slots.congr hsame.positions, ?_, fun a => ?_, fun a => ?_⟩,
    fun a => ?_⟩
  · rw [Slots, hps, List.pairwise_map]
    exact hm.slots.imp fun h he => ⟨(h he).1, rfl⟩
  · exact hheld a ▸ hm.held a
  · exact (hbought a).symm.le
  · rw [available, hbought, sub_zero, max_eq_right (hheld a ▸ hm.held a)]

theorem history_sound {ops : List Op} (hm : Sound rules m) (hsized : Sized m) (ht : 1 ≤ rules.tPlus)
    (hops : ∀ op ∈ ops, op.isReport = false) :
    Sound rules (history m ops).1 ∧ Sized (history m ops).1 := by
  induction ops generalizing m with
  | nil => exact ⟨hm, hsized⟩
  | cons op ops ih =>
    obtain ⟨hop, hrest⟩ := List.forall_mem_cons.1 hops
    by_cases hbar : op.isBar = true
    · cases op with
      | beginBar date =>
        refine ih (hm.beginBar ht date).1 ?_ hrest
        show Sized (beginBar m date)
        unfold Sized
        rw [beginBar_pending]
        exact hsized
      | _ => cases hbar
    · have hworks := perform_works hsized hop (by simpa using hbar)
      exact ih (work_available hworks.1 hm).1 hworks.2 hrest

theorem session_work {ops : List Op} (hsized : Sized m)
    (hops : ∀ op ∈ ops, op.isReport = false ∧ op.isBar = false) :
    Work SameSession m (history m ops).2 (history m ops).1 := by
  induction ops generalizing m with
  | nil => exact .quiet (.refl m) rfl
  | cons op ops ih =>
    obtain ⟨⟨hop, hbar⟩, hrest⟩ := List.forall_mem_cons.1 hops
    have hworks := perform_works hsized hop hbar
    exact .seq hworks.1 (ih hworks.2 hrest)

end Sessions

/-- In a session whose sells are all of shares not bought in it, no more is sold than was held at
its start. -/
theorem sold_le_of_settled (rules : Rules) (ht : 1 ≤ rules.tPlus) (cash0 : ℚ) (assetCap : Nat)
    (slippagePct spread : ℚ) (live : Bool) (before session : List Op) (date : ℚ)
    (hbefore : ∀ op ∈ before, op.isReport = false)
    (hsession : ∀ op ∈ session, op.isReport = false ∧ op.isBar = false)
    (hsettled : ∀ t ∈ attempts (history (beginBar (history (setUp (some rules) cash0 assetCap
      slippagePct spread live) before).1 date) session).2, t.Settled) (a : AssetId) :
    sold (history (beginBar (history (setUp (some rules) cash0 assetCap slippagePct spread live)
      before).1 date) session).2 a ≤
    position (beginBar (history (setUp (some rules) cash0 assetCap slippagePct spread live)
      before).1 date) a := by
  have hstart : Sound rules (setUp (some rules) cash0 assetCap slippagePct spread live) := by
    refine ⟨rfl, setUp_slots _ rfl _ _ _ _ _ _, setUp_slots _ rfl _ _ _ _ _ _, fun b => ?_, fun b => ?_⟩
    · exact (setUp_position Position.position rfl _ _ _ _ _ _ b).symm.le
    · exact (setUp_position Position.boughtToday rfl _ _ _ _ _ _ b).symm.le
  have hsized : Sized (setUp (some rules) cash0 assetCap slippagePct spread live) := by
    intro o ho
    cases ho
  generalize setUp (some rules) cash0 assetCap slippagePct spread live = m at *
  obtain ⟨hsound, hsized'⟩ := history_sound hstart hsized ht hbefore
  generalize (history m before).1 = m' at *
  obtain ⟨hbar, hopen⟩ := hsound.beginBar ht date
  have hsizedBar : Sized (beginBar m' date) := by
    unfold Sized
    rw [beginBar_pending]
    exact hsized'
  have h := (work_available (session_work hsizedBar hsession) hbar).2 hsettled a
  have hleft : 0 ≤ available (history (beginBar m' date) session).1 a := le_max_left ..
  rw [hopen] at h
  linarith

instance (t : Attempt) : Decidable t.Settled := by
  unfold Attempt.Settled
  infer_instance

/-- Half of what was bought the day before is sold. -/
theorem sold_next_day : sold (history (beginBar (history (setUp (some marketCnAstock) 100000 4 0 0 false)
      [.beginBar 1, .market 1 .buy 1 100 100 0 0]).1 2) [.market 1 .sell 0.5 100 100 0 0]).2 1 ≤
    position (beginBar (history (setUp (some marketCnAstock) 100000 4 0 0 false)
      [.beginBar 1, .market 1 .buy 1 100 100 0 0]).1 2) 1 :=
  sold_le_of_settled marketCnAstock (by decide) 100000 4 0 0 false
    [.beginBar 1, .market 1 .buy 1 100 100 0 0] [.market 1 .sell 0.5 100 100 0 0] 2
    (by simp [Op.isReport]) (by simp [Op.isReport, Op.isBar]) (by decide +kernel) 1

/-- A buy can be closed in the session it was made in. -/
theorem bought_shares_sold : ¬sold (history (beginBar (history
      (setUp (some marketCnAstock) 100000 4 0 0 false) []).1 1)
      [.market 1 .buy 1 100 100 0 0, .close 1 101]).2 1 ≤
    position (beginBar (history (setUp (some marketCnAstock) 100000 4 0 0 false) []).1 1) 1 := by
  decide +kernel

end TurboScript.Fin
