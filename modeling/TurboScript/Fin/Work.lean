import Mathlib.Data.List.GetD
import TurboScript.Fin.Orders

/- What an operation can do to the books: attempts to fill, and changes that leave cash and
   positions alone.

   1. The slot an order is booked in (`Booked`), and what a lookup gives after it is written.
   2. `attempt_cases`, the only place where `executeFill` is taken apart.
   3. `Work`: sequences of attempts and of changes that keep a relation; `perform_work` says that
      every operation but a report is one. -/
namespace TurboScript.Fin

/-! Slots. -/

section Lookup
variable {f : Position → ℚ} {ps l r : List Position} {p q p' : Position} {a b : AssetId}

theorem lookup_cons : lookup f (p :: ps) a = if p.assetId = a then f p else lookup f ps a := by
  unfold lookup
  by_cases h : p.assetId = a <;> simp [h]

theorem lookup_cons_self (h : p.assetId = a) : lookup f (p :: ps) a = f p := by
  rw [lookup_cons, if_pos h]

theorem lookup_cons_ne (h : p.assetId ≠ a) : lookup f (p :: ps) a = lookup f ps a := by
  rw [lookup_cons, if_neg h]

theorem lookup_skip (h : p.assetId ≠ a) : lookup f (l ++ p :: r) a = lookup f (l ++ r) a := by
  induction l with
  | nil => exact lookup_cons_ne h
  | cons x l ih =>
    rw [List.cons_append, List.cons_append, lookup_cons, lookup_cons, ih]

theorem lookup_append (h : ∀ x ∈ l, x.assetId ≠ a) : lookup f (l ++ r) a = lookup f r a := by
  induction l with
  | nil => rfl
  | cons x l ih =>
    rw [List.cons_append, lookup_cons_ne (h x (List.mem_cons_self ..))]
    exact ih fun y hy => h y (List.mem_cons_of_mem _ hy)

theorem lookup_eq_zero (h : ∀ x ∈ ps, x.assetId = a → f x = 0) : lookup f ps a = 0 := by
  induction ps with
  | nil => rfl
  | cons x ps ih =>
    by_cases hx : x.assetId = a
    · rw [lookup_cons_self hx]
      exact h x (List.mem_cons_self ..) hx
    · rw [lookup_cons_ne hx]
      exact ih fun y hy => h y (List.mem_cons_of_mem _ hy)

theorem lookup_congr {ps' : List Position}
    (h : ps'.map (fun p => (p.assetId, f p)) = ps.map (fun p => (p.assetId, f p))) :
    lookup f ps' a = lookup f ps a := by
  induction ps generalizing ps' with
  | nil => rw [List.map_eq_nil_iff.1 h]
  | cons x ps ih =>
    cases ps' with
    | nil => cases h
    | cons x' ps' =>
      simp only [List.map_cons, List.cons.injEq, Prod.mk.injEq] at h
      obtain ⟨⟨hid, hf⟩, hrest⟩ := h
      by_cases hx : x.assetId = a
      · rw [lookup_cons_self hx, lookup_cons_self (hid.trans hx), hf]
      · rw [lookup_cons_ne hx, lookup_cons_ne (fun h' => hx (hid.symm.trans h')), ih hrest]

/-- Of two slots with one id the later is an empty one with nothing in it. -/
def Slots (f : Position → ℚ) (ps : List Position) : Prop :=
  ps.Pairwise fun p p' => p.assetId = p'.assetId → p'.assetId = 0 ∧ f p' = 0

theorem Slots.congr {ps' : List Position}
    (h : ps'.map (fun p => (p.assetId, f p)) = ps.map (fun p => (p.assetId, f p)))
    (hs : Slots f ps) : Slots f ps' := by
  have hmap : ∀ qs : List Position, Slots f qs ↔ (qs.map fun p => (p.assetId, f p)).Pairwise
      fun v v' => v.1 = v'.1 → v'.1 = 0 ∧ v'.2 = 0 := fun qs => by
    rw [List.pairwise_map]; rfl
  rw [hmap, h, ← hmap]
  exact hs

/-- An order on `a` is booked in the slot of `q`: its own, which holds `p = q`, or the first
empty one, which is made into an empty `p`. -/
structure Booked (ps : List Position) (a : AssetId) (l : List Position) (q p : Position)
    (r : List Position) : Prop where
  split : ps = l ++ q :: r
  id : p.assetId = a
  first : ∀ x ∈ l, x.assetId ≠ a
  old : q = p ∨ q.assetId = 0 ∧ p = { assetId := a } ∧ (∀ x ∈ ps, x.assetId ≠ a) ∧
    ∀ x ∈ l, x.assetId ≠ 0

def hasSlot (ps : List Position) (a : AssetId) : Bool := ps.any fun p => p.assetId == a

namespace Booked

theorem lookup_after (h : Booked ps a l q p r) (hid : p'.assetId = a) :
    lookup f (l ++ p' :: r) a = f p' := by
  rw [lookup_append h.first, lookup_cons_self hid]

theorem lookup_before (hf : f { assetId := a } = 0) (h : Booked ps a l q p r) : lookup f ps a = f p := by
  rcases h.old with hq | ⟨-, hp, hnone, -⟩
  · rw [h.split, lookup_append h.first, hq, lookup_cons_self h.id]
  · rw [hp, hf]
    exact lookup_eq_zero fun x hx hxa => absurd hxa (hnone x hx)

theorem hasSlot_eq (h : Booked ps a l q p r) : hasSlot ps a = true ↔ q = p := by
  constructor
  · intro hslot
    obtain ⟨x, hx, hxa⟩ := List.any_eq_true.1 hslot
    rcases h.old with hq | ⟨-, -, hnone, -⟩
    · exact hq
    · exact absurd (beq_iff_eq.1 hxa) (hnone x hx)
  · intro hq
    refine List.any_eq_true.2 ⟨q, ?_, beq_iff_eq.2 (hq ▸ h.id)⟩
    rw [h.split]
    simp

theorem lookup_other (h : Booked ps a l q p r) (hs : Slots f ps) (hid : p'.assetId = a)
    (hb : b ≠ a) : lookup f (l ++ p' :: r) b =
      if b = 0 ∧ hasSlot ps a = false then 0 else lookup f ps b := by
  have hp' : p'.assetId ≠ b := fun e => hb (e.symm.trans hid)
  rw [lookup_skip hp']
  rcases h.old with hq | ⟨hq, -, hnone, hl⟩
  · have hslot : ¬(b = 0 ∧ hasSlot ps a = false) := by simp [h.hasSlot_eq.2 hq]
    have hqb : q.assetId ≠ b := fun e => hb (e.symm.trans (hq ▸ h.id))
    rw [if_neg hslot, h.split, lookup_skip hqb]
  · by_cases hb0 : b = 0
    · have hslot : hasSlot ps a = false := by
        simpa [hasSlot] using hnone
      rw [if_pos ⟨hb0, hslot⟩, lookup_append (hb0 ▸ hl)]
      -- the slots after `q` with its id are empty
      rw [Slots, h.split, List.pairwise_append, List.pairwise_cons] at hs
      exact lookup_eq_zero fun x hx hxb => (hs.2.1.1 x hx (by rw [hq, hxb, hb0])).2
    · rw [if_neg (fun e => hb0 e.1), h.split, lookup_skip (fun e => hb0 (e.symm.trans hq))]

theorem slots_after (h : Booked ps a l q p r) (hs : Slots f ps) (hid : p'.assetId = a) :
    Slots f (l ++ p' :: r) := by
  rw [Slots, h.split, List.pairwise_append, List.pairwise_cons] at hs
  obtain ⟨hl, ⟨hq, hr⟩, hlr⟩ := hs
  rw [Slots, List.pairwise_append, List.pairwise_cons]
  refine ⟨hl, ⟨fun y hy hya => ?_, hr⟩, fun x hx y hy hxy => ?_⟩
  · rw [hid] at hya
    rcases h.old with hqp | ⟨-, -, hnone, -⟩
    · exact hq y hy (by rw [hqp, h.id, hya])
    · exact absurd hya.symm (hnone y (by rw [h.split]; simp [hy]))
  · rcases List.mem_cons.1 hy with rfl | hy
    · exact absurd (hxy.trans hid) (h.first x hx)
    · exact hlr x hx y (List.mem_cons_of_mem _ hy) hxy

end Booked

end Lookup

variable {m m' : Manager}

theorem findOrCreatePosition_cases {a : AssetId} {i : Nat} {p : Position}
    (h : findOrCreatePosition m a = some (m', i, p)) :
    ∃ l q r, Booked m.positions a l q p r ∧ i = l.length ∧ m' = { m with positions := l ++ p :: r } := by
  have hsplit : ∀ {g : Position → Bool}, m.positions.findIdx? g = some i → ∃ l q r,
      m.positions = l ++ q :: r ∧ i = l.length ∧ g q = true ∧ ∀ x ∈ l, g x = false := by
    intro g hg
    obtain ⟨hi, hgi, hlt⟩ := List.findIdx?_eq_some_iff_getElem.1 hg
    refine ⟨m.positions.take i, m.positions[i], m.positions.drop (i + 1), ?_, ?_, hgi, ?_⟩
    · rw [List.getElem_cons_drop, List.take_append_drop]
    · rw [List.length_take, min_eq_left hi.le]
    · intro x hx
      obtain ⟨j, hj, rfl⟩ := List.getElem_of_mem hx
      rw [List.length_take] at hj
      rw [List.getElem_take]
      simpa using hlt j (by omega)
  unfold findOrCreatePosition at h
  split at h
  · next j hj =>
    cases h
    obtain ⟨l, q, r, hps, hl, hq, hfirst⟩ := hsplit hj
    have hget : m.positions.getD i {} = q := by rw [hps, hl]; simp
    rw [hget]
    exact ⟨l, q, r, ⟨hps, beq_iff_eq.1 hq, fun x hx => by simpa using hfirst x hx, .inl rfl⟩, hl,
      by rw [← hps]⟩
  · next hnone =>
    split at h
    · next j hj =>
      cases h
      obtain ⟨l, q, r, hps, hl, hq, hfirst⟩ := hsplit hj
      have hnone' : ∀ x ∈ m.positions, x.assetId ≠ a := by
        simpa using List.findIdx?_eq_none_iff.1 hnone
      refine ⟨l, q, r, ⟨hps, rfl, fun x hx => hnone' x (by rw [hps]; simp [hx]),
        .inr ⟨beq_iff_eq.1 hq, rfl, hnone', fun x hx => by simpa using hfirst x hx⟩⟩, hl, ?_⟩
      rw [hps, hl, List.set_append_right _ _ (le_refl _)]
      simp
    · cases h

theorem findOrCreatePosition_none {a : AssetId} (h : findOrCreatePosition m a = none) :
    ∀ x ∈ m.positions, x.assetId ≠ 0 := by
  unfold findOrCreatePosition at h
  split at h
  · cases h
  split at h
  · cases h
  next hnone => simpa using List.findIdx?_eq_none_iff.1 hnone

/-! Fills. -/

section Fills
variable {m : Manager} {a : AssetId} {d : Direction} {q price comm stopLoss takeProfit : ℚ}
  {p : Position} {l r : List Position}

def Position.filled (p : Position) (d : Direction) (q : ℚ) : ℚ :=
  match d with
  | .buy => p.position + q
  | .sell => (p.sell q).position

def Position.paid (p : Position) (d : Direction) (q : ℚ) : ℚ :=
  match d with
  | .buy => q
  | .sell => -p.closeQty q

def Position.boughtAfter (p : Position) (d : Direction) (q : ℚ) : ℚ :=
  match d with
  | .buy => p.boughtToday + q
  | .sell => p.boughtToday

/-- What `applyFill` does on the slot after `l`. -/
structure Applied (m : Manager) (l : List Position) (p : Position) (r : List Position)
    (d : Direction) (q price comm : ℚ) (m' : Manager) : Prop where
  slot : ∃ p' : Position, m'.positions = l ++ p' :: r ∧ p'.assetId = p.assetId ∧
    p'.position = p.filled d q ∧ p'.boughtToday = p.boughtAfter d q
  cash : m'.cash = m.cash - comm - p.paid d q * price
  initialCash : m'.initialCash = m.initialCash
  rules : m'.rules = m.rules
  pending : m'.pending = m.pending
  nextOrderId : m'.nextOrderId = m.nextOrderId
  live : m'.live = m.live

theorem set_slot (p' : Position) : (l ++ p :: r).set l.length p' = l ++ p' :: r := by
  rw [List.set_append_right _ _ (le_refl _), Nat.sub_self]
  rfl

theorem sell_assetId : (p.sell q).assetId = p.assetId := by
  unfold Position.sell
  split <;> rfl

theorem sell_boughtToday : (p.sell q).boughtToday = p.boughtToday := by
  unfold Position.sell
  split <;> rfl

theorem applyFill_applied : Applied m l p r d q price comm
    (applyFill { m with positions := l ++ p :: r } l.length p d q price comm stopLoss takeProfit) := by
  cases d with
  | buy =>
    refine ⟨⟨_, set_slot _, rfl, rfl, rfl⟩, ?_, rfl, rfl, rfl, rfl, rfl⟩
    show m.cash - comm - price * q = m.cash - comm - q * price
    ring
  | sell =>
    refine ⟨⟨_, set_slot _, sell_assetId, rfl, sell_boughtToday⟩, ?_, rfl, rfl, rfl, rfl, rfl⟩
    show m.cash - comm + price * p.closeQty q = m.cash - comm - -p.closeQty q * price
    ring

/-- What an attempt to fill comes to: it is turned down, which may still give the asset a slot,
or it is applied to the slot of the asset. -/
inductive Attempted (t : Attempt) : Prop
  | noSlot (e : OrderError) (full : ∀ x ∈ t.before.positions, x.assetId ≠ 0)
      (outcome : t.outcome = .rejected e) (after : t.after = t.before)
  | rejected (e : OrderError) (l : List Position) (q p : Position) (r : List Position)
      (slot : Booked t.before.positions t.assetId l q p r) (outcome : t.outcome = .rejected e)
      (after : t.after = { t.before with positions := l ++ p :: r })
  | accepted (price comm : ℚ) (l : List Position) (q p : Position) (r : List Position)
      (slot : Booked t.before.positions t.assetId l q p r) (outcome : t.outcome = .accepted price comm)
      (applied : Applied t.before l p r t.direction t.quantity price comm t.after)

theorem attempt_cases (m : Manager) (a : AssetId) (d : Direction)
    (q execPrice prevClose stopLoss takeProfit : ℚ) :
    Attempted (attempt m a d q execPrice prevClose stopLoss takeProfit) := by
  have hr : ∀ r, executeFill m a d q execPrice prevClose stopLoss takeProfit = r →
      Attempted ⟨a, d, q, r.2, m, r.1⟩ := by
    intro r hr
    unfold executeFill at hr
    split at hr
    · next hnone =>
      subst hr
      exact .noSlot _ (findOrCreatePosition_none hnone) rfl rfl
    · next m' i p hslot =>
      obtain ⟨l, q', r, hbooked, rfl, rfl⟩ := findOrCreatePosition_cases hslot
      dsimp only at hr
      by_cases herr : marketValidateOrder m.rules true execPrice q d prevClose p.position
          (if d = .buy then p.boughtToday else 0) (-1) = .ok
      · rw [if_neg (not_not.2 herr)] at hr
        subst hr
        exact .accepted _ _ l q' p r hbooked rfl applyFill_applied
      · rw [if_pos herr] at hr
        subst hr
        exact .rejected _ l q' p r hbooked rfl rfl
  exact hr _ rfl

theorem Attempted.pending {t : Attempt} (h : Attempted t) : t.after.pending = t.before.pending := by
  cases h with
  | noSlot _ _ _ after | rejected _ _ _ _ _ _ _ after => rw [after]
  | accepted price comm l q p r slot outcome applied => exact applied.pending

end Fills

/-! Operations as work. -/

def attempts (es : List Event) : List Attempt :=
  es.filterMap fun e =>
    match e with
    | .attempt _ t => some t
    | _ => none

theorem attempts_append (es es' : List Event) : attempts (es ++ es') = attempts es ++ attempts es' :=
  List.filterMap_append

theorem attempts_status (os : List Order) (s : OrderStatus) :
    attempts (os.map fun o => .status o.id o.status s) = [] := by
  induction os with
  | nil => rfl
  | cons o os ih => exact ih

/-- Attempts to fill, and changes in `S` with no attempt among their events. -/
inductive Work (S : Manager → Manager → Prop) : Manager → List Event → Manager → Prop
  | quiet {m m' : Manager} {es : List Event} (h : S m m') (hes : attempts es = []) : Work S m es m'
  | fill {t : Attempt} (order : Option OrderId) (h : Attempted t) (hq : 0 < t.quantity) :
      Work S t.before [.attempt order t] t.after
  | seq {m m' m'' : Manager} {es es' : List Event} (h : Work S m es m') (h' : Work S m' es' m'') :
      Work S m (es ++ es') m''

theorem Work.mono {S S' : Manager → Manager → Prop} (hS : ∀ m m', S m m' → S' m m')
    {es : List Event} (h : Work S m es m') : Work S' m es m' := by
  induction h with
  | quiet h hes => exact .quiet (hS _ _ h) hes
  | fill order h hq => exact .fill order h hq
  | seq _ _ ih ih' => exact .seq ih ih'

structure SameBooks (m m' : Manager) : Prop where
  rules : m'.rules = m.rules
  cash : m'.cash = m.cash
  initialCash : m'.initialCash = m.initialCash
  positions : m'.positions.map (fun p => (p.assetId, p.position)) =
    m.positions.map (fun p => (p.assetId, p.position))

structure SameSession (m m' : Manager) : Prop extends SameBooks m m' where
  bought : m'.positions.map (fun p => (p.assetId, p.boughtToday)) =
    m.positions.map (fun p => (p.assetId, p.boughtToday))

theorem SameSession.refl (m : Manager) : SameSession m m := ⟨⟨rfl, rfl, rfl, rfl⟩, rfl⟩

theorem sameSession_set (m : Manager) (i : Nat) {p' : Position}
    (hid : p'.assetId = (m.positions.getD i {}).assetId)
    (hposition : p'.position = (m.positions.getD i {}).position)
    (hbought : p'.boughtToday = (m.positions.getD i {}).boughtToday) :
    SameSession m { m with positions := m.positions.set i p' } := by
  have hmap : ∀ f : Position → ℚ, p'.assetId = (m.positions.getD i {}).assetId →
      f p' = f (m.positions.getD i {}) →
      (m.positions.set i p').map (fun p => (p.assetId, f p)) =
        m.positions.map (fun p => (p.assetId, f p)) := by
    intro f hid hf
    by_cases hi : i < m.positions.length
    · rw [List.getD_eq_getElem _ _ hi] at hid hf
      rw [List.map_set, hid, hf]
      refine List.ext_getElem (by simp) fun j hj _ => ?_
      rw [List.getElem_set]
      split
      · next hij =>
        subst hij
        rw [List.getElem_map]
      · rfl
    · rw [List.set_eq_of_length_le (not_lt.1 hi)]
  exact ⟨⟨rfl, rfl, rfl, hmap Position.position hid hposition⟩, hmap Position.boughtToday hid hbought⟩

/-- Every pending order is for a positive quantity. -/
def Sized (m : Manager) : Prop := ∀ o ∈ m.pending, 0 < o.quantity

/-- An operation is work, and leaves pending orders with positive quantities. -/
def Works (m : Manager) (r : Manager × List Event) : Prop := Work SameSession m r.2 r.1 ∧ Sized r.1

theorem Works.quiet {es : List Event} (h : SameSession m m') (hes : attempts es = [])
    (hsized : Sized m') : Works m (m', es) :=
  ⟨.quiet h hes, hsized⟩

theorem Works.seq {es : List Event} {r : Manager × List Event} (h : Work SameSession m es m')
    (h' : Works m' r) : Works m (r.1, es ++ r.2) :=
  ⟨.seq h h'.1, h'.2⟩

theorem Works.fill {t : Attempt} (hm : Sized t.before) (h : Attempted t) (hq : 0 < t.quantity) :
    Works t.before (t.after, [.attempt none t]) := by
  refine ⟨.fill none h hq, ?_⟩
  unfold Sized
  rw [h.pending]
  exact hm

section Operations
variable {m : Manager}

theorem sized_map {f : Order → Order} (hf : ∀ o, (f o).quantity = o.quantity) (hm : Sized m) :
    Sized { m with pending := m.pending.map f } := by
  intro o ho
  obtain ⟨o', ho', rfl⟩ := List.mem_map.1 ho
  rw [hf]
  exact hm o' ho'

theorem sized_filter {g : Order → Bool} (hm : Sized m) : Sized { m with pending := m.pending.filter g } :=
  fun o ho => hm o (List.mem_of_mem_filter ho)

theorem expireOrder_quantity (a : AssetId) (o : Order) : (expireOrder a o).quantity = o.quantity := by
  unfold expireOrder
  split
  · split
    · rfl
    · split <;> rfl
  · rfl

theorem expireOrders_works (hm : Sized m) (a : AssetId) (high low : ℚ) :
    Works m (expireOrders m a high low) :=
  .quiet ⟨⟨rfl, rfl, rfl, rfl⟩, rfl⟩ (attempts_status _ _) (sized_map (expireOrder_quantity a) hm)

theorem compact_works (hm : Sized m) : Works m (compact m, []) :=
  .quiet ⟨⟨rfl, rfl, rfl, rfl⟩, rfl⟩ rfl (sized_filter hm)

theorem findPosition_ne {a : AssetId} {i : Nat} (h : findPosition m a = some i) :
    (m.positions.getD i {}).position ≠ 0 := by
  obtain ⟨hi, hp, -⟩ := List.findIdx?_eq_some_iff_getElem.1 h
  rw [List.getD_eq_getElem _ _ hi]
  simp only [Bool.and_eq_true, bne_iff_ne] at hp
  exact hp.2

theorem close_works (hm : Sized m) (a : AssetId) (execPrice : ℚ) : Works m (close m a execPrice) := by
  unfold close
  split
  · exact .quiet (.refl m) rfl hm
  · next i hi =>
    dsimp only
    split
    · exact .quiet ⟨⟨rfl, rfl, rfl, rfl⟩, rfl⟩ rfl hm
    · exact .fill hm (attempt_cases ..) (abs_pos.2 (findPosition_ne hi))

theorem cancelLinked_quantity {link : Nat} {os : List Order} (h : ∀ o ∈ os, 0 < o.quantity) :
    ∀ o ∈ (cancelLinked link os).1, 0 < o.quantity := by
  unfold cancelLinked
  split
  · intro o ho
    obtain ⟨o', ho', rfl⟩ := List.mem_map.1 ho
    split
    · exact h o' ho'
    · exact h o' ho'
  · exact h

theorem cancelLinked_attempts (link : Nat) (os : List Order) : attempts (cancelLinked link os).2 = [] := by
  unfold cancelLinked
  split
  · exact attempts_status _ _
  · rfl

theorem matchOrder_cases (m : Manager) (a : AssetId) (high low prevClose : ℚ) (i : Nat) :
    (matchOrder m a high low prevClose i = (m, []) ∧
      ∀ o, m.pending[i]? = some o → meets a high low o = false) ∨
    ∃ o t x y, m.pending[i]? = some o ∧ meets a high low o = true ∧ Attempted t ∧ t.before = m ∧
      t.quantity = o.quantity ∧
      let linked := cancelLinked o.ocoLinkId
        (m.pending.set i { o with status := .filled, fillPrice := x, fillDate := y })
      matchOrder m a high low prevClose i = ({ t.after with pending := linked.1 },
        .attempt (some o.id) t :: .status o.id o.status .filled :: linked.2) := by
  unfold matchOrder
  cases ho : m.pending[i]? with
  | none =>
    left
    exact ⟨rfl, fun o h => by cases h⟩
  | some o =>
    dsimp only
    by_cases hno : o.assetId ≠ a ∨ (!isPending o) = true
    · left
      rw [if_pos hno]
      refine ⟨rfl, fun o' h => ?_⟩
      cases h
      rcases hno with hno | hno
      · simp [meets, hno]
      · simp [meets, (by simpa using hno : isPending o = false)]
    · rw [if_neg hno]
      simp only [not_or, not_not, Bool.not_eq_true, Bool.not_eq_false'] at hno
      cases hprice : triggerPrice o high low with
      | none =>
        left
        refine ⟨rfl, fun o' h => ?_⟩
        cases h
        simp [meets, hprice]
      | some price =>
        right
        refine ⟨o, _, _, _, rfl, ?_, attempt_cases .., rfl, rfl, rfl⟩
        simp [meets, hprice, hno.1, hno.2]

theorem matchOrder_works (hm : Sized m) (a : AssetId) (high low prevClose : ℚ) (i : Nat) :
    Works m (matchOrder m a high low prevClose i) := by
  rcases matchOrder_cases m a high low prevClose i with
    ⟨heq, -⟩ | ⟨o, t, x, y, ho, -, hattempted, rfl, hq, heq⟩
  · rw [heq]
    exact .quiet (.refl m) rfl hm
  · have hmem : o ∈ t.before.pending := List.mem_of_getElem? ho
    -- the attempt, then the status of the order and of those linked to it
    have hfill := Work.fill (S := SameSession) (some o.id) hattempted (hq ▸ hm o hmem)
    rw [heq]
    refine ⟨.seq hfill (.quiet ⟨⟨rfl, rfl, rfl, rfl⟩, rfl⟩ (cancelLinked_attempts _ _)), ?_⟩
    refine cancelLinked_quantity fun o' ho' => ?_
    rcases List.mem_or_eq_of_mem_set ho' with ho' | rfl
    · exact hm o' ho'
    · exact hm o hmem

theorem matchOrders_works (a : AssetId) (high low prevClose : ℚ) (i n : Nat) (hm : Sized m) :
    Works m (matchOrders m a high low prevClose i n) := by
  induction n generalizing m i with
  | zero => exact .quiet (.refl m) rfl hm
  | succ n ih =>
    have hstep := matchOrder_works hm a high low prevClose i
    exact .seq hstep.1 (ih (i + 1) hstep.2)

theorem trail_keeps (p : Position) (high low : ℚ) : (trail p high low).assetId = p.assetId ∧
    (trail p high low).position = p.position ∧ (trail p high low).boughtToday = p.boughtToday := by
  unfold trail
  split
  · split
    · exact ⟨rfl, rfl, rfl⟩
    · split <;> exact ⟨rfl, rfl, rfl⟩
  · exact ⟨rfl, rfl, rfl⟩

def exitsOn (m : Manager) (a : AssetId) (high low : ℚ) : Bool :=
  match findPosition m a with
  | some i => (exitLevel (trail (m.positions.getD i {}) high low) high low).isSome
  | none => false

theorem checkTriggers_cases (m : Manager) (a : AssetId) (high low prevClose : ℚ) : m.live = true ∧
      checkTriggers m a high low prevClose = expireOrders m a high low ∨
    m.live = false ∧ ∃ m', SameSession (expireOrders m a high low).1 m' ∧
      m'.pending = (expireOrders m a high low).1.pending ∧
      m'.nextOrderId = (expireOrders m a high low).1.nextOrderId ∧
      ((exitsOn m a high low = true ∧ ∃ level, checkTriggers m a high low prevClose =
          ((close m' a level).1, (expireOrders m a high low).2 ++ (close m' a level).2)) ∨
        exitsOn m a high low = false ∧ checkTriggers m a high low prevClose =
          (compact (matchOrders m' a high low prevClose 0 m'.pending.length).1,
            (expireOrders m a high low).2 ++
              (matchOrders m' a high low prevClose 0 m'.pending.length).2)) := by
  unfold checkTriggers exitsOn
  dsimp only
  by_cases hlive : (expireOrders m a high low).1.live = true
  · rw [if_pos hlive]
    exact .inl ⟨hlive, rfl⟩
  · rw [if_neg hlive]
    have hoff : m.live = false := by simpa [expireOrders] using hlive
    have hfind : findPosition (expireOrders m a high low).1 a = findPosition m a := rfl
    have hslots : (expireOrders m a high low).1.positions = m.positions := rfl
    rw [hfind, hslots]
    refine .inr ⟨hoff, ?_⟩
    cases hi : findPosition m a with
    | none => exact ⟨_, .refl _, rfl, rfl, .inr ⟨rfl, rfl⟩⟩
    | some i =>
      have htrail := trail_keeps (m.positions.getD i {}) high low
      have hset := sameSession_set (expireOrders m a high low).1 i htrail.1 htrail.2.1 htrail.2.2
      refine ⟨_, hset, rfl, rfl, ?_⟩
      dsimp only
      cases hexit : exitLevel (trail (m.positions.getD i {}) high low) high low with
      | some level => exact .inl ⟨rfl, _, rfl⟩
      | none => exact .inr ⟨rfl, rfl⟩

theorem checkTriggers_works (hm : Sized m) (a : AssetId) (high low prevClose : ℚ) :
    Works m (checkTriggers m a high low prevClose) := by
  have hexpire := expireOrders_works hm a high low
  rcases checkTriggers_cases m a high low prevClose with
    ⟨-, heq⟩ | ⟨-, m', hsame, hpending, -, ⟨-, level, heq⟩ | ⟨-, heq⟩⟩
  · rw [heq]
    exact hexpire
  all_goals
    have hsized : Sized m' := by
      unfold Sized
      rw [hpending]
      exact hexpire.2
    have hquiet : attempts [] = [] := rfl
    have hmoved := Work.seq hexpire.1 (.quiet hsame hquiet)
    rw [List.append_nil] at hmoved
    rw [heq]
  · exact .seq hmoved (close_works hsized a level)
  · have hmatch := matchOrders_works a high low prevClose 0 m'.pending.length hsized
    have hcompact := Works.seq hmatch.1 (compact_works hmatch.2)
    rw [List.append_nil] at hcompact
    exact .seq hmoved hcompact

theorem market_works (hm : Sized m) (a : AssetId) (d : Direction)
    (fraction execPrice prevClose stopLoss takeProfit : ℚ) :
    Works m (market m a d fraction execPrice prevClose stopLoss takeProfit) := by
  unfold market
  dsimp only
  split
  · exact .quiet (.refl m) rfl hm
  split
  · exact .quiet (.refl m) rfl hm
  split
  · exact .quiet (.refl m) rfl hm
  next hq =>
  split
  · exact .quiet ⟨⟨rfl, rfl, rfl, rfl⟩, rfl⟩ rfl hm
  · exact .fill hm (attempt_cases ..) (not_le.1 hq)

theorem submit_works {order : OrderId → Order} (horder : ∀ id, 0 < (order id).quantity)
    (hm : Sized m) (answer : OrderError) : Works m (submit m order answer) := by
  unfold submit
  dsimp only
  split
  · exact .quiet ⟨⟨rfl, rfl, rfl, rfl⟩, rfl⟩ rfl hm
  · refine .quiet ⟨⟨rfl, rfl, rfl, rfl⟩, rfl⟩ rfl fun o ho => ?_
    rcases List.mem_append.1 ho with ho | ho
    · exact hm o ho
    · rw [List.mem_singleton.1 ho]
      exact horder _

theorem setSlTp_works (hm : Sized m) (a : AssetId) (stopLoss takeProfit : ℚ) :
    Works m (setSlTp m a stopLoss takeProfit, []) := by
  unfold setSlTp
  split
  · exact .quiet (.refl m) rfl hm
  · exact .quiet (sameSession_set m _ rfl rfl rfl) rfl hm

theorem setTrailingStop_works (hm : Sized m) (a : AssetId) (distance : ℚ) (isPct : Bool) :
    Works m (setTrailingStop m a distance isPct, []) := by
  unfold setTrailingStop
  split
  · exact .quiet (.refl m) rfl hm
  · exact .quiet (sameSession_set m _ rfl rfl rfl) rfl hm

theorem mark_keeps (prices : List (AssetId × ℚ)) (p : Position) :
    (mark prices p).assetId = p.assetId ∧ (mark prices p).position = p.position ∧
      (mark prices p).boughtToday = p.boughtToday := by
  unfold mark
  split
  · exact ⟨rfl, rfl, rfl⟩
  · split <;> exact ⟨rfl, rfl, rfl⟩

theorem markToMarket_works (hm : Sized m) (prices : List (AssetId × ℚ)) :
    Works m (markToMarket m prices, []) := by
  have hmap : ∀ f : Position → AssetId × ℚ, (∀ p, f (mark prices p) = f p) →
      (markToMarket m prices).positions.map f = m.positions.map f := by
    intro f hf
    show (List.map _ (m.positions.take prices.length) ++ m.positions.drop prices.length).map f = _
    have hcomp : f ∘ mark prices = f := funext hf
    rw [List.map_append, List.map_map, hcomp, ← List.map_append, List.take_append_drop]
  have hmark := mark_keeps prices
  refine .quiet ⟨⟨rfl, rfl, rfl, hmap _ fun p => ?_⟩, hmap _ fun p => ?_⟩ rfl hm
  · rw [(hmark p).1, (hmark p).2.1]
  · rw [(hmark p).1, (hmark p).2.2]

theorem cancelOrder_works (hm : Sized m) (id : OrderId) : Works m (cancelOrder m id) := by
  unfold cancelOrder
  split
  · next i hi =>
    obtain ⟨hlt, -⟩ := List.findIdx?_eq_some_iff_getElem.1 hi
    refine .quiet ⟨⟨rfl, rfl, rfl, rfl⟩, rfl⟩ rfl (sized_filter (m := { m with pending := _ }) ?_)
    intro o ho
    rcases List.mem_or_eq_of_mem_set ho with ho | rfl
    · exact hm o ho
    · rw [List.getD_eq_getElem _ _ hlt]
      exact hm m.pending[i] (List.getElem_mem hlt)
  · exact compact_works hm

theorem cancelPending_works (hm : Sized m) (a : AssetId) : Works m (cancelPending m a) := by
  refine .quiet ⟨⟨rfl, rfl, rfl, rfl⟩, rfl⟩ (attempts_status _ _)
    (sized_filter (m := { m with pending := _ }) (sized_map (fun o => ?_) hm))
  split <;> rfl

theorem linkOco_works (hm : Sized m) (id₁ id₂ : OrderId) : Works m (linkOco m id₁ id₂) := by
  refine .quiet ⟨⟨rfl, rfl, rfl, rfl⟩, rfl⟩ rfl (sized_map (m := m) (fun o => ?_) hm)
  split <;> rfl

end Operations

def Op.isReport : Op → Bool
  | .reportFill .. => true
  | _ => false

def Op.isBar : Op → Bool
  | .beginBar _ => true
  | _ => false

theorem perform_works (hm : Sized m) {op : Op} (hreport : op.isReport = false)
    (hbar : op.isBar = false) : Works m (perform m op) := by
  cases op with
  | beginBar date => cases hbar
  | checkTriggers a high low prevClose => exact checkTriggers_works hm a high low prevClose
  | market a d fraction execPrice prevClose stopLoss takeProfit =>
    exact market_works hm a d fraction execPrice prevClose stopLoss takeProfit
  | limit a d fraction limitPrice stopLoss takeProfit barsValid answer =>
    unfold perform limit
    dsimp only
    split
    · exact .quiet (.refl m) rfl hm
    · next hq => exact submit_works (fun _ => not_le.1 hq) hm answer
  | stop a d fraction stopPrice stopLoss takeProfit barsValid answer =>
    unfold perform stop
    dsimp only
    split
    · exact .quiet (.refl m) rfl hm
    · next hq => exact submit_works (fun _ => not_le.1 hq) hm answer
  | close a execPrice => exact close_works hm a execPrice
  | reportFill id a d quantity price stopLoss takeProfit => cases hreport
  | setSlTp a stopLoss takeProfit => exact setSlTp_works hm a stopLoss takeProfit
  | setTrailingStop a distance isPct => exact setTrailingStop_works hm a distance isPct
  | linkOco id₁ id₂ => exact linkOco_works hm id₁ id₂
  | cancelOrder id => exact cancelOrder_works hm id
  | cancelPending a => exact cancelPending_works hm a
  | markToMarket prices => exact markToMarket_works hm prices

theorem beginBar_sameBooks (m : Manager) (date : ℚ) : SameBooks m (beginBar m date) := by
  unfold beginBar
  dsimp only
  split
  · split
    · exact ⟨rfl, rfl, rfl, List.map_map⟩
    · exact ⟨rfl, rfl, rfl, rfl⟩
  · exact ⟨rfl, rfl, rfl, rfl⟩

theorem beginBar_pending (m : Manager) (date : ℚ) : (beginBar m date).pending = m.pending := by
  unfold beginBar
  dsimp only
  split
  · split <;> rfl
  · rfl

end TurboScript.Fin
