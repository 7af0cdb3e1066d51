import Mathlib.Data.List.Nodup
import TurboScript.Fin.Life

/- The pending orders over whole histories.

   1. `Inv`: the array of pending orders against the events so far. `Changes` says what an
      operation may do to the orders already in it; `Inv.map` is the step.
   2. The parts of the operations: the expiry pass, a fill with the orders linked to it, reports
      of no order, cancellations, submissions and links. -/
namespace TurboScript.Fin
open List (append_nil countP_eq_zero map_map mem_append mem_cons mem_filter mem_map mem_singleton)

/-- The bars an order has left against the bars since its submission. -/
def InTime (past : List Event) (o : Order) : Prop :=
  ∀ a barsValid, .submitted o.id a barsValid ∈ past → a = o.assetId ∧
    (0 ≤ barsValid → 0 ≤ o.barsValid ∧ (age o.id a past : Int) + o.barsValid = barsValid) ∧
    (barsValid < 0 → o.barsValid < 0)

def LinkedIn (past : List Event) (x y : OrderId) : Prop :=
  .linked x y ∈ past ∨ .linked y x ∈ past

def FilledIn (past : List Event) (x : OrderId) : Prop := ∃ e ∈ past, e.marksFilled x = true

/-- The orders in the array and the next id, after the events `past`. -/
structure Inv (past : List Event) (ps : List Order) (n : Nat) : Prop where
  bound : ∀ e ∈ past, ∀ id, e.order = some id → id < n
  nodup : (ps.map Order.id).Nodup
  ids : (submittedIds past).Nodup
  life : ∀ o ∈ ps, Life o.id (isPending o) (track o.id past)
  gone : ∀ id ∈ submittedIds past, ∃ b, Life id b (track id past)
  time : ∀ o ∈ ps, isPending o = true → InTime past o
  timely : TimelyFrom [] past
  links : ∀ o ∈ ps, o.ocoLinkId < n
  positive : 0 < n ∧ ∀ o ∈ ps, 0 < o.id
  linkedBound : ∀ x y, LinkedIn past x y → x < n ∧ y < n
  sameLink : ∀ x y, x ≠ y → LinkedIn past x y → ∀ o ∈ ps, ∀ o' ∈ ps, o.id = x → o'.id = y →
    isPending o = true → isPending o' = true → o.ocoLinkId = o'.ocoLinkId ∧ 0 < o.ocoLinkId
  oneFills : ∀ x y, x ≠ y → LinkedIn past x y → FilledIn past x →
    ¬FilledIn past y ∧ ∀ o ∈ ps, o.id = y → isPending o = false

/-- What an operation may do to the orders in the array: `g` is applied to each of them, and the
events `es` are given. -/
structure Changes (past : List Event) (ps : List Order) (n : Nat) (g : Order → Order)
    (es : List Event) : Prop where
  same : ∀ o ∈ ps, (g o).id = o.id ∧ (g o).assetId = o.assetId ∧ (g o).ocoLinkId = o.ocoLinkId
  next : ∀ o ∈ ps, Next o.id (isPending o) (isPending (g o)) (track o.id es)
  others : ∀ id ∈ submittedIds past, (∀ o ∈ ps, o.id ≠ id) → track id es = []
  bound : ∀ e ∈ es, ∀ id, e.order = some id → id < n
  plain : ∀ e ∈ es, (∀ id a v, e ≠ .submitted id a v) ∧ ∀ x y, e ≠ .linked x y
  bars : ∀ o ∈ ps, isPending (g o) = true → (o.barsValid < 0 → (g o).barsValid < 0) ∧
    (0 ≤ o.barsValid → 0 ≤ (g o).barsValid ∧
      (es.countP (Event.isBar o.assetId) : Int) + (g o).barsValid = o.barsValid)
  timely : TimelyFrom past es
  filled : ∀ x, FilledIn es x → (∀ y, FilledIn es y → y = x) ∧ ∃ o ∈ ps, o.id = x ∧
    isPending o = true ∧ ∀ o' ∈ ps, isPending (g o') = true → o'.ocoLinkId = o.ocoLinkId → o.ocoLinkId = 0

section Steps
variable {past es es' : List Event} {ps : List Order} {n : Nat} {g : Order → Order}

theorem Inv.submitted (h : Inv past ps n) {o : Order} (ho : o ∈ ps) : o.id ∈ submittedIds past := by
  obtain ⟨a, v, hmem⟩ := (h.life o ho).mem_submitted
  exact mem_submittedIds.2 ⟨a, v, List.mem_of_mem_filter hmem⟩

theorem filledIn_append {x : OrderId} : FilledIn (past ++ es) x ↔ FilledIn past x ∨ FilledIn es x := by
  unfold FilledIn
  simp only [mem_append, or_and_right, exists_or]

theorem isPending_of_next {id : OrderId} {b b' : Bool} (h : Next id b b' es) (hb : b' = true) :
    b = true ∧ es = [] := by
  cases h with
  | stay => exact ⟨hb, rfl⟩
  | _ => cases hb

theorem submittedIds_plain (h : ∀ e ∈ es, ∀ id a v, e ≠ .submitted id a v) : submittedIds es = [] := by
  refine List.filterMap_eq_nil_iff.2 fun e he => ?_
  cases e with
  | submitted id a v => exact absurd rfl (h _ he id a v)
  | _ => rfl

theorem linkedIn_plain (h : ∀ e ∈ es, ∀ x y, e ≠ .linked x y) {x y : OrderId} :
    LinkedIn (past ++ es) x y ↔ LinkedIn past x y := by
  have hes : ∀ x y, .linked x y ∈ past ++ es ↔ .linked x y ∈ past := by
    intro x y
    rw [mem_append]
    exact ⟨fun hm => hm.resolve_right fun hmem => h _ hmem x y rfl, .inl⟩
  unfold LinkedIn
  rw [hes, hes]

theorem Inv.map (h : Inv past ps n) (hc : Changes past ps n g es) : Inv (past ++ es) (ps.map g) n := by
  have hsubmitted : submittedIds es = [] := submittedIds_plain fun e he => (hc.plain e he).1
  have hlinked : ∀ x y, LinkedIn (past ++ es) x y ↔ LinkedIn past x y := fun x y =>
    linkedIn_plain fun e he => (hc.plain e he).2
  have hwas : ∀ o ∈ ps, isPending (g o) = true → isPending o = true := fun o ho hg =>
    (isPending_of_next (hc.next o ho) hg).1
  refine ⟨?_, ?_, ?_, ?_, ?_, ?_, ?_, ?_, ?_, ?_, ?_, ?_⟩
  · intro e he
    rcases mem_append.1 he with he | he
    · exact h.bound e he
    · exact hc.bound e he
  · have hids : (ps.map g).map Order.id = ps.map Order.id := by
      rw [map_map]
      exact List.map_congr_left fun o ho => (hc.same o ho).1
    rw [hids]
    exact h.nodup
  · rw [submittedIds_append, hsubmitted, append_nil]
    exact h.ids
  · intro o' ho'
    obtain ⟨o, ho, rfl⟩ := mem_map.1 ho'
    rw [(hc.same o ho).1, track_append]
    exact .next (h.life o ho) (hc.next o ho)
  · intro id hid
    rw [submittedIds_append, hsubmitted, append_nil] at hid
    rw [track_append]
    by_cases hin : ∃ o ∈ ps, o.id = id
    · obtain ⟨o, ho, rfl⟩ := hin
      exact ⟨_, .next (h.life o ho) (hc.next o ho)⟩
    · obtain ⟨b, hb⟩ := h.gone id hid
      refine ⟨b, ?_⟩
      rw [hc.others id hid fun o ho he => hin ⟨o, ho, he⟩, append_nil]
      exact hb
  · intro o' ho' hpending
    obtain ⟨o, ho, rfl⟩ := mem_map.1 ho'
    obtain ⟨hid, hasset, -⟩ := hc.same o ho
    obtain ⟨hneg, hpos⟩ := hc.bars o ho hpending
    intro a v hmem
    rw [hid] at hmem ⊢
    have hmem' : .submitted o.id a v ∈ past := by
      rcases mem_append.1 hmem with hmem | hmem
      · exact hmem
      · exact absurd rfl ((hc.plain _ hmem).1 o.id a v)
    obtain ⟨ha, ht, htneg⟩ := h.time o ho (hwas o ho hpending) a v hmem'
    refine ⟨ha.trans hasset.symm, fun hv => ?_, fun hv => hneg (htneg hv)⟩
    obtain ⟨hleft, heq⟩ := ht hv
    obtain ⟨hleft', heq'⟩ := hpos hleft
    refine ⟨hleft', ?_⟩
    rw [age_append (h.submitted ho), ha]
    rw [ha] at heq
    push_cast
    omega
  · exact timelyFrom_append.2 ⟨h.timely, hc.timely⟩
  · intro o' ho'
    obtain ⟨o, ho, rfl⟩ := mem_map.1 ho'
    rw [(hc.same o ho).2.2]
    exact h.links o ho
  · refine ⟨h.positive.1, fun o' ho' => ?_⟩
    obtain ⟨o, ho, rfl⟩ := mem_map.1 ho'
    rw [(hc.same o ho).1]
    exact h.positive.2 o ho
  · intro x y hl
    exact h.linkedBound x y ((hlinked x y).1 hl)
  · intro x y hxy hl q hq q' hq' hx hy hp hp'
    obtain ⟨o, ho, rfl⟩ := mem_map.1 hq
    obtain ⟨o', ho', rfl⟩ := mem_map.1 hq'
    rw [(hc.same o ho).2.2, (hc.same o' ho').2.2]
    exact h.sameLink x y hxy ((hlinked x y).1 hl) o ho o' ho' ((hc.same o ho).1.symm.trans hx)
      ((hc.same o' ho').1.symm.trans hy) (hwas o ho hp) (hwas o' ho' hp')
  · intro x y hxy hl hf
    have hl' := (hlinked x y).1 hl
    have hl'' : LinkedIn past y x := hl'.symm
    rcases filledIn_append.1 hf with hf | hf
    · obtain ⟨hnot, hdead⟩ := h.oneFills x y hxy hl' hf
      refine ⟨fun hfy => ?_, fun q hq hy => ?_⟩
      · rcases filledIn_append.1 hfy with hfy | hfy
        · exact hnot hfy
        · obtain ⟨-, o, ho, hid, hp, -⟩ := hc.filled y hfy
          rw [hdead o ho hid] at hp
          cases hp
      · obtain ⟨o, ho, rfl⟩ := mem_map.1 hq
        by_contra hp
        have hp' := hwas o ho (by simpa using hp)
        rw [hdead o ho ((hc.same o ho).1.symm.trans hy)] at hp'
        cases hp'
    · obtain ⟨honly, o, ho, hid, hp, hpartner⟩ := hc.filled x hf
      refine ⟨fun hfy => ?_, fun q hq hy => ?_⟩
      · rcases filledIn_append.1 hfy with hfy | hfy
        · have hdead := (h.oneFills y x (Ne.symm hxy) hl'' hfy).2 o ho hid
          rw [hdead] at hp
          cases hp
        · exact hxy (honly y hfy).symm
      · obtain ⟨o', ho', rfl⟩ := mem_map.1 hq
        by_contra hp'
        have hp' : isPending (g o') = true := by simpa using hp'
        obtain ⟨hsame, hpos⟩ := h.sameLink x y hxy hl' o ho o' ho' hid
          ((hc.same o' ho').1.symm.trans hy) hp (hwas o' ho' hp')
        have hzero := hpartner o' ho' hp' hsame.symm
        omega

theorem Inv.sub {ps' : List Order} (h : Inv past ps n) (hsub : ps'.Sublist ps) : Inv past ps' n where
  bound := h.bound
  nodup := h.nodup.sublist (hsub.map Order.id)
  ids := h.ids
  life o ho := h.life o (hsub.subset ho)
  gone := h.gone
  time o ho := h.time o (hsub.subset ho)
  timely := h.timely
  links o ho := h.links o (hsub.subset ho)
  positive := ⟨h.positive.1, fun o ho => h.positive.2 o (hsub.subset ho)⟩
  linkedBound := h.linkedBound
  sameLink x y hxy hl o ho o' ho' := h.sameLink x y hxy hl o (hsub.subset ho) o' (hsub.subset ho')
  oneFills x y hxy hl hf :=
    ⟨(h.oneFills x y hxy hl hf).1, fun o ho => (h.oneFills x y hxy hl hf).2 o (hsub.subset ho)⟩

theorem Inv.skip (h : Inv past ps n) : Inv past ps (n + 1) :=
  { h with
    bound := fun e he id hid => Nat.lt_succ_of_lt (h.bound e he id hid)
    links := fun o ho => Nat.lt_succ_of_lt (h.links o ho)
    positive := ⟨Nat.succ_pos n, h.positive.2⟩
    linkedBound := fun x y hl =>
      ⟨Nat.lt_succ_of_lt (h.linkedBound x y hl).1, Nat.lt_succ_of_lt (h.linkedBound x y hl).2⟩ }

theorem Inv.quiet (h : Inv past ps n) (hes : ∀ e ∈ es, ∃ t, e = .attempt none t) :
    Inv (past ++ es) ps n := by
  have hnone : ∀ id, track id es = [] := fun id => track_eq_nil fun e he => by
    obtain ⟨t, rfl⟩ := hes e he
    exact (by simp [Event.order])
  have hbars : ∀ a, es.countP (Event.isBar a) = 0 := fun a => countP_eq_zero.2 fun e he => by
    obtain ⟨t, rfl⟩ := hes e he
    exact (by simp [Event.isBar])
  have hc : Changes past ps n id es := by
    refine ⟨fun o _ => ⟨rfl, rfl, rfl⟩, fun o _ => ?_, fun id _ _ => hnone id, ?_, ?_, ?_, ?_, ?_⟩
    · rw [hnone]
      exact .stay _
    · intro e he id hid
      obtain ⟨t, rfl⟩ := hes e he
      cases hid
    · intro e he
      obtain ⟨t, rfl⟩ := hes e he
      exact ⟨fun _ _ _ => by simp, fun _ _ => by simp⟩
    · intro o _ _
      rw [hbars]
      exact ⟨fun h => h, fun h => ⟨h, by simp⟩⟩
    · refine timelyFrom_of (fun e he past => ?_) past
      obtain ⟨t, rfl⟩ := hes e he
      trivial
    · rintro x ⟨e, he, hm⟩
      obtain ⟨t, rfl⟩ := hes e he
      cases hm
  have := h.map hc
  rwa [List.map_id] at this

end Steps

/-! The parts of the operations. -/

section Parts
variable {past : List Event} {ps : List Order} {n : Nat} {f : Order → Bool} {s : OrderStatus}

/-- The events when the orders in `f` are given a status. -/
def relabelled (f : Order → Bool) (s : OrderStatus) (ps : List Order) : List Event :=
  (ps.filter f).map fun o => .status o.id o.status s

theorem mem_relabelled {e : Event} (h : e ∈ relabelled f s ps) :
    ∃ o ∈ ps, f o = true ∧ e = .status o.id o.status s := by
  obtain ⟨o, ho, rfl⟩ := mem_map.1 h
  exact ⟨o, List.mem_of_mem_filter ho, (mem_filter.1 ho).2, rfl⟩

theorem track_relabelled_none {id : OrderId} (h : ∀ o ∈ ps, f o = true → o.id ≠ id) :
    track id (relabelled f s ps) = [] := by
  refine track_eq_nil fun e he => ?_
  obtain ⟨o, ho, hf, rfl⟩ := mem_relabelled he
  exact fun heq => h o ho hf (Option.some.inj heq)

theorem track_relabelled (hnd : (ps.map Order.id).Nodup) {o : Order} (ho : o ∈ ps) :
    track o.id (relabelled f s ps) = if f o then [.status o.id o.status s] else [] := by
  induction ps with
  | nil => cases ho
  | cons q ps ih =>
    rw [List.map_cons, List.nodup_cons] at hnd
    have hcons : relabelled f s (q :: ps) =
        (if f q then [.status q.id q.status s] else []) ++ relabelled f s ps := by
      unfold relabelled
      rw [List.filter_cons]
      split <;> simp_all
    rw [hcons, track_append]
    rcases mem_cons.1 ho with rfl | ho
    · have hrest : track o.id (relabelled f s ps) = [] :=
        track_relabelled_none fun q hq _ he => hnd.1 (he ▸ List.mem_map_of_mem hq)
      rw [hrest, append_nil]
      split
      · simp [track, Event.isAbout, Event.order]
      · rfl
    · have hne : q.id ≠ o.id := fun he => hnd.1 (he ▸ List.mem_map_of_mem ho)
      rw [ih hnd.2 ho]
      have hfirst : track o.id (if f q then [.status q.id q.status s] else []) = [] := by
        split
        · simp [track, Event.isAbout, Event.order, hne]
        · rfl
      rw [hfirst, List.nil_append]

theorem isPending_iff {o : Order} : isPending o = true ↔ o.status = .pending := beq_iff_eq

theorem Inv.id_lt (h : Inv past ps n) {o : Order} (ho : o ∈ ps) : o.id < n := by
  obtain ⟨a, v, hmem⟩ := mem_submittedIds.1 (h.submitted ho)
  exact h.bound _ hmem _ rfl

theorem set_eq_map (hnd : (ps.map Order.id).Nodup) {i : Nat} {o : Order} (ho : ps[i]? = some o)
    (o' : Order) : ps.set i o' = ps.map fun q => if q.id = o.id then o' else q := by
  obtain ⟨hi, rfl⟩ := List.getElem?_eq_some_iff.1 ho
  refine List.ext_getElem (by simp) fun j hj hj' => ?_
  rw [List.getElem_set, List.getElem_map]
  have hj : j < ps.length := by simpa using hj
  by_cases hij : i = j
  · subst hij
    rw [if_pos rfl, if_pos rfl]
  · have hne : ps[j].id ≠ ps[i].id := by
      intro he
      have hj' : j < (ps.map Order.id).length := by simpa using hj
      have hi' : i < (ps.map Order.id).length := by simpa using hi
      have hmapped : (ps.map Order.id)[j] = (ps.map Order.id)[i] := by
        rw [List.getElem_map, List.getElem_map, he]
      exact hij ((List.Nodup.getElem_inj_iff hnd).1 hmapped).symm
    rw [if_neg hij, if_neg hne]

def cancelIf (f : Order → Bool) (o : Order) : Order :=
  if f o then { o with status := .cancelled } else o

theorem cancelIf_same (f : Order → Bool) (o : Order) : (cancelIf f o).id = o.id ∧
    (cancelIf f o).assetId = o.assetId ∧ (cancelIf f o).ocoLinkId = o.ocoLinkId ∧
    (cancelIf f o).barsValid = o.barsValid := by
  unfold cancelIf
  split <;> exact ⟨rfl, rfl, rfl, rfl⟩

theorem cancelIf_pending {f : Order → Bool} {o : Order} :
    isPending (cancelIf f o) = (isPending o && !f o) := by
  unfold cancelIf
  cases hf : f o with
  | true => simp [isPending]
  | false => simp

theorem next_cancelIf (f : Order → Bool) (o : Order) : Next o.id (isPending o) (isPending (cancelIf f o))
      (if f o then [.status o.id o.status .cancelled] else []) := by
  rw [cancelIf_pending]
  cases hf : f o with
  | false =>
    rw [if_neg (by simp), Bool.not_false, Bool.and_true]
    exact .stay _
  | true =>
    rw [if_pos rfl, Bool.not_true, Bool.and_false]
    by_cases hp : o.status = .pending
    · rw [isPending_iff.2 hp, hp]
      exact .ended _ (.inl rfl)
    · have hnot : isPending o = false := by
        simpa [isPending] using hp
      rw [hnot]
      exact .later _ hp

theorem Inv.cancel (h : Inv past ps n) (f : Order → Bool) :
    Inv (past ++ relabelled f .cancelled ps) (ps.map (cancelIf f)) n := by
  refine h.map ⟨fun o _ => ?_, fun o ho => ?_, fun id _ hno => ?_, ?_, ?_, fun o ho hp => ?_, ?_, ?_⟩
  · obtain ⟨hid, ha, hl, -⟩ := cancelIf_same f o
    exact ⟨hid, ha, hl⟩
  · rw [track_relabelled h.nodup ho]
    exact next_cancelIf f o
  · exact track_relabelled_none fun o ho _ => hno o ho
  · intro e he id hid
    obtain ⟨o, ho, -, rfl⟩ := mem_relabelled he
    cases hid
    exact h.id_lt ho
  · intro e he
    obtain ⟨o, -, -, rfl⟩ := mem_relabelled he
    exact ⟨fun _ _ _ => by simp, fun _ _ => by simp⟩
  · have hbars : (relabelled f .cancelled ps).countP (Event.isBar o.assetId) = 0 :=
      countP_eq_zero.2 fun e he => by
        obtain ⟨o', -, -, rfl⟩ := mem_relabelled he
        exact (by simp [Event.isBar])
    rw [hbars, (cancelIf_same f o).2.2.2]
    exact ⟨fun h => h, fun h => ⟨h, by simp⟩⟩
  · refine timelyFrom_of (fun e he past => ?_) past
    obtain ⟨o, -, -, rfl⟩ := mem_relabelled he
    cases o.status <;> trivial
  · rintro x ⟨e, he, hm⟩
    obtain ⟨o, -, -, rfl⟩ := mem_relabelled he
    cases hm

theorem Inv.bar (h : Inv past ps n) (a : AssetId) (met : List OrderId) :
    Inv (past ++ .bar a met :: relabelled (expires a) .expired ps) (ps.map (expireOrder a)) n := by
  have hexpires : ∀ o : Order, expires a o = true ↔
      o.assetId = a ∧ isPending o = true ∧ o.barsValid = 0 := by
    intro o
    simp [expires, and_assoc]
  have hpending : ∀ o, isPending (expireOrder a o) = (isPending o && !expires a o) := by
    intro o
    unfold expireOrder expires isPending
    by_cases ha : o.assetId = a
    · by_cases hp : o.status = .pending
      · by_cases h0 : o.barsValid = 0
        · simp [ha, hp, h0]
        · by_cases hpos : 0 < o.barsValid
          · simp [ha, hp, h0, hpos]
          · simp [ha, hp, h0, hpos]
      · simp [ha, hp]
    · simp [ha]
  have hquiet : (relabelled (expires a) .expired ps).countP (Event.isBar a) = 0 := by
    refine countP_eq_zero.2 fun e he => ?_
    obtain ⟨o', -, -, rfl⟩ := mem_relabelled he
    simp [Event.isBar]
  refine h.map ⟨fun o _ => ?_, fun o ho => ?_, fun id _ hno => ?_, ?_, ?_, fun o ho hp => ?_, ?_, ?_⟩
  · unfold expireOrder
    split
    · split
      · exact ⟨rfl, rfl, rfl⟩
      · split <;> exact ⟨rfl, rfl, rfl⟩
    · exact ⟨rfl, rfl, rfl⟩
  · have htrack : track o.id (.bar a met :: relabelled (expires a) .expired ps) =
        track o.id (relabelled (expires a) .expired ps) := rfl
    rw [htrack, track_relabelled h.nodup ho, hpending]
    cases he : expires a o with
    | false =>
      rw [if_neg (by simp), Bool.not_false, Bool.and_true]
      exact .stay _
    | true =>
      obtain ⟨-, hp, -⟩ := (hexpires o).1 he
      rw [if_pos rfl, Bool.not_true, Bool.and_false, hp, isPending_iff.1 hp]
      exact .ended _ (.inr rfl)
  · exact track_relabelled_none fun o ho _ => hno o ho
  · intro e he id hid
    rcases mem_cons.1 he with rfl | he
    · cases hid
    · obtain ⟨o, ho, -, rfl⟩ := mem_relabelled he
      cases hid
      exact h.id_lt ho
  · intro e he
    rcases mem_cons.1 he with rfl | he
    · exact ⟨fun _ _ _ => by simp, fun _ _ => by simp⟩
    · obtain ⟨o, -, -, rfl⟩ := mem_relabelled he
      exact ⟨fun _ _ _ => by simp, fun _ _ => by simp⟩
  · -- an order of the asset has one bar less, another one keeps its bars
    rw [hpending, Bool.and_eq_true, Bool.not_eq_true'] at hp
    by_cases ha : o.assetId = a
    · have hne : o.barsValid ≠ 0 := by
        intro h0
        rw [(hexpires o).2 ⟨ha, hp.1, h0⟩] at hp
        cases hp.2
      have hcount : (Event.bar a met :: relabelled (expires a) .expired ps).countP
          (Event.isBar o.assetId) = 1 := by
        rw [ha, List.countP_cons_of_pos (by simp [Event.isBar]), hquiet]
      have hleft : (expireOrder a o).barsValid =
          if 0 < o.barsValid then o.barsValid - 1 else o.barsValid := by
        unfold expireOrder
        rw [if_pos ⟨ha, hp.1⟩, if_neg hne]
        split <;> rfl
      rw [hcount, hleft]
      split <;> omega
    · have hcount : (Event.bar a met :: relabelled (expires a) .expired ps).countP
          (Event.isBar o.assetId) = 0 := by
        refine countP_eq_zero.2 fun e he => ?_
        rcases mem_cons.1 he with rfl | he
        · simpa [Event.isBar] using Ne.symm ha
        · obtain ⟨o', -, -, rfl⟩ := mem_relabelled he
          simp [Event.isBar]
      have hsame : expireOrder a o = o := by
        unfold expireOrder
        rw [if_neg fun h => ha h.1]
      rw [hcount, hsame]
      omega
  · refine ⟨trivial, timelyFrom_expired (fun o ho a' v hmem => ?_) fun o ho => ?_⟩
    · obtain ⟨hmem', he⟩ := mem_filter.1 ho
      obtain ⟨ha, hp, h0⟩ := (hexpires o).1 he
      have hpast : .submitted o.id a' v ∈ past := by
        rcases mem_append.1 hmem with hmem | hmem
        · exact hmem
        · cases mem_singleton.1 hmem
      obtain ⟨ha', hpos, hneg⟩ := h.time o hmem' hp a' v hpast
      have hv : 0 ≤ v := by
        by_contra hv
        have := hneg (by omega)
        omega
      obtain ⟨-, heq⟩ := hpos hv
      have hbar : [Event.bar a met].countP (Event.isBar a') = 1 := by
        rw [ha', ha]
        simp [Event.isBar]
      rw [age_append (h.submitted hmem'), hbar]
      push_cast
      omega
    · exact isPending_iff.1 ((hexpires o).1 (mem_filter.1 ho).2).2.1
  · rintro x ⟨e, he, hm⟩
    rcases mem_cons.1 he with rfl | he
    · cases hm
    · obtain ⟨o, -, -, rfl⟩ := mem_relabelled he
      cases hm

end Parts


section Fills
variable {past : List Event} {ps : List Order} {n : Nat}

theorem Inv.eq_of_id (h : Inv past ps n) {o q : Order} (ho : o ∈ ps) (hq : q ∈ ps)
    (hid : q.id = o.id) : q = o :=
  List.inj_on_of_nodup_map h.nodup hq ho hid

/-- The orders that a fill with the link cancels. -/
def linkedTo (link : Nat) (o : Order) : Bool := decide (0 < link) && o.ocoLinkId == link && isPending o

theorem cancelLinked_eq (link : Nat) (os : List Order) : cancelLinked link os =
    (os.map (cancelIf (linkedTo link)), relabelled (linkedTo link) .cancelled os) := by
  unfold cancelLinked relabelled
  by_cases hlink : 0 < link
  · have hf : linkedTo link = fun o => o.ocoLinkId == link && isPending o := by
      funext o
      simp [linkedTo, hlink]
    rw [if_pos hlink, hf]
    congr 1
    refine List.map_congr_left fun o _ => ?_
    unfold cancelIf
    simp only [Bool.and_eq_true, beq_iff_eq]
  · have hf : linkedTo link = fun _ => false := by
      funext o
      simp [linkedTo, hlink]
    have hcancel : cancelIf (linkedTo link) = id := by
      funext o
      simp [cancelIf, hf]
    rw [if_neg hlink, hcancel, hf]
    simp

theorem Inv.fill (h : Inv past ps n) {i : Nat} {o : Order} (ho : ps[i]? = some o)
    (hp : isPending o = true) {t : Attempt} (ht : t.Effective) (link : Nat)
    (hlink : link = o.ocoLinkId ∨ ∀ q ∈ ps, q.id ≠ o.id → isPending q = true →
      q.ocoLinkId = o.ocoLinkId → o.ocoLinkId = 0) (o' : Order)
    (hid : o'.id = o.id) (ha : o'.assetId = o.assetId) (hl : o'.ocoLinkId = o.ocoLinkId)
    (hs : o'.status = .filled) :
    Inv (past ++ .attempt (some o.id) t :: .status o.id o.status .filled ::
      (cancelLinked link (ps.set i o')).2) (cancelLinked link (ps.set i o')).1 n := by
  have hmem : o ∈ ps := List.mem_of_getElem? ho
  have hset := set_eq_map h.nodup ho o'
  rw [cancelLinked_eq, hset]
  generalize hmark : (fun q : Order => if q.id = o.id then o' else q) = mark
  have hmark_o : mark o = o' := by rw [← hmark]; exact if_pos rfl
  have hmark_ne : ∀ q, q.id ≠ o.id → mark q = q := fun q hq => by rw [← hmark]; exact if_neg hq
  have hcases : ∀ q ∈ ps, q = o ∨ q.id ≠ o.id := fun q hq =>
    (em (q.id = o.id)).imp (h.eq_of_id hmem hq) fun h => h
  have hnot : linkedTo link o' = false := by simp [linkedTo, isPending, hs]
  have hnd : ((ps.map mark).map Order.id).Nodup := by
    have hids : (ps.map mark).map Order.id = ps.map Order.id := by
      rw [map_map]
      refine List.map_congr_left fun q hq => ?_
      rcases hcases q hq with rfl | hne
      · exact (congrArg Order.id hmark_o).trans hid
      · exact congrArg Order.id (hmark_ne q hne)
    rw [hids]
    exact h.nodup
  have hrel : ∀ q ∈ ps, track q.id (relabelled (linkedTo link) .cancelled (ps.map mark)) =
      if linkedTo link (mark q) then [.status q.id (mark q).status .cancelled] else [] := by
    intro q hq
    have htrack := track_relabelled (f := linkedTo link) (s := .cancelled) hnd (List.mem_map_of_mem hq)
    have hqid : (mark q).id = q.id := by
      rcases hcases q hq with rfl | hne
      · rw [hmark_o, hid]
      · rw [hmark_ne q hne]
    rwa [hqid] at htrack
  have hquiet : ∀ e ∈ relabelled (linkedTo link) .cancelled (ps.map mark),
      (∃ q ∈ ps, e.order = some q.id) ∧ (∀ id a v, e ≠ .submitted id a v) ∧
      (∀ x y, e ≠ .linked x y) ∧ (∀ a, e.isBar a = false) ∧ (∀ past, Timely past e) ∧
      ∀ x, e.marksFilled x = false := by
    intro e he
    obtain ⟨q', hq', -, rfl⟩ := mem_relabelled he
    obtain ⟨q, hq, rfl⟩ := mem_map.1 hq'
    refine ⟨⟨q, hq, ?_⟩, fun _ _ _ => by simp, fun _ _ => by simp, fun _ => rfl, fun past => ?_,
      fun x => rfl⟩
    · rcases hcases q hq with rfl | hne
      · rw [hmark_o]
        exact congrArg some hid
      · rw [hmark_ne q hne]
        rfl
    · cases (mark q).status <;> trivial
  rw [map_map]
  refine h.map ⟨fun q hq => ?_, fun q hq => ?_, fun id _ hno => ?_, ?_, ?_, fun q hq hg => ?_, ?_, ?_⟩
  · obtain ⟨hid', ha', hl', -⟩ := cancelIf_same (linkedTo link) (mark q)
    show (cancelIf (linkedTo link) (mark q)).id = _ ∧ (cancelIf (linkedTo link) (mark q)).assetId = _ ∧
      (cancelIf (linkedTo link) (mark q)).ocoLinkId = _
    rw [hid', ha', hl']
    rcases hcases q hq with rfl | hne
    · rw [hmark_o]
      exact ⟨hid, ha, hl⟩
    · rw [hmark_ne q hne]
      exact ⟨rfl, rfl, rfl⟩
  · show Next q.id (isPending q) (isPending (cancelIf (linkedTo link) (mark q))) (track q.id
      ([.attempt (some o.id) t, .status o.id o.status .filled] ++ _))
    rw [track_append, hrel q hq]
    rcases hcases q hq with rfl | hne
    · have hown : track q.id [.attempt (some q.id) t, .status q.id q.status .filled] =
          [.attempt (some q.id) t, .status q.id .pending .filled] := by
        rw [isPending_iff.1 hp]
        simp [track, Event.isAbout, Event.order]
      have hpending : isPending (cancelIf (linkedTo link) o') = false := by
        rw [cancelIf_pending]
        simp [isPending, hs]
      rw [hmark_o, hnot, hown, hpending, hp]
      exact .filled t ht
    · have hother : track q.id [.attempt (some o.id) t, .status o.id o.status .filled] = [] := by
        refine track_eq_nil fun e he => ?_
        rcases List.mem_pair.1 he with rfl | rfl
        · exact fun heq => hne (Option.some.inj heq).symm
        · exact fun heq => hne (Option.some.inj heq).symm
      rw [hother, List.nil_append, hmark_ne q hne]
      exact next_cancelIf (linkedTo link) q
  · refine track_eq_nil fun e he => ?_
    rcases mem_cons.1 he with rfl | he
    · exact fun heq => hno o hmem (Option.some.inj heq)
    rcases mem_cons.1 he with rfl | he
    · exact fun heq => hno o hmem (Option.some.inj heq)
    obtain ⟨⟨q, hq, horder⟩, -⟩ := hquiet e he
    rw [horder]
    exact fun heq => hno q hq (Option.some.inj heq)
  · intro e he id hid'
    rcases mem_cons.1 he with rfl | he
    · cases hid'
      exact h.id_lt hmem
    rcases mem_cons.1 he with rfl | he
    · cases hid'
      exact h.id_lt hmem
    obtain ⟨⟨q, hq, horder⟩, -⟩ := hquiet e he
    rw [horder] at hid'
    cases hid'
    exact h.id_lt hq
  · intro e he
    rcases mem_cons.1 he with rfl | he
    · exact ⟨fun _ _ _ => by simp, fun _ _ => by simp⟩
    rcases mem_cons.1 he with rfl | he
    · exact ⟨fun _ _ _ => by simp, fun _ _ => by simp⟩
    exact ⟨(hquiet e he).2.1, (hquiet e he).2.2.1⟩
  · have hbars : (Event.attempt (some o.id) t :: .status o.id o.status .filled ::
        relabelled (linkedTo link) .cancelled (ps.map mark)).countP (Event.isBar q.assetId) = 0 := by
      refine countP_eq_zero.2 fun e he => ?_
      rcases mem_cons.1 he with rfl | he
      · simp [Event.isBar]
      rcases mem_cons.1 he with rfl | he
      · simp [Event.isBar]
      simp [(hquiet e he).2.2.2.1]
    rw [hbars]
    have hg' : isPending (cancelIf (linkedTo link) (mark q)) = true := hg
    have hleft : (cancelIf (linkedTo link) (mark q)).barsValid = q.barsValid := by
      rw [(cancelIf_same _ _).2.2.2]
      rcases hcases q hq with rfl | hne
      · rw [hmark_o, cancelIf_pending] at hg'
        simp [isPending, hs] at hg'
      · rw [hmark_ne q hne]
    show (_ → (cancelIf (linkedTo link) (mark q)).barsValid < 0) ∧ (_ → 0 ≤
      (cancelIf (linkedTo link) (mark q)).barsValid ∧ _ + (cancelIf (linkedTo link) (mark q)).barsValid = _)
    rw [hleft]
    exact ⟨fun h => h, fun h => ⟨h, by simp⟩⟩
  · refine ⟨fun a v hsub hv => ?_, ?_, timelyFrom_of (fun e he past => (hquiet e he).2.2.2.2.1 past) _⟩
    · obtain ⟨ha', hpos, -⟩ := h.time o hmem hp a v hsub
      obtain ⟨hleft, heq⟩ := hpos hv
      omega
    · rw [isPending_iff.1 hp]
      trivial
  · have honly : ∀ x, FilledIn (.attempt (some o.id) t :: .status o.id o.status .filled ::
        relabelled (linkedTo link) .cancelled (ps.map mark)) x → x = o.id := by
      rintro x ⟨e, he, hm⟩
      rcases mem_cons.1 he with rfl | he
      · cases hm
      rcases mem_cons.1 he with rfl | he
      · simp only [Event.marksFilled, Bool.and_eq_true, beq_iff_eq] at hm
        exact hm.1.symm
      rw [(hquiet e he).2.2.2.2.2 x] at hm
      cases hm
    intro x hx
    obtain rfl := honly x hx
    refine ⟨fun y hy => honly y hy, o, hmem, rfl, hp, fun q hq hg hsame => ?_⟩
    have hg' : isPending (cancelIf (linkedTo link) (mark q)) = true := hg
    rw [cancelIf_pending, Bool.and_eq_true, Bool.not_eq_true'] at hg'
    rcases hcases q hq with rfl | hne
    · rw [hmark_o] at hg'
      simp [isPending, hs] at hg'
    · rw [hmark_ne q hne] at hg'
      rcases hlink with rfl | hpartner
      · by_contra hzero
        have hhit : linkedTo o.ocoLinkId q = true := by
          simp [linkedTo, hsame, hg'.1, Nat.pos_of_ne_zero hzero]
        rw [hhit] at hg'
        cases hg'.2
      · exact hpartner q hq hne hg'.1 hsame

theorem Inv.stray (h : Inv past ps n) {id : OrderId} (hid : id < n) (hno : id ∉ submittedIds past)
    (t : Attempt) : Inv (past ++ [.attempt (some id) t]) ps n := by
  have htrack : ∀ id', id' ≠ id → track id' [.attempt (some id) t] = [] := by
    intro id' hne
    refine track_eq_nil fun e he => ?_
    rw [mem_singleton.1 he]
    exact fun heq => hne (Option.some.inj heq).symm
  have hc : Changes past ps n (fun o => o) [.attempt (some id) t] := by
    refine ⟨fun o _ => ⟨rfl, rfl, rfl⟩, fun o ho => ?_, fun id' hid' _ => ?_, ?_, ?_, ?_, ?_, ?_⟩
    · rw [htrack o.id fun he => hno (he ▸ h.submitted ho)]
      exact .stay _
    · exact htrack id' fun he => hno (he ▸ hid')
    · intro e he id' hid'
      rw [mem_singleton.1 he] at hid'
      cases hid'
      exact hid
    · intro e he
      rw [mem_singleton.1 he]
      exact ⟨fun _ _ _ => by simp, fun _ _ => by simp⟩
    · intro o _ _
      exact ⟨fun h => h, fun h => ⟨h, by simp [Event.isBar]⟩⟩
    · refine ⟨fun a v hsub _ => ?_, trivial⟩
      exact absurd (mem_submittedIds.2 ⟨a, v, hsub⟩) hno
    · rintro x ⟨e, he, hm⟩
      rw [mem_singleton.1 he] at hm
      cases hm
  have := h.map hc
  rwa [List.map_id'] at this

end Fills


section Submissions
variable {past : List Event} {ps : List Order} {n : Nat}

theorem Inv.submit (h : Inv past ps n) {o : Order} (hid : o.id = n) (hp : isPending o = true)
    (hl : o.ocoLinkId = 0) :
    Inv (past ++ [.submitted o.id o.assetId o.barsValid]) (ps ++ [o]) (n + 1) := by
  have hnew : ∀ e ∈ past, e.order ≠ some o.id := fun e he heq =>
    absurd (h.bound e he _ heq) (Nat.not_lt.2 hid.ge)
  have hold : ∀ q ∈ ps, q.id ≠ o.id := fun q hq heq =>
    absurd (h.id_lt hq) (Nat.not_lt.2 (heq.trans hid).ge)
  have hpast : ∀ e ∈ past ++ [.submitted o.id o.assetId o.barsValid],
      e ∈ past ∨ e = .submitted o.id o.assetId o.barsValid := fun e he =>
    (mem_append.1 he).imp_right mem_singleton.1
  have htrack : ∀ id, id ≠ o.id → track id [.submitted o.id o.assetId o.barsValid] = [] := by
    intro id hne
    refine track_eq_nil fun e he => ?_
    rw [mem_singleton.1 he]
    exact fun heq => hne (Option.some.inj heq).symm
  have hlife : Life o.id true (track o.id (past ++ [.submitted o.id o.assetId o.barsValid])) := by
    rw [track_append, track_eq_nil hnew, List.nil_append]
    have hself : track o.id [.submitted o.id o.assetId o.barsValid] =
        [.submitted o.id o.assetId o.barsValid] := by simp [track, Event.isAbout, Event.order]
    rw [hself]
    exact .submitted _ _
  have hlinked : ∀ x y, LinkedIn (past ++ [.submitted o.id o.assetId o.barsValid]) x y ↔
      LinkedIn past x y := fun x y => linkedIn_plain fun e he x y => by
    rw [mem_singleton.1 he]
    simp
  have hfilled : ∀ x, FilledIn (past ++ [.submitted o.id o.assetId o.barsValid]) x ↔
      FilledIn past x := by
    intro x
    rw [filledIn_append]
    refine ⟨fun hor => hor.resolve_right ?_, .inl⟩
    rintro ⟨e, he, hm⟩
    rw [mem_singleton.1 he] at hm
    cases hm
  refine ⟨?_, ?_, ?_, ?_, ?_, ?_, ?_, ?_, ?_, ?_, ?_, ?_⟩
  · intro e he id hid'
    rcases hpast e he with he | rfl
    · exact Nat.lt_succ_of_lt (h.bound e he id hid')
    · cases hid'
      exact Nat.lt_succ_of_le hid.le
  · rw [List.map_append, List.map_singleton]
    refine List.nodup_append.2 ⟨h.nodup, List.nodup_singleton _, ?_⟩
    intro x hx y hy
    obtain ⟨q, hq, rfl⟩ := mem_map.1 hx
    rw [mem_singleton.1 hy]
    exact hold q hq
  · rw [submittedIds_append]
    refine List.nodup_append.2 ⟨h.ids, List.nodup_singleton _, ?_⟩
    intro x hx y hy
    obtain ⟨a, v, hmem⟩ := mem_submittedIds.1 hx
    rintro rfl
    rw [mem_singleton.1 hy] at hmem
    exact hnew _ hmem rfl
  · intro q hq
    rcases mem_append.1 hq with hq | hq
    · rw [track_append, htrack q.id (hold q hq), append_nil]
      exact h.life q hq
    · rw [mem_singleton.1 hq, hp]
      exact hlife
  · intro id hid'
    rw [submittedIds_append] at hid'
    rcases mem_append.1 hid' with hid' | hid'
    · by_cases hne : id = o.id
      · exact ⟨true, hne ▸ hlife⟩
      · rw [track_append, htrack id hne, append_nil]
        exact h.gone id hid'
    · have hself : id = o.id := mem_singleton.1 hid'
      exact ⟨true, hself ▸ hlife⟩
  · intro q hq hpending a v hsub
    rcases mem_append.1 hq with hq | hq
    · rcases hpast _ hsub with hsub | heq
      · obtain ⟨ha, hpos, hneg⟩ := h.time q hq hpending a v hsub
        refine ⟨ha, fun hv => ?_, hneg⟩
        rw [age_quiet (h.submitted hq) fun e he => by rw [mem_singleton.1 he]; rfl]
        exact hpos hv
      · simp only [Event.submitted.injEq] at heq
        exact absurd heq.1 (hold q hq)
    · obtain rfl := mem_singleton.1 hq
      rcases hpast _ hsub with hsub | heq
      · exact absurd rfl (hnew _ hsub)
      · cases heq
        have hage : age q.id q.assetId (past ++ [.submitted q.id q.assetId q.barsValid]) = 0 :=
          age_submitted hnew
        refine ⟨rfl, fun hv => ⟨hv, ?_⟩, fun hv => hv⟩
        rw [hage]
        simp
  · exact timelyFrom_append.2 ⟨h.timely, trivial, trivial⟩
  · intro q hq
    rcases mem_append.1 hq with hq | hq
    · exact Nat.lt_succ_of_lt (h.links q hq)
    · rw [mem_singleton.1 hq, hl]
      exact Nat.succ_pos n
  · refine ⟨Nat.succ_pos n, fun q hq => ?_⟩
    rcases mem_append.1 hq with hq | hq
    · exact h.positive.2 q hq
    · rw [mem_singleton.1 hq, hid]
      exact h.positive.1
  · intro x y hlink
    obtain ⟨hx, hy⟩ := h.linkedBound x y ((hlinked x y).1 hlink)
    exact ⟨Nat.lt_succ_of_lt hx, Nat.lt_succ_of_lt hy⟩
  · -- the new order is linked to none
    intro x y hxy hlink q hq q' hq' hx hy hpq hpq'
    have hlink' := (hlinked x y).1 hlink
    obtain ⟨hltx, hlty⟩ := h.linkedBound x y hlink'
    rcases mem_append.1 hq with hq | hq
    · rcases mem_append.1 hq' with hq' | hq'
      · exact h.sameLink x y hxy hlink' q hq q' hq' hx hy hpq hpq'
      · rw [mem_singleton.1 hq', hid] at hy
        exact absurd hlty (Nat.not_lt.2 hy.le)
    · rw [mem_singleton.1 hq, hid] at hx
      exact absurd hltx (Nat.not_lt.2 hx.le)
  · intro x y hxy hlink hf
    have hlink' := (hlinked x y).1 hlink
    obtain ⟨hnot, hdead⟩ := h.oneFills x y hxy hlink' ((hfilled x).1 hf)
    refine ⟨fun hfy => hnot ((hfilled y).1 hfy), fun q hq hy => ?_⟩
    rcases mem_append.1 hq with hq | hq
    · exact hdead q hq hy
    · rw [mem_singleton.1 hq, hid] at hy
      exact absurd (h.linkedBound x y hlink').2 (Nat.not_lt.2 hy.le)

def relink (x y : OrderId) (link : Nat) (o : Order) : Order :=
  if o.id = x ∨ o.id = y then { o with ocoLinkId := link } else o

theorem relink_same (x y : OrderId) (link : Nat) (o : Order) : (relink x y link o).id = o.id ∧
    (relink x y link o).assetId = o.assetId ∧ (relink x y link o).barsValid = o.barsValid ∧
    isPending (relink x y link o) = isPending o := by
  unfold relink
  split <;> exact ⟨rfl, rfl, rfl, rfl⟩

theorem relink_link (x y : OrderId) (link : Nat) (o : Order) : (relink x y link o).ocoLinkId =
    if o.id = x ∨ o.id = y then link else o.ocoLinkId := by
  unfold relink
  split <;> rfl

/-- The orders of a link are pending, and no other pending order shares a link with them. -/
structure MayLink (ps : List Order) (x y : OrderId) : Prop where
  first : ∃ o ∈ ps, o.id = x ∧ isPending o = true
  second : ∃ o ∈ ps, o.id = y ∧ isPending o = true
  alone : ∀ q ∈ ps, isPending q = true → q.id ≠ x → q.id ≠ y → ∀ o ∈ ps, o.id = x ∨ o.id = y →
    q.ocoLinkId = o.ocoLinkId → o.ocoLinkId = 0

theorem Inv.not_filled (h : Inv past ps n) {o : Order} (ho : o ∈ ps) (hp : isPending o = true) :
    ¬FilledIn past o.id := by
  have hlife := h.life o ho
  rw [hp] at hlife
  rintro ⟨e, he, hm⟩
  have hmem : e ∈ track o.id past := mem_filter.2 ⟨he, marksFilled_isAbout hm⟩
  rw [(hlife.lived.pending rfl e hmem).2.2.1] at hm
  cases hm

theorem Inv.link (h : Inv past ps n) {x y : OrderId} (hlink : MayLink ps x y) :
    Inv (past ++ [.linked x y]) (ps.map (relink x y n)) (n + 1) := by
  have htrack : ∀ id, track id [.linked x y] = [] := fun id => track_eq_nil fun e he => by
    rw [mem_singleton.1 he]
    exact (by simp [Event.order])
  have hsubmitted : submittedIds (past ++ [.linked x y]) = submittedIds past := by
    rw [submittedIds_append]
    exact append_nil _
  have hmem : ∀ id a v, .submitted id a v ∈ past ++ [.linked x y] → .submitted id a v ∈ past := by
    intro id a v hsub
    rcases mem_append.1 hsub with hsub | hsub
    · exact hsub
    · cases mem_singleton.1 hsub
  have hfilled : ∀ u, FilledIn (past ++ [.linked x y]) u ↔ FilledIn past u := by
    intro u
    rw [filledIn_append]
    refine ⟨fun hor => hor.resolve_right ?_, .inl⟩
    rintro ⟨e, he, hm⟩
    rw [mem_singleton.1 he] at hm
    cases hm
  obtain ⟨o₁, ho₁, hid₁, hp₁⟩ := hlink.first
  obtain ⟨o₂, ho₂, hid₂, hp₂⟩ := hlink.second
  have hxn : x < n := hid₁ ▸ h.id_lt ho₁
  have hyn : y < n := hid₂ ▸ h.id_lt ho₂
  have hlinked : ∀ u v, LinkedIn (past ++ [.linked x y]) u v →
      LinkedIn past u v ∨ (u = x ∨ u = y) ∧ (v = x ∨ v = y) := by
    intro u v hl
    rcases hl with hl | hl
    · rcases mem_append.1 hl with hl | hl
      · exact .inl (.inl hl)
      · simp only [mem_singleton, Event.linked.injEq] at hl
        exact .inr ⟨.inl hl.1, .inr hl.2⟩
    · rcases mem_append.1 hl with hl | hl
      · exact .inl (.inr hl)
      · simp only [mem_singleton, Event.linked.injEq] at hl
        exact .inr ⟨.inr hl.2, .inl hl.1⟩
  have hpending : ∀ u, (u = x ∨ u = y) → ¬FilledIn past u := by
    rintro u (rfl | rfl)
    · exact hid₁ ▸ h.not_filled ho₁ hp₁
    · exact hid₂ ▸ h.not_filled ho₂ hp₂
  refine ⟨?_, ?_, ?_, ?_, ?_, ?_, ?_, ?_, ?_, ?_, ?_, ?_⟩
  · intro e he id hid
    rcases mem_append.1 he with he | he
    · exact Nat.lt_succ_of_lt (h.bound e he id hid)
    · rw [mem_singleton.1 he] at hid
      cases hid
  · have hids : (ps.map (relink x y n)).map Order.id = ps.map Order.id := by
      rw [map_map]
      exact List.map_congr_left fun o _ => (relink_same x y n o).1
    rw [hids]
    exact h.nodup
  · rw [hsubmitted]
    exact h.ids
  · intro q hq
    obtain ⟨o, ho, rfl⟩ := mem_map.1 hq
    obtain ⟨hid, -, -, hp⟩ := relink_same x y n o
    rw [hid, hp, track_append, htrack, append_nil]
    exact h.life o ho
  · intro id hid
    rw [hsubmitted] at hid
    rw [track_append, htrack, append_nil]
    exact h.gone id hid
  · intro q hq hp a v hsub
    obtain ⟨o, ho, rfl⟩ := mem_map.1 hq
    obtain ⟨hid, ha, hb, hp'⟩ := relink_same x y n o
    rw [hid] at hsub ⊢
    rw [ha, hb, age_quiet (h.submitted ho) fun e he => by rw [mem_singleton.1 he]; rfl]
    exact h.time o ho (hp' ▸ hp) a v (hmem _ _ _ hsub)
  · exact timelyFrom_append.2 ⟨h.timely, trivial, trivial⟩
  · intro q hq
    obtain ⟨o, ho, rfl⟩ := mem_map.1 hq
    rw [relink_link]
    split
    · exact Nat.lt_succ_self n
    · exact Nat.lt_succ_of_lt (h.links o ho)
  · refine ⟨Nat.succ_pos n, fun q hq => ?_⟩
    obtain ⟨o, ho, rfl⟩ := mem_map.1 hq
    rw [(relink_same x y n o).1]
    exact h.positive.2 o ho
  · intro u v hl
    rcases hlinked u v hl with hl | ⟨hu, hv⟩
    · obtain ⟨hu, hv⟩ := h.linkedBound u v hl
      exact ⟨Nat.lt_succ_of_lt hu, Nat.lt_succ_of_lt hv⟩
    · have hlt : ∀ w, w = x ∨ w = y → w < n + 1 := by
        rintro w (rfl | rfl)
        · exact Nat.lt_succ_of_lt hxn
        · exact Nat.lt_succ_of_lt hyn
      exact ⟨hlt u hu, hlt v hv⟩
  · -- both orders of the new link have it; an older pair is relinked as a whole or not at all
    intro u v huv hl q hq q' hq' hqu hqv hp hp'
    obtain ⟨o, ho, rfl⟩ := mem_map.1 hq
    obtain ⟨o', ho', rfl⟩ := mem_map.1 hq'
    rw [(relink_same x y n o).1] at hqu
    rw [(relink_same x y n o').1] at hqv
    rw [(relink_same x y n o).2.2.2] at hp
    rw [(relink_same x y n o').2.2.2] at hp'
    have hn : 0 < n := Nat.zero_lt_of_lt hxn
    rw [relink_link, relink_link]
    by_cases hu : o.id = x ∨ o.id = y
    · by_cases hv : o'.id = x ∨ o'.id = y
      · rw [if_pos hu, if_pos hv]
        exact ⟨rfl, hn⟩
      · exfalso
        rcases hlinked u v hl with hl | ⟨-, hv'⟩
        · obtain ⟨hsame, hpos⟩ := h.sameLink u v huv hl o ho o' ho' hqu hqv hp hp'
          have hzero := hlink.alone o' ho' hp' (fun he => hv (.inl he)) (fun he => hv (.inr he))
            o ho hu hsame.symm
          omega
        · exact hv (hqv ▸ hv')
    · by_cases hv : o'.id = x ∨ o'.id = y
      · exfalso
        rcases hlinked u v hl with hl | ⟨hu', -⟩
        · obtain ⟨hsame, hpos⟩ := h.sameLink u v huv hl o ho o' ho' hqu hqv hp hp'
          have hzero := hlink.alone o ho hp (fun he => hu (.inl he)) (fun he => hu (.inr he))
            o' ho' hv hsame
          omega
        · exact hu (hqu ▸ hu')
      · rw [if_neg hu, if_neg hv]
        rcases hlinked u v hl with hl | ⟨hu', -⟩
        · exact h.sameLink u v huv hl o ho o' ho' hqu hqv hp hp'
        · exact absurd (hqu ▸ hu') hu
  · intro u v huv hl hf
    rw [hfilled] at hf
    rw [hfilled]
    rcases hlinked u v hl with hl | ⟨hu, -⟩
    · obtain ⟨hnot, hdead⟩ := h.oneFills u v huv hl hf
      refine ⟨hnot, fun q hq hv => ?_⟩
      obtain ⟨o, ho, rfl⟩ := mem_map.1 hq
      obtain ⟨hid, -, -, hp⟩ := relink_same x y n o
      rw [hp]
      exact hdead o ho (hid ▸ hv)
    · exact absurd hf (hpending u hu)

end Submissions

end TurboScript.Fin
