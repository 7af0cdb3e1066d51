import TurboScript.Fin.Books

/- The life of a pending order, read off a history.

   1. `track`: the events of one order, and `Life`: the lists of events an order may have. It is
      submitted; it is attempted and filled, or it is cancelled or expires; what is not pending
      may be marked as cancelled again.
   2. What holds of every life: it leaves PENDING at most once (`leaves_once`), it is filled
      exactly if its attempt was effective (`filled_iff`), and nothing is filled after the end
      (`dead_stays`).
   3. `Timely`: every event against the bars since the submission. -/
namespace TurboScript.Fin

def Event.order : Event → Option OrderId
  | .submitted id _ _ => some id
  | .attempt order _ => order
  | .status id _ _ => some id
  | .bar _ _ => none
  | .linked _ _ => none

def Event.isAbout (id : OrderId) (e : Event) : Bool := e.order == some id

def track (id : OrderId) (es : List Event) : List Event := es.filter (Event.isAbout id)

def submittedIds (es : List Event) : List OrderId :=
  es.filterMap fun e =>
    match e with
    | .submitted id _ _ => some id
    | _ => none

def Attempt.Effective (t : Attempt) : Prop :=
  t.isAccepted = true ∧ position t.after t.assetId ≠ position t.before t.assetId

inductive Next (id : OrderId) : Bool → Bool → List Event → Prop
  | stay (b : Bool) : Next id b b []
  | filled (t : Attempt) (h : t.Effective) :
      Next id true false [.attempt (some id) t, .status id .pending .filled]
  | ended (s : OrderStatus) (h : s = .cancelled ∨ s = .expired) :
      Next id true false [.status id .pending s]
  | later (old : OrderStatus) (h : old ≠ .pending) : Next id false false [.status id old .cancelled]

inductive Life (id : OrderId) : Bool → List Event → Prop
  | submitted (a : AssetId) (barsValid : Int) : Life id true [.submitted id a barsValid]
  | next {b b' : Bool} {es es' : List Event} (h : Life id b es) (h' : Next id b b' es') :
      Life id b' (es ++ es')

def Event.leaves (id : OrderId) : Event → Bool
  | .status id' .pending s => id' == id && s != .pending
  | _ => false

def Event.Fills (id : OrderId) : Event → Prop
  | .attempt (some id') t => id' = id ∧ t.Effective
  | _ => False

def Event.marksFilled (id : OrderId) : Event → Bool
  | .status id' old .filled => id' == id && old != .filled
  | _ => false

def Event.ends (id : OrderId) : Event → Bool
  | .status id' _ s => id' == id && (s == .cancelled || s == .expired)
  | _ => false

structure Lived (id : OrderId) (b : Bool) (es : List Event) : Prop where
  pending : b = true → ∀ e ∈ es, e.leaves id = false ∧ ¬e.Fills id ∧ e.marksFilled id = false ∧
    e.ends id = false
  leaves_once : es.countP (Event.leaves id) ≤ 1
  filled_iff : (∃ e ∈ es, e.marksFilled id = true) ↔ ∃ e ∈ es, e.Fills id
  filled_once : es.countP (Event.marksFilled id) ≤ 1
  dead_stays : es.Pairwise fun e e' => e.ends id = true → ¬e'.Fills id

section Lives
variable {id : OrderId} {b b' : Bool} {es es' : List Event}

theorem Lived.append_later (h : Lived id false es) {old : OrderStatus} (hold : old ≠ .pending) :
    Lived id false (es ++ [.status id old .cancelled]) := by
  have hleaves : (Event.status id old .cancelled).leaves id = false := by
    cases old with
    | pending => exact absurd rfl hold
    | _ => rfl
  have hfills : ¬(Event.status id old .cancelled).Fills id := fun h => h
  have hmarks : (Event.status id old .cancelled).marksFilled id = false := rfl
  refine ⟨fun hb => absurd hb (by simp), ?_, ?_, ?_, ?_⟩
  · rw [List.countP_append, List.countP_singleton, hleaves]
    exact h.leaves_once
  · simp only [List.mem_append, List.mem_singleton, or_and_right, exists_or, exists_eq_left]
    rw [h.filled_iff, hmarks]
    simp [hfills]
  · rw [List.countP_append, List.countP_singleton, hmarks]
    exact h.filled_once
  · refine List.pairwise_append.2 ⟨h.dead_stays, List.pairwise_singleton .., ?_⟩
    intro e _ e' he' _
    rw [List.mem_singleton.1 he']
    exact hfills

theorem Lived.append_ended (h : Lived id true es) {s : OrderStatus}
    (hs : s = .cancelled ∨ s = .expired) : Lived id false (es ++ [.status id .pending s]) := by
  have hleaves : es.countP (Event.leaves id) = 0 :=
    List.countP_eq_zero.2 fun e he => by simp [(h.pending rfl e he).1]
  have hmarked : es.countP (Event.marksFilled id) = 0 :=
    List.countP_eq_zero.2 fun e he => by simp [(h.pending rfl e he).2.2.1]
  have hfills : ¬(Event.status id .pending s).Fills id := fun h => h
  have hmarks : (Event.status id .pending s).marksFilled id = false := by
    rcases hs with rfl | rfl <;> rfl
  refine ⟨fun hb => absurd hb (by simp), ?_, ?_, ?_, ?_⟩
  · rw [List.countP_append, hleaves, Nat.zero_add]
    exact List.countP_le_length
  · simp only [List.mem_append, List.mem_singleton, or_and_right, exists_or, exists_eq_left]
    rw [h.filled_iff, hmarks]
    simp [hfills]
  · rw [List.countP_append, List.countP_singleton, hmarks, hmarked]
    exact Nat.zero_le 1
  · refine List.pairwise_append.2 ⟨h.dead_stays, List.pairwise_singleton .., ?_⟩
    intro e _ e' he' _
    rw [List.mem_singleton.1 he']
    exact hfills

theorem Lived.append_filled (h : Lived id true es) {t : Attempt} (ht : t.Effective) :
    Lived id false (es ++ [.attempt (some id) t, .status id .pending .filled]) := by
  have hleaves : es.countP (Event.leaves id) = 0 :=
    List.countP_eq_zero.2 fun e he => by simp [(h.pending rfl e he).1]
  have hmarked : es.countP (Event.marksFilled id) = 0 :=
    List.countP_eq_zero.2 fun e he => by simp [(h.pending rfl e he).2.2.1]
  have hattempt : (Event.attempt (some id) t).Fills id := ⟨rfl, ht⟩
  have hmarks : (Event.status id .pending .filled).marksFilled id = true := by
    simp [Event.marksFilled]
  refine ⟨fun hb => absurd hb (by simp), ?_, ?_, ?_, ?_⟩
  · rw [List.countP_append, hleaves, Nat.zero_add]
    exact (List.countP_cons_of_neg (by simp [Event.leaves])).trans_le List.countP_le_length
  · exact ⟨fun _ => ⟨_, by simp, hattempt⟩, fun _ => ⟨_, by simp, hmarks⟩⟩
  · rw [List.countP_append, hmarked, Nat.zero_add]
    exact (List.countP_cons_of_neg (by simp [Event.marksFilled])).trans_le List.countP_le_length
  · refine List.pairwise_append.2 ⟨h.dead_stays, ?_, ?_⟩
    · refine List.pairwise_pair.2 fun hends => ?_
      cases hends
    · intro e he e' _ hends
      rw [(h.pending rfl e he).2.2.2] at hends
      cases hends

theorem Life.lived (h : Life id b es) : Lived id b es := by
  induction h with
  | submitted a barsValid =>
    have hone : ∀ e ∈ [Event.submitted id a barsValid], e.leaves id = false ∧ ¬e.Fills id ∧
        e.marksFilled id = false ∧ e.ends id = false := by
      intro e he
      rw [List.mem_singleton.1 he]
      exact ⟨rfl, fun h => h, rfl, rfl⟩
    refine ⟨fun _ => hone, ?_, ?_, ?_, List.pairwise_singleton ..⟩
    · exact List.countP_le_length
    · constructor
      · rintro ⟨e, he, hm⟩
        rw [(hone e he).2.2.1] at hm
        cases hm
      · rintro ⟨e, he, hf⟩
        exact absurd hf (hone e he).2.1
    · exact List.countP_le_length
  | next h h' ih =>
    cases h' with
    | stay => rwa [List.append_nil]
    | filled t ht => exact ih.append_filled ht
    | ended s hs => exact ih.append_ended hs
    | later old hold => exact ih.append_later hold

theorem Life.mem_submitted (h : Life id b es) : ∃ a barsValid, .submitted id a barsValid ∈ es := by
  induction h with
  | submitted a barsValid => exact ⟨a, barsValid, List.mem_singleton_self _⟩
  | next h h' ih =>
    obtain ⟨a, barsValid, hmem⟩ := ih
    exact ⟨a, barsValid, List.mem_append_left _ hmem⟩

end Lives

/-! The events of one order among the others. -/

section Tracks
variable {id : OrderId} {es es' : List Event}

theorem track_append (id : OrderId) (es es' : List Event) :
    track id (es ++ es') = track id es ++ track id es' :=
  List.filter_append ..

theorem track_eq_nil (h : ∀ e ∈ es, e.order ≠ some id) : track id es = [] :=
  List.filter_eq_nil_iff.2 fun e he => by simpa [Event.isAbout] using h e he

theorem submittedIds_append (es es' : List Event) :
    submittedIds (es ++ es') = submittedIds es ++ submittedIds es' :=
  List.filterMap_append

theorem mem_submittedIds : id ∈ submittedIds es ↔ ∃ a barsValid, .submitted id a barsValid ∈ es := by
  unfold submittedIds
  constructor
  · intro h
    obtain ⟨e, he, heq⟩ := List.mem_filterMap.1 h
    cases e with
    | submitted id' a barsValid =>
      cases heq
      exact ⟨a, barsValid, he⟩
    | _ => cases heq
  · rintro ⟨a, barsValid, h⟩
    exact List.mem_filterMap.2 ⟨_, h, rfl⟩

theorem leaves_isAbout {e : Event} (h : e.leaves id = true) : e.isAbout id = true := by
  cases e with
  | status id' old new =>
    cases old with
    | pending =>
      simp only [Event.leaves, Bool.and_eq_true, beq_iff_eq] at h
      simp [Event.isAbout, Event.order, h.1]
    | _ => cases h
  | _ => cases h

theorem marksFilled_isAbout {e : Event} (h : e.marksFilled id = true) : e.isAbout id = true := by
  cases e with
  | status id' old new =>
    cases new with
    | filled =>
      simp only [Event.marksFilled, Bool.and_eq_true, beq_iff_eq] at h
      simp [Event.isAbout, Event.order, h.1]
    | _ => cases h
  | _ => cases h

theorem ends_isAbout {e : Event} (h : e.ends id = true) : e.isAbout id = true := by
  cases e with
  | status id' old new =>
    simp only [Event.ends, Bool.and_eq_true, beq_iff_eq] at h
    simp [Event.isAbout, Event.order, h.1]
  | _ => cases h

theorem fills_isAbout {e : Event} (h : e.Fills id) : e.isAbout id = true := by
  cases e with
  | attempt order t =>
    cases order with
    | some id' => simp [Event.isAbout, Event.order, h.1]
    | none => cases h
  | _ => cases h

theorem countP_track {p : Event → Bool} (h : ∀ e, p e = true → e.isAbout id = true) :
    (track id es).countP p = es.countP p := by
  unfold track
  rw [List.countP_filter]
  congr 1
  funext e
  cases hp : p e with
  | false => simp
  | true => simp [h e hp]

theorem exists_track {p : Event → Prop} (h : ∀ e, p e → e.isAbout id = true) :
    (∃ e ∈ track id es, p e) ↔ ∃ e ∈ es, p e := by
  unfold track
  constructor
  · rintro ⟨e, he, hp⟩
    exact ⟨e, List.mem_of_mem_filter he, hp⟩
  · rintro ⟨e, he, hp⟩
    exact ⟨e, List.mem_filter.2 ⟨he, h e hp⟩, hp⟩

theorem Lived.of_track {b : Bool} (h : Lived id b (track id es)) : es.countP (Event.leaves id) ≤ 1 ∧
      ((∃ e ∈ es, e.marksFilled id = true) ↔ ∃ e ∈ es, e.Fills id) ∧
      es.countP (Event.marksFilled id) ≤ 1 ∧
      es.Pairwise fun e e' => e.ends id = true → ¬e'.Fills id := by
  refine ⟨?_, ?_, ?_, ?_⟩
  · rw [← countP_track fun e => leaves_isAbout]
    exact h.leaves_once
  · rw [← exists_track fun e => marksFilled_isAbout, ← exists_track fun e => fills_isAbout]
    exact h.filled_iff
  · rw [← countP_track fun e => marksFilled_isAbout]
    exact h.filled_once
  · have hd := h.dead_stays
    unfold track at hd
    rw [List.pairwise_filter] at hd
    exact hd.imp fun h' he hf => h' (ends_isAbout he) (fills_isAbout hf) he hf

end Tracks


/-! The bars of an order. -/

def Event.isBar (a : AssetId) : Event → Bool
  | .bar a' _ => a' == a
  | _ => false

def age (id : OrderId) (a : AssetId) : List Event → Nat
  | [] => 0
  | e :: es => if e.order = some id then es.countP (Event.isBar a) else age id a es

/-- An event given what came before it: an order is filled on one of its bars, and expires on the
one after them. -/
def Timely (past : List Event) : Event → Prop
  | .attempt (some id) _ => ∀ a barsValid, .submitted id a barsValid ∈ past → 0 ≤ barsValid →
      (age id a past : Int) ≤ barsValid
  | .status id .pending .expired => ∀ a barsValid, .submitted id a barsValid ∈ past →
      0 ≤ barsValid ∧ (age id a past : Int) = barsValid + 1
  | _ => True

/-- Every event after `past` is timely. -/
def TimelyFrom (past : List Event) : List Event → Prop
  | [] => True
  | e :: es => Timely past e ∧ TimelyFrom (past ++ [e]) es

section Ages
variable {id : OrderId} {a : AssetId} {past es es' : List Event}

theorem age_append (h : id ∈ submittedIds past) (es : List Event) :
    age id a (past ++ es) = age id a past + es.countP (Event.isBar a) := by
  induction past with
  | nil => cases h
  | cons e past ih =>
    simp only [List.cons_append, age]
    by_cases he : e.order = some id
    · rw [if_pos he, if_pos he, List.countP_append]
    · rw [if_neg he, if_neg he]
      refine ih ?_
      rw [mem_submittedIds] at h ⊢
      obtain ⟨a', barsValid, hmem⟩ := h
      rcases List.mem_cons.1 hmem with rfl | hmem
      · exact absurd rfl he
      · exact ⟨a', barsValid, hmem⟩

theorem age_quiet (h : id ∈ submittedIds past) (hes : ∀ e ∈ es, e.isBar a = false) :
    age id a (past ++ es) = age id a past := by
  rw [age_append h, List.countP_eq_zero.2 fun e he => by simp [hes e he], Nat.add_zero]

theorem age_submitted {v : Int} {a' : AssetId} (h : ∀ e ∈ past, e.order ≠ some id) :
    age id a (past ++ [.submitted id a' v]) = 0 := by
  induction past with
  | nil =>
    show (if some id = some id then List.countP _ [] else _) = 0
    rw [if_pos rfl]
    rfl
  | cons e past ih =>
    obtain ⟨he, hrest⟩ := List.forall_mem_cons.1 h
    rw [List.cons_append, age, if_neg he]
    exact ih hrest

theorem timelyFrom_append : TimelyFrom past (es ++ es') ↔
    TimelyFrom past es ∧ TimelyFrom (past ++ es) es' := by
  induction es generalizing past with
  | nil => simp [TimelyFrom]
  | cons e es ih =>
    simp only [List.cons_append, TimelyFrom, ih, List.append_assoc, List.nil_append, and_assoc]

theorem timelyFrom_of (h : ∀ e ∈ es, ∀ past, Timely past e) (past : List Event) :
    TimelyFrom past es := by
  induction es generalizing past with
  | nil => trivial
  | cons e es ih =>
    obtain ⟨he, hes⟩ := List.forall_mem_cons.1 h
    exact ⟨he past, ih hes _⟩

theorem timelyFrom_expired {os : List Order}
    (h : ∀ o ∈ os, ∀ a barsValid, .submitted o.id a barsValid ∈ past →
      0 ≤ barsValid ∧ (age o.id a past : Int) = barsValid + 1)
    (hpending : ∀ o ∈ os, o.status = .pending) :
    TimelyFrom past (os.map fun o => .status o.id o.status .expired) := by
  have hquiet : ∀ os' : List Order, ∀ e ∈ os'.map fun o => Event.status o.id o.status .expired,
      ∀ a, e.isBar a = false := by
    intro os' e he a
    obtain ⟨o, -, rfl⟩ := List.mem_map.1 he
    rfl
  -- the orders before one of them are no submissions and no bars
  have hall : ∀ os' : List Order, (∀ o ∈ os', o ∈ os) → ∀ before : List Order,
      TimelyFrom (past ++ before.map fun o => .status o.id o.status .expired)
        (os'.map fun o => .status o.id o.status .expired) := by
    intro os'
    induction os' with
    | nil => exact fun _ _ => trivial
    | cons o os' ih =>
      intro hsub before
      obtain ⟨ho, hos'⟩ := List.forall_mem_cons.1 hsub
      refine ⟨?_, ?_⟩
      · show Timely _ (.status o.id o.status .expired)
        rw [hpending o ho]
        intro a barsValid hmem
        have hpast : .submitted o.id a barsValid ∈ past := by
          rcases List.mem_append.1 hmem with hmem | hmem
          · exact hmem
          · obtain ⟨o', -, heq⟩ := List.mem_map.1 hmem
            cases heq
        rw [age_quiet (mem_submittedIds.2 ⟨a, barsValid, hpast⟩) fun e he => hquiet before e he a]
        exact h o ho a barsValid hpast
      · have hnext := ih hos' (before ++ [o])
        rwa [List.map_append, ← List.append_assoc] at hnext
  have hstart := hall os (fun _ h => h) []
  rwa [List.map_nil, List.append_nil] at hstart

end Ages

end TurboScript.Fin
