import Mathlib.Algebra.BigOperators.Group.List.Basic
import Mathlib.Algebra.Order.Field.Rat
import Mathlib.Data.Int.ConditionallyCompleteOrder
import Mathlib.Order.BoundedOrder.Basic
import Mathlib.Tactic.Ring
import TurboScript.Lib.Bisect

/- The universe (`universe.c`): assets, the table of their adjustments, and what of both holds at
   the current date.

   1. The table and its two searches; `finalize`; `advance` and `applyRuntimeAdjustments`. The
      sorting is the library's: the table is any sorted arrangement of what was added. Dates are an
      order whose least element stands for `-DBL_MAX`.
   2. What the table says once it is sorted and its factors are accumulated.
   3. Every call keeps `Ready`, and `advance` reports the delistings since the date before.
   4. `universe_lookup`. A delisting dated at or before 0 is not reported: 0 means that an asset
      has no end. -/
namespace TurboScript.Fin.Assets
open Lib

/-- `universe_asset_t`; an end date of 0 is none. -/
structure Asset (T : Type) where
  id : Nat
  startDate : T
  endDate : T

inductive AdjType
  | split
  | dividend
  | delist
  | name
  deriving DecidableEq, Repr

/-- `universe_adj_t`. -/
structure Adj (T : Type) where
  assetId : Nat
  date : T
  type : AdjType
  factor : ℚ
  cumAdj : ℚ := 0

/-- `universe_t`; the arrays are by the index of an asset. -/
structure Universe (T : Type) where
  assets : List (Asset T)
  adjustments : List (Adj T)
  activeMask : Nat → Bool
  cumAdjCache : Nat → ℚ
  dividendAdjCache : Nat → ℚ
  lastDividendDate : Nat → T
  currentDate : T
  delistedToday : List Nat

section Operations
variable {T : Type} [LinearOrder T] [OrderBot T] [Zero T]

def adjUpperBound (adj : List (Adj T)) (a : Nat) (d : T) : Nat :=
  bisect (fun x => x.assetId < a || x.assetId == a && decide (x.date ≤ d)) adj

def adjLowerBound (adj : List (Adj T)) (a : Nat) (d : T) : Nat :=
  bisect (fun x => x.assetId < a || x.assetId == a && decide (x.date < d)) adj

/-- `universe_reset_runtime`. -/
def resetRuntime (u : Universe T) : Universe T :=
  { u with
    activeMask := fun _ => false
    cumAdjCache := fun _ => 1
    dividendAdjCache := fun _ => 1
    lastDividendDate := fun _ => ⊥
    currentDate := 0
    delistedToday := [] }

/-- The factors from an adjustment on, after one of the asset `aid` with the factor `cum`. -/
def accumulate (aid : Nat) (cum : ℚ) : List (Adj T) → List (Adj T)
  | [] => []
  | x :: xs =>
    let cum := if x.assetId = aid then cum else 1
    let cum := if x.type = .split then cum / x.factor else cum
    { x with cumAdj := cum } :: accumulate x.assetId cum xs

/-- `universe_finalize`, with the adjustments sorted. -/
def finalize (assets : List (Asset T)) (sorted : List (Adj T)) : Universe T :=
  resetRuntime
    { assets := assets
      adjustments := accumulate 0 1 sorted
      activeMask := fun _ => false
      cumAdjCache := fun _ => 1
      dividendAdjCache := fun _ => 1
      lastDividendDate := fun _ => ⊥
      currentDate := 0
      delistedToday := [] }

def splitAdj (adj : List (Adj T)) (a : Nat) (d : T) : ℚ :=
  let hi := adjUpperBound adj a d
  if 0 < hi then
    match adj[hi - 1]? with
    | some x => if adjLowerBound adj a ⊥ < hi ∧ x.assetId = a then x.cumAdj else 1
    | none => 1
  else 1

def isActive (a : Asset T) (d : T) : Bool :=
  decide (a.startDate ≤ d) && (decide (a.endDate = 0) || decide (d < a.endDate))

def isDelisted (a : Asset T) (prev d : T) : Bool :=
  decide (0 < a.endDate) && decide (prev < a.endDate) && decide (a.endDate ≤ d)

/-- `universe_advance`. -/
def advance (u : Universe T) (d : T) : Universe T :=
  if u.assets = [] then u
  else
    let u := if d < u.currentDate then resetRuntime u else u
    { u with
      currentDate := d
      delistedToday := (u.assets.filter (isDelisted · u.currentDate d)).map Asset.id
      activeMask := fun i => match u.assets[i]? with
        | some a => isActive a d
        | none => u.activeMask i
      cumAdjCache := fun i => match u.assets[i]? with
        | some a =>
          if u.adjustments = [] then u.cumAdjCache i
          else splitAdj u.adjustments a.id d * u.dividendAdjCache i
        | none => u.cumAdjCache i }

/-- `universe_find_asset`. -/
def findAsset (u : Universe T) (a : Nat) : Option Nat := u.assets.findIdx? (·.id == a)

/-- `universe_adj_factor`. -/
def adjFactor (u : Universe T) (a : Nat) : ℚ :=
  match findAsset u a with
  | some i => u.cumAdjCache i
  | none => 1

/-- The dividends of one date: each takes its part of the close before. -/
def dividendRatio (a : Nat) (d : T) (prevClose : ℚ) (adj : List (Adj T)) (acc : ℚ) : ℚ :=
  adj.foldl (fun acc x =>
    if x.assetId = a ∧ x.date = d ∧ x.type = .dividend then
      let ratio := (prevClose - x.factor) / prevClose
      if 0 < ratio then acc * ratio else acc
    else acc) acc

/-- `universe_apply_runtime_adjustments`. -/
def applyRuntimeAdjustments (u : Universe T) (a : Nat) (d : T) (prevClose : ℚ) : Universe T :=
  if u.adjustments = [] ∨ prevClose ≤ 0 then u
  else
    match findAsset u a with
    | none => u
    | some i =>
      if u.lastDividendDate i = d then u
      else
        let lo := adjLowerBound u.adjustments a d
        let hi := adjUpperBound u.adjustments a d
        let u := { u with lastDividendDate := Function.update u.lastDividendDate i d }
        if hi ≤ lo then u
        else
          let dividend := dividendRatio a d prevClose ((u.adjustments.take hi).drop lo)
            (u.dividendAdjCache i)
          { u with
            dividendAdjCache := Function.update u.dividendAdjCache i dividend
            cumAdjCache :=
              Function.update u.cumAdjCache i (splitAdj u.adjustments a d * dividend) }

inductive Call (T : Type)
  | advance (d : T)
  | applyRuntimeAdjustments (a : Nat) (d : T) (prevClose : ℚ)

def perform (u : Universe T) : Call T → Universe T
  | .advance d => advance u d
  | .applyRuntimeAdjustments a d prevClose => applyRuntimeAdjustments u a d prevClose

/-- What `universe_delisted_today` gives at each date of a run, one after the other. -/
def reports (u : Universe T) : List T → List Nat
  | [] => []
  | d :: ds => (advance u d).delistedToday ++ reports (advance u d) ds

/-- What `adj_compare` does not put behind. -/
def AdjLe (x y : Adj T) : Prop :=
  x.assetId < y.assetId ∨ x.assetId = y.assetId ∧ x.date ≤ y.date

def splitsUpTo (a : Nat) (d : T) (adj : List (Adj T)) : List (Adj T) :=
  adj.filter fun x => x.assetId == a && decide (x.date ≤ d) && decide (x.type = .split)

def splitProduct (adj : List (Adj T)) (a : Nat) (d : T) : ℚ :=
  ((splitsUpTo a d adj).map fun x => 1 / x.factor).prod

end Operations

/-! ## The table -/

section Table
variable {T : Type}

/-- An adjustment without what `finalize` computes. -/
def Adj.plain (x : Adj T) : Adj T := { x with cumAdj := 0 }

theorem accumulate_plain (aid : Nat) (cum : ℚ) (xs : List (Adj T)) :
    (accumulate aid cum xs).map Adj.plain = xs.map Adj.plain := by
  induction xs generalizing aid cum with
  | nil => rfl
  | cons x xs ih =>
    rw [accumulate, List.map_cons, List.map_cons, ih]
    rfl

def inverses (a : Nat) (xs : List (Adj T)) : List ℚ :=
  (xs.filter fun x => x.assetId == a && decide (x.type = .split)).map fun x => 1 / x.factor

theorem accumulate_cumAdj {aid : Nat} {cum : ℚ} {xs : List (Adj T)}
    (hs : xs.Pairwise fun x y => x.assetId ≤ y.assetId) (haid : ∀ x ∈ xs, aid ≤ x.assetId) {j : Nat}
    {y : Adj T} (hy : (accumulate aid cum xs)[j]? = some y) :
    y.cumAdj = (if y.assetId = aid then cum else 1) *
      (inverses y.assetId ((accumulate aid cum xs).take (j + 1))).prod := by
  induction xs generalizing aid cum j with
  | nil => simp [accumulate] at hy
  | cons x xs ih =>
    obtain ⟨hx, hs⟩ := List.pairwise_cons.mp hs
    have hmem : ∀ z ∈ accumulate x.assetId
        (if x.type = .split then (if x.assetId = aid then cum else 1) / x.factor
          else if x.assetId = aid then cum else 1) xs, x.assetId ≤ z.assetId := by
      intro z hz
      have hp : z.plain ∈ xs.map Adj.plain := by
        rw [← accumulate_plain]
        exact List.mem_map_of_mem hz
      obtain ⟨w, hw, he⟩ := List.mem_map.mp hp
      have he : w.plain.assetId = z.plain.assetId := by rw [he]
      exact (hx w hw).trans_eq he
    rw [accumulate] at hy ⊢
    cases j with
    | zero =>
      cases hy
      by_cases hsplit : x.type = .split <;> simp [inverses, hsplit, div_eq_mul_inv]
    | succ j =>
      rw [List.getElem?_cons_succ] at hy
      have hle := hmem y (List.mem_of_getElem? hy)
      rw [ih hs hx hy, List.take_succ_cons]
      by_cases hxy : x.assetId = y.assetId
      · rw [if_pos hxy.symm]
        by_cases hsplit : x.type = .split
        · simp [inverses, hsplit, hxy, div_eq_mul_inv]
          rw [mul_assoc]
        · simp [inverses, hsplit, hxy]
      · -- another asset: what was accumulated before does not count
        have hne : y.assetId ≠ aid := by
          have := haid x (.head xs)
          omega
        rw [if_neg (Ne.symm hxy), if_neg hne]
        simp [inverses, hxy]

variable [LinearOrder T]

theorem pairwise_accumulate {xs : List (Adj T)} (hs : xs.Pairwise AdjLe) (aid : Nat) (cum : ℚ) :
    (accumulate aid cum xs).Pairwise AdjLe := by
  have hplain : (xs.map Adj.plain).Pairwise AdjLe := List.pairwise_map.mpr hs
  rw [← accumulate_plain aid cum, List.pairwise_map] at hplain
  exact hplain

theorem closed {adj : List (Adj T)} (hs : adj.Pairwise AdjLe) (a : Nat) (early : T → Bool)
    (hu : ∀ x y, x ≤ y → early y = true → early x = true) :
    adj.Pairwise fun x y => (y.assetId < a || y.assetId == a && early y.date) = true →
      (x.assetId < a || x.assetId == a && early x.date) = true := by
  refine hs.imp fun {x y} hxy hy => ?_
  simp only [Bool.or_eq_true, Bool.and_eq_true, decide_eq_true_eq, beq_iff_eq] at hy ⊢
  rcases hxy with hlt | ⟨heq, hle⟩
  · left
    rcases hy with hy | ⟨hy, _⟩ <;> omega
  · rw [heq]
    exact hy.imp_right fun h => ⟨h.1, hu _ _ hle h.2⟩

theorem upper_closed {adj : List (Adj T)} (hs : adj.Pairwise AdjLe) (a : Nat) (d : T) :
    adj.Pairwise fun x y => (y.assetId < a || y.assetId == a && decide (y.date ≤ d)) = true →
      (x.assetId < a || x.assetId == a && decide (x.date ≤ d)) = true :=
  closed hs a (fun t => decide (t ≤ d)) fun _ _ hxy hy => by
    simpa using hxy.trans (by simpa using hy)

theorem lower_closed {adj : List (Adj T)} (hs : adj.Pairwise AdjLe) (a : Nat) (d : T) :
    adj.Pairwise fun x y => (y.assetId < a || y.assetId == a && decide (y.date < d)) = true →
      (x.assetId < a || x.assetId == a && decide (x.date < d)) = true :=
  closed hs a (fun t => decide (t < d)) fun _ _ hxy hy => by
    simpa using hxy.trans_lt (by simpa using hy)

theorem splitProduct_perm {xs ys : List (Adj T)} (h : xs.Perm ys) (a : Nat) (d : T) :
    splitProduct xs a d = splitProduct ys a d :=
  ((h.filter _).map _).prod_eq

theorem splitProduct_accumulate (aid : Nat) (cum : ℚ) (xs : List (Adj T)) (a : Nat) (d : T) :
    splitProduct (accumulate aid cum xs) a d = splitProduct xs a d := by
  have hplain : ∀ ys : List (Adj T), splitProduct (ys.map Adj.plain) a d = splitProduct ys a d := by
    intro ys
    unfold splitProduct splitsUpTo
    rw [List.filter_map, List.map_map]
    rfl
  rw [← hplain, accumulate_plain, hplain]

theorem splitAdj_eq [OrderBot T] {xs : List (Adj T)} (hs : xs.Pairwise AdjLe) (a : Nat) (d : T) :
    splitAdj (accumulate 0 1 xs) a d = splitProduct xs a d := by
  rw [← splitProduct_accumulate 0 1]
  have hids : xs.Pairwise fun x y => x.assetId ≤ y.assetId :=
    hs.imp fun h => h.elim (fun h => h.le) fun h => h.1.le
  have hcum := @accumulate_cumAdj T 0 1 xs hids fun x _ => Nat.zero_le _
  have hs := pairwise_accumulate hs 0 1
  generalize accumulate 0 1 xs = adj at hcum hs ⊢
  have htake : adj.take (adjUpperBound adj a d) = _ := take_bisect (upper_closed hs a d)
  have hsplits : inverses a (adj.take (adjUpperBound adj a d)) =
      (splitsUpTo a d adj).map fun x => 1 / x.factor := by
    rw [htake]
    unfold inverses splitsUpTo
    rw [List.filter_filter]
    congr 2
    funext x
    cases hx : x.assetId == a with
    | true => simp [beq_iff_eq.mp hx, Bool.and_comm]
    | false => simp
  unfold splitAdj splitProduct
  rw [← hsplits]
  simp only
  cases hhi : adjUpperBound adj a d with
  | zero => simp [inverses]
  | succ n =>
    rw [if_pos (Nat.succ_pos n), Nat.add_sub_cancel]
    have hn : n < adj.length := by
      have hlen := congrArg List.length htake
      have hbis : adjUpperBound adj a d = _ := bisect_eq (upper_closed hs a d)
      rw [List.length_take, ← hbis] at hlen
      omega
    rw [List.getElem?_eq_getElem hn]
    have hlast : adj[n] ∈ adj.take (n + 1) := List.mem_take_iff_getElem.mpr ⟨n, by omega, rfl⟩
    have hp := hlast
    rw [← hhi, htake] at hp
    have hp := List.of_mem_filter hp
    simp only [Bool.or_eq_true, Bool.and_eq_true, decide_eq_true_eq, beq_iff_eq] at hp
    by_cases hid : adj[n].assetId = a
    · have hlo : adjLowerBound adj a ⊥ < n + 1 := by
        by_contra hle
        have hmem : adj[n] ∈ adj.take (adjLowerBound adj a ⊥) :=
          List.mem_take_iff_getElem.mpr ⟨n, by omega, rfl⟩
        rw [show adj.take (adjLowerBound adj a ⊥) = _ from take_bisect (lower_closed hs a ⊥)] at hmem
        simpa [hid] using List.of_mem_filter hmem
      simp only [hlo, hid, and_self, if_true]
      rw [hcum (List.getElem?_eq_getElem hn), hid]
      simp
    · -- the last adjustment up to there is of an asset before this one, and so are all others
      simp only [hid, and_false, if_false]
      have hlt : ∀ x ∈ adj.take (n + 1), x.assetId ≠ a := by
        intro x hx heq
        obtain ⟨i, hi, rfl⟩ := List.mem_take_iff_getElem.mp hx
        rcases Nat.lt_or_ge i n with hin | hin
        · have hle := List.pairwise_iff_getElem.mp hs i n (by omega) hn hin
          rcases hle with hle | hle <;> omega
        · obtain rfl : i = n := by omega
          exact hid heq
      have hnil : inverses a (adj.take (n + 1)) = [] := by
        simpa [inverses, List.filter_eq_nil_iff] using fun x hx h => absurd h (hlt x hx)
      rw [hnil, List.prod_nil]

end Table
/-! ## Runs -/

section Runs
variable {T : Type} [LinearOrder T] [OrderBot T] [Zero T] {u : Universe T}
  {assets : List (Asset T)} {table : List (Adj T)}

structure Ready (u : Universe T) (assets : List (Asset T)) (table : List (Adj T)) : Prop where
  listed : u.assets = assets
  finalized : u.adjustments = table
  plain : table = [] → ∀ i, u.cumAdjCache i = u.dividendAdjCache i
  unreported : assets = [] → u.delistedToday = []

theorem Ready.resetRuntime (h : Ready u assets table) : Ready (resetRuntime u) assets table :=
  ⟨h.listed, h.finalized, fun _ _ => rfl, fun _ => rfl⟩

theorem Ready.startOf (h : Ready u assets table) (d : T) :
    Ready (if d < u.currentDate then Assets.resetRuntime u else u) assets table := by
  split
  · exact h.resetRuntime
  · exact h

def startOf (u : Universe T) (d : T) : T := if d < u.currentDate then 0 else u.currentDate

theorem Ready.advance (h : Ready u assets table) (d : T) : Ready (advance u d) assets table ∧
    (assets ≠ [] → (Assets.advance u d).currentDate = d) ∧
    (Assets.advance u d).delistedToday =
      (assets.filter (isDelisted · (Assets.startOf u d) d)).map Asset.id ∧
    ∀ (i : Nat) (a : Asset T), assets[i]? = some a → (Assets.advance u d).activeMask i = isActive a d ∧
      (table ≠ [] → (Assets.advance u d).cumAdjCache i =
        splitAdj table a.id d * (Assets.advance u d).dividendAdjCache i) := by
  have hr := h.startOf d
  have hdate : (if d < u.currentDate then Assets.resetRuntime u else u).currentDate =
      Assets.startOf u d := by
    unfold Assets.startOf
    split <;> rfl
  unfold Assets.advance
  rw [h.listed]
  by_cases hnone : assets = []
  · rw [if_pos hnone]
    refine ⟨h, fun hne => absurd hnone hne, by rw [h.unreported hnone, hnone]; rfl, ?_⟩
    intro i a hi
    rw [hnone] at hi
    cases hi
  · rw [if_neg hnone]
    generalize (if d < u.currentDate then Assets.resetRuntime u else u) = v at hr hdate
    obtain ⟨hassets, hadj, hplain, -⟩ := hr
    simp only [hassets, hadj, hdate]
    refine ⟨⟨rfl, rfl, fun ht i => ?_, fun hne => absurd hne hnone⟩, fun _ => trivial, trivial, ?_⟩
    · show (match assets[i]? with
        | some a => if table = [] then v.cumAdjCache i else _
        | none => v.cumAdjCache i) = v.dividendAdjCache i
      cases assets[i]? with
      | none => exact hplain ht i
      | some a => exact (if_pos ht).trans (hplain ht i)
    · intro i a hi
      simp only [hi, true_and]
      intro ht
      rw [if_neg ht]

omit [Zero T] in
theorem Ready.applyRuntimeAdjustments (h : Ready u assets table) (a : Nat) (d : T) (prevClose : ℚ) :
    Ready (applyRuntimeAdjustments u a d prevClose) assets table := by
  unfold Assets.applyRuntimeAdjustments
  split
  · exact h
  · rename_i hno
    rw [h.finalized] at hno
    split
    · exact h
    · split
      · exact h
      · dsimp only
        split
        · exact ⟨h.listed, h.finalized, h.plain, h.unreported⟩
        · exact ⟨h.listed, h.finalized, fun ht => absurd (.inl ht) hno, h.unreported⟩

theorem Ready.run (h : Ready u assets table) (calls : List (Call T)) :
    Ready (calls.foldl perform u) assets table := by
  induction calls generalizing u with
  | nil => exact h
  | cons call calls ih =>
    apply ih
    cases call with
    | advance d => exact (h.advance d).1
    | applyRuntimeAdjustments a d prevClose => exact h.applyRuntimeAdjustments a d prevClose

theorem Ready.finalize (sorted : List (Adj T)) :
    Ready (finalize assets sorted) assets (accumulate 0 1 sorted) :=
  ⟨rfl, rfl, fun _ _ => rfl, fun _ => rfl⟩

def endsBetween (a : Asset T) (c : T) (d : Option T) : Bool :=
  decide (0 < a.endDate) && decide (c < a.endDate) && d.any fun d => decide (a.endDate ≤ d)

theorem reports_perm (h : Ready u assets table) (d : T) (ds : List T) (hds : (d :: ds).Pairwise (· ≤ ·)) :
    (reports u (d :: ds)).Perm
      ((assets.filter (endsBetween · (Assets.startOf u d) (d :: ds).getLast?)).map Asset.id) := by
  induction ds generalizing u d with
  | nil =>
    obtain ⟨-, -, hrep, -⟩ := h.advance d
    rw [reports, reports, List.append_nil, hrep]
    exact .of_eq rfl
  | cons e ds ih =>
    obtain ⟨hle, hds⟩ := List.pairwise_cons.mp hds
    obtain ⟨hready, hdate, hrep, -⟩ := h.advance d
    by_cases hnone : assets = []
    · subst hnone
      have hrest := ih hready e hds
      rw [reports, hrep]
      exact hrest
    have hstart : Assets.startOf (Assets.advance u d) e = d := by
      unfold Assets.startOf
      rw [hdate hnone, if_neg (not_lt.mpr (hle e (.head ds)))]
    have hlast : ∃ l, (e :: ds).getLast? = some l ∧ d ≤ l := by
      refine ⟨(e :: ds).getLast (by simp), List.getLast?_eq_some_getLast _, ?_⟩
      exact hle _ (List.getLast_mem _)
    have hrest := ih hready e hds
    rw [hstart] at hrest
    rw [reports, hrep, List.getLast?_cons_cons]
    obtain ⟨l, hl, hdl⟩ := hlast
    rw [hl] at hrest ⊢
    refine (hrest.append_left _).trans ?_
    rw [← List.map_append]
    refine List.Perm.map _ ?_
    -- the ends up to this date, and those after it
    refine List.Perm.trans (.of_eq ?_) (List.filter_append_perm (fun a => decide (a.endDate ≤ d)) _)
    rw [List.filter_filter, List.filter_filter]
    congr 1
    · refine List.filter_congr fun a _ => ?_
      simp only [isDelisted, endsBetween, Option.any_some]
      by_cases had : a.endDate ≤ d
      · simp [had, had.trans hdl]
      · simp [had]
    · refine List.filter_congr fun a _ => ?_
      simp only [endsBetween, Option.any_some]
      by_cases had : a.endDate ≤ d
      · simp [had]
      · have hda : d < a.endDate := lt_of_not_ge had
        by_cases h0 : 0 < a.endDate
        · have hs : Assets.startOf u d < a.endDate := by
            unfold Assets.startOf
            split
            · exact h0
            · exact (not_lt.mp ‹_›).trans_lt hda
          simp [had, hda, h0, hs]
        · simp [h0]

end Runs

end TurboScript.Fin.Assets
