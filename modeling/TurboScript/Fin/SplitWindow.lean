import Mathlib.Algebra.Order.BigOperators.GroupWithZero.List
import Mathlib.Tactic.Linarith
import TurboScript.Fin.BarWindow
import TurboScript.Fin.Universe

/- Bars that a strategy pushes into the window of their asset (`strategy_on_bar`).

   1. The part of `strategy_on_bar` before orders and script, run after `universe_advance` to the
      date of the bar, as the two drivers do.
   2. Without dividends a bar is pushed with the splits up to its date as its factor, and nothing
      that is in the window is rescaled: the universe is advanced before the factor is read.
   3. A price that is divided at each split is divided a second time by that factor
      (`split_window_iff`). -/
namespace TurboScript.Fin.Assets
open Function
open BarWindow (Bar Window Shows pushAdjusted rescalePrices linearize)

section Bars
variable {T : Type} [LinearOrder T] [OrderBot T] [Zero T]

/-- What `strategy_on_bar` reads of `strategy_ctx_t`. -/
structure Strategy (T : Type) where
  assets : Universe T
  windows : Nat → Window T ℚ
  warmupBars : Nat

/-- `strategy_on_bar` up to `bar_window_linearize`. -/
def strategyOnBar (c : Strategy T) (a : Nat) (bar : Bar T ℚ) (prevClose : ℚ) (isWarmup : Bool) :
    Strategy T :=
  match findAsset c.assets a with
  | none => c
  | some i =>
    let prevAdj := adjFactor c.assets a
    let u := applyRuntimeAdjustments c.assets a bar.date prevClose
    let adj := adjFactor u a
    let w := c.windows i
    let w := if 0 < w.count ∧ 0 < prevAdj ∧ 0 < adj ∧ prevAdj ≠ adj then
      rescalePrices w (adj / prevAdj) else w
    let w := pushAdjusted w bar adj
    let w := if isWarmup ∨ w.count < c.warmupBars then w else linearize w
    { c with assets := u, windows := update c.windows i w }

structure Arrival (T : Type) where
  assetId : Nat
  bar : Bar T ℚ
  prevClose : ℚ
  isWarmup : Bool

/-- A bar arrives on its date; advancing to one date again changes nothing that a bar reads. -/
def arrive (c : Strategy T) (b : Arrival T) : Strategy T :=
  strategyOnBar { c with assets := advance c.assets b.bar.date } b.assetId b.bar b.prevClose b.isWarmup

def barsOf (a : Nat) (bs : List (Arrival T)) : List (Bar T ℚ) :=
  (bs.filter fun b => b.assetId == a).map Arrival.bar

def IsFlat (b : Bar T ℚ) (p : ℚ) : Prop :=
  b.open = p ∧ b.high = p ∧ b.low = p ∧ b.close = p

/-- The window of asset `a` after bars without dividends. -/
structure Pushed (c : Strategy T) (assets : List (Asset T)) (sorted : List (Adj T)) (cap : Nat)
    (a i : Nat) (bs : List (Bar T ℚ)) : Prop where
  ready : Ready c.assets assets (accumulate 0 1 sorted)
  undivided : ∀ j, c.assets.dividendAdjCache j = 1
  shows : Shows cap (c.windows i) (bs.map fun b => b.scale (splitProduct sorted a b.date))

variable {assets : List (Asset T)} {sorted : List (Adj T)}

omit [OrderBot T] [Zero T] in
theorem dividendRatio_none {adj : List (Adj T)} (h : ∀ x ∈ adj, x.type ≠ .dividend) (a : Nat) (d : T)
    (prevClose acc : ℚ) : dividendRatio a d prevClose adj acc = acc := by
  unfold dividendRatio
  induction adj with
  | nil => rfl
  | cons x xs ih =>
    rw [List.foldl_cons, if_neg fun hx => h x (.head xs) hx.2.2]
    exact ih fun y hy => h y (.tail x hy)

omit [LinearOrder T] [OrderBot T] [Zero T] in
theorem mem_accumulate_type {x : Adj T} {aid : Nat} {cum : ℚ} (hx : x ∈ accumulate aid cum sorted) :
    ∃ y ∈ sorted, y.type = x.type := by
  have hp : x.plain ∈ sorted.map Adj.plain := by
    rw [← accumulate_plain aid cum]
    exact List.mem_map_of_mem hx
  obtain ⟨y, hy, he⟩ := List.mem_map.mp hp
  have : y.plain.type = x.plain.type := by rw [he]
  exact ⟨y, hy, this⟩

omit [OrderBot T] [Zero T] in
theorem splitProduct_pos (h : ∀ x ∈ sorted, x.type = .split → 0 < x.factor) (a : Nat) (d : T) :
    0 < splitProduct sorted a d := by
  apply List.prod_pos
  intro q hq
  obtain ⟨x, hx, rfl⟩ := List.mem_map.mp hq
  obtain ⟨hx, hsplit⟩ := List.mem_filter.mp hx
  have hpos := h x hx (by simpa using And.right (by simpa using hsplit))
  exact one_div_pos.mpr hpos

theorem factors_on {u : Universe T} (hu : Ready u assets (accumulate 0 1 sorted))
    (hsorted : sorted.Pairwise AdjLe) (hdiv : ∀ x ∈ sorted, x.type ≠ .dividend)
    (hone : ∀ j, u.dividendAdjCache j = 1) (d : T) (a : Nat) (prevClose : ℚ) {i : Nat}
    (hi : assets.findIdx? (·.id == a) = some i) :
    (∀ j, (advance u d).dividendAdjCache j = 1) ∧
    (∀ j, (applyRuntimeAdjustments (advance u d) a d prevClose).dividendAdjCache j = 1) ∧
    adjFactor (advance u d) a = splitProduct sorted a d ∧
    adjFactor (applyRuntimeAdjustments (advance u d) a d prevClose) a = splitProduct sorted a d := by
  obtain ⟨hready, -, -, hasset⟩ := hu.advance d
  have hone : ∀ j, (advance u d).dividendAdjCache j = 1 := by
    intro j
    unfold advance
    split
    · exact hone j
    · dsimp only
      split
      · rfl
      · exact hone j
  obtain ⟨hlt, hid, -⟩ := List.findIdx?_eq_some_iff_getElem.mp hi
  have hid : assets[i].id = a := by simpa using hid
  have hfind : findAsset (advance u d) a = some i := by rw [findAsset, hready.listed, hi]
  have hcum : (advance u d).cumAdjCache i = splitProduct sorted a d := by
    by_cases ht : accumulate 0 1 sorted = []
    · rw [hready.plain ht, hone, ← splitProduct_accumulate 0 1, ht]
      rfl
    · rw [(hasset i _ (List.getElem?_eq_getElem hlt)).2 ht, hone, hid, splitAdj_eq hsorted, mul_one]
  have hnone : ∀ n m, dividendRatio a d prevClose
      (((advance u d).adjustments.take n).drop m) ((advance u d).dividendAdjCache i) = 1 := by
    intro n m
    rw [dividendRatio_none, hone]
    intro x hx
    rw [hready.finalized] at hx
    obtain ⟨y, hy, he⟩ := mem_accumulate_type (List.mem_of_mem_take (List.mem_of_mem_drop hx))
    exact he ▸ hdiv y hy
  have hfactor : adjFactor (advance u d) a = splitProduct sorted a d := by
    rw [adjFactor, hfind]
    exact hcum
  refine ⟨hone, ?_, hfactor, ?_⟩
  · intro j
    unfold applyRuntimeAdjustments
    rw [hfind]
    dsimp only
    rw [hnone]
    split
    · exact hone j
    · split
      · exact hone j
      · split
        · exact hone j
        · by_cases hj : j = i
          · subst hj
            exact update_self ..
          · exact (update_of_ne hj ..).trans (hone j)
  · have happly : (applyRuntimeAdjustments (advance u d) a d prevClose).cumAdjCache i =
        splitProduct sorted a d := by
      unfold applyRuntimeAdjustments
      rw [hfind]
      dsimp only
      rw [hnone]
      split
      · exact hcum
      · split
        · exact hcum
        · split
          · exact hcum
          · show update _ i _ i = _
            rw [update_self, hready.finalized, splitAdj_eq hsorted, mul_one]
    have hsame : findAsset (applyRuntimeAdjustments (advance u d) a d prevClose) a = some i := by
      rw [findAsset, (hready.applyRuntimeAdjustments a d prevClose).listed, hi]
    rw [adjFactor, hsame]
    exact happly

theorem Pushed.arrive {c : Strategy T} {cap a i : Nat} {bs : List (Bar T ℚ)}
    (h : Pushed c assets sorted cap a i bs) (hsorted : sorted.Pairwise AdjLe)
    (hdiv : ∀ x ∈ sorted, x.type ≠ .dividend)
    (hpos : ∀ x ∈ sorted, x.type = .split → 0 < x.factor)
    (hi : assets.findIdx? (·.id == a) = some i) (b : Arrival T) :
    Pushed (arrive c b) assets sorted cap a i (bs ++ barsOf a [b]) := by
  have hready := (h.ready.advance b.bar.date).1
  unfold Assets.arrive strategyOnBar
  dsimp only
  rw [findAsset, hready.listed]
  cases hj : assets.findIdx? (·.id == b.assetId) with
  | none =>
    have hne : b.assetId ≠ a := by
      rintro rfl
      rw [hi] at hj
      cases hj
    have hbars : barsOf a [b] = [] := by simp [barsOf, hne]
    rw [hbars, List.append_nil]
    exact ⟨hready, (factors_on h.ready hsorted hdiv h.undivided b.bar.date a 0 hi).1, h.shows⟩
  | some j =>
    obtain ⟨-, hone, hprev, hadj⟩ :=
      factors_on h.ready hsorted hdiv h.undivided b.bar.date b.assetId b.prevClose hj
    dsimp only
    -- the factor is read after the universe is advanced, so it has not changed
    rw [hprev, hadj]
    simp only [ne_eq, not_true, and_false, if_false]
    refine ⟨hready.applyRuntimeAdjustments .., hone, ?_⟩
    by_cases hne : b.assetId = a
    · obtain rfl : j = i := by
        rw [hne, hi] at hj
        exact (Option.some.inj hj).symm
      have hbars : barsOf a [b] = [b.bar] := by simp [barsOf, hne]
      rw [hbars, List.map_append, hne]
      show Shows cap (update c.windows j _ j) _
      rw [update_self]
      have hpush := h.shows.ringWrite (b.bar.scale (splitProduct sorted a b.bar.date))
      have hfactor : pushAdjusted (c.windows j) b.bar (splitProduct sorted a b.bar.date) =
          BarWindow.ringWrite (c.windows j) (b.bar.scale (splitProduct sorted a b.bar.date)) := by
        rw [pushAdjusted, if_neg (splitProduct_pos hpos a _).ne']
      rw [hfactor]
      split
      · exact hpush
      · exact hpush.linearize
    · have hij : i ≠ j := by
        rintro rfl
        obtain ⟨hlt, h₁, -⟩ := List.findIdx?_eq_some_iff_getElem.mp hi
        obtain ⟨_, h₂, -⟩ := List.findIdx?_eq_some_iff_getElem.mp hj
        exact hne ((beq_iff_eq.mp h₂).symm.trans (beq_iff_eq.mp h₁))
      have hbars : barsOf a [b] = [] := by simp [barsOf, hne]
      rw [hbars, List.append_nil]
      show Shows cap (update c.windows j _ i) _
      rw [update_of_ne hij]
      exact h.shows

theorem Pushed.run {c : Strategy T} {cap a i : Nat} {bs : List (Bar T ℚ)}
    (h : Pushed c assets sorted cap a i bs) (hsorted : sorted.Pairwise AdjLe)
    (hdiv : ∀ x ∈ sorted, x.type ≠ .dividend)
    (hpos : ∀ x ∈ sorted, x.type = .split → 0 < x.factor)
    (hi : assets.findIdx? (·.id == a) = some i) (arrivals : List (Arrival T)) :
    Pushed (arrivals.foldl Assets.arrive c) assets sorted cap a i (bs ++ barsOf a arrivals) := by
  induction arrivals generalizing c bs with
  | nil => simpa [barsOf] using h
  | cons b arrivals ih =>
    have hrest := ih (h.arrive hsorted hdiv hpos hi b)
    have hcons : barsOf a (b :: arrivals) = barsOf a [b] ++ barsOf a arrivals := by
      unfold barsOf
      rw [← List.map_append, ← List.filter_append, List.singleton_append]
    rwa [List.append_assoc, ← hcons] at hrest

/-- **All prices of a window are equal exactly when its bars have the same splits up to their
dates**, or the price is 0. The raw prices are `p`, divided at each split. -/
theorem split_window_iff (assets : List (Asset T)) (adjs sorted : List (Adj T))
    (hperm : sorted.Perm adjs) (hsorted : sorted.Pairwise AdjLe)
    (hdiv : ∀ x ∈ adjs, x.type ≠ .dividend) (hpos : ∀ x ∈ adjs, x.type = .split → 0 < x.factor)
    (capacity warmupBars : Nat) (w : Window T ℚ) (hw : BarWindow.create capacity = some w)
    (a i : Nat) (hi : assets.findIdx? (·.id == a) = some i) (p : ℚ) (arrivals : List (Arrival T))
    (hraw : ∀ b ∈ barsOf a arrivals, IsFlat b (p * splitProduct adjs a b.date)) :
    let c := arrivals.foldl arrive ⟨finalize assets sorted, fun _ => w, warmupBars⟩
    let view := linearize (c.windows i)
    let bars := (barsOf a arrivals).drop ((barsOf a arrivals).length - capacity)
    (∃ q, ∀ j < view.count, IsFlat (view.linear j) q) ↔
      p = 0 ∨ ∀ b ∈ bars, ∀ b' ∈ bars, splitProduct adjs a b.date = splitProduct adjs a b'.date := by
  intro c view bars
  have hd : ∀ x ∈ sorted, x.type ≠ .dividend := fun x hx => hdiv x (hperm.mem_iff.mp hx)
  have hp : ∀ x ∈ sorted, x.type = .split → 0 < x.factor :=
    fun x hx => hpos x (hperm.mem_iff.mp hx)
  have hstart : Pushed ⟨finalize assets sorted, fun _ => w, warmupBars⟩ assets sorted capacity a i [] :=
    ⟨Ready.finalize sorted, fun _ => rfl, Shows.create hw⟩
  have hshows := (hstart.run hsorted hd hp hi arrivals).shows
  rw [List.nil_append] at hshows
  have hprod : ∀ d, splitProduct sorted a d = splitProduct adjs a d :=
    splitProduct_perm hperm a
  simp only [hprod] at hshows
  have hcopy := hshows.linearize.copy (BarWindow.linearize_clean _)
  rw [← List.map_drop] at hcopy
  rw [List.length_map] at hcopy
  have hflat : (∃ q, ∀ j < view.count, IsFlat (view.linear j) q) ↔
      ∃ q, ∀ b ∈ bars, p * splitProduct adjs a b.date * splitProduct adjs a b.date = q := by
    have hmem : ∀ q, (∀ j < view.count, IsFlat (view.linear j) q) ↔
        ∀ b ∈ (List.range view.count).map view.linear, IsFlat b q := by simp
    refine exists_congr fun q => (hmem q).trans ?_
    rw [hcopy, List.forall_mem_map]
    refine forall₂_congr fun b hb => ?_
    obtain ⟨ho, hh, hl, hc⟩ := hraw b (List.mem_of_mem_drop hb)
    simp [IsFlat, Bar.scale, ho, hh, hl, hc]
  rw [hflat]
  constructor
  · rintro ⟨q, hq⟩
    by_cases hp0 : p = 0
    · exact .inl hp0
    · refine .inr fun b hb b' hb' => ?_
      have heq := (hq b hb).trans (hq b' hb').symm
      rw [mul_assoc, mul_assoc, mul_right_inj' hp0] at heq
      rw [← hprod, ← hprod] at heq ⊢
      exact (mul_self_inj (splitProduct_pos hp a _).le (splitProduct_pos hp a _).le).mp heq
  · intro h
    rcases h with h | h
    · exact ⟨0, fun b _ => by simp [h]⟩
    · cases hbars : bars with
      | nil => exact ⟨0, fun b hb => by cases hb⟩
      | cons b bs =>
        refine ⟨p * splitProduct adjs a b.date * splitProduct adjs a b.date, fun b' hb' => ?_⟩
        rw [h b' (hbars ▸ hb') b (hbars ▸ .head bs)]

end Bars

/-- Asset 7 with a 2:1 split on day 2, and a window of two bars. -/
def splitOnDay2 (arrivals : List (Arrival Nat)) : Window Nat ℚ :=
  linearize ((arrivals.foldl arrive ⟨finalize [⟨7, 1, 0⟩] [⟨7, 2, .split, 2, 0⟩],
    fun _ => ⟨2, fun _ => BarWindow.zeroBar, fun _ => BarWindow.zeroBar, 0, 0, false⟩, 0⟩).windows 0)

theorem split_window_iff_after :
    ∃ q, ∀ j < (splitOnDay2 [⟨7, ⟨2, 4, 4, 4, 4, 0⟩, 0, false⟩, ⟨7, ⟨3, 4, 4, 4, 4, 0⟩, 4, false⟩]).count,
      IsFlat ((splitOnDay2 [⟨7, ⟨2, 4, 4, 4, 4, 0⟩, 0, false⟩,
        ⟨7, ⟨3, 4, 4, 4, 4, 0⟩, 4, false⟩]).linear j) q :=
  (split_window_iff [⟨7, 1, 0⟩] [⟨7, 2, .split, 2, 0⟩] _ (.refl _) (by simp) (by simp) (by simp) 2 0
    _ rfl 7 0 rfl 8 _ (by
      simp only [IsFlat]
      decide +kernel)).mpr (.inr (by decide +kernel))

/-- The raw price is 8 before the split and 4 on its day; the window then has 8 and 2. -/
theorem split_breaks_window : ¬ ∀ (arrivals : List (Arrival Nat)) (p : ℚ),
    (∀ b ∈ barsOf 7 arrivals, IsFlat b (p * splitProduct [⟨7, 2, .split, 2, 0⟩] 7 b.date)) →
    ∃ q, ∀ j < (splitOnDay2 arrivals).count, IsFlat ((splitOnDay2 arrivals).linear j) q := by
  intro h
  obtain ⟨q, hq⟩ := h [⟨7, ⟨1, 8, 8, 8, 8, 0⟩, 0, false⟩, ⟨7, ⟨2, 4, 4, 4, 4, 0⟩, 8, false⟩] 8 (by
    simp only [IsFlat]
    decide +kernel)
  have h₀ := (hq 0 (by decide +kernel)).1
  have h₁ := (hq 1 (by decide +kernel)).1
  rw [← h₁] at h₀
  revert h₀
  decide +kernel

end TurboScript.Fin.Assets
