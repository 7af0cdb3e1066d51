import Mathlib.Algebra.Group.Defs
import Mathlib.Algebra.Ring.Rat
import Mathlib.Logic.Function.Basic

/- The bar window (`bar_window.c`): a ring of a fixed capacity, and a copy of it in order of time
   that is made on demand.

   1. The window and its operations. The arrays of a kind are one array of bars.
   2. `Shows`: the ring holds the last bars of a list, and the copy does unless it is dirty. Every
      operation keeps it, with `Op.bars` saying what it makes of the list.
   3. `window_slides`. An adjustment factor of 0 counts as 1, and a rescale by 0 is left out. -/
namespace TurboScript.Fin.BarWindow

structure Bar (T D : Type) where
  date : T
  «open» : D
  high : D
  low : D
  close : D
  volume : D
  deriving DecidableEq, Repr

/-- `bar_window_t`: `ring` is `r_open` to `r_date`, `linear` is `open` to `date`. -/
structure Window (T D : Type) where
  capacity : Nat
  ring : Nat → Bar T D
  linear : Nat → Bar T D
  count : Nat := 0
  writePos : Nat := 0
  dirty : Bool := false

section Operations
variable {T D : Type} [Zero T] [MulOneClass D] [Zero D] [DecidableEq D]

def zeroBar : Bar T D := ⟨0, 0, 0, 0, 0, 0⟩

def Bar.scale (b : Bar T D) (s : D) : Bar T D :=
  { b with «open» := b.open * s, high := b.high * s, low := b.low * s, close := b.close * s }

/-- `bar_window_create`. -/
def create (capacity : Nat) : Option (Window T D) :=
  if capacity = 0 then none
  else some { capacity := capacity, ring := fun _ => zeroBar, linear := fun _ => zeroBar }

/-- `bar_window_clear`. -/
def clear (w : Window T D) : Window T D :=
  { w with ring := fun i => if i < w.capacity then zeroBar else w.ring i
           count := 0, writePos := 0, dirty := false }

def ringWrite (w : Window T D) (b : Bar T D) : Window T D :=
  { w with
    ring := Function.update w.ring (w.writePos % w.capacity) b
    writePos := (w.writePos + 1) % w.capacity
    count := if w.count < w.capacity then w.count + 1 else w.count
    dirty := true }

/-- `bar_window_push`. -/
def push (w : Window T D) (b : Bar T D) : Window T D := ringWrite w b

/-- `bar_window_push_adjusted`. -/
def pushAdjusted (w : Window T D) (b : Bar T D) (adjFactor : D) : Window T D :=
  ringWrite w (b.scale (if adjFactor = 0 then 1 else adjFactor))

/-- `bar_window_rescale_prices`. -/
def rescalePrices (w : Window T D) (scale : D) : Window T D :=
  if w.count = 0 ∨ scale = 1 ∨ scale = 0 then w
  else
    { w with
      ring := fun i => if i < w.capacity then (w.ring i).scale scale else w.ring i
      linear := fun i => if i < w.count then (w.linear i).scale scale else w.linear i
      dirty := true }

/-- `bar_window_linearize`. -/
def linearize (w : Window T D) : Window T D :=
  if w.dirty = false ∨ w.count = 0 then w
  else
    let start := if w.count < w.capacity then 0 else w.writePos
    { w with
      linear := fun i => if i < w.count then w.ring ((start + i) % w.capacity) else w.linear i
      dirty := false }

def last (w : Window T D) : Bar T D :=
  if w.count = 0 then zeroBar else w.ring ((w.writePos + w.capacity - 1) % w.capacity)

/-- `bar_window_last_close`. -/
def lastClose (w : Window T D) : D := (last w).close

/-- `bar_window_last_date`. -/
def lastDate (w : Window T D) : T := (last w).date

inductive Op (T D : Type)
  | push (b : Bar T D)
  | pushAdjusted (b : Bar T D) (adjFactor : D)
  | rescalePrices (scale : D)
  | clear
  | linearize

def perform (w : Window T D) : Op T D → Window T D
  | .push b => push w b
  | .pushAdjusted b adjFactor => pushAdjusted w b adjFactor
  | .rescalePrices scale => rescalePrices w scale
  | .clear => clear w
  | .linearize => linearize w

def Op.bars (bs : List (Bar T D)) : Op T D → List (Bar T D)
  | .push b => bs ++ [b]
  | .pushAdjusted b adjFactor => bs ++ [b.scale (if adjFactor = 0 then 1 else adjFactor)]
  | .rescalePrices scale => if scale = 0 then bs else bs.map (·.scale scale)
  | .clear => []
  | .linearize => bs

end Operations

structure Shows {T D : Type} (cap : Nat) (w : Window T D) (bs : List (Bar T D)) : Prop where
  capacity : w.capacity = cap
  pos : 0 < w.capacity
  count : w.count = min w.capacity bs.length
  writePos : w.writePos = bs.length % w.capacity
  ring : ∀ j < bs.length, bs.length ≤ j + w.capacity → bs[j]? = some (w.ring (j % w.capacity))
  linear : w.dirty = false → ∀ i < w.count, bs[bs.length - w.count + i]? = some (w.linear i)

set_option linter.unusedSectionVars false

namespace Shows
variable {T D : Type} [Zero T] [MulOneClass D] [Zero D] [DecidableEq D] {cap : Nat} {w : Window T D}
  {bs : List (Bar T D)}

theorem mod_ne {cap j n : Nat} (hj : j < n) (hn : n < j + cap) : j % cap ≠ n % cap := by
  intro h
  have hdvd : cap ∣ n - j := Nat.dvd_of_mod_eq_zero (Nat.sub_mod_eq_zero_of_mod_eq h.symm)
  have := Nat.le_of_dvd (by omega) hdvd
  omega

theorem scale_one (b : Bar T D) : b.scale 1 = b := by
  simp [Bar.scale]

theorem ringWrite (h : Shows cap w bs) (b : Bar T D) : Shows cap (ringWrite w b) (bs ++ [b]) := by
  have hlen : (bs ++ [b]).length = bs.length + 1 := by simp
  have hpos := h.pos
  refine ⟨h.capacity, hpos, ?_, ?_, ?_, fun hd => by cases hd⟩
  · show (if w.count < w.capacity then w.count + 1 else w.count) = min w.capacity _
    rw [hlen, h.count]
    split <;> omega
  · show (w.writePos + 1) % w.capacity = _ % w.capacity
    rw [hlen, h.writePos, Nat.mod_add_mod]
  · intro j hj hle
    show _ = some (Function.update w.ring (w.writePos % w.capacity) b (j % w.capacity))
    change _ ≤ j + w.capacity at hle
    rw [h.writePos, Nat.mod_mod]
    rw [hlen] at hj hle
    by_cases hnew : j = bs.length
    · subst hnew
      simp
    · have hj : j < bs.length := by omega
      rw [Function.update_of_ne (mod_ne hj (by omega)), List.getElem?_append_left hj]
      exact h.ring j hj (by omega)

theorem rescalePrices (h : Shows cap w bs) (s : D) :
    Shows cap (rescalePrices w s) (Op.bars bs (.rescalePrices s)) := by
  unfold BarWindow.rescalePrices
  show Shows cap _ (if s = 0 then bs else bs.map (·.scale s))
  by_cases hs : s = 0
  · simpa [hs] using h
  have hone : s = 1 → bs.map (·.scale s) = bs := by
    intro h1
    simp [h1, scale_one]
  have hzero : w.count = 0 → bs = [] := by
    intro h0
    have := h.count
    have := h.pos
    exact List.eq_nil_of_length_eq_zero (by omega)
  rw [if_neg hs]
  split
  · rename_i hno
    rcases hno with h0 | h1 | h0
    · rw [hzero h0, List.map_nil]
      exact hzero h0 ▸ h
    · rwa [hone h1]
    · exact absurd h0 hs
  · refine ⟨h.capacity, h.pos, by simpa using h.count, by simpa using h.writePos, ?_, fun hd => by cases hd⟩
    intro j hj hle
    rw [List.length_map] at hj hle
    simp [h.ring j hj hle, Nat.mod_lt j h.pos]

theorem linearize (h : Shows cap w bs) : Shows cap (linearize w) bs := by
  unfold BarWindow.linearize
  split
  · exact h
  · refine ⟨h.capacity, h.pos, h.count, h.writePos, h.ring, fun _ i hi => ?_⟩
    have hcount := h.count
    simp only at hi ⊢
    rw [if_pos hi, h.ring _ (by omega) (by omega)]
    congr 2
    by_cases hfull : w.count < w.capacity
    · rw [if_pos hfull]
      congr 1
      omega
    · -- the ring has wrapped: the slot to be written next is the oldest
      rw [if_neg hfull, h.writePos, Nat.mod_add_mod,
        show bs.length + i = bs.length - w.count + i + w.capacity by omega, Nat.add_mod_right]

theorem empty (hcap : w.capacity = cap) (hpos : 0 < w.capacity) (hcount : w.count = 0) (hwrite : w.writePos = 0) :
    Shows cap w [] := by
  refine ⟨hcap, hpos, by simpa using hcount, by simpa using hwrite, ?_, ?_⟩
  · intro j hj
    cases hj
  · intro _ i hi
    omega

theorem perform (h : Shows cap w bs) : ∀ op, Shows cap (perform w op) (Op.bars bs op)
  | .push b => h.ringWrite b
  | .pushAdjusted b _ => h.ringWrite (b.scale _)
  | .rescalePrices s => h.rescalePrices s
  | .linearize => h.linearize
  | .clear => empty h.capacity h.pos rfl rfl

theorem run (h : Shows cap w bs) (ops : List (Op T D)) :
    Shows cap (ops.foldl BarWindow.perform w) (ops.foldl Op.bars bs) := by
  induction ops generalizing w bs with
  | nil => exact h
  | cons op ops ih => exact ih (h.perform op)

theorem create (hw : create cap = some w) : Shows cap w [] := by
  unfold BarWindow.create at hw
  split at hw
  · cases hw
  · rename_i h0
    cases hw
    exact empty rfl (Nat.pos_of_ne_zero h0) rfl rfl

theorem last (h : Shows cap w bs) : last w = bs.getLast?.getD zeroBar := by
  have hcount := h.count
  have hpos := h.pos
  unfold BarWindow.last
  by_cases hb : bs.length = 0
  · rw [List.eq_nil_of_length_eq_zero hb, if_pos (by omega)]
    rfl
  · rw [if_neg (by omega), List.getLast?_eq_getElem?, h.ring _ (by omega) (by omega), h.writePos,
      Nat.add_sub_assoc (by omega), Nat.mod_add_mod,
      show bs.length + (w.capacity - 1) = bs.length - 1 + w.capacity by omega, Nat.add_mod_right]
    rfl

theorem copy (h : Shows cap w bs) (hd : w.dirty = false ∨ w.count = 0) :
    (List.range w.count).map w.linear = bs.drop (bs.length - cap) := by
  rw [← h.capacity]
  have hcount := h.count
  apply List.ext_getElem?
  intro i
  rw [List.getElem?_drop, List.getElem?_map]
  by_cases hi : i < w.count
  · rw [List.getElem?_range hi, Option.map_some, ← h.linear (hd.resolve_right (by omega)) i hi]
    congr 1
    omega
  · rw [List.getElem?_eq_none (by simpa using hi), List.getElem?_eq_none (by omega)]
    rfl

end Shows

section Windows
variable {T D : Type} [Zero T] [MulOneClass D] [Zero D] [DecidableEq D]

theorem linearize_clean (w : Window T D) : (linearize w).dirty = false ∨ (linearize w).count = 0 := by
  unfold linearize
  split
  · assumption
  · exact .inl rfl

/-- After `bar_window_linearize` the copy holds the last bars, at most as many as the capacity, in
order of time and with their prices adjusted and rescaled; the newest bar is also what the two
getters read, the copy being dirty or not. -/
theorem window_slides (capacity : Nat) (w : Window T D) (hw : create capacity = some w)
    (ops : List (Op T D)) :
    (linearize (ops.foldl perform w)).count = min capacity (ops.foldl Op.bars []).length ∧
    (List.range (linearize (ops.foldl perform w)).count).map (linearize (ops.foldl perform w)).linear =
      (ops.foldl Op.bars []).drop ((ops.foldl Op.bars []).length - capacity) ∧
    lastClose (ops.foldl perform w) = ((ops.foldl Op.bars []).getLast?.getD zeroBar).close ∧
    lastDate (ops.foldl perform w) = ((ops.foldl Op.bars []).getLast?.getD zeroBar).date := by
  have hrun := (Shows.create hw).run ops
  have hlin := hrun.linearize
  refine ⟨hlin.capacity ▸ hlin.count, hlin.copy (linearize_clean _), ?_, ?_⟩
  · rw [lastClose, hrun.last]
  · rw [lastDate, hrun.last]

end Windows

/-- A window of two after three bars. -/
theorem window_slides_two : (linearize ([Op.push ⟨1, 10, 10, 10, 10, 7⟩, .push ⟨2, 8, 9, 7, 8, 7⟩,
    .rescalePrices 2, .pushAdjusted ⟨3, 5, 5, 5, 5, 7⟩ 3].foldl perform
      (⟨2, fun _ => zeroBar, fun _ => zeroBar, 0, 0, false⟩ : Window ℚ ℚ))).count = 2 :=
  (window_slides 2 _ rfl _).1

/-- A factor of 0 leaves the prices as they are. -/
theorem zero_factor_is_one : ¬ ∀ (w : Window ℚ ℚ) (b : Bar ℚ ℚ) (adjFactor : ℚ),
    create 1 = some w → lastClose (pushAdjusted w b adjFactor) = b.close * adjFactor := by
  intro h
  have hzero := h _ ⟨1, 5, 5, 5, 5, 7⟩ 0 rfl
  revert hzero
  decide +kernel

end TurboScript.Fin.BarWindow
