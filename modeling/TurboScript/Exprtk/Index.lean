import Mathlib.Tactic.NormNum
import TurboScript.Exprtk.Charge

/- Indexing and slicing in `exprtk_eval`.

   1. `elements`, `position`: the elements of the five kinds of array, and the integer an index
      denotes, a NUMBER cut off toward zero.
   2. Both bounds tests work on values cast to `int`. Whatever the cast made of a length, what
      passes the test lies inside the array (`inBounds_inside`, `sliceBounds_inside`).
   3. `index_slice_exact`: for an index that is an `int` and an array shorter than 2^31, `a[i]` is
      the element at `i` or a throw, and `a[i:j]` of a vector the elements between the clamped
      bounds or a throw. The other kinds cannot be sliced. -/
namespace TurboScript.Exprtk
open Lib

def InInt32 (i : Int) : Prop := -2147483648 ≤ i ∧ i < 2147483648

instance (i : Int) : Decidable (InInt32 i) := inferInstanceAs (Decidable (_ ∧ _))

/-! The bounds tests. -/

theorem lengthInt_le (n : Nat) : lengthInt n ≤ n := by
  unfold lengthInt Int.bmod
  norm_num
  omega

theorem lengthInt_of_lt {n : Nat} (h : n < 2147483648) : lengthInt n = n := by
  unfold lengthInt Int.bmod
  norm_num
  omega

theorem inBounds_inside {i : Int} {n : Nat} (h : inBounds i n = true) : 0 ≤ i ∧ i < n := by
  have hle := lengthInt_le n
  simp only [inBounds, Bool.and_eq_true, decide_eq_true_eq] at h
  omega

theorem inBounds_iff {i : Int} {n : Nat} (hn : n < 2147483648) : inBounds i n = true ↔ 0 ≤ i ∧ i < n := by
  simp [inBounds, lengthInt_of_lt hn]

theorem sliceBounds_inside {i j : Int} {n : Nat} (_ : (sliceBounds i j n).1 ≤ (sliceBounds i j n).2) :
    0 ≤ (sliceBounds i j n).1 ∧ (sliceBounds i j n).2 ≤ n := by
  have hle := lengthInt_le n
  simp only [sliceBounds]
  omega

section Values
variable {D : Type} [Double D]

def elements : Value D → Option (List (Value D))
  | .vector xs => some (xs.map .number)
  | .list items | .set items | .typedArray _ items => some items
  | .bytes b => some (b.map fun c => .integer c.toNat)
  | _ => none

def position : Value D → Option Int
  | .integer i => some i
  | .number x => some (Double.toInt x)
  | _ => none

theorem indexOf?_of_position {v : Value D} {i : Int} (hv : position v = some i)
    (hi : InInt32 i) : indexOf? v = some i := by
  have hcast : i.bmod (2 ^ 32) = i := by
    unfold InInt32 at hi
    unfold Int.bmod
    norm_num
    omega
  cases v with
  | integer j =>
    cases hv
    exact congrArg some hcast
  | number x => exact hv
  | _ => exact absurd hv (by simp [position])

omit [Double D] in
theorem elementAt_some (what : String) {items : List (Value D)} {i : Int} {v : Value D}
    (hin : inBounds i items.length = true) (hv : items[i.toNat]? = some v) :
    elementAt what items i = .ok v := by
  unfold elementAt
  rw [if_pos hin, hv]

omit [Double D] in
theorem elementAt_none (what : String) {items : List (Value D)} {i : Int}
    (hi : i < 0 ∨ (items.length : Int) ≤ i) : ∃ msg, elementAt what items i = .error msg := by
  have hin : inBounds i items.length ≠ true := fun h => by
    have := inBounds_inside h
    omega
  unfold elementAt
  rw [if_neg hin]
  exact ⟨_, rfl⟩

theorem indexValue_elements {arr idx : Value D} {items : List (Value D)} {i : Int}
    (harr : elements arr = some items) (hidx : indexOf? idx = some i) :
    ∃ what, indexValue arr idx = elementAt what items i := by
  unfold indexValue
  rw [hidx]
  cases arr with
  | vector | list | set | typedArray | bytes => cases harr; exact ⟨_, rfl⟩
  | _ => exact absurd harr (by simp [elements])

theorem getElem?_drop_take {α : Type} (xs : List α) (lo hi k : Nat) :
    ((xs.drop lo).take (hi - lo))[k]? = if lo + k < hi then xs[lo + k]? else none := by
  rw [List.getElem?_take, List.getElem?_drop]
  by_cases h : lo + k < hi
  · rw [if_pos h, if_pos (by omega)]
  · rw [if_neg h, if_neg (by omega)]

end Values

section Evaluation
variable {D Θ : Type} [Double D]

/-- A node is entered: `e` is not aborted, and the step is granted. -/
def Enters (h : Host D Θ) (e : EnvId) (s t : State D Θ) : Prop :=
  (s.envs e).aborted = false ∧ evalStep h e s = .ok true t

def indexOperands (R : Evaluators D Θ) (array index : Node D) (e : EnvId) :
    Eval D Θ (Value D × Value D) := do
  let arr ← unchecked (R.eval array e)
  let idx ← unchecked (R.eval index e)
  return (arr, idx)

def sliceOperands (R : Evaluators D Θ) (array : Node D) (start stop : Option (Node D)) (e : EnvId) :
    Eval D Θ (Value D × Value D × Value D) := do
  let arr ← unchecked (R.eval array e)
  let a ← unchecked (evalOpt R start e)
  let b ← unchecked (evalOpt R stop e)
  return (arr, a, b)

abbrev Outcome (D Θ : Type) := EStateM.Result Unit (State D Θ) (Value D)

def Throws (e : EnvId) (t : State D Θ) (r : Outcome D Θ) : Prop := ∃ msg, r = throwErr e msg t

/-- The element at `i`, or a throw. -/
structure Indexed (items : List (Value D)) (i : Int) (e : EnvId) (t : State D Θ)
    (r : Outcome D Θ) : Prop where
  element (k : Nat) (v : Value D) : i = k → items[k]? = some v → r = .ok v t
  outside : i < 0 ∨ (items.length : Int) ≤ i → Throws e t r

/-- The elements from `max i 0` on and before `min j n`, or a throw. -/
structure Sliced (xs : List D) (i j : Int) (e : EnvId) (t : State D Θ)
    (r : Outcome D Θ) : Prop where
  ordered : max i 0 ≤ min j xs.length → ∃ ys, r = .ok (.vector ys) t ∧
    ∀ k : Nat, ys[k]? = if max i 0 + k < min j xs.length then xs[(max i 0).toNat + k]? else none
  crossed : min j xs.length < max i 0 → Throws e t r

def outcome (e : EnvId) (x : Except String (Value D)) : Eval D Θ (Value D) :=
  match x with
  | .ok v => return v
  | .error msg => throwErr e msg

variable [Formats] {h : Host D Θ} {n : Nat} {e : EnvId} {s s' t : State D Θ}

theorem eval_enters (hs : Enters h e s s') (node : Node D) :
    (evaluators h (n + 1)).eval node e s = evalNode h (evaluators h n) n node e s' := by
  show exprtkEval h (evaluators h n) n node e s = _
  unfold exprtkEval
  rw [bind_apply, getEnv_apply]
  simp only [hs.1, Bool.false_eq_true, if_false, bind_apply, hs.2, if_true]

theorem eval_index (hs : Enters h e s s') {array index : Node D} {arr idx : Value D}
    (hops : indexOperands (evaluators h n) array index e s' = .ok (arr, idx) t) :
    (evaluators h (n + 1)).eval (.index array index) e s = outcome e (indexValue arr idx) t := by
  have hbind : evalIndex (evaluators h n) array index e =
      indexOperands (evaluators h n) array index e >>= fun p =>
        outcome e (indexValue p.1 p.2) := by
    simp only [indexOperands, bind_assoc, pure_bind]
    rfl
  rw [eval_enters hs]
  show evalIndex (evaluators h n) array index e s' = _
  rw [hbind, bind_apply, hops]

theorem eval_slice (hs : Enters h e s s') {array : Node D} {start stop : Option (Node D)}
    {arr a b : Value D}
    (hops : sliceOperands (evaluators h n) array start stop e s' = .ok (arr, a, b) t) :
    (evaluators h (n + 1)).eval (.slice array start stop) e s = outcome e (sliceValue arr a b) t := by
  have hbind : evalSlice (evaluators h n) array start stop e =
      sliceOperands (evaluators h n) array start stop e >>= fun p =>
        outcome e (sliceValue p.1 p.2.1 p.2.2) := by
    simp only [sliceOperands, bind_assoc, pure_bind]
    rfl
  rw [eval_enters hs]
  show evalSlice (evaluators h n) array start stop e s' = _
  rw [hbind, bind_apply, hops]

omit [Formats] in
theorem indexValue_indexed {arr idx : Value D} {items : List (Value D)} {i : Int}
    (harr : elements arr = some items) (hlen : items.length < 2147483648)
    (hidx : position idx = some i) (hi : InInt32 i) :
    Indexed items i e t (outcome e (indexValue arr idx) t) := by
  obtain ⟨what, hvalue⟩ := indexValue_elements harr (indexOf?_of_position hidx hi)
  rw [hvalue]
  constructor
  · intro k v hk hv
    have hlt : k < items.length := (List.getElem?_eq_some_iff.mp hv).1
    have hin : inBounds i items.length = true := (inBounds_iff hlen).mpr (by omega)
    have hat : items[i.toNat]? = some v := by rw [hk, Int.toNat_natCast, hv]
    rw [elementAt_some what hin hat]
    rfl
  · intro hout
    obtain ⟨msg, hmsg⟩ := elementAt_none what hout
    rw [hmsg]
    exact ⟨msg, rfl⟩

omit [Formats] in
theorem sliceValue_sliced {xs : List D} {a b : Value D} {i j : Int} (hlen : xs.length < 2147483648)
    (ha : position a = some i) (hi : InInt32 i) (hb : position b = some j) (hj : InInt32 j) :
    Sliced xs i j e t (outcome e (sliceValue (.vector xs) a b) t) := by
  have hbounds : sliceBounds i j xs.length = (max i 0, min j xs.length) := by
    rw [sliceBounds, lengthInt_of_lt hlen]
  simp only [sliceValue, indexOf?_of_position ha hi, indexOf?_of_position hb hj, hbounds]
  constructor
  · intro hle
    rw [if_neg (by omega)]
    refine ⟨_, rfl, fun k => ?_⟩
    have hsub : (min j (xs.length : Int) - max i 0).toNat =
        (min j (xs.length : Int)).toNat - (max i 0).toNat := by omega
    rw [hsub, getElem?_drop_take]
    by_cases hk : max i 0 + k < min j (xs.length : Int)
    · rw [if_pos hk, if_pos (by omega)]
    · rw [if_neg hk, if_neg (by omega)]
  · intro hlt
    rw [if_pos hlt]
    exact ⟨_, rfl⟩

omit [Formats] in
theorem sliceValue_other {arr : Value D} (harr : ∀ xs, arr ≠ .vector xs) (a b : Value D) :
    Throws e t (outcome e (sliceValue arr a b) t) := by
  unfold sliceValue
  split
  · exact absurd rfl (harr _)
  · exact ⟨_, rfl⟩

/-- Indexing and slicing, for indices that are an `int` and arrays shorter than 2^31; no index
    and no length makes them read outside the array. -/
theorem index_slice_exact (hs : Enters h e s s') :
    (∀ (array index : Node D) (arr idx : Value D) (items : List (Value D)) (i : Int),
      indexOperands (evaluators h n) array index e s' = .ok (arr, idx) t →
      elements arr = some items → items.length < 2147483648 → position idx = some i → InInt32 i →
      Indexed items i e t ((evaluators h (n + 1)).eval (.index array index) e s)) ∧
    (∀ (array : Node D) (start stop : Option (Node D)) (xs : List D) (a b : Value D) (i j : Int),
      sliceOperands (evaluators h n) array start stop e s' = .ok (.vector xs, a, b) t →
      xs.length < 2147483648 → position a = some i → InInt32 i → position b = some j → InInt32 j →
      Sliced xs i j e t ((evaluators h (n + 1)).eval (.slice array start stop) e s)) ∧
    (∀ (array : Node D) (start stop : Option (Node D)) (arr a b : Value D),
      sliceOperands (evaluators h n) array start stop e s' = .ok (arr, a, b) t →
      (∀ xs, arr ≠ .vector xs) →
      Throws e t ((evaluators h (n + 1)).eval (.slice array start stop) e s)) ∧
    (∀ (i : Int) (length : Nat), inBounds i length = true → 0 ≤ i ∧ i < length) ∧
    ∀ (i j : Int) (length : Nat), (sliceBounds i j length).1 ≤ (sliceBounds i j length).2 →
      0 ≤ (sliceBounds i j length).1 ∧ (sliceBounds i j length).2 ≤ length := by
  refine ⟨?_, ?_, ?_, fun i length => inBounds_inside, fun i j length => sliceBounds_inside⟩
  · intro array index arr idx items i hops harr hlen hidx hi
    rw [eval_index hs hops]
    exact indexValue_indexed harr hlen hidx hi
  · intro array start stop xs a b i j hops hlen ha hi hb hj
    rw [eval_slice hs hops]
    exact sliceValue_sliced hlen ha hi hb hj
  · intro array start stop arr a b hops harr
    rw [eval_slice hs hops]
    exact sliceValue_other harr a b

end Evaluation

section Samples

def arrays : State ℚ Unit :=
  State.fresh [("v", .vector [10, 20, 30]), ("l", .list [.null, .bool true])]

def arraysEntered : State ℚ Unit := reached (evalStep Host.bare 0) arrays

/-- `v[1]` and `v[1:9]`. -/
theorem vector_indexed : Indexed [.number 10, .number 20, .number 30] 1 0
        (reached (indexOperands (evaluators Host.bare 1) (.varRef "v") (.integer 1) 0)
          arraysEntered)
        ((evaluators Host.bare 2).eval (.index (.varRef "v") (.integer 1)) 0 arrays) ∧
      Sliced [10, 20, 30] 1 9 0
        (reached (sliceOperands (evaluators Host.bare 1) (.varRef "v") (some (.integer 1))
          (some (.integer 9)) 0) arraysEntered)
        ((evaluators Host.bare 2).eval
          (.slice (.varRef "v") (some (.integer 1)) (some (.integer 9))) 0 arrays) := by
  have hs : Enters Host.bare 0 arrays arraysEntered := ⟨rfl, rfl⟩
  constructor
  · exact (index_slice_exact hs).1 _ _ (.vector [10, 20, 30]) (.integer 1) _ 1 rfl rfl
      (by decide) rfl (by decide)
  · exact (index_slice_exact hs).2.1 _ _ _ [10, 20, 30] (.integer 1) (.integer 9) 1 9 rfl
      (by decide) rfl (by decide) rfl (by decide)

def oneAndHalf : ℚ := ⟨3, 2, by decide, by decide⟩

/-- A NUMBER between two positions is cut off, and a list cannot be sliced. -/
theorem fraction_indexes_and_list_not_sliced :
    (∃ t, (evaluators Host.bare 2).eval (.index (.varRef "v") (.number oneAndHalf)) 0 arrays =
      .ok (.number 20) t) ∧
    (∃ t, (evaluators Host.bare 2).eval
        (.slice (.varRef "l") (some (.integer 0)) (some (.integer 1))) 0 arrays = .ok zero t ∧
      (t.envs 0).flow = .throw) :=
  ⟨⟨_, rfl⟩, _, rfl, rfl⟩

end Samples

end TurboScript.Exprtk
