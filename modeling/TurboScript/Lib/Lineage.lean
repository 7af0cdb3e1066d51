import Mathlib.Order.Bounds.Basic
import Mathlib.Data.Nat.Find

/- Search in an acyclic graph whose nodes have at most one edge along a spine and any number
   of edges to the side.

   `found` asks whether a node in the set `hit` is reached; `depth` walks up the spine and
   looks, at every node, through all side edges first: it stops at the first node of the
   spine whose side edges lead anywhere in `hit`, and counts the edges. A path is *eager*
   when it takes a side edge wherever one leads to `hit`. The depth is the least length of
   an eager path (`depth_isLeast`), so it is the distance exactly when some shortest path is
   eager (`depth_isLeast_path_iff`). -/
namespace TurboScript.Lib

structure Lineage (C : Type) where
  next : C → Option C
  sides : C → List C
  /-- The edges lead down in rank, so there is no cycle. -/
  rank : C → Nat
  next_lt : ∀ c, ∀ p ∈ next c, rank p < rank c
  sides_lt : ∀ c, ∀ i ∈ sides c, rank i < rank c

namespace Lineage

/-- The smaller of the best depth so far and one more result. -/
def smaller : Option Nat → Option Nat → Option Nat
  | best, none => best
  | none, some d => some d
  | some b, some d => if d < b then some d else some b

def smallest (ds : List (Option Nat)) : Option Nat := ds.foldl smaller none

theorem smaller_isLeast {best d : Option Nat} {m : Nat} :
    smaller best d = some m ↔ IsLeast {n | best = some n ∨ d = some n} m := by
  cases best with
  | none => cases d with
    | none => simp [smaller, IsLeast]
    | some d =>
      simp only [smaller, Option.some.injEq, reduceCtorEq, false_or]
      constructor
      · rintro rfl
        exact ⟨rfl, fun n hn => le_of_eq hn⟩
      · exact fun h => h.1
  | some b => cases d with
    | none =>
      simp only [smaller, Option.some.injEq, reduceCtorEq, or_false]
      constructor
      · rintro rfl
        exact ⟨rfl, fun n hn => le_of_eq hn⟩
      · exact fun h => h.1
    | some d =>
      simp only [smaller, Option.some.injEq]
      constructor
      · intro h
        split at h
        · cases h
          refine ⟨.inr rfl, ?_⟩
          rintro n (rfl | rfl) <;> omega
        · cases h
          refine ⟨.inl rfl, ?_⟩
          rintro n (rfl | rfl) <;> omega
      · rintro ⟨hm, hleast⟩
        have hb : m ≤ b := hleast (.inl rfl)
        have hd : m ≤ d := hleast (.inr rfl)
        have hm : b = m ∨ d = m := hm
        split
        · exact congrArg some (by omega)
        · exact congrArg some (by omega)

theorem smaller_eq_none {best d : Option Nat} : smaller best d = none ↔ best = none ∧ d = none := by
  cases best <;> cases d <;> simp only [smaller] <;> try simp
  split <;> simp

theorem foldl_smaller_eq_none {ds : List (Option Nat)} {best : Option Nat} :
    ds.foldl smaller best = none ↔ best = none ∧ ∀ d ∈ ds, d = none := by
  induction ds generalizing best with
  | nil => simp
  | cons d ds ih => rw [List.foldl_cons, ih, smaller_eq_none, List.forall_mem_cons, and_assoc]

theorem smallest_eq_none {ds : List (Option Nat)} : smallest ds = none ↔ ∀ d ∈ ds, d = none := by
  simp [smallest, foldl_smaller_eq_none]

theorem foldl_smaller_isLeast {ds : List (Option Nat)} {best : Option Nat} {m : Nat}
    (h : ds.foldl smaller best = some m) :
    IsLeast {n | best = some n ∨ some n ∈ ds} m := by
  induction ds generalizing best with
  | nil =>
    refine ⟨.inl h, ?_⟩
    rintro n (hn | hn)
    · rw [List.foldl_nil, hn] at h
      exact le_of_eq (Option.some.inj h).symm
    · cases hn
  | cons d ds ih =>
    rw [List.foldl_cons] at h
    obtain ⟨hm, hleast⟩ := ih h
    constructor
    · rcases hm with hm | hm
      · rcases (smaller_isLeast.1 hm).1 with hb | hd
        · exact .inl hb
        · exact .inr (hd ▸ List.mem_cons_self)
      · exact .inr (List.mem_cons_of_mem d hm)
    · intro n hn
      have step : ∀ k, best = some k ∨ d = some k → m ≤ k := by
        intro k hk
        -- the smaller of the two is a lower bound, and it is among what `ih` speaks of
        cases hs : smaller best d with
        | none =>
          obtain ⟨rfl, rfl⟩ := smaller_eq_none.1 hs
          simp at hk
        | some s => exact (hleast (.inl hs)).trans ((smaller_isLeast.1 hs).2 hk)
      rcases hn with hn | hn
      · exact step n (.inl hn)
      · rcases List.mem_cons.1 hn with hd | hn
        · exact step n (.inr hd.symm)
        · exact hleast (.inr hn)

theorem smallest_isLeast {ds : List (Option Nat)} {m : Nat} (h : smallest ds = some m) :
    IsLeast {n | some n ∈ ds} m := by
  simpa using foldl_smaller_isLeast h

variable {C : Type} (L : Lineage C) (hit : C → Bool)

/-- `found`, with a bound on the number of edges. -/
def foundFrom : Nat → C → Bool
  | 0, _ => false
  | n + 1, c =>
    hit c || (L.sides c).any (foundFrom n) ||
      match L.next c with
      | none => false
      | some p => foundFrom n p

/-- Whether a node in `hit` is reached from `c`. -/
def found (c : C) : Bool := L.foundFrom hit (L.rank c + 1) c

/-- `depth`, with a bound on the number of edges; `d` is how far up the spine the walk is. -/
def depthFrom : Nat → Nat → C → Option Nat
  | 0, _, _ => none
  | n + 1, d, c =>
    if hit c then some d
    else
      match smallest ((L.sides c).map (depthFrom n 0)) with
      | some best => some (d + 1 + best)
      | none =>
        match L.next c with
        | none => none
        | some p => depthFrom n (d + 1) p

/-- How many edges the walk from `c` takes. -/
def depth (c : C) : Option Nat := L.depthFrom hit (L.rank c + 1) 0 c

/-- There is a path of `n` edges from `c` to a node in `hit`. -/
inductive Path : C → Nat → Prop
  | here {c} (h : hit c = true) : Path c 0
  | side {c i n} (hi : i ∈ L.sides c) (rest : Path i n) : Path c (n + 1)
  | next {c p n} (hp : p ∈ L.next c) (rest : Path p n) : Path c (n + 1)

/-- There is one that goes to the side wherever a side edge leads to `hit`. -/
inductive Eager : C → Nat → Prop
  | here {c} (h : hit c = true) : Eager c 0
  | side {c i n} (hi : i ∈ L.sides c) (rest : Eager i n) : Eager c (n + 1)
  | next {c p n} (hnone : ∀ i ∈ L.sides c, ∀ m, ¬L.Path hit i m) (hp : p ∈ L.next c)
      (rest : Eager p n) : Eager c (n + 1)

variable {L hit}

theorem Eager.path {c : C} {n : Nat} (h : L.Eager hit c n) : L.Path hit c n := by
  induction h with
  | here h => exact .here h
  | side hi _ ih => exact .side hi ih
  | next _ hp _ ih => exact .next hp ih

theorem foundFrom_iff {n : Nat} {c : C} (hn : L.rank c < n) :
    L.foundFrom hit n c = true ↔ ∃ m, L.Path hit c m := by
  induction n generalizing c with
  | zero => exact absurd hn (Nat.not_lt_zero _)
  | succ n ih =>
    have hside : ∀ i ∈ L.sides c, L.rank i < n :=
      fun i hi => lt_of_lt_of_le (L.sides_lt c i hi) (Nat.le_of_lt_succ hn)
    have hnext : ∀ p ∈ L.next c, L.rank p < n :=
      fun p hp => lt_of_lt_of_le (L.next_lt c p hp) (Nat.le_of_lt_succ hn)
    simp only [foundFrom, Bool.or_eq_true, List.any_eq_true]
    constructor
    · rintro ((h | ⟨i, hi, h⟩) | h)
      · exact ⟨0, .here h⟩
      · obtain ⟨m, hm⟩ := (ih (hside i hi)).1 h
        exact ⟨m + 1, .side hi hm⟩
      · cases hp : L.next c with
        | none =>
          rw [hp] at h
          cases h
        | some p =>
          rw [hp] at h
          obtain ⟨m, hm⟩ := (ih (hnext p hp)).1 h
          exact ⟨m + 1, .next hp hm⟩
    · rintro ⟨m, hm⟩
      cases hm with
      | here h => exact .inl (.inl h)
      | side hi rest => exact .inl (.inr ⟨_, hi, (ih (hside _ hi)).2 ⟨_, rest⟩⟩)
      | next hp rest =>
        right
        rw [Option.mem_def.1 hp]
        exact (ih (hnext _ hp)).2 ⟨_, rest⟩

/-- **`found` is reachability.** -/
theorem found_iff {c : C} : L.found hit c = true ↔ ∃ n, L.Path hit c n :=
  foundFrom_iff (Nat.lt_succ_self _)

theorem depthFrom_add (n d : Nat) (c : C) :
    L.depthFrom hit n d c = (L.depthFrom hit n 0 c).map (d + ·) := by
  induction n generalizing d c with
  | zero => rfl
  | succ n ih =>
    simp only [depthFrom]
    split
    · rfl
    · split
      · simp only [Option.map_some, Nat.zero_add, Nat.add_assoc]
      · split
        · rfl
        · rename_i p _
          rw [ih (d + 1), ih (0 + 1), Option.map_map]
          congr 1
          funext k
          simp only [Function.comp_apply]
          omega

theorem depthFrom_spec {n : Nat} {c : C} (hn : L.rank c < n) :
    (L.depthFrom hit n 0 c = none → ∀ m, ¬L.Path hit c m) ∧
      ∀ d, L.depthFrom hit n 0 c = some d → IsLeast {m | L.Eager hit c m} d := by
  induction n generalizing c with
  | zero => exact absurd hn (Nat.not_lt_zero _)
  | succ n ih =>
    have hside : ∀ i ∈ L.sides c, L.rank i < n :=
      fun i hi => lt_of_lt_of_le (L.sides_lt c i hi) (Nat.le_of_lt_succ hn)
    have hnext : ∀ p ∈ L.next c, L.rank p < n :=
      fun p hp => lt_of_lt_of_le (L.next_lt c p hp) (Nat.le_of_lt_succ hn)
    simp only [depthFrom]
    split
    · rename_i h
      refine ⟨by simp, fun d hd => ?_⟩
      cases hd
      exact ⟨.here h, fun _ _ => Nat.zero_le _⟩
    · rename_i h
      split
      · -- a side edge leads to `hit`
        rename_i best hbest
        obtain ⟨hmem, hleast⟩ := smallest_isLeast hbest
        obtain ⟨i, hi, hdi⟩ := List.mem_map.1 hmem
        have hbestEager := ((ih (hside i hi)).2 best hdi).1
        refine ⟨by simp, fun d hd => ?_⟩
        obtain rfl : 0 + 1 + best = d := Option.some.inj hd
        rw [show 0 + 1 + best = best + 1 by omega]
        refine ⟨.side hi hbestEager, ?_⟩
        intro m hm
        cases hm with
        | here h' => exact absurd h' h
        | side hi' rest =>
          rename_i i' m'
          cases hd' : L.depthFrom hit n 0 i' with
          | none => exact absurd rest.path ((ih (hside i' hi')).1 hd' m')
          | some d' =>
            have h1 : best ≤ d' := hleast (List.mem_map.2 ⟨i', hi', hd'⟩)
            have h2 : d' ≤ m' := ((ih (hside i' hi')).2 d' hd').2 rest
            omega
        | next hnone _ _ => exact absurd hbestEager.path (hnone i hi best)
      · rename_i hall
        have hnone : ∀ i ∈ L.sides c, ∀ m, ¬L.Path hit i m := by
          intro i hi
          exact (ih (hside i hi)).1 (smallest_eq_none.1 hall _ (List.mem_map.2 ⟨i, hi, rfl⟩))
        split
        · -- the spine ends here
          rename_i hend
          refine ⟨fun _ m hm => ?_, fun d hd => nomatch hd⟩
          cases hm with
          | here h' => exact h h'
          | side hi rest => exact hnone _ hi _ rest
          | next hp _ =>
            rw [hend] at hp
            cases hp
        · rename_i p hp
          obtain ⟨ihNone, ihSome⟩ := ih (hnext p hp)
          rw [depthFrom_add]
          constructor
          · intro hd m hm
            cases hm with
            | here h' => exact h h'
            | side hi rest => exact hnone _ hi _ rest
            | next hp' rest =>
              obtain rfl := Option.some.inj (hp.symm.trans hp')
              exact ihNone (Option.map_eq_none_iff.1 hd) _ rest
          · intro d hd
            obtain ⟨k, hk, rfl⟩ := Option.map_eq_some_iff.1 hd
            obtain ⟨hEager, hleast⟩ := ihSome k hk
            rw [show 0 + 1 + k = k + 1 by omega]
            refine ⟨.next hnone hp hEager, ?_⟩
            intro m hm
            cases hm with
            | here h' => exact absurd h' h
            | side hi rest => exact absurd rest.path (hnone _ hi _)
            | next _ hp' rest =>
              obtain rfl := Option.some.inj (hp.symm.trans hp')
              exact Nat.succ_le_succ (hleast rest)

theorem depth_isLeast {c : C} {d : Nat} (h : L.depth hit c = some d) : IsLeast {m | L.Eager hit c m} d :=
  (depthFrom_spec (Nat.lt_succ_self _)).2 d h

/-- **The walk gets to `hit` whenever a path does.** -/
theorem depth_isSome_iff {c : C} : (L.depth hit c).isSome = true ↔ ∃ n, L.Path hit c n := by
  constructor
  · intro h
    obtain ⟨d, hd⟩ := Option.isSome_iff_exists.1 h
    exact ⟨d, (depth_isLeast hd).1.path⟩
  · rintro ⟨n, hn⟩
    rw [Option.isSome_iff_ne_none]
    exact fun h => (depthFrom_spec (Nat.lt_succ_self _)).1 h n hn

theorem exists_isLeast_path {c : C} {n : Nat} (h : L.Path hit c n) :
    ∃ d, IsLeast {m | L.Path hit c m} d := by
  classical
  exact ⟨Nat.find ⟨n, h⟩, Nat.find_spec ⟨n, h⟩, fun _ hm => Nat.find_min' _ hm⟩

/-- **The depth is the distance exactly when a shortest path is eager.** -/
theorem depth_isLeast_path_iff {c : C} : (∀ d, L.depth hit c = some d → IsLeast {m | L.Path hit c m} d) ↔
      ∀ d, IsLeast {m | L.Path hit c m} d → L.Eager hit c d := by
  constructor
  · intro h d hd
    obtain ⟨k, hk⟩ := Option.isSome_iff_exists.1 (depth_isSome_iff.2 ⟨d, hd.1⟩)
    have hdk : d = k := hd.unique (h k hk)
    rw [hdk]
    exact (depth_isLeast hk).1
  · intro h d hd
    obtain ⟨hEager, hleast⟩ := depth_isLeast hd
    obtain ⟨d₀, hd₀⟩ := exists_isLeast_path hEager.path
    have h1 : d ≤ d₀ := hleast (h d₀ hd₀)
    have h2 : d₀ ≤ d := hd₀.2 hEager.path
    rw [show d = d₀ by omega]
    exact hd₀

end Lineage
end TurboScript.Lib
