import TurboScript.Lib.Lineage
import Mathlib.Data.Fin.VecNotation
import TurboScript.Exprtk.Value

/- Subtyping of classes and interfaces (`exprtk_class_is_a`, `class_identity_match_depth`,
   `class_name_match_depth`).

   A class has at most one prototype and any number of interfaces, and an interface may have
   both too. The three functions walk up the prototypes and search the interfaces of each
   class on the way; they differ in when a class counts as the target. The two that count
   edges return at the first prototype that has any match among its interfaces. -/
namespace TurboScript.Oop
open Lib
open Exprtk (Name)

/-- Classes and interfaces without a cycle. Two classes with one type id other than 0 are the
same class: a clone keeps the id of its original. -/
structure Hierarchy (C : Type) where
  name : C → Name
  typeId : C → Nat
  prototype : C → Option C
  interfaces : C → List C
  rank : C → Nat
  prototype_lt : ∀ c, ∀ p ∈ prototype c, rank p < rank c
  interfaces_lt : ∀ c, ∀ i ∈ interfaces c, rank i < rank c

namespace Hierarchy
variable {C : Type} [DecidableEq C] (h : Hierarchy C)

def lineage : Lineage C where
  next := h.prototype
  sides := h.interfaces
  rank := h.rank
  next_lt := h.prototype_lt
  sides_lt := h.interfaces_lt

/-- `method_classes_same`. -/
def classesSame (left right : C) : Bool :=
  left == right || (h.typeId left != 0 && h.typeId left == h.typeId right)

/-- `exprtk_class_is_a`. -/
def isA (k t : C) : Bool := h.lineage.found (fun c => h.classesSame c t) k

/-- `class_identity_match_depth`; `none` is -1. -/
def identityMatchDepth (k t : C) : Option Nat := h.lineage.depth (fun c => h.classesSame c t) k

/-- `class_name_match_depth`; `none` is -1. -/
def nameMatchDepth (k : C) (name : Name) : Option Nat := h.lineage.depth (fun c => h.name c == name) k

/-- There is a path of `n` prototype and interface edges from `k` to a class that is `t`. -/
def PathTo (t k : C) (n : Nat) : Prop := h.lineage.Path (fun c => h.classesSame c t) k n

/-- There is one that takes an interface edge at every class with an interface from which
`t` is reached. -/
def EagerPathTo (t k : C) (n : Nat) : Prop := h.lineage.Eager (fun c => h.classesSame c t) k n

/-- What the subtype functions say about `k` and `t` is right. -/
structure SubtypeDistance (k t : C) : Prop where
  isA : h.isA k t = true ↔ ∃ n, h.PathTo t k n
  depth : (h.identityMatchDepth k t).isSome = true ↔ ∃ n, h.PathTo t k n
  shortest : ∀ d, h.identityMatchDepth k t = some d → IsLeast {n | h.PathTo t k n} d

/-- **When the subtype distance is right.** Reachability always is; the number is when some
shortest path goes through the interfaces as soon as it can. -/
theorem subtypeDistance_iff (k t : C) :
    h.SubtypeDistance k t ↔ ∀ d, IsLeast {n | h.PathTo t k n} d → h.EagerPathTo t k d := by
  constructor
  · intro hright
    exact Lineage.depth_isLeast_path_iff.1 hright.shortest
  · intro hEager
    exact ⟨Lineage.found_iff, Lineage.depth_isSome_iff, Lineage.depth_isLeast_path_iff.2 hEager⟩

end Hierarchy

/-- `interface T`, `interface I extends T`, `interface J extends I`, `class P implements T` and
`class K extends P implements J`. -/
def longInterfaceChain : Hierarchy (Fin 5) where
  name := !["T", "I", "J", "P", "K"]
  typeId c := c + 1
  prototype := ![none, some 0, some 1, none, some 3]
  interfaces := ![[], [], [], [0], [2]]
  rank c := c
  prototype_lt := by decide
  interfaces_lt := by decide

/-- `K` is two edges from `T` by way of `P`, and three are counted. -/
theorem not_shortest :
    longInterfaceChain.identityMatchDepth 4 0 = some 3 ∧ longInterfaceChain.PathTo 0 4 2 ∧
      ¬longInterfaceChain.SubtypeDistance 4 0 := by
  have hdepth : longInterfaceChain.identityMatchDepth 4 0 = some 3 := by decide
  have hpath : longInterfaceChain.PathTo 0 4 2 :=
    .next (p := 3) rfl (.side (i := 0) (by decide) (.here (by decide)))
  refine ⟨hdepth, hpath, fun hright => ?_⟩
  have hle : 3 ≤ 2 := (hright.shortest 3 hdepth).2 hpath
  exact absurd hle (by decide)

end TurboScript.Oop
