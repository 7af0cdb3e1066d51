import Mathlib.Logic.Relation
import Mathlib.Data.List.Basic

/- Flat code with labels, and machines that run it.

   Code is a list of instructions, some of which define a label. A position in the
   code is the suffix that starts there, so a jump is a search for the suffix that
   starts with a label (`seek`), and a fragment placed between any prefix and
   any rest is found by its labels alone (`seek_split`). `Reaches` is finitely
   many steps of a deterministic machine; `runSteps` computes them, and a run that
   reaches a state without a step is found by it (`Reaches.runSteps`). -/
namespace TurboScript.Lib

section Labels

variable {ι L : Type} {lab : ι → Option L}

def labels (lab : ι → Option L) (c : List ι) : List L := c.filterMap lab

@[simp] theorem labels_append (p q : List ι) : labels lab (p ++ q) = labels lab p ++ labels lab q :=
  List.filterMap_append

theorem labels_cons_some {i : ι} {l : L} (h : lab i = some l) (c : List ι) :
    labels lab (i :: c) = l :: labels lab c := by
  simp [labels, h]

theorem labels_cons_none {i : ι} (h : lab i = none) (c : List ι) : labels lab (i :: c) = labels lab c := by
  simp [labels, h]

variable [DecidableEq L]

/-- The suffix that starts with the first definition of `l`. -/
def seek (lab : ι → Option L) (l : L) : List ι → Option (List ι)
  | [] => none
  | i :: c => if lab i = some l then some (i :: c) else seek lab l c

theorem seek_append {l : L} : ∀ {p q : List ι}, l ∉ labels lab p → seek lab l (p ++ q) = seek lab l q
  | [], _, _ => rfl
  | i :: p, q, h => by
    have hi : lab i ≠ some l := by
      intro hl
      apply h
      rw [labels_cons_some hl]
      exact List.mem_cons_self ..
    have hp : l ∉ labels lab p := by
      intro hm
      apply h
      cases hl : lab i with
      | none => rw [labels_cons_none hl]; exact hm
      | some l' => rw [labels_cons_some hl]; exact List.mem_cons_of_mem _ hm
    simp only [List.cons_append, seek, if_neg hi]
    exact seek_append hp

/-- **A jump finds its label.** In code whose labels are distinct, the suffix found for
    a label is the one at its definition, whatever stands before and after. -/
theorem seek_split {prog p q : List ι} {i : ι} {l : L} (hprog : prog = p ++ i :: q)
    (hnd : (labels lab prog).Nodup) (hi : lab i = some l) :
    seek lab l prog = some (i :: q) := by
  subst hprog
  rw [labels_append, labels_cons_some hi] at hnd
  have hp : l ∉ labels lab p := by
    intro hm
    exact (List.nodup_append.1 hnd).2.2 l hm l (List.mem_cons_self ..) rfl
  rw [seek_append hp]
  simp [seek, hi]

theorem seek_of_suffix {prog q : List ι} {i : ι} {l : L} (hs : (i :: q) <:+ prog)
    (hnd : (labels lab prog).Nodup) (hi : lab i = some l) : seek lab l prog = some (i :: q) := by
  obtain ⟨p, hp⟩ := hs
  exact seek_split hp.symm hnd hi

end Labels

section Runs

variable {κ : Type} {step : κ → Option κ}

def Reaches (step : κ → Option κ) : κ → κ → Prop :=
  Relation.ReflTransGen (fun a b => step a = some b)

/-- Run for at most `n` steps; a state without a step stays. -/
def runSteps (step : κ → Option κ) : Nat → κ → κ
  | 0, c => c
  | n + 1, c =>
    match step c with
    | none => c
    | some c' => runSteps step n c'

theorem Reaches.refl (a : κ) : Reaches step a a := Relation.ReflTransGen.refl

theorem Reaches.one {a b : κ} (h : step a = some b) : Reaches step a b :=
  Relation.ReflTransGen.single h

theorem Reaches.trans {a b c : κ} (h : Reaches step a b) (h' : Reaches step b c) : Reaches step a c :=
  Relation.ReflTransGen.trans h h'

theorem Reaches.head {a b c : κ} (h : step a = some b) (h' : Reaches step b c) : Reaches step a c :=
  Relation.ReflTransGen.head h h'

theorem runSteps_stuck {b : κ} (hb : step b = none) : ∀ n, runSteps step n b = b
  | 0 => rfl
  | n + 1 => by simp only [runSteps, hb]

theorem Reaches.runSteps {a b : κ} (h : Reaches step a b) (hb : step b = none) :
    ∃ n, ∀ m, n ≤ m → Lib.runSteps step m a = b := by
  induction h using Relation.ReflTransGen.head_induction_on with
  | refl => exact ⟨0, fun m _ => runSteps_stuck hb m⟩
  | head hs _ ih =>
    obtain ⟨n, hn⟩ := ih
    refine ⟨n + 1, fun m hm => ?_⟩
    obtain ⟨m', rfl⟩ : ∃ m', m = m' + 1 := ⟨m - 1, by omega⟩
    simp only [Lib.runSteps, hs]
    exact hn m' (by omega)

end Runs

end TurboScript.Lib
