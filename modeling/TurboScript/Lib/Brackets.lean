import Mathlib.Data.List.Basic

/- Traces in which some entries open a bracket of some kind and others close one.

   `unwind` reads a trace with a stack of the brackets that are open: an entry that closes
   must match the one opened last. A trace is `Balanced` when it leaves every stack as it was.
   Balanced traces are closed under concatenation (`append`) and under a pair of matching
   brackets around them (`enclose`), and open as many brackets as they close
   (`opened_eq_closed`). -/
namespace TurboScript.Lib

inductive Mark (κ : Type)
  | opens (c : κ)
  | closes (c : κ)
  | neutral
  deriving DecidableEq

section Brackets
variable {α κ : Type} [DecidableEq κ] (mark : α → Mark κ)

/-- One entry; an entry that closes what is not open is an error. -/
def unwindStep (st : List κ) (a : α) : Option (List κ) :=
  match mark a, st with
  | .opens c, st => some (c :: st)
  | .closes c, d :: st => if c = d then some st else none
  | .closes _, [] => none
  | .neutral, st => some st

def unwind (st : List κ) : List α → Option (List κ)
  | [] => some st
  | a :: l => (unwindStep mark st a).bind fun st => unwind st l

def Balanced (l : List α) : Prop := ∀ st, unwind mark st l = some st

/-- The entries that open, and those that close. -/
def opened (l : List α) : Nat := l.countP fun a => match mark a with
  | .opens _ => true
  | _ => false

def closed (l : List α) : Nat := l.countP fun a => match mark a with
  | .closes _ => true
  | _ => false

variable {mark}

theorem unwind_append (st : List κ) (l l' : List α) :
    unwind mark st (l ++ l') = (unwind mark st l).bind fun st => unwind mark st l' := by
  induction l generalizing st with
  | nil => rfl
  | cons a l ih =>
    show (unwindStep mark st a).bind (fun st => unwind mark st (l ++ l')) =
      ((unwindStep mark st a).bind fun st => unwind mark st l).bind fun st => unwind mark st l'
    cases unwindStep mark st a with
    | none => rfl
    | some st' => exact ih st'

namespace Balanced

theorem nil : Balanced mark [] := fun _ => rfl

theorem append {l l' : List α} (h : Balanced mark l) (h' : Balanced mark l') : Balanced mark (l ++ l') := by
  intro st
  rw [unwind_append, h st]
  exact h' st

theorem single {a : α} (ha : mark a = .neutral) : Balanced mark [a] := by
  intro st
  unfold unwind unwindStep
  rw [ha]
  rfl

theorem enclose {a b : α} {c : κ} {l : List α} (ha : mark a = .opens c) (hb : mark b = .closes c)
    (h : Balanced mark l) : Balanced mark (a :: l ++ [b]) := by
  intro st
  have hopen : unwindStep mark st a = some (c :: st) := by
    unfold unwindStep
    rw [ha]
  have hclose : unwindStep mark (c :: st) b = some st := by
    unfold unwindStep
    rw [hb]
    exact if_pos rfl
  show ((unwindStep mark st a).bind fun st => unwind mark st (l ++ [b])) = some st
  rw [hopen]
  show unwind mark (c :: st) (l ++ [b]) = some st
  rw [unwind_append, h]
  show ((unwindStep mark (c :: st) b).bind fun st => unwind mark st []) = some st
  rw [hclose]
  rfl

end Balanced

theorem length_unwind {st st' : List κ} {l : List α} (h : unwind mark st l = some st') :
    st.length + opened mark l = st'.length + closed mark l := by
  induction l generalizing st with
  | nil =>
    cases h
    rfl
  | cons a l ih =>
    obtain ⟨u, hu, hl⟩ := Option.bind_eq_some_iff.mp h
    have hrest := ih hl
    unfold opened closed at *
    rw [List.countP_cons, List.countP_cons]
    unfold unwindStep at hu
    cases ha : mark a with
    | opens c =>
      rw [ha] at hu
      cases hu
      simp only [List.length_cons] at hrest
      simp
      omega
    | closes c =>
      rw [ha] at hu
      cases st with
      | nil => cases hu
      | cons d st =>
        obtain ⟨-, rfl⟩ := Option.ite_none_right_eq_some.mp hu |>.imp_right Option.some.inj
        simp only [List.length_cons]
        simp
        omega
    | neutral =>
      rw [ha] at hu
      cases hu
      simp
      omega

theorem Balanced.opened_eq_closed {l : List α} (h : Balanced mark l) : opened mark l = closed mark l := by
  simpa using length_unwind (h [])

end Brackets

end TurboScript.Lib
