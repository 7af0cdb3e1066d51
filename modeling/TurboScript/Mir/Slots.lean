import Mathlib.Algebra.Order.Ring.Int
import TurboScript.Mir.Lower

/- Managed value slots on every control path.

   A path through the emitted code follows jumps to their labels and takes a
   conditional branch either way, so it covers every run and more. `watch` follows
   the slots along a path and refuses to publish a live slot, to read, move or clean
   one that is not live, and to leave straight-line code with a live slot (a jump, a
   branch, a return, a throw). The lowering publishes only in `ts_emit_value_expr`,
   which cleans at once, so its code is `Paired`: that survives every construct, and
   a path through paired code is accepted by `watch`. -/
namespace TurboScript.Mir
open Lib Compiler

variable {D : Type}

/-! Paths and what they do to the slots. -/

inductive SlotUse
  | publish (s : Slot)
  | read (s : Slot)
  | move (s : Slot)
  | clean (s : Slot)
  deriving DecidableEq, Repr

/-- The helper call publishes its slot; the destroy call reads the slot and cleans it. -/
def Insn.slotUses : Insn D → List SlotUse
  | .valueExpr _ _ s => [.publish s]
  | .slotDestroy s => [.read s, .clean s]
  | _ => []

/-- Instructions at which control leaves straight-line code. -/
def Insn.transfers : Insn D → Bool
  | .jmp _ | .branch .. | .throwPoint | .ret _ => true
  | _ => false

def Insn.target : Insn D → Option Label
  | .jmp l | .branch _ l _ _ => some l
  | _ => none

/-- Whether control may continue with the next instruction. -/
def Insn.falls : Insn D → Bool
  | .jmp _ | .ret _ => false
  | _ => true

/-- A path through `prog`: the instructions executed between two positions. -/
inductive Path (prog : List (Insn D)) : List (Insn D) → List (Insn D) → List (Insn D) → Prop
  | stop (c : List (Insn D)) : Path prog c [] c
  | fall {i : Insn D} {c tr c' : List (Insn D)} (hf : i.falls = true) (h : Path prog c tr c') :
      Path prog (i :: c) (i :: tr) c'
  | jump {i : Insn D} {c next tr c' : List (Insn D)} {l : Label} (ht : i.target = some l)
      (hs : seek Insn.defines l prog = some next) (h : Path prog next tr c') :
      Path prog (i :: c) (i :: tr) c'

/-- One use of a slot, over the list of live slots. -/
def useSlot (live : List Slot) : SlotUse → Option (List Slot)
  | .publish s => if s ∈ live then none else some (s :: live)
  | .read s => if s ∈ live then some live else none
  | .move s | .clean s => if s ∈ live then some (live.erase s) else none

def useSlots (live : List Slot) : List SlotUse → Option (List Slot)
  | [] => some live
  | u :: us =>
    match useSlot live u with
    | none => none
    | some live' => useSlots live' us

/-- The live slots after the instructions of a path; `none` when one breaks the rules. -/
def watch (live : List Slot) : List (Insn D) → Option (List Slot)
  | [] => some live
  | i :: tr =>
    if i.transfers && !live.isEmpty then none
    else
      match useSlots live i.slotUses with
      | none => none
      | some live' => watch live' tr

def SlotUse.publishes (s : Slot) : SlotUse → Bool
  | .publish t => s = t
  | _ => false

def SlotUse.releases (s : Slot) : SlotUse → Bool
  | .move t | .clean t => s = t
  | _ => false

/-- How often a path publishes a slot, and how often it moves or cleans it. -/
def publications (s : Slot) (tr : List (Insn D)) : Nat :=
  (tr.flatMap Insn.slotUses).countP (SlotUse.publishes s)

def releases (s : Slot) (tr : List (Insn D)) : Nat :=
  (tr.flatMap Insn.slotUses).countP (SlotUse.releases s)

/-! An accepted path publishes a slot as often as it releases it, up to a live one. -/

theorem useSlot_count {live live' : List Slot} {u : SlotUse} (s : Slot) (hnd : live.Nodup)
    (h : useSlot live u = some live') :
    live'.Nodup ∧ (if u.publishes s then 1 else 0) + live.count s =
      (if u.releases s then 1 else 0) + live'.count s := by
  cases u with
  | publish t =>
    simp only [useSlot] at h
    split at h
    · cases h
    · rename_i ht
      cases h
      refine ⟨List.nodup_cons.2 ⟨ht, hnd⟩, ?_⟩
      simp only [SlotUse.publishes, SlotUse.releases, List.count_cons]
      by_cases hst : s = t
      · subst hst; simp; omega
      · simp [hst, Ne.symm hst]
  | read t =>
    simp only [useSlot] at h
    split at h
    · cases h; exact ⟨hnd, rfl⟩
    · cases h
  | move t | clean t =>
    simp only [useSlot] at h
    split at h
    · rename_i ht
      cases h
      refine ⟨hnd.erase t, ?_⟩
      simp only [SlotUse.publishes, SlotUse.releases]
      by_cases hst : s = t
      · subst hst
        have hc := List.count_pos_iff.2 ht
        simp [List.count_erase_self]
        omega
      · simp [hst, List.count_erase_of_ne hst]
    · cases h

theorem useSlots_count (s : Slot) : ∀ {us : List SlotUse} {live live' : List Slot}, live.Nodup →
    useSlots live us = some live' → live'.Nodup ∧
      us.countP (SlotUse.publishes s) + live.count s = us.countP (SlotUse.releases s) + live'.count s
  | [], live, live', hnd, h => by
    cases h
    exact ⟨hnd, rfl⟩
  | u :: us, live, live', hnd, h => by
    simp only [useSlots] at h
    split at h
    · cases h
    · rename_i live₁ hu
      obtain ⟨hnd₁, h₁⟩ := useSlot_count s hnd hu
      obtain ⟨hnd₂, h₂⟩ := useSlots_count s hnd₁ h
      refine ⟨hnd₂, ?_⟩
      rw [List.countP_cons, List.countP_cons]
      omega

theorem watch_count (s : Slot) : ∀ {tr : List (Insn D)} {live live' : List Slot}, live.Nodup →
    watch live tr = some live' →
      live'.Nodup ∧ publications s tr + live.count s = releases s tr + live'.count s
  | [], live, live', hnd, h => by
    cases h
    exact ⟨hnd, rfl⟩
  | i :: tr, live, live', hnd, h => by
    simp only [watch] at h
    split at h
    · cases h
    · split at h
      · cases h
      · rename_i live₁ hu
        obtain ⟨hnd₁, h₁⟩ := useSlots_count s hnd hu
        obtain ⟨hnd₂, h₂⟩ := watch_count s hnd₁ h
        refine ⟨hnd₂, ?_⟩
        simp only [publications, releases, List.flatMap_cons, List.countP_append] at h₂ ⊢
        omega

/-! Paired code. -/

/-- Every publication is cleaned by the next instruction, and nothing else uses a slot. -/
inductive Paired : List (Insn D) → Prop
  | nil : Paired []
  | plain {i : Insn D} {c : List (Insn D)} (hi : i.slotUses = []) (h : Paired c) : Paired (i :: c)
  | pair {r : Reg} {node : NodeId} {s : Slot} {c : List (Insn D)} (h : Paired c) :
      Paired (.valueExpr r node s :: .slotDestroy s :: c)

theorem Paired.append {p q : List (Insn D)} (hp : Paired p) (hq : Paired q) : Paired (p ++ q) := by
  induction hp with
  | nil => exact hq
  | plain hi _ ih => exact .plain hi ih
  | pair _ ih => exact .pair ih

theorem Paired.of_slotFree {p : List (Insn D)} (h : ∀ i ∈ p, i.slotUses = []) : Paired p := by
  induction p with
  | nil => exact .nil
  | cons i p ih =>
    refine .plain (h i (List.mem_cons_self ..)) (ih fun j hj => h j (List.mem_cons_of_mem _ hj))

theorem Paired.seek {l : Label} {p c : List (Insn D)} (hp : Paired p)
    (h : Lib.seek Insn.defines l p = some c) : Paired c := by
  induction hp with
  | nil => cases h
  | plain hi hp ih =>
    simp only [Lib.seek] at h
    split at h
    · cases h; exact .plain hi hp
    · exact ih h
  | pair hp ih =>
    simp only [Lib.seek, Insn.defines] at h
    exact ih (by simpa using h)

/-- Where a path through paired code stands: nothing is live, or the next instruction
    cleans the one live slot. -/
def Between (live : List Slot) (c : List (Insn D)) : Prop :=
  (live = [] ∧ Paired c) ∨ ∃ s r, live = [s] ∧ c = .slotDestroy s :: r ∧ Paired r

theorem watch_plain {i : Insn D} (hi : i.slotUses = []) (tr : List (Insn D)) :
    watch [] (i :: tr) = watch [] tr := by
  simp [watch, hi, useSlots]

/-- **Paired code is accepted along every path.** -/
theorem Path.watch {prog c tr c' : List (Insn D)} (hprog : Paired prog) (hp : Path prog c tr c') :
    ∀ {live : List Slot}, Between live c → ∃ live', Mir.watch live tr = some live' ∧ Between live' c' := by
  induction hp with
  | stop c => exact fun hb => ⟨_, rfl, hb⟩
  | @fall i c tr c' hf hpath ih =>
    intro live hb
    rcases hb with ⟨rfl, hc⟩ | ⟨s, r, rfl, hc, hr⟩
    · cases hc with
      | plain hi hc =>
        rw [watch_plain hi]
        exact ih (.inl ⟨rfl, hc⟩)
      | pair hc =>
        simp only [Mir.watch, Insn.transfers, Insn.slotUses, useSlots, useSlot]
        exact ih (.inr ⟨_, _, rfl, rfl, hc⟩)
    · cases hc
      simp [Mir.watch, Insn.transfers, Insn.slotUses, useSlots, useSlot]
      exact ih (.inl ⟨rfl, hr⟩)
  | @jump i c next tr c' l ht hs hpath ih =>
    intro live hb
    rcases hb with ⟨rfl, hc⟩ | ⟨s, r, rfl, hc, hr⟩
    · cases hc with
      | plain hi hc =>
        rw [watch_plain hi]
        exact ih (.inl ⟨rfl, hprog.seek hs⟩)
      | pair hc => cases ht
    · cases hc
      cases ht

/-! The lowering emits paired code. -/

theorem paired_stores (xs : List Name) : Paired (stores xs : List (Insn D)) := by
  apply Paired.of_slotFree
  intro i hi
  obtain ⟨x, _, rfl⟩ := List.mem_map.1 hi
  rfl

theorem paired_loads (xs : List Name) : Paired (loads xs : List (Insn D)) := by
  apply Paired.of_slotFree
  intro i hi
  obtain ⟨x, _, rfl⟩ := List.mem_map.1 hi
  rfl

theorem paired_one {i : Insn D} (hi : i.slotUses = []) : Paired [i] := .plain hi .nil

theorem paired_emitCall (node : NodeId) (sync reload : Bool) (args : List Reg) (c : Compiler) :
    Paired (emitCall node sync reload args c : Compiler × List (Insn D) × Reg).2.1 := by
  cases sync <;> cases reload
  · exact paired_one rfl
  · exact .plain rfl (paired_loads _)
  · exact (paired_stores _).append (paired_one rfl)
  · exact (paired_stores _).append (.plain rfl (paired_loads _))

section Lowered

set_option linter.unusedSectionVars false
variable [Zero D] [One D]

def PairedValue (value : Compiler → Except String (Compiler × List (Insn D) × Reg)) : Prop :=
  ∀ c c' is r, value c = .ok (c', is, r) → Paired is

def PairedBranch (branch : Label → Compiler → Except String (Compiler × List (Insn D))) : Prop :=
  ∀ l c c' is, branch l c = .ok (c', is) → Paired is

/-- Whatever the lowering emits for a node, as a value or as a condition, is paired. -/
structure PairedLowering (L : Lowering D) : Prop where
  value : PairedValue L.value
  branchFalse : PairedBranch L.branchFalse
  branchTrue : PairedBranch L.branchTrue

theorem paired_emitValueExpr (node : NodeId) : PairedValue (D := D) (emitValueExpr node) := by
  intro c c' is r h
  simp only [emitValueExpr, bind_ok] at h
  obtain ⟨c₁, _, _, _, c₂, _, h⟩ := h
  cases h
  exact (paired_stores _).append (.pair (paired_loads _))

theorem paired_branchOn {value : Compiler → Except String (Compiler × List (Insn D) × Reg)}
    (hv : PairedValue value) (op : CmpOp) : PairedBranch (branchOn value op) := by
  intro l c c' is h
  simp only [branchOn, bind_ok] at h
  obtain ⟨⟨c₁, is₁, r⟩, h₁, h⟩ := h
  cases h
  exact (hv _ _ _ _ h₁).append (paired_one rfl)

theorem PairedLowering.ofValue {value : Compiler → Except String (Compiler × List (Insn D) × Reg)}
    (hv : PairedValue value) : PairedLowering (Lowering.ofValue value) :=
  ⟨hv, paired_branchOn hv _, paired_branchOn hv _⟩

variable {L R : Lowering D}

theorem paired_lowerPair (hL : PairedLowering L) (hR : PairedLowering R) {c c' : Compiler}
    {is : List (Insn D)} {l r : Reg} (h : lowerPair L R c = .ok (c', is, l, r)) :
    Paired is := by
  simp only [lowerPair, bind_ok] at h
  obtain ⟨⟨c₁, is₁, l'⟩, h₁, ⟨c₂, is₂, r'⟩, h₂, h⟩ := h
  cases h
  exact (hL.value _ _ _ _ h₁).append (hR.value _ _ _ _ h₂)

theorem paired_lowerVar (x : Name) : PairedValue (D := D) (lowerVar x) := by
  intro c c' is r h
  simp only [lowerVar] at h
  split at h
  · cases h; exact paired_one rfl
  · cases h; exact .nil

theorem paired_lowerNeg {E : Lowering D} (hE : PairedLowering E) : PairedValue (lowerNeg E) := by
  intro c c' is r h
  simp only [lowerNeg, bind_ok] at h
  obtain ⟨⟨c₁, is₁, r₁⟩, h₁, h⟩ := h
  cases h
  exact (hE.value _ _ _ _ h₁).append (paired_one rfl)

theorem paired_lowerNot {E : Lowering D} (hE : PairedLowering E) : PairedValue (lowerNot E) := by
  intro c c' is r h
  simp only [lowerNot, bind_ok] at h
  obtain ⟨⟨c₁, is₁, r₁⟩, h₁, h⟩ := h
  cases h
  exact (hE.value _ _ _ _ h₁).append (.plain rfl (paired_one rfl))

theorem paired_lowerArith (op : ArithOp) (hL : PairedLowering L) (hR : PairedLowering R) :
    PairedValue (lowerArith op L R) := by
  intro c c' is r h
  simp only [lowerArith, bind_ok] at h
  obtain ⟨⟨c₁, is₁, a, b⟩, h₁, h⟩ := h
  cases h
  exact (paired_lowerPair hL hR h₁).append (paired_one rfl)

theorem paired_lowerCmp (op : CmpOp) (hL : PairedLowering L) (hR : PairedLowering R) :
    PairedValue (lowerCmp op L R) := by
  intro c c' is r h
  simp only [lowerCmp, bind_ok] at h
  obtain ⟨⟨c₁, is₁, a, b⟩, h₁, h⟩ := h
  cases h
  exact (paired_lowerPair hL hR h₁).append (.plain rfl (paired_one rfl))

theorem paired_branchCmp (op : CmpOp) (hL : PairedLowering L) (hR : PairedLowering R) :
    PairedBranch (branchCmp op L R) := by
  intro l c c' is h
  simp only [branchCmp, bind_ok] at h
  obtain ⟨⟨c₁, is₁, a, b⟩, h₁, h⟩ := h
  cases h
  exact (paired_lowerPair hL hR h₁).append (paired_one rfl)

theorem paired_lowerShortCircuit (skip : CmpOp) (decided : D) (hL : PairedLowering L)
    (hR : PairedLowering R) :
    PairedValue (lowerShortCircuit skip decided L R) := by
  intro c c' is r h
  simp only [lowerShortCircuit, bind_ok] at h
  obtain ⟨⟨c₁, is₁, a⟩, h₁, ⟨c₂, is₂, b⟩, h₂, h⟩ := h
  cases h
  refine (hL.value _ _ _ _ h₁).append (.plain rfl ((hR.value _ _ _ _ h₂).append ?_))
  exact .of_slotFree (by simp [Insn.slotUses])

theorem paired_branchFalseAnd (hL : PairedLowering L) (hR : PairedLowering R) :
    PairedBranch (branchFalseAnd L R) := by
  intro l c c' is h
  simp only [branchFalseAnd, bind_ok] at h
  obtain ⟨⟨c₁, is₁⟩, h₁, ⟨c₂, is₂⟩, h₂, h⟩ := h
  cases h
  exact (hL.branchFalse _ _ _ _ h₁).append (hR.branchFalse _ _ _ _ h₂)

theorem paired_branchFalseOr (hL : PairedLowering L) (hR : PairedLowering R) :
    PairedBranch (branchFalseOr L R) := by
  intro l c c' is h
  simp only [branchFalseOr, bind_ok] at h
  obtain ⟨⟨c₁, is₁⟩, h₁, ⟨c₂, is₂⟩, h₂, h⟩ := h
  cases h
  exact ((hL.branchTrue _ _ _ _ h₁).append (hR.branchFalse _ _ _ _ h₂)).append (paired_one rfl)

theorem paired_lowerElse (res : Reg) {E : Option (Lowering D)}
    (hE : ∀ L, E = some L → PairedLowering L) {c c' : Compiler} {is : List (Insn D)}
    (h : lowerElse res E c = .ok (c', is)) : Paired is := by
  cases E with
  | none => cases h; exact paired_one rfl
  | some L =>
    simp only [lowerElse, bind_ok] at h
    obtain ⟨⟨c₁, is₁, e⟩, h₁, h⟩ := h
    cases h
    exact ((hE L rfl).value _ _ _ _ h₁).append (paired_one rfl)

theorem paired_lowerIte {C T : Lowering D} {E : Option (Lowering D)} (hC : PairedLowering C)
    (hT : PairedLowering T) (hE : ∀ L, E = some L → PairedLowering L) :
    PairedValue (lowerIte C T E) := by
  intro c c' is r h
  simp only [lowerIte, bind_ok] at h
  obtain ⟨⟨c₁, is₁⟩, h₁, ⟨c₂, is₂, t⟩, h₂, ⟨c₃, is₃⟩, h₃, h⟩ := h
  cases h
  refine ((hC.branchFalse _ _ _ _ h₁).append (hT.value _ _ _ _ h₂)).append ?_
  exact .plain rfl (.plain rfl (.plain rfl ((paired_lowerElse _ hE h₃).append (paired_one rfl))))

theorem paired_lowerAssign (x : Name) {E : Lowering D} (hE : PairedLowering E) :
    PairedValue (lowerAssign x E) := by
  intro c c' is r h
  simp only [lowerAssign, bind_ok] at h
  obtain ⟨⟨c₁, is₁, r₁⟩, h₁, h⟩ := h
  cases h
  exact (hE.value _ _ _ _ h₁).append (paired_one rfl)

theorem paired_emitValueExprAssign (x : Name) (node : NodeId) :
    PairedValue (D := D) (emitValueExprAssign x node) := by
  intro c c' is r h
  cases h
  exact (paired_stores _).append (.plain rfl (paired_one rfl))

theorem paired_lowerThrow (node : NodeId) : PairedValue (D := D) (lowerThrow node) := by
  intro c c' is r h
  simp only [lowerThrow, bind_ok] at h
  obtain ⟨⟨c₁, is₁, r₁⟩, h₁, _, _, h⟩ := h
  cases h
  exact (paired_emitValueExpr node _ _ _ _ h₁).append (paired_one rfl)

theorem paired_lowerCall (node : NodeId) (sync reload : Bool)
    {args : Compiler → Except String (Compiler × List (Insn D) × List Reg)}
    (ha : ∀ c c' is rs, args c = .ok (c', is, rs) → Paired is) :
    PairedValue (lowerCall node sync reload args) := by
  intro c c' is r h
  simp only [lowerCall, bind_ok] at h
  obtain ⟨⟨c₁, is₁, rs⟩, h₁, h⟩ := h
  cases h
  exact (ha _ _ _ _ h₁).append (paired_emitCall _ _ _ _ _)

mutual
theorem paired_lowering : ∀ e : Expr D, PairedLowering (lowering e)
  | .num _ => .ofValue (by intro c c' is r h; cases h; exact paired_one rfl)
  | .var x => .ofValue (paired_lowerVar x)
  | .neg e => .ofValue (paired_lowerNeg (paired_lowering e))
  | .not e =>
    { PairedLowering.ofValue (paired_lowerNot (paired_lowering e)) with
      branchFalse := paired_branchOn (paired_lowering e).value _ }
  | .plus e => .ofValue (paired_lowering e).value
  | .arith _ l r => .ofValue (paired_lowerArith _ (paired_lowering l) (paired_lowering r))
  | .cmp _ l r =>
    { value := paired_lowerCmp _ (paired_lowering l) (paired_lowering r)
      branchFalse := paired_branchCmp _ (paired_lowering l) (paired_lowering r)
      branchTrue := paired_branchCmp _ (paired_lowering l) (paired_lowering r) }
  | .and l r =>
    { PairedLowering.ofValue (paired_lowerShortCircuit _ _ (paired_lowering l) (paired_lowering r)) with
      branchFalse := paired_branchFalseAnd (paired_lowering l) (paired_lowering r) }
  | .or l r =>
    { PairedLowering.ofValue (paired_lowerShortCircuit _ _ (paired_lowering l) (paired_lowering r)) with
      branchFalse := paired_branchFalseOr (paired_lowering l) (paired_lowering r) }
  | .ite c t e => .ofValue (paired_lowerIte (paired_lowering c) (paired_lowering t) (by
      intro L hL; cases hL; exact paired_lowering e))
  | .iteNoElse c t => .ofValue (paired_lowerIte (paired_lowering c) (paired_lowering t) (by
      intro L hL; cases hL))
  | .assign x e => .ofValue (paired_lowerAssign x (paired_lowering e))
  | .value node _ => .ofValue (paired_emitValueExpr node)
  | .valueAssign x node _ => .ofValue (paired_emitValueExprAssign x node)
  | .throw node _ => .ofValue (paired_lowerThrow node)
  | .call _ _ _ args => .ofValue (paired_lowerCall _ _ _ (paired_lowerArgs args))
  | .unsupported _ => .ofValue (by intro c c' is r h; cases h)

theorem paired_lowerArgs : ∀ (args : Args D) (c c' : Compiler) (is : List (Insn D)) (rs : List Reg),
    lowerArgs args c = .ok (c', is, rs) → Paired is
  | .nil, c, c', is, rs, h => by
    simp only [lowerArgs] at h
    cases h
    exact .nil
  | .cons e rest, c, c', is, rs, h => by
    simp only [lowerArgs, bind_ok] at h
    obtain ⟨⟨c₁, is₁, r⟩, h₁, ⟨c₂, is₂, rs₂⟩, h₂, h⟩ := h
    cases h
    exact ((paired_lowering e).value _ _ _ _ h₁).append (paired_lowerArgs rest _ _ _ _ h₂)
end

theorem paired_compileReturnValue (e : Option (Expr D)) : PairedValue (compileReturnValue e) := by
  cases e with
  | none => intro c c' is r h; cases h; exact paired_one rfl
  | some e => exact (paired_lowering e).value

theorem paired_compileForCond (e : Option (Expr D)) : PairedBranch (compileForCond e) := by
  cases e with
  | none => intro l c c' is h; cases h; exact .nil
  | some e => exact (paired_lowering e).branchFalse

theorem paired_emitForLoop {cond : Label → Compiler → Except String (Compiler × List (Insn D))}
    {body post : Compiler → Except String (Compiler × List (Insn D))} (hc : PairedBranch cond)
    (hb : ∀ c c' is, body c = .ok (c', is) → Paired is)
    (hp : ∀ c c' is, post c = .ok (c', is) → Paired is) {c c' : Compiler} {is : List (Insn D)}
    (h : emitForLoop cond body post c = .ok (c', is)) : Paired is := by
  simp only [emitForLoop, bind_ok] at h
  obtain ⟨_, _, _, _, ⟨c₁, is₁⟩, h₁, ⟨c₂, is₂⟩, h₂, _, _, ⟨c₃, is₃⟩, h₃, _, _, _, _, h⟩ := h
  cases h
  refine .plain rfl (((hc _ _ _ _ h₁).append (hb _ _ _ h₂)).append (.plain rfl ?_))
  exact (hp _ _ _ h₃).append (.plain rfl (paired_one rfl))

mutual
/-- **Every construct keeps the pairing**: its own instructions use no slot, and its parts
    are paired. -/
theorem paired_compileStmt : ∀ (s : Stmt D) (c c' : Compiler) (is : List (Insn D)),
    compileStmt s c = .ok (c', is) → Paired is
  | .skip, c, c', is, h => by
    simp only [compileStmt] at h
    cases h
    exact .nil
  | .seq s t, c, c', is, h => by
    simp only [compileStmt, bind_ok] at h
    obtain ⟨⟨c₁, is₁⟩, h₁, ⟨c₂, is₂⟩, h₂, h⟩ := h
    cases h
    exact (paired_compileStmt s _ _ _ h₁).append (paired_compileStmt t _ _ _ h₂)
  | .expr e, c, c', is, h => by
    simp only [compileStmt, bind_ok] at h
    obtain ⟨⟨c₁, is₁, r⟩, h₁, h⟩ := h
    cases h
    exact (paired_lowering e).value _ _ _ _ h₁
  | .classDef node, c, c', is, h => by
    simp only [compileStmt] at h
    cases h
    exact paired_emitCall node true false [] c
  | .funcDef node, c, c', is, h => by
    simp only [compileStmt] at h
    cases h
    exact paired_emitCall node false false [] c
  | .ifThen cond t, c, c', is, h => by
    simp only [compileStmt, bind_ok] at h
    obtain ⟨⟨c₁, is₁⟩, h₁, _, _, ⟨c₂, is₂⟩, h₂, _, _, _, _, _, _, h⟩ := h
    cases h
    have hc := (paired_lowering cond).branchFalse _ _ _ _ h₁
    exact (hc.append (paired_compileStmt t _ _ _ h₂)).append (paired_one rfl)
  | .ifElse cond t e, c, c', is, h => by
    simp only [compileStmt, bind_ok] at h
    obtain ⟨⟨c₁, is₁⟩, h₁, _, _, ⟨c₂, is₂⟩, h₂, _, _, _, _, _, _, ⟨c₃, is₃⟩, h₃, _, _, _, _, _, _, h⟩ := h
    cases h
    have hc := (paired_lowering cond).branchFalse _ _ _ _ h₁
    have he := paired_compileStmt e _ _ _ h₃
    refine (hc.append (paired_compileStmt t _ _ _ h₂)).append (.plain rfl (.plain rfl ?_))
    exact he.append (paired_one rfl)
  | .while cond body, c, c', is, h => by
    simp only [compileStmt, bind_ok] at h
    obtain ⟨_, _, _, _, ⟨c₁, is₁⟩, h₁, ⟨c₂, is₂⟩, h₂, _, _, _, _, h⟩ := h
    cases h
    have hc := (paired_lowering cond).branchFalse _ _ _ _ h₁
    refine .plain rfl ((hc.append (paired_compileStmt body _ _ _ h₂)).append ?_)
    exact .plain rfl (paired_one rfl)
  | .for init cond post body, c, c', is, h => by
    simp only [compileStmt, bind_ok] at h
    obtain ⟨⟨c₁, is₁⟩, h₁, ⟨c₂, is₂⟩, h₂, h⟩ := h
    cases h
    have hl := paired_emitForLoop (paired_compileForCond cond) (paired_compileStmt body)
      (paired_compileStmt post) h₂
    exact (paired_compileStmt init _ _ _ h₁).append hl
  | .doWhile body cond, c, c', is, h => by
    simp only [compileStmt, bind_ok] at h
    obtain ⟨_, _, _, _, ⟨c₁, is₁⟩, h₁, _, _, ⟨c₂, is₂⟩, h₂, _, _, _, _, h⟩ := h
    cases h
    have hc := (paired_lowering cond).branchTrue _ _ _ _ h₂
    refine .plain rfl ((paired_compileStmt body _ _ _ h₁).append (.plain rfl ?_))
    exact hc.append (paired_one rfl)
  | .brk, _, _, _, h | .cont, _, _, _, h => by
    simp only [compileStmt] at h
    split at h
    · cases h; exact .nil
    · obtain ⟨_, _, h⟩ := bind_ok.1 h
      cases h
      exact paired_one rfl
  | .ret e, c, c', is, h => by
    simp only [compileStmt, bind_ok] at h
    obtain ⟨⟨c₁, is₁, r⟩, h₁, _, _, h⟩ := h
    cases h
    refine ((paired_compileReturnValue e _ _ _ _ h₁).append ?_).append (paired_one rfl)
    split
    · exact paired_stores _
    · exact .nil
  | .forIn x node names, c, c', is, h => by
    simp only [compileStmt, bind_ok] at h
    obtain ⟨⟨c₁, is₁, r⟩, h₁, h⟩ := h
    cases h
    exact paired_emitValueExpr _ _ _ _ _ h₁
  | .switch e cases', c, c', is, h => by
    simp only [compileStmt, bind_ok] at h
    obtain ⟨⟨c₁, is₁, v⟩, h₁, ⟨c₂, is₂⟩, h₂, h⟩ := h
    cases h
    have he := (paired_lowering e).value _ _ _ _ h₁
    exact (he.append (paired_compileCases cases' _ _ _ _ _ h₂)).append (paired_one rfl)

theorem paired_compileCases : ∀ (cs : Cases D) (v : Reg) (l : Label) (c c' : Compiler)
    (is : List (Insn D)), compileCases cs v l c = .ok (c', is) → Paired is
  | .default d, v, l, c, c', is, h => by
    simp only [compileCases] at h
    exact paired_compileStmt d _ _ _ h
  | .case v body rest, val, l, c, c', is, h => by
    simp only [compileCases, bind_ok] at h
    obtain ⟨⟨c₁, is₁, cv⟩, h₁, ⟨c₂, is₂⟩, h₂, ⟨c₃, is₃⟩, h₃, h⟩ := h
    cases h
    have hv := (paired_lowering v).value _ _ _ _ h₁
    have hr := paired_compileCases rest _ _ _ _ _ h₃
    refine hv.append (.plain rfl ((paired_compileStmt body _ _ _ h₂).append ?_))
    exact .plain rfl (.plain rfl hr)
end

/-- **Slot ownership on every path.** In the code emitted for any statement tree, between
    any prologue and epilogue, every path from the function entry is accepted by `watch`.
    Where it stands, a slot has been released once for each publication, except a live
    one, and that is cleaned by the very next instruction; so nothing is live where control
    leaves straight-line code. -/
theorem managed_slots_owned_on_every_path (s : Stmt D) (c c' : Compiler)
    (pre code post tr rest : List (Insn D)) (h : compileStmt s c = .ok (c', code))
    (hpre : ∀ i ∈ pre, i.slotUses = []) (hpost : ∀ i ∈ post, i.slotUses = [])
    (hp : Path (pre ++ code ++ post) (pre ++ code ++ post) tr rest) :
    ∃ live, watch [] tr = some live ∧ (∀ t, publications t tr = releases t tr + live.count t) ∧
      (∀ t ∈ live, ∃ r, rest = .slotDestroy t :: r) ∧
      (∀ i r, rest = i :: r → i.transfers = true → live = []) ∧
      (rest = [] → live = []) := by
  have hcode : Paired (pre ++ code ++ post) :=
    ((Paired.of_slotFree hpre).append (paired_compileStmt s c c' code h)).append (.of_slotFree hpost)
  obtain ⟨live, hw, hb⟩ := hp.watch hcode (.inl ⟨rfl, hcode⟩)
  refine ⟨live, hw, fun t => ?_, ?_⟩
  · have hc := (watch_count t List.nodup_nil hw).2
    simpa using hc
  -- a live slot is exactly the one the next instruction cleans
  rcases hb with ⟨rfl, _⟩ | ⟨t, r, rfl, rfl, _⟩
  · exact ⟨by simp, fun _ _ _ _ => rfl, fun _ => rfl⟩
  · refine ⟨by simp, ?_, by simp⟩
    rintro i r' ⟨⟩ ht
    cases ht

end Lowered

/-- The path once through the body of `while (1) helper` and out by the failing condition,
    up to the return. -/
theorem managed_slots_owned_around_a_loop : let code : List (Insn Int) :=
      [.label 0, .mov (.tmp 0) (.imm 1), .branch .eq 1 (.reg (.tmp 0)) (.imm 0),
        .valueExpr (.tmp 1) 7 0, .slotDestroy 0, .jmp 0, .label 1]
    let tr := [code[0], code[1], code[2], code[3], code[4], code[5], code[0], code[1], code[2], code[6]]
    compileStmt (.while (.num 1) (.expr (.value 7 []))) {} =
        .ok ({ tmpCount := 2, labelCount := 2, slots := [.cleaned] }, code) ∧
      ∃ live, watch [] tr = some live ∧ publications 0 tr = releases 0 tr + live.count 0 := by
  refine ⟨rfl, ?_⟩
  obtain ⟨live, hw, hc, -⟩ := managed_slots_owned_on_every_path
    (.while (.num 1) (.expr (.value 7 [])) : Stmt Int) {} _ [.alloca 0] _ [.ret (.tmp 2)] _
    [.ret (.tmp 2)] rfl (by simp [Insn.slotUses]) (by simp [Insn.slotUses])
    (.fall rfl <| .fall rfl <| .fall rfl <| .fall rfl <| .fall rfl <| .fall rfl <|
      .jump rfl rfl <| .fall rfl <| .fall rfl <| .jump rfl rfl <| .fall rfl <| .stop _)
  exact ⟨live, hw, hc 0⟩

end TurboScript.Mir
