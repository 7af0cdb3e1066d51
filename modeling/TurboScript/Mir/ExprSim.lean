import Mathlib.Algebra.Order.Ring.Int
import Mathlib.Data.List.Nodup
import TurboScript.Mir.Semantics

/- The lowered code of a numeric expression computes its value.

   For each lowering function one lemma says what the emitted code does wherever it
   is placed: as a value it ends after its last instruction with the value in its
   result register, as a condition it ends there or at the label, and it writes no
   variable's register and no temporary that was in use (`ValueSim`, `BranchSim`).
   Labels are counted: a fragment lowered while the label counter goes from `a` to `b`
   defines each label of that range at most once and no other (`LabelsIn`). -/
namespace TurboScript.Mir
open Lib Compiler Function

variable {D : Type}

/-! Labels. -/

def defs (l : Nat) (is : List (Insn D)) : Nat := (labels Insn.defines is).count l

@[simp] theorem defs_nil (l : Nat) : defs l ([] : List (Insn D)) = 0 := rfl

@[simp] theorem defs_cons (l : Nat) (i : Insn D) (is : List (Insn D)) :
    defs l (i :: is) = defs l is + if i.defines = some l then 1 else 0 := by
  unfold defs
  cases hi : i.defines with
  | none => simp [labels_cons_none hi]
  | some l' =>
    rw [labels_cons_some hi, List.count_cons]
    simp

@[simp] theorem defs_append (l : Nat) (is js : List (Insn D)) :
    defs l (is ++ js) = defs l is + defs l js := by
  simp only [defs, labels_append, List.count_append]

@[simp] theorem defs_stores (l : Nat) (xs : List Name) : defs l (stores xs : List (Insn D)) = 0 := by
  induction xs with
  | nil => rfl
  | cons x xs ih => simpa [stores, Insn.defines] using ih

@[simp] theorem defs_loads (l : Nat) (xs : List Name) : defs l (loads xs : List (Insn D)) = 0 := by
  induction xs with
  | nil => rfl
  | cons x xs ih => simpa [loads, Insn.defines] using ih

/-- Each label between `a` and `b` is defined at most once, no other at all. -/
def LabelsIn (a b : Nat) (is : List (Insn D)) : Prop :=
  ∀ l, defs l is ≤ 1 ∧ (1 ≤ defs l is → a ≤ l ∧ l < b)

variable {a b n : Nat} {is : List (Insn D)} {c : Compiler}

theorem LabelsIn.nil (h : ∀ l, defs l is = 0) :
    LabelsIn a b is := by
  intro l
  simp [h]

theorem LabelsIn.append {c : Nat} {js : List (Insn D)} (h₁ : LabelsIn a b is)
    (h₂ : LabelsIn b c js) (hab : a ≤ b) (hbc : b ≤ c) : LabelsIn a c (is ++ js) := by
  intro l
  have h₁ := h₁ l
  have h₂ := h₂ l
  rw [defs_append]
  omega

theorem LabelsIn.plain {js : List (Insn D)} (h : LabelsIn a b is) (hj : ∀ l, defs l js = 0) :
    LabelsIn a b (is ++ js) := by
  intro l
  simpa [hj] using h l

theorem LabelsIn.nodup (h : LabelsIn a b is) : (labels Insn.defines is).Nodup := by
  rw [List.nodup_iff_count_le_one]
  intro l
  exact (h l).1

/-! What lowering an expression leaves alone. -/

structure Frame (c c' : Compiler) : Prop where
  vars : c'.vars = c.vars
  slots : c'.slots = c.slots
  loopStack : c'.loopStack = c.loopStack
  ctxReg : c'.ctxReg = c.ctxReg
  tmp : c.tmpCount ≤ c'.tmpCount
  label : c.labelCount ≤ c'.labelCount

theorem Frame.refl (c : Compiler) : Frame c c := ⟨rfl, rfl, rfl, rfl, le_refl _, le_refl _⟩

theorem Frame.trans {c₁ c₂ c₃ : Compiler} (h : Frame c₁ c₂) (h' : Frame c₂ c₃) : Frame c₁ c₃ where
  vars := h'.vars.trans h.vars
  slots := h'.slots.trans h.slots
  loopStack := h'.loopStack.trans h.loopStack
  ctxReg := h'.ctxReg.trans h.ctxReg
  tmp := le_trans h.tmp h'.tmp
  label := le_trans h.label h'.label

theorem Frame.newTemp (c : Compiler) : Frame c c.newTemp.1 :=
  ⟨rfl, rfl, rfl, rfl, Nat.le_succ _, le_refl _⟩

theorem Frame.newLabel (c : Compiler) : Frame c c.newLabel.1 :=
  ⟨rfl, rfl, rfl, rfl, le_refl _, Nat.le_succ _⟩

structure Known (names : List Name) (c : Compiler) : Prop where
  mem : ∀ x ∈ names, x ∈ c.vars.map Var.name
  numeric : ∀ v ∈ c.vars, v.dynamic = false

theorem Known.of_frame {names : List Name} {c' : Compiler} (h : Known names c) (hf : Frame c c') :
    Known names c' :=
  ⟨by rw [hf.vars]; exact h.mem, by rw [hf.vars]; exact h.numeric⟩

theorem Known.mono {names names' : List Name} (h : Known names c) (hs : ∀ x ∈ names', x ∈ names) :
    Known names' c :=
  ⟨fun x hx => h.mem x (hs x hx), h.numeric⟩

theorem Known.left {xs ys : List Name} (h : Known (xs ++ ys) c) : Known xs c :=
  h.mono fun _ hx => List.mem_append_left _ hx

theorem Known.right {xs ys : List Name} (h : Known (xs ++ ys) c) : Known ys c :=
  h.mono fun _ hx => List.mem_append_right _ hx

theorem Known.getOrCreateReg {x : Name} (h : Known [x] c) : c.getOrCreateReg x = c := by
  obtain ⟨v, hv, rfl⟩ := List.mem_map.1 (h.mem x (List.mem_singleton.2 rfl))
  have hany : c.vars.any (fun u => u.name == v.name) = true :=
    List.any_eq_true.2 ⟨v, hv, by simp⟩
  simp [Compiler.getOrCreateReg, hany]

theorem Known.varIsDynamic {names : List Name} (h : Known names c) (x : Name) :
    c.varIsDynamic x = false := by
  simp only [Compiler.varIsDynamic, List.any_eq_false]
  intro v hv
  simp [h.numeric v hv]

/-- A register no later temporary overwrites. -/
def Stable (n : Nat) : Reg → Prop
  | .var _ => True
  | .tmp k => k < n

/-- Variables and the first `n` temporaries keep their values. -/
structure Keeps (n : Nat) (regs regs' : Reg → D) : Prop where
  var : ∀ x, regs' (.var x) = regs (.var x)
  tmp : ∀ k, k < n → regs' (.tmp k) = regs (.tmp k)

theorem Keeps.refl (n : Nat) (regs : Reg → D) : Keeps n regs regs := ⟨fun _ => rfl, fun _ _ => rfl⟩

theorem Keeps.trans {m : Nat} {r₁ r₂ r₃ : Reg → D} (h : Keeps n r₁ r₂) (h' : Keeps m r₂ r₃)
    (hnm : n ≤ m) : Keeps n r₁ r₃ where
  var := fun x => (h'.var x).trans (h.var x)
  tmp := fun k hk => (h'.tmp k (lt_of_lt_of_le hk hnm)).trans (h.tmp k hk)

theorem Keeps.stable {regs regs' : Reg → D} (h : Keeps n regs regs') {r : Reg} (hr : Stable n r) :
    regs' r = regs r := by
  cases r with
  | var x => exact h.var x
  | tmp k => exact h.tmp k hr

theorem Keeps.update {k : Nat} (h : n ≤ k) (regs : Reg → D) (v : D) :
    Keeps n regs (update regs (.tmp k) v) where
  var := fun x => update_of_ne (by simp) _ _
  tmp := fun j hj => update_of_ne (by simp; omega) _ _

theorem Keeps.vars {regs regs' : Reg → D} (h : Keeps n regs regs') :
    (fun x => regs' (.var x)) = fun x => regs (.var x) := funext h.var

/-! Simulation of a fragment, wherever it is placed. -/

theorem suffix_tail {js prog : List (Insn D)} (h : (is ++ js) <:+ prog) : js <:+ prog :=
  (List.suffix_append is js).trans h

section Sim

set_option linter.unusedSectionVars false
variable [LinearOrder D] [Zero D] [One D]

structure ValueSim (w : World D) (c c' : Compiler) (is : List (Insn D)) (r : Reg)
    (v : (Name → D) → D) : Prop where
  frame : Frame c c'
  stable : Stable c'.tmpCount r
  labels : LabelsIn c.labelCount c'.labelCount is
  run : ∀ prog post regs env, (Lib.labels Insn.defines prog).Nodup → (is ++ post) <:+ prog →
    ∃ regs', Reaches (mstep w prog) ⟨is ++ post, regs, env⟩ ⟨post, regs', env⟩ ∧
      regs' r = v (fun x => regs (.var x)) ∧ Keeps c.tmpCount regs regs'

/-- The branch goes to the label when `taken` holds of the variables. -/
structure BranchSim (w : World D) (c c' : Compiler) (is : List (Insn D)) (l : Label)
    (taken : (Name → D) → Bool) : Prop where
  frame : Frame c c'
  labels : LabelsIn c.labelCount c'.labelCount is
  run : ∀ prog post target regs env, (Lib.labels Insn.defines prog).Nodup → (is ++ post) <:+ prog →
    seek Insn.defines l prog = some target →
    ∃ regs', Reaches (mstep w prog) ⟨is ++ post, regs, env⟩
        ⟨if taken (fun x => regs (.var x)) then target else post, regs', env⟩ ∧
      Keeps c.tmpCount regs regs'

structure NumericLowering (w : World D) (L : Lowering D) (names : List Name)
    (v : (Name → D) → D) : Prop where
  value : ∀ {c c' is r}, Known names c → L.value c = .ok (c', is, r) → ValueSim w c c' is r v
  branchFalse : ∀ {l c c' is}, Known names c → L.branchFalse l c = .ok (c', is) →
    BranchSim w c c' is l (fun ρ => decide (v ρ = 0))
  branchTrue : ∀ {l c c' is}, Known names c → L.branchTrue l c = .ok (c', is) →
    BranchSim w c c' is l (fun ρ => decide (v ρ ≠ 0))

theorem CmpOp.eval_negate (op : CmpOp) (a b : D) : op.negate.eval a b = !op.eval a b := by
  rw [Bool.eq_iff_iff]
  cases op <;> simp [CmpOp.negate, CmpOp.eval]

variable {w : World D} {l : Label} {c c' : Compiler} {is : List (Insn D)} {r : Reg}
  {v vl vr : (Name → D) → D} {xs ys : List Name}

theorem mstep_branch {prog post target : List (Insn D)} {op : CmpOp} {a b : Operand D}
    {regs : Reg → D} {env : Env D} (ht : seek Insn.defines l prog = some target) :
    mstep w prog ⟨.branch op l a b :: post, regs, env⟩ =
      some ⟨if op.eval (a.eval regs) (b.eval regs) then target else post, regs, env⟩ := by
  simp only [mstep, ht, Option.map_some]
  split <;> simp_all

theorem mstep_jmp {prog post target : List (Insn D)} {regs : Reg → D} {env : Env D}
    (ht : seek Insn.defines l prog = some target) :
    mstep w prog ⟨.jmp l :: post, regs, env⟩ = some ⟨target, regs, env⟩ := by
  simp only [mstep, ht, Option.map_some]

theorem mstep_label (w : World D) (prog post : List (Insn D)) (l : Label) (regs : Reg → D) (env : Env D) :
    mstep w prog ⟨.label l :: post, regs, env⟩ = some ⟨post, regs, env⟩ := rfl

theorem ValueSim.congr {v' : (Name → D) → D} (h : ValueSim w c c' is r v) (hv : ∀ ρ, v ρ = v' ρ) :
    ValueSim w c c' is r v' := by
  rw [← funext hv]
  exact h

theorem BranchSim.congr {t t' : (Name → D) → Bool} (h : BranchSim w c c' is l t) (ht : ∀ ρ, t ρ = t' ρ) :
    BranchSim w c c' is l t' := by
  rw [← funext ht]
  exact h

/-! One lemma for each lowering function. -/

theorem ValueSim.snoc {c₁ : Compiler} {u : (Name → D) → D} (h : ValueSim w c c₁ is r v)
    {i : Insn D} (hi : i.defines = none)
    (hstep : ∀ prog post regs env, regs r = v (fun x => regs (.var x)) →
      mstep w prog ⟨i :: post, regs, env⟩ =
        some ⟨post, update regs (.tmp c₁.tmpCount) (u (fun x => regs (.var x))), env⟩) :
    ValueSim w c c₁.newTemp.1 (is ++ [i]) c₁.newTemp.2 u where
  frame := h.frame.trans (.newTemp c₁)
  stable := Nat.lt_succ_self _
  labels := h.labels.plain (by intro l; simp [hi])
  run := by
    intro prog post regs env hnd hs
    rw [List.append_assoc] at hs ⊢
    obtain ⟨regs₁, hr₁, hv₁, hk₁⟩ := h.run prog ([i] ++ post) regs env hnd hs
    have hv₂ : regs₁ r = v (fun x => regs₁ (.var x)) := by rw [hv₁, hk₁.vars]
    refine ⟨_, hr₁.trans (.one (hstep prog post regs₁ env hv₂)), ?_, ?_⟩
    · rw [hk₁.vars]
      exact update_self ..
    · exact hk₁.trans (.update (le_refl _) _ _) h.frame.tmp

theorem branchOn_sim {value : Compiler → Except String (Compiler × List (Insn D) × Reg)} {names : List Name}
    (hv : ∀ {c c' is r}, Known names c → value c = .ok (c', is, r) → ValueSim w c c' is r v)
    {op : CmpOp} (hk : Known names c) (h : branchOn value op l c = .ok (c', is)) :
    BranchSim w c c' is l (fun ρ => op.eval (v ρ) 0) := by
  simp only [branchOn, bind_ok] at h
  obtain ⟨⟨c₁, is₁, r⟩, h₁, h⟩ := h
  cases h
  have s := hv hk h₁
  refine ⟨s.frame, s.labels.plain fun l => rfl, ?_⟩
  intro prog post target regs env hnd hs ht
  simp only [List.append_assoc] at hs ⊢
  obtain ⟨regs₁, hr₁, hv₁, hk₁⟩ := s.run prog _ regs env hnd hs
  refine ⟨regs₁, hr₁.trans (.one ?_), hk₁⟩
  rw [List.singleton_append, mstep_branch ht]
  simp only [Operand.eval, hv₁]

theorem NumericLowering.ofValue
    {value : Compiler → Except String (Compiler × List (Insn D) × Reg)} {names : List Name}
    (hv : ∀ {c c' is r}, Known names c → value c = .ok (c', is, r) → ValueSim w c c' is r v) :
    NumericLowering w (Lowering.ofValue value) names v where
  value := hv
  branchFalse := branchOn_sim hv
  branchTrue := branchOn_sim hv

theorem sim_num (w : World D) (d : D) (names : List Name) :
    NumericLowering w (lowering (.num d)) names (fun _ => d) := by
  apply NumericLowering.ofValue
  intro c c' is r _ h
  cases h
  refine ⟨.newTemp c, Nat.lt_succ_self _, (.nil fun l => rfl), ?_⟩
  intro prog post regs env _ _
  exact ⟨_, .one rfl, update_self .., .update (le_refl _) _ _⟩

theorem sim_var (w : World D) (x : Name) : NumericLowering w (lowering (.var x)) [x] (fun ρ => ρ x) := by
  apply NumericLowering.ofValue
  intro c c' is r hk h
  simp only [lowerVar, hk.varIsDynamic, hk.getOrCreateReg] at h
  cases h
  exact ⟨.refl c, trivial, (.nil fun l => rfl), fun prog post regs env _ _ => ⟨regs, .refl _, rfl, .refl _ _⟩⟩

structure PairSim (w : World D) (c c' : Compiler) (is : List (Insn D)) (l r : Reg)
    (vl vr : (Name → D) → D) : Prop where
  frame : Frame c c'
  labels : LabelsIn c.labelCount c'.labelCount is
  run : ∀ prog post regs env, (Lib.labels Insn.defines prog).Nodup → (is ++ post) <:+ prog →
    ∃ regs', Reaches (mstep w prog) ⟨is ++ post, regs, env⟩ ⟨post, regs', env⟩ ∧
      regs' l = vl (fun x => regs (.var x)) ∧ regs' r = vr (fun x => regs (.var x)) ∧
      Keeps c.tmpCount regs regs'

theorem lowerPair_sim {L R : Lowering D} (hL : NumericLowering w L xs vl)
    (hR : NumericLowering w R ys vr) {l : Reg} (hk : Known (xs ++ ys) c)
    (h : lowerPair L R c = .ok (c', is, l, r)) : PairSim w c c' is l r vl vr := by
  simp only [lowerPair, bind_ok] at h
  obtain ⟨⟨c₁, is₁, l'⟩, h₁, ⟨c₂, is₂, r'⟩, h₂, h⟩ := h
  cases h
  have s₁ := hL.value hk.left h₁
  have s₂ := hR.value (hk.right.of_frame s₁.frame) h₂
  refine ⟨s₁.frame.trans s₂.frame, s₁.labels.append s₂.labels s₁.frame.label s₂.frame.label, ?_⟩
  intro prog post regs env hnd hs
  rw [List.append_assoc] at hs ⊢
  obtain ⟨regs₁, hr₁, hv₁, hk₁⟩ := s₁.run prog _ regs env hnd hs
  obtain ⟨regs₂, hr₂, hv₂, hk₂⟩ := s₂.run prog post regs₁ env hnd (suffix_tail hs)
  refine ⟨regs₂, hr₁.trans hr₂, ?_, ?_, hk₁.trans hk₂ s₁.frame.tmp⟩
  -- the second operand overwrites neither a variable nor the first operand's temporary
  · rw [hk₂.stable s₁.stable, hv₁]
  · rw [hv₂, hk₁.vars]

theorem sim_neg {e : Expr D} (hE : NumericLowering w (lowering e) xs v) :
    NumericLowering w (lowering (.neg e)) xs (fun ρ => w.arith .sub 0 (v ρ)) := by
  apply NumericLowering.ofValue
  intro c c' is r hk h
  simp only [lowerNeg, bind_ok] at h
  obtain ⟨⟨c₁, is₁, r₁⟩, h₁, h⟩ := h
  cases h
  refine (hE.value hk h₁).snoc rfl ?_
  intro prog post regs env hr
  simp only [mstep, Operand.eval, hr, newTemp]

theorem sim_plus {e : Expr D} (hE : NumericLowering w (lowering e) xs v) :
    NumericLowering w (lowering (.plus e)) xs v :=
  NumericLowering.ofValue hE.value

theorem sim_arith {op : ArithOp} {l r : Expr D} (hL : NumericLowering w (lowering l) xs vl)
    (hR : NumericLowering w (lowering r) ys vr) :
    NumericLowering w (lowering (.arith op l r)) (xs ++ ys) (fun ρ => w.arith op (vl ρ) (vr ρ)) := by
  apply NumericLowering.ofValue
  intro c c' is res hk h
  simp only [lowerArith, bind_ok] at h
  obtain ⟨⟨c₁, is₁, a, b⟩, h₁, h⟩ := h
  cases h
  have s := lowerPair_sim hL hR hk h₁
  refine ⟨s.frame.trans (.newTemp c₁), Nat.lt_succ_self _, s.labels.plain fun l => rfl, ?_⟩
  intro prog post regs env hnd hs
  rw [List.append_assoc] at hs ⊢
  obtain ⟨regs₁, hr₁, ha, hb, hk₁⟩ := s.run prog _ regs env hnd hs
  refine ⟨_, hr₁.trans (.one rfl), ?_, hk₁.trans (.update (le_refl _) _ _) s.frame.tmp⟩
  simp only [Operand.eval, ha, hb]
  exact update_self ..

theorem cmp_i2d (w : World D) (prog post : List (Insn D)) (op : CmpOp) (a b : Operand D) (i r n : Nat)
    (hi : n ≤ i) (hr : n ≤ r) (regs : Reg → D) (env : Env D) :
    ∃ regs', Reaches (mstep w prog) ⟨.cmp op (.tmp i) a b :: .i2d (.tmp r) (.tmp i) :: post, regs, env⟩
        ⟨post, regs', env⟩ ∧
      regs' (.tmp r) = ofBool (op.eval (a.eval regs) (b.eval regs)) ∧ Keeps n regs regs' := by
  refine ⟨_, .head rfl (.one rfl), ?_, (Keeps.update hi _ _).trans (.update hr _ _) (le_refl _)⟩
  simp [ofBool]

theorem sim_not [NeZero (1 : D)] {e : Expr D} (hE : NumericLowering w (lowering e) xs v) :
    NumericLowering w (lowering (.not e)) xs (fun ρ => ofBool (decide (v ρ = 0))) := by
  have hval : ∀ {c c' is r}, Known xs c → lowerNot (lowering e) c = .ok (c', is, r) →
      ValueSim w c c' is r (fun ρ => ofBool (decide (v ρ = 0))) := by
    intro c c' is r hk h
    simp only [lowerNot, bind_ok] at h
    obtain ⟨⟨c₁, is₁, r₁⟩, h₁, h⟩ := h
    cases h
    have s := hE.value hk h₁
    refine ⟨(s.frame.trans (.newTemp c₁)).trans (.newTemp _), ?_, s.labels.plain fun l => rfl, ?_⟩
    · show c₁.tmpCount < c₁.tmpCount + 1 + 1
      omega
    intro prog post regs env hnd hs
    rw [List.append_assoc] at hs ⊢
    obtain ⟨regs₁, hr₁, hv₁, hk₁⟩ := s.run prog _ regs env hnd hs
    obtain ⟨regs₂, hr₂, hv₂, hk₂⟩ := cmp_i2d w prog post .eq (.reg r₁) (.imm 0) (c₁.tmpCount + 1)
      c₁.tmpCount c₁.tmpCount (Nat.le_succ _) (le_refl _) regs₁ env
    refine ⟨regs₂, hr₁.trans hr₂, ?_, hk₁.trans hk₂ s.frame.tmp⟩
    rw [show c₁.newTemp.2 = .tmp c₁.tmpCount from rfl, hv₂]
    simp only [Operand.eval, CmpOp.eval, hv₁]
  refine { NumericLowering.ofValue hval with branchFalse := ?_ }
  intro l c c' is hk h
  refine (branchOn_sim hE.value hk h).congr fun ρ => ?_
  by_cases hv : v ρ = 0 <;> simp [CmpOp.eval, ofBool, hv]

theorem ofBool_eq_zero [NeZero (1 : D)] (b : Bool) : decide (ofBool b = (0 : D)) = !b := by
  cases b <;> simp [ofBool]

theorem sim_cmp [NeZero (1 : D)] {op : CmpOp} {l r : Expr D}
    (hL : NumericLowering w (lowering l) xs vl) (hR : NumericLowering w (lowering r) ys vr) :
    NumericLowering w (lowering (.cmp op l r)) (xs ++ ys) (fun ρ => ofBool (op.eval (vl ρ) (vr ρ))) := by
  have hbr : ∀ (op' : CmpOp) {lb c c' is}, Known (xs ++ ys) c →
      branchCmp op' (lowering l) (lowering r) lb c = .ok (c', is) →
      BranchSim w c c' is lb (fun ρ => op'.eval (vl ρ) (vr ρ)) := by
    intro op' lb c c' is hk h
    simp only [branchCmp, bind_ok] at h
    obtain ⟨⟨c₁, is₁, a, b⟩, h₁, h⟩ := h
    cases h
    have s := lowerPair_sim hL hR hk h₁
    refine ⟨s.frame, s.labels.plain fun l => rfl, ?_⟩
    intro prog post target regs env hnd hs ht
    rw [List.append_assoc] at hs ⊢
    obtain ⟨regs₁, hr₁, ha, hb, hk₁⟩ := s.run prog _ regs env hnd hs
    refine ⟨regs₁, hr₁.trans (.one ?_), hk₁⟩
    rw [List.singleton_append, mstep_branch ht]
    simp only [Operand.eval, ha, hb]
  refine ⟨?_, ?_, ?_⟩
  · intro c c' is res hk h
    simp only [lowering, lowerCmp, bind_ok] at h
    obtain ⟨⟨c₁, is₁, a, b⟩, h₁, h⟩ := h
    cases h
    have s := lowerPair_sim hL hR hk h₁
    refine ⟨(s.frame.trans (.newTemp c₁)).trans (.newTemp _), Nat.lt_succ_self _,
      s.labels.plain fun l => rfl, ?_⟩
    intro prog post regs env hnd hs
    rw [List.append_assoc] at hs ⊢
    obtain ⟨regs₁, hr₁, ha, hb, hk₁⟩ := s.run prog _ regs env hnd hs
    obtain ⟨regs₂, hr₂, hv₂, hk₂⟩ := cmp_i2d w prog post op (.reg a) (.reg b) c₁.tmpCount
      (c₁.tmpCount + 1) c₁.tmpCount (le_refl _) (Nat.le_succ _) regs₁ env
    refine ⟨regs₂, hr₁.trans hr₂, ?_, hk₁.trans hk₂ s.frame.tmp⟩
    rw [show c₁.newTemp.1.newTemp.2 = .tmp (c₁.tmpCount + 1) from rfl, hv₂]
    simp only [Operand.eval, ha, hb]
  · intro lb c c' is hk h
    refine (hbr op.negate hk h).congr fun ρ => ?_
    rw [ofBool_eq_zero, CmpOp.eval_negate]
  · intro lb c c' is hk h
    refine (hbr op hk h).congr fun ρ => ?_
    rw [decide_not, ofBool_eq_zero, Bool.not_not]

theorem lowerShortCircuit_sim {skip : CmpOp} {decided : D} {L R : Lowering D}
    (hL : NumericLowering w L xs vl) (hR : NumericLowering w R ys vr) {res : Reg}
    (hk : Known (xs ++ ys) c) (h : lowerShortCircuit skip decided L R c = .ok (c', is, res)) :
    ValueSim w c c' is res (fun ρ => if skip.eval (vl ρ) 0 then decided
      else ofBool (decide (vr ρ ≠ 0))) := by
  simp only [lowerShortCircuit, bind_ok] at h
  obtain ⟨⟨c₁, is₁, a⟩, h₁, ⟨c₂, is₂, b⟩, h₂, h⟩ := h
  cases h
  have s₁ := hL.value hk.left h₁
  have hf : Frame c₁ c₁.newTemp.1.newLabel.1.newLabel.1 :=
    ((Frame.newTemp c₁).trans (.newLabel _)).trans (.newLabel _)
  have s₂ := hR.value (hk.right.of_frame (s₁.frame.trans hf)) h₂
  have ht₂ : c₁.tmpCount + 1 ≤ c₂.tmpCount := s₂.frame.tmp
  have hl₂ : c₁.labelCount + 1 + 1 ≤ c₂.labelCount := s₂.frame.label
  refine ⟨((s₁.frame.trans hf).trans s₂.frame).trans (.newTemp _), ?_, ?_, ?_⟩
  · show c₁.tmpCount < c₂.tmpCount + 1
    omega
  · intro l
    have d₁ := s₁.labels l
    have d₂ := s₂.labels l
    have hle := s₁.frame.label
    simp only [newTemp, newLabel, defs_append, defs_cons, defs_nil, Insn.defines,
      Option.some.injEq, reduceCtorEq, if_false] at d₂ ⊢
    split_ifs <;> omega
  intro prog post regs env hnd hs
  simp only [List.append_assoc, List.cons_append, List.nil_append] at hs ⊢
  obtain ⟨regs₁, hr₁, hv₁, hk₁⟩ := s₁.run prog _ regs env hnd hs
  have hs₁ := suffix_tail hs
  have hs₂ := (List.suffix_cons _ _).trans hs₁
  have hs₃ := suffix_tail hs₂
  have hskip := ((List.suffix_cons _ _).trans ((List.suffix_cons _ _).trans (List.suffix_cons _ _))).trans hs₃
  have hend := ((List.suffix_cons _ _).trans (List.suffix_cons _ _)).trans hskip
  have hbr := hr₁.trans (.one (mstep_branch (seek_of_suffix hskip hnd rfl)))
  by_cases hd : skip.eval (vl fun x => regs (.var x)) 0 = true
  · -- decided by the left operand
    simp only [Operand.eval, hv₁, hd, if_true] at hbr ⊢
    refine ⟨_, hbr.trans (.head rfl (.head rfl (.one rfl))), update_self .., ?_⟩
    exact hk₁.trans (.update (le_refl _) _ _) s₁.frame.tmp
  · simp only [Operand.eval, hv₁, hd] at hbr ⊢
    obtain ⟨regs₂, hr₂, hv₂, hk₂⟩ := s₂.run prog _ regs₁ env hnd hs₂
    obtain ⟨regs₃, hr₃, hv₃, hk₃⟩ := cmp_i2d w prog
      (.jmp (c₁.labelCount + 1) :: .label c₁.labelCount :: .mov (.tmp c₁.tmpCount) (.imm decided) ::
        .label (c₁.labelCount + 1) :: post)
      .ne (.reg b) (.imm 0) c₂.tmpCount c₁.tmpCount c₁.tmpCount (by omega) (le_refl _) regs₂ env
    refine ⟨regs₃, hbr.trans (hr₂.trans (hr₃.trans (.head (mstep_jmp (seek_of_suffix hend hnd rfl)) (.one rfl)))), ?_, ?_⟩
    · rw [show c₁.newTemp.2 = .tmp c₁.tmpCount from rfl, hv₃]
      simp only [Operand.eval, CmpOp.eval, hv₂, hk₁.vars]
      rfl
    · have hk₂' : Keeps c₁.tmpCount regs₁ regs₂ := ⟨hk₂.var, fun k h => hk₂.tmp k (Nat.lt_succ_of_lt h)⟩
      exact (hk₁.trans hk₂' s₁.frame.tmp).trans hk₃ s₁.frame.tmp

theorem sim_and [NeZero (1 : D)] {l r : Expr D} (hL : NumericLowering w (lowering l) xs vl)
    (hR : NumericLowering w (lowering r) ys vr) :
    NumericLowering w (lowering (.and l r)) (xs ++ ys)
      (fun ρ => ofBool (decide (vl ρ ≠ 0 ∧ vr ρ ≠ 0))) := by
  have hval : ∀ {c c' is res}, Known (xs ++ ys) c →
      lowerShortCircuit .eq 0 (lowering l) (lowering r) c = .ok (c', is, res) →
      ValueSim w c c' is res (fun ρ => ofBool (decide (vl ρ ≠ 0 ∧ vr ρ ≠ 0))) := by
    intro c c' is res hk h
    refine (lowerShortCircuit_sim hL hR hk h).congr fun ρ => ?_
    by_cases h0 : vl ρ = 0 <;> simp [CmpOp.eval, ofBool, h0]
  refine { NumericLowering.ofValue hval with branchFalse := ?_ }
  intro lb c c' is hk h
  simp only [lowering, branchFalseAnd, bind_ok] at h
  obtain ⟨⟨c₁, is₁⟩, h₁, ⟨c₂, is₂⟩, h₂, h⟩ := h
  cases h
  have s₁ := hL.branchFalse hk.left h₁
  have s₂ := hR.branchFalse (hk.right.of_frame s₁.frame) h₂
  refine ⟨s₁.frame.trans s₂.frame, s₁.labels.append s₂.labels s₁.frame.label s₂.frame.label, ?_⟩
  intro prog post target regs env hnd hs ht
  rw [List.append_assoc] at hs ⊢
  obtain ⟨regs₁, hr₁, hk₁⟩ := s₁.run prog _ target regs env hnd hs ht
  by_cases hl0 : vl (fun x => regs (.var x)) = 0
  · refine ⟨regs₁, ?_, hk₁⟩
    simpa [hl0, ofBool] using hr₁
  · obtain ⟨regs₂, hr₂, hk₂⟩ := s₂.run prog post target regs₁ env hnd (suffix_tail hs) ht
    refine ⟨regs₂, ?_, hk₁.trans hk₂ s₁.frame.tmp⟩
    rw [hk₁.vars] at hr₂
    simp only [hl0, decide_false, Bool.false_eq_true, if_false] at hr₁
    rw [ofBool_eq_zero]
    by_cases hr0 : vr (fun x => regs (.var x)) = 0 <;> simpa [hl0, hr0] using hr₁.trans hr₂

theorem sim_or [NeZero (1 : D)] {l r : Expr D} (hL : NumericLowering w (lowering l) xs vl)
    (hR : NumericLowering w (lowering r) ys vr) :
    NumericLowering w (lowering (.or l r)) (xs ++ ys) (fun ρ => ofBool (decide (vl ρ ≠ 0 ∨ vr ρ ≠ 0))) := by
  have hval : ∀ {c c' is res}, Known (xs ++ ys) c →
      lowerShortCircuit .ne 1 (lowering l) (lowering r) c = .ok (c', is, res) →
      ValueSim w c c' is res (fun ρ => ofBool (decide (vl ρ ≠ 0 ∨ vr ρ ≠ 0))) := by
    intro c c' is res hk h
    refine (lowerShortCircuit_sim hL hR hk h).congr fun ρ => ?_
    by_cases h0 : vl ρ = 0 <;> simp [CmpOp.eval, ofBool, h0]
  refine { NumericLowering.ofValue hval with branchFalse := ?_ }
  intro lb c c' is hk h
  simp only [lowering, branchFalseOr, bind_ok] at h
  obtain ⟨⟨c₁, is₁⟩, h₁, ⟨c₂, is₂⟩, h₂, h⟩ := h
  cases h
  have hf := Frame.newLabel c
  have s₁ := hL.branchTrue (hk.left.of_frame hf) h₁
  have s₂ := hR.branchFalse (hk.right.of_frame (hf.trans s₁.frame)) h₂
  refine ⟨(hf.trans s₁.frame).trans s₂.frame, ?_, ?_⟩
  · intro k
    have d₁ := s₁.labels k
    have d₂ := s₂.labels k
    have l₁ := s₁.frame.label
    have l₂ := s₂.frame.label
    simp only [newLabel, defs_append, defs_cons, defs_nil, Insn.defines, Option.some.injEq] at d₁ l₁ ⊢
    split_ifs <;> omega
  intro prog post target regs env hnd hs ht
  simp only [List.append_assoc] at hs ⊢
  have htrue := seek_of_suffix (suffix_tail (suffix_tail hs)) hnd rfl
  obtain ⟨regs₁, hr₁, hk₁⟩ := s₁.run prog _ _ regs env hnd hs htrue
  rw [ofBool_eq_zero]
  by_cases hl0 : vl (fun x => regs (.var x)) = 0
  · obtain ⟨regs₂, hr₂, hk₂⟩ := s₂.run prog _ target regs₁ env hnd (suffix_tail hs) ht
    refine ⟨_, ?_, hk₁.trans hk₂ s₁.frame.tmp⟩
    rw [hk₁.vars] at hr₂
    have hr₁ : Reaches (mstep w prog) ⟨is₁ ++ (is₂ ++ ([.label c.newLabel.2] ++ post)), regs, env⟩
        ⟨is₂ ++ ([.label c.newLabel.2] ++ post), regs₁, env⟩ := by simpa [hl0] using hr₁
    by_cases hr0 : vr (fun x => regs (.var x)) = 0
    · simpa [hl0, hr0] using hr₁.trans hr₂
    · have hr₂ : Reaches (mstep w prog) ⟨is₂ ++ ([.label c.newLabel.2] ++ post), regs₁, env⟩
          ⟨.label c.newLabel.2 :: post, regs₂, env⟩ := by simpa [hr0] using hr₂
      simpa [hl0, hr0] using hr₁.trans (hr₂.trans (.one rfl))
  · refine ⟨regs₁, ?_, hk₁⟩
    have hr₁ : Reaches (mstep w prog) ⟨is₁ ++ (is₂ ++ ([.label c.newLabel.2] ++ post)), regs, env⟩
        ⟨.label c.newLabel.2 :: post, regs₁, env⟩ := by simpa [hl0] using hr₁
    simpa [hl0] using hr₁.trans (.one rfl)

theorem lowerElse_sim {E : Option (Lowering D)} {zs : List Name} {ve : (Name → D) → D} (hE : match E with
      | some L => NumericLowering w L zs ve
      | none => ve = fun _ => 0) {n : Nat} (hn : n < c.tmpCount) (hk : Known zs c)
    (h : lowerElse (.tmp n) E c = .ok (c', is)) :
    Frame c c' ∧ LabelsIn c.labelCount c'.labelCount is ∧
    ∀ prog post regs env, (Lib.labels Insn.defines prog).Nodup → (is ++ post) <:+ prog →
      ∃ regs', Reaches (mstep w prog) ⟨is ++ post, regs, env⟩ ⟨post, regs', env⟩ ∧
        regs' (.tmp n) = ve (fun x => regs (.var x)) ∧ Keeps n regs regs' := by
  cases E with
  | none =>
    cases h
    subst hE
    refine ⟨.refl c, .nil fun l => rfl, fun prog post regs env _ _ => ?_⟩
    exact ⟨_, .one rfl, update_self .., .update (le_refl _) _ _⟩
  | some L =>
    simp only [lowerElse, bind_ok] at h
    obtain ⟨⟨c₁, is₁, r⟩, h₁, h⟩ := h
    cases h
    have s := hE.value hk h₁
    refine ⟨s.frame, s.labels.plain fun l => rfl, fun prog post regs env hnd hs => ?_⟩
    rw [List.append_assoc] at hs ⊢
    obtain ⟨regs₁, hr₁, hv₁, hk₁⟩ := s.run prog _ regs env hnd hs
    refine ⟨_, hr₁.trans (.one rfl), ?_, ?_⟩
    · simp only [Operand.eval, hv₁]
      exact update_self ..
    · have hk₁' : Keeps n regs regs₁ := ⟨hk₁.var, fun k h => hk₁.tmp k (lt_trans h hn)⟩
      exact hk₁'.trans (.update (le_refl _) _ _) (le_refl _)

theorem lowerIte_sim {C T : Lowering D} {E : Option (Lowering D)} {zs : List Name}
    {vc vt ve : (Name → D) → D} (hC : NumericLowering w C xs vc) (hT : NumericLowering w T ys vt)
    (hE : match E with
      | some L => NumericLowering w L zs ve
      | none => ve = fun _ => 0) (hk : Known (xs ++ ys ++ zs) c)
    (h : lowerIte C T E c = .ok (c', is, r)) :
    ValueSim w c c' is r (fun ρ => if vc ρ ≠ 0 then vt ρ else ve ρ) := by
  simp only [lowerIte, bind_ok] at h
  obtain ⟨⟨c₁, is₁⟩, h₁, ⟨c₂, is₂, t⟩, h₂, ⟨c₃, is₃⟩, h₃, h⟩ := h
  cases h
  have hf : Frame c c.newTemp.1.newLabel.1.newLabel.1 :=
    ((Frame.newTemp c).trans (.newLabel _)).trans (.newLabel _)
  have s₁ := hC.branchFalse (hk.left.left.of_frame hf) h₁
  have s₂ := hT.value (hk.left.right.of_frame (hf.trans s₁.frame)) h₂
  have hf₂ := (hf.trans s₁.frame).trans s₂.frame
  have ht₁ : c.tmpCount + 1 ≤ c₁.tmpCount := s₁.frame.tmp
  have ht₂ := s₂.frame.tmp
  obtain ⟨f₃, l₃, run₃⟩ := lowerElse_sim hE (by omega) (hk.right.of_frame hf₂) h₃
  refine ⟨hf₂.trans f₃, ?_, ?_, ?_⟩
  · show c.tmpCount < c₃.tmpCount
    have := f₃.tmp
    omega
  · intro l
    have d₁ := s₁.labels l
    have d₂ := s₂.labels l
    have d₃ := l₃ l
    have e₁ := s₁.frame.label
    have e₂ := s₂.frame.label
    have e₃ := f₃.label
    simp only [newTemp, newLabel, defs_append, defs_cons, defs_nil, Insn.defines, Option.some.injEq,
      reduceCtorEq, if_false] at d₁ e₁ ⊢
    split_ifs <;> omega
  intro prog post regs env hnd hs
  simp only [List.append_assoc, List.cons_append, List.nil_append] at hs ⊢
  have hs₂ := suffix_tail hs
  have hs₃ := suffix_tail hs₂
  have helse := ((List.suffix_cons _ _).trans (List.suffix_cons _ _)).trans hs₃
  have hs₄ := (List.suffix_cons _ _).trans helse
  have hend := suffix_tail hs₄
  obtain ⟨regs₁, hr₁, hk₁⟩ := s₁.run prog _ _ regs env hnd hs (seek_of_suffix helse hnd rfl)
  have hk₁' : Keeps c.tmpCount regs regs₁ := ⟨hk₁.var, fun k h => hk₁.tmp k (Nat.lt_succ_of_lt h)⟩
  by_cases hc0 : vc (fun x => regs (.var x)) = 0
  · simp only [hc0, decide_true, if_true] at hr₁
    obtain ⟨regs₂, hr₂, hv₂, hk₂⟩ := run₃ prog _ regs₁ env hnd hs₄
    refine ⟨regs₂, hr₁.trans (.head rfl (hr₂.trans (.one rfl))), ?_, hk₁'.trans hk₂ (le_refl _)⟩
    simp only [hc0, ne_eq, not_true_eq_false, if_false]
    rw [show c.newTemp.2 = .tmp c.tmpCount from rfl, hv₂, hk₁.vars]
  · simp only [hc0, decide_false, Bool.false_eq_true, if_false] at hr₁
    obtain ⟨regs₂, hr₂, hv₂, hk₂⟩ := s₂.run prog _ regs₁ env hnd hs₂
    have hk₂' : Keeps c.tmpCount regs₁ regs₂ := ⟨hk₂.var, fun k h => hk₂.tmp k (by omega)⟩
    refine ⟨_, hr₁.trans (hr₂.trans (.head rfl (.head (mstep_jmp (seek_of_suffix hend hnd rfl))
      (.one rfl)))), ?_, (hk₁'.trans hk₂' (le_refl _)).trans (.update (le_refl _) _ _) (le_refl _)⟩
    simp only [Operand.eval, hv₂, hk₁.vars, hc0, ne_eq, not_false_eq_true, if_true]
    exact update_self ..

/-- **Numeric expressions are computed.** -/
theorem sim_expr [NeZero (1 : D)] (w : World D) : ∀ e : Expr D, e.numeric = true →
    NumericLowering w (lowering e) e.names (fun ρ => evalExpr w ρ e)
  | .num d, _ => sim_num w d _
  | .var x, _ => sim_var w x
  | .neg e, h => sim_neg (sim_expr w e h)
  | .not e, h => sim_not (sim_expr w e h)
  | .plus e, h => sim_plus (sim_expr w e h)
  | .arith op l r, h => by
    simp only [Expr.numeric, Bool.and_eq_true] at h
    exact sim_arith (sim_expr w l h.1) (sim_expr w r h.2)
  | .cmp op l r, h => by
    simp only [Expr.numeric, Bool.and_eq_true] at h
    exact sim_cmp (sim_expr w l h.1) (sim_expr w r h.2)
  | .and l r, h => by
    simp only [Expr.numeric, Bool.and_eq_true] at h
    exact sim_and (sim_expr w l h.1) (sim_expr w r h.2)
  | .or l r, h => by
    simp only [Expr.numeric, Bool.and_eq_true] at h
    exact sim_or (sim_expr w l h.1) (sim_expr w r h.2)
  | .ite c t e, h => by
    simp only [Expr.numeric, Bool.and_eq_true] at h
    exact NumericLowering.ofValue
      (lowerIte_sim (sim_expr w c h.1.1) (sim_expr w t h.1.2) (sim_expr w e h.2))
  | .iteNoElse c t, h => by
    simp only [Expr.numeric, Bool.and_eq_true] at h
    apply NumericLowering.ofValue
    intro k k' is r hk h'
    have hk' : Known (c.names ++ t.names ++ []) k := by simpa [Expr.names] using hk
    exact lowerIte_sim (E := none) (sim_expr w c h.1) (sim_expr w t h.2) rfl hk' h'
  | .assign _ _, h | .value _ _, h | .valueAssign _ _ _, h | .throw _ _, h | .call _ _ _ _, h
  | .unsupported _, h => by cases h

end Sim

end TurboScript.Mir
