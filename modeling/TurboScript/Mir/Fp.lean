import TurboScript.Exprtk.Ieee
import TurboScript.Mir.ExprSim

/- The MIR machine over doubles, and what the lowering functions of expressions compute on it.

   1. Stores, doubles and the machine. A helper gets its arguments by value, reads variables,
      binds any number of them and returns a number.
   2. Meanings: for each lowering function, the store it ends in and the value or the jump. A
      value is left in a temporary or is a variable's own register, whose content later code
      may still change (`Loc`). The compiler's variable table is an argument: it decides what is
      stored and loaded around a helper. -/
namespace TurboScript.Mir.Fp
open Lib Compiler Function Exprtk
open Exprtk (Ieee)

/-! Stores. -/

variable {D : Type}

structure Store (D : Type) where
  vars : Name → D
  env : Env D

def storeOf (regs : Reg → D) (env : Env D) : Store D := ⟨fun x => regs (.var x), env⟩

@[simp] theorem storeOf_env (regs : Reg → D) (env : Env D) : (storeOf regs env).env = env := rfl

@[simp] theorem storeOf_tmp (regs : Reg → D) (env : Env D) (k : Nat) (v : D) :
    storeOf (update regs (.tmp k) v) env = storeOf regs env := by
  unfold storeOf
  congr

theorem storeOf_var (regs : Reg → D) (env : Env D) (x : Name) (v : D) :
    storeOf (update regs (.var x) v) env = ⟨update (storeOf regs env).vars x v, env⟩ := by
  unfold storeOf
  congr
  funext y
  by_cases hy : y = x
  · subst hy
    simp
  · have hne : Reg.var y ≠ .var x := by simpa using hy
    simp [hy, hne]

/-- The first `n` temporaries keep their values. -/
def KeepsTmp (n : Nat) (regs regs' : Reg → D) : Prop := ∀ k < n, regs' (.tmp k) = regs (.tmp k)

theorem KeepsTmp.refl (n : Nat) (regs : Reg → D) : KeepsTmp n regs regs := fun _ _ => rfl

theorem KeepsTmp.trans {n m : Nat} {r₁ r₂ r₃ : Reg → D} (h₁ : KeepsTmp n r₁ r₂)
    (h₂ : KeepsTmp m r₂ r₃) (hnm : n ≤ m) : KeepsTmp n r₁ r₃ := by
  intro k hk
  rw [h₂ k (lt_of_lt_of_le hk hnm), h₁ k hk]

theorem KeepsTmp.tmp {n k : Nat} (hk : n ≤ k) (regs : Reg → D) (v : D) :
    KeepsTmp n regs (update regs (.tmp k) v) := by
  intro j hj
  exact update_of_ne (by simp; omega) _ _

theorem KeepsTmp.var (n : Nat) (regs : Reg → D) (x : Name) (v : D) :
    KeepsTmp n regs (update regs (.var x) v) := by
  intro j _
  exact update_of_ne (by simp) _ _

/-! Arithmetic and tests. -/

variable [Ieee D]

instance (priority := low) zeroOfDouble : Zero D := ⟨Double.ofInt 0⟩
instance (priority := low) oneOfDouble : One D := ⟨Double.ofInt 1⟩

def evalArith : ArithOp → D → D → D
  | .add => Double.add
  | .sub => Double.sub
  | .mul => Double.mul
  | .div => Double.div
  | .mod => Double.fmod
  | .pow => Double.pow

def evalCmp : CmpOp → D → D → Bool
  | .lt, a, b => Double.lt a b
  | .gt, a, b => Double.lt b a
  | .le, a, b => Double.le a b
  | .ge, a, b => Double.le b a
  | .eq, a, b => Double.eq a b
  | .ne, a, b => !Double.eq a b

def truth (b : Bool) : D := if b then 1 else 0

/-- A test against zero, as `DBEQ` makes it. -/
def isZero (x : D) : Bool := evalCmp .eq x 0

@[simp] theorem evalCmp_eq_zero (x : D) : evalCmp .eq x 0 = isZero x := rfl

@[simp] theorem evalCmp_ne_zero (x : D) : evalCmp .ne x 0 = !isZero x := rfl

@[simp] theorem isZero_truth (b : Bool) : isZero (truth b : D) = !b := by
  cases b with
  | false => exact Ieee.eq_zero
  | true => exact Ieee.one_ne_zero

/-- `ts_emit_sync_to_env`: the listed variables are stored. -/
def Store.writeBack (σ : Store D) : List Name → Store D
  | [] => σ
  | x :: xs => Store.writeBack { σ with env := update σ.env x (some (σ.vars x)) } xs

/-- `ts_emit_reload_from_env`: the listed variables are loaded. -/
def Store.reload (σ : Store D) : List Name → Store D
  | [] => σ
  | x :: xs => Store.reload { σ with vars := update σ.vars x (readVar σ.env x) } xs

/-! The machine. -/

abbrev Helper (D : Type) := NodeId → List D → (Name → D) → List (Name × D) × D

variable (h : Helper D)

def fstep (prog : List (Insn D)) : Conf D → Option (Conf D)
  | ⟨[], _, _⟩ => none
  | ⟨i :: c, regs, env⟩ =>
    match i with
    | .label _ | .slotDestroy _ | .alloca _ | .throwPoint => some ⟨c, regs, env⟩
    | .jmp l => (seek Insn.defines l prog).map (fun c' => ⟨c', regs, env⟩)
    | .branch op l a b =>
      if evalCmp op (a.eval regs) (b.eval regs) then
        (seek Insn.defines l prog).map (fun c' => ⟨c', regs, env⟩)
      else some ⟨c, regs, env⟩
    | .mov dst src => some ⟨c, update regs dst (src.eval regs), env⟩
    | .arith op dst a b =>
      some ⟨c, update regs dst (evalArith op (a.eval regs) (b.eval regs)), env⟩
    | .cmp op dst a b =>
      some ⟨c, update regs dst (truth (evalCmp op (a.eval regs) (b.eval regs))), env⟩
    | .i2d dst src => some ⟨c, update regs dst (regs src), env⟩
    | .loadVar dst x => some ⟨c, update regs dst (readVar env x), env⟩
    | .storeVar x src => some ⟨c, regs, update env x (some (regs src))⟩
    | .valueExpr dst node _ =>
      let (ws, v) := h node [] (readVar env)
      some ⟨c, update regs dst v, bindAll env ws⟩
    | .call dst node args =>
      let (ws, v) := h node (args.map regs) (readVar env)
      some ⟨c, update regs dst v, bindAll env ws⟩
    | .valueExprAssign dst x node =>
      let (ws, v) := h node [] (readVar env)
      some ⟨c, update regs dst v, update (bindAll env ws) x (some v)⟩
    | .ret _ => none

theorem fstep_branch {prog post target : List (Insn D)} {op : CmpOp} {l : Label}
    {a b : Operand D} {regs : Reg → D} {env : Env D} (ht : seek Insn.defines l prog = some target) :
    fstep h prog ⟨.branch op l a b :: post, regs, env⟩ =
      some ⟨if evalCmp op (a.eval regs) (b.eval regs) then target else post, regs, env⟩ := by
  simp only [fstep, ht, Option.map_some]
  split <;> simp_all

theorem fstep_jmp {prog post target : List (Insn D)} {l : Label} {regs : Reg → D}
    {env : Env D} (ht : seek Insn.defines l prog = some target) :
    fstep h prog ⟨.jmp l :: post, regs, env⟩ = some ⟨target, regs, env⟩ := by
  simp only [fstep, ht, Option.map_some]

theorem run_stores (prog post : List (Insn D)) (regs : Reg → D) : ∀ (xs : List Name) (env : Env D),
    ∃ env', Reaches (fstep h prog) ⟨stores xs ++ post, regs, env⟩ ⟨post, regs, env'⟩ ∧
      storeOf regs env' = (storeOf regs env).writeBack xs
  | [], env => ⟨env, .refl _, rfl⟩
  | x :: xs, env => by
    obtain ⟨env', hr, he⟩ := run_stores prog post regs xs (update env x (some (regs (.var x))))
    exact ⟨env', .head rfl hr, he⟩

theorem run_loads (prog post : List (Insn D)) (env : Env D) : ∀ (xs : List Name) (regs : Reg → D),
    ∃ regs', Reaches (fstep h prog) ⟨loads xs ++ post, regs, env⟩ ⟨post, regs', env⟩ ∧
      storeOf regs' env = (storeOf regs env).reload xs ∧ ∀ n, KeepsTmp n regs regs'
  | [], regs => ⟨regs, .refl _, rfl, fun n => .refl n regs⟩
  | x :: xs, regs => by
    obtain ⟨regs', hr, he, hk⟩ := run_loads prog post env xs (update regs (.var x) (readVar env x))
    refine ⟨regs', .head rfl hr, ?_, fun n => (KeepsTmp.var n regs x _).trans (hk n) (le_refl n)⟩
    rw [he, storeOf_var]
    rfl

/-! Meanings. -/

inductive Loc (D : Type)
  | var (x : Name)
  | val (v : D)

def Loc.read (l : Loc D) (σ : Store D) : D :=
  match l with
  | .var x => σ.vars x
  | .val v => v

abbrev Vars := List Var

def Vars.create (vs : Vars) (x : Name) : Vars :=
  if vs.any (fun v => v.name == x) then vs else vs ++ [{ name := x }]

def Vars.update (vs : Vars) (x : Name) (f : Var → Var) : Vars :=
  vs.map fun v => if v.name = x then f v else v

def Vars.isDynamic (vs : Vars) (x : Name) : Bool := vs.any fun v => v.name == x && v.dynamic

def Vars.dirtyNames (vs : Vars) : List Name := (vs.filter fun v => !v.dynamic && v.dirty).map Var.name

def Vars.loadedNames (vs : Vars) : List Name := (vs.filter fun v => !v.dynamic && !v.bound).map Var.name

def Vars.synced (vs : Vars) : Vars := vs.map fun v => if v.dynamic then v else { v with dirty := false }

def Vars.reloaded (vs : Vars) : Vars := vs.map fun v => { v with dirty := false }

/-- What the three lowering functions of an expression compute: `after` is the variable table
they leave, a branch says whether it jumps. -/
structure Meaning (D : Type) where
  after : Vars → Vars
  value : Vars → Store D → Store D × Loc D
  branchFalse : Vars → Store D → Store D × Bool
  branchTrue : Vars → Store D → Store D × Bool

/-- The number a value is, read where the value's code ends. -/
def Meaning.number (M : Meaning D) (vs : Vars) (σ : Store D) : D :=
  (M.value vs σ).2.read (M.value vs σ).1

def testValue (value : Vars → Store D → Store D × Loc D) (op : CmpOp) (vs : Vars) (σ : Store D) :
    Store D × Bool :=
  let (σ', l) := value vs σ
  (σ', evalCmp op (l.read σ') 0)

def Meaning.ofValue (after : Vars → Vars) (value : Vars → Store D → Store D × Loc D) : Meaning D where
  after := after
  value := value
  branchFalse := testValue value .eq
  branchTrue := testValue value .ne

def valueNum (d : D) (_ : Vars) (σ : Store D) : Store D × Loc D := (σ, .val d)

def afterVar (x : Name) (vs : Vars) : Vars := if vs.isDynamic x then vs else vs.create x

def valueVar (x : Name) (vs : Vars) (σ : Store D) : Store D × Loc D :=
  (σ, if vs.isDynamic x then .val (readVar σ.env x) else .var x)

/-- A number computed from the value of one operand. -/
def valueMap (f : D → D) (E : Meaning D) (vs : Vars) (σ : Store D) : Store D × Loc D :=
  let (σ', l) := E.value vs σ
  (σ', .val (f (l.read σ')))

/-- Two operands in order. Both are read after the second. -/
def operands (L R : Meaning D) (vs : Vars) (σ : Store D) : Store D × D × D :=
  let (σ₁, l) := L.value vs σ
  let (σ₂, r) := R.value (L.after vs) σ₁
  (σ₂, l.read σ₂, r.read σ₂)

def valueBinary (f : D → D → D) (L R : Meaning D) (vs : Vars) (σ : Store D) : Store D × Loc D :=
  let (σ', l, r) := operands L R vs σ
  (σ', .val (f l r))

def testOperands (op : CmpOp) (L R : Meaning D) (vs : Vars) (σ : Store D) : Store D × Bool :=
  let (σ', l, r) := operands L R vs σ
  (σ', evalCmp op l r)

def valueShortCircuit (skip : CmpOp) (decided : D) (L R : Meaning D) (vs : Vars) (σ : Store D) :
    Store D × Loc D :=
  let (σ₁, l) := L.value vs σ
  if evalCmp skip (l.read σ₁) 0 then (σ₁, .val decided)
  else
    let (σ₂, r) := R.value (L.after vs) σ₁
    (σ₂, .val (truth (!isZero (r.read σ₂))))

def testFalseAnd (L R : Meaning D) (vs : Vars) (σ : Store D) : Store D × Bool :=
  let (σ₁, jump) := L.branchFalse vs σ
  if jump then (σ₁, true) else R.branchFalse (L.after vs) σ₁

def testFalseOr (L R : Meaning D) (vs : Vars) (σ : Store D) : Store D × Bool :=
  let (σ₁, jump) := L.branchTrue vs σ
  if jump then (σ₁, false) else R.branchFalse (L.after vs) σ₁

def asNumber (p : Store D × Loc D) : Store D × Loc D := (p.1, .val (p.2.read p.1))

def valueIte (C T : Meaning D) (E : Option (Meaning D)) (vs : Vars) (σ : Store D) : Store D × Loc D :=
  let (σ₁, jump) := C.branchFalse vs σ
  if jump then
    match E with
    | some E => asNumber (E.value (T.after (C.after vs)) σ₁)
    | none => (σ₁, .val 0)
  else asNumber (T.value (C.after vs) σ₁)

def afterIte (C T : Meaning D) (E : Option (Meaning D)) (vs : Vars) : Vars :=
  match E with
  | some E => E.after (T.after (C.after vs))
  | none => T.after (C.after vs)

def afterAssign (x : Name) (E : Meaning D) (vs : Vars) : Vars :=
  (((E.after vs).create x).update x fun v => { v with dirty := true }).update x fun v =>
    { v with dynamic := false }

def valueAssign (x : Name) (E : Meaning D) (vs : Vars) (σ : Store D) : Store D × Loc D :=
  let (σ', l) := E.value vs σ
  ({ σ' with vars := update σ'.vars x (l.read σ') }, .var x)

def afterHelper (sync reload : Bool) (vs : Vars) : Vars :=
  let vs := if sync then vs.synced else vs
  if reload then vs.reloaded else vs

/-- A call of a helper, with the write-back and the reload around it. -/
def valueHelper (node : NodeId) (sync reload : Bool) (args : List D) (vs : Vars) (σ : Store D) :
    Store D × Loc D :=
  let σ := if sync then σ.writeBack vs.dirtyNames else σ
  let (ws, v) := h node args (readVar σ.env)
  let σ := { σ with env := bindAll σ.env ws }
  let vs := if sync then vs.synced else vs
  (if reload then σ.reload vs.loadedNames else σ, .val v)

def afterHelperAssign (x : Name) (vs : Vars) : Vars :=
  (((vs.create x).synced).update x fun v => { v with dirty := false }).update x fun v =>
    { v with dynamic := true }

def valueHelperAssign (x : Name) (node : NodeId) (vs : Vars) (σ : Store D) : Store D × Loc D :=
  let σ := σ.writeBack (vs.create x).dirtyNames
  let (ws, v) := h node [] (readVar σ.env)
  (⟨update σ.vars x v, update (bindAll σ.env ws) x (some v)⟩, .var x)

structure ArgsMeaning (D : Type) where
  after : Vars → Vars
  values : Vars → Store D → Store D × List (Loc D)

def ArgsMeaning.nil : ArgsMeaning D := ⟨id, fun _ σ => (σ, [])⟩

def ArgsMeaning.cons (E : Meaning D) (A : ArgsMeaning D) : ArgsMeaning D where
  after vs := A.after (E.after vs)
  values vs σ :=
    let (σ₁, l) := E.value vs σ
    let (σ₂, ls) := A.values (E.after vs) σ₁
    (σ₂, l :: ls)

def valueCall (node : NodeId) (sync reload : Bool) (A : ArgsMeaning D) (vs : Vars) (σ : Store D) :
    Store D × Loc D :=
  let (σ', ls) := A.values vs σ
  valueHelper h node sync reload (ls.map fun l => l.read σ') (A.after vs) σ'

/-! The emitted code does what the meaning says. -/

section Code

variable {h} {c c' : Compiler} {is : List (Insn D)} {r : Reg} {l : Label}

def Holds (n : Nat) (r : Reg) (regs : Reg → D) : Loc D → Prop
  | .var x => r = .var x
  | .val v => ∃ k < n, r = .tmp k ∧ regs (.tmp k) = v

variable {n : Nat} {f : Vars → Vars} {js : List (Insn D)} {E M N : Meaning D} {L R : Lowering D}

omit [Ieee D] in
theorem Holds.tmp {k : Nat} {regs : Reg → D} {v : D} (hk : k < n) (hv : regs (.tmp k) = v) :
    Holds n (.tmp k) regs (.val v) := ⟨k, hk, rfl, hv⟩

omit [Ieee D] in
theorem Holds.read {regs : Reg → D} {p : Loc D} (hp : Holds n r regs p) (env : Env D) :
    regs r = p.read (storeOf regs env) := by
  cases p with
  | var x =>
    rw [show r = .var x from hp]
    rfl
  | val v =>
    obtain ⟨k, -, rfl, hv⟩ := hp
    exact hv

omit [Ieee D] in
theorem Holds.keep {m : Nat} {regs regs' : Reg → D} {p : Loc D} (hp : Holds n r regs p)
    (hk : KeepsTmp n regs regs') (hnm : n ≤ m) : Holds m r regs' p := by
  cases p with
  | var x => exact hp
  | val v =>
    obtain ⟨k, hkn, rfl, hv⟩ := hp
    exact ⟨k, lt_of_lt_of_le hkn hnm, rfl, (hk k hkn).trans hv⟩

structure Grows (after : Vars → Vars) (c c' : Compiler) (is : List (Insn D)) : Prop where
  vars : c'.vars = after c.vars
  tmp : c.tmpCount ≤ c'.tmpCount
  label : c.labelCount ≤ c'.labelCount
  labels : LabelsIn c.labelCount c'.labelCount is

structure ValueRun (h : Helper D) (after : Vars → Vars) (value : Vars → Store D → Store D × Loc D)
    (c c' : Compiler) (is : List (Insn D)) (r : Reg) : Prop extends Grows after c c' is where
  run : ∀ prog post regs env, (Lib.labels Insn.defines prog).Nodup → (is ++ post) <:+ prog →
    ∃ regs' env', Reaches (fstep h prog) ⟨is ++ post, regs, env⟩ ⟨post, regs', env'⟩ ∧
      storeOf regs' env' = (value c.vars (storeOf regs env)).1 ∧
      Holds c'.tmpCount r regs' (value c.vars (storeOf regs env)).2 ∧ KeepsTmp c.tmpCount regs regs'

structure BranchRun (h : Helper D) (after : Vars → Vars) (test : Vars → Store D → Store D × Bool)
    (l : Label) (c c' : Compiler) (is : List (Insn D)) : Prop extends Grows after c c' is where
  run : ∀ prog post target regs env, (Lib.labels Insn.defines prog).Nodup → (is ++ post) <:+ prog →
    seek Insn.defines l prog = some target →
    ∃ regs' env', Reaches (fstep h prog) ⟨is ++ post, regs, env⟩
        ⟨if (test c.vars (storeOf regs env)).2 then target else post, regs', env'⟩ ∧
      storeOf regs' env' = (test c.vars (storeOf regs env)).1 ∧ KeepsTmp c.tmpCount regs regs'

abbrev ValueCode (D : Type) := Compiler → Except String (Compiler × List (Insn D) × Reg)

/-- A function that compiles a value compiles one of this meaning. -/
def Yields (h : Helper D) (f : ValueCode D) (after : Vars → Vars)
    (value : Vars → Store D → Store D × Loc D) : Prop :=
  ∀ {c c' is r}, f c = .ok (c', is, r) → ValueRun h after value c c' is r

def Branches (h : Helper D) (f : Label → Compiler → Except String (Compiler × List (Insn D)))
    (after : Vars → Vars) (test : Vars → Store D → Store D × Bool) : Prop :=
  ∀ {l c c' is}, f l c = .ok (c', is) → BranchRun h after test l c c' is

structure Simulates (h : Helper D) (L : Lowering D) (M : Meaning D) : Prop where
  value : Yields h L.value M.after M.value
  branchFalse : Branches h L.branchFalse M.after M.branchFalse
  branchTrue : Branches h L.branchTrue M.after M.branchTrue

/-! Values. -/

omit [Ieee D] in
theorem Grows.trans {g : Vars → Vars} {c₁ c₂ c₃ : Compiler} {is : List (Insn D)}
    (h₁ : Grows f c₁ c₂ is) (h₂ : Grows g c₂ c₃ js) :
    Grows (fun vs => g (f vs)) c₁ c₃ (is ++ js) where
  vars := by rw [h₂.vars, h₁.vars]
  tmp := h₁.tmp.trans h₂.tmp
  label := h₁.label.trans h₂.label
  labels := h₁.labels.append h₂.labels h₁.label h₂.label

omit [Ieee D] in
theorem Grows.plain {g : Vars → Vars} {c₁ : Compiler} (h₁ : Grows f c c₁ is)
    (hj : ∀ l, defs l js = 0) (hv : c'.vars = g (f c.vars)) (ht : c₁.tmpCount ≤ c'.tmpCount)
    (hl : c'.labelCount = c₁.labelCount) : Grows (fun vs => g (f vs)) c c' (is ++ js) where
  vars := hv
  tmp := h₁.tmp.trans ht
  label := hl ▸ h₁.label
  labels := by
    rw [hl]
    exact h₁.labels.plain hj

omit [Ieee D] in
theorem Grows.newTemp {c₁ : Compiler} (h₁ : Grows f c c₁ is) (hj : ∀ l, defs l js = 0) :
    Grows f c c₁.newTemp.1 (is ++ js) :=
  h₁.plain (g := id) hj h₁.vars (Nat.le_succ _) rfl

theorem Yields.snoc (hE : Yields h L.value E.after E.value) {g : D → D} {f : ValueCode D}
    (ins : Reg → Reg → Insn D) (hf : ∀ c, f c = L.value c >>= fun (c₁, is, r) =>
      .ok (c₁.newTemp.1, is ++ [ins c₁.newTemp.2 r], c₁.newTemp.2))
    (hi : ∀ q p, (ins q p).defines = none)
    (hstep : ∀ prog post q p regs env, fstep h prog ⟨ins q p :: post, regs, env⟩ =
      some ⟨post, update regs q (g (regs p)), env⟩) :
    Yields h f E.after (valueMap g E) := by
  intro c c' is r hc
  rw [hf, bind_ok] at hc
  obtain ⟨⟨c₁, is₁, r₁⟩, h₁, hc⟩ := hc
  cases hc
  have s := hE h₁
  refine ⟨s.toGrows.newTemp fun l => by simp [hi], ?_⟩
  intro prog post regs env hnd hs
  rw [List.append_assoc] at hs ⊢
  obtain ⟨regs₁, env₁, hr₁, hσ₁, hp₁, hk₁⟩ := s.run prog _ regs env hnd hs
  refine ⟨_, env₁, hr₁.trans (.one (hstep ..)), ?_, ?_, hk₁.trans (.tmp (le_refl _) _ _) s.tmp⟩
  · rw [show c₁.newTemp.2 = .tmp c₁.tmpCount from rfl, storeOf_tmp]
    exact hσ₁
  · refine Holds.tmp (Nat.lt_succ_self _) ?_
    rw [show c₁.newTemp.2 = .tmp c₁.tmpCount from rfl, update_self, hp₁.read env₁, hσ₁]

theorem neg_yields (hE : Yields h L.value E.after E.value) :
    Yields h (lowerNeg L) E.after (valueMap (fun x => Double.sub 0 x) E) :=
  hE.snoc (fun q p => .arith .sub q (.imm 0) (.reg p)) (fun _ => rfl) (fun _ _ => rfl)
    fun _ _ _ _ _ _ => rfl

def lowerNum (d : D) : ValueCode D := fun c =>
  .ok (c.newTemp.1, [.mov c.newTemp.2 (.imm d)], c.newTemp.2)

theorem num_yields (d : D) : Yields h (lowerNum d) id (valueNum d) := by
  intro c c' is r hc
  cases hc
  refine ⟨⟨rfl, Nat.le_succ _, le_refl _, .nil fun l => rfl⟩, ?_⟩
  intro prog post regs env _ _
  refine ⟨_, env, .one rfl, storeOf_tmp .., ?_, .tmp (le_refl _) _ _⟩
  exact Holds.tmp (Nat.lt_succ_self _) (update_self ..)

theorem getOrCreateReg_vars (c : Compiler) (x : Name) :
    (c.getOrCreateReg x).vars = Vars.create c.vars x := by
  unfold getOrCreateReg Vars.create
  split <;> rfl

theorem getOrCreateReg_counts (c : Compiler) (x : Name) :
    (c.getOrCreateReg x).tmpCount = c.tmpCount ∧ (c.getOrCreateReg x).labelCount = c.labelCount := by
  unfold getOrCreateReg
  split <;> exact ⟨rfl, rfl⟩

theorem var_yields (x : Name) : Yields h (lowerVar x) (afterVar x) (valueVar x) := by
  intro c c' is r hc
  unfold lowerVar at hc
  by_cases hd : c.varIsDynamic x = true
  · have hd' : Vars.isDynamic c.vars x = true := hd
    rw [if_pos hd] at hc
    cases hc
    refine ⟨⟨by simp [afterVar, hd'], Nat.le_succ _, le_refl _, .nil fun l => rfl⟩, ?_⟩
    intro prog post regs env _ _
    refine ⟨_, env, .one rfl, storeOf_tmp .., ?_, .tmp (le_refl _) _ _⟩
    simp only [valueVar, hd', if_true]
    exact Holds.tmp (Nat.lt_succ_self _) (update_self ..)
  · have hd' : Vars.isDynamic c.vars x = false := Bool.eq_false_iff.2 hd
    rw [if_neg hd] at hc
    cases hc
    obtain ⟨ht, hl⟩ := getOrCreateReg_counts c x
    refine ⟨⟨?_, ht.ge, hl.ge, .nil fun l => rfl⟩, ?_⟩
    · simp [afterVar, hd', getOrCreateReg_vars]
    · intro prog post regs env _ _
      refine ⟨regs, env, .refl _, rfl, ?_, .refl _ _⟩
      simp only [valueVar, hd']
      exact rfl

theorem pair_run (hL : Yields h L.value M.after M.value) (hR : Yields h R.value N.after N.value)
    {a b : Reg} (hc : lowerPair L R c = .ok (c', is, a, b)) :
    Grows (fun vs => N.after (M.after vs)) c c' is ∧
    ∀ prog post regs env, (Lib.labels Insn.defines prog).Nodup → (is ++ post) <:+ prog →
      ∃ regs' env', Reaches (fstep h prog) ⟨is ++ post, regs, env⟩ ⟨post, regs', env'⟩ ∧
        operands M N c.vars (storeOf regs env) = (storeOf regs' env', regs' a, regs' b) ∧
        KeepsTmp c.tmpCount regs regs' := by
  simp only [lowerPair, bind_ok] at hc
  obtain ⟨⟨c₁, is₁, a'⟩, h₁, ⟨c₂, is₂, b'⟩, h₂, hc⟩ := hc
  cases hc
  have s₁ := hL h₁
  have s₂ := hR h₂
  refine ⟨s₁.toGrows.trans s₂.toGrows, ?_⟩
  intro prog post regs env hnd hs
  rw [List.append_assoc] at hs ⊢
  obtain ⟨regs₁, env₁, hr₁, hσ₁, hp₁, hk₁⟩ := s₁.run prog _ regs env hnd hs
  obtain ⟨regs₂, env₂, hr₂, hσ₂, hp₂, hk₂⟩ := s₂.run prog post regs₁ env₁ hnd (suffix_tail hs)
  refine ⟨regs₂, env₂, hr₁.trans hr₂, ?_, hk₁.trans hk₂ s₁.tmp⟩
  rw [s₁.vars, hσ₁] at hσ₂ hp₂
  simp only [operands, ← hσ₂, ← hp₂.read env₂, ← (hp₁.keep hk₂ s₂.tmp).read env₂]

theorem arith_yields (hL : Yields h L.value M.after M.value)
    (hR : Yields h R.value N.after N.value) (op : ArithOp) :
    Yields h (lowerArith op L R) (fun vs => N.after (M.after vs)) (valueBinary (evalArith op) M N) := by
  intro c c' is res hc
  simp only [lowerArith, bind_ok] at hc
  obtain ⟨⟨c₁, is₁, a, b⟩, h₁, hc⟩ := hc
  cases hc
  obtain ⟨hg, hrun⟩ := pair_run hL hR h₁
  refine ⟨hg.newTemp fun l => rfl, ?_⟩
  intro prog post regs env hnd hs
  rw [List.append_assoc] at hs ⊢
  obtain ⟨regs₁, env₁, hr₁, he₁, hk₁⟩ := hrun prog _ regs env hnd hs
  have hv : valueBinary (evalArith op) M N c.vars (storeOf regs env) =
      (storeOf regs₁ env₁, .val (evalArith op (regs₁ a) (regs₁ b))) := by
    simp only [valueBinary, he₁]
  rw [hv]
  refine ⟨_, env₁, hr₁.trans (.one rfl), storeOf_tmp .., ?_, hk₁.trans (.tmp (le_refl _) _ _) hg.tmp⟩
  exact Holds.tmp (Nat.lt_succ_self _) (update_self ..)

theorem run_cmp (prog post : List (Insn D)) (op : CmpOp) (a b : Operand D) {i q : Nat}
    (hi : n ≤ i) (hq : n ≤ q) (regs : Reg → D) (env : Env D) :
    ∃ regs', Reaches (fstep h prog) ⟨.cmp op (.tmp i) a b :: .i2d (.tmp q) (.tmp i) :: post, regs, env⟩
        ⟨post, regs', env⟩ ∧ storeOf regs' env = storeOf regs env ∧
      regs' (.tmp q) = truth (evalCmp op (a.eval regs) (b.eval regs)) ∧ KeepsTmp n regs regs' := by
  refine ⟨_, .head rfl (.one rfl), by rw [storeOf_tmp, storeOf_tmp], ?_,
    (KeepsTmp.tmp hi _ _).trans (.tmp hq _ _) (le_refl _)⟩
  rw [update_self, update_self]

theorem cmp_yields (hL : Yields h L.value M.after M.value) (hR : Yields h R.value N.after N.value)
    (op : CmpOp) :
    Yields h (lowerCmp op L R) (fun vs => N.after (M.after vs))
      (valueBinary (fun a b => truth (evalCmp op a b)) M N) := by
  intro c c' is res hc
  simp only [lowerCmp, bind_ok] at hc
  obtain ⟨⟨c₁, is₁, a, b⟩, h₁, hc⟩ := hc
  cases hc
  obtain ⟨hg, hrun⟩ := pair_run hL hR h₁
  refine ⟨hg.plain (g := id) (fun l => rfl) hg.vars (by simp only [newTemp]; omega) rfl, ?_⟩
  intro prog post regs env hnd hs
  rw [List.append_assoc] at hs ⊢
  obtain ⟨regs₁, env₁, hr₁, he₁, hk₁⟩ := hrun prog _ regs env hnd hs
  obtain ⟨regs₂, hr₂, hσ₂, hv₂, hk₂⟩ := run_cmp (h := h) prog post op (.reg a) (.reg b)
    (le_refl c₁.tmpCount) (Nat.le_succ c₁.tmpCount) regs₁ env₁
  have hv : valueBinary (fun a b => truth (evalCmp op a b)) M N c.vars (storeOf regs env) =
      (storeOf regs₁ env₁, .val (truth (evalCmp op (regs₁ a) (regs₁ b)))) := by
    simp only [valueBinary, he₁]
  rw [hv]
  exact ⟨regs₂, env₁, hr₁.trans hr₂, hσ₂, Holds.tmp (Nat.lt_succ_self _) hv₂, hk₁.trans hk₂ hg.tmp⟩

theorem not_yields (hE : Yields h L.value E.after E.value) :
    Yields h (lowerNot L) E.after (valueMap (fun x => truth (isZero x)) E) := by
  intro c c' is res hc
  simp only [lowerNot, bind_ok] at hc
  obtain ⟨⟨c₁, is₁, a⟩, h₁, hc⟩ := hc
  cases hc
  have s := hE h₁
  refine ⟨s.toGrows.plain (g := id) (fun l => rfl) s.vars (by simp only [newTemp]; omega) rfl, ?_⟩
  intro prog post regs env hnd hs
  rw [List.append_assoc] at hs ⊢
  obtain ⟨regs₁, env₁, hr₁, hσ₁, hp₁, hk₁⟩ := s.run prog _ regs env hnd hs
  obtain ⟨regs₂, hr₂, hσ₂, hv₂, hk₂⟩ := run_cmp (h := h) prog post .eq (.reg a) (.imm 0)
    (Nat.le_succ c₁.tmpCount) (le_refl c₁.tmpCount) regs₁ env₁
  refine ⟨regs₂, env₁, hr₁.trans hr₂, hσ₂.trans hσ₁, ?_, hk₁.trans hk₂ s.tmp⟩
  refine Holds.tmp (Nat.lt_succ_of_lt (Nat.lt_succ_self _)) (hv₂.trans ?_)
  simp only [Operand.eval, hp₁.read env₁, hσ₁]
  rfl

/-! Branches. -/

theorem branchOn_branches {f : ValueCode D} {after : Vars → Vars}
    {value : Vars → Store D → Store D × Loc D} (hf : Yields h f after value) (op : CmpOp) :
    Branches h (branchOn f op) after (testValue value op) := by
  intro l c c' is hc
  simp only [branchOn, bind_ok] at hc
  obtain ⟨⟨c₁, is₁, a⟩, h₁, hc⟩ := hc
  cases hc
  have s := hf h₁
  refine ⟨s.toGrows.plain (g := id) (fun l => rfl) s.vars (le_refl _) rfl, ?_⟩
  intro prog post target regs env hnd hs ht
  simp only [List.append_assoc] at hs ⊢
  obtain ⟨regs₁, env₁, hr₁, hσ₁, hp₁, hk₁⟩ := s.run prog _ regs env hnd hs
  refine ⟨regs₁, env₁, hr₁.trans (.one ?_), hσ₁, hk₁⟩
  rw [List.singleton_append, fstep_branch h ht]
  simp only [Operand.eval, hp₁.read env₁, hσ₁]
  rfl

theorem Simulates.ofValue {f : ValueCode D} {after : Vars → Vars}
    {value : Vars → Store D → Store D × Loc D} (hf : Yields h f after value) :
    Simulates h (.ofValue f) (.ofValue after value) :=
  ⟨hf, branchOn_branches hf .eq, branchOn_branches hf .ne⟩

theorem cmp_branches (hL : Yields h L.value M.after M.value)
    (hR : Yields h R.value N.after N.value) (op : CmpOp) :
    Branches h (branchCmp op L R) (fun vs => N.after (M.after vs)) (testOperands op M N) := by
  intro l c c' is hc
  simp only [branchCmp, bind_ok] at hc
  obtain ⟨⟨c₁, is₁, a, b⟩, h₁, hc⟩ := hc
  cases hc
  obtain ⟨hg, hrun⟩ := pair_run hL hR h₁
  refine ⟨hg.plain (g := id) (fun l => rfl) hg.vars (le_refl _) rfl, ?_⟩
  intro prog post target regs env hnd hs ht
  rw [List.append_assoc] at hs ⊢
  obtain ⟨regs₁, env₁, hr₁, he₁, hk₁⟩ := hrun prog _ regs env hnd hs
  refine ⟨regs₁, env₁, hr₁.trans (.one ?_), ?_, hk₁⟩
  · rw [List.singleton_append, fstep_branch h ht]
    simp only [testOperands, he₁, Operand.eval]
    rfl
  · simp only [testOperands, he₁]

theorem falseAnd_branches (hL : Simulates h L M) (hR : Simulates h R N) :
    Branches h (branchFalseAnd L R) (fun vs => N.after (M.after vs)) (testFalseAnd M N) := by
  intro l c c' is hc
  simp only [branchFalseAnd, bind_ok] at hc
  obtain ⟨⟨c₁, is₁⟩, h₁, ⟨c₂, is₂⟩, h₂, hc⟩ := hc
  cases hc
  have s₁ := hL.branchFalse h₁
  have s₂ := hR.branchFalse h₂
  refine ⟨s₁.toGrows.trans s₂.toGrows, ?_⟩
  intro prog post target regs env hnd hs ht
  rw [List.append_assoc] at hs ⊢
  obtain ⟨regs₁, env₁, hr₁, hσ₁, hk₁⟩ := s₁.run prog _ target regs env hnd hs ht
  simp only [testFalseAnd]
  by_cases hj : (M.branchFalse c.vars (storeOf regs env)).2 = true
  · simp only [hj, if_true] at hr₁ ⊢
    exact ⟨regs₁, env₁, hr₁, hσ₁, hk₁⟩
  · obtain ⟨regs₂, env₂, hr₂, hσ₂, hk₂⟩ := s₂.run prog post target regs₁ env₁ hnd (suffix_tail hs) ht
    rw [s₁.vars, hσ₁] at hr₂ hσ₂
    simp only [hj] at hr₁ ⊢
    exact ⟨regs₂, env₂, hr₁.trans hr₂, hσ₂, hk₁.trans hk₂ s₁.tmp⟩

theorem falseOr_branches (hL : Simulates h L M) (hR : Simulates h R N) :
    Branches h (branchFalseOr L R) (fun vs => N.after (M.after vs)) (testFalseOr M N) := by
  intro l c c' is hc
  simp only [branchFalseOr, bind_ok] at hc
  obtain ⟨⟨c₁, is₁⟩, h₁, ⟨c₂, is₂⟩, h₂, hc⟩ := hc
  cases hc
  have s₁ := hL.branchTrue h₁
  have s₂ : BranchRun h N.after N.branchFalse l c₁ c₂ is₂ := hR.branchFalse h₂
  refine ⟨⟨?_, s₁.tmp.trans s₂.tmp, (Nat.le_succ _).trans (s₁.label.trans s₂.label), ?_⟩, ?_⟩
  · rw [s₂.vars, s₁.vars]
    rfl
  · intro k
    have d₁ := s₁.labels k
    have d₂ := s₂.labels k
    have l₁ := s₁.label
    have l₂ := s₂.label
    simp only [newLabel, defs_append, defs_cons, defs_nil, Insn.defines, Option.some.injEq] at d₁ l₁ ⊢
    split_ifs <;> omega
  intro prog post target regs env hnd hs ht
  simp only [List.append_assoc] at hs ⊢
  have htrue := seek_of_suffix (suffix_tail (suffix_tail hs)) hnd rfl
  obtain ⟨regs₁, env₁, hr₁, hσ₁, hk₁⟩ := s₁.run prog _ _ regs env hnd hs htrue
  have hvars : c.newLabel.1.vars = c.vars := rfl
  rw [hvars] at hr₁ hσ₁
  simp only [testFalseOr]
  by_cases hj : (M.branchTrue c.vars (storeOf regs env)).2 = true
  · rw [if_pos hj] at hr₁
    simp only [if_pos hj]
    exact ⟨regs₁, env₁, hr₁.trans (.one rfl), hσ₁, hk₁⟩
  · obtain ⟨regs₂, env₂, hr₂, hσ₂, hk₂⟩ := s₂.run prog _ target regs₁ env₁ hnd (suffix_tail hs) ht
    rw [s₁.vars, hσ₁, hvars] at hr₂ hσ₂
    rw [if_neg hj] at hr₁
    simp only [if_neg hj]
    have hk : KeepsTmp c.tmpCount regs regs₂ := hk₁.trans hk₂ s₁.tmp
    by_cases hjr : (N.branchFalse (M.after c.vars) (M.branchTrue c.vars (storeOf regs env)).1).2 = true
    · rw [if_pos hjr] at hr₂
      rw [if_pos hjr]
      exact ⟨regs₂, env₂, hr₁.trans hr₂, hσ₂, hk⟩
    · rw [if_neg hjr] at hr₂
      rw [if_neg hjr]
      exact ⟨regs₂, env₂, hr₁.trans (hr₂.trans (.one rfl)), hσ₂, hk⟩

/-! Short circuits, conditional expressions and assignments. -/

theorem shortCircuit_yields (hL : Yields h L.value M.after M.value)
    (hR : Yields h R.value N.after N.value) (skip : CmpOp) (decided : D) :
    Yields h (lowerShortCircuit skip decided L R) (fun vs => N.after (M.after vs))
      (valueShortCircuit skip decided M N) := by
  intro c c' is res hc
  simp only [lowerShortCircuit, bind_ok] at hc
  obtain ⟨⟨c₁, is₁, a⟩, h₁, ⟨c₂, is₂, b⟩, h₂, hc⟩ := hc
  cases hc
  have s₁ := hL h₁
  have s₂ : ValueRun h N.after N.value c₁.newTemp.1.newLabel.1.newLabel.1 c₂ is₂ b := hR h₂
  have ht₂ : c₁.tmpCount + 1 ≤ c₂.tmpCount := s₂.tmp
  have hl₂ : c₁.labelCount + 1 + 1 ≤ c₂.labelCount := s₂.label
  have ht₁ := s₁.tmp
  have hl₁ := s₁.label
  refine ⟨⟨?_, ?_, ?_, ?_⟩, ?_⟩
  · show c₂.vars = _
    rw [s₂.vars]
    exact congrArg N.after s₁.vars
  · show c.tmpCount ≤ c₂.tmpCount + 1
    omega
  · show c.labelCount ≤ c₂.labelCount
    omega
  · intro l
    have d₁ := s₁.labels l
    have d₂ := s₂.labels l
    simp only [newTemp, newLabel, defs_append, defs_cons, defs_nil, Insn.defines,
      Option.some.injEq, reduceCtorEq, if_false] at d₂ ⊢
    split_ifs <;> omega
  intro prog post regs env hnd hs
  simp only [List.append_assoc, List.cons_append, List.nil_append] at hs ⊢
  obtain ⟨regs₁, env₁, hr₁, hσ₁, hp₁, hk₁⟩ := s₁.run prog _ regs env hnd hs
  have hs₁ := suffix_tail hs
  have hs₂ := (List.suffix_cons _ _).trans hs₁
  have hs₃ := suffix_tail hs₂
  have hskip := ((List.suffix_cons _ _).trans ((List.suffix_cons _ _).trans (List.suffix_cons _ _))).trans hs₃
  have hend := ((List.suffix_cons _ _).trans (List.suffix_cons _ _)).trans hskip
  have hbr := hr₁.trans (.one (fstep_branch h (seek_of_suffix hskip hnd rfl)))
  have hv₁ := hp₁.read env₁
  rw [hσ₁] at hv₁
  simp only [valueShortCircuit]
  by_cases hd : evalCmp skip ((M.value c.vars (storeOf regs env)).2.read
      (M.value c.vars (storeOf regs env)).1) 0 = true
  · -- decided by the left operand
    rw [if_pos hd]
    simp only [Operand.eval, hv₁, hd, if_true] at hbr
    refine ⟨_, env₁, hbr.trans (.head rfl (.head rfl (.one rfl))), ?_, ?_, ?_⟩
    · rw [show c₁.newTemp.2 = .tmp c₁.tmpCount from rfl, storeOf_tmp]
      exact hσ₁
    · exact Holds.tmp (by show c₁.tmpCount < c₂.tmpCount + 1; omega) (update_self ..)
    · exact hk₁.trans (.tmp (le_refl _) _ _) s₁.tmp
  · rw [if_neg hd]
    simp only [Operand.eval, hv₁, hd] at hbr
    obtain ⟨regs₂, env₂, hr₂, hσ₂, hp₂, hk₂⟩ := s₂.run prog _ regs₁ env₁ hnd hs₂
    obtain ⟨regs₃, hr₃, hσ₃, hv₃, hk₃⟩ := run_cmp (h := h) prog
      (.jmp (c₁.labelCount + 1) :: .label c₁.labelCount :: .mov (.tmp c₁.tmpCount) (.imm decided) ::
        .label (c₁.labelCount + 1) :: post)
      .ne (.reg b) (.imm 0) (show c₁.tmpCount ≤ c₂.tmpCount by omega) (le_refl c₁.tmpCount) regs₂ env₂
    have hvars : c₁.newTemp.1.newLabel.1.newLabel.1.vars = M.after c.vars := s₁.vars
    rw [hvars, hσ₁] at hσ₂ hp₂
    refine ⟨regs₃, env₂, hbr.trans (hr₂.trans (hr₃.trans
      (.head (fstep_jmp h (seek_of_suffix hend hnd rfl)) (.one rfl)))), hσ₃.trans hσ₂, ?_, ?_⟩
    · refine Holds.tmp (by show c₁.tmpCount < c₂.tmpCount + 1; omega) (hv₃.trans ?_)
      simp only [Operand.eval, evalCmp_ne_zero, hp₂.read env₂, hσ₂]
    · have hk₂' : KeepsTmp c₁.tmpCount regs₁ regs₂ := fun k hk => hk₂ k (Nat.lt_succ_of_lt hk)
      exact (hk₁.trans hk₂' s₁.tmp).trans hk₃ s₁.tmp

theorem else_run {E : Option (Lowering D)} {M : Option (Meaning D)} (hE : match E, M with
      | some L, some M => Yields h L.value M.after M.value
      | none, none => True
      | _, _ => False) (hn : n < c.tmpCount) (hc : lowerElse (.tmp n) E c = .ok (c', is)) :
    Grows (match M with | some M => M.after | none => id) c c' is ∧
    ∀ prog post regs env, (Lib.labels Insn.defines prog).Nodup → (is ++ post) <:+ prog →
      ∃ regs' env', Reaches (fstep h prog) ⟨is ++ post, regs, env⟩ ⟨post, regs', env'⟩ ∧
        (storeOf regs' env', Loc.val (regs' (.tmp n))) = (match M with
            | some M => asNumber (M.value c.vars (storeOf regs env))
            | none => (storeOf regs env, .val 0)) ∧ KeepsTmp n regs regs' := by
  match E, M, hE with
  | none, none, _ =>
    cases hc
    refine ⟨⟨rfl, le_refl _, le_refl _, .nil fun l => rfl⟩, fun prog post regs env _ _ => ?_⟩
    refine ⟨_, env, .one rfl, ?_, .tmp (le_refl _) _ _⟩
    rw [storeOf_tmp, update_self]
    rfl
  | some L, some M, hE =>
    simp only [lowerElse, bind_ok] at hc
    obtain ⟨⟨c₁, is₁, r⟩, h₁, hc⟩ := hc
    cases hc
    have s := hE h₁
    refine ⟨s.toGrows.plain (g := id) (fun l => rfl) s.vars (le_refl _) rfl, ?_⟩
    intro prog post regs env hnd hs
    rw [List.append_assoc] at hs ⊢
    obtain ⟨regs₁, env₁, hr₁, hσ₁, hp₁, hk₁⟩ := s.run prog _ regs env hnd hs
    refine ⟨_, env₁, hr₁.trans (.one rfl), ?_, ?_⟩
    · rw [storeOf_tmp, update_self]
      simp only [asNumber, Operand.eval, hp₁.read env₁, hσ₁]
    · have hk₁' : KeepsTmp n regs regs₁ := fun k hk => hk₁ k (lt_trans hk hn)
      exact hk₁'.trans (.tmp (le_refl _) _ _) (le_refl _)

theorem ite_yields {C T : Lowering D} {E : Option (Lowering D)} {P Q : Meaning D}
    {M : Option (Meaning D)} (hC : Simulates h C P) (hT : Yields h T.value Q.after Q.value)
    (hE : match E, M with
      | some L, some M => Yields h L.value M.after M.value
      | none, none => True
      | _, _ => False) :
    Yields h (lowerIte C T E) (afterIte P Q M) (valueIte P Q M) := by
  intro c c' is r hc
  simp only [lowerIte, bind_ok] at hc
  obtain ⟨⟨c₁, is₁⟩, h₁, ⟨c₂, is₂, t⟩, h₂, ⟨c₃, is₃⟩, h₃, hc⟩ := hc
  cases hc
  have s₁ : BranchRun h P.after P.branchFalse c.labelCount c.newTemp.1.newLabel.1.newLabel.1 c₁ is₁ :=
    hC.branchFalse h₁
  have s₂ : ValueRun h Q.after Q.value c₁ c₂ is₂ t := hT h₂
  have ht₁ : c.tmpCount + 1 ≤ c₁.tmpCount := s₁.tmp
  have hl₁ : c.labelCount + 1 + 1 ≤ c₁.labelCount := s₁.label
  have ht₂ := s₂.tmp
  have hl₂ := s₂.label
  obtain ⟨g₃, run₃⟩ := else_run hE (show c.tmpCount < c₂.tmpCount by omega) h₃
  have ht₃ := g₃.tmp
  have hl₃ := g₃.label
  have hv₁ : c₁.vars = P.after c.vars := s₁.vars
  have hv₂ : c₂.vars = Q.after (P.after c.vars) := by rw [s₂.vars, hv₁]
  refine ⟨⟨?_, ?_, ?_, ?_⟩, ?_⟩
  · show c₃.vars = _
    rw [g₃.vars, hv₂]
    cases M <;> rfl
  · show c.tmpCount ≤ c₃.tmpCount
    omega
  · show c.labelCount ≤ c₃.labelCount
    omega
  · intro l
    have d₁ := s₁.labels l
    have d₂ := s₂.labels l
    have d₃ := g₃.labels l
    simp only [newTemp, newLabel, defs_append, defs_cons, defs_nil, Insn.defines, Option.some.injEq,
      reduceCtorEq, if_false] at d₁ ⊢
    split_ifs <;> omega
  intro prog post regs env hnd hs
  simp only [List.append_assoc, List.cons_append, List.nil_append] at hs ⊢
  have hs₂ := suffix_tail hs
  have hs₃ := suffix_tail hs₂
  have helse := ((List.suffix_cons _ _).trans (List.suffix_cons _ _)).trans hs₃
  have hs₄ := (List.suffix_cons _ _).trans helse
  have hend := suffix_tail hs₄
  obtain ⟨regs₁, env₁, hr₁, hσ₁, hk₁⟩ := s₁.run prog _ _ regs env hnd hs (seek_of_suffix helse hnd rfl)
  have hk₁' : KeepsTmp c.tmpCount regs regs₁ := fun k hk => hk₁ k (Nat.lt_succ_of_lt hk)
  have hvars : c.newTemp.1.newLabel.1.newLabel.1.vars = c.vars := rfl
  rw [hvars] at hr₁ hσ₁
  simp only [valueIte]
  by_cases hj : (P.branchFalse c.vars (storeOf regs env)).2 = true
  · rw [if_pos hj] at hr₁
    rw [if_pos hj]
    obtain ⟨regs₂, env₂, hr₂, he₂, hk₂⟩ := run₃ prog _ regs₁ env₁ hnd hs₄
    rw [hσ₁, hv₂] at he₂
    refine ⟨regs₂, env₂, hr₁.trans (.head rfl (hr₂.trans (.one rfl))), ?_, ?_, hk₁'.trans hk₂ (le_refl _)⟩
    · cases M <;> exact (Prod.mk.inj he₂).1
    · have hloc : Holds c₃.tmpCount (.tmp c.tmpCount) regs₂ (.val (regs₂ (.tmp c.tmpCount))) :=
        Holds.tmp (by omega) rfl
      rw [(Prod.mk.inj he₂).2] at hloc
      cases M <;> exact hloc
  · rw [if_neg hj] at hr₁
    rw [if_neg hj]
    obtain ⟨regs₂, env₂, hr₂, hσ₂, hp₂, hk₂⟩ := s₂.run prog _ regs₁ env₁ hnd hs₂
    rw [hσ₁, hv₁] at hσ₂ hp₂
    have hk₂' : KeepsTmp c.tmpCount regs₁ regs₂ := fun k hk => hk₂ k (by omega)
    refine ⟨_, env₂, hr₁.trans (hr₂.trans (.head rfl (.head (fstep_jmp h (seek_of_suffix hend hnd rfl))
      (.one rfl)))), ?_, ?_, (hk₁'.trans hk₂' (le_refl _)).trans (.tmp (le_refl _) _ _) (le_refl _)⟩
    · rw [show c.newTemp.2 = .tmp c.tmpCount from rfl, storeOf_tmp]
      exact hσ₂
    · refine Holds.tmp (by show c.tmpCount < c₃.tmpCount; omega) ?_
      rw [show c.newTemp.2 = .tmp c.tmpCount from rfl, update_self]
      simp only [Operand.eval, hp₂.read env₂, hσ₂]

theorem assign_yields (hE : Yields h L.value E.after E.value) (x : Name) :
    Yields h (lowerAssign x L) (afterAssign x E) (valueAssign x E) := by
  intro c c' is res hc
  simp only [lowerAssign, bind_ok] at hc
  obtain ⟨⟨c₁, is₁, a⟩, h₁, hc⟩ := hc
  cases hc
  have s := hE h₁
  obtain ⟨ht, hl⟩ := getOrCreateReg_counts c₁ x
  refine ⟨⟨?_, s.tmp.trans ht.ge, s.label.trans hl.ge, ?_⟩, ?_⟩
  · show Vars.update (Vars.update (c₁.getOrCreateReg x).vars x _) x _ = _
    rw [getOrCreateReg_vars, s.vars]
    rfl
  · show LabelsIn c.labelCount (c₁.getOrCreateReg x).labelCount _
    rw [hl]
    exact s.labels.plain fun l => rfl
  intro prog post regs env hnd hs
  rw [List.append_assoc] at hs ⊢
  obtain ⟨regs₁, env₁, hr₁, hσ₁, hp₁, hk₁⟩ := s.run prog _ regs env hnd hs
  refine ⟨_, env₁, hr₁.trans (.one rfl), ?_, rfl, hk₁.trans (.var _ _ _ _) (le_refl _)⟩
  rw [storeOf_var]
  simp only [valueAssign, Operand.eval, hp₁.read env₁, hσ₁]
  rw [← hσ₁, storeOf_env]

/-! Helpers. -/

omit [Ieee D] in
theorem emitValueExpr_shape {node : NodeId} (hc : emitValueExpr node c = .ok (c', is, r)) :
    c'.vars = afterHelper true true c.vars ∧ c'.tmpCount = c.tmpCount + 1 ∧
      c'.labelCount = c.labelCount ∧ r = .tmp c.tmpCount ∧
      is = stores (Vars.dirtyNames c.vars) ++ .valueExpr (.tmp c.tmpCount) node c.slots.length ::
        .slotDestroy c.slots.length :: loads (Vars.loadedNames (Vars.synced c.vars)) := by
  simp only [emitValueExpr, newTemp, newManagedSlot, syncToEnv, bind_ok] at hc
  obtain ⟨c₁, h₁, _, _, c₂, h₂, hc⟩ := hc
  have hp : ∀ (k k' : Compiler) s, k.managedSlotPublish s = .ok k' → k' = k.setSlot s .live := by
    intro k k' s hk
    simp only [managedSlotPublish] at hk
    split at hk <;> simp_all
  have hcl : ∀ (k k' : Compiler) s, k.managedSlotCleanup s = .ok k' → k' = k.setSlot s .cleaned := by
    intro k k' s hk
    simp only [managedSlotCleanup] at hk
    split at hk <;> simp_all
  obtain rfl := hp _ _ _ h₁
  obtain rfl := hcl _ _ _ h₂
  cases hc
  exact ⟨rfl, rfl, rfl, rfl, rfl⟩

theorem run_helper (node : NodeId) (sync reload : Bool) (args : List D) (ins : List (Insn D))
    (n : Nat) (prog post : List (Insn D)) (regs : Reg → D) (env : Env D) (vs : Vars)
    (hins : ∀ env post, Reaches (fstep h prog) ⟨ins ++ post, regs, env⟩
      ⟨post, update regs (.tmp n) (h node args (readVar env)).2,
        bindAll env (h node args (readVar env)).1⟩)
    (hjs : js = (if sync then stores vs.dirtyNames else []) ++ ins ++
      (if reload then loads (if sync then vs.synced else vs).loadedNames else [])) :
    ∃ regs' env', Reaches (fstep h prog) ⟨js ++ post, regs, env⟩ ⟨post, regs', env'⟩ ∧
      (storeOf regs' env', Loc.val (regs' (.tmp n))) =
        valueHelper h node sync reload args vs (storeOf regs env) ∧ KeepsTmp n regs regs' := by
  subst hjs
  obtain ⟨env₁, hr₁, hσ₁⟩ : ∃ env₁, Reaches (fstep h prog)
      ⟨(if sync then stores vs.dirtyNames else []) ++ (ins ++
        ((if reload then loads (if sync then vs.synced else vs).loadedNames else []) ++ post)), regs, env⟩
      ⟨ins ++ ((if reload then loads (if sync then vs.synced else vs).loadedNames else []) ++ post),
        regs, env₁⟩ ∧
      storeOf regs env₁ = if sync then (storeOf regs env).writeBack vs.dirtyNames else storeOf regs env := by
    cases sync with
    | false => exact ⟨env, .refl _, rfl⟩
    | true => exact run_stores h prog _ regs vs.dirtyNames env
  have hr₂ := hins env₁ ((if reload then loads (if sync then vs.synced else vs).loadedNames else []) ++ post)
  have hk : KeepsTmp n regs (update regs (.tmp n) (h node args (readVar env₁)).2) :=
    .tmp (le_refl _) _ _
  simp only [List.append_assoc, valueHelper, ← hσ₁]
  cases reload with
  | false =>
    refine ⟨_, _, hr₁.trans hr₂, ?_, hk⟩
    rw [storeOf_tmp, update_self]
    rfl
  | true =>
    obtain ⟨regs₂, hr₃, hσ₂, hk₂⟩ := run_loads h prog post
      (bindAll env₁ (h node args (readVar env₁)).1) (if sync then vs.synced else vs).loadedNames
      (update regs (.tmp n) (h node args (readVar env₁)).2)
    refine ⟨regs₂, _, hr₁.trans (hr₂.trans hr₃), ?_, hk.trans (hk₂ n) (le_refl n)⟩
    rw [hσ₂, storeOf_tmp, hk₂ (n + 1) n (Nat.lt_succ_self n), update_self]
    rfl

theorem helper_value {v : Vars → Store D → Store D × Loc D} {is : List (Insn D)} (hg : Grows f c c' is)
    (hrun : ∀ prog post regs env, (Lib.labels Insn.defines prog).Nodup → (is ++ post) <:+ prog →
      ∃ regs' env', Reaches (fstep h prog) ⟨is ++ post, regs, env⟩ ⟨post, regs', env'⟩ ∧
        ∃ n, n < c'.tmpCount ∧ r = .tmp n ∧
        (storeOf regs' env', Loc.val (regs' (.tmp n))) = v c.vars (storeOf regs env) ∧
        KeepsTmp c.tmpCount regs regs') : ValueRun h f v c c' is r := by
  refine ⟨hg, ?_⟩
  intro prog post regs env hnd hs
  obtain ⟨regs', env', hr, n, hn, rfl, he, hk⟩ := hrun prog post regs env hnd hs
  refine ⟨regs', env', hr, (congrArg Prod.fst he), ?_, hk⟩
  rw [← he]
  exact Holds.tmp hn rfl

theorem valueExpr_yields (node : NodeId) :
    Yields h (emitValueExpr node) (afterHelper true true) (valueHelper h node true true []) := by
  intro c c' is r hc
  obtain ⟨hv, ht, hl, rfl, rfl⟩ := emitValueExpr_shape hc
  refine helper_value ⟨hv, by omega, hl.ge, .nil fun l => by simp [Insn.defines]⟩ ?_
  intro prog post regs env _ _
  obtain ⟨regs', env', hr, he, hk⟩ := run_helper (h := h) node true true []
    [.valueExpr (.tmp c.tmpCount) node c.slots.length, .slotDestroy c.slots.length] c.tmpCount prog post regs env c.vars (fun env post => .head rfl (.one rfl)) rfl
  refine ⟨regs', env', ?_, c.tmpCount, by omega, rfl, he, hk⟩
  simpa using hr

theorem valueExprAssign_yields (x : Name) (node : NodeId) :
    Yields h (emitValueExprAssign x node) (afterHelperAssign x) (valueHelperAssign h x node) := by
  intro c c' is r hc
  cases hc
  obtain ⟨ht, hl⟩ := getOrCreateReg_counts c.newTemp.1 x
  have hv : (c.newTemp.1.getOrCreateReg x).vars = Vars.create c.vars x := getOrCreateReg_vars _ x
  refine ⟨⟨?_, (Nat.le_succ _).trans ht.ge, hl.ge, ?_⟩, ?_⟩
  · show Vars.update (Vars.update (Vars.synced (c.newTemp.1.getOrCreateReg x).vars) x _) x _ = _
    rw [hv]
    rfl
  · exact .nil fun l => by simp [Insn.defines]
  intro prog post regs env _ _
  obtain ⟨env₁, hr₁, hσ₁⟩ := run_stores h prog
    (.valueExprAssign c.newTemp.2 x node :: .mov (.var x) (.reg c.newTemp.2) :: post) regs
    (Vars.dirtyNames (c.newTemp.1.getOrCreateReg x).vars) env
  rw [hv] at hσ₁
  have hcode : (c.newTemp.1.getOrCreateReg x).syncToEnv.2 ++
      [.valueExprAssign c.newTemp.2 x node, .mov (.var x) (.reg c.newTemp.2)] ++ post =
      stores (Vars.dirtyNames (c.newTemp.1.getOrCreateReg x).vars) ++
        (.valueExprAssign c.newTemp.2 x node :: .mov (.var x) (.reg c.newTemp.2) :: post) := by
    rw [List.append_assoc]
    rfl
  have hrun := hr₁.trans (.head rfl (.one rfl))
  rw [← hcode] at hrun
  refine ⟨_, _, hrun, ?_, rfl, ?_⟩
  · simp only [valueHelperAssign, ← hσ₁]
    rw [storeOf_var, show c.newTemp.2 = .tmp c.tmpCount from rfl, storeOf_tmp]
    simp only [Operand.eval, update_self]
    rfl
  · exact (KeepsTmp.tmp (le_refl _) _ _).trans (.var _ _ _ _) (le_refl _)

theorem throw_yields (node : NodeId) :
    Yields h (lowerThrow node) (afterHelper true true) (valueHelper h node true true []) := by
  intro c c' is r hc
  simp only [lowerThrow, bind_ok] at hc
  obtain ⟨⟨c₁, is₁, a⟩, h₁, _, _, hc⟩ := hc
  cases hc
  have s := valueExpr_yields (h := h) node h₁
  refine ⟨s.toGrows.plain (g := id) (fun l => rfl) s.vars (le_refl _) rfl, ?_⟩
  intro prog post regs env hnd hs
  rw [List.append_assoc] at hs ⊢
  obtain ⟨regs₁, env₁, hr₁, hσ₁, hp₁, hk₁⟩ := s.run prog _ regs env hnd hs
  exact ⟨regs₁, env₁, hr₁.trans (.one rfl), hσ₁, hp₁, hk₁⟩

structure ArgsRun (h : Helper D) (A : ArgsMeaning D) (c c' : Compiler) (is : List (Insn D))
    (rs : List Reg) : Prop extends Grows A.after c c' is where
  run : ∀ prog post regs env, (Lib.labels Insn.defines prog).Nodup → (is ++ post) <:+ prog →
    ∃ regs' env', Reaches (fstep h prog) ⟨is ++ post, regs, env⟩ ⟨post, regs', env'⟩ ∧
      storeOf regs' env' = (A.values c.vars (storeOf regs env)).1 ∧
      List.Forall₂ (fun r p => Holds c'.tmpCount r regs' p) rs (A.values c.vars (storeOf regs env)).2 ∧
      KeepsTmp c.tmpCount regs regs'

abbrev ArgsCode (D : Type) := Compiler → Except String (Compiler × List (Insn D) × List Reg)

def YieldsArgs (h : Helper D) (f : ArgsCode D) (A : ArgsMeaning D) : Prop :=
  ∀ {c c' is rs}, f c = .ok (c', is, rs) → ArgsRun h A c c' is rs

theorem args_nil : YieldsArgs h (lowerArgs (D := D) .nil) .nil := by
  intro c c' is rs hc
  cases hc
  exact ⟨⟨rfl, le_refl _, le_refl _, .nil fun l => rfl⟩,
    fun prog post regs env _ _ => ⟨regs, env, .refl _, rfl, .nil, .refl _ _⟩⟩

theorem args_cons {g : ArgsCode D} {A : ArgsMeaning D} (hE : Yields h L.value E.after E.value)
    (hA : YieldsArgs h g A) :
    YieldsArgs h (fun c => do
      let (c, is, r) ← L.value c
      let (c, js, rs) ← g c
      .ok (c, is ++ js, r :: rs)) (.cons E A) := by
  intro c c' is rs hc
  simp only [bind_ok] at hc
  obtain ⟨⟨c₁, is₁, a⟩, h₁, ⟨c₂, is₂, as⟩, h₂, hc⟩ := hc
  cases hc
  have s₁ := hE h₁
  have s₂ : ArgsRun h A c₁ c₂ is₂ as := hA h₂
  refine ⟨s₁.toGrows.trans s₂.toGrows, ?_⟩
  intro prog post regs env hnd hs
  rw [List.append_assoc] at hs ⊢
  obtain ⟨regs₁, env₁, hr₁, hσ₁, hp₁, hk₁⟩ := s₁.run prog _ regs env hnd hs
  obtain ⟨regs₂, env₂, hr₂, hσ₂, hp₂, hk₂⟩ := s₂.run prog post regs₁ env₁ hnd (suffix_tail hs)
  rw [s₁.vars, hσ₁] at hσ₂ hp₂
  exact ⟨regs₂, env₂, hr₁.trans hr₂, hσ₂, .cons (hp₁.keep hk₂ s₂.tmp) hp₂, hk₁.trans hk₂ s₁.tmp⟩

theorem call_yields {g : ArgsCode D} {A : ArgsMeaning D} (hA : YieldsArgs h g A) (node : NodeId)
    (sync reload : Bool) :
    Yields h (lowerCall node sync reload g) (fun vs => afterHelper sync reload (A.after vs))
      (valueCall h node sync reload A) := by
  intro c c' is r hc
  simp only [lowerCall, bind_ok] at hc
  obtain ⟨⟨c₁, is₁, rs⟩, h₁, hc⟩ := hc
  have hc : Except.ok ((emitCall (D := D) node sync reload rs c₁).1,
      is₁ ++ (emitCall (D := D) node sync reload rs c₁).2.1,
      (emitCall (D := D) node sync reload rs c₁).2.2) = Except.ok (c', is, r) := hc
  have s : ArgsRun h A c c₁ is₁ rs := hA h₁
  obtain ⟨hv, ht, hl, hr, hi⟩ : (emitCall (D := D) node sync reload rs c₁).1.vars =
        afterHelper sync reload c₁.vars ∧
      (emitCall (D := D) node sync reload rs c₁).1.tmpCount = c₁.tmpCount + 1 ∧
      (emitCall (D := D) node sync reload rs c₁).1.labelCount = c₁.labelCount ∧
      (emitCall (D := D) node sync reload rs c₁).2.2 = .tmp c₁.tmpCount ∧
      (emitCall (D := D) node sync reload rs c₁).2.1 =
        (if sync then stores (Vars.dirtyNames c₁.vars) else []) ++ [.call (.tmp c₁.tmpCount) node rs] ++
          (if reload then loads (Vars.loadedNames (if sync then Vars.synced c₁.vars else c₁.vars))
            else []) := by
    cases sync <;> cases reload <;>
      simp [emitCall, newTemp, syncToEnv, reloadFromEnv, afterHelper, Vars.synced, Vars.reloaded,
        Vars.dirtyNames, Vars.loadedNames, dirtyVars]
  obtain ⟨rfl, rfl, rfl⟩ : (emitCall (D := D) node sync reload rs c₁).1 = c' ∧
      is₁ ++ (emitCall (D := D) node sync reload rs c₁).2.1 = is ∧
      (emitCall (D := D) node sync reload rs c₁).2.2 = r := by simpa using hc
  have hdefs : ∀ l, defs l (emitCall (D := D) node sync reload rs c₁).2.1 = 0 := by
    intro l
    rw [hi]
    cases sync <;> cases reload <;> simp [Insn.defines]
  have hst := s.tmp
  refine helper_value (s.toGrows.plain hdefs ?_ (by omega) hl) ?_
  · rw [hv, s.vars]
  intro prog post regs env hnd hs
  rw [List.append_assoc] at hs ⊢
  obtain ⟨regs₁, env₁, hr₁, hσ₁, hp₁, hk₁⟩ := s.run prog _ regs env hnd hs
  have hargs : rs.map regs₁ = (A.values c.vars (storeOf regs env)).2.map
      fun p => p.read (A.values c.vars (storeOf regs env)).1 := by
    rw [← List.forall₂_eq_eq_eq, List.forall₂_map_left_iff, List.forall₂_map_right_iff]
    refine hp₁.imp fun a p ha => ?_
    rw [ha.read env₁, hσ₁]
  obtain ⟨regs₂, env₂, hr₂, he₂, hk₂⟩ := run_helper (h := h) node sync reload (rs.map regs₁)
    [.call (.tmp c₁.tmpCount) node rs] c₁.tmpCount prog post regs₁ env₁ c₁.vars (fun env post => .one rfl) hi
  refine ⟨regs₂, env₂, hr₁.trans hr₂, c₁.tmpCount, by omega, hr, ?_, hk₁.trans hk₂ s.tmp⟩
  rw [he₂, hσ₁, s.vars, hargs]
  rfl

end Code

end TurboScript.Mir.Fp
