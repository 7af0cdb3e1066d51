import TurboScript.Lib.Brackets
import TurboScript.Host.Limits

/- The frames of script calls: FUNCTION_ENTER and FUNCTION_LEAVE safe points and the recursion
   counters, whatever runs inside a call.

   1. The records of the environments, and the safe points issued, on all of which the hook's
      verdict may depend.
   2. The three routines that issue frame safe points, exit by exit: `eval_script_function`,
      `ts_mir_host_export_call` and `ts_mir_artifact_try_native_numeric`.
   3. Programs: what may run inside a call, as a tree of the operations that concern frames.
   4. `Law`: what every program keeps. Only a run on the context's own environment that starts
      inside a call breaks the counters: `ts_jit_reset_runtime_state` sets them to 0. -/
namespace TurboScript.Host.Frames
open Lib

/-- What calls read and write of `exprtk_env_t`. `resets` is no field of the source: it counts
    how often the counter was set to 0 by the start of a run. -/
structure EnvRec where
  currRecursion : UInt32 := 0
  maxRecursion : UInt32 := 100
  safePoint : Bool := false
  aborted : Bool := false
  resets : Nat := 0

structure SafePoint where
  kind : SafePointKind
  cost : Nat
  accepted : Bool
  deriving DecidableEq, Repr

/-- Environments are numbered as they are created; 0 is the context's own (`ctx->env`), and a
    number that is not in use stands for NULL. `calls` counts the frames entered so far. -/
structure Machine where
  envs : Nat → EnvRec
  next : Nat
  trace : List SafePoint := []
  calls : Nat := 0

def Machine.modify (m : Machine) (e : Nat) (f : EnvRec → EnvRec) : Machine :=
  { m with envs := Function.update m.envs e (f (m.envs e)) }

def Machine.abort (m : Machine) (e : Nat) : Machine := m.modify e fun r => { r with aborted := true }

/-- A child of `e` that takes over its limits and its counter. -/
def Machine.child (m : Machine) (e : Nat) : Machine :=
  { m with
    envs := Function.update m.envs m.next { m.envs e with aborted := false, resets := 0 }
    next := m.next + 1 }

/-- `sizeof(exprtk_env_t)`, `sizeof(exprtk_value_t)` and `SIZE_MAX`. -/
structure Sizes where
  env : Nat
  value : Nat
  max : Nat

inductive Exit
  | invalid | tooManyArguments | refused | recursionLimit | noMemory | returned
  deriving DecidableEq, Repr

section Routines
variable (sizes : Sizes) (hook : List SafePoint → SafePointKind → Nat → Bool)

def frameBytes (argc : Nat) : Nat := sizes.env + argc * sizes.value

def issue (kind : SafePointKind) (cost : Nat) (m : Machine) : Bool × Machine :=
  let accepted := hook m.trace kind cost
  (accepted, { m with trace := m.trace ++ [⟨kind, cost, accepted⟩] })

/-- The safe point on entry, issued when the environment has a hook. -/
def enter (e : Nat) (bytes : Nat) (m : Machine) : Bool × Machine :=
  if (m.envs e).safePoint then issue hook .functionEnter bytes m else (true, m)

/-- The safe point on exit, issued when one was accepted on entry. -/
def leave (entered : Bool) (bytes : Nat) (m : Machine) : Bool × Machine :=
  if entered then issue hook .functionLeave bytes m else (true, m)

def addRecursion (e : Nat) (m : Machine) : Machine :=
  { m.modify e fun r => { r with currRecursion := r.currRecursion + 1 } with
    calls := m.calls + 1 }

def subRecursion (e : Nat) (m : Machine) : Machine :=
  m.modify e fun r => { r with currRecursion := r.currRecursion - 1 }

/-- `eval_script_function`. `inside` is what runs in the frame: the defaults of the parameters,
    their binding, the body. -/
def evalScriptFunction (isScript mallocFails : Bool) (argc parent caller : Nat)
    (inside : Nat → Machine → Machine) (m : Machine) : Exit × Machine :=
  if isScript = false ∨ m.next ≤ parent ∨ m.next ≤ caller then (.invalid, m)
  else if (sizes.max - sizes.env) / sizes.value < argc then (.tooManyArguments, m.abort caller)
  else
    let bytes := frameBytes sizes argc
    let entered := (m.envs caller).safePoint
    let (accepted, m) := enter hook caller bytes m
    if accepted = false then (.refused, m.abort caller)
    else
      let m := addRecursion caller m
      if (m.envs caller).maxRecursion < (m.envs caller).currRecursion then
        (.recursionLimit, (leave hook entered bytes (subRecursion caller (m.abort caller))).2)
      else if mallocFails then
        (.noMemory, (leave hook entered bytes (subRecursion caller (m.abort caller))).2)
      else
        let frame := m.next
        let m := inside frame (m.child caller)
        let m := m.modify caller fun r => { r with aborted := (m.envs frame).aborted }
        let (accepted, m) := leave hook entered bytes (subRecursion caller m)
        (.returned, if accepted then m else m.abort caller)

/-- `ts_mir_host_export_call`. `valid` is the test of the pointers, the index and the arity. -/
def hostExportCall (valid : Bool) (argc : Nat) (inside : Nat → Machine → Machine) (m : Machine) :
    Exit × Machine :=
  if valid = false ∨ 16 < argc ∨ m.next = 0 then (.invalid, m)
  else
    let bytes := frameBytes sizes argc
    let entered := (m.envs 0).safePoint
    let (accepted, m) := enter hook 0 bytes m
    if accepted = false then (.refused, m.abort 0)
    else
      let m := addRecursion 0 m
      if (m.envs 0).maxRecursion < (m.envs 0).currRecursion then
        (.recursionLimit, (leave hook entered bytes (subRecursion 0 (m.abort 0))).2)
      else
        let frame := m.next
        let m := inside frame (m.child 0)
        let aborted := (m.envs frame).aborted
        let (accepted, m) := leave hook entered bytes (subRecursion 0 m)
        (.returned, if accepted = false ∨ aborted then m.abort 0 else m)

/-- `ts_mir_artifact_try_native_numeric` of a native export; a hook is asked for the steps
    first. -/
def tryNativeNumeric (argc steps : Nat) (inside : Nat → Machine → Machine) (m : Machine) : Exit × Machine :=
  if m.next = 0 then (.invalid, m)
  else
    let bytes := frameBytes sizes argc
    let entered := (m.envs 0).safePoint
    let (accepted, m) := enter hook 0 bytes m
    if accepted = false then (.refused, m.abort 0)
    else
      let (accepted, m) := if entered then issue hook .step steps m else (true, m)
      if accepted = false then (.refused, (leave hook entered bytes (m.abort 0)).2)
      else
        let m := inside 0 m
        if (m.envs 0).aborted then (.returned, (leave hook entered bytes m).2)
        else
          let (accepted, m) := leave hook entered bytes m
          (.returned, if accepted then m else m.abort 0)

end Routines

/-! What runs inside a call. -/

inductive Routine
  | script (isScript mallocFails : Bool) (parent caller : Nat)
  | hostExport (valid : Bool)
  | nativeNumeric (steps : Nat)
  deriving DecidableEq, Repr

abbrev OtherKind := { k : SafePointKind // k ≠ .functionEnter ∧ k ≠ .functionLeave }

/-- A program: a finite run of any code between two frame operations is one node, and it goes
    on according to what the operation answered. -/
inductive Prog
  | done
  | charge (kind : OtherKind) (cost : Nat) (k : Bool → Prog)
  | abort (e : Nat) (k : Prog)
  /-- A catch scope, the environment of a method or a constructor, a child. -/
  | scope (e : Nat) (k : Nat → Prog)
  | call (r : Routine) (argc : Nat) (inside : Nat → Prog) (k : Exit → Prog)
  /-- A script file imported by `import`, a timer's callback or a run a native starts: it runs
      on the context's own environment, which is reset first. -/
  | rerun (script : Prog) (k : Prog)
  /-- A script file imported by `import_module`: the context's environment is swapped for a
      snapshot while it runs. -/
  | importModule (script : Prog) (k : Prog)

section Runs
variable (sizes : Sizes) (hook : List SafePoint → SafePointKind → Nat → Bool)

def runRoutine (r : Routine) (argc : Nat) (inside : Nat → Machine → Machine) (m : Machine) :
    Exit × Machine :=
  match r with
  | .script isScript mallocFails parent caller =>
    evalScriptFunction sizes hook isScript mallocFails argc parent caller inside m
  | .hostExport valid => hostExportCall sizes hook valid argc inside m
  | .nativeNumeric steps => tryNativeNumeric sizes hook argc steps inside m

/-- `ts_jit_reset_runtime_state`. -/
def resetRuntimeState (m : Machine) : Machine :=
  m.modify 0 fun r => { r with currRecursion := 0, aborted := false, resets := r.resets + 1 }

def run : Prog → Machine → Machine
  | .done, m => m
  | .charge kind cost k, m =>
    let r := issue hook kind cost m
    run (k r.1) r.2
  | .abort e k, m => run k (m.abort e)
  | .scope e k, m => run (k m.next) (m.child e)
  | .call r argc inside k, m =>
    let x := runRoutine sizes hook r argc (fun frame => run (inside frame)) m
    run (k x.1) x.2
  | .rerun script k, m => run k (run script (resetRuntimeState m))
  | .importModule script k, m =>
    let saved := m.envs 0
    let m := run script (resetRuntimeState (m.modify 0 fun _ => {}))
    run k (m.modify 0 fun _ => saved)

/-- Which safe points are brackets: accepted entries and exits. -/
def frameMark (p : SafePoint) : Mark Nat :=
  if p.kind = .functionEnter ∧ p.accepted = true then .opens p.cost
  else if p.kind = .functionLeave then .closes p.cost
  else .neutral

/-- The counter of an environment after a reset: the `k` frames that were open on it then count
    down from 0, and there are at most `n` of them. -/
def Owing (n : Nat) (c : UInt32) : Prop := ∃ k ≤ n, c = 0 - UInt32.ofNat k

/-- What a stretch of a run keeps: the safe points it issues are balanced, an environment that
    it does not reset has the counter it had, and one that it does counts from 0. -/
structure Law (m m' : Machine) : Prop where
  next : m.next ≤ m'.next
  calls : m.calls ≤ m'.calls
  trace : ∃ l, m'.trace = m.trace ++ l ∧ Balanced frameMark l
  resets : ∀ e < m.next, (m.envs e).resets ≤ (m'.envs e).resets
  counter : ∀ e < m.next, (m'.envs e).resets = (m.envs e).resets →
    (m'.envs e).currRecursion = (m.envs e).currRecursion
  owing : ∀ e < m.next, (m'.envs e).resets ≠ (m.envs e).resets →
    Owing (m'.calls - m.calls) (m'.envs e).currRecursion

variable {m m' m'' n n' : Machine}

theorem Law.refl (m : Machine) : Law m m where
  next := Nat.le_refl _
  calls := Nat.le_refl _
  trace := ⟨[], (List.append_nil _).symm, Balanced.nil⟩
  resets _ _ := Nat.le_refl _
  counter _ _ _ := rfl
  owing _ _ h := absurd rfl h

theorem Owing.mono {n n' : Nat} {c : UInt32} (h : Owing n c) (hn : n ≤ n') : Owing n' c := by
  obtain ⟨k, hk, hc⟩ := h
  exact ⟨k, Nat.le_trans hk hn, hc⟩

theorem Law.trans (h : Law m m') (h' : Law m' m'') : Law m m'' where
  next := Nat.le_trans h.next h'.next
  calls := Nat.le_trans h.calls h'.calls
  trace := by
    obtain ⟨l, hl, hb⟩ := h.trace
    obtain ⟨l', hl', hb'⟩ := h'.trace
    exact ⟨l ++ l', by rw [hl', hl, List.append_assoc], hb.append hb'⟩
  resets e he := Nat.le_trans (h.resets e he) (h'.resets e (Nat.lt_of_lt_of_le he h.next))
  counter e he hr := by
    have hnext : e < m'.next := Nat.lt_of_lt_of_le he h.next
    have h₁ := h.resets e he
    have h₂ := h'.resets e hnext
    rw [h'.counter e hnext (by omega), h.counter e he (by omega)]
  owing e he hr := by
    have hnext : e < m'.next := Nat.lt_of_lt_of_le he h.next
    have hc := h.calls
    have hc' := h'.calls
    by_cases hlast : (m''.envs e).resets = (m'.envs e).resets
    · -- the last reset is in the first part
      rw [h'.counter e hnext hlast]
      exact (h.owing e he (by omega)).mono (by omega)
    · exact (h'.owing e hnext hlast).mono (by omega)

theorem Law.of_quiet (hnext : m.next ≤ m'.next) (hcalls : m'.calls = m.calls) (htrace : m'.trace = m.trace)
    (henvs : ∀ e < m.next, (m'.envs e).resets = (m.envs e).resets ∧
      (m'.envs e).currRecursion = (m.envs e).currRecursion) : Law m m' where
  next := hnext
  calls := Nat.le_of_eq hcalls.symm
  trace := ⟨[], by rw [htrace, List.append_nil], Balanced.nil⟩
  resets e he := Nat.le_of_eq (henvs e he).1.symm
  counter e he _ := (henvs e he).2
  owing e he h := absurd (henvs e he).1 h

theorem modify_envs (m : Machine) (e : Nat) (f : EnvRec → EnvRec) (i : Nat) :
    (m.modify e f).envs i = if i = e then f (m.envs e) else m.envs i := by
  unfold Machine.modify
  by_cases h : i = e
  · subst h
    simp
  · simp [h]

theorem addRecursion_envs (e : Nat) (m : Machine) (i : Nat) : (addRecursion e m).envs i =
      if i = e then { m.envs e with currRecursion := (m.envs e).currRecursion + 1 }
      else m.envs i :=
  modify_envs m e (fun r => { r with currRecursion := r.currRecursion + 1 }) i

theorem abort_resets (m : Machine) (e i : Nat) : ((m.abort e).envs i).resets = (m.envs i).resets := by
  unfold Machine.abort
  rw [modify_envs]
  by_cases hi : i = e
  · rw [if_pos hi, hi]
  · rw [if_neg hi]

theorem Law.modify (m : Machine) (e : Nat) (f : EnvRec → EnvRec)
    (hf : ∀ r, (f r).resets = r.resets ∧ (f r).currRecursion = r.currRecursion) :
    Law m (m.modify e f) := by
  refine Law.of_quiet (Nat.le_refl m.next) rfl rfl ?_
  intro i _
  rw [modify_envs]
  by_cases h : i = e
  · rw [if_pos h, h]
    exact hf _
  · rw [if_neg h]
    exact ⟨rfl, rfl⟩

theorem Law.abort (m : Machine) (e : Nat) : Law m (m.abort e) :=
  Law.modify m e _ fun _ => ⟨rfl, rfl⟩

theorem Law.child (m : Machine) (e : Nat) : Law m (m.child e) := by
  refine Law.of_quiet (Nat.le_succ m.next) rfl rfl ?_
  intro i hi
  have hne : i ≠ m.next := Nat.ne_of_lt hi
  unfold Machine.child
  simp [hne]

theorem Law.issue (m : Machine) (kind : SafePointKind) (cost : Nat)
    (hkind : kind ≠ .functionEnter ∧ kind ≠ .functionLeave) : Law m (issue hook kind cost m).2 where
  next := Nat.le_refl _
  calls := Nat.le_refl _
  trace := by
    refine ⟨_, rfl, Balanced.single ?_⟩
    unfold frameMark
    simp [hkind.1, hkind.2]
  resets _ _ := Nat.le_refl _
  counter _ _ _ := rfl
  owing _ _ h := absurd rfl h

/-! A frame around a stretch that keeps the law. -/

/-- A frame is entered: its safe point if there is a hook, and `d e` on the counter of `e`. -/
structure Opened (entered : Bool) (bytes : Nat) (d : Nat → Nat) (m n : Machine) : Prop where
  next : m.next ≤ n.next
  calls : ∀ e, m.calls + d e ≤ n.calls
  trace : n.trace = m.trace ++ if entered then [⟨.functionEnter, bytes, true⟩] else []
  resets : ∀ e < m.next, (n.envs e).resets = (m.envs e).resets
  counter : ∀ e < m.next,
    (n.envs e).currRecursion = (m.envs e).currRecursion + UInt32.ofNat (d e)

structure Closed (entered : Bool) (bytes : Nat) (d : Nat → Nat) (n m : Machine) : Prop where
  next : n.next = m.next
  calls : n.calls = m.calls
  trace : ∃ accepted, m.trace =
    n.trace ++ if entered then [⟨.functionLeave, bytes, accepted⟩] else []
  resets : ∀ e, (m.envs e).resets = (n.envs e).resets
  counter : ∀ e, (m.envs e).currRecursion = (n.envs e).currRecursion - UInt32.ofNat (d e)

theorem Owing.sub {n : Nat} {c : UInt32} (h : Owing n c) (d : Nat) :
    ∃ k, d ≤ k ∧ k ≤ n + d ∧ c - UInt32.ofNat d = 0 - UInt32.ofNat k := by
  obtain ⟨k, hk, rfl⟩ := h
  refine ⟨k + d, Nat.le_add_left d k, Nat.add_le_add_right hk d, ?_⟩
  rw [UInt32.ofNat_add]
  grind

variable {entered : Bool} {bytes : Nat}

theorem frame_owing {d : Nat → Nat} (ho : Opened entered bytes d m n) (h : Law n n')
    (hc : Closed entered bytes d n' m') (e : Nat) (he : e < m.next)
    (hr : (m'.envs e).resets ≠ (m.envs e).resets) :
    ∃ k, d e ≤ k ∧ k ≤ m'.calls - m.calls ∧ (m'.envs e).currRecursion = 0 - UInt32.ofNat k := by
  have hinside : (n'.envs e).resets ≠ (n.envs e).resets := by
    rw [← hc.resets, ho.resets e he]
    exact hr
  obtain ⟨k, hd, hk, hcount⟩ :=
    (h.owing e (Nat.lt_of_lt_of_le he ho.next) hinside).sub (d e)
  have hcalls := ho.calls e
  have hmono := h.calls
  have hend := hc.calls
  refine ⟨k, hd, by omega, ?_⟩
  rw [hc.counter, hcount]

theorem Law.frame {d : Nat → Nat} (ho : Opened entered bytes d m n) (h : Law n n')
    (hc : Closed entered bytes d n' m') :
    Law m m' where
  next := by
    have h₁ := ho.next
    have h₂ := h.next
    have h₃ := hc.next
    omega
  calls := by
    have h₁ := ho.calls 0
    have h₂ := h.calls
    have h₃ := hc.calls
    omega
  trace := by
    obtain ⟨l, hl, hb⟩ := h.trace
    obtain ⟨accepted, ht⟩ := hc.trace
    cases entered with
    | false =>
      refine ⟨l, ?_, hb⟩
      rw [ht, hl, ho.trace]
      simp
    | true =>
      refine ⟨⟨.functionEnter, bytes, true⟩ :: l ++ [⟨.functionLeave, bytes, accepted⟩], ?_,
        Balanced.enclose rfl rfl hb⟩
      rw [ht, hl, ho.trace]
      simp
  resets e he := by
    rw [hc.resets, ← ho.resets e he]
    exact h.resets e (Nat.lt_of_lt_of_le he ho.next)
  counter e he hr := by
    have hkept : (n'.envs e).resets = (n.envs e).resets := by
      rw [← hc.resets, hr, ho.resets e he]
    rw [hc.counter, h.counter e (Nat.lt_of_lt_of_le he ho.next) hkept, ho.counter e he]
    exact UInt32.add_sub_cancel _ _
  owing e he hr := by
    obtain ⟨k, -, hk, hcount⟩ := frame_owing ho h hc e he hr
    exact ⟨k, hk, hcount⟩

def one (caller : Nat) : Nat → Nat := fun e => if e = caller then 1 else 0

theorem leave_closed (entered : Bool) (bytes : Nat) (n : Machine) :
    Closed entered bytes (fun _ => 0) n (leave hook entered bytes n).2 := by
  cases entered with
  | false =>
    exact ⟨rfl, rfl, ⟨true, (List.append_nil _).symm⟩, fun _ => rfl, fun _ => (UInt32.sub_zero _).symm⟩
  | true => exact ⟨rfl, rfl, ⟨_, rfl⟩, fun _ => rfl, fun _ => (UInt32.sub_zero _).symm⟩

theorem subRecursion_leave_closed (entered : Bool) (bytes caller : Nat) (n : Machine) :
    Closed entered bytes (one caller) n (leave hook entered bytes (subRecursion caller n)).2 := by
  have hc := leave_closed hook entered bytes (subRecursion caller n)
  refine ⟨hc.next, hc.calls, hc.trace, fun e => ?_, fun e => ?_⟩
  · rw [hc.resets]
    unfold subRecursion
    rw [modify_envs]
    by_cases he : e = caller
    · rw [if_pos he, he]
    · rw [if_neg he]
  · rw [hc.counter]
    unfold subRecursion one
    rw [modify_envs]
    by_cases he : e = caller
    · rw [if_pos he, if_pos he, he]
      exact UInt32.sub_zero _
    · rw [if_neg he, if_neg he]

theorem Closed.abort {d : Nat → Nat} (h : Closed entered bytes d n m) (e : Nat) :
    Closed entered bytes d n (m.abort e) := by
  have henvs : ∀ i, ((m.abort e).envs i).resets = (m.envs i).resets ∧
      ((m.abort e).envs i).currRecursion = (m.envs i).currRecursion := by
    intro i
    unfold Machine.abort
    rw [modify_envs]
    by_cases hi : i = e
    · rw [if_pos hi, hi]
      exact ⟨rfl, rfl⟩
    · rw [if_neg hi]
      exact ⟨rfl, rfl⟩
  exact ⟨h.next, h.calls, h.trace, fun i => (henvs i).1.trans (h.resets i),
    fun i => (henvs i).2.trans (h.counter i)⟩

/-! The entry of a call. -/

theorem enter_refused {e : Nat} (h : enter hook e bytes m = (false, n)) : Law m n ∧ n.envs = m.envs := by
  unfold enter at h
  by_cases hs : (m.envs e).safePoint = true
  · rw [if_pos hs] at h
    obtain ⟨hacc, rfl⟩ := Prod.mk.inj h
    refine ⟨?_, rfl⟩
    refine ⟨Nat.le_refl _, Nat.le_refl _, ⟨_, rfl, Balanced.single ?_⟩, fun _ _ => Nat.le_refl _,
      fun _ _ _ => rfl, fun _ _ h => absurd rfl h⟩
    unfold frameMark
    simp [hacc]
  · rw [if_neg hs] at h
    cases h

theorem enter_opened {e : Nat} (h : enter hook e bytes m = (true, n)) :
    Opened (m.envs e).safePoint bytes (fun _ => 0) m n := by
  unfold enter at h
  cases hs : (m.envs e).safePoint with
  | true =>
    rw [if_pos hs] at h
    obtain ⟨hacc, rfl⟩ := Prod.mk.inj h
    refine ⟨Nat.le_refl _, fun _ => Nat.le_refl _, ?_, fun _ _ => rfl, fun _ _ => (UInt32.add_zero _).symm⟩
    show m.trace ++ [⟨.functionEnter, bytes, hook m.trace .functionEnter bytes⟩] = _
    rw [hacc]
    rfl
  | false =>
    rw [if_neg (by rw [hs]; exact Bool.false_ne_true)] at h
    cases h
    exact ⟨Nat.le_refl _, fun _ => Nat.le_refl _, (List.append_nil _).symm, fun _ _ => rfl,
      fun _ _ => (UInt32.add_zero _).symm⟩

theorem Opened.addRecursion (h : Opened entered bytes (fun _ => 0) m n) (caller : Nat) :
    Opened entered bytes (one caller) m (addRecursion caller n) where
  next := h.next
  calls e := by
    have hcalls := h.calls e
    show m.calls + one caller e ≤ n.calls + 1
    unfold one
    split <;> omega
  trace := h.trace
  resets e he := by
    rw [addRecursion_envs]
    by_cases hc : e = caller
    · rw [if_pos hc, ← hc]
      exact h.resets e he
    · rw [if_neg hc]
      exact h.resets e he
  counter e he := by
    have hcount : (n.envs e).currRecursion = (m.envs e).currRecursion :=
      (h.counter e he).trans (UInt32.add_zero _)
    unfold one
    rw [addRecursion_envs]
    by_cases hc : e = caller
    · rw [if_pos hc, if_pos hc, ← hc]
      show (n.envs e).currRecursion + 1 = _
      rw [hcount]
      rfl
    · rw [if_neg hc, if_neg hc, hcount]
      exact (UInt32.add_zero _).symm

/-- What a call keeps. When its caller's environment is reset, at least its own frame counts
    down from 0. -/
structure CallLaw (caller : Nat) (m m' : Machine) : Prop extends Law m m' where
  owes : caller < m.next → (m'.envs caller).resets ≠ (m.envs caller).resets →
    ∃ k, 1 ≤ k ∧ k ≤ m'.calls - m.calls ∧ (m'.envs caller).currRecursion = 0 - UInt32.ofNat k

theorem CallLaw.of_untouched {caller : Nat} (h : Law m m')
    (hr : (m'.envs caller).resets = (m.envs caller).resets) : CallLaw caller m m' where
  toLaw := h
  owes _ hne := absurd hr hne

theorem CallLaw.frame {caller : Nat} (ho : Opened entered bytes (one caller) m n) (h : Law n n')
    (hc : Closed entered bytes (one caller) n' m') : CallLaw caller m m' where
  toLaw := Law.frame ho h hc
  owes hcaller hr := by
    obtain ⟨k, hk, hcalls, hcount⟩ := frame_owing ho h hc caller hcaller hr
    refine ⟨k, ?_, hcalls, hcount⟩
    unfold one at hk
    rwa [if_pos rfl] at hk

theorem CallLaw.refused {caller : Nat} (h : enter hook caller bytes m = (false, n)) :
    CallLaw caller m (n.abort caller) := by
  obtain ⟨hlaw, henvs⟩ := enter_refused hook h
  refine .of_untouched (hlaw.trans (Law.abort n caller)) ?_
  rw [abort_resets, henvs]

theorem CallLaw.abandoned {caller : Nat} (ho : Opened entered bytes (one caller) m n) :
    CallLaw caller m (leave hook entered bytes (subRecursion caller (n.abort caller))).2 :=
  CallLaw.frame ho (Law.abort n caller) (subRecursion_leave_closed hook entered bytes caller _)

/-! The three routines. -/

variable {inside : Nat → Machine → Machine}

theorem evalScriptFunction_law (hinside : ∀ frame m, Law m (inside frame m))
    (isScript mallocFails : Bool) (argc parent caller : Nat) (m : Machine) :
    CallLaw caller m
      (evalScriptFunction sizes hook isScript mallocFails argc parent caller inside m).2 := by
  unfold evalScriptFunction
  split
  · exact .of_untouched (Law.refl m) rfl
  · split
    · exact .of_untouched (Law.abort m caller) (abort_resets m caller caller)
    · dsimp only
      generalize hn : enter hook caller (frameBytes sizes argc) m = x
      obtain ⟨accepted, n⟩ := x
      cases accepted with
      | false => exact CallLaw.refused hook hn
      | true =>
        have ho := (enter_opened hook hn).addRecursion caller
        dsimp only
        rw [if_neg (by decide)]
        generalize Frames.addRecursion caller n = n₁ at ho
        split
        · -- the recursion limit
          exact CallLaw.abandoned hook ho
        · split
          · -- no memory for the frame
            exact CallLaw.abandoned hook ho
          · have hbody : Law n₁ (inside n₁.next (n₁.child caller)) :=
              (Law.child n₁ caller).trans (hinside _ _)
            generalize inside n₁.next (n₁.child caller) = n₂ at hbody
            have hflag : Law n₂ (n₂.modify caller fun r =>
                { r with aborted := (n₂.envs n₁.next).aborted }) :=
              Law.modify n₂ caller _ fun _ => ⟨rfl, rfl⟩
            have hclosed := subRecursion_leave_closed hook (m.envs caller).safePoint
              (frameBytes sizes argc) caller
            apply CallLaw.frame ho (hbody.trans hflag)
            split
            · exact hclosed _
            · exact (hclosed _).abort caller

theorem hostExportCall_law (hinside : ∀ frame m, Law m (inside frame m)) (valid : Bool)
    (argc : Nat) (m : Machine) :
    CallLaw 0 m (hostExportCall sizes hook valid argc inside m).2 := by
  unfold hostExportCall
  split
  · exact .of_untouched (Law.refl m) rfl
  · dsimp only
    generalize hn : enter hook 0 (frameBytes sizes argc) m = x
    obtain ⟨accepted, n⟩ := x
    cases accepted with
    | false => exact CallLaw.refused hook hn
    | true =>
      have ho := (enter_opened hook hn).addRecursion 0
      dsimp only
      rw [if_neg (by decide)]
      generalize Frames.addRecursion 0 n = n₁ at ho
      split
      · exact CallLaw.abandoned hook ho
      · have hclosed := subRecursion_leave_closed hook (m.envs 0).safePoint (frameBytes sizes argc) 0
        apply CallLaw.frame ho ((Law.child n₁ 0).trans (hinside _ _))
        split
        · exact (hclosed _).abort 0
        · exact hclosed _

theorem tryNativeNumeric_law (hinside : ∀ frame m, Law m (inside frame m)) (argc steps : Nat)
    (m : Machine) : Law m (tryNativeNumeric sizes hook argc steps inside m).2 := by
  unfold tryNativeNumeric
  split
  · exact Law.refl m
  · dsimp only
    generalize hn : enter hook 0 (frameBytes sizes argc) m = x
    obtain ⟨accepted, n⟩ := x
    cases accepted with
    | false => exact (enter_refused hook hn).1.trans (Law.abort n 0)
    | true =>
      have ho := enter_opened hook hn
      have hclosed := leave_closed hook (m.envs 0).safePoint (frameBytes sizes argc)
      -- the charge of the steps, if there is a hook
      have hsteps : Law n
          (if (m.envs 0).safePoint = true then issue hook .step steps n else (true, n)).2 := by
        split
        · exact Law.issue hook n .step steps ⟨by decide, by decide⟩
        · exact Law.refl n
      dsimp only
      rw [if_neg (by decide)]
      generalize (if (m.envs 0).safePoint = true then issue hook .step steps n else (true, n)) = y at hsteps
      obtain ⟨charged, n'⟩ := y
      cases charged with
      | false => exact Law.frame ho (hsteps.trans (Law.abort n' 0)) (hclosed _)
      | true =>
        dsimp only
        rw [if_neg (by decide)]
        apply Law.frame ho (hsteps.trans (hinside 0 n'))
        split
        · exact hclosed _
        · split
          · exact hclosed _
          · exact (hclosed _).abort 0

theorem runRoutine_law (hinside : ∀ frame m, Law m (inside frame m)) (r : Routine) (argc : Nat)
    (m : Machine) : Law m (runRoutine sizes hook r argc inside m).2 := by
  cases r with
  | script isScript mallocFails parent caller =>
    exact (evalScriptFunction_law sizes hook hinside isScript mallocFails argc parent caller m).toLaw
  | hostExport valid => exact (hostExportCall_law sizes hook hinside valid argc m).toLaw
  | nativeNumeric steps => exact tryNativeNumeric_law sizes hook hinside argc steps m

/-! Whole programs. -/

theorem resetRuntimeState_law (m : Machine) : Law m (resetRuntimeState m) where
  next := Nat.le_refl _
  calls := Nat.le_refl _
  trace := ⟨[], (List.append_nil _).symm, Balanced.nil⟩
  resets e _ := by
    unfold resetRuntimeState
    rw [modify_envs]
    by_cases h : e = 0
    · rw [if_pos h, h]
      exact Nat.le_succ _
    · refine Nat.le_of_eq ?_
      rw [if_neg h]
  counter e _ hr := by
    unfold resetRuntimeState at hr ⊢
    rw [modify_envs] at hr ⊢
    by_cases h : e = 0
    · -- the environment that is reset
      rw [if_pos h, h] at hr
      exact absurd hr (Nat.succ_ne_self _)
    · rw [if_neg h]
  owing e _ hr := by
    unfold resetRuntimeState at hr ⊢
    rw [modify_envs] at hr ⊢
    by_cases h : e = 0
    · rw [if_pos h]
      exact ⟨0, Nat.zero_le _, rfl⟩
    · rw [if_neg h] at hr
      exact absurd rfl hr

theorem Law.swapped {r : EnvRec} (h : Law (m.modify 0 fun _ => r) n) :
    Law m (n.modify 0 fun _ => m.envs 0) where
  next := h.next
  calls := h.calls
  trace := h.trace
  resets e he := by
    have hr := h.resets e he
    rw [modify_envs] at hr ⊢
    by_cases h0 : e = 0
    · refine Nat.le_of_eq ?_
      rw [if_pos h0, h0]
    · rw [if_neg h0] at hr ⊢
      exact hr
  counter e he hr := by
    have hcount := h.counter e he
    rw [modify_envs] at hcount hr ⊢
    by_cases h0 : e = 0
    · rw [if_pos h0, h0]
    · rw [if_neg h0] at hcount hr ⊢
      exact hcount hr
  owing e he hr := by
    have hown := h.owing e he
    rw [modify_envs] at hown hr ⊢
    by_cases h0 : e = 0
    · rw [if_pos h0, h0] at hr
      exact absurd rfl hr
    · rw [if_neg h0] at hown hr ⊢
      exact hown hr

theorem run_law (p : Prog) (m : Machine) : Law m (run sizes hook p m) := by
  induction p generalizing m with
  | done => exact Law.refl m
  | charge kind cost k ih => exact (Law.issue hook m kind cost kind.2).trans (ih _ _)
  | abort e k ih => exact (Law.abort m e).trans (ih _)
  | scope e k ih => exact (Law.child m e).trans (ih _ _)
  | call r argc inside k hinside ih =>
    exact (runRoutine_law sizes hook (fun frame m => hinside frame m) r argc m).trans (ih _ _)
  | rerun script k hscript ih =>
    exact ((resetRuntimeState_law m).trans (hscript _)).trans (ih _)
  | importModule script k hscript ih =>
    have hswap : Law m ((run sizes hook script
        (resetRuntimeState (m.modify 0 fun _ => {}))).modify 0 fun _ => m.envs 0) :=
      Law.swapped ((resetRuntimeState_law _).trans (hscript _))
    exact hswap.trans (ih _)

/-- A script call: through `eval_script_function`, or through `ts_mir_host_export_call`, whose
    caller is the context's environment. -/
inductive ScriptCall
  | script (isScript mallocFails : Bool) (parent caller : Nat)
  | hostExport (valid : Bool)
  deriving DecidableEq, Repr

def ScriptCall.routine : ScriptCall → Routine
  | .script isScript mallocFails parent caller => .script isScript mallocFails parent caller
  | .hostExport valid => .hostExport valid

def ScriptCall.caller : ScriptCall → Nat
  | .script _ _ _ caller => caller
  | .hostExport _ => 0

/-- The machine after a call with these arguments and this program inside it. -/
def afterCall (c : ScriptCall) (argc : Nat) (inside : Nat → Prog) (m : Machine) : Machine :=
  (runRoutine sizes hook c.routine argc (fun frame => run sizes hook (inside frame)) m).2

theorem afterCall_law (c : ScriptCall) (argc : Nat) (inside : Nat → Prog) (m : Machine) :
    CallLaw c.caller m (afterCall sizes hook c argc inside m) := by
  have hinside := fun frame m => run_law sizes hook (inside frame) m
  cases c with
  | script isScript mallocFails parent caller =>
    exact evalScriptFunction_law sizes hook hinside isScript mallocFails argc parent caller m
  | hostExport valid => exact hostExportCall_law sizes hook hinside valid argc m

/-- The frame safe points of a stretch: every exit matches the last open entry and carries its
    cost, and there are as many as accepted entries. -/
def FramesMatch (m m' : Machine) : Prop :=
  ∃ l, m'.trace = m.trace ++ l ∧ Balanced frameMark l ∧ opened frameMark l = closed frameMark l

end Runs

section Samples

def sampleMachine : Machine where
  envs _ := { safePoint := true }
  next := 1

def sampleSizes : Sizes := ⟨400, 48, 2 ^ 64 - 1⟩

def accepting : List SafePoint → SafePointKind → Nat → Bool := fun _ _ _ => true

/-- `g` called from `f`, whose body then imports a module by `import_module`. -/
def nestedBody : Prog :=
  .call (.script true false 0 1) 1 (fun _ => .done) fun _ => .importModule .done .done

end Samples

end TurboScript.Host.Frames
