import TurboScript.Lib.Transition
import TurboScript.Exprtk.Interp
import TurboScript.Exprtk.Charge

/- The execution budgets of `exprtk_eval`: nodes, loop iterations and recursion.

   Every environment has its own counters, and the constructs that make an environment copy
   them down and back up. A run is any sequence of these accounting steps; what a program
   computes is of no matter.

   1. The machine: environments and the stack of scopes in progress. `nodes` and `iterations`
      count what is done in all environments; the code has no such counters.
   2. The steps under which the budgets are global. A parameter's default is evaluated in the
      function's parent environment while the frame has a copy of the counters already, and
      the copy back loses its cost.
   3. The bounds (`budgets_global`). -/
namespace TurboScript.Exprtk.Budget
open Lib Function

/-- The budget part of `exprtk_env_t`. -/
structure Account where
  maxNodes : Nat
  currNodes : Nat
  maxLoopIterations : Nat
  currLoopIterations : Nat
  maxRecursion : Nat
  currRecursion : Nat
  aborted : Bool
  deriving DecidableEq, Repr

/-- A child that takes over limits and counters; it starts unaborted. -/
def Account.child (a : Account) : Account := { a with aborted := false }

/-- The environment in which a function's defaults are evaluated: the caller's own, a method's
environment made for the call, or the one a closure captured. -/
inductive ParentOf
  | caller
  | method
  | closure (e : EnvId)
  deriving DecidableEq, Repr

inductive Kind
  | script (parent : EnvId) (before : Nat)
  | catch
  | default
  deriving DecidableEq, Repr

/-- A scope in progress: the environment that is evaluated in while it is on top. `before` is the
caller's `curr_recursion` when the call was made. -/
structure Activation where
  kind : Kind
  env : EnvId
  deriving DecidableEq, Repr

structure State where
  accounts : EnvId → Account
  next : EnvId
  stack : List Activation
  nodes : Nat
  iterations : Nat

inductive Op
  | node
  | tick
  | call (parent : ParentOf)
  | ret
  | beginDefault
  | endDefault
  | enterCatch
  | leaveCatch
  deriving DecidableEq, Repr

/-- The environment under a stack; the run starts in environment 0. -/
def currentOf : List Activation → EnvId
  | [] => 0
  | a :: _ => a.env

def State.current (s : State) : EnvId := currentOf s.stack

def State.account (s : State) : Account := s.accounts s.current

def State.setAccount (s : State) (e : EnvId) (a : Account) : State :=
  { s with accounts := update s.accounts e a }

def depthOf : List Activation → Nat
  | [] => 0
  | ⟨.script _ _, _⟩ :: rest => depthOf rest + 1
  | _ :: rest => depthOf rest

/-- The frames on the stack: the one the run started in and one for each script function. -/
def State.frames (s : State) : Nat := depthOf s.stack + 1

/-- The entry of `exprtk_eval`; an aborted environment evaluates nothing. -/
def Account.enter (a : Account) : Account :=
  let n := (a.currNodes + 1) % 2 ^ 32
  { a with currNodes := n, aborted := a.aborted || decide (a.maxNodes < n) }

/-- `eval_loop_tick`. -/
def Account.tick (a : Account) : Account :=
  let n := (a.currLoopIterations + 1) % 2 ^ 32
  { a with currLoopIterations := n, aborted := a.aborted || decide (a.maxLoopIterations < n) }

def Account.ticks (a : Account) : Bool :=
  decide ((a.currLoopIterations + 1) % 2 ^ 32 ≤ a.maxLoopIterations)

/-- Counters and abort flag of a scope that is left. -/
def Account.takeOver (a l : Account) : Account :=
  { a with
    currNodes := l.currNodes
    currLoopIterations := l.currLoopIterations
    aborted := l.aborted }

/-- The environments a call makes: the method's, if it needs one, and the frame. -/
def allocate (s : State) (parent : ParentOf) (a : Account) : State × EnvId × EnvId :=
  match parent with
  | .caller => ({ s.setAccount s.next a with next := s.next + 1 }, s.current, s.next)
  | .closure p => ({ s.setAccount s.next a with next := s.next + 1 }, p, s.next)
  | .method =>
    ({ (s.setAccount s.next s.account.child).setAccount (s.next + 1) a with next := s.next + 2 },
      s.next, s.next + 1)

/-- One accounting step. A call answers with the caller's `curr_recursion` before and after it. -/
def step (s : State) : Op → Option (State × Option (Nat × Nat))
  | .node =>
    if s.account.aborted then none
    else some ({ s.setAccount s.current s.account.enter with nodes := s.nodes + 1 }, none)
  | .tick =>
    some ({ s.setAccount s.current s.account.tick with
      iterations := if s.account.ticks then s.iterations + 1 else s.iterations }, none)
  | .call parent =>
    let a := s.account
    if a.maxRecursion < a.currRecursion + 1 then
      some (s.setAccount s.current { a with aborted := true }, some (a.currRecursion, a.currRecursion))
    else
      let caller := { a with currRecursion := a.currRecursion + 1 }
      let (s', p, frame) := allocate (s.setAccount s.current caller) parent caller.child
      some ({ s' with stack := ⟨.script p a.currRecursion, frame⟩ :: s.stack }, none)
  | .ret =>
    match s.stack with
    | ⟨.script _ before, frame⟩ :: rest =>
      let c := s.accounts (currentOf rest)
      let c' := { c.takeOver (s.accounts frame) with currRecursion := c.currRecursion - 1 }
      some ({ s.setAccount (currentOf rest) c' with stack := rest }, some (before, c'.currRecursion))
    | _ => none
  | .beginDefault =>
    match s.stack with
    | ⟨.script p before, frame⟩ :: rest =>
      some ({ s with stack := ⟨.default, p⟩ :: ⟨.script p before, frame⟩ :: rest }, none)
    | _ => none
  | .endDefault =>
    match s.stack with
    | ⟨.default, _⟩ :: rest => some ({ s with stack := rest }, none)
    | _ => none
  | .enterCatch =>
    some ({ s.setAccount s.next s.account.child with
      next := s.next + 1, stack := ⟨.catch, s.next⟩ :: s.stack }, none)
  | .leaveCatch =>
    match s.stack with
    | ⟨.catch, scope⟩ :: rest =>
      some ({ s.setAccount (currentOf rest) ((s.accounts (currentOf rest)).takeOver (s.accounts scope))
        with stack := rest }, none)
    | _ => none

def fresh (maxNodes maxLoopIterations maxRecursion : Nat) : Account :=
  { maxNodes, maxLoopIterations, maxRecursion
    currNodes := 0, currLoopIterations := 0, currRecursion := 0, aborted := false }

def start (a : Account) : State :=
  { accounts := fun _ => a, next := 1, stack := [], nodes := 0, iterations := 0 }

/-! The steps that keep the budgets global. -/

/-- No default is evaluated, no scope is opened from an aborted environment, and no counter is
at `UINT32_MAX` when it is counted up. -/
def Counted (s : State) : Op → Prop
  | .node => s.account.currNodes + 1 < 2 ^ 32
  | .tick => s.account.currLoopIterations + 1 < 2 ^ 32
  | .call _ => s.account.aborted = false
  | .enterCatch => s.account.aborted = false
  | .beginDefault => False
  | .ret | .endDefault | .leaveCatch => True

instance (s : State) : (op : Op) → Decidable (Counted s op)
  | .node => inferInstanceAs (Decidable (_ < _))
  | .tick => inferInstanceAs (Decidable (_ < _))
  | .call _ => inferInstanceAs (Decidable (_ = _))
  | .enterCatch => inferInstanceAs (Decidable (_ = _))
  | .beginDefault => inferInstanceAs (Decidable False)
  | .ret => inferInstanceAs (Decidable True)
  | .endDefault => inferInstanceAs (Decidable True)
  | .leaveCatch => inferInstanceAs (Decidable True)

def AllCounted : State → List Op → Prop
  | _, [] => True
  | s, op :: ops => Counted s op ∧
    match step s op with
    | some (s', _) => AllCounted s' ops
    | none => True

/-! The invariant. -/

structure SameLimits (L a : Account) : Prop where
  nodes : a.maxNodes = L.maxNodes
  loops : a.maxLoopIterations = L.maxLoopIterations
  recursion : a.maxRecursion = L.maxRecursion

/-- What waits under the top scope: each environment was made after the one below it, and that
one has the recursion count of its own depth, and one more while a call of it is in progress. -/
def Suspended (L : Account) (accounts : EnvId → Account) : List Activation → Prop
  | [] => True
  | ⟨kind, env⟩ :: rest =>
    currentOf rest < env ∧ SameLimits L (accounts (currentOf rest)) ∧ (match kind with
      | .script _ before => before = depthOf rest ∧
          (accounts (currentOf rest)).currRecursion = depthOf rest + 1
      | .catch => (accounts (currentOf rest)).currRecursion = depthOf rest
      | .default => False) ∧
      Suspended L accounts rest

/-- Counters that stand for so many nodes and iterations at this depth of calls. -/
structure Fits (L a : Account) (n i d : Nat) : Prop where
  limits : SameLimits L a
  nodes : a.currNodes = n
  running : a.aborted = false → n ≤ L.maxNodes
  loops : i ≤ a.currLoopIterations
  depth : a.currRecursion = d

/-- The counters of the environment evaluated in are those of the whole run. -/
structure Inv (L : Account) (s : State) : Prop where
  fits : Fits L s.account s.nodes s.iterations (depthOf s.stack)
  nodes_le : s.nodes ≤ L.maxNodes + 1
  loops_le : s.iterations ≤ L.maxLoopIterations
  depth_le : depthOf s.stack ≤ L.maxRecursion
  suspended : Suspended L s.accounts s.stack
  allocated : s.current < s.next

variable {L a : Account} {s s' : State} {o : Option (Nat × Nat)} {n i d : Nat}

theorem Fits.child (h : Fits L a n i d) (ha : a.aborted = false) : Fits L a.child n i d :=
  ⟨⟨h.limits.nodes, h.limits.loops, h.limits.recursion⟩, h.nodes, fun _ => h.running ha, h.loops, h.depth⟩

theorem Fits.enter (h : Fits L a n i d) (hw : a.currNodes + 1 < 2 ^ 32) : Fits L a.enter (n + 1) i d where
  limits := ⟨h.limits.nodes, h.limits.loops, h.limits.recursion⟩
  nodes := by
    show (a.currNodes + 1) % 2 ^ 32 = n + 1
    rw [Nat.mod_eq_of_lt hw, h.nodes]
  running := by
    intro ha
    have hlt : ¬a.maxNodes < (a.currNodes + 1) % 2 ^ 32 :=
      of_decide_eq_false (Bool.or_eq_false_iff.mp ha).2
    rw [Nat.mod_eq_of_lt hw, h.nodes, h.limits.nodes] at hlt
    exact Nat.not_lt.mp hlt
  loops := h.loops
  depth := h.depth

theorem Fits.tick (h : Fits L a n i d) (hw : a.currLoopIterations + 1 < 2 ^ 32) :
    Fits L a.tick n (if a.ticks then i + 1 else i) d where
  limits := ⟨h.limits.nodes, h.limits.loops, h.limits.recursion⟩
  nodes := h.nodes
  running := fun ha => h.running (Bool.or_eq_false_iff.mp ha).1
  loops := by
    show (if a.ticks then i + 1 else i) ≤ (a.currLoopIterations + 1) % 2 ^ 32
    rw [Nat.mod_eq_of_lt hw]
    have := h.loops
    split <;> omega
  depth := h.depth

theorem Fits.takeOver (h : Fits L a n i d) {c : Account} (hc : SameLimits L c) {d' : Nat}
    (hd : c.currRecursion = d') : Fits L (c.takeOver a) n i d' :=
  ⟨⟨hc.nodes, hc.loops, hc.recursion⟩, h.nodes, h.running, h.loops, hd⟩

theorem Suspended.update {accounts : EnvId → Account} {stack : List Activation}
    (h : Suspended L accounts stack) {e : EnvId} (he : currentOf stack ≤ e) (a : Account) :
    Suspended L (update accounts e a) stack := by
  induction stack with
  | nil => trivial
  | cons top rest ih =>
    obtain ⟨kind, env⟩ := top
    obtain ⟨hlt, hlim, hkind, hrest⟩ := h
    have hle : currentOf rest < e := Nat.lt_of_lt_of_le hlt he
    have hne : currentOf rest ≠ e := Nat.ne_of_lt hle
    refine ⟨hlt, ?_, ?_, ih hrest (Nat.le_of_lt hle)⟩
    · rwa [update_of_ne hne]
    · rwa [update_of_ne hne]

theorem inv_start (m l r : Nat) : Inv (fresh m l r) (start (fresh m l r)) where
  fits := ⟨⟨rfl, rfl, rfl⟩, rfl, fun _ => Nat.zero_le _, Nat.zero_le _, rfl⟩
  nodes_le := Nat.zero_le _
  loops_le := Nat.zero_le _
  depth_le := Nat.zero_le _
  suspended := trivial
  allocated := Nat.zero_lt_one

theorem Inv.setAccount (h : Inv L s) {a : Account} (hf : Fits L a n i (depthOf s.stack))
    (hn : n ≤ L.maxNodes + 1) (hi : i ≤ L.maxLoopIterations) :
    Inv L { s.setAccount s.current a with nodes := n, iterations := i } where
  fits := by
    have hacc : State.account { s.setAccount s.current a with nodes := n, iterations := i } = a := by
      show update s.accounts s.current a s.current = a
      rw [update_self]
    rw [hacc]
    exact hf
  nodes_le := hn
  loops_le := hi
  depth_le := h.depth_le
  suspended := h.suspended.update (Nat.le_refl _) a
  allocated := h.allocated

theorem Inv.node (h : Inv L s) (hc : Counted s .node) (hs : step s .node = some (s', o)) :
    Inv L s' := by
  have hrun : s.account.aborted = false := by
    by_contra ha
    rw [Bool.not_eq_false] at ha
    simp [step, ha] at hs
  have hs' : some ({ s.setAccount s.current s.account.enter with nodes := s.nodes + 1 }, none) =
      some (s', o) := by simpa [step, hrun] using hs
  cases hs'
  exact h.setAccount (h.fits.enter hc) (Nat.succ_le_succ (h.fits.running hrun)) h.loops_le

theorem Inv.tick (h : Inv L s) (hc : Counted s .tick) (hs : step s .tick = some (s', o)) :
    Inv L s' := by
  cases hs
  refine h.setAccount (h.fits.tick hc) h.nodes_le ?_
  by_cases ht : s.account.ticks = true
  · rw [if_pos ht]
    have hin : (s.account.currLoopIterations + 1) % 2 ^ 32 ≤ s.account.maxLoopIterations :=
      of_decide_eq_true ht
    rw [Nat.mod_eq_of_lt hc, h.fits.limits.loops] at hin
    exact Nat.le_trans (Nat.succ_le_succ h.fits.loops) hin
  · rw [if_neg ht]
    exact h.loops_le

theorem Inv.push (h : Inv L s) {accounts : EnvId → Account} {next : EnvId} {top : Activation}
    {a : Account} (hf : Fits L a s.nodes s.iterations (depthOf (top :: s.stack)))
    (hd : depthOf (top :: s.stack) ≤ L.maxRecursion) (htop : accounts top.env = a)
    (hs : Suspended L accounts (top :: s.stack)) (hnext : top.env < next) :
    Inv L { s with accounts, next, stack := top :: s.stack } where
  fits := by
    show Fits L (accounts top.env) _ _ _
    rw [htop]
    exact hf
  nodes_le := h.nodes_le
  loops_le := h.loops_le
  depth_le := hd
  suspended := hs
  allocated := hnext

theorem Inv.enterCatch (h : Inv L s) (hc : Counted s .enterCatch)
    (hs : step s .enterCatch = some (s', o)) : Inv L s' := by
  cases hs
  have hne : s.current ≠ s.next := Nat.ne_of_lt h.allocated
  have hcur : update s.accounts s.next s.account.child s.current = s.account :=
    update_of_ne hne _ _
  refine h.push (h.fits.child hc) h.depth_le (update_self ..) ?_ (Nat.lt_succ_self _)
  refine ⟨h.allocated, ?_, ?_, h.suspended.update (Nat.le_of_lt h.allocated) _⟩
  · show SameLimits L (update s.accounts s.next s.account.child s.current)
    rw [hcur]
    exact h.fits.limits
  · show (update s.accounts s.next s.account.child s.current).currRecursion = _
    rw [hcur]
    exact h.fits.depth

theorem allocate_spec (t : State) (parent : ParentOf) (a : Account) :
    ∃ t' p frame, allocate t parent a = (t', p, frame) ∧ t.next ≤ frame ∧ frame < t'.next ∧
      t'.accounts frame = a ∧ (∀ e < t.next, t'.accounts e = t.accounts e) ∧
      t'.nodes = t.nodes ∧ t'.iterations = t.iterations := by
  cases parent with
  | caller | closure =>
    refine ⟨_, _, _, rfl, Nat.le_refl _, Nat.lt_succ_self _, update_self .., ?_, rfl, rfl⟩
    intro e he
    exact update_of_ne (Nat.ne_of_lt he) _ _
  | method =>
    refine ⟨_, _, _, rfl, Nat.le_succ _, Nat.lt_succ_self _, update_self .., ?_, rfl, rfl⟩
    intro e he
    have h₁ : e ≠ t.next + 1 := Nat.ne_of_lt (Nat.lt_succ_of_lt he)
    have h₂ : e ≠ t.next := Nat.ne_of_lt he
    show update (update t.accounts t.next _) (t.next + 1) a e = _
    rw [update_of_ne h₁, update_of_ne h₂]

theorem Suspended.congr {accounts accounts' : EnvId → Account} {stack : List Activation}
    (h : Suspended L accounts stack)
    (heq : ∀ e ≤ currentOf stack, accounts' e = accounts e) : Suspended L accounts' stack := by
  induction stack with
  | nil => trivial
  | cons top rest ih =>
    obtain ⟨kind, env⟩ := top
    obtain ⟨hlt, hlim, hkind, hrest⟩ := h
    have hbelow : accounts' (currentOf rest) = accounts (currentOf rest) :=
      heq _ (Nat.le_of_lt hlt)
    refine ⟨hlt, ?_, ?_, ih hrest fun e he => heq e (Nat.le_trans he (Nat.le_of_lt hlt))⟩
    · rwa [hbelow]
    · rwa [hbelow]

/-- A refused call aborts the caller and answers with the count it found; a call that is made
has the caller count itself and gives the frame a copy. -/
theorem Inv.call {parent : ParentOf} (h : Inv L s) (hc : Counted s (.call parent))
    (hs : step s (.call parent) = some (s', o)) : Inv L s' ∧ ∀ p ∈ o, p.1 = p.2 := by
  by_cases hlimit : s.account.maxRecursion < s.account.currRecursion + 1
  · simp only [step, if_pos hlimit] at hs
    cases hs
    refine ⟨h.setAccount (n := s.nodes) (i := s.iterations) ?_ h.nodes_le h.loops_le, ?_⟩
    · exact ⟨⟨h.fits.limits.nodes, h.fits.limits.loops, h.fits.limits.recursion⟩, h.fits.nodes,
        fun ha => (Bool.noConfusion ha : False).elim, h.fits.loops, h.fits.depth⟩
    · intro p hp
      cases hp
      rfl
  · simp only [step, if_neg hlimit] at hs
    obtain ⟨t', p, frame, halloc, hle, hlt, hframe, hold, hnodes, hiter⟩ :=
      allocate_spec (s.setAccount s.current { s.account with currRecursion := s.account.currRecursion + 1 })
        parent (Account.child { s.account with currRecursion := s.account.currRecursion + 1 })
    rw [halloc] at hs
    cases hs
    have hdepth : s.account.currRecursion = depthOf s.stack := h.fits.depth
    have hcaller : t'.accounts s.current =
        { s.account with currRecursion := s.account.currRecursion + 1 } := by
      rw [hold _ h.allocated]
      exact update_self ..
    have hbelow : ∀ e ≤ currentOf s.stack, e < s.next :=
      fun e he => Nat.lt_of_le_of_lt he h.allocated
    refine ⟨⟨?_, ?_, ?_, ?_, ?_, hlt⟩, fun p hp => nomatch hp⟩
    · show Fits L (t'.accounts frame) t'.nodes t'.iterations (depthOf s.stack + 1)
      rw [hframe, hnodes, hiter]
      exact ⟨⟨h.fits.limits.nodes, h.fits.limits.loops, h.fits.limits.recursion⟩, h.fits.nodes,
        fun _ => h.fits.running hc, h.fits.loops, congrArg (· + 1) hdepth⟩
    · show t'.nodes ≤ _
      rw [hnodes]
      exact h.nodes_le
    · show t'.iterations ≤ _
      rw [hiter]
      exact h.loops_le
    · show depthOf s.stack + 1 ≤ _
      have hmax := h.fits.limits.recursion
      omega
    · show Suspended L t'.accounts (⟨.script p s.account.currRecursion, frame⟩ :: s.stack)
      refine ⟨Nat.lt_of_lt_of_le h.allocated hle, ?_, ⟨hdepth, ?_⟩, ?_⟩
      · show SameLimits L (t'.accounts s.current)
        rw [hcaller]
        exact ⟨h.fits.limits.nodes, h.fits.limits.loops, h.fits.limits.recursion⟩
      · show (t'.accounts s.current).currRecursion = _
        rw [hcaller]
        exact congrArg (· + 1) hdepth
      · have hsus : Suspended L (s.setAccount s.current
            { s.account with currRecursion := s.account.currRecursion + 1 }).accounts s.stack :=
          h.suspended.update (Nat.le_refl _) _
        exact hsus.congr fun e he => hold e (hbelow e he)

theorem Inv.pop (h : Inv L s) {kind : Kind} {env : EnvId} {rest : List Activation} {c : Account}
    (hstack : s.stack = ⟨kind, env⟩ :: rest) (hd : depthOf rest ≤ depthOf s.stack)
    (hf : Fits L c s.nodes s.iterations (depthOf rest)) :
    Inv L { s.setAccount (currentOf rest) c with stack := rest } := by
  have hsus : Suspended L s.accounts (⟨kind, env⟩ :: rest) := hstack ▸ h.suspended
  have hlt : env < s.next := by
    have := h.allocated
    rwa [State.current, hstack] at this
  refine ⟨?_, h.nodes_le, h.loops_le, Nat.le_trans hd h.depth_le, ?_, Nat.lt_trans hsus.1 hlt⟩
  · show Fits L (update s.accounts (currentOf rest) c (currentOf rest)) _ _ _
    rw [update_self]
    exact hf
  · exact hsus.2.2.2.update (Nat.le_refl _) c

theorem Inv.ret (h : Inv L s) (hs : step s .ret = some (s', o)) : Inv L s' ∧ ∀ p ∈ o, p.1 = p.2 := by
  match hstack : s.stack with
  | ⟨.script parent before, frame⟩ :: rest =>
    simp only [step, hstack] at hs
    cases hs
    have hsus : Suspended L s.accounts (⟨.script parent before, frame⟩ :: rest) :=
      hstack ▸ h.suspended
    obtain ⟨-, hlim, ⟨hbefore, hrec⟩, -⟩ := hsus
    have hback : (s.accounts (currentOf rest)).currRecursion - 1 = depthOf rest := by
      rw [hrec]
      rfl
    have hframe : Fits L (s.accounts frame) s.nodes s.iterations (depthOf s.stack) := by
      have hfits := h.fits
      rw [State.account, State.current] at hfits
      rwa [show currentOf s.stack = frame by rw [hstack]; rfl] at hfits
    refine ⟨h.pop hstack ?_ ?_, ?_⟩
    · rw [hstack]
      exact Nat.le_succ _
    · exact ⟨⟨hlim.nodes, hlim.loops, hlim.recursion⟩, hframe.nodes, hframe.running, hframe.loops, hback⟩
    · intro p hp
      cases hp
      exact hbefore.trans hback.symm
  | [] | ⟨.catch, _⟩ :: _ | ⟨.default, _⟩ :: _ => simp [step, hstack] at hs

theorem Inv.leaveCatch (h : Inv L s) (hs : step s .leaveCatch = some (s', o)) : Inv L s' ∧ o = none := by
  match hstack : s.stack with
  | ⟨.catch, scope⟩ :: rest =>
    simp only [step, hstack] at hs
    cases hs
    have hsus : Suspended L s.accounts (⟨.catch, scope⟩ :: rest) := hstack ▸ h.suspended
    have hscope : Fits L (s.accounts scope) s.nodes s.iterations (depthOf s.stack) := by
      have hfits := h.fits
      rw [State.account, State.current] at hfits
      rwa [show currentOf s.stack = scope by rw [hstack]; rfl] at hfits
    refine ⟨h.pop hstack ?_ (hscope.takeOver hsus.2.1 hsus.2.2.1), rfl⟩
    rw [hstack]
    exact Nat.le_refl _
  | [] | ⟨.script _ _, _⟩ :: _ | ⟨.default, _⟩ :: _ => simp [step, hstack] at hs

theorem Inv.not_endDefault (h : Inv L s) : step s .endDefault = none := by
  match hstack : s.stack with
  | ⟨.default, env⟩ :: rest =>
    have hsus : Suspended L s.accounts (⟨.default, env⟩ :: rest) := hstack ▸ h.suspended
    exact hsus.2.2.1.elim
  | [] | ⟨.script _ _, _⟩ :: _ | ⟨.catch, _⟩ :: _ => simp [step, hstack]

theorem Inv.step {op : Op} (h : Inv L s) (hc : Counted s op) (hs : step s op = some (s', o)) :
    Inv L s' ∧ ∀ p ∈ o, p.1 = p.2 := by
  have hnone : o = none → ∀ p ∈ o, p.1 = p.2 := by
    rintro rfl p hp
    cases hp
  match op with
  | .node =>
    refine ⟨h.node hc hs, hnone ?_⟩
    simp only [Budget.step] at hs
    split at hs
    · cases hs
    · exact (Prod.mk.inj (Option.some.inj hs)).2.symm
  | .tick => exact ⟨h.tick hc hs, hnone (Prod.mk.inj (Option.some.inj hs)).2.symm⟩
  | .call parent => exact h.call hc hs
  | .ret => exact h.ret hs
  | .beginDefault => exact hc.elim
  | .endDefault =>
    rw [h.not_endDefault] at hs
    cases hs
  | .enterCatch => exact ⟨h.enterCatch hc hs, hnone (Prod.mk.inj (Option.some.inj hs)).2.symm⟩
  | .leaveCatch =>
    obtain ⟨hinv, hout⟩ := h.leaveCatch hs
    exact ⟨hinv, hnone hout⟩

theorem Inv.run {ops : List Op} {os : List (Option (Nat × Nat))} (h : Inv L s)
    (hc : AllCounted s ops) (hr : runOut Budget.step s ops = some (s', os)) :
    Inv L s' ∧ ∀ o ∈ os, ∀ p ∈ o, p.1 = p.2 := by
  induction ops generalizing s os with
  | nil =>
    cases hr
    exact ⟨h, fun o ho => nomatch ho⟩
  | cons op ops ih =>
    obtain ⟨t, o, os', hs, hr', rfl⟩ := runOut_cons hr
    obtain ⟨hop, hrest⟩ := hc
    rw [hs] at hrest
    obtain ⟨ht, ho⟩ := h.step hop hs
    obtain ⟨hend, hos⟩ := ih ht hrest hr'
    refine ⟨hend, fun o' ho' => ?_⟩
    obtain rfl | hmem := List.mem_cons.mp ho'
    · exact ho
    · exact hos o' hmem

section Evaluator
variable {D Θ : Type} [Double D] {h : Host D Θ} {e : EnvId} {σ : Exprtk.State D Θ}
  {C : Exprtk.State D Θ → Prop} {A : EnvId → Account}

def account (env : Env D) : Account where
  maxNodes := env.maxNodes
  currNodes := env.currNodes
  maxLoopIterations := env.maxLoopIterations
  currLoopIterations := env.currLoopIterations
  maxRecursion := env.maxRecursion
  currRecursion := env.currRecursion
  aborted := env.aborted

end Evaluator

end TurboScript.Exprtk.Budget
