import Mathlib.Tactic.Linarith
import TurboScript.Exprtk.Ieee
import TurboScript.Exprtk.Monitor
import TurboScript.Exprtk.Validate

/- Optional chaining.

   The parser builds `B?.m` as a conditional, `B == null ? null : B.m`, whose two mentions of
   `B` are one node (`optionalAccess`). The evaluator comes to that node twice, and so does
   `ts_host_ast_usage`.

   1. `evalChain` is the evaluation of a chain with a log of the receivers evaluated; without
      the log it is the evaluation of the tree (`evalChain_eval`).
   2. A receiver is evaluated at most twice in an evaluation of its link (`count_le`), and
      once if it is null (`null_chain`).
   3. The nodes that `ts_host_ast_usage` visits double with each link (`visits_chain`). -/
namespace TurboScript.Exprtk.OptionalChain
open Lib
open Triple (bind' fact' ite' pure')
open Validate (children)

section Chains
variable {D Θ : Type}

/-- `expr ::= expr QUESTION_DOT VARIABLE`. -/
def optionalAccess (receiver : Node D) (member : Name) : Node D :=
  .ifStmt (.binary .eq (some receiver) .null) (some .null) (some (.memberAccess receiver member))

/-- The tree of `B?.m1?.m2`, the last member first. There is no rule for an optional call. -/
def chainNode (base : Node D) : List Name → Node D
  | [] => base
  | member :: links => optionalAccess (chainNode base links) member

/-- The evaluations of the receivers with their values, in the order in which they end.
    Receiver 0 is the base, receiver `i` the chain of the first `i` links. -/
abbrev Log (D : Type) := List (Nat × Value D)

variable [Double D] [Formats] (h : Host D Θ)

/-- The checks of `exprtk_eval` on entry to a node. -/
def entered (e : EnvId) (m : Eval D Θ (Value D × Log D)) : Eval D Θ (Value D × Log D) := do
  if (← getEnv e).aborted then return (zero, [])
  else if ← evalStep h e then m
  else return (zero, [])

/-- The comparison with null, as a binary node evaluates it. -/
def testNull (e : EnvId) (null : Eval D Θ (Value D)) (m : Eval D Θ (Value D × Log D)) :
    Eval D Θ (Value D × Log D) := do
  let l ← m
  if !(← flowNormal e) then return (zero, l.2)
  else do
    let r ← null
    if !(← flowNormal e) then return (zero, l.2)
    else do
      let v ← binaryResult .eq l.1 r e
      return (v, l.2)

/-- The access to the member of a receiver that is evaluated for it. -/
def readMember (e : EnvId) (receiver : Node D) (member : Name)
    (m : Eval D Θ (Value D × Log D)) : Eval D Θ (Value D × Log D) := do
  let obj ← unchecked m
  let v ← memberValue h obj.1 receiver member e
  return (v, obj.2)

/-- The branches of the conditional, after its test. -/
def branches (e : EnvId) (null : Eval D Θ (Value D)) (read : Eval D Θ (Value D × Log D))
    (test : Value D × Log D) : Eval D Θ (Value D × Log D) := do
  if !(← flowNormal e) then return (zero, test.2)
  else if evalValueTruthy test.1 then do
    let v ← null
    return (v, test.2)
  else do
    let v ← read
    return (v.1, test.2 ++ v.2)

/-- A chain, the base of which is evaluated with `n` levels of fuel. -/
def evalChain (n : Nat) (base : Node D) (e : EnvId) : List Name → Eval D Θ (Value D × Log D)
  | [] => do
    let v ← (evaluators h n).eval base e
    return (v, [(0, v)])
  | member :: links => do
    let receiver := evalChain n base e links
    let fuel := n + 2 * links.length
    let v ← entered h e (do
      let test ← entered h e (testNull e ((evaluators h fuel).eval .null e) receiver)
      branches e ((evaluators h (fuel + 1)).eval .null e)
        (entered h e (readMember h e (chainNode base links) member receiver)) test)
    return (v.1, v.2 ++ [(links.length + 1, v.1)])

end Chains

section Forget
variable {D Θ : Type} [Double D] [Formats] {h : Host D Θ}

variable {e : EnvId} {n : Nat}

theorem entered_fst {m : Eval D Θ (Value D × Log D)} {node : Node D}
    (hm : Prod.fst <$> m = evalNode h (evaluators h n) n node e) :
    Prod.fst <$> entered h e m = (evaluators h (n + 1)).eval node e := by
  rw [evaluators]
  dsimp only
  rw [exprtkEval, ← hm, entered]
  simp only [map_bind]
  congr 1
  funext env
  split
  · simp
  · simp only [map_bind]
    congr 1
    funext step
    split <;> simp

theorem testNull_fst {m : Eval D Θ (Value D × Log D)} {receiver : Node D}
    (hm : Prod.fst <$> m = (evaluators h n).eval receiver e) :
    Prod.fst <$> testNull e ((evaluators h n).eval .null e) m =
      evalNode h (evaluators h n) n (.binary .eq (some receiver) .null) e := by
  simp only [evalNode, evalBinaryNode, evalOpt]
  rw [← hm, testNull]
  simp only [map_bind, bind_map_left]
  congr 1
  funext l
  congr 1
  funext normal
  split
  · simp
  · simp only [map_bind]
    congr 1
    funext r
    congr 1
    funext normal
    split <;> simp

theorem readMember_fst {m : Eval D Θ (Value D × Log D)} {receiver : Node D} {member : Name}
    (hm : Prod.fst <$> m = (evaluators h n).eval receiver e) :
    Prod.fst <$> readMember h e receiver member m =
      evalNode h (evaluators h n) n (.memberAccess receiver member) e := by
  simp only [evalNode, evalMemberAccess]
  rw [← hm, readMember]
  simp [unchecked]

omit [Formats] in
theorem branches_fst {null : Eval D Θ (Value D)} {read : Eval D Θ (Value D × Log D)}
    {test : Value D × Log D} :
    Prod.fst <$> branches e null read test = (do
      if !(← flowNormal e) then return zero
      else if evalValueTruthy test.1 then null
      else Prod.fst <$> read) := by
  rw [branches]
  simp only [map_bind]
  congr 1
  funext normal
  split
  · simp
  · split <;> simp

theorem evalChain_eval {base : Node D} (links : List Name) : Prod.fst <$> evalChain h n base e links =
      (evaluators h (n + 2 * links.length)).eval (chainNode base links) e := by
  induction links with
  | nil => simp [evalChain, chainNode]
  | cons member links ih =>
    have htest := entered_fst (testNull_fst ih)
    have hread : Prod.fst <$> entered h e (readMember h e (chainNode base links) member
        (evalChain h n base e links)) = (evaluators h (n + 2 * links.length + 1)).eval
          (.memberAccess (chainNode base links) member) e := entered_fst (readMember_fst ih)
    have hfuel : n + 2 * (member :: links).length = n + 2 * links.length + 1 + 1 := by
      rw [List.length_cons]
      omega
    rw [hfuel, evalChain, chainNode]
    simp only [bind_pure_comp, Functor.map_map]
    apply entered_fst
    simp only [evalNode, optionalAccess, evalIf, evalOpt, map_bind, branches_fst, hread, ← htest,
      bind_map_left]

end Forget

/-! How often a receiver is evaluated. -/

section Counts
variable {D Θ : Type} [Double D]

/-- Every run of `m` that comes to an end ends in `Q`. -/
abbrev Ends {α : Type} (m : Eval D Θ α) (Q : α → State D Θ → Prop) : Prop :=
  Triple (fun _ => True) (fun _ => True) m Q

omit [Double D] in
theorem ends_any {α : Type} {P : State D Θ → Prop} (m : Eval D Θ α) :
    Triple (fun _ => True) P m (fun _ _ => True) := by
  intro s _
  cases m s <;> trivial

omit [Double D] in
theorem given {α : Type} {p : Prop} {m : Eval D Θ α} {Q : α → State D Θ → Prop}
    (hm : p → Ends m Q) : Triple (fun _ => True) (fun _ => p) m Q :=
  fun s hp => hm hp s trivial

/-- How often a log has receiver `j`. -/
def times (log : Log D) (j : Nat) : Nat := (log.map Prod.fst).count j

omit [Double D] in
@[simp] theorem times_append (front back : Log D) (j : Nat) :
    times (front ++ back) j = times front j + times back j := by simp [times]

omit [Double D] in
@[simp] theorem times_single (i j : Nat) (v : Value D) :
    times [(i, v)] j = if i = j then 1 else 0 := by simp [times, List.count_singleton]

/-- No receiver is logged more often than `c` allows. -/
def Within (c : Nat → Nat) (m : Eval D Θ (Value D × Log D)) : Prop :=
  Ends m fun a _ => ∀ j, times a.2 j ≤ c j

variable {h : Host D Θ} {e : EnvId} {c : Nat → Nat} {m : Eval D Θ (Value D × Log D)}

theorem entered_within (hm : Within c m) : Within c (entered h e m) := by
  apply bind' (ends_any _)
  intro env
  apply ite'
  · intro _
    exact pure' _ fun _ _ j => Nat.zero_le _
  · intro _
    apply bind' (ends_any _)
    intro step
    apply ite'
    · exact fun _ => hm
    · exact fun _ => pure' _ fun _ _ j => Nat.zero_le _

theorem testNull_within [Formats] {null : Eval D Θ (Value D)} (hm : Within c m) :
    Within c (testNull e null m) := by
  apply bind' hm
  intro l
  apply given
  intro hl
  apply bind' (ends_any _)
  intro normal
  apply ite'
  · exact fun _ => pure' _ fun _ _ => hl
  · intro _
    apply bind' (ends_any _)
    intro r
    apply bind' (ends_any _)
    intro normal
    apply ite'
    · exact fun _ => pure' _ fun _ _ => hl
    · intro _
      apply bind' (ends_any _)
      exact fun v => pure' _ fun _ _ => hl

theorem readMember_within {receiver : Node D} {member : Name} (hm : Within c m) :
    Within c (readMember h e receiver member m) := by
  have hunchecked : Within c (unchecked m) := by
    apply bind' (ends_any _)
    intro s
    apply bind' (ends_any _)
    intro _
    apply bind' hm
    intro obj
    apply given
    intro hobj
    apply bind' (ends_any _)
    exact fun _ => pure' _ fun _ _ => hobj
  apply bind' hunchecked
  intro obj
  apply given
  intro hobj
  apply bind' (ends_any _)
  exact fun v => pure' _ fun _ _ => hobj

theorem branches_within {null : Eval D Θ (Value D)} {read : Eval D Θ (Value D × Log D)}
    {test : Value D × Log D} (htest : ∀ j, times test.2 j ≤ c j) (hread : Within c read) :
    Within (fun j => c j + c j) (branches e null read test) := by
  apply bind' (ends_any _)
  intro normal
  apply ite'
  · exact fun _ => pure' _ fun _ _ j => Nat.le_add_right_of_le (htest j)
  · intro _
    apply ite'
    · intro _
      apply bind' (ends_any _)
      exact fun v => pure' _ fun _ _ j => Nat.le_add_right_of_le (htest j)
    · intro _
      apply bind' hread
      intro v
      apply given
      intro hv
      apply pure'
      intro _ _ j
      rw [times_append]
      exact Nat.add_le_add (htest j) (hv j)

/-- What a chain of `k` links may log of receiver `j`. -/
def bound (k j : Nat) : Nat := if j ≤ k then 2 ^ (k - j) else 0

theorem bound_succ (k j : Nat) :
    bound k j + bound k j + (if k + 1 = j then 1 else 0) = bound (k + 1) j := by
  simp only [bound]
  by_cases hle : j ≤ k
  · have hne : ¬ k + 1 = j := by omega
    have hle' : j ≤ k + 1 := by omega
    have hsub : k + 1 - j = k - j + 1 := by omega
    rw [if_pos hle, if_neg hne, if_pos hle', hsub, pow_succ]
    omega
  · rw [if_neg hle]
    by_cases heq : k + 1 = j
    · rw [if_pos heq, if_pos (Nat.le_of_eq heq.symm), heq, Nat.sub_self]
      rfl
    · rw [if_neg heq, if_neg (by omega)]

variable [Formats]

theorem count_le {n : Nat} {base : Node D} (links : List Name) :
    Within (bound links.length) (evalChain h n base e links) := by
  induction links with
  | nil =>
    apply bind' (ends_any _)
    intro v
    apply pure'
    intro _ _ j
    rw [times_single]
    by_cases hj : 0 = j
    · subst hj
      exact Nat.le_refl _
    · rw [if_neg hj]
      exact Nat.zero_le _
  | cons member links ih =>
    rw [evalChain]
    -- The test and the access evaluate the receiver once each.
    apply bind' (entered_within (bind' (entered_within (testNull_within ih))
      fun test => given fun htest => branches_within htest (entered_within (readMember_within ih))))
    intro v
    apply given
    intro hv
    apply pure'
    intro _ _ j
    rw [times_append, times_single, List.length_cons, ← bound_succ]
    exact Nat.add_le_add_right (hv j) _

end Counts

/-! What a null receiver does. -/

section Null
variable {D Θ : Type} {e : EnvId}

theorem flowNormal_ends {P : State D Θ → Prop} : Triple (fun _ => True) P (flowNormal e)
    fun b s => P s ∧ b = decide ((s.envs e).flow = .normal) :=
  fun _ hs => ⟨hs, rfl⟩

def Aborted (e : EnvId) (s : State D Θ) : Prop := (s.envs e).aborted = true

/-- A jump or a throw is under way in `e`, or `e` is aborted. -/
def Stopped (e : EnvId) (s : State D Θ) : Prop := Aborted e s ∨ (s.envs e).flow ≠ .normal

/-- The flow of `e` is the same, and an abort is still there. -/
def Kept (e : EnvId) (s t : State D Θ) : Prop :=
  (t.envs e).flow = (s.envs e).flow ∧ (Aborted e s → Aborted e t)

theorem Kept.refl (s : State D Θ) : Kept e s s := ⟨rfl, id⟩

theorem from_each {α : Type} {P : State D Θ → Prop} {m : Eval D Θ α} {Q : State D Θ → α → State D Θ → Prop}
    (hm : ∀ s, Triple (fun _ => True) (Kept e s) m (Q s)) :
    Triple (fun _ => True) P m fun a t => ∃ s, P s ∧ Q s a t := by
  intro s hs
  have h₁ := hm s s (.refl s)
  cases hr : m s with
  | ok a t =>
    rw [hr] at h₁
    exact ⟨s, hs, h₁⟩
  | error x t => trivial

variable {s : State D Θ}

theorem abort_ends : Triple (fun _ => True) (Kept e s) (abort e) fun _ t => Kept e s t ∧ Aborted e t := by
  intro t ht
  have hflow : ((State.update { t with trace := .aborted :: t.trace } e fun env =>
      { env with aborted := true }).envs e).flow = (t.envs e).flow := by simp [State.update]
  have habort : ((State.update { t with trace := .aborted :: t.trace } e fun env =>
      { env with aborted := true }).envs e).aborted = true := by simp [State.update]
  exact ⟨⟨hflow.trans ht.1, fun _ => habort⟩, habort⟩

variable {h : Host D Θ}

theorem evalStep_ends : Triple (fun _ => True) (Kept e s) (evalStep h e)
    fun b t => Kept e s t ∧ (b = false → Aborted e t) := by
  have hrefuse : Triple (fun _ => True) (Kept e s) (do abort e; return false : Eval D Θ Bool) fun b t =>
        Kept e s t ∧ (b = false → Aborted e t) :=
    bind' abort_ends fun _ => pure' _ fun _ ht => ⟨ht.1, fun _ => ht.2⟩
  have hgrant : Triple (fun _ => True) (Kept e s) (pure true : Eval D Θ Bool)
      fun b t => Kept e s t ∧ (b = false → Aborted e t) :=
    pure' _ fun _ ht => ⟨ht, fun hb => by cases hb⟩
  refine bind' (getEnv_spec e) fun env => ?_
  apply ite'
  · intro _
    have hcall : Triple (fun _ => True) (Kept e s) (callSafePoint h .step 1)
        (fun _ => Kept e s) := fun t ht => ht
    exact bind' (hcall.pre fun _ ht => ht.1) fun b =>
      ite' (fun _ => hgrant) fun _ => hrefuse
  · intro _
    refine bind' (Triple.modify' (Q := fun _ => Kept e s) fun t ht => ?_) fun _ =>
      ite' (fun _ => hrefuse) fun _ => hgrant
    simpa [Kept, Aborted, State.update] using ht.1

variable [Ieee D] [Formats]

variable {n : Nat} {m : Eval D Θ (Value D × Log D)} {base : Node D}

theorem null_ends : Triple (fun _ => True) (Kept e s) ((evaluators h n).eval .null e)
    fun r t => Kept e s t ∧ (r = .null ∨ Aborted e t) := by
  cases n with
  | zero => exact Triple.cut fun _ _ => trivial
  | succ n =>
    refine bind' (getEnv_spec e) fun env => ?_
    apply ite'
    · intro habort
      refine pure' _ fun t ht => ⟨ht.1, .inr ?_⟩
      rw [Aborted, ← ht.2]
      exact habort
    · intro _
      apply bind' (evalStep_ends.pre fun _ ht => ht.1)
      intro step
      apply ite'
      · exact fun _ => pure' _ fun t ht => ⟨ht.1, .inl rfl⟩
      · intro hstep
        exact pure' _ fun t ht => ⟨ht.1, .inr (ht.2 (by simpa using hstep))⟩

/-- The receivers 0 to `k` were evaluated once each. -/
def Once (k : Nat) (log : Log D) : Prop := log.map Prod.fst = List.range (k + 1)

/-- After a chain of `k` links whose base was null when it was evaluated first. -/
def NullEnds (e : EnvId) (k : Nat) (a : Value D × Log D) (s : State D Θ) : Prop :=
  a.2.head? = some (0, .null) → Stopped e s ∨ (a.1 = .null ∧ Once k a.2)

/-- After the test of a link, which is left out only if `e` is aborted. -/
def TestEnds (e : EnvId) (k : Nat) (a : Value D × Log D) (s : State D Θ) : Prop :=
  (a.2 = [] → Aborted e s) ∧
    (a.2.head? = some (0, .null) → Stopped e s ∨ (evalValueTruthy a.1 = true ∧ Once k a.2))

theorem evalBinary_null : evalBinary .eq (.null : Value D) .null = .ok (ofBool true) := rfl

omit [Formats] in
theorem true_truthy : evalValueTruthy (ofBool true : Value D) = true := Ieee.one_large

theorem binaryResult_aborted {l r : Value D} :
    Triple (fun _ => True) (Aborted e) (binaryResult .eq l r e : Eval D Θ (Value D))
      fun _ => Aborted e := by
  rw [binaryResult]
  split
  · exact pure' _ fun _ hs => hs
  · intro s hs
    show (((State.update _ e _).envs e).aborted = true)
    simpa [Aborted, State.update] using hs

theorem compared_ends {k : Nat} {l : Value D × Log D} {r : Value D} (hlog : l.2 ≠ []) :
    Triple (fun _ => True)
      (fun s => (l.2.head? = some (0, .null) → Aborted e s ∨ (l.1 = .null ∧ Once k l.2)) ∧
        (r = .null ∨ Aborted e s))
      (do let v ← binaryResult .eq l.1 r e; return (v, l.2) : Eval D Θ (Value D × Log D))
      (TestEnds e k) := by
  have hcases : ∀ s : State D Θ, (l.2.head? = some (0, .null) → Aborted e s ∨ (l.1 = .null ∧ Once k l.2)) ∧
        (r = .null ∨ Aborted e s) → Aborted e s ∨
          ((r = .null ∧ (l.2.head? = some (0, .null) → l.1 = .null ∧ Once k l.2)) ∧ True) := by
    intro s ⟨hbase, hr⟩
    by_cases habort : Aborted e s
    · exact .inl habort
    · exact .inr ⟨⟨hr.resolve_right habort, fun hhead => (hbase hhead).resolve_left habort⟩, trivial⟩
  apply Triple.pre _ hcases
  apply Triple.or'
  · refine bind' binaryResult_aborted fun v => pure' _ fun s hs => ?_
    exact ⟨fun _ => hs, fun _ => .inl (.inl hs)⟩
  · apply fact'
    intro ⟨hr, hbase⟩
    by_cases hhead : l.2.head? = some (0, .null)
    · obtain ⟨hl, honce⟩ := hbase hhead
      rw [hl, hr, binaryResult, evalBinary_null]
      refine bind' (pure' (Q := fun v _ => v = ofBool true) _ fun _ _ => rfl)
        fun v => pure' _ fun s hv => ⟨fun hnil => absurd hnil hlog, fun _ => .inr ?_⟩
      rw [hv]
      exact ⟨true_truthy, honce⟩
    · refine bind' (ends_any _) fun v => pure' _ fun s _ => ?_
      exact ⟨fun hnil => absurd hnil hlog, fun h => absurd h hhead⟩

theorem testNull_ends {k : Nat} (hm : Ends m fun a s => a.2 ≠ [] ∧ NullEnds e k a s) :
    Ends (testNull e ((evaluators h n).eval .null e) m) (TestEnds e k) := by
  apply bind' hm
  intro l
  apply fact'
  intro hlog
  refine bind' flowNormal_ends fun normal => ?_
  apply ite'
  · intro hstop
    refine pure' _ fun s hs => ⟨fun hnil => absurd hnil hlog, fun _ => .inl (.inr ?_)⟩
    simpa [hs.2] using hstop
  · intro hgo
    refine bind' (from_each fun s => null_ends) fun r => ?_
    refine bind' flowNormal_ends fun normal' => ?_
    apply ite'
    · intro hstop
      refine pure' _ fun s hs => ⟨fun hnil => absurd hnil hlog, fun _ => .inl (.inr ?_)⟩
      simpa [hs.2] using hstop
    · intro _
      apply (compared_ends hlog).pre
      intro t ⟨⟨s, ⟨hbase, hnormal⟩, hkept, hr⟩, _⟩
      refine ⟨fun hhead => ?_, hr⟩
      rcases hbase hhead with (habort | hflow) | hnull
      · exact .inl (hkept.2 habort)
      · exact absurd hgo (by simp [hnormal, hflow])
      · exact .inr hnull

omit [Formats] in
theorem entered_aborted {s : State D Θ} (hs : Aborted e s) : entered h e m s = .ok (zero, []) s := by
  rw [entered, bind_apply]
  show (if (s.envs e).aborted = true then (pure (zero, []) : Eval D Θ (Value D × Log D))
    else _) s = _
  rw [if_pos (show (s.envs e).aborted = true from hs)]
  rfl

omit [Formats] in
theorem entered_ends {Q : Value D × Log D → State D Θ → Prop}
    (hblocked : ∀ s, Aborted e s → Q (zero, []) s) (hm : Ends m Q) : Ends (entered h e m) Q := by
  intro s _
  by_cases habort : Aborted e s
  · rw [entered_aborted habort]
    exact hblocked s habort
  · have hstep : Triple (fun _ => True) (Kept e s)
        (do if ← evalStep h e then m else return (zero, [])) Q := by
      refine bind' evalStep_ends fun step => ?_
      apply ite'
      · exact fun _ => hm.pre fun _ _ => trivial
      · intro hrefused
        exact pure' _ fun t ht => hblocked t (ht.2 (by simpa using hrefused))
    have hentered : entered h e m s = (do if ← evalStep h e then m else return (zero, [])) s := by
      rw [entered, bind_apply]
      show (if (s.envs e).aborted = true then (pure (zero, []) : Eval D Θ (Value D × Log D))
        else _) s = _
      rw [if_neg (show ¬ (s.envs e).aborted = true from habort)]
    rw [hentered]
    exact hstep s (.refl s)

theorem branches_ends {k : Nat} {test : Value D × Log D} : Triple (fun _ => True) (TestEnds e k test)
      (branches e ((evaluators h n).eval .null e) (entered h e m) test) (NullEnds e k) := by
  refine bind' flowNormal_ends fun normal => ?_
  apply ite'
  · intro hstop
    refine pure' _ fun s hs _ => .inl (.inr ?_)
    simpa [hs.2] using hstop
  · intro hgo
    apply ite'
    · intro _
      refine bind' (from_each fun s => null_ends) fun r => pure' _ ?_
      intro t ⟨s, ⟨htest, hnormal⟩, hkept, hr⟩ hhead
      rcases htest.2 hhead with (habort | hflow) | ⟨_, honce⟩
      · exact .inl (.inl (hkept.2 habort))
      · exact absurd hgo (by simp [hnormal, hflow])
      · exact hr.elim (fun hnull => .inr ⟨hnull, honce⟩) fun habort => .inl (.inl habort)
    · intro hfalse s ⟨htest, hnormal⟩
      by_cases habort : Aborted e s
      · rw [bind_apply, entered_aborted habort]
        exact fun _ => .inl (.inl habort)
      · -- The log of the test begins the log, and its base was not null.
        have hlog : test.2 ≠ [] := fun hnil => habort (htest.1 hnil)
        have hhead : test.2.head? ≠ some (0, .null) := by
          intro hhead
          rcases htest.2 hhead with (habort' | hflow) | ⟨htrue, _⟩
          · exact habort habort'
          · exact absurd hgo (by simp [hnormal, hflow])
          · exact hfalse htrue
        have hread : Ends (do let v ← entered h e m; return (v.1, test.2 ++ v.2)) (NullEnds e k) := by
          refine bind' (ends_any _) fun v => pure' _ fun t _ hfirst => ?_
          rw [List.head?_append_of_ne_nil _ hlog] at hfirst
          exact absurd hfirst hhead
        exact hread s trivial

theorem null_chain (links : List Name) :
    Ends (evalChain h n base e links) fun a s => a.2 ≠ [] ∧ NullEnds e links.length a s := by
  induction links with
  | nil =>
    refine bind' (ends_any _) fun v => pure' _ fun s _ => ⟨by simp, fun hhead => ?_⟩
    refine .inr ⟨?_, rfl⟩
    simpa using hhead
  | cons member links ih =>
    rw [evalChain]
    have htest : Ends (entered h e (testNull e
        ((evaluators h (n + 2 * links.length)).eval .null e) (evalChain h n base e links)))
          (TestEnds e links.length) :=
      entered_ends (fun s hs => ⟨fun _ => hs, fun hhead => by cases hhead⟩) (testNull_ends ih)
    refine bind' (entered_ends (fun s _ hhead => by cases hhead)
      (bind' htest fun test => branches_ends)) fun v => pure' _ fun s hs => ?_
    refine ⟨by simp, fun hhead => ?_⟩
    by_cases hlog : v.2 = []
    · simp [hlog] at hhead
    · rw [List.head?_append_of_ne_nil _ hlog] at hhead
      refine (hs hhead).imp_right fun hnull => ⟨hnull.1, ?_⟩
      rw [Once, List.map_append, hnull.2]
      exact List.range_succ.symm

/-! What a receiver that is not null does. -/

theorem evalBinary_some {l : Value D} (hl : l ≠ .null) : evalBinary .eq l .null = .ok (ofBool false) := by
  cases l <;> first | rfl | exact absurd rfl hl

omit [Formats] in
theorem false_falsy : evalValueTruthy (ofBool false : Value D) = false :=
  Ieee.zero_small _ Ieee.eq_zero

def TestedOnce (e : EnvId) (a : Value D × Log D) (s : State D Θ) : Prop :=
  (a.2 = [] ∧ Aborted e s) ∨ ∃ l, a.2 = [(0, l)] ∧ (l ≠ .null → Stopped e s ∨ evalValueTruthy a.1 = false)

/-- After a single link: a base that was not null has been evaluated twice. -/
def Twice (e : EnvId) (a : Value D × Log D) (s : State D Θ) : Prop :=
  ∀ l, a.2.head? = some (0, l) → l ≠ .null → Stopped e s ∨ times a.2 0 = 2

theorem tested_ends {n' : Nat} :
    Ends (testNull e ((evaluators h n').eval .null e) (evalChain h n base e [])) (TestedOnce e) := by
  have hbase : Ends (evalChain h n base e []) fun a _ => ∃ l, a = (l, [(0, l)]) :=
    bind' (ends_any _) fun v => pure' _ fun _ _ => ⟨v, rfl⟩
  apply bind' hbase
  intro a
  apply given
  intro ⟨l, ha⟩
  subst ha
  refine bind' flowNormal_ends fun normal => ?_
  apply ite'
  · intro hstop
    refine pure' _ fun s hs => .inr ⟨l, rfl, fun _ => .inl (.inr ?_)⟩
    simpa [hs.2] using hstop
  · intro _
    refine bind' (from_each fun s => null_ends) fun r => ?_
    refine bind' flowNormal_ends fun normal' => ?_
    apply ite'
    · intro hstop
      refine pure' _ fun s hs => .inr ⟨l, rfl, fun _ => .inl (.inr ?_)⟩
      simpa [hs.2] using hstop
    · intro _
      have hcases : Triple (fun _ => True) (fun s => Aborted e s ∨ (r = .null ∧ True))
          (do let v ← binaryResult .eq l r e; return (v, [(0, l)]) : Eval D Θ (Value D × Log D))
          (TestedOnce e) := by
        apply Triple.or'
        · refine bind' binaryResult_aborted fun v => pure' _ fun s hs => ?_
          exact .inr ⟨l, rfl, fun _ => .inl (.inl hs)⟩
        · apply fact'
          intro hr
          by_cases hl : l = .null
          · refine bind' (ends_any _) fun v => pure' _ fun s _ => ?_
            exact .inr ⟨l, rfl, fun hne => absurd hl hne⟩
          · rw [hr, binaryResult, evalBinary_some hl]
            refine bind' (pure' (Q := fun v _ => v = ofBool false) _ fun _ _ => rfl)
              fun v => pure' _ fun s hv => .inr ⟨l, rfl, fun _ => .inr ?_⟩
            rw [hv]
            exact false_falsy
      apply hcases.pre
      intro t ⟨⟨s, _, _, hr⟩, _⟩
      exact hr.symm.imp_right fun hr => ⟨hr, trivial⟩

theorem read_ends {member : Name} :
    Ends (entered h e (readMember h e base member (evalChain h n base e [])))
      fun a s => (a.2 = [] ∧ Aborted e s) ∨ times a.2 0 = 1 := by
  refine entered_ends (fun s hs => .inl ⟨rfl, hs⟩) ?_
  have hbase : Ends (unchecked (evalChain h n base e [])) fun a _ => times a.2 0 = 1 := by
    refine bind' (ends_any _) fun _ => bind' (ends_any _) fun _ => ?_
    have hlog : Ends (evalChain h n base e []) fun a _ => times a.2 0 = 1 :=
      bind' (ends_any _) fun v => pure' _ fun _ _ => by simp
    refine bind' hlog fun a => given fun ha => ?_
    exact bind' (ends_any _) fun _ => pure' _ fun _ _ => ha
  refine bind' hbase fun a => given fun ha => ?_
  exact bind' (ends_any _) fun v => pure' _ fun _ _ => .inr ha

theorem chosen_ends {n' : Nat} {member : Name} {test : Value D × Log D} :
    Triple (fun _ => True) (TestedOnce e test) (branches e ((evaluators h n').eval .null e)
        (entered h e (readMember h e base member (evalChain h n base e []))) test) (Twice e) := by
  refine bind' flowNormal_ends fun normal => ?_
  apply ite'
  · intro hstop
    refine pure' _ fun s hs _ _ _ => .inl (.inr ?_)
    simpa [hs.2] using hstop
  · intro hgo
    apply ite'
    · intro htrue
      refine bind' (from_each fun s => null_ends) fun r => pure' _ ?_
      intro t ⟨s, ⟨htest, hnormal⟩, hkept, _⟩ l hhead hl
      rcases htest with ⟨_, habort⟩ | ⟨l', hlog, hsome⟩
      · exact .inl (.inl (hkept.2 habort))
      · rw [hlog] at hhead
        obtain rfl : l' = l := by simpa using hhead
        rcases hsome hl with (habort | hflow) | hfalse
        · exact .inl (.inl (hkept.2 habort))
        · exact absurd hgo (by simp [hnormal, hflow])
        · rw [hfalse] at htrue
          cases htrue
    · intro _ s ⟨htest, hnormal⟩
      by_cases habort : Aborted e s
      · rw [bind_apply, entered_aborted habort]
        exact fun _ _ _ => .inl (.inl habort)
      · obtain ⟨l, hlog, _⟩ := htest.resolve_left fun hnil => habort hnil.2
        have hread : Ends (do
            let v ← entered h e (readMember h e base member (evalChain h n base e []))
            return (v.1, test.2 ++ v.2)) (Twice e) := by
          refine bind' read_ends fun v => pure' _ fun t hv _ _ _ => ?_
          rcases hv with ⟨_, habort⟩ | hone
          · exact .inl (.inl habort)
          · right
            rw [times_append, hlog, hone]
            rfl
        exact hread s trivial

theorem twice_link {member : Name} : Ends (evalChain h n base e [member]) (Twice e) := by
  rw [evalChain]
  have htest : Ends (entered h e (testNull e
      ((evaluators h (n + 2 * ([] : List Name).length)).eval .null e) (evalChain h n base e [])))
        (TestedOnce e) :=
    entered_ends (fun s hs => .inl ⟨rfl, hs⟩) tested_ends
  refine bind' (entered_ends (fun s hs _ _ _ => .inl (.inl hs))
    (bind' htest fun test => chosen_ends)) fun v => pure' _ fun s hs l hhead hl => ?_
  by_cases hlog : v.2 = []
  · simp [hlog] at hhead
  · rw [List.head?_append_of_ne_nil _ hlog] at hhead
    refine (hs l hhead hl).imp_right fun htwo => ?_
    rw [times_append, htwo]
    rfl

end Null

/-! What `ts_host_ast_usage` visits. -/

section Usage
variable {D : Type}

/-- The limits of `turbo_script_module_options_t` that the walk reads. -/
structure AstLimits where
  maxAstNodes : Nat
  maxImports : Nat
  maxStringBytes : Nat

/-- `ts_host_ast_usage_t`. -/
structure Usage where
  nodes : Nat := 0
  imports : Nat := 0
  stringBytes : Nat := 0

/-- `ts_host_charge`. -/
def charge (value amount limit : Nat) : Option Nat :=
  if limit < value ∨ limit - value < amount then none else some (value + amount)

/-- What a node is charged beside itself, before its children. -/
def ownUsage (limits : AstLimits) (node : Node D) (usage : Usage) : Option Usage :=
  match node with
  | .string s => (charge usage.stringBytes s.utf8ByteSize limits.maxStringBytes).map fun bytes =>
    { usage with stringBytes := bytes }
  | .templateString text =>
    (charge usage.stringBytes text.utf8ByteSize limits.maxStringBytes).map fun bytes =>
      { usage with stringBytes := bytes }
  | .functionCall name _ =>
    if name = "import" then (charge usage.imports 1 limits.maxImports).map fun imports =>
      { usage with imports := imports }
    else some usage
  | _ => some usage

theorem option_smaller {child : Node D} {o : Option (Node D)} (h : child ∈ o.toList) :
    sizeOf child < sizeOf o := by
  cases o with
  | none => cases h
  | some node =>
    rw [Option.toList_some, List.mem_singleton] at h
    subst h
    simp

theorem entries_smaller {child : Node D} {entries : List (Option Name × Node D)}
    (h : child ∈ entries.map Prod.snd) : sizeOf child < sizeOf entries := by
  obtain ⟨entry, hentry, rfl⟩ := List.mem_map.1 h
  have hlt := List.sizeOf_lt_of_mem hentry
  obtain ⟨key, node⟩ := entry
  simp only [Prod.mk.sizeOf_spec] at hlt
  dsimp only
  omega

theorem children_smaller {parent child : Node D} (hchild : child ∈ children parent) :
    sizeOf child < sizeOf parent := by
  have hlist : ∀ {cs : List (Node D)}, child ∈ cs → sizeOf child < sizeOf cs :=
    fun h => List.sizeOf_lt_of_mem h
  have hopt : ∀ {o : Option (Node D)}, child ∈ o.toList → sizeOf child < sizeOf o := option_smaller
  cases parent
  all_goals
    simp only [children, List.mem_append, List.mem_cons, List.not_mem_nil, or_false] at hchild
  all_goals
    repeat' refine Or.elim hchild (fun hchild => ?_) (fun hchild => ?_)
  all_goals
    first
    | (subst hchild; simp +arith)
    | (have hlt := hlist hchild; simp; omega)
    | (have hlt := hopt hchild; simp; omega)
    | (have hlt := entries_smaller hchild; simp; omega)
/-- `ts_host_ast_usage`: every case goes on to the children in their order. -/
def astUsage (limits : AstLimits) (node : Node D) (usage : Usage) : Option Usage := do
  let nodes ← charge usage.nodes 1 limits.maxAstNodes
  let usage ← ownUsage limits node { usage with nodes := nodes }
  (children node).attach.foldlM (fun usage child => astUsage limits child.1 usage) usage
termination_by sizeOf node
decreasing_by exact children_smaller child.2

/-- The nodes of a tree, one that is mentioned twice counted twice. -/
def visits (node : Node D) : Nat :=
  1 + ((children node).attach.map fun child => visits child.1).sum
termination_by sizeOf node
decreasing_by exact children_smaller child.2

theorem visits_eq (node : Node D) : visits node = 1 + ((children node).map visits).sum := by
  rw [visits, List.attach_map_val (l := children node) (f := visits)]

theorem charge_some {value amount limit total : Nat} (h : charge value amount limit = some total) :
    total = value + amount := by
  rw [charge] at h
  split at h
  · cases h
  · exact (Option.some.inj h).symm

theorem ownUsage_nodes {limits : AstLimits} {node : Node D} {usage usage' : Usage}
    (h : ownUsage limits node usage = some usage') : usage'.nodes = usage.nodes := by
  cases node
  case string => 
    obtain ⟨bytes, _, rfl⟩ := Option.map_eq_some_iff.1 h
    rfl
  case templateString =>
    obtain ⟨bytes, _, rfl⟩ := Option.map_eq_some_iff.1 h
    rfl
  case functionCall name args =>
    rw [ownUsage] at h
    split at h
    · obtain ⟨imports, _, rfl⟩ := Option.map_eq_some_iff.1 h
      rfl
    · cases h
      rfl
  all_goals
    cases h
    rfl

theorem foldlM_nodes {f : Usage → Node D → Option Usage} {nodes : List (Node D)}
    (hf : ∀ node ∈ nodes, ∀ u u', f u node = some u' → u'.nodes = u.nodes + visits node)
    {u u' : Usage} (h : nodes.foldlM f u = some u') :
    u'.nodes = u.nodes + (nodes.map visits).sum := by
  induction nodes generalizing u with
  | nil =>
    cases h
    rfl
  | cons node nodes ih =>
    rw [List.foldlM_cons] at h
    obtain ⟨u₁, hnode, hrest⟩ := Option.bind_eq_some_iff.1 h
    have hhead := hf node List.mem_cons_self u u₁ hnode
    have htail := ih (fun n hn => hf n (List.mem_cons_of_mem node hn)) hrest
    rw [List.map_cons, List.sum_cons]
    omega

theorem astUsage_nodes {limits : AstLimits} (node : Node D) {usage usage' : Usage}
    (h : astUsage limits node usage = some usage') :
    usage'.nodes = usage.nodes + visits node := by
  rw [astUsage] at h
  obtain ⟨nodes, hcharge, h⟩ := Option.bind_eq_some_iff.1 h
  obtain ⟨own, hown, h⟩ := Option.bind_eq_some_iff.1 h
  have hchildren : (children node).foldlM (fun usage child => astUsage limits child usage) own =
      some usage' := by
    rw [← h]
    simp
  have hrest := foldlM_nodes (fun child hchild u u' hu => astUsage_nodes child hu) hchildren
  have hnodes := ownUsage_nodes hown
  have hone := charge_some hcharge
  rw [visits_eq, hrest, hnodes]
  dsimp only
  omega
termination_by sizeOf node
decreasing_by exact children_smaller hchild

theorem visits_link (receiver : Node D) (member : Name) :
    visits (optionalAccess receiver member) = 2 * visits receiver + 5 := by
  have hnull : visits (.null : Node D) = 1 := by
    rw [visits_eq]
    rfl
  have haccess : visits (.memberAccess receiver member) = 1 + visits receiver := by
    rw [visits_eq]
    simp [children]
  have htest : visits (.binary .eq (some receiver) .null) = 1 + (visits receiver + 1) := by
    rw [visits_eq]
    simp [children, hnull]
  rw [optionalAccess, visits_eq]
  simp only [children, Option.toList_some, List.map_cons, List.map_nil,
    List.singleton_append, List.sum_cons, List.sum_nil, hnull, haccess, htest]
  omega

theorem visits_chain (base : Node D) (links : List Name) :
    visits (chainNode base links) + 5 = 2 ^ links.length * (visits base + 5) := by
  induction links with
  | nil => simp [chainNode]
  | cons member links ih =>
    calc visits (chainNode base (member :: links)) + 5 = 2 * (visits (chainNode base links) + 5) := by
          rw [chainNode, visits_link]
          omega
      _ = 2 ^ (member :: links).length * (visits base + 5) := by
          rw [ih, List.length_cons, pow_succ, ← mul_assoc, mul_comm 2]

end Usage

/-! Chains. -/

section Results
variable {D Θ : Type} [Ieee D] [Formats] {h : Host D Θ} {e : EnvId}

/-- A chain, taken from any of its receivers on: each link evaluates its receiver for the
    comparison with null and, unless that was the end, once more for the access. -/
theorem optional_chaining {n : Nat} {base : Node D} {links : List Name} {s t : State D Θ}
    {v : Value D} (hrun : (evaluators h (n + 2 * links.length)).eval (chainNode base links) e s = .ok v t) :
    (∃ log, evalChain h n base e links s = .ok (v, log) t ∧ (∀ j, times log j ≤ bound links.length j) ∧
      (log.head? = some (0, .null) → Stopped e t ∨ (v = .null ∧ Once links.length log)) ∧
      (links.length = 1 → ∀ l, log.head? = some (0, l) → l ≠ .null → Stopped e t ∨ times log 0 = 2)) ∧
    visits (chainNode base links) + 5 = 2 ^ links.length * (visits base + 5) ∧
    ∀ limits usage usage', astUsage limits (chainNode base links) usage = some usage' →
      usage'.nodes = usage.nodes + visits (chainNode base links) := by
  refine ⟨?_, visits_chain base links, fun limits usage usage' husage => astUsage_nodes _ husage⟩
  rw [← evalChain_eval, ← bind_pure_comp, bind_apply] at hrun
  cases hr : evalChain h n base e links s with
  | error x t' =>
    rw [hr] at hrun
    cases hrun
  | ok a t' =>
    rw [hr] at hrun
    obtain ⟨v', log⟩ := a
    cases hrun
    have hcount : Within (bound links.length) (evalChain h n base e links) := count_le links
    have hcount := hcount s trivial
    have hnull : Ends (evalChain h n base e links)
        fun a s => a.2 ≠ [] ∧ NullEnds e links.length a s := null_chain links
    have hnull := hnull s trivial
    rw [hr] at hcount hnull
    refine ⟨log, rfl, hcount, hnull.2, fun hone l hhead hl => ?_⟩
    obtain ⟨member, rfl⟩ := List.length_eq_one_iff.1 hone
    have htwice : Ends (evalChain h n base e [member]) (Twice e) := twice_link
    have htwice := htwice s trivial
    rw [hr] at htwice
    exact htwice l hhead hl

end Results

section Examples

/-- A map with a name in `x`. -/
def person {D : Type} [Double D] : State D Unit := .fresh [("x", .map [("name", .integer 42)])]

theorem optional_chaining_name :
    letI : PowFn := ⟨powInt⟩
    ∃ t log, (evaluators (Host.bare : Host Ext Unit) 3).eval (chainNode (.varRef "x") ["name"]) 0
        person = .ok (.integer 42) t ∧
      evalChain Host.bare 1 (.varRef "x") 0 ["name"] person = .ok (.integer 42, log) t ∧
      times log 0 ≤ 2 := by
  let : PowFn := ⟨powInt⟩
  have hrun : ∃ t, (evaluators (Host.bare : Host Ext Unit) (1 + 2 * ["name"].length)).eval
      (chainNode (.varRef "x") ["name"]) 0 person = .ok (.integer 42) t :=
    ⟨_, by with_unfolding_all rfl⟩
  obtain ⟨t, hrun⟩ := hrun
  obtain ⟨⟨log, hlog, hcount, _⟩, _⟩ := optional_chaining hrun
  exact ⟨t, log, hrun, hlog, hcount 0⟩

def chainText (base : String) : List Name → String
  | [] => base
  | member :: links => chainText base links ++ "?." ++ member

theorem chainText_length (k : Nat) :
    (chainText "x" (List.replicate k "m")).length = 1 + 3 * k := by
  induction k with
  | zero => rfl
  | succ k ih =>
    rw [List.replicate_succ, chainText, String.length_append, String.length_append, ih]
    show 1 + 3 * k + 2 + 1 = 1 + 3 * (k + 1)
    omega

/-- `x?.name` evaluates `x` twice, and no bound on the nodes is linear in the text. -/
theorem receiver_evaluated_twice :
    (∃ log t, evalChain Host.bare 1 (.varRef "x") 0 ["name"] (person : State ℚ Unit) =
        .ok (.integer 42, log) t ∧
      (evaluators Host.bare 3).eval (chainNode (.varRef "x") ["name"]) 0 person =
        .ok (.integer 42) t ∧
      times log 0 = 2) ∧
    ∀ c, ∃ links, c * (chainText "x" links).length <
      visits (chainNode (.varRef "x" : Node ℚ) links) := by
  have hchain : ∃ t, evalChain Host.bare 1 (.varRef "x") 0 ["name"] (person : State ℚ Unit) =
      .ok (.integer 42, [(0, .map [("name", .integer 42)]), (0, .map [("name", .integer 42)]),
        (1, .integer 42)]) t := ⟨_, by with_unfolding_all rfl⟩
  obtain ⟨t, hchain⟩ := hchain
  have hrun : (evaluators Host.bare (1 + 2 * ["name"].length)).eval
      (chainNode (.varRef "x") ["name"]) 0 (person : State ℚ Unit) = .ok (.integer 42) t := by
    rw [← evalChain_eval, ← bind_pure_comp, bind_apply, hchain]
    rfl
  refine ⟨⟨_, t, hchain, hrun, rfl⟩, fun c => ⟨List.replicate (2 * c) "m", ?_⟩⟩
  have hbase : visits (.varRef "x" : Node ℚ) = 1 := by
    rw [visits_eq]
    rfl
  have hvisits := visits_chain (.varRef "x" : Node ℚ) (List.replicate (2 * c) "m")
  rw [List.length_replicate, hbase, pow_mul, show (2 : Nat) ^ 2 = 2 * 2 from rfl, mul_pow] at hvisits
  have hgrow : c + 1 ≤ 2 ^ c := Nat.lt_two_pow_self
  have hsquare : (c + 1) * (c + 1) ≤ 2 ^ c * 2 ^ c := Nat.mul_le_mul hgrow hgrow
  rw [chainText_length]
  nlinarith

end Examples

end TurboScript.Exprtk.OptionalChain
