import TurboScript.Exprtk.ValueArg

/- The `for` loop against the loop it stands for.

   1. `refFor`: `init; while (cond) { body; post }`, where `continue` in the body jumps to
      the post-expression with the flag cleared, and `break`, `return` and a throw skip it.
   2. `Blind`: what evaluates alike whether the flag of an environment is CONTINUE or
      NORMAL; the nodes in `flowBlind` do.
   3. As long as no body ends in a throw, a body that ends in `continue` is followed by a
      blind post-expression and no post-expression breaks, the two loops agree. With a
      post-expression that adds, they do not: the operator gives up on the flag. -/
namespace TurboScript.Exprtk
open Lib

set_option linter.unusedSectionVars false

section Reference
variable {D Θ : Type} [Double D] [Formats] (h : Host D Θ) (R : Evaluators D Θ)

/-- After the post-expression of the reference loop: BREAK ends the loop and is cleared. -/
def refTest (e : EnvId) : Eval D Θ Bool := do
  match (← getEnv e).flow with
  | .normal => return true
  | .continue => do
    setFlow e .normal
    return true
  | .break => do
    setFlow e .normal
    return false
  | _ => return false

def refPost (post : Option (Node D)) (e : EnvId) : Eval D Θ Bool :=
  match post with
  | none => return true
  | some post => do
    emit (.effect .loopPost)
    let _ ← R.eval post e
    refTest e

/-- The end of an iteration: where the flag of the body leads. -/
def refNext (post : Option (Node D)) (e : EnvId) (flow : Flow) : Eval D Θ Bool :=
  match flow with
  | .break => do
    setFlow e .normal
    return false
  | .return | .throw => return false
  | flow => do
    clearContinue e flow
    refPost R post e

def runBody (body : Node D) (e : EnvId) : Eval D Θ (Value D) := do
  emit (.effect .iteration)
  unchecked (R.eval body e)

def refIter (c post : Option (Node D)) (body : Node D) (e : EnvId) : Nat → Value D → Eval D Θ (Value D)
  | 0, _ => cutOff
  | n + 1, last => do
    if !(← forCondition R c e) then return last
    else if !(← evalLoopTick h e) then return last
    else do
      let last ← runBody R body e
      let env ← getEnv e
      if ← refNext R post e env.flow then refIter c post body e n last else return last

/-- `init; while (cond) { body; post }`. -/
def refFor (init c post : Option (Node D)) (body : Node D) (e : EnvId) (n : Nat) : Eval D Θ (Value D) := do
  let _ ← evalOpt R init e
  if ← running e then refIter h R c post body e n zero else return zero

end Reference

/-! The flag CONTINUE against the flag NORMAL. -/

section Blind
variable {D Θ : Type} [Double D] [Formats] {e : EnvId}

def clearFlow (e : EnvId) (s : State D Θ) : State D Θ :=
  s.update e fun env => { env with flow := .normal }

/-- The same state, or the same but for a CONTINUE that is cleared on the right. -/
def Cleared (e : EnvId) (s s' : State D Θ) : Prop :=
  s' = s ∨ ((s.envs e).flow = .continue ∧ s' = clearFlow e s)

/-- Runs alike from a state and from the same with CONTINUE cleared. -/
def Blind {α : Type} (e : EnvId) (m : Eval D Θ α) : Prop :=
  Couple (Cleared e) m m fun a b s s' => a = b ∧ Cleared e s s'

variable {α : Type}

theorem Blind.of_cleared {m : Eval D Θ α} (hm : ∀ s, (s.envs e).flow = .continue →
      BothEnd (fun a b t t' => a = b ∧ Cleared e t t') (m s) (m (clearFlow e s))) :
    Blind e m := by
  rintro s s' (rfl | ⟨hf, rfl⟩)
  · exact BothEnd.refl (fun _ _ => ⟨rfl, .inl rfl⟩) _
  · exact hm s hf

theorem Blind.pure' (a : α) : Blind e (pure a : Eval D Θ α) :=
  Couple.pure' a a fun _ _ hs => ⟨rfl, hs⟩

theorem Blind.bind' {β : Type} {m : Eval D Θ α} {f : α → Eval D Θ β} (hm : Blind e m)
    (hf : ∀ a, Blind e (f a)) : Blind e (m >>= f) := by
  refine Couple.bind' hm fun a b s s' hs => ?_
  obtain ⟨rfl, hs⟩ := hs
  exact hf a s s' hs

theorem Blind.ite' {c : Prop} [Decidable c] {p q : Eval D Θ α} (hp : Blind e p) (hq : Blind e q) :
    Blind e (if c then p else q) :=
  Couple.ite' (fun _ => hp) fun _ => hq

theorem Blind.get' {k : State D Θ → Eval D Θ α} (hk : ∀ s, k (clearFlow e s) = k s)
    (hb : ∀ s, Blind e (k s)) : Blind e (get >>= k) := by
  refine Blind.of_cleared fun s hf => ?_
  show BothEnd _ (k s s) (k (clearFlow e s) (clearFlow e s))
  rw [hk s]
  exact hb s s (clearFlow e s) (.inr ⟨hf, rfl⟩)

theorem Blind.modify' {f : State D Θ → State D Θ}
    (hf : ∀ s, (s.envs e).flow = .continue → Cleared e (f s) (f (clearFlow e s))) :
    Blind e (modify f : Eval D Θ Unit) :=
  Blind.of_cleared fun s hs => ⟨rfl, hf s hs⟩

theorem modifyEnv_blind (i : EnvId) {f : Env D → Env D}
    (hf : ∀ env, f { env with flow := .normal } = { f env with flow := .normal })
    (hflow : ∀ env, (f env).flow = env.flow) : Blind e (modifyEnv i f : Eval D Θ Unit) := by
  refine Blind.modify' fun s hs => .inr ⟨?_, ?_⟩
  · by_cases h : e = i
    · subst h
      simpa [State.update, hflow] using hs
    · simpa [State.update, h] using hs
  · unfold clearFlow State.update
    by_cases h : e = i
    · subst h
      simp [hf]
    · have hi : i ≠ e := fun hi => h hi.symm
      simp [h, hi, Function.update_comm hi]

theorem emit_blind (ev : Event D) : Blind e (emit ev : Eval D Θ Unit) :=
  Blind.modify' fun _ hs => .inr ⟨hs, rfl⟩

theorem clearFlow_env (s : State D Θ) (i : EnvId) : (clearFlow e s).envs i = s.envs i ∨
      (clearFlow e s).envs i = { s.envs i with flow := .normal } := by
  by_cases h : i = e
  · subst h
    exact .inr (by simp [clearFlow, State.update])
  · exact .inl (by simp [clearFlow, State.update, h])

theorem Blind.getEnv' {i : EnvId} {k : Env D → Eval D Θ α}
    (hk : ∀ env, k { env with flow := .normal } = k env) (hb : ∀ env, Blind e (k env)) :
    Blind e (getEnv i >>= k) := by
  refine Blind.get' (k := fun s => k (s.envs i)) (fun s => ?_) fun s => hb _
  rcases clearFlow_env (e := e) s i with h | h
  · rw [h]
  · rw [h, hk]

open Blind (bind' pure' ite' get' modify')
theorem findEnv_clearFlow (s : State D Θ) {p : Env D → Bool}
    (hp : ∀ env, p { env with flow := .normal } = p env) (n : Nat) (i : EnvId) :
    findEnv (clearFlow e s).envs p n i = findEnv s.envs p n i := by
  induction n generalizing i with
  | zero => rfl
  | succ n ih =>
    unfold findEnv
    rcases clearFlow_env (e := e) s i with h | h
    · rw [h]
      cases (s.envs i).parent with
      | none => rfl
      | some j => simp only [ih j]
    · rw [h, hp]
      dsimp only
      cases (s.envs i).parent with
      | none => rfl
      | some j => simp only [ih j]

theorem lookupBinding_clearFlow (s : State D Θ) (i : EnvId) (name : Name) :
    lookupBinding (clearFlow e s).envs i name = lookupBinding s.envs i name := by
  unfold lookupBinding
  rw [findEnv_clearFlow s fun _ => rfl]
  cases findEnv s.envs (fun env => (env.vars name).isSome) (i + 1) i with
  | none => rfl
  | some j => rcases clearFlow_env (e := e) s j with h | h <;> simp only [h]

theorem envGet_blind (i : EnvId) (name : Name) : Blind e (envGet i name : Eval D Θ (Value D)) := by
  refine get' (fun s => ?_) fun s => ?_
  · rw [lookupBinding_clearFlow]
  · split <;> exact pure' _

theorem envSetLocal_blind (i : EnvId) (name : Name) (v : Value D) :
    Blind e (envSetLocal i name v : Eval D Θ Unit) :=
  modifyEnv_blind i (fun _ => rfl) fun _ => rfl

theorem envSet_blind (i : EnvId) (name : Name) (v : Value D) :
    Blind e (envSet i name v : Eval D Θ Unit) := by
  refine get' (fun s => ?_) fun s => ?_
  · rw [findEnv_clearFlow s fun _ => rfl]
  · split <;> exact envSetLocal_blind _ _ _

theorem envSetConstant_blind (i : EnvId) (name : Name) (v : Value D) :
    Blind e (envSetConstant i name v : Eval D Θ Unit) :=
  bind' (envSet_blind i name v) fun _ => modifyEnv_blind i (fun _ => rfl) fun _ => rfl

theorem abort_blind (i : EnvId) : Blind e (abort i : Eval D Θ Unit) :=
  bind' (emit_blind _) fun _ => modifyEnv_blind i (fun _ => rfl) fun _ => rfl

theorem throwErr_blind (msg : String) : Blind e (throwErr e msg : Eval D Θ (Value D)) := by
  refine bind' (modifyEnv_blind e (fun _ => rfl) fun _ => rfl) fun _ => ?_
  refine bind' (Blind.of_cleared fun s _ => ⟨rfl, .inl ?_⟩) fun _ => pure' _
  simp [clearFlow, State.update]

theorem unchecked_blind {m : Eval D Θ α} (hm : Blind e m) : Blind e (unchecked m) := by
  refine get' (fun _ => rfl) fun s => ?_
  refine bind' (modify' fun t ht => .inr ⟨ht, rfl⟩) fun _ => ?_
  refine bind' hm fun a => ?_
  exact bind' (modify' fun t ht => .inr ⟨ht, rfl⟩) fun _ => pure' _

theorem evalSafePoint_blind (h : Host D Θ) (i : EnvId) (kind : SafePointKind) (cost : Nat) :
    Blind e (evalSafePoint h i kind cost) := by
  refine bind' (get' (fun _ => rfl) fun s => ?_) fun b => ?_
  · exact bind' (modify' fun t ht => .inr ⟨ht, rfl⟩) fun _ => pure' _
  · exact ite' (pure' _) (bind' (abort_blind i) fun _ => pure' _)

theorem evalStep_blind (h : Host D Θ) (i : EnvId) : Blind e (evalStep h i) := by
  refine Blind.getEnv' (fun _ => rfl) fun env => ?_
  refine ite' (evalSafePoint_blind h i _ _) ?_
  refine bind' (modifyEnv_blind i (fun _ => rfl) fun _ => rfl) fun _ => ?_
  exact ite' (bind' (abort_blind i) fun _ => pure' _) (pure' _)

/-- Nodes whose evaluation does not look at the flag: no operator, no call, no list of
    parts. -/
def flowBlind : Node D → Bool
  | .number _ | .integer _ | .string _ | .null | .varRef _ | .flowContinue => true
  | .assignment _ value | .constantDecl _ value => flowBlind value
  | .index array index => flowBlind array && flowBlind index
  | .spread child => flowBlind child
  | _ => false

theorem setFlow_blind (f : Flow) : Blind e (setFlow e f : Eval D Θ Unit) :=
  Blind.of_cleared fun s _ => ⟨rfl, .inl (by simp [clearFlow, State.update])⟩

theorem except_blind (r : Except String (Value D)) : Blind e (match r with
      | .ok v => pure v
      | .error msg => throwErr e msg : Eval D Θ (Value D)) := by
  cases r with
  | ok v => exact pure' v
  | error msg => exact throwErr_blind msg

theorem eval_blind (h : Host D Θ) (fuel : Nat) (node : Node D) (hb : flowBlind node = true) :
    Blind e ((evaluators h fuel).eval node e) := by
  -- by fuel: a node's parts are evaluated with less
  induction fuel generalizing node with
  | zero => exact Couple.cut
  | succ n ih =>
    refine Blind.getEnv' (fun _ => rfl) fun env => ite' (pure' _) ?_
    refine bind' (evalStep_blind h e) fun b => ite' ?_ (pure' _)
    cases node with
    | number | integer | string | null => exact pure' _
    | varRef name => exact envGet_blind e name
    | flowContinue => exact bind' (setFlow_blind _) fun _ => pure' _
    | assignment name value =>
      refine bind' (unchecked_blind (ih value hb)) fun v => ?_
      refine bind' (emit_blind _) fun _ => ?_
      exact bind' (envSet_blind e name v) fun _ => envGet_blind e name
    | constantDecl name value =>
      refine bind' (unchecked_blind (ih value hb)) fun v => ?_
      refine bind' (emit_blind _) fun _ => ?_
      exact bind' (envSetConstant_blind e name v) fun _ => envGet_blind e name
    | index array index =>
      have hb := (Bool.and_eq_true _ _).mp hb
      refine bind' (unchecked_blind (ih array hb.1)) fun arr => ?_
      exact bind' (unchecked_blind (ih index hb.2)) fun idx => except_blind _
    | spread child => exact ih child hb
    | _ => cases hb

end Blind

/-! The two loops. -/

section Agreement
variable {D Θ : Type} [Double D] [Formats] (h : Host D Θ) (R : Evaluators D Θ)

/-- The end of a body that both loops read alike: it does not throw; after `continue` the
    post-expression does not look at the flag; the post-expression does not break. -/
structure BodyEnd (post : Option (Node D)) (e : EnvId) (next : State D Θ → Prop)
    (s : State D Θ) : Prop where
  noThrow : (s.envs e).flow ≠ .throw
  blindPost : (s.envs e).flow = .continue → ∃ p, post = some p ∧ flowBlind p = true
  goOn : (s.envs e).flow ≠ .break → (s.envs e).flow ≠ .return →
    (∀ t, forPost R post e s = .ok true t → next t) ∧
      ∀ t, forPost R post e s = .ok false t → (t.envs e).flow ≠ .break

/-- Every body the loop evaluates, from `s` on, ends so. -/
def ForMeets (c post : Option (Node D)) (body : Node D) (e : EnvId) : Nat → State D Θ → Prop
  | 0, _ => True
  | n + 1, s => ∀ s₁ s₂ s₃ v, forCondition R c e s = .ok true s₁ →
      evalLoopTick h e s₁ = .ok true s₂ →
      runBody R body e s₂ = .ok v s₃ →
      BodyEnd R post e (ForMeets c post body e n) s₃

def LoopMeets (init c post : Option (Node D)) (body : Node D) (e : EnvId) (n : Nat)
    (s : State D Θ) : Prop :=
  ∀ v t, evalOpt R init e s = .ok v t → ForMeets h R c post body e n t

def checkBodyEnd (post : Option (Node D)) (e : EnvId) (next : State D Θ → Bool) (s : State D Θ) : Bool :=
  match (s.envs e).flow with
  | .throw => false
  | .break | .return => true
  | flow =>
    (flow != .continue || post.any flowBlind) &&
      match forPost R post e s with
      | .ok true t => next t
      | .ok false t => (t.envs e).flow != .break
      | .error _ _ => true

def checkFor (c post : Option (Node D)) (body : Node D) (e : EnvId) : Nat → State D Θ → Bool
  | 0, _ => true
  | n + 1, s =>
    match forCondition R c e s with
    | .ok true s₁ =>
      match evalLoopTick h e s₁ with
      | .ok true s₂ =>
        match runBody R body e s₂ with
        | .ok _ s₃ => checkBodyEnd R post e (checkFor c post body e n) s₃
        | _ => true
      | _ => true
    | _ => true

def checkLoop (init c post : Option (Node D)) (body : Node D) (e : EnvId) (n : Nat)
    (s : State D Θ) : Bool :=
  match evalOpt R init e s with
  | .ok _ t => checkFor h R c post body e n t
  | .error _ _ => true

variable {h R} {e : EnvId}

variable {s : State D Θ}

theorem bodyEnd_of_check {post : Option (Node D)} {next : State D Θ → Prop}
    {check : State D Θ → Bool} (hn : ∀ t, check t = true → next t)
    (hs : checkBodyEnd R post e check s = true) : BodyEnd R post e next s := by
  unfold checkBodyEnd at hs
  have hrest : ∀ flow : Flow, (s.envs e).flow = flow → flow ≠ .throw →
      ((flow != .continue || post.any flowBlind) &&
        match forPost R post e s with
        | .ok true t => check t
        | .ok false t => (t.envs e).flow != .break
        | .error _ _ => true) = true → BodyEnd R post e next s := by
    intro flow hflow hthrow hc
    rw [Bool.and_eq_true] at hc
    refine ⟨by rw [hflow]; exact hthrow, fun hcont => ?_, fun _ _ => ⟨fun t ht => ?_, fun t ht => ?_⟩⟩
    · have hany := hc.1
      rw [← hflow, hcont] at hany
      cases post with
      | none => cases hany
      | some p => exact ⟨p, rfl, hany⟩
    · have h₂ := hc.2
      rw [ht] at h₂
      exact hn t h₂
    · have h₂ := hc.2
      rw [ht] at h₂
      simpa using h₂
  cases hf : (s.envs e).flow with
  | throw =>
    rw [hf] at hs
    cases hs
  | «break» =>
    exact ⟨by rw [hf]; decide, fun hc => absurd (hf.symm.trans hc) (by decide), fun hb => absurd hf hb⟩
  | «return» =>
    exact ⟨by rw [hf]; decide, fun hc => absurd (hf.symm.trans hc) (by decide), fun _ hr => absurd hf hr⟩
  | normal | «continue» | yield =>
    rw [hf] at hs
    exact hrest _ hf (by decide) hs

theorem forMeets_of_check {c post : Option (Node D)} {body : Node D} {n : Nat}
    (hs : checkFor h R c post body e n s = true) : ForMeets h R c post body e n s := by
  induction n generalizing s with
  | zero => trivial
  | succ n ih =>
    intro s₁ s₂ s₃ v hc ht hb
    unfold checkFor at hs
    rw [hc] at hs
    dsimp only at hs
    rw [ht] at hs
    dsimp only at hs
    rw [hb] at hs
    exact bodyEnd_of_check (fun t => ih) hs

theorem loopMeets_of_check {init c post : Option (Node D)} {body : Node D} {n : Nat}
    (hs : checkLoop h R init c post body e n s = true) :
    LoopMeets h R init c post body e n s := by
  intro v t ht
  unfold checkLoop at hs
  rw [ht] at hs
  exact forMeets_of_check hs

/-- The test of the flag after the post-expression. -/
def postTest (e : EnvId) : Eval D Θ Bool := do
  match (← getEnv e).flow with
  | .normal => return true
  | .continue => do
    setFlow e .normal
    return true
  | _ => return false

theorem forPost_some (post : Node D) : forPost R (some post) e = (do
    emit (.effect .loopPost)
    let _ ← R.eval post e
    postTest e) := rfl

theorem postTest_apply (s : State D Θ) : postTest e s =
    match (s.envs e).flow with
    | .normal => .ok true s
    | .continue => .ok true (clearFlow e s)
    | _ => .ok false s := by
  show (match (s.envs e).flow with
    | .normal => return true
    | .continue => do
      setFlow e .normal
      return true
    | _ => return false : Eval D Θ Bool) s = _
  cases (s.envs e).flow <;> rfl

theorem clearFlow_flow (s : State D Θ) : ((clearFlow e s).envs e).flow = .normal := by
  simp [clearFlow, State.update]

theorem forPost_cleared (fuel : Nat) {post : Node D} (hb : flowBlind post = true)
    (hf : (s.envs e).flow = .continue) :
    SameEnd (forPost (evaluators h fuel) (some post) e s)
      (forPost (evaluators h fuel) (some post) e (clearFlow e s)) := by
  have htest : Couple (Cleared e) (postTest e : Eval D Θ Bool) (postTest e)
      fun b b' t t' => b = b' ∧ t = t' := by
    rintro s s' (rfl | ⟨hf, rfl⟩)
    · exact SameEnd.refl _
    · rw [postTest_apply, postTest_apply, hf, clearFlow_flow]
      exact ⟨rfl, rfl⟩
  rw [forPost_some]
  refine Couple.bind' (emit_blind _) (fun _ _ => ?_) s _ (.inr ⟨hf, rfl⟩)
  refine Couple.bind' ((eval_blind h fuel post hb).mono (fun _ _ hs => hs.2)
    fun _ _ _ _ hs => hs) fun _ _ => ?_
  exact htest.mono (fun _ _ hs => hs.2) fun _ _ _ _ hs => hs

theorem refTest_apply (s : State D Θ) (hb : (s.envs e).flow ≠ .break) : refTest e s = postTest e s := by
  rw [postTest_apply]
  show (match (s.envs e).flow with
    | .normal => return true
    | .continue => do
      setFlow e .normal
      return true
    | .break => do
      setFlow e .normal
      return false
    | _ => return false : Eval D Θ Bool) s = _
  cases hf : (s.envs e).flow with
  | «break» => exact absurd hf hb
  | _ => rfl

theorem refPost_eq (post : Option (Node D))
    (hbreak : ∀ t, forPost R post e s = .ok false t → (t.envs e).flow ≠ .break) :
    refPost R post e s = forPost R post e s := by
  cases post with
  | none => rfl
  | some post =>
    have hf : forPost R (some post) e s = (R.eval post e >>= fun _ => postTest e)
        { s with trace := .effect .loopPost :: s.trace } := rfl
    have hr : refPost R (some post) e s = (R.eval post e >>= fun _ => refTest e)
        { s with trace := .effect .loopPost :: s.trace } := rfl
    rw [hf, bind_apply] at hbreak ⊢
    rw [hr, bind_apply]
    cases he : R.eval post e { s with trace := .effect .loopPost :: s.trace } with
    | error x t => rfl
    | ok v t =>
      refine refTest_apply t fun hb => ?_
      refine hbreak t ?_ hb
      rw [he]
      show postTest e t = _
      rw [postTest_apply, hb]

/-- What `for` does after the body. -/
def forNext (R : Evaluators D Θ) (post : Option (Node D)) (e : EnvId) (flow : Flow) : Eval D Θ Bool :=
  match flow with
  | .break => do
    setFlow e .normal
    return false
  | .return => return false
  | _ => forPost R post e

theorem forIter_succ (c post : Option (Node D)) (body : Node D) (n : Nat) (last : Value D) :
    forIter h R c post body e (n + 1) last = (do
      if !(← forCondition R c e) then return last
      else if !(← evalLoopTick h e) then return last
      else do
        let last ← runBody R body e
        let env ← getEnv e
        if ← forNext R post e env.flow then forIter h R c post body e n last else return last) := by
  rw [forIter]
  congr 1
  funext b
  cases b with
  | false => rfl
  | true =>
    refine congrArg (fun k => evalLoopTick h e >>= k) ?_
    funext b
    cases b with
    | false => rfl
    | true =>
      show (emit _ >>= fun _ => unchecked _ >>= fun last => getEnv e >>= _) =
        ((emit _ >>= fun _ => unchecked _) >>= fun last => getEnv e >>= _)
      rw [bind_assoc]
      refine congrArg (fun k => emit _ >>= k) ?_
      funext _
      refine congrArg (fun k => unchecked _ >>= k) ?_
      funext last
      refine congrArg (fun k => getEnv e >>= k) ?_
      funext env
      cases env.flow <;> rfl

theorem forNext_agrees (fuel : Nat) (post : Option (Node D)) {next : State D Θ → Prop}
    (hs : BodyEnd (evaluators h fuel) post e next s) :
    BothEnd (fun b b' t t' => b = b' ∧ t' = t ∧ (b = true → next t))
      (forNext (evaluators h fuel) post e (s.envs e).flow s)
      (refNext (evaluators h fuel) post e (s.envs e).flow s) := by
  have hmono : ∀ {r r' : EStateM.Result Unit (State D Θ) Bool}, SameEnd r r' →
      (∀ t, r = .ok true t → next t) →
      BothEnd (fun b b' t t' => b = b' ∧ t' = t ∧ (b = true → next t)) r r' := by
    intro r r' hr hn
    cases r with
    | error x t =>
      cases r' with
      | error y t' => trivial
      | ok b t' => exact hr.elim
    | ok b t =>
      cases r' with
      | error y t' => exact hr.elim
      | ok b' t' =>
        obtain ⟨rfl, rfl⟩ := hr
        exact ⟨rfl, rfl, fun hb => hn t (by rw [hb])⟩
  cases hf : (s.envs e).flow with
  | throw => exact absurd hf hs.noThrow
  | «break» | «return» => exact ⟨rfl, rfl, fun hb => absurd hb Bool.false_ne_true⟩
  | normal | yield =>
    obtain ⟨hgo, hbreak⟩ := hs.goOn (by rw [hf]; decide) (by rw [hf]; decide)
    refine hmono ?_ hgo
    show SameEnd _ (refPost (evaluators h fuel) post e s)
    rw [refPost_eq post hbreak]
    exact SameEnd.refl _
  | «continue» =>
    obtain ⟨hgo, hbreak⟩ := hs.goOn (by rw [hf]; decide) (by rw [hf]; decide)
    obtain ⟨p, rfl, hb⟩ := hs.blindPost hf
    refine hmono ?_ hgo
    have hsame := forPost_cleared (h := h) fuel hb hf
    show SameEnd _ (refPost (evaluators h fuel) (some p) e (clearFlow e s))
    rw [refPost_eq (some p) fun t ht => ?_]
    · exact hsame
    · -- a break of the cleared run would be one of the run under CONTINUE
      rw [ht] at hsame
      cases hr : forPost (evaluators h fuel) (some p) e s with
      | error x u =>
        rw [hr] at hsame
        exact hsame.elim
      | ok b u =>
        rw [hr] at hsame
        obtain ⟨rfl, rfl⟩ := hsame
        exact hbreak u hr

theorem forIter_agrees (fuel : Nat) (c post : Option (Node D)) (body : Node D) (n : Nat) (last : Value D) :
    Couple (fun s s' => s' = s ∧ ForMeets h (evaluators h fuel) c post body e n s)
      (forIter h (evaluators h fuel) c post body e n last)
      (refIter h (evaluators h fuel) c post body e n last) fun a b t t' => a = b ∧ t = t' := by
  induction n generalizing last with
  | zero => exact Couple.cut
  | succ n ih =>
    rw [forIter_succ]
    unfold refIter
    -- what the hypothesis still says after the condition and after the tick
    let afterTick : State D Θ → Prop := fun s₂ => ∀ s₃ v,
      runBody (evaluators h fuel) body e s₂ = .ok v s₃ →
        BodyEnd (evaluators h fuel) post e (ForMeets h (evaluators h fuel) c post body e n) s₃
    let afterCondition : State D Θ → Prop := fun s₁ => ∀ s₂,
      evalLoopTick h e s₁ = .ok true s₂ → afterTick s₂
    refine Couple.same_bind (fun b s₁ => b = true → afterCondition s₁) ?_ fun b => ?_
    · rintro s b s₁ hs hc rfl s₂ ht s₃ v hb
      exact hs s₁ s₂ s₃ v hc ht hb
    cases b with
    | false => exact Couple.pure' _ _ fun _ _ hs => ⟨rfl, hs.1.symm⟩
    | true =>
      refine Couple.same_bind (fun b s₂ => b = true → afterTick s₂) ?_ fun b => ?_
      · rintro s₁ b s₂ hs ht rfl
        exact hs rfl s₂ ht
      cases b with
      | false => exact Couple.pure' _ _ fun _ _ hs => ⟨rfl, hs.1.symm⟩
      | true =>
        refine Couple.same_bind (fun _ s₃ => BodyEnd (evaluators h fuel) post e
          (ForMeets h (evaluators h fuel) c post body e n) s₃) ?_ fun v => ?_
        · intro s₂ v s₃ hs hb
          exact hs rfl s₃ v hb
        refine Couple.same_bind (fun env s₃ => env = s₃.envs e ∧ BodyEnd (evaluators h fuel) post e
          (ForMeets h (evaluators h fuel) c post body e n) s₃) ?_ fun env => ?_
        · intro s env t hs hg
          cases hg
          exact ⟨rfl, hs⟩
        refine Couple.bind' (R := fun b b' t t' => b = b' ∧ t' = t ∧
          (b = true → ForMeets h (evaluators h fuel) c post body e n t)) ?_ fun b b' => ?_
        · rintro s s' ⟨rfl, rfl, hs⟩
          exact forNext_agrees fuel post hs
        · rintro t t' ⟨rfl, rfl, hn⟩
          cases b with
          | false => exact ⟨rfl, rfl⟩
          | true => exact ih v t' t' ⟨rfl, hn rfl⟩

/-- Where no body throws, `continue` is followed only by a post-expression that does not
    look at the flag, and no post-expression breaks, a `for` loop ends with the value and
    in the state of the loop it stands for. -/
theorem for_loop_refines_while (h : Host D Θ) (fuel n : Nat) (init c post : Option (Node D))
    (body : Node D) (e : EnvId) (s : State D Θ)
    (hs : LoopMeets h (evaluators h fuel) init c post body e n s) :
    SameEnd (evalFor h (evaluators h fuel) init c post body e n s)
      (refFor h (evaluators h fuel) init c post body e n s) := by
  refine Couple.same_bind (I := fun t => t = s)
    (fun _ t => ForMeets h (evaluators h fuel) c post body e n t) ?_ (fun v => ?_) s s ⟨rfl, rfl⟩
  · rintro t v t' rfl ht
    exact hs v t' ht
  refine Couple.same_bind (fun _ t => ForMeets h (evaluators h fuel) c post body e n t) ?_ fun b => ?_
  · intro t b t' ht hr
    cases hr
    exact ht
  cases b with
  | false => exact Couple.pure' _ _ fun _ _ hs => ⟨rfl, hs.1.symm⟩
  | true => exact forIter_agrees fuel c post body n zero

end Agreement

section Examples

/-- `i = 3`, `i > 0`, `i = i - 1` and `{ count = count + 1; continue; }`. -/
def countInit : Node ℚ := .assignment "i" (.integer 3)

def countCondition : Node ℚ := .binary .gt (some (.varRef "i")) (.integer 0)

def countPost : Node ℚ := .assignment "i" (.binary .minus (some (.varRef "i")) (.integer 1))

def countBody : Node ℚ :=
  .block [.assignment "count" (.binary .plus (some (.varRef "count")) (.integer 1)), .flowContinue]

def countStart : State ℚ Unit := State.fresh [("count", .integer 0)]

/-- The integer a run leaves in `count`. -/
def countAfter (r : EStateM.Result Unit (State ℚ Unit) (Value ℚ)) : Option Int :=
  match r with
  | .ok _ t =>
    match lookupBinding t.envs 0 "count" with
    | some ⟨.integer i, _⟩ => some i
    | _ => none
  | .error _ _ => none

theorem countAfter_of_sameEnd {r r' : EStateM.Result Unit (State ℚ Unit) (Value ℚ)}
    (hs : SameEnd r r') : countAfter r = countAfter r' := by
  cases r with
  | ok a t =>
    cases r' with
    | ok b t' => rw [hs.1, hs.2]
    | error x t' => exact hs.elim
  | error x t =>
    cases r' with
    | ok b t' => exact hs.elim
    | error y t' => rfl

/-- The loop that counts three iterations stops after one: under CONTINUE the subtraction is
    given up and `i` is set to zero. -/
theorem continue_skips_post :
    let code := evalFor Host.bare (evaluators Host.bare 6) countInit countCondition countPost
      countBody 0 6 countStart
    let loop := refFor Host.bare (evaluators Host.bare 6) countInit countCondition countPost
      countBody 0 6 countStart
    countAfter code = some 1 ∧ countAfter loop = some 3 ∧ ¬ SameEnd code loop := by
  have hcode : countAfter (evalFor Host.bare (evaluators Host.bare 6) countInit countCondition
      countPost countBody 0 6 countStart) = some 1 := by decide +kernel
  have hloop : countAfter (refFor Host.bare (evaluators Host.bare 6) countInit countCondition
      countPost countBody 0 6 countStart) = some 3 := by decide +kernel
  refine ⟨hcode, hloop, fun hs => ?_⟩
  have h := countAfter_of_sameEnd hs
  rw [hcode, hloop] at h
  cases h

/-- `for (i = 1; i; i = 0) { continue; }`: the post-expression is blind. -/
theorem continue_before_blind_post : SameEnd
      (evalFor Host.bare (evaluators Host.bare 4) (some (.assignment "i" (.integer 1)))
        (some (.varRef "i")) (some (.assignment "i" (.integer 0))) .flowContinue 0 2 countStart)
      (refFor Host.bare (evaluators Host.bare 4) (some (.assignment "i" (.integer 1)))
        (some (.varRef "i")) (some (.assignment "i" (.integer 0))) .flowContinue 0 2
        countStart) := by
  refine for_loop_refines_while Host.bare 4 2 _ _ _ _ 0 countStart ?_
  exact loopMeets_of_check (by decide +kernel)

end Examples

end TurboScript.Exprtk
