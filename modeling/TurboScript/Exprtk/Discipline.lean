import TurboScript.Exprtk.ValueArg

/- What an evaluation keeps, whatever it is that is kept.

   A discipline says which states of a run are at rest (`idle`), in which an evaluation at an
   environment may end (`opened`), and which a failure of the MIR evaluator may leave (`lost`).
   An index holds what is fixed while an evaluation runs.

   The laws say what the operations on the state do: `Laws` is about the tree evaluator, `MirLaws`
   about the two failure channels of the MIR evaluator. Calls of functions, classes and natives
   obey by the laws. -/
namespace TurboScript.Exprtk
open Lib.Triple (bind' ite' pure')
open Lib

set_option linter.unusedSectionVars false

structure Discipline (D Θ : Type) where
  Index : Type
  /-- Where a run may be cut off. -/
  cut : State D Θ → Prop
  idle : Index → EnvId → State D Θ → Prop
  opened : Index → EnvId → State D Θ → Prop
  lost : Index → EnvId → State D Θ → Prop
  /-- Nothing that needs a test may stay open. -/
  down : Index → Prop

/-- A change of the state that leaves guard, trace, flows, errors and aborts alone. -/
structure Silent {D Θ : Type} (f : State D Θ → State D Θ) : Prop where
  guard : ∀ s, (f s).guard = s.guard
  trace : ∀ s, (f s).trace = s.trace
  next : ∀ s, (f s).next = s.next
  flow : ∀ s i, ((f s).envs i).flow = (s.envs i).flow
  errorValue : ∀ s i, ((f s).envs i).errorValue = (s.envs i).errorValue
  aborted : ∀ s i, ((f s).envs i).aborted = (s.envs i).aborted

theorem Silent.update {D Θ : Type} (i : EnvId) {f : Env D → Env D} (hflow : ∀ env, (f env).flow = env.flow)
    (herr : ∀ env, (f env).errorValue = env.errorValue)
    (hab : ∀ env, (f env).aborted = env.aborted) :
    Silent fun s : State D Θ => s.update i f := by
  constructor <;> intro s <;> try rfl
  all_goals
    intro j
    by_cases hj : j = i
    · subst hj
      simp [State.update, hflow, herr, hab]
    · simp [State.update, hj]

theorem silent_store {D Θ : Type} (g : State D Θ → Θ) :
    Silent fun s : State D Θ => { s with store := g s } := by
  constructor <;> intros <;> rfl

theorem silent_safePoints {D Θ : Type} (n : Nat) :
    Silent fun s : State D Θ => { s with safePoints := n } := by
  constructor <;> intros <;> rfl

theorem getEnv_spec {D Θ : Type} {P : State D Θ → Prop} {C : State D Θ → Prop} (e : EnvId) :
    Triple C P (getEnv e) fun env s => P s ∧ env = s.envs e :=
  fun _ hs => ⟨hs, rfl⟩

namespace Discipline
variable {D Θ : Type} {α β : Type}

section Notions
variable (P : Discipline D Θ) (e : EnvId)

def Calm (m : Eval D Θ α) : Prop :=
  ∀ i, Triple P.cut (P.idle i e) m fun _ => P.idle i e

def Sound (m : Eval D Θ α) : Prop :=
  ∀ i, Triple P.cut (P.idle i e) m fun _ => P.opened i e

def Passes (m : Eval D Θ α) : Prop :=
  ∀ i, Triple P.cut (P.opened i e) m fun _ => P.opened i e

/-- A result that is a failure where `ok` does not hold of it. -/
def Ends (ok : α → Bool) (i : P.Index) (a : α) (s : State D Θ) : Prop :=
  if ok a then P.opened i e s else P.lost i e s

def Rests (ok : α → Bool) (i : P.Index) (a : α) (s : State D Θ) : Prop :=
  if ok a then P.idle i e s else P.lost i e s

def SoundIf (ok : α → Bool) (m : Eval D Θ α) : Prop :=
  ∀ i, Triple P.cut (P.idle i e) m (P.Ends e ok i)

def SoundOut (m : Eval D Θ (Out D)) : Prop := P.SoundIf e Prod.fst m

/-- A test: where the answer is yes the state is at rest. -/
def Tests (m : Eval D Θ Bool) : Prop :=
  ∀ i, Triple P.cut (P.opened i e) m fun b s => if b then P.idle i e s else P.opened i e s

end Notions

/-! The laws. -/

section Laws
variable [Double D] [Formats]

class Laws (P : Discipline D Θ) : Prop where
  open_idle : ∀ {i e s}, P.idle i e s → P.opened i e s
  lost_idle : ∀ {i e s}, P.idle i e s → P.lost i e s
  fine : ∀ {i e s}, P.opened i e s → P.cut s
  idle_of_flow : ∀ {i e s}, P.opened i e s → (s.envs e).flow ≠ .throw → P.idle i e s
  idle_of_down : ∀ {i e s}, P.down i → P.opened i e s → P.idle i e s
  silent_calm : ∀ {e} {f : State D Θ → State D Θ}, Silent f → P.Calm e (modify f : Eval D Θ Unit)
  silent_passes : ∀ {e} {f : State D Θ → State D Θ}, Silent f →
    P.Passes e (modify f : Eval D Θ Unit)
  update_calm : ∀ {e} (j : EnvId) {f : Env D → Env D}, (∀ env, (f env).aborted = env.aborted) →
    (∀ env, (f env).flow = .throw → env.flow = .throw) →
    P.Calm e (modifyEnv j f : Eval D Θ Unit)
  effect_calm : ∀ {e} (k : Effect), P.Calm e (emit (.effect k) : Eval D Θ Unit)
  newEnv_calm : ∀ {e} {env : Env D}, env.aborted = false → env.flow ≠ .throw →
    P.Calm e (newEnv env : Eval D Θ EnvId)
  abort_calm : ∀ e, P.Calm e (abort e : Eval D Θ Unit)
  abort_passes : ∀ e, P.Passes e (abort e : Eval D Θ Unit)
  raise_sound : ∀ e v, P.Sound e (raise e v : Eval D Θ Unit)
  unchecked_rests : ∀ {α : Type} {e} {ok : α → Bool} {m : Eval D Θ α},
    (∀ i, P.down i → Triple P.cut (P.idle i e) m (P.Rests e ok i)) →
    ∀ i, Triple P.cut (P.idle i e) (unchecked m) (P.Rests e ok i)
  /-- A call: the parameters are bound from the parent environment, and the frame hands over
      to the caller what it carries. -/
  frame_sound : ∀ {env : Env D} {parent caller : EnvId} {bind : EnvId → Eval D Θ Unit}
    {body : EnvId → Eval D Θ (Value D)} {rest : Value D → Eval D Θ (Value D)},
    env.aborted = false → env.flow ≠ .throw → (∀ frame, P.Calm parent (bind frame)) →
    (∀ frame, P.Sound frame (body frame)) → (∀ v, P.Passes caller (rest v)) →
    P.Sound caller (do
      let frame ← newEnv env
      bind frame
      emit .resumed
      let result ← body frame
      let result ← leaveFrame caller frame result
      rest result)
  tryCatch_sound : ∀ {e} {m : Eval D Θ (Value D)} {clause : EnvId → Eval D Θ (Value D)}
    (catchVar : Option Name), P.Sound e m → (∀ c, P.Sound c (clause c)) → P.Sound e (do
      let v ← protectedBy m
      if (← getEnv e).flow = .throw then do
        let c ← enterCatch e catchVar
        let v ← clause c
        leaveCatch e c
        return v
      else return v)

class MirLaws (P : Discipline D Θ) : Prop extends Laws P where
  idle_of_aborted : ∀ {i e s}, P.opened i e s → (s.envs e).aborted = true → P.idle i e s
  recorded : ∀ i e, Triple P.cut (P.lost i e) (valueArgError e : Eval D Θ Unit) fun _ => P.idle i e
  resumed : ∀ i e, Triple P.cut (P.lost i e) (resume e : Eval D Θ Unit) fun _ => P.idle i e
  mirTryCatch_sound : ∀ {e} {m : Eval D Θ (Out D)} {clause : EnvId → Eval D Θ (Out D)}
    (catchVar : Option Name), P.SoundOut e m → (∀ c, P.SoundOut c (clause c)) →
    P.SoundOut e (onValue (protectedBy m) fun v => do
      if (← getEnv e).flow = .throw then do
        let c ← enterCatch e catchVar
        onValue (clause c) fun v => do
          leaveCatch e c
          done v
      else done v)

end Laws

/-! The rules. -/

section Rules
variable {P : Discipline D Θ} {e : EnvId} {i : P.Index}

theorem Calm.pure' (v : α) : P.Calm e (pure v : Eval D Θ α) :=
  fun _ => Triple.pure' v fun _ hs => hs

variable {m : Eval D Θ α}

theorem Calm.bind' {f : α → Eval D Θ β} (hm : P.Calm e m) (hf : ∀ v, P.Calm e (f v)) : P.Calm e (m >>= f) :=
  fun i => Triple.bind' (hm i) fun v => hf v i

theorem Calm.bind_sound {f : α → Eval D Θ β} (hm : P.Calm e m) (hf : ∀ v, P.Sound e (f v)) :
    P.Sound e (m >>= f) :=
  fun i => Triple.bind' (hm i) fun v => hf v i

theorem Calm.ite' {c : Prop} [Decidable c] {p q : Eval D Θ α} (hp : c → P.Calm e p)
    (hq : ¬c → P.Calm e q) : P.Calm e (if c then p else q) :=
  fun i => Triple.ite' (fun hc => hp hc i) fun hc => hq hc i

theorem Sound.ite' {c : Prop} [Decidable c] {p q : Eval D Θ α} (hp : c → P.Sound e p)
    (hq : ¬c → P.Sound e q) : P.Sound e (if c then p else q) :=
  fun i => Triple.ite' (fun hc => hp hc i) fun hc => hq hc i

theorem open_pure (v : α) : P.Passes e (pure v : Eval D Θ α) :=
  fun _ => pure' v fun _ hs => hs

theorem Sound.bind_pure (hm : P.Sound e m) (f : α → β) : P.Sound e (m >>= fun v => pure (f v)) :=
  fun i => Triple.bind' (hm i) fun _ => Triple.pure' _ fun _ hs => hs

theorem Passes.bind' {f : α → Eval D Θ β} (hm : P.Passes e m) (hf : ∀ v, P.Passes e (f v)) :
    P.Passes e (m >>= f) :=
  fun i => Triple.bind' (hm i) fun v => hf v i

theorem Sound.then_test {test : Eval D Θ Bool} {p q : α → Eval D Θ β} (hm : P.Sound e m)
    (ht : P.Tests e test) (hp : ∀ v, P.Sound e (p v)) (hq : ∀ v, P.Passes e (q v)) :
    P.Sound e (m >>= fun v => test >>= fun b => if b then p v else q v) := by
  intro i
  refine Triple.bind' (hm i) fun v => Triple.bind' (ht i) fun b => ?_
  cases b with
  | true => exact hp v i
  | false => exact hq v i

theorem Sound.unless_test {test : Eval D Θ Bool} {p q : α → Eval D Θ β} (hm : P.Sound e m)
    (ht : P.Tests e test) (hp : ∀ v, P.Sound e (p v)) (hq : ∀ v, P.Passes e (q v)) :
    P.Sound e (m >>= fun v => test >>= fun b => if !b then q v else p v) := by
  intro i
  refine Triple.bind' (hm i) fun v => Triple.bind' (ht i) fun b => ?_
  cases b with
  | true => exact hp v i
  | false => exact hq v i

theorem get_calm : P.Calm e (get : Eval D Θ (State D Θ)) :=
  fun _ => Triple.get' fun _ hs => hs

theorem getEnv_calm (j : EnvId) : P.Calm e (getEnv j : Eval D Θ (Env D)) :=
  fun _ => (getEnv_spec j).post fun _ _ hs => hs.1

variable [Double D] [Formats] [P.Laws]
open Laws

theorem Calm.sound (h : P.Calm e m) : P.Sound e m :=
  fun i => (h i).post fun _ _ hs => open_idle hs

theorem Sound.pure' (v : α) : P.Sound e (pure v : Eval D Θ α) :=
  (Calm.pure' v).sound

theorem cut_sound : P.Sound e (cutOff : Eval D Θ α) :=
  fun _ => Triple.cut fun _ hs => fine (open_idle hs)

theorem Sound.unchecked (hm : P.Sound e m) : P.Calm e (unchecked m) := by
  have h : ∀ i, Triple P.cut (P.idle i e) (Exprtk.unchecked m) (P.Rests e (fun _ => true) i) :=
    unchecked_rests fun i hi => (hm i).post fun _ _ hs => idle_of_down hi hs
  exact h

theorem modifyEnv_passes (j : EnvId) {f : Env D → Env D} (hflow : ∀ env, (f env).flow = env.flow)
    (herr : ∀ env, (f env).errorValue = env.errorValue)
    (hab : ∀ env, (f env).aborted = env.aborted) : P.Passes e (modifyEnv j f : Eval D Θ Unit) :=
  silent_passes (Silent.update j hflow herr hab)

theorem flow_spec : Triple P.cut (P.opened i e) (getEnv e : Eval D Θ (Env D)) fun env s =>
    if env.flow = .throw then P.opened i e s else P.idle i e s := by
  refine (getEnv_spec e).post fun env s hs => ?_
  obtain ⟨hs, rfl⟩ := hs
  by_cases hf : (s.envs e).flow = .throw
  · rwa [if_pos hf]
  · rw [if_neg hf]
    exact idle_of_flow hs hf

theorem tests_flow {c : Env D → Bool} (hc : ∀ env, c env = true → env.flow = .normal) :
    P.Tests e (getEnv e >>= fun env => pure (c env) : Eval D Θ Bool) := by
  intro i
  refine bind' (getEnv_spec e) fun env => pure' _ fun s hs => ?_
  obtain ⟨hs, rfl⟩ := hs
  split
  · rename_i hb
    exact idle_of_flow hs (by rw [hc _ hb]; decide)
  · exact hs

theorem flowNormal_tests : P.Tests e (flowNormal e : Eval D Θ Bool) :=
  tests_flow fun _ h => of_decide_eq_true h

theorem running_tests : P.Tests e (running e : Eval D Θ Bool) :=
  tests_flow fun _ h => (of_decide_eq_true h).1

end Rules

/-! The operations on the state. -/

section Operations
variable [Double D] [Formats] {P : Discipline D Θ} [P.Laws] {e : EnvId}
open Laws

theorem setFlow_calm (j : EnvId) {f : Flow} (hf : f ≠ .throw) : P.Calm e (setFlow j f : Eval D Θ Unit) :=
  update_calm j (fun _ => rfl) fun _ h => absurd h hf

theorem store_calm (g : State D Θ → Θ) :
    P.Calm e (modify fun s => { s with store := g s } : Eval D Θ Unit) :=
  silent_calm (silent_store g)

theorem currentClass_calm (j : EnvId) : P.Calm e (currentClass j : Eval D Θ (Option ClassId)) := by
  refine get_calm.bind' fun s => ?_
  dsimp only
  split <;> exact Calm.pure' _

theorem findFunc_calm (j : EnvId) (name : Name) :
    P.Calm e (findFunc j name : Eval D Θ (Option (Callee D))) := by
  refine get_calm.bind' fun s => ?_
  dsimp only
  split <;> exact Calm.pure' _

theorem envHas_calm (j : EnvId) (name : Name) : P.Calm e (envHas j name : Eval D Θ Bool) :=
  get_calm.bind' fun _ => Calm.pure' _

theorem envSetLocal_calm (j : EnvId) (name : Name) (v : Value D) :
    P.Calm e (envSetLocal j name v : Eval D Θ Unit) :=
  update_calm j (fun _ => rfl) fun _ h => h

theorem envSet_calm (j : EnvId) (name : Name) (v : Value D) :
    P.Calm e (envSet j name v : Eval D Θ Unit) := by
  refine get_calm.bind' fun s => ?_
  split <;> exact envSetLocal_calm _ _ _

theorem envSetConstant_calm (j : EnvId) (name : Name) (v : Value D) :
    P.Calm e (envSetConstant j name v : Eval D Θ Unit) :=
  (envSet_calm j name v).bind' fun _ => update_calm j (fun _ => rfl) fun _ h => h

theorem bindTarget_calm (c : Bool) (j : EnvId) (name : Name) (v : Value D) :
    P.Calm e (bindTarget c j name v : Eval D Θ Unit) :=
  Calm.ite' (fun _ => envSetConstant_calm j name v) fun _ => envSet_calm j name v

theorem callSafePoint_calm (h : Host D Θ) (kind : SafePointKind) (cost : Nat) :
    P.Calm e (callSafePoint h kind cost) :=
  get_calm.bind' fun _ => Calm.bind' (silent_calm (silent_safePoints _)) fun _ => Calm.pure' _

theorem evalSafePoint_calm (h : Host D Θ) (kind : SafePointKind) (cost : Nat) :
    P.Calm e (evalSafePoint h e kind cost) := by
  refine (callSafePoint_calm h kind cost).bind' fun b => ?_
  exact Calm.ite' (fun _ => Calm.pure' _) fun _ => (abort_calm e).bind' fun _ => Calm.pure' _

theorem evalSafePoint_passes (h : Host D Θ) (kind : SafePointKind) (cost : Nat) :
    P.Passes e (evalSafePoint h e kind cost) := by
  refine Passes.bind' (Passes.bind' (fun _ => Triple.get' fun _ hs => hs) fun _ =>
    Passes.bind' (silent_passes (silent_safePoints _)) fun _ => open_pure _) fun b i => ?_
  exact ite' (fun _ => open_pure _ i) fun _ =>
    (abort_passes e).bind' (fun _ => open_pure _) i

theorem evalStep_calm (h : Host D Θ) : P.Calm e (evalStep h e) := by
  refine (getEnv_calm e).bind' fun env => ?_
  refine Calm.ite' (fun _ => evalSafePoint_calm h _ _) fun _ => ?_
  refine Calm.bind' (update_calm e (fun _ => rfl) fun _ h => h) fun _ => ?_
  exact Calm.ite' (fun _ => (abort_calm e).bind' fun _ => Calm.pure' _) fun _ => Calm.pure' _

theorem evalLoopTick_calm (h : Host D Θ) : P.Calm e (evalLoopTick h e) := by
  refine (getEnv_calm e).bind' fun env => ?_
  refine Calm.ite' (fun _ => evalSafePoint_calm h _ _) fun _ => ?_
  refine Calm.bind' (update_calm e (fun _ => rfl) fun _ h => h) fun _ => ?_
  exact Calm.ite' (fun _ => (abort_calm e).bind' fun _ => Calm.pure' _) fun _ => Calm.pure' _

theorem envGet_calm (j : EnvId) (name : Name) : P.Calm e (envGet j name : Eval D Θ (Value D)) := by
  refine get_calm.bind' fun s => ?_
  split <;> exact Calm.pure' _

theorem snapshot_calm (j : EnvId) (names : Option (List Name)) :
    P.Calm e (snapshot j names : Eval D Θ EnvId) :=
  get_calm.bind' fun _ => newEnv_calm rfl (by simp)

theorem throwErr_sound (e : EnvId) (msg : String) : P.Sound e (throwErr e msg : Eval D Θ (Value D)) := by
  refine Calm.bind_sound (update_calm e (fun _ => rfl) fun _ h => h) fun _ => ?_
  exact (raise_sound e _).bind_pure _

mutual
theorem destructure_calm (k : Bool) (j : EnvId) : ∀ (target : Node D) (rhs : Value D),
    P.Calm e (destructure k j target rhs : Eval D Θ Unit) := by
  intro target rhs
  unfold destructure
  split
  · exact Calm.ite' (fun _ => envSetConstant_calm _ _ _) fun _ => envSetLocal_calm _ _ _
  · exact destructureVector_calm k j _ _
  · exact destructureMap_calm k j _ _ _
  · exact destructureMap_calm k j _ _ _
  · exact bindTarget_calm _ _ _ _
  · exact Calm.pure' _

theorem destructureVector_calm (k : Bool) (j : EnvId) : ∀ (els : List (Node D)) (xs : List D),
    P.Calm e (destructureVector k j els xs : Eval D Θ Unit) := by
  intro els xs
  unfold destructureVector
  split
  · exact Calm.pure' _
  · exact (bindTarget_calm _ _ _ _).bind' fun _ => destructureVector_calm k j _ _
  · exact destructureVector_calm k j _ _
  · exact destructureVector_calm k j _ _
  · exact (destructure_calm k j _ _).bind' fun _ => destructureVector_calm k j _ _

theorem destructureMap_calm (k : Bool) (j : EnvId) :
    ∀ (rest : List (Option Name × Node D)) (es : List (Name × Value D))
      (pattern : List (Option Name × Node D)),
    P.Calm e (destructureMap k j rest es pattern : Eval D Θ Unit) := by
  intro rest es pattern
  unfold destructureMap
  split
  · exact Calm.pure' _
  · exact (destructure_calm k j _ _).bind' fun _ => destructureMap_calm k j _ _ _
  · refine (destructureMap_calm k j _ _ _).bind' fun _ => ?_
    exact Calm.ite' (fun _ => destructure_calm k j _ _) fun _ => Calm.pure' _
end

end Operations

/-! A result that may be a failure. -/

section Failures
variable [Double D] [Formats] {P : Discipline D Θ} {e : EnvId} {ok : α → Bool} {m : Eval D Θ α}
  {f : α → Eval D Θ β} {Q : P.Index → β → State D Θ → Prop}

theorem SoundIf.bind (hm : P.SoundIf e ok m)
    (hs : ∀ a i, ok a = true → Triple P.cut (P.opened i e) (f a) (Q i))
    (hf : ∀ a i, ok a = false → Triple P.cut (P.lost i e) (f a) (Q i)) (i : P.Index) :
    Triple P.cut (P.idle i e) (m >>= f) (Q i) := by
  refine Triple.bind' (hm i) fun a => ?_
  cases ha : ok a with
  | true => exact (hs a i ha).pre fun s h => by simpa [Ends, ha] using h
  | false => exact (hf a i ha).pre fun s h => by simpa [Ends, ha] using h

variable [P.Laws]
open Laws

theorem bind_unchecked (hm : ∀ i, P.down i → Triple P.cut (P.idle i e) m (P.Rests e ok i))
    (hs : ∀ a i, ok a = true → Triple P.cut (P.idle i e) (f a) (Q i))
    (hf : ∀ a i, ok a = false → Triple P.cut (P.lost i e) (f a) (Q i)) (i : P.Index) :
    Triple P.cut (P.idle i e) (unchecked m >>= f) (Q i) := by
  refine bind' (unchecked_rests hm i) fun a => ?_
  cases ha : ok a with
  | true => exact (hs a i ha).pre fun s h => by simpa [Rests, ha] using h
  | false => exact (hf a i ha).pre fun s h => by simpa [Rests, ha] using h

theorem SoundIf.rests (hm : P.SoundIf e ok m) (i : P.Index) (hi : P.down i) :
    Triple P.cut (P.idle i e) m (P.Rests e ok i) := by
  refine (hm i).post fun a s hs => ?_
  unfold Ends at hs
  unfold Rests
  split
  · rename_i ha
    rw [if_pos ha] at hs
    exact idle_of_down hi hs
  · rename_i ha
    rwa [if_neg ha] at hs

theorem Calm.out {m : Eval D Θ α} (hm : P.Calm e m) : P.SoundIf e ok m := by
  refine fun i => (hm i).post fun a s hs => ?_
  unfold Ends
  split
  · exact open_idle hs
  · exact lost_idle hs

theorem Calm.bind_out {m : Eval D Θ α} {f : α → Eval D Θ β} {ok : β → Bool} (hm : P.Calm e m)
    (hf : ∀ v, P.SoundIf e ok (f v)) : P.SoundIf e ok (m >>= f) :=
  fun i => Triple.bind' (hm i) fun v => hf v i

end Failures

/-! Calls. -/

structure Obeys [Double D] [Formats] (P : Discipline D Θ) (R : Evaluators D Θ) : Prop where
  eval : ∀ node e, P.Sound e (R.eval node e)
  valueArg : P.MirLaws → ∀ node e, P.SoundOut e (R.valueArg node e)
  callable : ∀ f args e, P.Sound e (R.callable f args e)

section Calls
variable [Double D] [Formats] {P : Discipline D Θ} [P.Laws] {h : Host D Θ} {R : Evaluators D Θ}
  (hh : h.mirHooks = true → P.MirLaws) (hR : P.Obeys R)
open Laws MirLaws
include hh hR

theorem recorded_sound (hmir : P.MirLaws) (node : Node D) (e : EnvId) (p q : Out D → Value D) :
    P.Sound e (R.valueArg node e >>= fun r => if r.1 then pure (p r) else do
      valueArgError e
      pure (q r)) := by
  refine (hR.valueArg hmir node e).bind (fun r i hr => ?_) fun r i hr => ?_
  · simp only [hr, if_true]
    exact open_pure _ i
  · simp only [hr]
    exact bind' (recorded i e) fun _ => Sound.pure' _ i

theorem envEvalNode_sound (node : Node D) (e : EnvId) : P.Sound e (envEvalNode h R node e) :=
  Sound.ite' (fun hm => recorded_sound hh hR (hh hm) node e Prod.snd Prod.snd) fun _ =>
    hR.eval node e

theorem execBody_sound (node : Node D) (e : EnvId) : P.Sound e (execBody h R node e) :=
  Sound.ite' (fun hm => recorded_sound hh hR (hh hm) node e Prod.snd fun _ => zero) fun _ =>
    hR.eval node e

theorem expandArg_sound (e : EnvId) (node : Node D) : P.Sound e (expandArg h R e node) := by
  unfold expandArg
  split
  · exact (envEvalNode_sound hh hR _ e).bind_pure _
  · exact (envEvalNode_sound hh hR _ e).bind_pure _

theorem expandArgs_sound (e : EnvId) (nodes : List (Node D)) : P.Sound e (expandArgs h R e nodes) := by
  induction nodes with
  | nil => exact Sound.pure' _
  | cons node nodes ih =>
    refine (expandArg_sound hh hR e node).then_test running_tests (fun vs => ?_) fun _ => open_pure _
    exact ih.bind_pure _

theorem bindParams_calm (parent frame : EnvId) (params : List (Node D)) (args : List (Value D)) :
    P.Calm parent (bindParams h R parent frame params args) := by
  have hvalue : ∀ param args, P.Calm parent (paramValue h R parent param args) := by
    intro param args
    unfold paramValue
    split
    · exact Calm.pure' _
    · exact (envEvalNode_sound hh hR _ parent).unchecked
    · exact Calm.pure' _
  have hbind : ∀ param v, P.Calm parent (bindParam frame param v : Eval D Θ Unit) := by
    intro param v
    unfold bindParam
    split
    · exact envSet_calm _ _ _
    · exact destructure_calm _ _ _ _
  induction params generalizing args with
  | nil => exact Calm.pure' _
  | cons param params ih =>
    unfold bindParams
    split
    · exact Calm.pure' _
    · exact destructure_calm _ _ _ _
    · rename_i heq
      cases heq
      exact (hvalue _ _).bind' fun v => (hbind _ v).bind' fun _ => ih _

theorem evalScriptFunction_sound (f : Func D) (args : List (Value D)) (parent caller : EnvId) :
    P.Sound caller (evalScriptFunction h R f args parent caller) := by
  refine (getEnv_calm caller).bind_sound fun c => ?_
  refine Calm.bind_sound (Calm.ite' (fun _ => evalSafePoint_calm h _ _) fun _ => Calm.pure' _)
    fun entered => ?_
  refine Sound.ite' (fun _ => Sound.pure' _) fun _ => ?_
  refine Calm.bind_sound (update_calm caller (fun _ => rfl) fun _ h => h) fun _ => ?_
  refine Sound.ite' (fun _ => ?_) fun _ => ?_
  · -- the recursion limit: aborted before a frame exists
    refine (abort_calm caller).bind_sound fun _ => ?_
    refine Calm.bind_sound (update_calm caller (fun _ => rfl) fun _ h => h) fun _ => ?_
    refine Sound.ite' (fun _ => ?_) fun _ => Sound.pure' _
    exact (callSafePoint_calm h _ _).bind_sound fun _ => Sound.pure' _
  · refine (getEnv_calm caller).bind_sound fun c => (getEnv_calm parent).bind_sound fun p => ?_
    refine Calm.bind_sound (P := P) ?_ fun captured => ?_
    · unfold capturedVars
      split
      · exact (getEnv_calm _).bind' fun _ => Calm.pure' _
      · exact Calm.pure' _
    · refine frame_sound rfl (by simp [Func.frame])
        (fun frame => bindParams_calm hh hR parent frame f.params args)
        (fun frame => execBody_sound hh hR f.body frame) fun result i => ?_
      exact ite' (fun _ => (evalSafePoint_passes h _ _).bind' (fun _ => open_pure _) i)
        fun _ => open_pure _ i

theorem callFunctionValue_sound (f : Func D) (args : List (Value D)) (e : EnvId) :
    P.Sound e (callFunctionValue h R f args e) :=
  evalScriptFunction_sound hh hR _ args _ e

theorem evalInstanceScriptMethod_sound (i : InstanceId) (m : Func D) (args : List (Value D))
    (e : EnvId) : P.Sound e (evalInstanceScriptMethod h R i m args e) :=
  (getEnv_calm e).bind_sound fun _ =>
    (newEnv_calm rfl (by simp [Env.childWithCounters, initChild])).bind_sound fun _ =>
      evalScriptFunction_sound hh hR m args _ e

theorem construct_sound (c : ClassId) (args : List (Value D)) (e : EnvId) :
    P.Sound e (construct h R c args e) := by
  refine get_calm.bind_sound fun s => ?_
  split
  · exact Sound.pure' _
  · refine (store_calm _).bind_sound fun _ => ?_
    split
    · refine (getEnv_calm e).bind_sound fun env => ?_
      refine (newEnv_calm rfl (by simp [Env.childWithCounters, initChild])).bind_sound fun ctorEnv => ?_
      exact (evalScriptFunction_sound hh hR _ args ctorEnv e).then_test running_tests
        (fun _ => Sound.pure' _) fun _ => open_pure _
    · exact (Sound.pure' ()).then_test running_tests (fun _ => Sound.pure' _) fun _ => open_pure _

omit hh hR in
theorem instantiationError_calm {e : EnvId} (c : ClassId) (className : Name) :
    P.Calm e (instantiationError h c className) := by
  refine get_calm.bind' fun s => ?_
  exact Calm.ite' (fun _ => Calm.pure' _) fun _ =>
    Calm.ite' (fun _ => Calm.pure' _) fun _ => Calm.pure' _

theorem instantiateWith_sound (c : ClassId) (className : Name) (args : List (Node D))
    (e : EnvId) : P.Sound e (instantiateWith h R c className args e) := by
  refine (instantiationError_calm c className).bind_sound fun err => ?_
  cases err with
  | some msg => exact throwErr_sound e msg
  | none =>
    exact (expandArgs_sound hh hR e args).then_test running_tests
      (fun vs => construct_sound hh hR c vs e) fun _ => open_pure _

theorem instantiateValues_sound (c : ClassId) (className : Name) (args : List (Value D))
    (e : EnvId) : P.Sound e (instantiateValues h R c className args e) := by
  refine (instantiationError_calm c className).bind_sound fun err => ?_
  cases err with
  | some msg => exact throwErr_sound e msg
  | none => exact construct_sound hh hR c args e

omit hh in
theorem runNative_sound (e : EnvId) (p : Native D) : P.Sound e (runNative R e p) := by
  induction p with
  | ret v => exact Sound.pure' v
  | throwErr msg => exact throwErr_sound e msg
  | abort => exact (abort_calm e).bind_sound fun _ => Sound.pure' _
  | getVar name k ih => exact (envGet_calm e name).bind_sound fun v => ih v
  | setVar name v k ih => exact (envSet_calm e name v).bind_sound fun _ => ih
  | call f args k ih =>
    exact (hR.callable f args e).then_test running_tests ih fun _ => open_pure _

theorem callInternal_sound (name : Name) (args : List (Value D)) (e : EnvId) :
    P.Sound e (callInternal h R name args e) := by
  refine (findFunc_calm e name).bind_sound fun callee => ?_
  split
  · exact evalScriptFunction_sound hh hR _ args e e
  · exact runNative_sound hR e _
  · refine (envGet_calm e name).bind_sound fun v => ?_
    split
    · exact instantiateValues_sound hh hR _ name args e
    · exact evalInstanceScriptMethod_sound hh hR _ _ args e
    · exact callFunctionValue_sound hh hR _ args e
    · split
      · exact runNative_sound hR e _
      · exact throwErr_sound e _

theorem callCallable_sound (f : Value D) (args : List (Value D)) (e : EnvId) :
    P.Sound e (callCallable h R f args e) := by
  unfold callCallable
  split
  · exact callInternal_sound hh hR _ args e
  · exact (envSetLocal_calm e _ _).bind_sound fun _ => callInternal_sound hh hR _ args e
  · exact Sound.pure' _

end Calls
end Discipline
end TurboScript.Exprtk
