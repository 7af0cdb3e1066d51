import TurboScript.Exprtk.ValueArg

/- What entering a node costs, and the state of an evaluation that only enters nodes.

   `Affords h e k s`: in `s` the environment `e` may enter `k` more nodes, by the counter or
   by the verdicts of the safe-point hook. `charge e k s` is `s` after `k` entries: nothing
   but the counter has moved, so reads of variables and the flow flag are as in `s`. -/
namespace TurboScript.Exprtk
open Lib

section Charge
set_option linter.unusedSectionVars false
variable {D Θ : Type} [Double D]

/-- The node counter after `k` entries, or the number of hook calls. -/
def charge (e : EnvId) (k : Nat) (s : State D Θ) : State D Θ :=
  if (s.envs e).safePoint then { s with safePoints := s.safePoints + k }
  else s.update e fun env => { env with currNodes := env.currNodes + k }

/-- Nothing is pending and `k` more nodes are within the budget. -/
structure Affords (h : Host D Θ) (e : EnvId) (k : Nat) (s : State D Θ) : Prop where
  flow : (s.envs e).flow = .normal
  aborted : (s.envs e).aborted = false
  hook : (s.envs e).safePoint = true →
    ∀ i, i < k → h.safePoint (s.safePoints + i) .step 1 = true
  nodes : (s.envs e).safePoint = false →
    (s.envs e).currNodes + k ≤ (s.envs e).maxNodes ∧ (s.envs e).maxNodes < 2 ^ 32

theorem charge_envs (e : EnvId) (k : Nat) (s : State D Θ) (i : EnvId) :
    ∃ n, (charge e k s).envs i = { s.envs i with currNodes := n } := by
  unfold charge
  split
  · exact ⟨_, rfl⟩
  · by_cases hi : i = e
    · subst hi
      exact ⟨(s.envs i).currNodes + k, by simp only [State.update, Function.update_self]⟩
    · exact ⟨(s.envs i).currNodes, by simp only [State.update, Function.update_of_ne hi]⟩

@[simp] theorem charge_flow (e : EnvId) (k : Nat) (s : State D Θ) (i : EnvId) :
    ((charge e k s).envs i).flow = (s.envs i).flow := by
  obtain ⟨n, hn⟩ := charge_envs e k s i
  rw [hn]

@[simp] theorem charge_aborted (e : EnvId) (k : Nat) (s : State D Θ) (i : EnvId) :
    ((charge e k s).envs i).aborted = (s.envs i).aborted := by
  obtain ⟨n, hn⟩ := charge_envs e k s i
  rw [hn]

@[simp] theorem charge_vars (e : EnvId) (k : Nat) (s : State D Θ) (i : EnvId) :
    ((charge e k s).envs i).vars = (s.envs i).vars := by
  obtain ⟨n, hn⟩ := charge_envs e k s i
  rw [hn]

@[simp] theorem charge_parent (e : EnvId) (k : Nat) (s : State D Θ) (i : EnvId) :
    ((charge e k s).envs i).parent = (s.envs i).parent := by
  obtain ⟨n, hn⟩ := charge_envs e k s i
  rw [hn]

@[simp] theorem charge_safePoint (e : EnvId) (k : Nat) (s : State D Θ) (i : EnvId) :
    ((charge e k s).envs i).safePoint = (s.envs i).safePoint := by
  obtain ⟨n, hn⟩ := charge_envs e k s i
  rw [hn]

@[simp] theorem charge_maxNodes (e : EnvId) (k : Nat) (s : State D Θ) (i : EnvId) :
    ((charge e k s).envs i).maxNodes = (s.envs i).maxNodes := by
  obtain ⟨n, hn⟩ := charge_envs e k s i
  rw [hn]

variable {e : EnvId} {s : State D Θ}

theorem charge_currNodes (hs : (s.envs e).safePoint = false) (k : Nat) :
    ((charge e k s).envs e).currNodes = (s.envs e).currNodes + k := by
  simp [charge, hs, State.update]

theorem charge_safePoints (hs : (s.envs e).safePoint = true) (k : Nat) :
    (charge e k s).safePoints = s.safePoints + k := by
  simp [charge, hs]

theorem charge_add (e : EnvId) (j k : Nat) (s : State D Θ) :
    charge e k (charge e j s) = charge e (j + k) s := by
  by_cases hs : (s.envs e).safePoint = true
  · simp [charge, hs, Nat.add_assoc]
  · simp only [Bool.not_eq_true] at hs
    simp [charge, hs, State.update, Nat.add_assoc]

theorem findEnv_congr {envs envs' : EnvId → Env D} {p : Env D → Bool}
    (hp : ∀ i, p (envs' i) = p (envs i)) (hpar : ∀ i, (envs' i).parent = (envs i).parent) :
    ∀ (n : Nat) (e : EnvId), findEnv envs' p n e = findEnv envs p n e
  | 0, _ => rfl
  | n + 1, e => by
    simp only [findEnv, hp, hpar]
    split
    · rfl
    · cases (envs e).parent with
      | none => rfl
      | some e' => exact findEnv_congr hp hpar n e'

theorem lookupBinding_charge (e : EnvId) (k : Nat) (s : State D Θ) (i : EnvId) (name : Name) :
    lookupBinding (charge e k s).envs i name = lookupBinding s.envs i name := by
  unfold lookupBinding
  have hsame : ∀ p : Env D → Bool, (∀ j, p ((charge e k s).envs j) = p (s.envs j)) →
      findEnv (charge e k s).envs p (i + 1) i = findEnv s.envs p (i + 1) i :=
    fun p hp => findEnv_congr hp (fun j => by simp) _ i
  rw [hsame _ fun j => by simp]
  cases findEnv s.envs _ (i + 1) i with
  | none => rfl
  | some j => simp

def readVariable (s : State D Θ) (e : EnvId) (name : Name) : Value D :=
  match lookupBinding s.envs e name with
  | some b => b.value
  | none => zero

theorem readVariable_charge (e : EnvId) (k : Nat) (s : State D Θ) :
    readVariable (charge e k s) e = readVariable s e := by
  funext name
  simp only [readVariable, lookupBinding_charge]

theorem envGet_apply (e : EnvId) (name : Name) (s : State D Θ) :
    envGet e name s = .ok (readVariable s e name) s := by
  unfold envGet readVariable
  cases h : lookupBinding s.envs e name with
  | none | some => simp [get_bind_apply, h, pure_apply]

namespace Affords
variable {h : Host D Θ} {e : EnvId} {s : State D Θ}

theorem mono {j k : Nat} (ha : Affords h e k s) (hjk : j ≤ k) : Affords h e j s where
  flow := ha.flow
  aborted := ha.aborted
  hook hs i hi := ha.hook hs i (Nat.lt_of_lt_of_le hi hjk)
  nodes hs := ⟨by have := (ha.nodes hs).1; omega, (ha.nodes hs).2⟩

theorem charge {j k : Nat} (ha : Affords h e (j + k) s) : Affords h e k (charge e j s) where
  flow := by rw [charge_flow]; exact ha.flow
  aborted := by rw [charge_aborted]; exact ha.aborted
  hook hs i hi := by
    rw [charge_safePoint] at hs
    rw [charge_safePoints hs, Nat.add_assoc]
    exact ha.hook hs (j + i) (by omega)
  nodes hs := by
    rw [charge_safePoint] at hs
    rw [charge_currNodes hs, charge_maxNodes]
    have := ha.nodes hs
    omega

end Affords

theorem getEnv_apply (e : EnvId) (s : State D Θ) : getEnv e s = .ok (s.envs e) s := rfl

theorem flowNormal_apply (e : EnvId) (s : State D Θ) :
    flowNormal e s = .ok (decide ((s.envs e).flow = .normal)) s := rfl

theorem evalStep_affords {h : Host D Θ} (ha : Affords h e 1 s) :
    evalStep h e s = .ok true (charge e 1 s) := by
  by_cases hs : (s.envs e).safePoint = true
  · have hv := ha.hook hs 0 (by decide)
    rw [Nat.add_zero] at hv
    simp [evalStep, bind_apply, getEnv_apply, hs, evalSafePoint, callSafePoint, charge, hv, get_apply,
      modify_apply, pure_apply]
  · simp only [Bool.not_eq_true] at hs
    have hn := ha.nodes hs
    have hmod : ((s.envs e).currNodes + 1) % 2 ^ 32 = (s.envs e).currNodes + 1 :=
      Nat.mod_eq_of_lt (by omega)
    have hle : ¬(s.envs e).maxNodes < (s.envs e).currNodes + 1 := by omega
    simp only [evalStep, bind_apply, getEnv_apply, hs, hmod, modifyEnv, modify_apply, hle, if_false,
      Bool.false_eq_true]
    simp [charge, hs, State.update, pure_apply]

variable [Formats]

theorem exprtkEval_affords {h : Host D Θ} (R : Evaluators D Θ) (n : Nat) (node : Node D)
    (ha : Affords h e 1 s) :
    exprtkEval h R n node e s = evalNode h R n node e (charge e 1 s) := by
  simp only [exprtkEval, bind_apply, getEnv_apply, ha.aborted, Bool.false_eq_true, if_false,
    evalStep_affords ha, if_true]

end Charge

end TurboScript.Exprtk
