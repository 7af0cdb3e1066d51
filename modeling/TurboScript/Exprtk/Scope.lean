import TurboScript.Exprtk.ValueArg

/- What the setters of an environment do to a chain of scopes.

   1. The setters as functions on states, and a destructuring as the list of settings it
      makes. Which names a pattern sets, and through which setter, is decided by the pattern
      and the value alone.
   2. Constants: a name is constant in an environment when its own table says so. No setter
      changes that, in whatever environment it is called. A declaration makes a name
      constant exactly when no enclosing scope has it first.
   3. Parameters: what binding them does to the scopes around the frame. -/
namespace TurboScript.Exprtk
open Lib

set_option linter.unusedSectionVars false

section Setters
variable {D Θ : Type} [Double D]

def State.setLocal (s : State D Θ) (e : EnvId) (name : Name) (v : Value D) : State D Θ :=
  s.update e fun env => { env with vars := bindVar env.vars name v }

/-- The environment on the chain of `e` whose table has the name. -/
def State.owner (s : State D Θ) (e : EnvId) (name : Name) : Option EnvId :=
  findEnv s.envs (fun env => (env.vars name).isSome) (e + 1) e

def State.set (s : State D Θ) (e : EnvId) (name : Name) (v : Value D) : State D Θ :=
  s.setLocal ((s.owner e name).getD e) name v

def State.setConstant (s : State D Θ) (e : EnvId) (name : Name) (v : Value D) : State D Θ :=
  (s.set e name v).update e fun env => { env with vars := markConstant env.vars name }

theorem envSetLocal_apply (e : EnvId) (name : Name) (v : Value D) (s : State D Θ) :
    envSetLocal e name v s = .ok () (s.setLocal e name v) := rfl

theorem envSet_apply (e : EnvId) (name : Name) (v : Value D) (s : State D Θ) :
    envSet e name v s = .ok () (s.set e name v) := by
  unfold envSet State.set
  rw [get_bind_apply]
  unfold State.owner
  cases findEnv s.envs (fun env => (env.vars name).isSome) (e + 1) e <;> rfl

theorem envSetConstant_apply (e : EnvId) (name : Name) (v : Value D) (s : State D Θ) :
    envSetConstant e name v s = .ok () (s.setConstant e name v) := by
  show (envSet e name v >>= fun _ => _) s = _
  rw [bind_apply, envSet_apply]
  rfl

/-- `exprtk_env_set_local_borrowed`: the entry refers to the caller's value. -/
def envSetLocalBorrowed (e : EnvId) (name : Name) (v : Value D) : Eval D Θ Unit :=
  modifyEnv e fun env => { env with vars := bindVar env.vars name v }

inductive BindOp (D : Type)
  | local (name : Name) (v : Value D)
  | walk (name : Name) (v : Value D)
  | constant (name : Name) (v : Value D)

def BindOp.name : BindOp D → Name
  | .local name _ | .walk name _ | .constant name _ => name

def BindOp.value : BindOp D → Value D
  | .local _ v | .walk _ v | .constant _ v => v

def BindOp.apply (e : EnvId) (s : State D Θ) : BindOp D → State D Θ
  | .local name v => s.setLocal e name v
  | .walk name v => s.set e name v
  | .constant name v => s.setConstant e name v

def applyAll (e : EnvId) (ops : List (BindOp D)) (s : State D Θ) : State D Θ :=
  ops.foldl (BindOp.apply e) s

def targetOp (isConstant : Bool) (name : Name) (v : Value D) : BindOp D :=
  if isConstant then .constant name v else .walk name v

mutual
/-- The settings of `eval_destructure`, in order. -/
def destructureOps (isConstant : Bool) : Node D → Value D → List (BindOp D)
  | .varRef name, rhs => [if isConstant then .constant name rhs else .local name rhs]
  | .vector elements, .vector xs => vectorOps isConstant elements xs
  | .mapLiteral pattern, .map es => mapOps isConstant pattern es pattern
  | .mapLiteral pattern, .object es => mapOps isConstant pattern es pattern
  | .spread (.varRef name), rhs => [targetOp isConstant name rhs]
  | _, _ => []

def vectorOps (isConstant : Bool) : List (Node D) → List D → List (BindOp D)
  | [], _ => []
  | .spread (.varRef name) :: els, xs =>
    targetOp isConstant name (.vector xs) :: vectorOps isConstant els []
  | .spread _ :: els, xs => vectorOps isConstant els xs
  | .null :: els, xs => vectorOps isConstant els xs.tail
  | el :: els, xs =>
    destructureOps isConstant el (match xs with | x :: _ => .number x | [] => zero) ++
      vectorOps isConstant els xs.tail

def mapOps (isConstant : Bool) :
    List (Option Name × Node D) → List (Name × Value D) → List (Option Name × Node D) → List (BindOp D)
  | [], _, _ => []
  | (some key, target) :: rest, es, pattern =>
    destructureOps isConstant target (mapGet es key) ++ mapOps isConstant rest es pattern
  | (none, target) :: rest, es, pattern =>
    mapOps isConstant rest es pattern ++
      if rest.all fun p => p.1.isSome then
        destructureOps isConstant target (.map (restEntries pattern es))
      else []
end

theorem applyAll_append (e : EnvId) (ops ops' : List (BindOp D)) (s : State D Θ) :
    applyAll e (ops ++ ops') s = applyAll e ops' (applyAll e ops s) :=
  List.foldl_append

theorem bindTarget_apply (k : Bool) (e : EnvId) (name : Name) (v : Value D) (s : State D Θ) :
    bindTarget k e name v s = .ok () (applyAll e [targetOp k name v] s) := by
  cases k with
  | false => exact envSet_apply e name v s
  | true => exact envSetConstant_apply e name v s

theorem apply_then {m m' : Eval D Θ Unit} {e : EnvId} {ops ops' : List (BindOp D)}
    (hm : ∀ s, m s = .ok () (applyAll e ops s)) (hm' : ∀ s, m' s = .ok () (applyAll e ops' s))
    (s : State D Θ) : (m >>= fun _ => m') s = .ok () (applyAll e (ops ++ ops') s) := by
  rw [bind_apply, hm]
  show m' _ = _
  rw [hm', applyAll_append]

mutual
theorem destructure_apply (k : Bool) (e : EnvId) : ∀ (target : Node D) (rhs : Value D)
    (s : State D Θ), destructure k e target rhs s =
      .ok () (applyAll e (destructureOps k target rhs) s) := by
  intro target rhs s
  unfold destructure
  split
  · cases k with
    | false => exact envSetLocal_apply _ _ _ s
    | true => exact envSetConstant_apply _ _ _ s
  · exact destructureVector_apply k e _ _ s
  · exact destructureMap_apply k e _ _ _ s
  · exact destructureMap_apply k e _ _ _ s
  · exact bindTarget_apply k e _ _ s
  · rw [destructureOps]
    · rfl
    all_goals assumption

theorem destructureVector_apply (k : Bool) (e : EnvId) : ∀ (els : List (Node D)) (xs : List D)
    (s : State D Θ), destructureVector k e els xs s = .ok () (applyAll e (vectorOps k els xs) s) := by
  intro els xs s
  unfold destructureVector
  split
  · rfl
  · exact apply_then (bindTarget_apply k e _ _) (destructureVector_apply k e _ _) s
  · rw [vectorOps]
    · exact destructureVector_apply k e _ _ s
    all_goals assumption
  · exact destructureVector_apply k e _ _ s
  · rename_i el els hrest hspread hnull
    have hops : vectorOps k (el :: els) xs =
        destructureOps k el (match xs with | x :: _ => .number x | [] => zero) ++
          vectorOps k els xs.tail := by
      cases el with
      | spread child => exact (hspread child rfl).elim
      | null => exact (hnull rfl).elim
      | _ => rfl
    rw [hops]
    exact apply_then (destructure_apply k e _ _) (destructureVector_apply k e _ _) s

theorem destructureMap_apply (k : Bool) (e : EnvId) :
    ∀ (rest : List (Option Name × Node D)) (es : List (Name × Value D))
      (pattern : List (Option Name × Node D)) (s : State D Θ),
      destructureMap k e rest es pattern s = .ok () (applyAll e (mapOps k rest es pattern) s) := by
  intro rest es pattern s
  unfold destructureMap
  split
  · rfl
  · exact apply_then (destructure_apply k e _ _) (destructureMap_apply k e _ _ _) s
  · rw [mapOps]
    refine apply_then (destructureMap_apply k e _ _ _) (fun s => ?_) s
    split
    · exact destructure_apply k e _ _ s
    · rfl
end

end Setters

/-! Constants. -/

section Constants
variable {D Θ : Type} [Double D]

inductive EnvOp (D : Type)
  | set (e : EnvId) (name : Name) (v : Value D)
  | setLocal (e : EnvId) (name : Name) (v : Value D)
  | setLocalBorrowed (e : EnvId) (name : Name) (v : Value D)
  | setConstant (e : EnvId) (name : Name) (v : Value D)
  | destructure (isConstant : Bool) (e : EnvId) (target : Node D) (rhs : Value D)

def EnvOp.run : EnvOp D → Eval D Θ Unit
  | .set e name v => envSet e name v
  | .setLocal e name v => envSetLocal e name v
  | .setLocalBorrowed e name v => envSetLocalBorrowed e name v
  | .setConstant e name v => envSetConstant e name v
  | .destructure k e target rhs => Exprtk.destructure k e target rhs

def runEnvOps : List (EnvOp D) → Eval D Θ Unit
  | [] => return
  | op :: ops => do
    op.run
    runEnvOps ops

/-- What a lookup of the name from `e` returns. -/
def valueFrom (s : State D Θ) (e : EnvId) (name : Name) : Option (Value D) :=
  (lookupBinding s.envs e name).map Binding.value

/-- The table of `e` itself has the name as a constant. -/
def IsConstant (e : EnvId) (name : Name) (v : Value D) (s : State D Θ) : Prop :=
  (s.envs e).vars name = some ⟨v, true⟩

variable {e : EnvId} {name : Name} {v : Value D}

theorem findEnv_some {envs : EnvId → Env D} {p : Env D → Bool} {n : Nat} {e i : EnvId}
    (h : findEnv envs p n e = some i) : p (envs i) = true := by
  induction n generalizing e with
  | zero => cases h
  | succ n ih =>
    unfold findEnv at h
    by_cases hp : p (envs e) = true
    · rw [if_pos hp] at h
      cases h
      exact hp
    · rw [if_neg hp] at h
      cases hq : (envs e).parent with
      | none =>
        rw [hq] at h
        cases h
      | some j =>
        rw [hq] at h
        exact ih h

variable {s : State D Θ}

theorem owner_of_isSome (h : ((s.envs e).vars name).isSome = true) : s.owner e name = some e := by
  unfold State.owner findEnv
  rw [if_pos h]

theorem valueFrom_of_local {b : Binding D} (h : (s.envs e).vars name = some b) :
    valueFrom s e name = some b.value := by
  have hb : s.owner e name = some e := owner_of_isSome (by rw [h]; rfl)
  unfold valueFrom lookupBinding
  unfold State.owner at hb
  rw [hb]
  simp [h]

theorem IsConstant.value (h : IsConstant e name v s) : valueFrom s e name = some v :=
  valueFrom_of_local h

theorem bindVar_constant {vars : Name → Option (Binding D)} (h : vars name = some ⟨v, true⟩)
    (x : Name) (w : Value D) : bindVar vars x w name = some ⟨v, true⟩ := by
  unfold bindVar
  by_cases hx : name = x
  · subst hx
    rw [h]
    simp [h]
  · cases hb : vars x with
    | none => simp [hx, h]
    | some b =>
      cases hc : b.isConstant with
      | true => simp [hc, h]
      | false => simp [hc, hx, h]

theorem markConstant_constant {vars : Name → Option (Binding D)}
    (h : vars name = some ⟨v, true⟩) (x : Name) :
    markConstant vars x name = some ⟨v, true⟩ := by
  unfold markConstant
  by_cases hx : name = x
  · subst hx
    simp [h]
  · cases vars x with
    | none => simpa using h
    | some b => simp [hx, h]

theorem IsConstant.update (h : IsConstant e name v s) (i : EnvId) {f : Env D → Env D}
    (hf : ∀ env, env.vars name = some ⟨v, true⟩ →
      (f env).vars name = some ⟨v, true⟩) : IsConstant e name v (s.update i f) := by
  unfold IsConstant State.update
  by_cases hi : e = i
  · subst hi
    simpa using hf _ h
  · have h : (s.envs e).vars name = some ⟨v, true⟩ := h
    simpa [hi] using h

theorem IsConstant.setLocal (h : IsConstant e name v s) (i : EnvId) (x : Name) (w : Value D) :
    IsConstant e name v (s.setLocal i x w) :=
  h.update i fun _ henv => bindVar_constant henv x w

theorem IsConstant.apply (h : IsConstant e name v s) (i : EnvId) (op : BindOp D) :
    IsConstant e name v (op.apply i s) := by
  cases op with
  | «local» x w => exact h.setLocal i x w
  | walk x w => exact h.setLocal _ x w
  | constant x w =>
    have hset : IsConstant e name v (s.set i x w) := h.setLocal _ x w
    exact hset.update i (f := fun env => { env with vars := markConstant env.vars x })
      fun env henv => markConstant_constant henv x

theorem IsConstant.applyAll (h : IsConstant e name v s) (i : EnvId) (ops : List (BindOp D)) :
    IsConstant e name v (applyAll i ops s) := by
  induction ops generalizing s with
  | nil => exact h
  | cons op ops ih => exact ih (h.apply i op)

theorem EnvOp.run_apply (op : EnvOp D) :
    ∃ i ops, ∀ s : State D Θ, op.run s = .ok () (applyAll i ops s) := by
  cases op with
  | set i x w => exact ⟨i, [.walk x w], envSet_apply i x w⟩
  | setLocal i x w => exact ⟨i, [.local x w], envSetLocal_apply i x w⟩
  | setLocalBorrowed i x w => exact ⟨i, [.local x w], fun _ => rfl⟩
  | setConstant i x w => exact ⟨i, [.constant x w], envSetConstant_apply i x w⟩
  | destructure k i target rhs => exact ⟨i, _, destructure_apply k i target rhs⟩

theorem IsConstant.runEnvOps (h : IsConstant e name v s) (ops : List (EnvOp D)) :
    IsConstant e name v (reached (runEnvOps ops) s) := by
  induction ops generalizing s with
  | nil => exact h
  | cons op ops ih =>
    obtain ⟨i, bs, hop⟩ := op.run_apply (Θ := Θ)
    have hstep : reached (Exprtk.runEnvOps (op :: ops)) s =
        reached (Exprtk.runEnvOps ops) (Exprtk.applyAll i bs s) := by
      show reached (op.run >>= fun _ => Exprtk.runEnvOps ops) s = _
      unfold reached
      rw [bind_apply, hop]
    rw [hstep]
    exact ih (h.applyAll i bs)

/-- The name can be declared in `e`: its own table has it as a variable, or as this very
    constant, or no scope on the chain has it. -/
def CanDeclare (s : State D Θ) (e : EnvId) (name : Name) (v : Value D) : Prop :=
  match (s.envs e).vars name with
  | some b => b.isConstant = false ∨ b.value = v
  | none => s.owner e name = none

theorem setConstant_local (h : (s.owner e name).getD e = e)
    (hb : ∀ b, (s.envs e).vars name = some b → b.isConstant = false ∨ b.value = v) :
    IsConstant e name v (s.setConstant e name v) ∧
      ∀ i, i ≠ e → (s.setConstant e name v).envs i = s.envs i := by
  unfold State.setConstant State.set
  rw [h]
  refine ⟨?_, fun i hi => by simp [State.setLocal, State.update, hi]⟩
  unfold IsConstant
  cases hv : (s.envs e).vars name with
  | none => simp [State.setLocal, State.update, bindVar, markConstant, hv]
  | some b =>
    obtain ⟨w, c⟩ := b
    cases c with
    | false => simp [State.setLocal, State.update, bindVar, markConstant, hv]
    | true =>
      have hw : w = v := (hb _ hv).resolve_left Bool.noConfusion
      subst hw
      simp [State.setLocal, State.update, bindVar, markConstant, hv]

theorem CanDeclare.setConstant (h : CanDeclare s e name v) : IsConstant e name v (s.setConstant e name v) ∧
      ∀ i, i ≠ e → (s.setConstant e name v).envs i = s.envs i := by
  unfold CanDeclare at h
  cases hv : (s.envs e).vars name with
  | none =>
    rw [hv] at h
    have h : s.owner e name = none := h
    exact setConstant_local (by rw [h]; rfl) fun b hb => by rw [hv] at hb; cases hb
  | some b =>
    rw [hv] at h
    refine setConstant_local ?_ fun b' hb' => ?_
    · rw [owner_of_isSome (by rw [hv]; rfl)]
      rfl
    · rw [hv] at hb'
      cases hb'
      exact h

theorem exists_ne_value (v : Value D) : ∃ w, w ≠ v := by
  cases v with
  | null => exact ⟨.bool true, by simp⟩
  | _ => exact ⟨.null, by simp⟩

theorem setConstant_elsewhere {i : EnvId} (hi : s.owner e name = some i)
    (hv : (s.envs e).vars name = none) :
    ((s.setConstant e name v).envs e).vars name = none := by
  have hne : e ≠ i := by
    rintro rfl
    have hs := findEnv_some hi
    rw [hv] at hs
    cases hs
  unfold State.setConstant State.set
  rw [hi]
  simp [State.setLocal, State.update, hne, markConstant, hv]

theorem runEnvOps_one (op : EnvOp D) {i : EnvId} {ops : List (BindOp D)}
    (hop : ∀ s : State D Θ, op.run s = .ok () (applyAll i ops s)) (s : State D Θ) :
    reached (runEnvOps [op]) s = applyAll i ops s := by
  show reached (op.run >>= fun _ => pure ()) s = _
  unfold reached
  rw [bind_apply, hop]
  rfl

/-- A declaration in `e` makes the name a constant of `e` for good, and changes no other
    environment, exactly when the name can be declared there. -/
theorem declared_constant_immutable_iff (s : State D Θ) (e : EnvId) (name : Name) (v : Value D) :
    ((∀ ops : List (EnvOp D), valueFrom (reached (runEnvOps ops)
        (reached (envSetConstant e name v) s)) e name = some v) ∧
      ∀ i, i ≠ e → (reached (envSetConstant e name v) s).envs i = s.envs i) ↔
    CanDeclare s e name v := by
  have hdecl : reached (envSetConstant e name v) s = s.setConstant e name v := by
    unfold reached
    rw [envSetConstant_apply]
  rw [hdecl]
  constructor
  · rintro ⟨hops, -⟩
    unfold CanDeclare
    cases hv : (s.envs e).vars name with
    | some b =>
      obtain ⟨w, c⟩ := b
      cases c with
      | false => exact .inl rfl
      | true =>
        -- a constant stays what it was
        have hc : IsConstant e name w (s.setConstant e name v) :=
          IsConstant.apply (e := e) hv e (.constant name v)
        have h := hops []
        exact .inr (Option.some.inj (hc.value.symm.trans h))
    | none =>
      show s.owner e name = none
      by_contra howner
      obtain ⟨i, hi⟩ := Option.ne_none_iff_exists'.mp howner
      -- the declaration went to another scope: a local of the same name hides it
      obtain ⟨w, hw⟩ := exists_ne_value v
      have hnone := setConstant_elsewhere (v := v) hi hv
      have h := hops [.setLocal e name w]
      have hrun : ∀ t : State D Θ, (EnvOp.setLocal e name w).run t =
          .ok () (applyAll e [.local name w] t) := envSetLocal_apply e name w
      rw [runEnvOps_one _ hrun] at h
      have hlocal : ((applyAll e [.local name w] (s.setConstant e name v)).envs e).vars name =
          some ⟨w, false⟩ := by
        simp [applyAll, BindOp.apply, State.setLocal, State.update, bindVar, hnone]
      rw [valueFrom_of_local hlocal] at h
      exact hw (Option.some.inj h)
  · intro h
    obtain ⟨hc, hother⟩ := h.setConstant
    exact ⟨fun ops => (hc.runEnvOps ops).value, hother⟩

/-- `const x = 2` in a scope inside one with the variable `x = 1`: the outer variable is
    changed, and the next assignment changes it again. -/
theorem shadowing_constant_lost : let s : State ℚ Unit := { State.fresh [] with
      envs := fun i => if i = 0
        then { vars := Function.update (fun _ => none) "x" (some ⟨.integer 1, false⟩)
               returnValue := zero, errorValue := zero }
        else { parent := some 0, returnValue := zero, errorValue := zero }
      next := 2 }
    let t := reached (envSetConstant 1 "x" (.integer 2)) s
    valueFrom t 0 "x" = some (.integer 2) ∧
      valueFrom (reached (runEnvOps [.set 1 "x" (.integer 3)]) t) 1 "x" = some (.integer 3) :=
  ⟨rfl, rfl⟩

end Constants

/-! Parameters. -/

section Parameters
variable {D Θ : Type} [Double D]

mutual
/-- The names a pattern sets through the setter that walks up the scopes: the rest elements
    of vectors, and a spread target. -/
def walkNames : Node D → List Name
  | .vector elements => walkVector elements
  | .mapLiteral pattern => walkEntries pattern
  | .spread (.varRef name) => [name]
  | _ => []

def walkVector : List (Node D) → List Name
  | [] => []
  | el :: els => walkNames el ++ walkVector els

def walkEntries : List (Option Name × Node D) → List Name
  | [] => []
  | (_, target) :: rest => walkNames target ++ walkEntries rest
end

/-- A parameter with a default is set by walking, too. -/
def paramWalks (param : Node D) : List Name :=
  match paramBindingNode param with
  | .assignment name _ => [name]
  | target => walkNames target

def paramOps (param : Node D) (v : Value D) : List (BindOp D) :=
  match paramBindingNode param with
  | .assignment name _ => [.walk name v]
  | target => destructureOps false target v

theorem bindParam_apply (frame : EnvId) (param : Node D) (v : Value D) (s : State D Θ) :
    bindParam frame param v s = .ok () (applyAll frame (paramOps param v) s) := by
  unfold bindParam paramOps
  generalize paramBindingNode param = target
  cases target with
  | assignment name value => exact envSet_apply frame name v s
  | _ => exact destructure_apply false frame _ v s

/-- Set in the frame, or by walking and listed. -/
def Listed (names : List Name) : BindOp D → Prop
  | .local _ _ => True
  | .walk name _ => name ∈ names
  | .constant _ _ => False

theorem Listed.mono {names names' : List Name} (h : names ⊆ names') {op : BindOp D}
    (ho : Listed names op) : Listed names' op := by
  cases op with
  | «local» x w => trivial
  | walk x w => exact h ho
  | constant x w => exact ho

mutual
theorem destructureOps_listed : ∀ (target : Node D) (v : Value D),
    ∀ op ∈ destructureOps false target v, Listed (walkNames target) op := by
  intro target v op hop
  unfold destructureOps at hop
  split at hop
  · rw [List.mem_singleton.mp hop]
    trivial
  · exact vectorOps_listed _ _ op hop
  · exact mapOps_listed _ _ _ op hop
  · exact mapOps_listed _ _ _ op hop
  · rw [List.mem_singleton.mp hop]
    exact List.mem_singleton_self _
  · cases hop

theorem vectorOps_listed : ∀ (els : List (Node D)) (xs : List D),
    ∀ op ∈ vectorOps false els xs, Listed (walkVector els) op := by
  intro els xs op hop
  unfold vectorOps at hop
  split at hop
  · cases hop
  · rcases List.mem_cons.mp hop with rfl | hop
    · exact List.mem_cons_self
    · exact (vectorOps_listed _ _ op hop).mono (List.subset_append_right _ _)
  · exact (vectorOps_listed _ _ op hop).mono (List.subset_append_right _ _)
  · exact (vectorOps_listed _ _ op hop).mono (List.subset_append_right _ _)
  · rcases List.mem_append.mp hop with hop | hop
    · exact (destructureOps_listed _ _ op hop).mono (List.subset_append_left _ _)
    · exact (vectorOps_listed _ _ op hop).mono (List.subset_append_right _ _)

theorem mapOps_listed : ∀ (rest : List (Option Name × Node D)) (es : List (Name × Value D))
    (pattern : List (Option Name × Node D)),
    ∀ op ∈ mapOps false rest es pattern, Listed (walkEntries rest) op := by
  intro rest es pattern op hop
  unfold mapOps at hop
  split at hop
  · cases hop
  · rcases List.mem_append.mp hop with hop | hop
    · exact (destructureOps_listed _ _ op hop).mono (List.subset_append_left _ _)
    · exact (mapOps_listed _ _ _ op hop).mono (List.subset_append_right _ _)
  · rcases List.mem_append.mp hop with hop | hop
    · exact (mapOps_listed _ _ _ op hop).mono (List.subset_append_right _ _)
    · split at hop
      · exact (destructureOps_listed _ _ op hop).mono (List.subset_append_left _ _)
      · cases hop
end

theorem paramOps_listed (param : Node D) (v : Value D) :
    ∀ op ∈ paramOps param v, Listed (paramWalks param) op := by
  intro op hop
  unfold paramOps at hop
  unfold paramWalks
  split at hop
  · rw [List.mem_singleton.mp hop]
    exact List.mem_singleton_self _
  · exact destructureOps_listed _ v op hop

/-! The scopes around a frame. -/

def Nested (s : State D Θ) : Prop := ∀ i j, (s.envs i).parent = some j → j < i

/-- The setter that walks stays in the frame for these names: the frame has them, or no
    enclosing scope does. -/
def StaysLocal (frame : EnvId) (names : List Name) (s : State D Θ) : Prop :=
  ∀ x ∈ names, ((s.envs frame).vars x).isSome = true ∨ s.owner frame x = none

theorem findEnv_congr_below {envs envs' : EnvId → Env D} {p : Env D → Bool} {e : EnvId}
    (hp : ∀ i ≤ e, p (envs' i) = p (envs i) ∧ (envs' i).parent = (envs i).parent)
    (hn : ∀ i j, (envs i).parent = some j → j < i) (n : Nat) :
    findEnv envs' p n e = findEnv envs p n e := by
  induction n generalizing e with
  | zero => rfl
  | succ n ih =>
    unfold findEnv
    rw [(hp e le_rfl).1, (hp e le_rfl).2]
    cases hq : (envs e).parent with
    | none => rfl
    | some j =>
      have hj : j < e := hn e j hq
      have hwalk : findEnv envs' p n j = findEnv envs p n j := 
        ih fun i hi => hp i (Nat.le_of_lt (Nat.lt_of_le_of_lt hi hj))
      simp only [hwalk]

theorem bindVar_other (vars : Name → Option (Binding D)) {x y : Name} (w : Value D)
    (h : y ≠ x) : bindVar vars x w y = vars y := by
  unfold bindVar
  cases vars x with
  | none => simp [h]
  | some b => cases hc : b.isConstant <;> simp [hc, h]

theorem bindVar_self {vars : Name → Option (Binding D)} {x : Name} (w : Value D)
    (h : ∀ b, vars x = some b → b.isConstant = false) : bindVar vars x w x = some ⟨w, false⟩ := by
  unfold bindVar
  cases hx : vars x with
  | none => simp
  | some b => simp [h b hx]

theorem bindVar_isSome (vars : Name → Option (Binding D)) (x : Name) (w : Value D) :
    (bindVar vars x w x).isSome = true := by
  unfold bindVar
  cases hx : vars x with
  | none => simp
  | some b => cases hc : b.isConstant <;> simp [hc, hx]

variable {frame : EnvId} {names : List Name} {s t : State D Θ}

theorem nested_setLocal (h : Nested s) (x : Name) (w : Value D) : Nested (s.setLocal frame x w) := by
  intro i j hij
  refine h i j ?_
  by_cases hi : i = frame
  · subst hi
    simpa [State.setLocal, State.update] using hij
  · simpa [State.setLocal, State.update, hi] using hij

theorem owner_setLocal (h : Nested s) {x y : Name} (w : Value D) (hy : y ≠ x) :
    (s.setLocal frame x w).owner frame y = s.owner frame y := by
  refine findEnv_congr_below (fun i _ => ?_) h (frame + 1)
  by_cases hi : i = frame
  · subst hi
    simp [State.setLocal, State.update, bindVar_other _ _ hy]
  · simp [State.setLocal, State.update, hi]

theorem StaysLocal.setLocal (hs : StaysLocal frame names s) (h : Nested s) (x : Name)
    (w : Value D) : StaysLocal frame names (s.setLocal frame x w) := by
  intro y hy
  by_cases hxy : y = x
  · subst hxy
    exact .inl (by simp [State.setLocal, State.update, bindVar_isSome])
  · rw [owner_setLocal h w hxy]
    refine (hs y hy).imp (fun hv => ?_) id
    simpa [State.setLocal, State.update, bindVar_other _ _ hxy] using hv

theorem apply_listed (hs : StaysLocal frame names s) {op : BindOp D} (ho : Listed names op) :
    op.apply frame s = s.setLocal frame op.name op.value := by
  cases op with
  | «local» x w => rfl
  | constant x w => exact ho.elim
  | walk x w =>
    show s.setLocal ((s.owner frame x).getD frame) x w = _
    rcases hs x ho with hv | hn
    · rw [owner_of_isSome hv]
      rfl
    · rw [hn]
      rfl

def lastValue : List (BindOp D) → Name → Option (Value D)
  | [], _ => none
  | op :: ops, x =>
    match lastValue ops x with
    | some v => some v
    | none => if op.name = x then some op.value else none

/-- What is known after settings in the frame: nothing else has changed, and the names set
    have their last values, unless the frame had them as constants. -/
structure SetLocally (frame : EnvId) (ops : List (BindOp D)) (s t : State D Θ) : Prop where
  others : ∀ i, i ≠ frame → t.envs i = s.envs i
  parent : (t.envs frame).parent = (s.envs frame).parent
  next : t.next = s.next
  kept : ∀ x, lastValue ops x = none → (t.envs frame).vars x = (s.envs frame).vars x
  last : ∀ x v, lastValue ops x = some v →
    (∀ b, (s.envs frame).vars x = some b → b.isConstant = false) →
    (t.envs frame).vars x = some ⟨v, false⟩

theorem SetLocally.refl (s : State D Θ) : SetLocally frame [] s s :=
  ⟨fun _ _ => rfl, rfl, rfl, fun _ _ => rfl, fun _ _ h => by cases h⟩

theorem setLocal_vars (s : State D Θ) (x : Name) (w : Value D) :
    ((s.setLocal frame x w).envs frame).vars = bindVar (s.envs frame).vars x w := by
  simp [State.setLocal, State.update]

theorem SetLocally.cons {op : BindOp D} {ops : List (BindOp D)}
    (h : SetLocally frame ops (s.setLocal frame op.name op.value) t) :
    SetLocally frame (op :: ops) s t where
  others := fun i hi => (h.others i hi).trans (by simp [State.setLocal, State.update, hi])
  parent := h.parent.trans (by simp [State.setLocal, State.update])
  next := h.next
  kept := by
    intro x hx
    unfold lastValue at hx
    cases hl : lastValue ops x with
    | some v =>
      rw [hl] at hx
      cases hx
    | none =>
      rw [hl] at hx
      by_cases hn : op.name = x
      · simp [hn] at hx
      · rw [h.kept x hl, setLocal_vars, bindVar_other _ _ (Ne.symm hn)]
  last := by
    intro x v hx hc
    unfold lastValue at hx
    have hself : op.name = x → ((s.setLocal frame op.name op.value).envs frame).vars x =
        some ⟨op.value, false⟩ := by
      rintro rfl
      rw [setLocal_vars, bindVar_self _ hc]
    cases hl : lastValue ops x with
    | some w =>
      rw [hl] at hx
      cases hx
      refine h.last x v hl fun b hb => ?_
      by_cases hn : op.name = x
      · rw [hself hn] at hb
        cases hb
        rfl
      · rw [setLocal_vars, bindVar_other _ _ (Ne.symm hn)] at hb
        exact hc b hb
    | none =>
      rw [hl] at hx
      by_cases hn : op.name = x
      · simp [hn] at hx
        subst hx
        rw [h.kept x hl, hself hn]
      · simp [hn] at hx

theorem applyAll_listed (hs : StaysLocal frame names s) (hn : Nested s) {ops : List (BindOp D)}
    (ho : ∀ op ∈ ops, Listed names op) :
    SetLocally frame ops s (applyAll frame ops s) ∧
      StaysLocal frame names (applyAll frame ops s) ∧ Nested (applyAll frame ops s) := by
  induction ops generalizing s with
  | nil => exact ⟨SetLocally.refl s, hs, hn⟩
  | cons op ops ih =>
    have hop : op.apply frame s = s.setLocal frame op.name op.value :=
      apply_listed hs (ho op List.mem_cons_self)
    have hstep : applyAll frame (op :: ops) s = applyAll frame ops (s.setLocal frame op.name op.value) := by
      show applyAll frame ops (op.apply frame s) = _
      rw [hop]
    rw [hstep]
    obtain ⟨h₁, h₂, h₃⟩ := ih (hs.setLocal hn op.name op.value)
      (nested_setLocal hn op.name op.value) fun o h => ho o (List.mem_cons_of_mem _ h)
    exact ⟨h₁.cons, h₂, h₃⟩

/-! Binding a parameter list. -/

variable (h : Host D Θ) (R : Evaluators D Θ) (parent : EnvId)

/-- `v` is the value of a parameter: its argument, else its default evaluated in the parent
    environment, else zero. -/
def IsArgument (param : Node D) (arg : Option (Value D)) (v : Value D) : Prop :=
  match arg, param with
  | some a, _ => v = a
  | none, .assignment _ value => ∃ s t, unchecked (envEvalNode h R value parent) s = .ok v t
  | none, _ => v = zero

inductive ParamOps : List (Node D) → List (Value D) → List (BindOp D) → Prop
  | nil (args : List (Value D)) : ParamOps [] args []
  | rest (child : Node D) (args : List (Value D)) :
      ParamOps [.spread child] args (destructureOps false (.spread child) (.list args))
  | cons (param : Node D) (params : List (Node D)) (args : List (Value D)) (v : Value D)
      (ops : List (BindOp D)) : IsArgument h R parent param args.head? v →
      ParamOps params args.tail ops → ParamOps (param :: params) args (paramOps param v ++ ops)

/-- Evaluating the default, in the parent environment, changes no variable. -/
def QuietDefault : Node D → Prop
  | .assignment _ value => ∀ (s t : State D Θ) v,
      unchecked (envEvalNode h R value parent) s = .ok v t →
        s.next ≤ t.next ∧ (Nested s → Nested t) ∧ ∀ i, i < s.next →
          (t.envs i).vars = (s.envs i).vars ∧ (t.envs i).parent = (s.envs i).parent
  | _ => True

/-- All the names a parameter list sets by walking. -/
def paramListWalks (params : List (Node D)) : List Name := params.flatMap paramWalks

end Parameters

section ParameterLists
variable {D Θ : Type} [Double D] {h : Host D Θ} {R : Evaluators D Θ} {parent frame : EnvId}

/-- The variables of the environments of `s`, after a run that only sets names in the
    frame. -/
structure BoundLocally (frame : EnvId) (ops : List (BindOp D)) (s t : State D Θ) : Prop where
  next : s.next ≤ t.next
  others : ∀ i, i ≠ frame → i < s.next → (t.envs i).vars = (s.envs i).vars
  kept : ∀ x, lastValue ops x = none → (t.envs frame).vars x = (s.envs frame).vars x
  last : ∀ x v, lastValue ops x = some v →
    (∀ b, (s.envs frame).vars x = some b → b.isConstant = false) →
    (t.envs frame).vars x = some ⟨v, false⟩

theorem lastValue_append (ops ops' : List (BindOp D)) (x : Name) :
    lastValue (ops ++ ops') x = (lastValue ops' x).orElse fun _ => lastValue ops x := by
  induction ops with
  | nil =>
    show lastValue ops' x = _
    cases lastValue ops' x <;> rfl
  | cons op ops ih =>
    show (match lastValue (ops ++ ops') x with
      | some v => some v
      | none => if op.name = x then some op.value else none) = _
    rw [ih]
    show _ = (lastValue ops' x).orElse fun _ => match lastValue ops x with
      | some v => some v
      | none => if op.name = x then some op.value else none
    cases lastValue ops' x with
    | some | none => rfl

theorem BoundLocally.of_set {ops : List (BindOp D)} {s t : State D Θ}
    (hs : SetLocally frame ops s t) : BoundLocally frame ops s t :=
  ⟨hs.next.symm ▸ le_rfl, fun i hi _ => by rw [hs.others i hi], hs.kept, hs.last⟩

theorem BoundLocally.trans {ops ops' : List (BindOp D)} {s t u : State D Θ}
    (h₁ : BoundLocally frame ops s t) (h₂ : BoundLocally frame ops' t u) :
    BoundLocally frame (ops ++ ops') s u where
  next := h₁.next.trans h₂.next
  others := fun i hi hn => (h₂.others i hi (lt_of_lt_of_le hn h₁.next)).trans (h₁.others i hi hn)
  kept := by
    intro x hx
    rw [lastValue_append] at hx
    cases hl : lastValue ops' x with
    | some v =>
      rw [hl] at hx
      cases hx
    | none =>
      rw [hl] at hx
      exact (h₂.kept x hl).trans (h₁.kept x hx)
  last := by
    intro x v hx hc
    rw [lastValue_append] at hx
    cases hl : lastValue ops' x with
    | none =>
      rw [hl] at hx
      rw [h₂.kept x hl]
      exact h₁.last x v hx hc
    | some w =>
      rw [hl] at hx
      cases hx
      refine h₂.last x v hl fun b hb => ?_
      cases hl' : lastValue ops x with
      | none =>
        rw [h₁.kept x hl'] at hb
        exact hc b hb
      | some w =>
        rw [h₁.last x w hl' hc] at hb
        cases hb
        rfl

theorem StaysLocal.congr {names : List Name} {s t : State D Θ} (hs : StaysLocal frame names s)
    (hn : Nested s)
    (hv : ∀ i, i ≤ frame → (t.envs i).vars = (s.envs i).vars ∧
      (t.envs i).parent = (s.envs i).parent) : StaysLocal frame names t := by
  intro x hx
  rw [(hv frame le_rfl).1]
  have howner : t.owner frame x = s.owner frame x :=
    findEnv_congr_below (fun i hi => ⟨by rw [(hv i hi).1], (hv i hi).2⟩) hn _
  rw [howner]
  exact hs x hx

theorem paramValue_spec {param : Node D} {args : List (Value D)} {s t : State D Θ} {v : Value D}
    (hd : args = [] → QuietDefault h R parent param) (hn : Nested s)
    (hrun : paramValue h R parent param args s = .ok v t) :
    IsArgument h R parent param args.head? v ∧ s.next ≤ t.next ∧ Nested t ∧
      ∀ i, i < s.next → (t.envs i).vars = (s.envs i).vars ∧ (t.envs i).parent = (s.envs i).parent := by
  cases args with
  | cons a args =>
    obtain ⟨rfl, rfl⟩ := EStateM.Result.ok.inj hrun
    exact ⟨rfl, le_rfl, hn, fun _ _ => ⟨rfl, rfl⟩⟩
  | nil =>
    cases param with
    | assignment name value =>
      obtain ⟨h₁, h₂, h₃⟩ := hd rfl s t v hrun
      exact ⟨⟨s, t, hrun⟩, h₁, h₂ hn, h₃⟩
    | _ =>
      obtain ⟨rfl, rfl⟩ := EStateM.Result.ok.inj hrun
      exact ⟨rfl, le_rfl, hn, fun _ _ => ⟨rfl, rfl⟩⟩

theorem bindParams_cons (param : Node D) (params : List (Node D)) (args : List (Value D))
    (hv : ∀ child, param = .spread child → params ≠ []) :
    bindParams h R parent frame (param :: params) args = (do
      let v ← paramValue h R parent param args
      bindParam frame param v
      bindParams h R parent frame params args.tail) := by
  rw [bindParams]
  rintro child rfl rfl
  exact hv child rfl rfl

theorem bindParams_sets (params : List (Node D)) (args : List (Value D)) (s t : State D Θ)
    (hrun : bindParams h R parent frame params args s = .ok () t) (hn : Nested s)
    (hf : frame < s.next) (hwalk : StaysLocal frame (paramListWalks params) s)
    (hd : ∀ k param, params[k]? = some param → args.length ≤ k → QuietDefault h R parent param) :
    ∃ ops, ParamOps h R parent params args ops ∧ BoundLocally frame ops s t := by
  induction params generalizing args s with
  | nil =>
    cases hrun
    exact ⟨[], .nil args, .of_set (SetLocally.refl _)⟩
  | cons param params ih =>
    by_cases hlast : ∃ child, param = .spread child ∧ params = []
    · -- the rest parameter
      obtain ⟨child, rfl, rfl⟩ := hlast
      rw [show bindParams h R parent frame [.spread child] args =
        destructure false frame (.spread child) (.list args) from rfl, destructure_apply] at hrun
      cases hrun
      refine ⟨_, .rest child args, .of_set (applyAll_listed hwalk hn fun op hop => ?_).1⟩
      refine (destructureOps_listed _ _ op hop).mono fun x hx => ?_
      exact List.mem_flatMap.mpr ⟨_, List.mem_cons_self, hx⟩
    · have hspread : ∀ child, param = .spread child → params ≠ [] :=
        fun child hc hp => hlast ⟨child, hc, hp⟩
      rw [bindParams_cons param params args hspread, bind_apply] at hrun
      cases hv : paramValue h R parent param args s with
      | error x u =>
        rw [hv] at hrun
        cases hrun
      | ok v u =>
        rw [hv] at hrun
        have hrun : (bindParam frame param v >>= fun _ =>
          bindParams h R parent frame params args.tail) u = .ok () t := hrun
        rw [bind_apply, bindParam_apply] at hrun
        have hrun : bindParams h R parent frame params args.tail
          (applyAll frame (paramOps param v) u) = .ok () t := hrun
        have hdefault : args = [] → QuietDefault h R parent param :=
          fun ha => hd 0 param rfl (by rw [ha]; exact le_rfl)
        obtain ⟨harg, hnext, hnest, hvars⟩ := paramValue_spec hdefault hn hv
        have hwalk' : StaysLocal frame (paramListWalks (param :: params)) u :=
          hwalk.congr hn fun i hi => hvars i (lt_of_le_of_lt hi hf)
        have hlisted : ∀ op ∈ paramOps param v, Listed (paramListWalks (param :: params)) op :=
          fun op hop => (paramOps_listed param v op hop).mono fun x hx =>
            List.mem_flatMap.mpr ⟨_, List.mem_cons_self, hx⟩
        obtain ⟨hset, hwalk'', hnest'⟩ := applyAll_listed hwalk' hnest hlisted
        obtain ⟨ops, hops, hbound⟩ := ih args.tail _ hrun hnest'
          (by rw [hset.next]; exact lt_of_lt_of_le hf hnext)
          (fun x hx => hwalk'' x (by
            obtain ⟨q, hq, hx⟩ := List.mem_flatMap.mp hx
            exact List.mem_flatMap.mpr ⟨q, List.mem_cons_of_mem _ hq, hx⟩))
          (fun k q hq hk => hd (k + 1) q hq (by
            rw [List.length_tail] at hk
            omega))
        have hvalue : BoundLocally frame [] s u :=
          ⟨hnext, fun i _ hi => (hvars i hi).1, fun x _ => by rw [(hvars frame hf).1],
            fun x w hw => by cases hw⟩
        exact ⟨_, .cons param params args v ops harg hops, (hvalue.trans (.of_set hset)).trans hbound⟩

end ParameterLists

section ParameterExamples

/-- A frame (1) inside a global scope (0) with the variable `x`. -/
def callState : State ℚ Unit := { State.fresh [] with
  envs := fun i => if i = 0
    then { vars := Function.update (fun _ => none) "x" (some ⟨.integer 9, false⟩)
           returnValue := zero, errorValue := zero }
    else if i = 1 then { parent := some 0, returnValue := zero, errorValue := zero }
    else { returnValue := zero, errorValue := zero }
  next := 2 }

theorem callState_nested : Nested callState := by
  intro i j hij
  by_cases h0 : i = 0
  · subst h0
    cases hij
  · by_cases h1 : i = 1
    · subst h1
      cases hij
      decide
    · simp [callState, h0, h1] at hij

end ParameterExamples

end TurboScript.Exprtk
