import TurboScript.Exprtk.Scope

/- The frame of a script call while its body starts: the captured variables first, then the
   arguments.

   `exprtk_env_import_vars` sets the captured names in the frame, constants as constants. The
   parameters are set after it by a setter that leaves constants alone. This file says what
   plain parameters make of the table, name by name, and from it what every captured name and
   every parameter name looks up to. -/
namespace TurboScript.Exprtk
open Lib

set_option linter.unusedSectionVars false

section Calls
variable {D Θ : Type} [Double D] [Formats] (h : Host D Θ) (R : Evaluators D Θ)

/-- The part of `eval_script_function` between the acceptance of the call and its body. -/
def enterFrame (f : Func D) (args : List (Value D)) (parent caller : EnvId) :
    Eval D Θ EnvId := do
  let c ← getEnv caller
  let p ← getEnv parent
  let captured ← capturedVars f
  let frame ← newEnv (f.frame parent p c captured)
  bindParams h R parent frame f.params args
  return frame

def State.captured (s : State D Θ) (f : Func D) : Name → Option (Binding D) :=
  match f.closureEnv with
  | some i => (s.envs i).vars
  | none => fun _ => none

/-- The frame's table once the arguments of plain parameters are set. -/
def bindAll (vars : Name → Option (Binding D)) (names : List Name) (args : List (Value D)) :
    Name → Option (Binding D) :=
  (names.zip args).foldl (fun vars p => bindVar vars p.1 p.2) vars

theorem bindParams_plain (parent frame : EnvId) (names : List Name) (args : List (Value D))
    (s : State D Θ) (hargs : names.length ≤ args.length) :
    bindParams h R parent frame (names.map .varRef) args s =
      .ok () (s.update frame fun env => { env with vars := bindAll env.vars names args }) := by
  induction names generalizing args s with
  | nil =>
    show EStateM.Result.ok () s = _
    congr 1
    unfold State.update bindAll
    simp
  | cons x names ih =>
    cases args with
    | nil => simp at hargs
    | cons v args =>
      have hlen : names.length ≤ args.length := by simpa using hargs
      show bindParams h R parent frame (names.map .varRef) args (s.setLocal frame x v) = _
      rw [ih args _ hlen]
      congr 1
      unfold State.setLocal State.update bindAll
      simp

theorem bindAll_other (names : List Name) (args : List (Value D))
    (vars : Name → Option (Binding D)) {x : Name} (hx : x ∉ names) :
    bindAll vars names args x = vars x := by
  induction names generalizing args vars with
  | nil => rfl
  | cons y names ih =>
    obtain ⟨hxy, hx⟩ := not_or.mp (fun hmem => hx (List.mem_cons.mpr hmem))
    cases args with
    | nil => rfl
    | cons v args =>
      show bindAll (bindVar vars y v) names args x = vars x
      rw [ih args _ hx, bindVar_other vars v hxy]

theorem bindAll_parameter (names : List Name) (args : List (Value D))
    (vars : Name → Option (Binding D)) {i : Nat} {x : Name} {v : Value D}
    (hname : names[i]? = some x) (harg : args[i]? = some v) (hlast : x ∉ names.drop (i + 1))
    (hvar : ∀ b, vars x = some b → b.isConstant = false) :
    bindAll vars names args x = some ⟨v, false⟩ := by
  induction names generalizing args vars i with
  | nil => simp at hname
  | cons y names ih =>
    cases args with
    | nil => simp at harg
    | cons w args =>
      show bindAll (bindVar vars y w) names args x = some ⟨v, false⟩
      cases i with
      | zero =>
        obtain rfl : y = x := by simpa using hname
        obtain rfl : w = v := by simpa using harg
        have hrest : y ∉ names := by simpa using hlast
        rw [bindAll_other names args _ hrest, bindVar_self w hvar]
      | succ i =>
        apply ih args _ (by simpa using hname) (by simpa using harg) (by simpa using hlast)
        intro b hb
        -- what an earlier parameter sets is no constant
        by_cases hxy : x = y
        · subst hxy
          rw [bindVar_self w hvar] at hb
          cases hb
          rfl
        · rw [bindVar_other vars w hxy] at hb
          exact hvar b hb

theorem enterFrame_plain (f : Func D) (names : List Name) (args : List (Value D))
    (parent caller : EnvId) (s : State D Θ) (hparams : f.params = names.map .varRef)
    (hargs : names.length ≤ args.length) :
    ∃ t, enterFrame h R f args parent caller s = .ok s.next t ∧ (t.envs s.next).parent = some parent ∧
      (t.envs s.next).vars = bindAll (importVars (fun _ => none) (s.captured f)) names args := by
  have hcaptured : (capturedVars f : Eval D Θ _) s = .ok (s.captured f) s := by
    unfold capturedVars State.captured
    cases f.closureEnv <;> rfl
  let u : State D Θ := { s with
    envs := Function.update s.envs s.next
      (f.frame parent (s.envs parent) (s.envs caller) (s.captured f))
    next := s.next + 1 }
  have hframe : u.envs s.next = f.frame parent (s.envs parent) (s.envs caller) (s.captured f) := by
    simp [u]
  have henter : enterFrame h R f args parent caller s =
      (bindParams h R parent s.next f.params args >>= fun _ => pure s.next) u := by
    show (capturedVars f >>= fun captured => _) s = _
    rw [bind_apply, hcaptured]
    rfl
  refine ⟨u.update s.next fun env => { env with vars := bindAll env.vars names args }, ?_, ?_, ?_⟩
  · rw [henter, hparams, bind_apply, bindParams_plain h R parent s.next names args u hargs]
    rfl
  · show (Function.update u.envs s.next _ s.next).parent = _
    rw [Function.update_self, hframe]
    rfl
  · show (Function.update u.envs s.next _ s.next).vars = _
    rw [Function.update_self, hframe]
    rfl

theorem envGet_local {s : State D Θ} {e : EnvId} {x : Name} {b : Binding D}
    (hx : (s.envs e).vars x = some b) : envGet e x s = .ok b.value s := by
  have hfound : lookupBinding s.envs e x = some b := by
    unfold lookupBinding
    have howner : s.owner e x = some e := owner_of_isSome (by rw [hx]; rfl)
    unfold State.owner at howner
    rw [howner]
    exact hx
  unfold envGet
  rw [get_bind_apply, hfound]
  rfl

/-- While the body starts, a parameter that is no captured constant looks up to its argument,
    the last one when its name is repeated; a captured name that is no parameter looks up to
    what was captured. `this` alone is not imported: it is the caller's. -/
theorem arguments_shadow_captures (f : Func D) (names : List Name) (args : List (Value D))
    (parent caller : EnvId) (s : State D Θ) (hparams : f.params = names.map .varRef)
    (hargs : names.length ≤ args.length) :
    ∃ frame t, enterFrame h R f args parent caller s = .ok frame t ∧
      (∀ i x v, names[i]? = some x → args[i]? = some v → x ∉ names.drop (i + 1) →
        (∀ b, s.captured f x = some b → b.isConstant = false) → envGet frame x t = .ok v t) ∧
      (∀ x b, s.captured f x = some b → x ∉ names → x ≠ "this" →
        envGet frame x t = .ok b.value t) ∧
      ("this" ∉ names →
        (t.envs frame).vars "this" = none ∧ (t.envs frame).parent = some parent) := by
  obtain ⟨t, hrun, hparent, hvars⟩ := enterFrame_plain h R f names args parent caller s hparams hargs
  refine ⟨s.next, t, hrun, ?_, ?_, ?_⟩
  · intro i x v hname harg hlast hconst
    have hx : (t.envs s.next).vars x = some ⟨v, false⟩ := by
      rw [hvars]
      apply bindAll_parameter names args _ hname harg hlast
      intro b hb
      by_cases hthis : x = "this"
      · simp [importVars, hthis] at hb
      · simp only [importVars, hthis, Option.isSome_none, or_self, Bool.false_eq_true, if_false] at hb
        exact hconst b hb
    exact envGet_local hx
  · intro x b hb hx hthis
    have hx : (t.envs s.next).vars x = some b := by
      rw [hvars, bindAll_other names args _ hx]
      simp [importVars, hthis, hb]
    exact envGet_local hx
  · intro hthis
    refine ⟨?_, hparent⟩
    rw [hvars, bindAll_other names args _ hthis]
    simp [importVars]

end Calls

section Samples

/-- A class (closure 1) defined where `x` is the constant 1 and `this` is instance 7, whose
    method `m(x)` is called on instance 3 (2 is the environment of the call). -/
def methodCall : State ℚ Unit := { State.fresh [] with
  envs := fun i => match i with
    | 1 => { vars := fun x =>
               if x = "x" then some ⟨.integer 1, true⟩
               else if x = "y" then some ⟨.integer 2, false⟩
               else if x = "this" then some ⟨.instanceVal 7, false⟩ else none
             returnValue := zero, errorValue := zero }
    | 2 => { vars := thisVars 3, returnValue := zero, errorValue := zero, parent := some 0 }
    | _ => { returnValue := zero, errorValue := zero }
  next := 3 }

def sampleMethod (param : Name) : Func ℚ :=
  { name := "m", params := [.varRef param], body := .null, closureEnv := some 1 }

/-- `m(y)` called with 5: the parameter reads 5 over the captured variable, and `x` reads its
    captured value. -/
theorem method_argument_reads :
    ∃ frame t, enterFrame (Host.bare : Host ℚ Unit) (evaluators Host.bare 2) (sampleMethod "y")
        [.integer 5] 2 0 methodCall = .ok frame t ∧
      envGet frame "y" t = .ok (.integer 5) t ∧ envGet frame "x" t = .ok (.integer 1) t := by
  obtain ⟨frame, t, hrun, hparam, hcaptured, -⟩ := arguments_shadow_captures
    (Host.bare : Host ℚ Unit) (evaluators Host.bare 2) (sampleMethod "y") ["y"] [.integer 5] 2 0
    methodCall rfl (by decide)
  refine ⟨frame, t, hrun, hparam 0 "y" _ rfl rfl (by decide) ?_, hcaptured "x" _ rfl ?_ ?_⟩
  · rintro b hb
    obtain rfl : b = ⟨.integer 2, false⟩ := (Option.some.inj hb).symm
    rfl
  · decide
  · decide

/-- The captured `this` is instance 7, but the body starts with the `this` of the call; and
    the constant `x` the class captured is what the parameter `x` reads. -/
theorem captured_this_not_read :
    let R := evaluators (Host.bare : Host ℚ Unit) 2
    let t := reached (enterFrame Host.bare R (sampleMethod "x") [.integer 5] 2 0) methodCall
    (methodCall.captured (sampleMethod "x") "this").map Binding.value = some (.instanceVal 7) ∧
      valueFrom t 3 "this" = some (.instanceVal 3) ∧ valueFrom t 3 "x" = some (.integer 1) :=
  ⟨rfl, rfl, rfl⟩

end Samples

end TurboScript.Exprtk
