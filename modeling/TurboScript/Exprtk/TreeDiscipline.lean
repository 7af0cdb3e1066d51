import TurboScript.Exprtk.Discipline

/- Every node kind of `exprtk_eval` obeys a discipline, given that the evaluators below it do.

   A node at `e` evaluates its parts at `e` and calls from `e`. A part whose flow is tested may
   end open, and the others are evaluated with the guard down. -/
namespace TurboScript.Exprtk.Discipline
open Lib.Triple (bind' ite' pure')
open Lib

set_option linter.unusedSectionVars false

section Expressions
variable {D Θ : Type} [Double D] [Formats] {P : Discipline D Θ} [P.Laws]
  {h : Host D Θ} {R : Evaluators D Θ} (hh : h.mirHooks = true → P.MirLaws) (hR : P.Obeys R)
open Laws

variable {α : Type} {m : Eval D Θ α}

theorem Sound.unless_flow {e : EnvId} {p : α → Eval D Θ (Value D)} (hm : P.Sound e m)
    (hp : ∀ v, P.Sound e (p v)) :
    P.Sound e (m >>= fun v => flowNormal e >>= fun b => if !b then pure zero else p v) :=
  hm.unless_test flowNormal_tests hp fun _ => open_pure _

theorem accessFrom_calm (e : EnvId) (object : Node D) :
    P.Calm e (accessFrom e object : Eval D Θ (Access D)) := by
  refine (currentClass_calm e).bind' fun c => ?_
  split
  · exact (envGet_calm e _).bind' fun _ => Calm.pure' _
  · exact Calm.pure' _

theorem except_sound (e : EnvId) (r : Except String (Value D)) : P.Sound e (match r with
      | .ok v => pure v
      | .error msg => throwErr e msg : Eval D Θ (Value D)) := by
  cases r with
  | ok v => exact Sound.pure' v
  | error msg => exact throwErr_sound e msg

theorem refusal_sound {e : EnvId} (r : Option String) {m : Eval D Θ (Value D)} (hm : P.Sound e m) :
    P.Sound e (match r with
      | some msg => throwErr e msg
      | none => m) := by
  cases r with
  | some msg => exact throwErr_sound e msg
  | none => exact hm

include hR in
theorem evalOpt_sound (node : Option (Node D)) (e : EnvId) : P.Sound e (evalOpt R node e) := by
  cases node with
  | none => exact Sound.pure' _
  | some node => exact hR.eval node e

include hR in
theorem evalBinaryNode_sound (op : BinOp) (left : Option (Node D)) (right : Node D) (e : EnvId) :
    P.Sound e (evalBinaryNode R op left right e) := by
  refine (evalOpt_sound hR left e).unless_flow fun l => ?_
  exact (hR.eval right e).unless_flow fun r => except_sound e _

include hR in
theorem evalTemplate_calm (e : EnvId) (ps : List Piece) (acc : String) :
    P.Calm e (evalTemplate h R e ps acc) := by
  induction ps generalizing acc with
  | nil => exact Calm.pure' _
  | cons p ps ih =>
    cases p with
    | char | unclosed => exact ih _
    | expr text =>
      cases text with
      | nil => exact ih _
      | cons c cs =>
        unfold evalTemplate
        split
        · exact ih _
        · exact (hR.eval _ e).unchecked.bind' fun v => ih _

include hR in
theorem evalIndex_sound (array index : Node D) (e : EnvId) : P.Sound e (evalIndex R array index e) := by
  refine (hR.eval array e).unchecked.bind_sound fun arr => ?_
  exact (hR.eval index e).unchecked.bind_sound fun idx => except_sound e _

include hR in
theorem evalSlice_sound (array : Node D) (start stop : Option (Node D)) (e : EnvId) :
    P.Sound e (evalSlice R array start stop e) := by
  refine (hR.eval array e).unchecked.bind_sound fun arr => ?_
  refine (evalOpt_sound hR start e).unchecked.bind_sound fun a => ?_
  exact (evalOpt_sound hR stop e).unchecked.bind_sound fun b => except_sound e _

include hh hR in
theorem evalVector_sound (elements : List (Node D)) (e : EnvId) :
    P.Sound e (evalVector h R elements e) := by
  intro i
  refine bind' (expandArgs_sound hh hR e elements i) fun vs => ?_
  exact ite' (fun _ => open_pure _ i) fun _ => open_pure _ i

include hR in
theorem evalMapLiteral_sound (e : EnvId) (entries : List (Option Name × Node D))
    (acc : List (Name × Value D)) : P.Sound e (evalMapLiteral R e entries acc) := by
  induction entries generalizing acc with
  | nil => exact Sound.pure' _
  | cons entry rest ih =>
    obtain ⟨key, node⟩ := entry
    cases key with
    | none =>
      refine (hR.eval node e).unchecked.bind_sound fun v => ?_
      split
      · exact ih _
      · exact ih _
    | some key =>
      exact (hR.eval node e).unless_test flowNormal_tests (fun v => ih _) fun _ => open_pure _

include hh hR in
theorem evalFunctionCall_sound (name : Name) (args : List (Node D)) (e : EnvId) :
    P.Sound e (evalFunctionCall h R name args e) := by
  have hargs := (expandArgs_sound hh hR e args).unchecked
  refine (envGet_calm e name).bind_sound fun v => ?_
  split
  · exact instantiateWith_sound hh hR _ name args e
  · exact hargs.bind_sound fun vs => evalInstanceScriptMethod_sound hh hR _ _ vs e
  · exact hargs.bind_sound fun vs => callFunctionValue_sound hh hR _ vs e
  · exact hargs.bind_sound fun vs => callInternal_sound hh hR name vs e

include hh hR in
theorem evalNew_sound (className : Name) (args : List (Node D)) (e : EnvId) :
    P.Sound e (evalNew h R className args e) := by
  refine (envGet_calm e className).bind_sound fun v => ?_
  split
  · exact instantiateWith_sound hh hR _ className args e
  · exact throwErr_sound e _

theorem evalFunctionDefinition_calm (name : Name) (params : List (Node D)) (body : Node D)
    (e : EnvId) : P.Calm e (evalFunctionDefinition name params body e : Eval D Θ (Value D)) :=
  Calm.bind' (update_calm e (fun _ => rfl) fun _ h => h) fun _ => Calm.pure' _

/-! Methods. -/

include hh hR in
theorem callInstanceMethod_sound (i : InstanceId) (object : Node D) (method : Name)
    (args : List (Value D)) (e : EnvId) :
    P.Sound e (callInstanceMethod h R i object method args e) := by
  refine get_calm.bind_sound fun s => ?_
  split
  · exact throwErr_sound e _
  · refine (accessFrom_calm e object).bind_sound fun access => ?_
    exact refusal_sound _ (evalInstanceScriptMethod_sound hh hR i _ args e)

include hh hR in
theorem callStaticMethod_sound (c : ClassId) (object : Node D) (method : Name)
    (args : List (Value D)) (e : EnvId) :
    P.Sound e (callStaticMethod h R c object method args e) := by
  refine get_calm.bind_sound fun s => ?_
  split
  · exact throwErr_sound e _
  · refine (accessFrom_calm e object).bind_sound fun access => ?_
    exact refusal_sound _ (evalScriptFunction_sound hh hR _ args e e)

include hh hR in
theorem dispatchMethod_sound (obj : Value D) (object : Node D) (method : Name)
    (args : List (Value D)) (e : EnvId) :
    P.Sound e (dispatchMethod h R obj object method args e) := by
  cases obj with
  | instanceVal i => exact callInstanceMethod_sound hh hR i object method args e
  | boundMethod i m => exact evalInstanceScriptMethod_sound hh hR i m args e
  | classVal c => exact callStaticMethod_sound hh hR c object method args e
  | list | set | map | object | bytes | uuid | datetime | date | time | duration | decimal
  | offsetDatetime | typedArray | string | vector => exact runNative_sound hR e _
  | _ =>
    unfold dispatchMethod
    dsimp only
    split
    · exact callInternal_sound hh hR _ args e
    · exact throwErr_sound e _

theorem qualifiedNative_calm (object : Node D) (method : Name) (e : EnvId) :
    P.Calm e (qualifiedNative object method e : Eval D Θ (Option Name)) := by
  unfold qualifiedNative
  split
  · refine (envHas_calm e _).bind' fun _ => ?_
    exact (findFunc_calm e _).bind' fun _ => Calm.pure' _
  · exact Calm.pure' _

include hh hR in
theorem evalMemberCall_sound (object : Node D) (method : Name) (args : List (Node D))
    (e : EnvId) : P.Sound e (evalMemberCall h R object method args e) := by
  refine (expandArgs_sound hh hR e args).unchecked.bind_sound fun vs => ?_
  refine (qualifiedNative_calm object method e).bind_sound fun native => ?_
  cases native with
  | some name => exact callInternal_sound hh hR name vs e
  | none =>
    refine (hR.eval object e).unchecked.bind_sound fun obj => ?_
    exact dispatchMethod_sound hh hR obj object method vs e

/-! Members. -/

theorem instanceMember_sound (i : InstanceId) (object : Node D) (member : Name) (e : EnvId) :
    P.Sound e (instanceMember h i object member e) := by
  refine get_calm.bind_sound fun s => ?_
  refine (accessFrom_calm e object).bind_sound fun access => ?_
  split
  · exact refusal_sound _ (Sound.pure' _)
  · split
    · exact refusal_sound _ (Sound.pure' _)
    · exact throwErr_sound e _

theorem staticMember_sound (c : ClassId) (object : Node D) (member missing : String) (e : EnvId) :
    P.Sound e (staticMember h c object member missing e) := by
  refine get_calm.bind_sound fun s => ?_
  refine (accessFrom_calm e object).bind_sound fun access => ?_
  split
  · exact refusal_sound _ (Sound.pure' _)
  · split
    · exact refusal_sound _ (Sound.pure' _)
    · exact throwErr_sound e _

theorem memberValue_sound (obj : Value D) (object : Node D) (member : Name) (e : EnvId) :
    P.Sound e (memberValue h obj object member e) := by
  unfold memberValue
  split
  · exact instanceMember_sound _ object member e
  · exact staticMember_sound _ object member _ e
  · exact Sound.pure' _
  · exact Sound.pure' _
  · split
    · exact Sound.pure' _
    · exact throwErr_sound e _

include hR in
theorem evalMemberAccess_sound (object : Node D) (member : Name) (e : EnvId) :
    P.Sound e (evalMemberAccess h R object member e) :=
  (hR.eval object e).unchecked.bind_sound fun obj =>
    memberValue_sound obj object member e

theorem commit_sound (e : EnvId) (r : Except String Θ) (v : Value D) : P.Sound e (match r with
      | .error msg => throwErr e msg
      | .ok store => do
        emit (.effect .memberWrite)
        modify fun s => { s with store := store }
        return v : Eval D Θ (Value D)) := by
  cases r with
  | error msg => exact throwErr_sound e msg
  | ok store =>
    refine (effect_calm _).bind_sound fun _ => ?_
    exact (store_calm _).bind_sound fun _ => Sound.pure' _

theorem writeField_sound (i : InstanceId) (owner : ClassId) (object : Node D) (member : Name)
    (v : Value D) (e : EnvId) : P.Sound e (writeField h i owner object member v e) := by
  refine get_calm.bind_sound fun s => ?_
  refine (accessFrom_calm e object).bind_sound fun access => ?_
  exact refusal_sound _ (commit_sound e _ v)

theorem writeStaticField_sound (c : ClassId) (member : Name) (v : Value D) (e : EnvId) :
    P.Sound e (writeStaticField h c member v e) :=
  get_calm.bind_sound fun _ => commit_sound e _ v

theorem writeEntry_calm (name member : Name) (rebuild : List (Name × Value D) → Value D)
    (es : List (Name × Value D)) (v : Value D) (e : EnvId) :
    P.Calm e (writeEntry name member rebuild es v e : Eval D Θ (Value D)) := by
  refine (effect_calm _).bind' fun _ => ?_
  exact (envSet_calm e name _).bind' fun _ => Calm.pure' _

theorem staticDenied_calm (c : ClassId) (object : Node D) (member : Name) (e : EnvId) :
    P.Calm e (staticDenied h c object member e) := by
  refine get_calm.bind' fun s => ?_
  exact (accessFrom_calm e object).bind' fun _ => Calm.pure' _

theorem evalThis_sound (e : EnvId) : P.Sound e (evalThis e : Eval D Θ (Value D)) := by
  refine (getEnv_calm e).bind_sound fun env => ?_
  refine Sound.ite' (fun _ => throwErr_sound e _) fun _ => ?_
  refine (envGet_calm e _).bind_sound fun this => ?_
  split
  · exact Sound.pure' _
  · exact throwErr_sound e _

theorem setVariableMember_sound (name member : Name) (v : Value D) (e : EnvId) :
    P.Sound e (setVariableMember h name member v e) := by
  refine (envGet_calm e name).bind_sound fun obj => ?_
  split
  · exact (writeEntry_calm name member _ _ v e).sound
  · exact (writeEntry_calm name member _ _ v e).sound
  · exact get_calm.bind_sound fun _ => writeField_sound _ _ _ member v e
  · refine (staticDenied_calm _ _ member e).bind_sound fun denied => ?_
    exact refusal_sound _ (writeStaticField_sound _ member v e)
  · exact throwErr_sound e _

include hR in
theorem setThisMember_sound (member : Name) (v : Value D) (e : EnvId) :
    P.Sound e (setThisMember h R member v e) := by
  refine (hR.eval .thisExpr e).unless_flow fun this => ?_
  split
  · exact get_calm.bind_sound fun _ => writeField_sound _ _ _ member v e
  · exact throwErr_sound e _

include hR in
theorem setSuperMember_sound (object : Node D) (member : Name) (value : Node D) (e : EnvId) :
    P.Sound e (setSuperMember h R object member value e) := by
  refine (currentClass_calm e).bind_sound fun c => ?_
  split
  · exact throwErr_sound e _
  refine get_calm.bind_sound fun s => ?_
  split
  · exact throwErr_sound e _
  refine (getEnv_calm e).bind_sound fun env => ?_
  refine Sound.ite' (fun _ => ?_) fun _ => ?_
  · refine (staticDenied_calm _ object member e).bind_sound fun denied => ?_
    refine refusal_sound _ ?_
    exact (hR.eval value e).unless_flow fun v => writeStaticField_sound _ member v e
  · refine (envGet_calm e _).bind_sound fun this => ?_
    split
    · exact (hR.eval value e).unless_flow fun v => writeField_sound _ _ object member v e
    · exact throwErr_sound e _

include hR in
theorem evalMemberSet_sound (object : Node D) (member : Name) (value : Node D) (e : EnvId) :
    P.Sound e (evalMemberSet h R object member value e) := by
  unfold evalMemberSet
  split
  · exact setSuperMember_sound hR _ member value e
  · exact throwErr_sound e _
  · exact (hR.eval value e).unless_flow fun v => setVariableMember_sound _ member v e
  · exact (hR.eval value e).unless_flow fun v => setThisMember_sound hR member v e
  · exact throwErr_sound e _

/-! `super`. -/

/-- `none` ends in `N`, which the caller of `super` knows how to go on from. -/
def SoundOr (P : Discipline D Θ) (e : EnvId) (N : P.Index → State D Θ → Prop) {α : Type}
    (m : Eval D Θ (Option α)) : Prop :=
  ∀ i, Triple P.cut (P.idle i e) m fun r s =>
    match r with
    | some _ => P.opened i e s
    | none => N i s

/-- Evaluated arguments leave nothing open. -/
def ArgsSound (P : Discipline D Θ) (e : EnvId) (N : P.Index → State D Θ → Prop)
    (args : Eval D Θ (Option (List (Value D)))) : Prop :=
  ∀ i, Triple P.cut (P.idle i e) args fun r s =>
    match r with
    | some _ => P.idle i e s
    | none => N i s

variable {e : EnvId} {N : P.Index → State D Θ → Prop} {args : Eval D Θ (Option (List (Value D)))}

theorem Sound.orNone (hm : P.Sound e m) : P.SoundOr e N (some <$> m) :=
  fun i => Triple.map' (hm i)

theorem Calm.bind_soundOr {β : Type} {f : α → Eval D Θ (Option β)} (hm : P.Calm e m)
    (hf : ∀ v, P.SoundOr e N (f v)) : P.SoundOr e N (m >>= f) :=
  fun i => Triple.bind' (hm i) fun v => hf v i

theorem ArgsSound.bind_soundOr {k : List (Value D) → Eval D Θ (Option α)}
    (ha : P.ArgsSound e N args) (hk : ∀ vs, P.SoundOr e N (k vs)) :
    P.SoundOr e N (args >>= fun r => match r with | none => pure none | some vs => k vs) := by
  intro i
  refine Triple.bind' (ha i) fun r => ?_
  cases r with
  | none => exact Triple.pure' _ fun _ hs => hs
  | some vs => exact hk vs i

theorem refusal_soundOr (r : Option String) {m : Eval D Θ (Option (Value D))} (hm : P.SoundOr e N m) :
    P.SoundOr e N (match r with
      | some msg => some <$> throwErr e msg
      | none => m) := by
  cases r with
  | some msg => exact (throwErr_sound e msg).orNone
  | none => exact hm

include hh hR in
theorem superStatic_sound (ha : P.ArgsSound e N args) (node : Node D) (c : ClassId)
    (member : Option Name) (isCall : Bool) :
    P.SoundOr e N (superStatic h R args node c member isCall e) := by
  refine Calm.bind_soundOr get_calm fun s => ?_
  split
  · exact (throwErr_sound e _).orNone
  · exact (throwErr_sound e _).orNone
  · cases isCall with
    | false => exact (staticMember_sound _ node _ _ e).orNone
    | true =>
      refine ha.bind_soundOr fun vs => ?_
      refine Calm.bind_soundOr get_calm fun s => ?_
      split
      · exact (throwErr_sound e _).orNone
      · refine Calm.bind_soundOr (accessFrom_calm e node) fun access => ?_
        exact refusal_soundOr _ (evalScriptFunction_sound hh hR _ vs e e).orNone

include hh hR in
theorem superConstructor_sound (ha : P.ArgsSound e N args) (parent : ClassId) :
    P.SoundOr e N (superConstructor h R args parent e) := by
  refine Calm.bind_soundOr (getEnv_calm e) fun env i => ?_
  refine ite' (fun _ => (throwErr_sound e _).orNone i) fun _ => ?_
  refine ha.bind_soundOr (fun vs => ?_) i
  refine Calm.bind_soundOr get_calm fun s => ?_
  split
  · exact fun i => pure' _ fun _ hs => open_idle hs
  · exact (evalScriptFunction_sound hh hR _ vs e e).orNone

include hh hR in
theorem superMethod_sound (ha : P.ArgsSound e N args) (node : Node D) (parent : ClassId)
    (m : Name) : P.SoundOr e N (superMethod h R args node parent m e) := by
  refine ha.bind_soundOr fun vs => ?_
  refine Calm.bind_soundOr get_calm fun s => ?_
  split
  · exact (throwErr_sound e _).orNone
  · refine Calm.bind_soundOr (accessFrom_calm e node) fun access => ?_
    exact refusal_soundOr _ (evalScriptFunction_sound hh hR _ vs e e).orNone

theorem superMember_sound (node : Node D) (i : InstanceId) (parent : ClassId) (m : Name) :
    P.Sound e (superMember h node i parent m e) := by
  refine get_calm.bind_sound fun s => ?_
  refine (accessFrom_calm e node).bind_sound fun access => ?_
  split
  · exact refusal_sound _ (Sound.pure' _)
  · split
    · exact refusal_sound _ (Sound.pure' _)
    · exact throwErr_sound e _

include hh hR in
theorem superInstance_sound (ha : P.ArgsSound e N args) (node : Node D) (owner : Option ClassId)
    (member : Option Name) (isCall : Bool) :
    P.SoundOr e N (superInstance h R args node owner member isCall e) := by
  refine Calm.bind_soundOr (envGet_calm e _) fun this => ?_
  split
  · refine Calm.bind_soundOr get_calm fun s => ?_
    dsimp only
    split
    · exact (throwErr_sound e _).orNone
    · exact superConstructor_sound hh hR ha _
    · cases isCall with
      | true => exact superMethod_sound hh hR ha node _ _
      | false => exact (superMember_sound node _ _ _).orNone
  · exact (throwErr_sound e _).orNone

include hh hR in
theorem superValue_sound (ha : P.ArgsSound e N args) (node : Node D) (member : Option Name)
    (isCall : Bool) : P.SoundOr e N (superValue h R args node member isCall e) := by
  refine Calm.bind_soundOr (currentClass_calm e) fun owner => ?_
  refine Calm.bind_soundOr (getEnv_calm e) fun env i => ?_
  refine ite' (fun _ => ?_) fun _ => superInstance_sound hh hR ha node owner member isCall i
  cases owner with
  | none => exact (throwErr_sound e _).orNone i
  | some c => exact superStatic_sound hh hR ha node c member isCall i

include hh hR in
theorem evalSuper_sound (member : Option Name) (nodes : List (Node D)) (isCall : Bool)
    (e : EnvId) : P.Sound e (evalSuper h R member nodes isCall e) := by
  have ha : P.ArgsSound e (fun i => P.opened i e) (do
      let vs ← expandArgs h R e nodes
      if ← running e then return some vs else return none) := by
    intro i
    refine bind' (expandArgs_sound hh hR e nodes i) fun vs => ?_
    refine bind' (running_tests i) fun b => ?_
    cases b with
    | true | false => exact pure' _ fun _ hs => hs
  intro i
  refine bind' ((superValue_sound hh hR ha _ member isCall i).post fun r s hs => ?_)
    fun _ => open_pure _ i
  cases r with
  | none | some => exact hs

/-! Classes. -/

include hR in
theorem instanceOfClass_sound (className : Name) (classExpr : Option (Node D)) (e : EnvId) :
    P.Sound e (instanceOfClass R className classExpr e) := by
  cases classExpr with
  | some node => exact hR.eval node e
  | none => exact (envGet_calm e className).sound

include hR in
theorem evalInstanceOf_sound (object : Node D) (className : Name) (classExpr : Option (Node D))
    (e : EnvId) : P.Sound e (evalInstanceOf h R object className classExpr e) := by
  refine (hR.eval object e).unless_flow fun obj => ?_
  split
  · refine (instanceOfClass_sound hR className classExpr e).unless_flow fun c => ?_
    split
    · exact get_calm.bind_sound fun _ => Sound.pure' _
    · exact Sound.pure' _
  · exact Sound.pure' _

/-- From nothing pending; `false` may leave a throw, `true` leaves none. -/
def SoundTest (P : Discipline D Θ) (e : EnvId) (m : Eval D Θ Bool) : Prop :=
  ∀ i, Triple P.cut (P.idle i e) m fun b s => if b then P.idle i e s else P.opened i e s

theorem SoundTest.pure' (b : Bool) : P.SoundTest e (pure b : Eval D Θ Bool) := by
  intro i
  refine Triple.pure' b fun s hs => ?_
  cases b with
  | true => exact hs
  | false => exact open_idle hs

theorem Calm.bind_test {f : α → Eval D Θ Bool} (hm : P.Calm e m) (hf : ∀ v, P.SoundTest e (f v)) :
    P.SoundTest e (m >>= f) :=
  fun i => Triple.bind' (hm i) fun v => hf v i

theorem Sound.refuse (hm : P.Sound e m) : P.SoundTest e (m >>= fun _ => pure false) :=
  fun i => Triple.bind' (hm i) fun _ => Triple.pure' _ fun _ hs => hs

theorem SoundTest.bind_test {m : Eval D Θ Bool} {k : Eval D Θ Bool} (hm : P.SoundTest e m)
    (hk : P.SoundTest e k) : P.SoundTest e (m >>= fun b => if b then k else pure false) := by
  intro i
  refine Triple.bind' (hm i) fun b => ?_
  cases b with
  | true => exact hk i
  | false => exact Triple.pure' _ fun _ hs => hs

theorem commitClasses_sound (r : Except String Θ) (e : EnvId) :
    P.SoundTest e (commitClasses r e : Eval D Θ Bool) := by
  cases r with
  | ok store => exact Calm.bind_test (store_calm fun _ => store) fun _ => SoundTest.pure' _
  | error msg => exact (throwErr_sound e msg).refuse

include hh hR in
theorem fieldInitial_sound (initializer : Option (Node D)) (e : EnvId) :
    P.Sound e (fieldInitial h R initializer e) := by
  cases initializer with
  | some node => exact envEvalNode_sound hh hR node e
  | none => exact Sound.pure' _

include hh hR in
theorem declareMember_sound (c : ClassId) (closure e : EnvId) (member : Node D) :
    P.SoundTest e (declareMember h R c closure e member) := by
  unfold declareMember
  split
  · intro i
    refine bind' (fieldInitial_sound hh hR _ e i) fun v => ?_
    refine bind' (running_tests i) fun b => ?_
    cases b with
    | false => exact pure' _ fun _ hs => hs
    | true => exact Calm.bind_test get_calm (fun s => commitClasses_sound _ e) i
  · exact Calm.bind_test get_calm fun s => commitClasses_sound _ e

include hh hR in
theorem declareMembers_sound (c : ClassId) (closure e : EnvId) (members : List (Node D)) :
    P.SoundTest e (declareMembers h R c closure e members) := by
  induction members with
  | nil => exact SoundTest.pure' _
  | cons member members ih => exact (declareMember_sound hh hR c closure e member).bind_test ih

theorem addInterfaces_sound (c : ClassId) (e : EnvId) (names : List Name) :
    P.SoundTest e (addInterfaces h c e names) := by
  induction names with
  | nil => exact SoundTest.pure' _
  | cons name names ih =>
    refine Calm.bind_test (envGet_calm e name) fun v => ?_
    split
    · refine Calm.bind_test get_calm fun s i => ?_
      refine ite' (fun _ => ?_) fun _ => (throwErr_sound e _).refuse i
      refine Calm.bind_test ?_ (fun _ => ih) i
      exact store_calm _
    · exact (throwErr_sound e _).refuse

theorem finalParent_calm (parent : Option ClassId) :
    P.Calm e (finalParent h parent : Eval D Θ (Option Name)) := by
  refine get_calm.bind' fun s => ?_
  cases parent <;> exact Calm.pure' _

include hh hR in
theorem completeClass_sound (c : ClassId) (closure : EnvId) (name : Name)
    (interfaces : List Name) (members : List (Node D)) (e : EnvId) :
    P.Sound e (completeClass h R c closure name interfaces members e) := by
  intro i
  refine bind' (declareMembers_sound hh hR c closure e members i) fun b => ?_
  cases b with
  | false => exact pure' _ fun _ hs => hs
  | true =>
    refine bind' (addInterfaces_sound c e interfaces i) fun b => ?_
    cases b with
    | false => exact pure' _ fun _ hs => hs
    | true =>
      refine Calm.bind_sound get_calm (fun s => ?_) i
      split
      · exact throwErr_sound e _
      · refine (store_calm _).bind_sound fun _ => ?_
        exact (envSetLocal_calm e _ _).bind_sound fun _ => Sound.pure' _

theorem parentClass_sound (parent : Option Name) (e : EnvId) (i : P.Index) :
    Triple P.cut (P.idle i e) (parentClass parent e : Eval D Θ (Option (Option ClassId)))
      fun r s => if r.isSome then P.idle i e s else P.opened i e s := by
  cases parent with
  | none => exact pure' _ fun _ hs => hs
  | some name =>
    refine bind' (envGet_calm e name i) fun v => ?_
    split
    · exact pure' _ fun _ hs => hs
    · exact bind' (throwErr_sound e _ i) fun _ => pure' _ fun _ hs => hs

include hh hR in
theorem evalClassDef_sound (node : Node D) (name : Name) (parent : Option Name)
    (interfaces : List Name) (members : List (Node D)) (e : EnvId) :
    P.Sound e (evalClassDef h R node name parent interfaces members e) := by
  intro i
  refine bind' (parentClass_sound parent e i) fun p => ?_
  cases p with
  | none => exact pure' _ fun _ hs => hs
  | some p =>
    refine Calm.bind_sound (snapshot_calm e none) (fun closure => ?_) i
    refine get_calm.bind_sound fun s => ?_
    refine (store_calm _).bind_sound fun _ => ?_
    refine (finalParent_calm p).bind_sound fun final => ?_
    cases final with
    | some parentName => exact throwErr_sound e _
    | none => exact completeClass_sound hh hR _ closure name interfaces members e

end Expressions

section Statements
variable {D Θ : Type} [Double D] [Formats] {P : Discipline D Θ} [P.Laws]
  {h : Host D Θ} {R : Evaluators D Θ} (hh : h.mirHooks = true → P.MirLaws) (hR : P.Obeys R)
open Laws

include hR in
theorem evalAssignment_calm (name : Name) (value : Node D) (e : EnvId) :
    P.Calm e (evalAssignment R name value e) := by
  refine (hR.eval value e).unchecked.bind' fun v => ?_
  refine (effect_calm _).bind' fun _ => ?_
  exact (envSet_calm e name v).bind' fun _ => envGet_calm e name

include hR in
theorem evalConstantDecl_calm (name : Name) (value : Node D) (e : EnvId) :
    P.Calm e (evalConstantDecl R name value e) := by
  refine (hR.eval value e).unchecked.bind' fun v => ?_
  refine (effect_calm _).bind' fun _ => ?_
  exact (envSetConstant_calm e name v).bind' fun _ => envGet_calm e name

include hR in
theorem evalDestructuring_calm (targets value : Node D) (isConstant : Bool) (e : EnvId) :
    P.Calm e (evalDestructuring R targets value isConstant e) := by
  refine (hR.eval value e).unchecked.bind' fun v => ?_
  refine (effect_calm _).bind' fun _ => ?_
  exact (destructure_calm isConstant e targets v).bind' fun _ => Calm.pure' _

include hR in
theorem evalIf_sound (c : Node D) (t f : Option (Node D)) (e : EnvId) : P.Sound e (evalIf R c t f e) := by
  refine (hR.eval c e).unless_flow fun v => ?_
  exact Sound.ite' (fun _ => evalOpt_sound hR t e) fun _ => evalOpt_sound hR f e

/-! Loops. -/

include hR in
theorem loopCondition_sound (c : Node D) (e : EnvId) : P.SoundTest e (loopCondition R c e) := by
  intro i
  refine bind' (effect_calm _ i) fun _ => ?_
  refine bind' (hR.eval c e i) fun v => ?_
  refine bind' (running_tests i) fun b => ?_
  cases b with
  | true => exact SoundTest.pure' _ i
  | false => exact pure' _ fun _ hs => hs

theorem clearContinue_calm (e : EnvId) (flow : Flow) : P.Calm e (clearContinue e flow : Eval D Θ Unit) :=
  Calm.ite' (fun _ => setFlow_calm e (by decide)) fun _ => Calm.pure' _

include hR in
theorem whileIter_sound (c body : Node D) (e : EnvId) (i : P.Index) (n : Nat) (last : Value D) :
    Triple P.cut (P.opened i e) (whileIter h R c body e n last) fun _ => P.opened i e := by
  induction n generalizing last with
  | zero => exact Triple.cut fun _ hs => fine hs
  | succ n ih =>
    have hgo : ∀ (next : Value D → Eval D Θ (Value D)) (flow : Flow),
        (∀ last, Triple P.cut (P.opened i e) (next last) fun _ => P.opened i e) →
        Triple P.cut (P.idle i e) (do
          clearContinue e flow
          if !(← loopCondition R c e) then return last
          else if !(← evalLoopTick h e) then return last
          else do
            emit (.effect .iteration)
            next (← R.eval body e)) fun _ => P.opened i e := by
      intro next flow hnext
      refine bind' (clearContinue_calm e flow i) fun _ => ?_
      refine bind' (loopCondition_sound hR c e i) fun b => ?_
      cases b with
      | false => exact open_pure _ i
      | true =>
        refine bind' (evalLoopTick_calm h i) fun b => ?_
        refine ite' (fun _ => Sound.pure' _ i) fun _ => ?_
        refine bind' (effect_calm _ i) fun _ => ?_
        exact bind' (hR.eval body e i) fun last => hnext last
    refine bind' flow_spec fun env => ?_
    cases env.flow with
    | normal | «continue» =>
      refine hgo _ _ fun last => bind' flow_spec fun env => ?_
      have hnext := (ih last).pre fun _ hs => open_idle hs
      cases env.flow with
      | «break» => exact bind' (setFlow_calm e (by decide) i) fun _ => Sound.pure' _ i
      | «return» => exact Sound.pure' _ i
      | throw => exact ih last
      | normal | «continue» | yield => exact hnext
    | throw => exact open_pure _ i
    | «break» | «return» | yield => exact Sound.pure' _ i

include hR in
theorem forCondition_sound (c : Option (Node D)) (e : EnvId) : P.SoundTest e (forCondition R c e) := by
  cases c with
  | some c => exact loopCondition_sound hR c e
  | none => exact SoundTest.pure' _

include hR in
theorem forPost_sound (post : Option (Node D)) (e : EnvId) : P.SoundTest e (forPost R post e) := by
  cases post with
  | none => exact SoundTest.pure' _
  | some post =>
    intro i
    refine bind' (effect_calm _ i) fun _ => ?_
    refine bind' (hR.eval post e i) fun _ => ?_
    refine bind' flow_spec fun env => ?_
    cases env.flow with
    | «continue» => exact bind' (setFlow_calm e (by decide) i) fun _ => SoundTest.pure' _ i
    | throw => exact pure' _ fun _ hs => hs
    | _ => exact SoundTest.pure' _ i

include hR in
theorem forIter_sound (c post : Option (Node D)) (body : Node D) (e : EnvId) (n : Nat)
    (last : Value D) : P.Sound e (forIter h R c post body e n last) := by
  induction n generalizing last with
  | zero => exact cut_sound
  | succ n ih =>
    intro i
    refine bind' (forCondition_sound hR c e i) fun b => ?_
    cases b with
    | false => exact open_pure _ i
    | true =>
      refine bind' (evalLoopTick_calm h i) fun b => ?_
      refine ite' (fun _ => Sound.pure' _ i) fun _ => ?_
      refine bind' (effect_calm _ i) fun _ => ?_
      refine bind' ((hR.eval body e).unchecked i) fun last => ?_
      refine bind' (getEnv_calm e i) fun env => ?_
      have hpost : P.Sound e (do
          if ← forPost R post e then forIter h R c post body e n last else return last) := by
        intro i
        refine bind' (forPost_sound hR post e i) fun b => ?_
        cases b with
        | true => exact ih last i
        | false => exact open_pure _ i
      cases env.flow with
      | «break» => exact bind' (setFlow_calm e (by decide) i) fun _ => Sound.pure' _ i
      | «return» => exact Sound.pure' _ i
      | normal | «continue» | throw | yield => exact hpost i

include hR in
theorem evalFor_sound (init c post : Option (Node D)) (body : Node D) (e : EnvId) (n : Nat) :
    P.Sound e (evalFor h R init c post body e n) :=
  (evalOpt_sound hR init e).then_test running_tests
    (fun _ => forIter_sound hR c post body e n _) fun _ => open_pure _

include hR in
theorem doWhileIter_sound (body c : Node D) (e : EnvId) (n : Nat) :
    P.Sound e (doWhileIter h R body c e n) := by
  induction n with
  | zero => exact cut_sound
  | succ n ih =>
    refine (effect_calm _).bind_sound fun _ => ?_
    refine (hR.eval body e).unchecked.bind_sound fun last => ?_
    refine (getEnv_calm e).bind_sound fun env => ?_
    have hnext : ∀ flow, P.Sound e (do
        clearContinue e flow
        if !(← loopCondition R c e) then return last
        else if !(← evalLoopTick h e) then return last
        else doWhileIter h R body c e n) := by
      intro flow i
      refine bind' (clearContinue_calm e flow i) fun _ => ?_
      refine bind' (loopCondition_sound hR c e i) fun b => ?_
      cases b with
      | false => exact open_pure _ i
      | true =>
        refine bind' (evalLoopTick_calm h i) fun b => ?_
        exact ite' (fun _ => Sound.pure' _ i) fun _ => ih i
    cases env.flow with
    | «break» => exact (setFlow_calm e (by decide)).bind_sound fun _ => Sound.pure' _
    | «return» => exact Sound.pure' _
    | normal | «continue» | throw | yield => exact hnext _

include hR in
theorem forInIter_calm (name : Name) (body : Node D) (e : EnvId) (vs : List (Value D))
    (last : Value D) : P.Calm e (forInIter h R name body e vs last) := by
  induction vs generalizing last with
  | nil => exact Calm.pure' _
  | cons v vs ih =>
    refine (evalLoopTick_calm h).bind' fun b => ?_
    refine Calm.ite' (fun _ => Calm.pure' _) fun _ => ?_
    refine (effect_calm _).bind' fun _ => ?_
    refine (envSet_calm e name v).bind' fun _ => ?_
    refine (hR.eval body e).unchecked.bind' fun last => ?_
    refine (getEnv_calm e).bind' fun env => ?_
    cases env.flow with
    | «break» => exact (setFlow_calm e (by decide)).bind' fun _ => Calm.pure' _
    | «return» => exact Calm.pure' _
    | normal | «continue» | throw | yield => exact (clearContinue_calm e _).bind' fun _ => ih _

include hR in
theorem evalForIn_sound (name : Name) (collection body : Node D) (e : EnvId) :
    P.Sound e (evalForIn h R name collection body e) :=
  (hR.eval collection e).then_test running_tests
    (fun _ => (forInIter_calm hR name body e _ _).sound) fun _ => open_pure _

/-! Blocks, jumps, `try`, `switch`. -/

include hR in
theorem evalBlock_sound (e : EnvId) (statements : List (Node D)) (last : Value D) :
    P.Sound e (evalBlock R e statements last) := by
  induction statements generalizing last with
  | nil => exact Sound.pure' _
  | cons statement statements ih =>
    exact (hR.eval statement e).then_test running_tests (fun v => ih v) fun _ => open_pure _

theorem running_calm (e : EnvId) : P.Calm e (running e : Eval D Θ Bool) :=
  (getEnv_calm e).bind' fun _ => Calm.pure' _

include hR in
theorem evalReturn_sound (value : Option (Node D)) (e : EnvId) : P.Sound e (evalReturn R value e) := by
  cases value with
  | none =>
    refine (Calm.pure' zero).bind_sound fun v => ?_
    refine Calm.bind_sound (update_calm e (fun _ => rfl) fun _ h => h) fun _ => ?_
    intro i
    refine bind' (running_calm e i) fun b => ?_
    refine ite' (fun hb => absurd hb.1 Bool.false_ne_true) fun _ => ?_
    exact bind' (setFlow_calm e (by decide) i) fun _ => Sound.pure' _ i
  | some value =>
    intro i
    refine bind' (hR.eval value e i) fun v => ?_
    have hset : P.Passes e (modifyEnv e fun env => { env with returnValue := v } : Eval D Θ Unit) :=
      modifyEnv_passes e (fun _ => rfl) (fun _ => rfl) fun _ => rfl
    refine bind' (hset i) fun _ => ?_
    refine bind' (running_tests i) fun b => ?_
    cases b with
    | false => exact open_pure _ i
    | true => exact bind' (setFlow_calm e (by decide) i) fun _ => Sound.pure' _ i

include hR in
theorem evalThrow_sound (value : Option (Node D)) (e : EnvId) : P.Sound e (evalThrow R value e) := by
  refine (evalOpt_sound hR value e).unchecked.bind_sound fun v => ?_
  exact (raise_sound e v).bind_pure _

include hR in
theorem evalTryCatch_sound (tryBody : Node D) (catchVar : Option Name) (catchBody : Node D)
    (e : EnvId) : P.Sound e (evalTryCatch R tryBody catchVar catchBody e) :=
  tryCatch_sound catchVar (hR.eval tryBody e) fun c => hR.eval catchBody c

theorem evalFunctionExpression_calm (params : List (Node D)) (body : Node D) (e : EnvId) :
    P.Calm e (evalFunctionExpression params body e : Eval D Θ (Value D)) :=
  (snapshot_calm e _).bind' fun _ => Calm.pure' _

include hR in
theorem evalCases_sound (v : Value D) (defaultCase : Option (Node D)) (e : EnvId)
    (cases : List (Node D)) : P.Sound e (evalCases R v defaultCase e cases) := by
  induction cases using evalCases.induct with
  | case1 c body cases ih =>
    refine (hR.eval c e).unless_flow fun w => ?_
    exact Sound.ite' (fun _ => hR.eval body e) fun _ => ih
  | case2 cases hc =>
    rw [evalCases]
    · exact evalOpt_sound hR defaultCase e
    · exact hc

include hR in
theorem evalSwitch_sound (value : Node D) (cases : List (Node D)) (defaultCase : Option (Node D))
    (e : EnvId) : P.Sound e (evalSwitch R value cases defaultCase e) :=
  (hR.eval value e).unless_flow fun v => evalCases_sound hR v defaultCase e cases

include hh hR in
theorem evalNode_sound (n : Nat) (node : Node D) (e : EnvId) : P.Sound e (evalNode h R n node e) := by
  cases node with
  | number | integer | string | null => exact Sound.pure' _
  | templateString text => exact (evalTemplate_calm hR e _ _).sound
  | varRef name => exact (envGet_calm e name).sound
  | binary op left right => exact evalBinaryNode_sound hR op left right e
  | functionCall name args => exact evalFunctionCall_sound hh hR name args e
  | assignment name value => exact (evalAssignment_calm hR name value e).sound
  | constantDecl name value => exact (evalConstantDecl_calm hR name value e).sound
  | destructuring targets value k => exact (evalDestructuring_calm hR targets value k e).sound
  | ifStmt c t f => exact evalIf_sound hR c t f e
  | whileLoop c body =>
    exact fun i => (whileIter_sound hR c body e i n zero).pre fun _ hs => open_idle hs
  | forLoop init c post body => exact evalFor_sound hR init c post body e n
  | doWhile body c => exact doWhileIter_sound hR body c e n
  | forIn name collection body => exact evalForIn_sound hR name collection body e
  | block statements => exact evalBlock_sound hR e statements zero
  | flowReturn value => exact evalReturn_sound hR value e
  | flowBreak | flowContinue => exact (setFlow_calm e (by decide)).bind_sound fun _ => Sound.pure' _
  | vector elements => exact evalVector_sound hh hR elements e
  | mapLiteral entries => exact evalMapLiteral_sound hR e entries []
  | index array index => exact evalIndex_sound hR array index e
  | slice array start stop => exact evalSlice_sound hR array start stop e
  | spread child => exact hR.eval child e
  | functionDefinition name params body =>
    exact (evalFunctionDefinition_calm name params body e).sound
  | functionExpression params body => exact (evalFunctionExpression_calm params body e).sound
  | memberCall object method args => exact evalMemberCall_sound hh hR object method args e
  | memberAccess object member => exact evalMemberAccess_sound hR object member e
  | memberSet object member value => exact evalMemberSet_sound hR object member value e
  | switch value cases defaultCase => exact evalSwitch_sound hR value cases defaultCase e
  | throwStmt value => exact evalThrow_sound hR value e
  | tryCatch tryBody catchVar catchBody => exact evalTryCatch_sound hR tryBody catchVar catchBody e
  | classDef name parent interfaces ctor members =>
    exact evalClassDef_sound hh hR _ name parent interfaces members e
  | newExpr className args => exact evalNew_sound hh hR className args e
  | thisExpr => exact evalThis_sound e
  | superExpr member args isCall => exact evalSuper_sound hh hR member args isCall e
  | instanceOf object className classExpr => exact evalInstanceOf_sound hR object className classExpr e
  | yieldExpr | generator | method | fieldDecl => exact Sound.pure' _

include hh hR in
theorem exprtkEval_sound (n : Nat) (node : Node D) (e : EnvId) : P.Sound e (exprtkEval h R n node e) := by
  refine (getEnv_calm e).bind_sound fun env => ?_
  refine Sound.ite' (fun _ => Sound.pure' _) fun _ => ?_
  refine (evalStep_calm h).bind_sound fun b => ?_
  exact Sound.ite' (fun _ => evalNode_sound hh hR n node e) fun _ => Sound.pure' _

end Statements

end TurboScript.Exprtk.Discipline
