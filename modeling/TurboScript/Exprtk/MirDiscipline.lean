import TurboScript.Exprtk.TreeDiscipline

/- The MIR value evaluator obeys a discipline, and both evaluators do at every fuel.

   The evaluator has two failure channels. What is proved of a node is that it may end open
   where it succeeds (`SoundOut`): a failure is passed on by every construct, so what came open
   with one would leave the body of a `try` without a test. -/
namespace TurboScript.Exprtk.Discipline
open Lib
open Triple (bind' ite' pure')

set_option linter.unusedSectionVars false

section Rules
variable {D Θ : Type} [Double D] [Formats] {P : Discipline D Θ} {e : EnvId} {ok : Out D → Bool}
  {m : Eval D Θ (Out D)} {k : Value D → Eval D Θ (Out D)}

def PassesOut (P : Discipline D Θ) (e : EnvId) (m : Eval D Θ (Out D)) : Prop :=
  ∀ i, Triple P.cut (P.opened i e) m (P.Ends e Prod.fst i)

theorem done_open (v : Value D) : P.PassesOut e (done v : Eval D Θ (Out D)) :=
  fun _ => pure' _ fun _ hs => by simpa [Ends] using hs

theorem failed_lost (i : P.Index) :
    Triple P.cut (P.lost i e) (failed : Eval D Θ (Out D)) (P.Ends e Prod.fst i) :=
  pure' _ fun _ hs => by simpa [Ends] using hs

theorem test_out {test : Eval D Θ Bool} {p q : Eval D Θ (Out D)} (ht : P.Tests e test)
    (hp : P.SoundOut e p) (hq : P.PassesOut e q) :
    P.PassesOut e (test >>= fun b => if b then p else q) := by
  refine fun i => bind' (ht i) fun b => ?_
  cases b with
  | true => exact hp i
  | false => exact hq i

theorem test_out_not {test : Eval D Θ Bool} {p q : Eval D Θ (Out D)} (ht : P.Tests e test)
    (hp : P.SoundOut e p) (hq : P.PassesOut e q) :
    P.PassesOut e (test >>= fun b => if !b then q else p) := by
  refine fun i => bind' (ht i) fun b => ?_
  cases b with
  | true => exact hp i
  | false => exact hq i

theorem Sound.done {m : Eval D Θ (Value D)} (hm : P.Sound e m) :
    P.SoundOut e (m >>= fun v => Exprtk.done v) :=
  fun i => bind' (hm i) fun v => done_open v i

theorem SoundOut.onValue (hm : P.SoundOut e m) (hk : ∀ v, P.PassesOut e (k v)) :
    P.SoundOut e (onValue m k) := by
  refine SoundIf.bind hm (fun r i hr => ?_) fun r i hr => ?_
  · rw [if_pos hr]
    exact hk r.2 i
  · rw [if_neg (by simp [hr])]
    exact failed_lost i

theorem SoundOut.onOut (hm : P.SoundOut e m) (hk : ∀ v, P.PassesOut e (k v)) :
    P.SoundOut e (onOut m k) := by
  refine SoundIf.bind hm (fun r i hr => ?_) fun r i hr => ?_
  · rw [if_pos hr]
    exact hk r.2 i
  · rw [if_neg (by simp [hr])]
    exact pure' _ fun s hs => by simpa [Ends, hr] using hs

variable [P.MirLaws]
open Laws MirLaws

theorem done_sound (v : Value D) : P.SoundOut e (done v : Eval D Θ (Out D)) :=
  (Calm.pure' _).out

theorem failed_sound : P.SoundOut e (failed : Eval D Θ (Out D)) :=
  (Calm.pure' _).out

theorem cut_sound_out : P.SoundOut e (cutOff : Eval D Θ (Out D)) :=
  fun _ => Triple.cut fun _ hs => fine (open_idle hs)

theorem unlessAborted_open (v : Value D) : P.PassesOut e (unlessAborted e v : Eval D Θ (Out D)) := by
  refine fun i => bind' (getEnv_spec e) fun env => pure' _ fun s hs => ?_
  obtain ⟨hs, rfl⟩ := hs
  cases ha : (s.envs e).aborted with
  | true => simpa [Ends, ha] using lost_idle (idle_of_aborted hs ha)
  | false => simpa [Ends, ha] using hs

theorem Sound.unlessAborted {m : Eval D Θ (Value D)} (hm : P.Sound e m) :
    P.SoundOut e (m >>= fun v => Exprtk.unlessAborted e v) :=
  fun i => bind' (hm i) fun v => unlessAborted_open v i

theorem SoundOut.onValue_unchecked (hm : P.SoundOut e m) (hk : ∀ v, P.SoundOut e (k v)) :
    P.SoundOut e (Exprtk.onValue (unchecked m) k) := by
  refine bind_unchecked (SoundIf.rests hm) (fun r i hr => ?_) fun r i hr => ?_
  · rw [if_pos hr]
    exact hk r.2 i
  · rw [if_neg (by simp [hr])]
    exact failed_lost i

theorem SoundOut.onOut_unchecked (hm : P.SoundOut e m) (hk : ∀ v, P.SoundOut e (k v)) :
    P.SoundOut e (Exprtk.onOut (unchecked m) k) := by
  refine bind_unchecked (SoundIf.rests hm) (fun r i hr => ?_) fun r i hr => ?_
  · rw [if_pos hr]
    exact hk r.2 i
  · rw [if_neg (by simp [hr])]
    exact pure' _ fun s hs => by simpa [Ends, hr] using hs

end Rules

section Expressions
variable {D Θ : Type} [Double D] [Formats] {P : Discipline D Θ} [P.MirLaws]
  {h : Host D Θ} {R : Evaluators D Θ} (hR : P.Obeys R)
open Laws MirLaws
include hR

theorem viaTreeEval_calm (node : Node D) (e : EnvId) : P.Calm e (viaTreeEval R node e) := by
  refine (hR.eval node e).unchecked.bind' fun v => ?_
  exact (getEnv_calm e).bind' fun _ => Calm.pure' _

theorem onceMore_lost (node : Node D) (e : EnvId) (i : P.Index) :
    Triple P.cut (P.lost i e) (onceMore R node e) (P.Ends e Prod.fst i) :=
  bind' (resumed i e) fun _ => Calm.out (viaTreeEval_calm hR node e) i

theorem once_more {node part : Node D} {e : EnvId} {k : Out D → Eval D Θ (Out D)}
    (hk : ∀ r, P.SoundOut e (k r)) : P.SoundOut e (unchecked (R.valueArg part e) >>= fun r =>
      if !r.1 then onceMore R node e else k r) := by
  refine bind_unchecked (SoundIf.rests (hR.valueArg inferInstance part e)) (fun r i hr => ?_)
    fun r i hr => ?_
  · rw [if_neg (by simp [hr])]
    exact hk r i
  · rw [if_pos (by simp [hr])]
    exact onceMore_lost hR node e i

theorem mirOpt_sound (node : Option (Node D)) (e : EnvId) : P.SoundOut e (mirOpt R node e) := by
  cases node with
  | some node => exact hR.valueArg inferInstance node e
  | none => exact done_sound _

theorem mirOperand_sound (node : Node D) (e : EnvId) {k : Value D → Eval D Θ (Out D)}
    (hk : ∀ v, P.SoundOut e (k v)) : P.SoundOut e (mirOperand R node e k) := by
  refine bind_unchecked (SoundIf.rests (hR.valueArg inferInstance node e)) (fun r i hr => ?_)
    fun r i hr => ?_
  · rw [if_pos hr]
    exact hk r.2 i
  · rw [if_neg (by simp [hr])]
    exact bind' (recorded i e) fun _ => failed_sound i

theorem mirEvalValueBinary_sound (op : BinOp) (left : Option (Node D)) (right : Node D)
    (e : EnvId) : P.SoundOut e (mirEvalValueBinary R op left right e) := by
  unfold mirEvalValueBinary
  split
  · refine (hR.valueArg inferInstance right e).onValue_unchecked fun r => ?_
    split
    · exact done_sound _
    · exact failed_sound
  · refine mirOperand_sound hR _ e fun l => mirOperand_sound hR right e fun r => ?_
    split
    · exact done_sound _
    · exact failed_sound
    · refine (abort_calm e).bind_out fun _ => ?_
      exact Calm.bind_out (update_calm e (fun _ => rfl) fun _ h => h) fun _ => failed_sound

theorem mirTemplate_sound (e : EnvId) (ps : List Piece) (acc : String) :
    P.SoundOut e (mirTemplate h R e ps acc) := by
  induction ps generalizing acc with
  | nil => exact done_sound _
  | cons p ps ih =>
    cases p with
    | char c => exact ih _
    | unclosed => exact failed_sound
    | expr text =>
      cases text with
      | nil => exact ih _
      | cons c cs =>
        unfold mirTemplate
        split
        · exact failed_sound
        · refine (hR.valueArg inferInstance _ e).onValue_unchecked fun v => ?_
          split
          · exact ih _
          · exact failed_sound

theorem mirElementValues_sound (e : EnvId) (node : Node D) :
    P.SoundIf e Option.isSome (mirElementValues R e node) := by
  have hone : ∀ node (f : Value D → List (Value D)), P.SoundIf e Option.isSome (do
      let r ← R.valueArg node e
      return if r.1 then some (f r.2) else none) := by
    intro node f
    refine SoundIf.bind (hR.valueArg inferInstance node e) (fun r i hr => ?_) fun r i hr => ?_
    · exact pure' _ fun s hs => by simpa [Ends, hr] using hs
    · exact pure' _ fun s hs => by simpa [Ends, hr] using hs
  unfold mirElementValues
  split
  · exact hone _ spreadValues
  · exact hone _ fun v => [v]

theorem mirValues_rests (e : EnvId) (nodes : List (Node D)) (i : P.Index) (hi : P.down i) :
    Triple P.cut (P.idle i e) (mirValues R e nodes) (P.Rests e Option.isSome i) := by
  induction nodes with
  | nil => exact pure' _ fun _ hs => by simpa [Rests] using hs
  | cons node nodes ih =>
    refine bind' (SoundIf.rests (mirElementValues_sound hR e node) i hi) fun r => ?_
    cases r with
    | none => exact pure' _ fun _ hs => hs
    | some vs =>
      refine bind' ih fun r => ?_
      cases r with
      | none | some => exact pure' _ fun _ hs => hs

theorem mirCallArgs_sound (args : List (Node D)) (e : EnvId) :
    P.ArgsSound e (fun i => P.idle i e) (mirCallArgs R args e) := by
  refine bind_unchecked (mirValues_rests hR e args) (fun r i hr => ?_) fun r i hr => ?_
  · obtain ⟨vs, rfl⟩ := Option.isSome_iff_exists.mp hr
    exact pure' _ fun s hs => by split <;> exact hs
  · rw [Option.isSome_eq_false_iff, Option.isNone_iff_eq_none] at hr
    subst hr
    exact bind' (recorded i e) fun _ => pure' _ fun _ hs => hs

theorem ArgsSound.bind_out {e : EnvId} {args : Eval D Θ (Option (List (Value D)))}
    {k : List (Value D) → Eval D Θ (Out D)} (ha : P.ArgsSound e (fun i => P.idle i e) args)
    (hk : ∀ vs, P.SoundOut e (k vs)) :
    P.SoundOut e (args >>= fun r => match r with | none => failed | some vs => k vs) := by
  intro i
  refine bind' (ha i) fun r => ?_
  cases r with
  | none => exact failed_sound i
  | some vs => exact hk vs i

theorem mirFunctionCall_sound (name : Name) (args : List (Node D)) (e : EnvId) :
    P.SoundOut e (mirFunctionCall h R name args e) :=
  (mirCallArgs_sound hR args e).bind_out hR fun vs =>
    (callInternal_sound (fun _ => inferInstance) hR name vs e).unlessAborted

theorem memberCallValues_sound (objectName method : Name) (object : Node D)
    (args : List (Value D)) (e : EnvId) :
    P.Sound e (memberCallValues h R objectName method object args e) := by
  refine (envGet_calm e objectName).bind_sound fun obj => ?_
  split
  · exact callInstanceMethod_sound (fun _ => inferInstance) hR _ object method args e
  · exact callStaticMethod_sound (fun _ => inferInstance) hR _ object method args e
  · split
    all_goals first
      | exact runNative_sound hR e _
      | exact callInternal_sound (fun _ => inferInstance) hR _ args e

theorem memberCallNodes_sound (objectName method : Name) (object : Node D)
    (args : List (Node D)) (e : EnvId) :
    P.Sound e (memberCallNodes h R objectName method object args e) :=
  (expandArgs_sound (fun _ => inferInstance) hR e args).unchecked.bind_sound fun vs =>
    memberCallValues_sound hR objectName method object vs e

theorem mirRetryMember_sound (node object : Node D) (method : Name) (args : List (Node D))
    (e : EnvId) : P.SoundOut e (mirRetryMember h R node object method args e) := by
  refine once_more hR fun r => ?_
  split
  · exact done_sound _
  · intro i
    refine ite' (fun _ => ?_) fun _ => failed_sound i
    refine bind' (envSet_calm e receiverTemp r.2 i) fun _ => ?_
    exact (memberCallNodes_sound hR receiverTemp method object args e).unlessAborted i

theorem mirMemberCall_sound (node object : Node D) (method : Name) (args : List (Node D))
    (e : EnvId) : P.SoundOut e (mirMemberCall h R node object method args e) := by
  unfold mirMemberCall
  split
  · refine (findFunc_calm e _).bind_out fun f i => ?_
    refine ite' (fun _ => ?_) fun _ => ?_
    · refine (mirCallArgs_sound hR args e).bind_out hR (fun vs => ?_) i
      exact (callInternal_sound (fun _ => inferInstance) hR _ vs e).unlessAborted
    · refine bind' (memberCallNodes_sound hR _ method _ args e i) fun v => ?_
      refine bind' (getEnv_spec e) fun env => ?_
      refine ite' (fun ha => ?_) fun _ => (done_open v i).pre fun _ hs => hs.1
      refine (mirRetryMember_sound hR node _ method args e i).pre fun s hs => ?_
      obtain ⟨hs, rfl⟩ := hs
      exact idle_of_aborted hs ha
  · exact (viaTreeEval_calm hR node e).out

theorem mirVector_sound (elements : List (Node D)) (e : EnvId) : P.SoundOut e (mirVector R elements e) := by
  refine bind_unchecked (mirValues_rests hR e elements) (fun r i hr => ?_) fun r i hr => ?_
  · obtain ⟨vs, rfl⟩ := Option.isSome_iff_exists.mp hr
    exact done_sound _ i
  · rw [Option.isSome_eq_false_iff, Option.isNone_iff_eq_none] at hr
    subst hr
    exact failed_lost i

theorem mirMapLiteral_sound (e : EnvId) (entries : List (Option Name × Node D))
    (acc : List (Name × Value D)) : P.SoundOut e (mirMapLiteral R e entries acc) := by
  induction entries generalizing acc with
  | nil => exact done_sound _
  | cons entry rest ih =>
    obtain ⟨key, node⟩ := entry
    cases key with
    | none => exact failed_sound
    | some key => exact (hR.valueArg inferInstance node e).onValue_unchecked fun v => ih _

theorem mirIndex_sound (node array index : Node D) (e : EnvId) :
    P.SoundOut e (mirIndex R node array index e) := by
  refine once_more hR fun a => once_more hR fun b => ?_
  split
  · exact done_sound _
  · exact (hR.eval node e).unlessAborted

theorem mirSlice_sound (array : Node D) (start stop : Option (Node D)) (e : EnvId) :
    P.SoundOut e (mirSlice R array start stop e) := by
  refine (hR.valueArg inferInstance array e).onValue_unchecked fun arr => ?_
  refine (mirOpt_sound hR start e).onValue_unchecked fun a => ?_
  refine (mirOpt_sound hR stop e).onValue_unchecked fun b => ?_
  dsimp only
  split
  · exact done_sound _
  · exact failed_sound

/-! Members. -/

omit hR in
theorem bindReceiver_calm (obj : Value D) (object : Node D) (e : EnvId) :
    P.Calm e (bindReceiver obj object e : Eval D Θ Unit) := by
  unfold bindReceiver
  split
  · exact Calm.pure' _
  · exact envSet_calm e _ _

omit hR in
theorem mirObjectMember_sound (obj : Value D) (object : Node D) (member : Name) (e : EnvId) :
    P.SoundOut e (mirObjectMember h obj object member e) :=
  (bindReceiver_calm obj object e).bind_out fun _ =>
    (memberValue_sound obj object member e).unlessAborted

omit hR in
theorem mirMember_sound (obj : Value D) (object : Node D) (member : Name) (e : EnvId) :
    P.SoundOut e (mirMember h obj object member e) := by
  unfold mirMember
  split
  · exact done_sound _
  · split
    all_goals first
      | exact done_sound _
      | exact mirObjectMember_sound _ object member e
      | exact (throwErr_sound e _).done
      | (split
         · exact done_sound _
         · exact failed_sound)

theorem mirMemberAccess_sound (object : Node D) (member : Name) (e : EnvId) :
    P.SoundOut e (mirMemberAccess h R object member e) :=
  (hR.valueArg inferInstance object e).onValue_unchecked fun obj => mirMember_sound obj object member e

omit hR in
theorem mirWriteStatic_sound (c : ClassId) (object : Node D) (member : Name) (v : Value D)
    (e : EnvId) : P.Sound e (mirWriteStatic h c object member v e) := by
  refine (staticDenied_calm c object member e).bind_sound fun denied => ?_
  refine refusal_sound _ ?_
  refine (effect_calm _).bind_sound fun _ => ?_
  exact (store_calm _).bind_sound fun _ => Sound.pure' _

omit hR in
theorem mirSetVariable_sound (name member : Name) (v : Value D) (e : EnvId) :
    P.Sound e (mirSetVariable h name member v e) := by
  refine (envGet_calm e name).bind_sound fun obj => ?_
  split
  · exact (writeEntry_calm name member _ _ v e).sound
  · exact (writeEntry_calm name member _ _ v e).sound
  · exact get_calm.bind_sound fun _ => writeField_sound _ _ _ member v e
  · exact mirWriteStatic_sound _ _ member v e
  · exact throwErr_sound e _

omit hR in
theorem mirSetThis_sound (member : Name) (v : Value D) (e : EnvId) :
    P.Sound e (mirSetThis h member v e) := by
  refine (evalThis_sound e).unless_flow fun this => ?_
  split
  · exact get_calm.bind_sound fun _ => writeField_sound _ _ _ member v e
  · exact Sound.pure' _

omit hR in
theorem mirSetSuper_sound (object : Node D) (member : Name) (v : Value D) (e : EnvId) :
    P.Sound e (mirSetSuper h object member v e) := by
  refine get_calm.bind_sound fun s => ?_
  refine (currentClass_calm e).bind_sound fun c => ?_
  split
  · exact throwErr_sound e _
  · refine (getEnv_calm e).bind_sound fun env => ?_
    refine Sound.ite' (fun _ => mirWriteStatic_sound _ object member v e) fun _ => ?_
    refine (envGet_calm e _).bind_sound fun this => ?_
    split
    · exact writeField_sound _ _ object member v e
    · exact throwErr_sound e _

theorem mirMemberSet_sound (object : Node D) (member : Name) (value : Node D) (e : EnvId) :
    P.SoundOut e (mirMemberSet h R object member value e) := by
  have hset : ∀ m : Value D → Eval D Θ (Value D), (∀ v, P.Sound e (m v)) →
      P.SoundOut e (onValue (R.valueArg value e) fun v => do
        if !(← flowNormal e) then done zero else do done (← m v)) := by
    intro m hm
    exact SoundOut.onValue (hR.valueArg inferInstance value e) fun v =>
      test_out_not flowNormal_tests (hm v).done (done_open _)
  unfold mirMemberSet
  split
  · exact hset _ fun v => mirSetVariable_sound _ member v e
  · exact hset _ fun v => mirSetThis_sound member v e
  · exact hset _ fun v => mirSetSuper_sound _ member v e
  · exact (throwErr_sound e _).done

theorem mirSuper_sound (member : Option Name) (args : List (Node D)) (isCall : Bool)
    (e : EnvId) : P.SoundOut e (mirSuper h R member args isCall e) := by
  intro i
  refine bind' (superValue_sound (fun _ => inferInstance) hR (mirCallArgs_sound hR args e) _
    member isCall i) fun r => ?_
  cases r with
  | some v => exact done_open v i
  | none => exact failed_sound i

theorem mirInstanceOf_sound (object : Node D) (className : Name) (classExpr : Option (Node D))
    (e : EnvId) : P.SoundOut e (mirInstanceOf h R object className classExpr e) := by
  refine (hR.valueArg inferInstance object e).onValue fun obj => ?_
  refine test_out_not flowNormal_tests ?_ (done_open _)
  have hread : ∀ f : State D Θ → Value D, P.PassesOut e (do done (f (← get)) : Eval D Θ (Out D)) :=
    fun f i => bind' (Triple.get' fun _ hs => hs) fun _ => done_open _ i
  split
  · dsimp only
    split
    · refine (hR.valueArg inferInstance _ e).onValue fun c => ?_
      split
      · exact hread _
      · exact done_open _
    · refine (envGet_calm e className).bind_out fun c i => ?_
      refine Triple.pre (P := P.opened i e) ?_ fun _ hs => open_idle hs
      split
      · exact hread _ i
      · exact done_open _ i
  · exact done_sound _

end Expressions

section Statements
variable {D Θ : Type} [Double D] [Formats] {P : Discipline D Θ} [P.MirLaws]
  {h : Host D Θ} {R : Evaluators D Θ} (hR : P.Obeys R)
open Laws MirLaws
include hR

theorem mirAssignment_sound (name : Name) (value : Node D) (e : EnvId) :
    P.SoundOut e (mirAssignment R name value e) := by
  refine (hR.valueArg inferInstance value e).onOut_unchecked fun v => ?_
  refine (effect_calm _).bind_out fun _ => ?_
  refine (envSet_calm e name v).bind_out fun _ => ?_
  exact (envGet_calm e name).bind_out fun _ => done_sound _

theorem mirConstantDecl_sound (name : Name) (value : Node D) (e : EnvId) :
    P.SoundOut e (mirConstantDecl R name value e) := by
  refine (hR.valueArg inferInstance value e).onOut_unchecked fun v => ?_
  refine (effect_calm _).bind_out fun _ => ?_
  refine (envSetConstant_calm e name v).bind_out fun _ => ?_
  exact (envGet_calm e name).bind_out fun _ => done_sound _

theorem mirDestructuring_sound (targets value : Node D) (isConstant : Bool) (e : EnvId) :
    P.SoundOut e (mirDestructuring R targets value isConstant e) := by
  refine (hR.valueArg inferInstance value e).onOut fun v => ?_
  refine test_out running_tests ?_ (done_open v)
  refine (effect_calm _).bind_out fun _ => ?_
  exact (destructure_calm isConstant e targets v).bind_out fun _ => done_sound _

theorem mirBlock_sound (e : EnvId) (statements : List (Node D)) (last : Value D) :
    P.SoundOut e (mirBlock R e statements last) := by
  induction statements generalizing last with
  | nil => exact done_sound _
  | cons statement statements ih =>
    refine (hR.valueArg inferInstance statement e).onValue fun v => ?_
    exact test_out running_tests (ih v) (done_open v)

theorem mirReturn_sound (value : Option (Node D)) (e : EnvId) : P.SoundOut e (mirReturn R value e) := by
  have hset : ∀ v, P.SoundOut e (do
      modifyEnv e fun env => { env with returnValue := v, flow := .return }
      done v : Eval D Θ (Out D)) := fun v =>
    Calm.bind_out (update_calm e (fun _ => rfl) fun _ h => by cases h) fun _ => done_sound v
  cases value with
  | none =>
    intro i
    refine bind' (pure' (Q := fun r s => r.1 = true ∧ P.idle i e s) (true, zero)
      fun s hs => ⟨rfl, hs⟩) fun r => ?_
    refine ite' (fun _ => ?_) fun hr => ?_
    · have hflow : P.Calm e (flowNormal e : Eval D Θ Bool) :=
        (getEnv_calm e).bind' fun _ => Calm.pure' _
      refine bind' ((hflow i).pre fun _ hs => hs.2) fun b => ?_
      exact ite' (fun hb => absurd hb.1 Bool.false_ne_true) fun _ => hset _ i
    · exact fun s hs => absurd hs.1 hr
  | some value =>
    refine (hR.valueArg inferInstance value e).onOut fun v i => ?_
    refine bind' (flowNormal_tests i) fun b => ?_
    cases b with
    | true => exact hset v i
    | false => exact done_open v i

theorem mirThrow_sound (value : Option (Node D)) (e : EnvId) : P.SoundOut e (mirThrow R value e) := by
  refine (mirOpt_sound hR value e).onOut_unchecked fun v i => ?_
  exact bind' (raise_sound e v i) fun _ => done_open v i

theorem mirIf_sound (c : Node D) (t f : Option (Node D)) (e : EnvId) : P.SoundOut e (mirIf R c t f e) := by
  refine (hR.valueArg inferInstance c e).onValue_unchecked fun v i => ?_
  exact ite' (fun _ => mirOpt_sound hR t e i) fun _ => mirOpt_sound hR f e i

/-! Loops. -/

/-- A condition fails or ends the loop, or the loop goes on at rest. -/
def CondPost (P : Discipline D Θ) (e : EnvId) (i : P.Index) (r : Option Bool) (s : State D Θ) : Prop :=
  match r with
  | none => P.lost i e s
  | some true => P.idle i e s
  | some false => P.opened i e s

theorem mirCondition_sound (c : Node D) (e : EnvId) (i : P.Index) :
    Triple P.cut (P.idle i e) (mirCondition R c e) (P.CondPost e i) := by
  refine bind' (effect_calm _ i) fun _ => ?_
  refine SoundIf.bind (Q := P.CondPost e) (hR.valueArg inferInstance c e) (fun r i hr => ?_)
    (fun r i hr => ?_) i
  · rw [if_neg (by simp [hr])]
    refine bind' (running_tests i) fun b => ?_
    cases b with
    | false => exact pure' _ fun _ hs => hs
    | true =>
      refine pure' _ fun s hs => ?_
      cases mirValueTruthy r.2 with
      | true => exact hs
      | false => exact open_idle hs
  · rw [if_pos (by simp [hr])]
    exact pure' _ fun _ hs => hs

theorem mirForCondition_sound (c : Option (Node D)) (e : EnvId) (i : P.Index) :
    Triple P.cut (P.idle i e) (mirForCondition R c e) (P.CondPost e i) := by
  cases c with
  | some c => exact mirCondition_sound hR c e i
  | none => exact pure' _ fun _ hs => hs

variable {e : EnvId}

omit hR in
theorem mirBodyFlowDone_spec {i : P.Index} :
    Triple P.cut (P.opened i e) (mirBodyFlowDone e : Eval D Θ Bool) fun b s =>
      if b then P.opened i e s else P.idle i e s := by
  refine bind' flow_spec fun env => ?_
  have hother : ∀ b : Bool, Triple P.cut (P.idle i e) (pure b : Eval D Θ Bool) fun b s =>
      if b then P.opened i e s else P.idle i e s := by
    intro b
    refine pure' b fun s hs => ?_
    cases b with
    | true => exact open_idle hs
    | false => exact hs
  cases env.flow with
  | «break» => exact bind' (setFlow_calm e (by decide) i) fun _ => hother true
  | «continue» => exact bind' (setFlow_calm e (by decide) i) fun _ => hother false
  | throw => exact pure' _ fun _ hs => hs
  | normal | «return» | yield => exact hother _

omit hR in
theorem bodyFlow_out {p q : Eval D Θ (Out D)} (hp : P.PassesOut e p) (hq : P.SoundOut e q) :
    P.PassesOut e (mirBodyFlowDone e >>= fun b => if b then p else q) := by
  refine fun i => bind' mirBodyFlowDone_spec fun b => ?_
  cases b with
  | true => exact hp i
  | false => exact hq i

omit hR in
theorem SoundOut.unless_failed {m : Eval D Θ (Out D)} {k : Out D → Eval D Θ (Out D)}
    (hm : P.SoundOut e m) (hk : ∀ r, P.PassesOut e (k r)) :
    P.SoundOut e (m >>= fun r => if !r.1 then failed else k r) := by
  refine SoundIf.bind hm (fun r i hr => ?_) fun r i hr => ?_
  · rw [if_neg (by simp [hr])]
    exact hk r i
  · rw [if_pos (by simp [hr])]
    exact failed_lost i

theorem mirWhile_sound (c body : Node D) (e : EnvId) (n : Nat) (last : Value D) :
    P.SoundOut e (mirWhile h R c body e n last) := by
  induction n generalizing last with
  | zero => exact cut_sound_out
  | succ n ih =>
    refine (getEnv_calm e).bind_out fun env i => ?_
    refine ite' (fun _ => done_sound _ i) fun _ => ?_
    refine bind' (clearContinue_calm e _ i) fun _ => ?_
    refine bind' (mirCondition_sound hR c e i) fun r => ?_
    match r with
    | none => exact failed_lost i
    | some false => exact done_open last i
    | some true =>
      refine bind' (evalLoopTick_calm h i) fun b => ?_
      refine ite' (fun _ => done_sound _ i) fun _ => ?_
      refine bind' (effect_calm _ i) fun _ => ?_
      exact (hR.valueArg inferInstance body e).unless_failed (fun r => bodyFlow_out (done_open r.2)
        (ih r.2)) i

/-- The post-expression fails or ends the loop, or the loop goes on at rest. -/
def PostPost (P : Discipline D Θ) (e : EnvId) (i : P.Index) (r : Option (Bool × Value D))
    (s : State D Θ) : Prop :=
  match r with
  | none => P.lost i e s
  | some (true, _) => P.idle i e s
  | some (false, _) => P.opened i e s

omit hR in
theorem goOn_spec {i : P.Index} (v : Value D) : Triple P.cut (P.opened i e)
      (mirBodyFlowDone e >>= fun b => pure (some (!b, v)) : Eval D Θ (Option (Bool × Value D)))
      (P.PostPost e i) := by
  refine bind' mirBodyFlowDone_spec fun b => ?_
  cases b with
  | true | false => exact pure' _ fun _ hs => hs

theorem mirForPost_sound (post : Option (Node D)) (last : Value D) (e : EnvId) (i : P.Index) :
    Triple P.cut (P.idle i e) (mirForPost R post last e) (P.PostPost e i) := by
  have hgo : ∀ flow v i, Triple P.cut (P.idle i e) (do
      clearContinue e flow
      return some (!(← mirBodyFlowDone e), v) : Eval D Θ (Option (Bool × Value D)))
      (P.PostPost e i) := fun flow v i =>
    bind' (clearContinue_calm e flow i) fun _ => (goOn_spec v).pre fun _ hs => open_idle hs
  cases post with
  | none => exact bind' (getEnv_calm e i) fun env => hgo _ last i
  | some post =>
    refine bind' (effect_calm _ i) fun _ => ?_
    refine SoundIf.bind (Q := P.PostPost e) (hR.valueArg inferInstance post e) (fun r i hr => ?_)
      (fun r i hr => ?_) i
    · rw [if_neg (by simp [hr])]
      refine bind' flow_spec fun env => ?_
      have hstop : Triple P.cut (P.idle i e)
          (pure (some (false, r.2)) : Eval D Θ (Option (Bool × Value D))) (P.PostPost e i) :=
        pure' _ fun _ hs => open_idle hs
      cases env.flow with
      | normal | «continue» => exact hgo _ r.2 i
      | throw => exact pure' _ fun _ hs => hs
      | «break» | «return» | yield => exact hstop
    · rw [if_pos (by simp [hr])]
      exact pure' _ fun _ hs => hs

theorem leave_out (v : Value D) {k : Env D → Eval D Θ (Out D)} (hk : ∀ env, P.SoundOut e (k env)) :
    P.PassesOut e (do
      let env ← getEnv e
      if env.flow = .break then do
        setFlow e .normal
        done v
      else if env.flow = .return ∨ env.flow = .throw ∨ env.aborted then done v
      else k env) := by
  intro i
  refine bind' flow_spec fun env => ?_
  have hrest : ∀ flow : Flow, Triple P.cut (P.idle i e)
      (if flow = .return ∨ flow = .throw ∨ env.aborted then done v else k env)
      (P.Ends e Prod.fst i) := fun flow =>
    ite' (fun _ => done_sound v i) fun _ => hk env i
  cases env.flow with
  | «break» => exact bind' (setFlow_calm e (by decide) i) fun _ => done_sound v i
  | throw => exact done_open v i
  | normal => exact hrest .normal
  | «continue» => exact hrest .continue
  | «return» => exact done_sound v i
  | yield => exact hrest .yield

theorem mirForIter_sound (c post : Option (Node D)) (body : Node D) (e : EnvId) (n : Nat)
    (last : Value D) : P.SoundOut e (mirForIter h R c post body e n last) := by
  induction n generalizing last with
  | zero => exact cut_sound_out
  | succ n ih =>
    intro i
    refine bind' (mirForCondition_sound hR c e i) fun r => ?_
    match r with
    | none => exact failed_lost i
    | some false => exact done_open last i
    | some true =>
      refine bind' (evalLoopTick_calm h i) fun b => ?_
      refine ite' (fun _ => done_sound _ i) fun _ => ?_
      refine bind' (effect_calm _ i) fun _ => ?_
      refine (hR.valueArg inferInstance body e).unless_failed (fun r => leave_out hR r.2 fun env i => ?_) i
      refine bind' (mirForPost_sound hR post r.2 e i) fun r => ?_
      match r with
      | none => exact failed_lost i
      | some (false, last) => exact done_open last i
      | some (true, last) => exact ih last i

theorem mirFor_sound (init c post : Option (Node D)) (body : Node D) (e : EnvId) (n : Nat) :
    P.SoundOut e (mirFor h R init c post body e n) :=
  (mirOpt_sound hR init e).unless_failed fun _ =>
    test_out running_tests (mirForIter_sound hR c post body e n _) (done_open _)

theorem mirDoWhile_sound (body c : Node D) (e : EnvId) (n : Nat) :
    P.SoundOut e (mirDoWhile h R body c e n) := by
  induction n with
  | zero => exact cut_sound_out
  | succ n ih =>
    refine (effect_calm _).bind_out fun _ => ?_
    refine (hR.valueArg inferInstance body e).unless_failed fun r => leave_out hR r.2 fun env i => ?_
    refine bind' (clearContinue_calm e env.flow i) fun _ => ?_
    refine bind' (mirCondition_sound hR c e i) fun r => ?_
    match r with
    | none => exact failed_lost i
    | some false => exact done_open _ i
    | some true =>
      refine bind' (evalLoopTick_calm h i) fun b => ?_
      exact ite' (fun _ => done_sound _ i) fun _ => ih i

theorem mirForInIter_sound (name : Name) (body : Node D) (e : EnvId) (vs : List (Value D))
    (last : Value D) : P.SoundOut e (mirForInIter h R name body e vs last) := by
  induction vs generalizing last with
  | nil => exact done_sound _
  | cons v vs ih =>
    refine (evalLoopTick_calm h).bind_out fun b i => ?_
    refine ite' (fun _ => done_sound _ i) fun _ => ?_
    refine bind' (effect_calm _ i) fun _ => ?_
    refine bind' (envSet_calm e name v i) fun _ => ?_
    exact (hR.valueArg inferInstance body e).unless_failed (fun r => bodyFlow_out (done_open r.2)
      (ih r.2)) i

theorem mirForIn_sound (name : Name) (collection body : Node D) (e : EnvId) :
    P.SoundOut e (mirForIn h R name collection body e) :=
  (hR.valueArg inferInstance collection e).onValue fun _ =>
    test_out running_tests (mirForInIter_sound hR name body e _ _) (done_open _)

theorem mirCases_sound (v : Value D) (defaultCase : Option (Node D)) (e : EnvId)
    (cases : List (Node D)) : P.SoundOut e (mirCases R v defaultCase e cases) := by
  induction cases using mirCases.induct with
  | case1 c body cases ih =>
    refine (hR.valueArg inferInstance c e).onValue fun w => ?_
    refine test_out running_tests (fun i => ?_) (done_open _)
    exact ite' (fun _ => hR.valueArg inferInstance body e i) fun _ => ih i
  | case2 cases hc =>
    rw [mirCases]
    · exact mirOpt_sound hR defaultCase e
    · exact hc

theorem mirSwitch_sound (value : Node D) (cases : List (Node D)) (defaultCase : Option (Node D))
    (e : EnvId) : P.SoundOut e (mirSwitch R value cases defaultCase e) :=
  (hR.valueArg inferInstance value e).onValue fun v =>
    test_out running_tests (mirCases_sound hR v defaultCase e cases) (done_open _)

theorem mirNode_sound (n : Nat) (node : Node D) (e : EnvId) : P.SoundOut e (mirNode h R n node e) := by
  have hh : h.mirHooks = true → P.MirLaws := fun _ => inferInstance
  cases node with
  | number | integer | string | null => exact done_sound _
  | thisExpr => exact (evalThis_sound e).done
  | superExpr member args isCall => exact mirSuper_sound hR member args isCall e
  | classDef name parent interfaces ctor members =>
    exact (evalClassDef_sound hh hR _ name parent interfaces members e).done
  | newExpr className args => exact (evalNew_sound hh hR className args e).done
  | templateString text => exact mirTemplate_sound hR e _ _
  | functionExpression params body =>
    exact ((evalFunctionExpression_calm params body e).sound).done
  | functionDefinition name params body =>
    exact ((evalFunctionDefinition_calm name params body e).sound).done
  | varRef name => exact ((envGet_calm e name).sound).done
  | assignment name value => exact mirAssignment_sound hR name value e
  | constantDecl name value => exact mirConstantDecl_sound hR name value e
  | destructuring targets value k => exact mirDestructuring_sound hR targets value k e
  | block statements => exact mirBlock_sound hR e statements zero
  | flowReturn value => exact mirReturn_sound hR value e
  | flowBreak | flowContinue => exact (setFlow_calm e (by decide)).bind_out fun _ => done_sound _
  | throwStmt value => exact mirThrow_sound hR value e
  | tryCatch tryBody catchVar catchBody =>
    exact mirTryCatch_sound catchVar (hR.valueArg inferInstance tryBody e)
      fun c => hR.valueArg inferInstance catchBody c
  | ifStmt c t f => exact mirIf_sound hR c t f e
  | whileLoop c body => exact mirWhile_sound hR c body e n zero
  | forLoop init c post body => exact mirFor_sound hR init c post body e n
  | doWhile body c => exact mirDoWhile_sound hR body c e n
  | forIn name collection body => exact mirForIn_sound hR name collection body e
  | switch value cases defaultCase => exact mirSwitch_sound hR value cases defaultCase e
  | binary op left right => exact mirEvalValueBinary_sound hR op left right e
  | instanceOf object className classExpr => exact mirInstanceOf_sound hR object className classExpr e
  | functionCall name args => exact mirFunctionCall_sound hR name args e
  | memberCall object method args => exact mirMemberCall_sound hR _ object method args e
  | vector elements => exact mirVector_sound hR elements e
  | mapLiteral entries => exact mirMapLiteral_sound hR e entries []
  | index array index => exact mirIndex_sound hR _ array index e
  | slice array start stop => exact mirSlice_sound hR array start stop e
  | memberAccess object member => exact mirMemberAccess_sound hR object member e
  | memberSet object member value => exact mirMemberSet_sound hR object member value e
  | spread | yieldExpr | generator | method | fieldDecl => exact failed_sound

theorem mirRuntimeValueArg_sound (n : Nat) (node : Node D) (e : EnvId) :
    P.SoundOut e (mirRuntimeValueArg h R n node e) := by
  refine (evalStep_calm h).bind_out fun b i => ?_
  exact ite' (fun _ => mirNode_sound hR n node e i) fun _ => failed_sound i

end Statements

theorem evaluators_obey {D Θ : Type} [Double D] [Formats] {P : Discipline D Θ} [P.Laws]
    (h : Host D Θ) (hh : h.mirHooks = true → P.MirLaws) (n : Nat) : P.Obeys (evaluators h n) := by
  induction n with
  | zero => exact ⟨fun _ _ => cut_sound, fun _ _ _ => cut_sound_out, fun _ _ _ => cut_sound⟩
  | succ n ih =>
    refine ⟨exprtkEval_sound hh ih n, fun hmir node e => ?_, callCallable_sound hh ih⟩
    have := hmir
    exact mirRuntimeValueArg_sound ih n node e

end TurboScript.Exprtk.Discipline
