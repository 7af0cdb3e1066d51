import TurboScript.Mir.ScriptSim

/- Register write-back of a whole module.

   The dirty flag of a variable is one bit of compile-time state: lowering an
   assignment sets it, lowering a helper statement clears it, and both happen in the
   order of the text whatever path the run takes. So an assignment before a branch
   loses its flag while a helper inside the branch is lowered, and a run that skips the
   branch ends without storing the variable (`write_back_loses_update`). A run all of
   whose write-backs are covered loses nothing (`covered_run_writes_back`). -/
namespace TurboScript.Mir
open Lib Compiler

variable {D : Type}

/-! The pre-scan registers every variable of the script, clean and numeric. -/

theorem tracks_getOrCreateReg {V : List Name} {c : Compiler} (h : Tracks V noFlags c) (x : Name) :
    ∃ V', Tracks V' noFlags (c.getOrCreateReg x) ∧ x ∈ V' ∧ ∀ y ∈ V, y ∈ V' := by
  unfold getOrCreateReg
  split
  · rename_i hx
    obtain ⟨v, hv, hvx⟩ := List.any_eq_true.1 hx
    refine ⟨V, h, ?_, fun y hy => hy⟩
    rw [← h.names, ← beq_iff_eq.1 hvx]
    exact List.mem_map_of_mem hv
  · refine ⟨V ++ [x], ⟨?_, ?_, ?_, h.ctxReg⟩, by simp, fun y hy => List.mem_append_left _ hy⟩
    · rw [List.map_append, h.names]
      rfl
    · intro v hv
      rcases List.mem_append.1 hv with hv | hv
      · exact h.plain v hv
      · rw [List.mem_singleton.1 hv]
        exact ⟨rfl, rfl⟩
    · intro v hv
      rcases List.mem_append.1 hv with hv | hv
      · exact h.flags v hv
      · rw [List.mem_singleton.1 hv]
        rfl

theorem tracks_foldl : ∀ (xs : List Name) {V : List Name} {c : Compiler}, Tracks V noFlags c →
    ∃ V', Tracks V' noFlags (xs.foldl getOrCreateReg c) ∧ (∀ x ∈ xs, x ∈ V') ∧ ∀ y ∈ V, y ∈ V'
  | [], V, c, h => ⟨V, h, by simp, fun y hy => hy⟩
  | x :: xs, V, c, h => by
    obtain ⟨V₁, h₁, hx, hV⟩ := tracks_getOrCreateReg h x
    obtain ⟨V₂, h₂, hxs, hV₁⟩ := tracks_foldl xs h₁
    refine ⟨V₂, h₂, fun y hy => ?_, fun y hy => hV₁ y (hV y hy)⟩
    rcases List.mem_cons.1 hy with rfl | hy
    · exact hV₁ _ hx
    · exact hxs y hy

theorem loopLabels_foldl : ∀ (xs : List Name) (c : Compiler),
    loopLabels (xs.foldl getOrCreateReg c) = loopLabels c
  | [], _ => rfl
  | x :: xs, c => by
    rw [List.foldl_cons, loopLabels_foldl xs]
    unfold getOrCreateReg
    split <;> rfl

theorem tracks_prescan (s : Stmt D) :
    ∃ V, Tracks V noFlags (prescanVariables s {}) ∧ ∀ x ∈ s.names, x ∈ V := by
  have h₀ : Tracks [] noFlags {} := ⟨rfl, by simp, by simp, rfl⟩
  obtain ⟨V, h, hs, -⟩ := tracks_foldl s.names h₀
  exact ⟨V, h, hs⟩

/-! A variable a run assigns is bound at its end. -/

/-- Bound at the start, or assigned on the way. -/
def Touched (σ : Env D) (tr : List Event) (x : Name) : Prop := (σ x).isSome = true ∨ .assign x ∈ tr

theorem bindAll_isSome : ∀ (ws : List (Name × D)) {σ : Env D} {x : Name}, (σ x).isSome = true →
    (bindAll σ ws x).isSome = true
  | [], _, _, h => h
  | (y, v) :: ws, σ, x, h => by
    apply bindAll_isSome ws
    by_cases hx : x = y
    · subst hx
      simp
    · simpa [hx] using h

theorem touched_append {σ σ₁ σ₂ : Env D} {tr₁ tr₂ : List Event} {x : Name}
    (h₁ : Touched σ tr₁ x → (σ₁ x).isSome = true) (h₂ : Touched σ₁ tr₂ x → (σ₂ x).isSome = true)
    (h : Touched σ (tr₁ ++ tr₂) x) : (σ₂ x).isSome = true := by
  apply h₂
  rcases h with h | h
  · exact .inl (h₁ (.inl h))
  · rcases List.mem_append.1 h with h | h
    · exact .inl (h₁ (.inr h))
    · exact .inr h

theorem touched_nil {σ : Env D} {x : Name} (h : Touched σ [] x) : (σ x).isSome = true := by
  simpa [Touched] using h

/-- What holds of all runs of a given fuel. -/
def Binds (r : RunResult D) (σ : Env D) : Prop :=
  ∀ o σ' tr x, r = some (o, σ', tr) → Touched σ tr x → (σ' x).isSome = true

theorem Binds.prepend {r : RunResult D} {σ σ₁ : Env D} {tr₁ : List Event}
    (h₁ : ∀ x, Touched σ tr₁ x → (σ₁ x).isSome = true) (h₂ : Binds r σ₁) :
    Binds (prepend tr₁ r) σ := by
  intro o σ' tr x h ht
  obtain ⟨tr₂, hr, rfl⟩ := prepend_eq_some h
  exact touched_append (h₁ x) (h₂ o σ' tr₂ x hr) ht

theorem Binds.done {σ σ₁ : Env D} {tr : List Event} (o : Outcome)
    (h : ∀ x, Touched σ tr x → (σ₁ x).isSome = true) : Binds (some (o, σ₁, tr)) σ := by
  rintro o' σ' tr' x ⟨⟩ ht
  exact h x ht

theorem Binds.stop {σ : Env D} (o : Outcome) : Binds (some (o, σ, [])) σ :=
  .done o fun _ ht => touched_nil ht

theorem Binds.writeBack {σ σ' : Env D} {F : Flags} (o : Outcome)
    (h : ∀ x, (σ x).isSome = true → (σ' x).isSome = true) : Binds (some (o, σ', [.writeBack F])) σ := by
  rintro o' σ'' tr x ⟨⟩ ht
  rcases ht with ht | ht
  · exact h x ht
  · simp at ht

section Bound

variable [LinearOrder D] [Zero D] [One D]

theorem binds_exec (w : World D) : ∀ n, (∀ (s : Stmt D) F σ, Binds (exec w n s F σ) σ) ∧
    ∀ e (post body : Stmt D) F σ, Binds (execFor w n e post body F σ) σ
  | 0 => by
    constructor
    · intro s F σ o σ' tr x h
      simp only [exec] at h
      cases h
    · intro e post body F σ o σ' tr x h
      simp only [execFor] at h
      cases h
  | n + 1 => by
    obtain ⟨ih, ihF⟩ := binds_exec w n
    -- a run of a part that goes on with another run
    have bound : ∀ {s : Stmt D} {F σ o σ₁ tr₁}, exec w n s F σ = some (o, σ₁, tr₁) →
        ∀ x, Touched σ tr₁ x → (σ₁ x).isSome = true :=
      fun he x ht => ih _ _ _ _ _ _ x he ht
    constructor
    · intro s F σ
      cases s with
      | expr e =>
        cases e with
        | assign y e =>
          simp only [exec]
          rintro o σ' tr x ⟨⟩ ht
          by_cases hx : x = y
          · subst hx
            simp
          · rcases ht with ht | ht
            · simpa [hx] using ht
            · simp [hx] at ht
        | value node names =>
          simp only [exec]
          exact .writeBack _ fun x hx => bindAll_isSome _ hx
        | _ =>
          simp only [exec]
          exact .stop _
      | seq s t =>
        simp only [exec]
        rcases he : exec w n s F σ with _ | ⟨o₁, σ₁, tr₁⟩
        · rintro o σ' tr x ⟨⟩
        · cases o₁ with
          | normal => exact .prepend (bound he) (ih _ _ _)
          | brk | cont | ret => exact .done _ (bound he)
      | ifThen e t =>
        simp only [exec]
        split
        · exact ih _ _ _
        · exact .stop _
      | ifElse e t f =>
        simp only [exec]
        split
        · exact ih _ _ _
        · exact ih _ _ _
      | «while» e body =>
        simp only [exec]
        split
        · rcases he : exec w n body F σ with _ | ⟨o₁, σ₁, tr₁⟩
          · rintro o σ' tr x ⟨⟩
          · cases o₁ with
            | normal | cont => exact .prepend (bound he) (ih _ _ _)
            | brk | ret => exact .done _ (bound he)
        · exact .stop _
      | «for» init e post body =>
        simp only [exec]
        rcases he : exec w n init F σ with _ | ⟨o₁, σ₁, tr₁⟩
        · rintro o σ' tr x ⟨⟩
        · cases o₁ with
          | normal => exact .prepend (bound he) (ihF _ _ _ _ _)
          | brk | cont | ret => exact .done _ (bound he)
      | ret e =>
        simp only [exec]
        exact .writeBack _ fun x hx => hx
      | skip | classDef | funcDef | doWhile | brk | cont | forIn | switch =>
        simp only [exec]
        exact .stop _
    · intro e post body F σ
      simp only [execFor]
      split
      · rcases he : exec w n body F σ with _ | ⟨o₁, σ₁, tr₁⟩
        · rintro o σ' tr x ⟨⟩
        · cases o₁ with
          | normal | cont =>
            dsimp only
            rcases hp : exec w n post (flagsAfter body F) σ₁ with _ | ⟨o₂, σ₂, tr₂⟩
            · rintro o σ' tr x ⟨⟩
            · cases o₂ with
              | normal =>
                exact .prepend (fun x => touched_append (bound he x) (bound hp x)) (ihF _ _ _ _ _)
              | brk | cont | ret => exact .prepend (bound he) (.done _ (bound hp))
          | brk | ret => exact .done _ (bound he)
      · exact .stop _

theorem runScript_cases {w : World D} {n : Nat} {s : Stmt D} {σ σ' : Env D} {o : Outcome} {tr : List Event}
    (h : runScript w n s σ = some (o, σ', tr)) :
    (o = .normal ∧ ∃ tr₁, exec w n s noFlags σ = some (.normal, σ', tr₁) ∧
      tr = tr₁ ++ [.writeBack (flagsAfter s noFlags)]) ∨
    (o ≠ .normal ∧ exec w n s noFlags σ = some (o, σ', tr)) := by
  simp only [runScript] at h
  rcases he : exec w n s noFlags σ with _ | ⟨o₁, σ₁, tr₁⟩
  · simp only [he] at h
    cases h
  · cases o₁ with
    | normal =>
      simp only [he] at h
      cases h
      exact .inl ⟨rfl, tr₁, rfl, rfl⟩
    | brk | cont | ret =>
      simp only [he] at h
      cases h
      exact .inr ⟨by simp, rfl⟩

end Bound

section Module

variable [LinearOrder D] [Zero D] [One D] [NeZero (1 : D)]

omit [NeZero (1 : D)] in
theorem run_allocas (w : World D) (prog post : List (Insn D)) (regs : Reg → D) (env : Env D) :
    ∀ ss : List Slot, Reaches (mstep w prog) ⟨ss.map .alloca ++ post, regs, env⟩ ⟨post, regs, env⟩
  | [] => .refl _
  | _ :: ss => .head rfl (run_allocas w prog post regs env ss)

omit [LinearOrder D] [Zero D] [One D] [NeZero (1 : D)] in
theorem defs_allocas (l : Nat) : ∀ ss : List Slot, defs l (ss.map .alloca : List (Insn D)) = 0
  | [] => rfl
  | _ :: ss => by simpa [Insn.defines] using defs_allocas l ss

/-- **A covered run loses no update.** For every script and every initial environment: when
    the source run ends, by itself or by a return, and each write-back it passes (a helper,
    a return, the end of the script) has the flags of all variables assigned since the
    previous one, the lowered module stops at a return, whatever the registers held, and
    every variable the run assigned is then bound to the value the source gives it. -/
theorem covered_run_writes_back (w : World D) (s : Stmt D) (code : List (Insn D)) (n : Nat)
    (env env' : Env D) (o : Outcome) (tr : List Event) (regs : Reg → D) (hs : s.script = true)
    (hl : lowerModule s = .ok code) (hrun : runScript w n s env = some (o, env', tr))
    (ho : o = .normal ∨ o = .ret) (hcov : Covered [] tr) :
    ∃ k r rest regs' final,
      (∀ m, k ≤ m → runSteps (mstep w code) m ⟨code, regs, env⟩ = ⟨.ret r :: rest, regs', final⟩) ∧
      (∀ x, .assign x ∈ tr → ∃ v, env' x = some v ∧ final x = some v) ∧
      ∀ x v, env' x = some v → final x = some v := by
  simp only [lowerModule, bind_ok] at hl
  obtain ⟨⟨c, body⟩, hc, hl⟩ := hl
  obtain ⟨V, ht, hn⟩ := tracks_prescan s
  have st := sim_static w s hs hn ht hc
  have hV : (c.newTemp.1.vars.filter fun v => !v.dynamic).map Var.name = V := by
    rw [List.filter_eq_self.2]
    · exact st.tracks.names
    · intro v hv
      simp [(st.tracks.plain v hv).1]
  simp only [Except.ok.injEq] at hl
  rw [hV] at hl
  -- the program: allocations and loads, the body, the epilogue
  have hcode : code = (List.range c.newTemp.1.slots.length).map .alloca ++ (loads V ++ (body ++
      (stores c.dirtyVars ++ [.mov c.newTemp.2 (.imm 0), .ret c.newTemp.2]))) := by
    rw [← hl]
    simp only [List.append_assoc]
    rfl
  have hnd : (labels Insn.defines code).Nodup := by
    apply LabelsIn.nodup (a := (prescanVariables s {}).labelCount) (b := c.labelCount)
    intro l
    have d := st.labels l
    rw [hcode]
    simpa [defs_allocas, Insn.defines] using d
  have hplaced : Placed code (body ++ (stores c.dirtyVars ++ [.mov c.newTemp.2 (.imm 0), .ret c.newTemp.2])) := by
    refine ⟨hnd, ?_⟩
    rw [hcode]
    exact (List.suffix_append _ _).trans (List.suffix_append _ _)
  have hstart := (run_allocas w code _ regs env (List.range c.newTemp.1.slots.length)).trans
    (run_loads w code (body ++ (stores c.dirtyVars ++ [.mov c.newTemp.2 (.imm 0), .ret c.newTemp.2])) env V regs)
  rw [← hcode] at hstart
  have hR : Rel V [] env (loadAll regs env V) env := by
    refine .reload regs fun x => ⟨fun v hv => hv, fun hx => ?_⟩
    rw [hx]
    rfl
  have hls : loopLabels (prescanVariables s {}) = [] := loopLabels_foldl _ _
  have htarget : Targets code (loopLabels (prescanVariables s {})) o := by
    rw [hls]
    refine ⟨fun b k rest h => absurd h (by simp), fun h => ?_⟩
    rcases ho with rfl | rfl <;> rcases h with h | h <;> cases h
  -- the run reaches a return with nothing pending
  have hend : ∃ r rest regs' final,
      Reaches (mstep w code) ⟨code, regs, env⟩ ⟨.ret r :: rest, regs', final⟩ ∧
      Rel V [] env' regs' final := by
    rcases runScript_cases hrun with ⟨rfl, tr₁, he, rfl⟩ | ⟨hne, he⟩
    · rw [covered_append] at hcov
      have hf := (sim_run w n).1 hs hn ht hc he hcov.1 hR hplaced htarget
      obtain ⟨regs₁, env₁, hr₁, hR₁⟩ := hf.normal
      have hw : Rel V [] env' regs₁ (storeAll regs₁ env₁ c.dirtyVars) := by
        refine hR₁.writeBack (fun x hx => ?_) fun x hx => ((st.tracks.mem_dirtyVars x).1 hx).1
        exact (st.tracks.mem_dirtyVars x).2 ⟨hR₁.pending x hx, hcov.2.1 x hx⟩
      refine ⟨_, _, _, _, hstart.trans (hr₁.trans ((run_stores w code _ regs₁ _ env₁).trans (.one rfl))), ?_⟩
      exact hw.keeps (Keeps.update (Nat.zero_le _) regs₁ _).var
    · obtain rfl : o = .ret := by
        rcases ho with rfl | rfl
        · exact absurd rfl hne
        · rfl
      obtain ⟨code', regs', final, hr, ⟨r, rest, rfl⟩, hR'⟩ :=
        (sim_run w n).1 hs hn ht hc he hcov hR hplaced htarget
      exact ⟨r, rest, regs', final, hstart.trans hr, hR'⟩
  obtain ⟨r, rest, regs', final, hreach, hfin⟩ := hend
  obtain ⟨k, hk⟩ := hreach.runSteps rfl
  have hvals : ∀ x v, env' x = some v → final x = some v := fun x v hv => (hfin.synced x (by simp)).1 v hv
  refine ⟨k, r, rest, regs', final, hk, fun x hx => ?_, hvals⟩
  have hsome : (env' x).isSome = true := by
    rcases runScript_cases hrun with ⟨rfl, tr₁, he, rfl⟩ | ⟨-, he⟩
    · have hx : Event.assign x ∈ tr₁ := by simpa using hx
      exact (binds_exec w n).1 _ _ _ _ _ _ x he (.inr hx)
    · exact (binds_exec w n).1 _ _ _ _ _ _ x he (.inr hx)
  obtain ⟨v, hv⟩ := Option.isSome_iff_exists.1 hsome
  exact ⟨v, hv, hvals x v hv⟩

end Module

/-- Two scripts over integers: `x = 1; if (c) helper` and the same with `x = 1` after it. -/
def branchedHelper : Stmt Int :=
  .seq (.expr (.assign "x" (.num 1))) (.ifThen (.var "c") (.expr (.value 0 [])))

def helperFirst : Stmt Int :=
  .seq (.ifThen (.var "c") (.expr (.value 0 []))) (.expr (.assign "x" (.num 1)))

def plainWorld : World Int where
  arith
    | .add, a, b => a + b
    | .sub, a, b => a - b
    | .mul, a, b => a * b
    | .div, a, b => a / b
    | .mod, a, b => a % b
    | .pow, a, b => a ^ b.toNat
  helper _ _ := ([], 0)

/-- **An update is lost.** `x = 1; if (c) helper` with `c` unbound: the source binds `x` to
    one; the lowered module returns with `x` unbound, since lowering the helper cleared the
    flag of `x` and the run skips its write-back. -/
theorem write_back_loses_update : branchedHelper.script = true ∧
    (runScript plainWorld 3 branchedHelper (fun _ => none)).map (fun r => (r.1, r.2.1 "x")) =
      some (.normal, some 1) ∧
    ∃ code, lowerModule branchedHelper = .ok code ∧
      ∃ r, (runSteps (mstep plainWorld code) 20 ⟨code, fun _ => 0, fun _ => none⟩).code = [.ret r] ∧
        (runSteps (mstep plainWorld code) 20 ⟨code, fun _ => 0, fun _ => none⟩).env "x" = none := by
  refine ⟨rfl, by decide, _, rfl, .tmp 2, by decide, by decide⟩

/-- With the assignment after the branch the write-back at the end is covered. -/
theorem covered_run_after_branch : ∃ code, lowerModule helperFirst = .ok code ∧ ∃ k r rest regs final,
      (∀ m, k ≤ m → runSteps (mstep plainWorld code) m ⟨code, fun _ => 0, fun _ => none⟩ =
        ⟨.ret r :: rest, regs, final⟩) ∧ final "x" = some 1 := by
  obtain ⟨code, hl⟩ : ∃ code, lowerModule helperFirst = .ok code := ⟨_, rfl⟩
  have hrun : runScript plainWorld 3 helperFirst (fun _ => none) =
      some (.normal, Function.update (fun _ => none) "x" (some 1),
        [.assign "x", .writeBack (Function.update noFlags "x" true)]) := rfl
  have hcov : Covered [] [.assign "x", .writeBack (Function.update noFlags "x" true)] := by
    simp [Covered]
  obtain ⟨k, r, rest, regs, final, hk, -, hv⟩ := covered_run_writes_back plainWorld helperFirst code 3
    (fun _ => none) _ .normal _ (fun _ => 0) rfl hl hrun (.inl rfl) hcov
  exact ⟨code, hl, k, r, rest, regs, final, hk, hv "x" 1 rfl⟩

end TurboScript.Mir
