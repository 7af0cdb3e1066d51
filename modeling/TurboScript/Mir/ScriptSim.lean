import TurboScript.Mir.ExprSim

/- The lowered code of a script follows its source-order run, as long as the write-backs
   it passes are covered.

   A variable's register holds its current value; the environment may lag behind for the
   variables `U` assigned since the last write-back (`Rel`). A write-back stores the variables
   whose dirty flag the lowering has set there; with all of `U` among them the environment is
   up to date again.

   1. The static side: lowering a script changes flags as `flagsAfter` says, defines
      its labels once, and leaves the loop stack's labels (`sim_static`).
   2. The dynamic side: the code of a statement, placed anywhere, runs as the source
      does and keeps `Rel`, by induction on the fuel of the source run (`sim_run`). -/
namespace TurboScript.Mir
open Lib Compiler
open List (append_assoc cons_append map_map mem_append mem_append_left mem_map nil_append)

variable {D : Type}

/-! The compiler state during the lowering of a script. -/

structure Tracks (V : List Name) (F : Flags) (c : Compiler) : Prop where
  names : c.vars.map Var.name = V
  plain : ∀ v ∈ c.vars, v.dynamic = false ∧ v.bound = false
  flags : ∀ v ∈ c.vars, v.dirty = F v.name
  ctxReg : c.ctxReg = true

def loopLabels (c : Compiler) : List (Label × Label) :=
  c.loopStack.map fun f => (f.breakLabel, f.continueLabel)

variable {V : List Name} {F : Flags} {c c' : Compiler}

theorem Tracks.known (h : Tracks V F c) {xs : List Name} (hx : ∀ x ∈ xs, x ∈ V) : Known xs c :=
  ⟨fun x hm => h.names ▸ hx x hm, fun v hv => (h.plain v hv).1⟩

theorem Tracks.of_vars (h : Tracks V F c) (hv : c'.vars = c.vars) (hc : c'.ctxReg = c.ctxReg) :
    Tracks V F c' where
  names := by rw [hv]; exact h.names
  plain := by rw [hv]; exact h.plain
  flags := by rw [hv]; exact h.flags
  ctxReg := hc.trans h.ctxReg

theorem Tracks.frame (h : Tracks V F c) (hf : Frame c c') : Tracks V F c' :=
  h.of_vars hf.vars hf.ctxReg

theorem Tracks.mem_dirtyVars (h : Tracks V F c) (x : Name) : x ∈ c.dirtyVars ↔ x ∈ V ∧ F x = true := by
  simp only [dirtyVars, List.mem_map, List.mem_filter, Bool.and_eq_true, Bool.not_eq_true']
  constructor
  · rintro ⟨v, ⟨hv, -, hd⟩, rfl⟩
    refine ⟨?_, (h.flags v hv).symm.trans hd⟩
    rw [← h.names]
    exact List.mem_map_of_mem hv
  · rintro ⟨hx, hF⟩
    rw [← h.names] at hx
    obtain ⟨v, hv, rfl⟩ := List.mem_map.1 hx
    exact ⟨v, ⟨hv, (h.plain v hv).1, (h.flags v hv).trans hF⟩, rfl⟩

theorem Tracks.mapVars {F' : Flags} (h : Tracks V F c) (f : Var → Var)
    (hc : c'.vars = c.vars.map f) (hctx : c'.ctxReg = c.ctxReg) (hn : ∀ v, (f v).name = v.name)
    (hp : ∀ v, v.dynamic = false → v.bound = false → (f v).dynamic = false ∧ (f v).bound = false)
    (hd : ∀ v ∈ c.vars, (f v).dirty = F' v.name) : Tracks V F' c' where
  names := by
    rw [hc, List.map_map, ← h.names]
    exact List.map_congr_left fun v _ => hn v
  plain := by
    rw [hc]
    intro v hv
    obtain ⟨u, hu, rfl⟩ := List.mem_map.1 hv
    exact hp u (h.plain u hu).1 (h.plain u hu).2
  flags := by
    rw [hc]
    intro v hv
    obtain ⟨u, hu, rfl⟩ := List.mem_map.1 hv
    rw [hd u hu, hn]
  ctxReg := hctx.trans h.ctxReg

theorem Tracks.assign (h : Tracks V F c) (x : Name) :
    Tracks V (Function.update F x true) ((c.markVarDirty x).markVarNumeric x) := by
  refine h.mapVars (fun v => if v.name = x then { v with dirty := true, dynamic := false } else v)
    ?_ rfl ?_ ?_ ?_
  · simp only [markVarNumeric, markVarDirty, updateVar, List.map_map]
    apply List.map_congr_left
    intro v _
    by_cases hv : v.name = x <;> simp [hv]
  · intro v
    split <;> rfl
  · intro v hd hb
    split
    · exact ⟨rfl, hb⟩
    · exact ⟨hd, hb⟩
  · intro v hv
    by_cases hx : v.name = x
    · simp [hx]
    · simp [hx, h.flags v hv]

/-- What `ts_emit_value_expr` does to the compiler and emits. -/
theorem emitValueExpr_spec {node : NodeId} {is : List (Insn D)} {r : Reg}
    (h : emitValueExpr node c = .ok (c', is, r)) (ht : Tracks V F c) :
    Tracks V noFlags c' ∧ c'.loopStack = c.loopStack ∧ c'.labelCount = c.labelCount ∧
      is = stores c.dirtyVars ++ .valueExpr (.tmp c.tmpCount) node c.slots.length ::
        .slotDestroy c.slots.length :: loads V := by
  simp only [emitValueExpr, newTemp, newManagedSlot, syncToEnv, bind_ok] at h
  obtain ⟨c₁, h₁, _, _, c₂, h₂, h⟩ := h
  have hp : ∀ (k k' : Compiler) s, k.managedSlotPublish s = .ok k' → k' = k.setSlot s .live := by
    intro k k' s hk
    simp only [managedSlotPublish] at hk
    split at hk <;> simp_all
  have hcl : ∀ (k k' : Compiler) s, k.managedSlotCleanup s = .ok k' → k' = k.setSlot s .cleaned := by
    intro k k' s hk
    simp only [managedSlotCleanup] at hk
    split at hk <;> simp_all
  obtain rfl := hp _ _ _ h₁
  obtain rfl := hcl _ _ _ h₂
  simp only [reloadFromEnv, setSlot, Except.ok.injEq, Prod.mk.injEq] at h
  obtain ⟨rfl, rfl, rfl⟩ := h
  have hload : ((c.vars.map (fun v => if v.dynamic = true then v else { v with dirty := false })).filter
      (fun v => !v.dynamic && !v.bound)).map Var.name = V := by
    rw [← ht.names, List.filter_eq_self.2]
    · rw [map_map]
      apply List.map_congr_left
      intro v _
      simp only [Function.comp]
      split <;> rfl
    · intro v hv
      obtain ⟨u, hu, rfl⟩ := mem_map.1 hv
      simp [(ht.plain u hu).1, (ht.plain u hu).2]
  refine ⟨?_, rfl, rfl, ?_⟩
  · refine ht.mapVars (fun v => { (if v.dynamic = true then v else { v with dirty := false }) with
      dirty := false }) ?_ rfl ?_ ?_ ?_
    · rw [map_map]
      rfl
    · intro v
      dsimp only
      split <;> rfl
    · intro v hd hb
      simp [hd, hb]
    · intro v _
      rfl
  · rw [hload]
    rfl

theorem pushLoopFrame_ok {b k : Label} {n : Nat} {e : List SlotState}
    (h : c.pushLoopFrame b k n e = .ok c') :
    c' = { c with loopStack := ⟨b, k, n, e, [], []⟩ :: c.loopStack } := by
  simp only [pushLoopFrame] at h
  split at h
  · cases h
  · cases h; rfl

theorem pushLoopFrame_spec {b k : Label} {n : Nat} {e : List SlotState}
    (h : c.pushLoopFrame b k n e = .ok c') (ht : Tracks V F c) :
    Tracks V F c' ∧ loopLabels c' = (b, k) :: loopLabels c := by
  obtain rfl := pushLoopFrame_ok h
  exact ⟨ht.of_vars rfl rfl, rfl⟩

theorem snapshotRestore_ok {e : List SlotState} (h : c.snapshotRestore e = .ok c') :
    c' = { c with slots := e ++ c.slots.drop e.length } := by
  simp only [snapshotRestore] at h
  split at h
  · cases h
  · cases h; rfl

theorem recordLoopEdge_ok {k : Bool} (h : c.recordLoopEdge k = .ok c') :
    ∃ stack, c' = { c with loopStack := stack } ∧ loopLabels c' = loopLabels c := by
  simp only [recordLoopEdge] at h
  split at h
  · cases h
  · rename_i frame outer hst
    split at h
    · cases h
    · simp only [bind_ok] at h
      obtain ⟨_, _, _, _, h⟩ := h
      cases h
      refine ⟨_, rfl, ?_⟩
      simp only [loopLabels, hst, List.map_cons]
      split <;> rfl

/-! The static side. -/

/-- What lowering a statement does to the compiler state, and the labels it defines. -/
structure StaticSim (V : List Name) (F : Flags) (c c' : Compiler) (is : List (Insn D)) : Prop where
  tracks : Tracks V F c'
  loops : loopLabels c' = loopLabels c
  label : c.labelCount ≤ c'.labelCount
  labels : LabelsIn c.labelCount c'.labelCount is

theorem StaticSim.seq {F' : Flags} {c₁ c₂ : Compiler} {is js : List (Insn D)}
    (h : StaticSim V F c c₁ is) (h' : StaticSim V F' c₁ c₂ js) :
    StaticSim V F' c c₂ (is ++ js) where
  tracks := h'.tracks
  loops := h'.loops.trans h.loops
  label := le_trans h.label h'.label
  labels := h.labels.append h'.labels h.label h'.label

theorem StaticSim.of_frame {is : List (Insn D)} (ht : Tracks V F c) (hf : Frame c c')
    (hl : LabelsIn c.labelCount c'.labelCount is) :
    StaticSim V F c c' is where
  tracks := ht.frame hf
  loops := by simp only [loopLabels, hf.loopStack]
  label := hf.label
  labels := hl

section Script

set_option linter.unusedSectionVars false
variable [LinearOrder D] [Zero D] [One D] [NeZero (1 : D)] {w : World D} {V : List Name}

theorem Stmt.script_of_basic : ∀ s : Stmt D, s.basic = true → s.script = true
  | .skip, _ => rfl
  | .seq s t, h => by
    simp only [Stmt.basic, Bool.and_eq_true] at h
    simp only [Stmt.script, Bool.and_eq_true]
    exact ⟨s.script_of_basic h.1, t.script_of_basic h.2⟩
  | .expr e, h => h
  | .classDef _, h | .funcDef _, h | .ifThen _ _, h | .ifElse _ _ _, h | .while _ _, h
  | .for _ _ _ _, h | .doWhile _ _, h | .brk, h | .cont, h | .ret _, h | .forIn _ _ _, h
  | .switch _ _, h => by cases h

variable {e : Expr D} {F : Flags} {c c' : Compiler} {is prog post : List (Insn D)} {l : Label}
  {σ env σ' : Env D} {U : List Name} {regs : Reg → D} {ls : List (Label × Label)} {o : Outcome}
  {n : Nat} {tr : List Event}

theorem Expr.basic_cases (h : e.basic = true) :
    (∃ x r, e = .assign x r ∧ r.numeric = true) ∨ (∃ node names, e = .value node names) ∨
      e.numeric = true := by
  cases e <;> simp_all [Expr.basic, Expr.numeric]

theorem static_forCond (w : World D) {e : Option (Expr D)} (he : numericOpt e = true)
    (hn : ∀ x ∈ optNames e, x ∈ V) (ht : Tracks V F c) (h : compileForCond e l c = .ok (c', is)) :
    StaticSim V F c c' is := by
  cases e with
  | none =>
    cases h
    exact .of_frame ht (.refl c) (.nil fun l => rfl)
  | some e =>
    have s := (sim_expr w e he).branchFalse (ht.known hn) h
    exact .of_frame ht s.frame s.labels

theorem static_forLoop {F₁ F₂ : Flags} {cond : Label → Compiler → Except String (Compiler × List (Insn D))}
    {body post : Compiler → Except String (Compiler × List (Insn D))} (ht : Tracks V F c)
    (hc : ∀ {l k k' js}, Tracks V F k → cond l k = .ok (k', js) → StaticSim V F k k' js)
    (hb : ∀ {k k' js}, Tracks V F k → body k = .ok (k', js) → StaticSim V F₁ k k' js)
    (hp : ∀ {k k' js}, Tracks V F₁ k → post k = .ok (k', js) → StaticSim V F₂ k k' js)
    (h : emitForLoop cond body post c = .ok (c', is)) : StaticSim V F₂ c c' is := by
  simp only [emitForLoop, bind_ok] at h
  obtain ⟨_, _, c₀, h₀, ⟨c₁, is₁⟩, h₁, ⟨c₂, is₂⟩, h₂, _, _, ⟨c₃, is₃⟩, h₃, _, _, _, _, h⟩ := h
  obtain rfl := pushLoopFrame_ok h₀
  cases h
  have s₁ := hc (ht.of_vars (by rfl) (by rfl)) h₁
  have s₂ := hb s₁.tracks h₂
  have s₃ := hp s₂.tracks h₃
  have hloops := (s₁.seq (s₂.seq s₃)).loops
  have e₁ := s₁.label
  have e₂ := s₂.label
  have e₃ := s₃.label
  refine ⟨s₃.tracks.of_vars rfl rfl, ?_, ?_, ?_⟩
  · simp only [loopLabels, popLoopFrame, newLabel, List.map_tail] at hloops ⊢
    rw [hloops]
    rfl
  · simp only [popLoopFrame, newLabel] at e₁ ⊢
    omega
  · intro l
    have d₁ := s₁.labels l
    have d₂ := s₂.labels l
    have d₃ := s₃.labels l
    simp only [popLoopFrame, newLabel, defs_append, defs_cons, defs_nil, Insn.defines,
      Option.some.injEq, reduceCtorEq, if_false] at d₁ e₁ ⊢
    split_ifs <;> omega

theorem static_expr (w : World D) (he : e.basic = true) (hn : ∀ x ∈ e.names, x ∈ V)
    (ht : Tracks V F c) (h : compileStmt (.expr e) c = .ok (c', is)) :
    StaticSim V (flagsAfter (.expr e) F) c c' is := by
  simp only [compileStmt, bind_ok] at h
  obtain ⟨⟨c₁, is₁, r⟩, h₁, h⟩ := h
  cases h
  obtain ⟨x, e, rfl, hnum⟩ | ⟨node, names, rfl⟩ | hnum := Expr.basic_cases he
  · simp only [compileExpr, lowering, Lowering.ofValue, lowerAssign, bind_ok] at h₁
    obtain ⟨⟨c₂, is₂, r₂⟩, h₂, h₁⟩ := h₁
    have hx : x ∈ V := hn x (List.mem_cons_self ..)
    have s := (sim_expr w e hnum).value (ht.known fun y hy => hn y (List.mem_cons_of_mem _ hy)) h₂
    have ht₂ := ht.frame s.frame
    rw [(ht₂.known (by simpa using hx) : Known [x] c₂).getOrCreateReg] at h₁
    cases h₁
    refine ⟨ht₂.assign x, ?_, s.frame.label, s.labels.plain fun l => rfl⟩
    simp only [loopLabels, markVarNumeric, markVarDirty, updateVar, s.frame.loopStack]
  · obtain ⟨ht', hl, hc, rfl⟩ := emitValueExpr_spec h₁ ht
    refine ⟨ht', by simp only [loopLabels, hl], le_of_eq hc.symm, ?_⟩
    intro l
    simp [Insn.defines]
  · have s := (sim_expr w e hnum).value (ht.known hn) h₁
    have hF : flagsAfter (.expr e) F = F := by cases e <;> simp_all [flagsAfter, Expr.numeric]
    rw [hF]
    exact .of_frame ht s.frame s.labels

theorem static_ret {e : Option (Expr D)} (w : World D) (he : numericOpt e = true)
    (hn : ∀ x ∈ optNames e, x ∈ V) (ht : Tracks V F c) (h : compileStmt (.ret e) c = .ok (c', is)) :
    StaticSim V F c c' is := by
  simp only [compileStmt, bind_ok] at h
  obtain ⟨⟨c₁, is₁, r⟩, h₁, _, _, h⟩ := h
  cases h
  have hs : StaticSim V F c c₁ is₁ := by
    cases e with
    | none =>
      cases h₁
      exact .of_frame ht (.newTemp c) (.nil fun l => rfl)
    | some e =>
      have s := (sim_expr w e he).value (ht.known hn) h₁
      exact .of_frame ht s.frame s.labels
  refine ⟨hs.tracks, hs.loops, hs.label, ?_⟩
  intro l
  have d := hs.labels l
  split <;> simpa [Insn.defines] using d

/-- **The static side of every construct.** -/
theorem sim_static (w : World D) : ∀ (s : Stmt D) {F : Flags} {c c' : Compiler} {is : List (Insn D)},
    s.script = true → (∀ x ∈ s.names, x ∈ V) → Tracks V F c → compileStmt s c = .ok (c', is) →
    StaticSim V (flagsAfter s F) c c' is
  | .skip, F, c, c', is, _, _, ht, h => by
    simp only [compileStmt] at h
    cases h
    exact .of_frame ht (.refl c) (.nil fun l => rfl)
  | .seq s t, F, c, c', is, hs, hn, ht, h => by
    simp only [Stmt.script, Bool.and_eq_true] at hs
    simp only [compileStmt, bind_ok] at h
    obtain ⟨⟨c₁, is₁⟩, h₁, ⟨c₂, is₂⟩, h₂, h⟩ := h
    cases h
    have s₁ := sim_static w s hs.1 (fun x hx => hn x (mem_append_left _ hx)) ht h₁
    exact s₁.seq (sim_static w t hs.2 (fun x hx => hn x (List.mem_append_right _ hx)) s₁.tracks h₂)
  | .expr e, F, c, c', is, hs, hn, ht, h => static_expr w hs hn ht h
  | .ifThen e t, F, c, c', is, hs, hn, ht, h => by
    simp only [Stmt.script, Bool.and_eq_true] at hs
    simp only [compileStmt, bind_ok] at h
    obtain ⟨⟨c₁, is₁⟩, h₁, _, _, ⟨c₂, is₂⟩, h₂, _, _, _, _, _, _, h⟩ := h
    cases h
    have f₀ := Frame.newLabel c
    have b := (sim_expr w e hs.1).branchFalse
      ((ht.frame f₀).known fun x hx => hn x (mem_append_left _ hx)) h₁
    have s₂ := sim_static w t hs.2 (fun x hx => hn x (List.mem_append_right _ hx))
      (ht.frame (f₀.trans b.frame)) h₂
    have e₁ := b.frame.label
    have e₂ := s₂.label
    refine ⟨s₂.tracks, s₂.loops.trans ?_, ?_, ?_⟩
    · simp only [loopLabels, (f₀.trans b.frame).loopStack]
    · exact le_trans (f₀.trans b.frame).label s₂.label
    · intro l
      have d₁ := b.labels l
      have d₂ := s₂.labels l
      simp only [newLabel, defs_append, defs_cons, defs_nil, Insn.defines, Option.some.injEq] at d₁ e₁ ⊢
      split_ifs <;> omega
  | .ifElse e t f, F, c, c', is, hs, hn, ht, h => by
    simp only [Stmt.script, Bool.and_eq_true] at hs
    simp only [compileStmt, bind_ok] at h
    obtain ⟨⟨c₁, is₁⟩, h₁, _, _, ⟨c₂, is₂⟩, h₂, _, _, _, _, c₂', hr, ⟨c₃, is₃⟩, h₃, _, _, _, _, _, _, h⟩ := h
    obtain rfl := snapshotRestore_ok hr
    cases h
    have f₀ := (Frame.newLabel c).trans (Frame.newLabel c.newLabel.1)
    have b := (sim_expr w e hs.1.1).branchFalse ((ht.frame f₀).known fun x hx =>
      hn x (mem_append_left _ (mem_append_left _ hx))) h₁
    have s₂ := sim_static w t hs.1.2
      (fun x hx => hn x (mem_append_left _ (List.mem_append_right _ hx)))
      (ht.frame (f₀.trans b.frame)) h₂
    have s₃ := sim_static w f hs.2 (fun x hx => hn x (List.mem_append_right _ hx))
      (s₂.tracks.of_vars (by rfl) (by rfl)) h₃
    have e₁ := b.frame.label
    have e₂ := s₂.label
    have e₃ := s₃.label
    refine ⟨s₃.tracks, (s₃.loops.trans s₂.loops).trans ?_, ?_, ?_⟩
    · simp only [loopLabels, (f₀.trans b.frame).loopStack]
    · exact le_trans (f₀.trans b.frame).label (le_trans e₂ e₃)
    · intro l
      have d₁ := b.labels l
      have d₂ := s₂.labels l
      have d₃ := s₃.labels l
      simp only [newLabel, defs_append, defs_cons, defs_nil, Insn.defines, Option.some.injEq,
        reduceCtorEq, if_false] at d₁ d₃ e₁ e₃ ⊢
      split_ifs <;> omega
  | .while e body, F, c, c', is, hs, hn, ht, h => by
    simp only [Stmt.script, Bool.and_eq_true] at hs
    simp only [compileStmt, bind_ok] at h
    obtain ⟨_, _, c₀, h₀, ⟨c₁, is₁⟩, h₁, ⟨c₂, is₂⟩, h₂, _, _, _, _, h⟩ := h
    obtain rfl := pushLoopFrame_ok h₀
    cases h
    have b := (sim_expr w e hs.1).branchFalse ((ht.of_vars (by rfl) (by rfl)).known fun x hx =>
      hn x (mem_append_left _ hx)) h₁
    have s₂ := sim_static w body hs.2 (fun x hx => hn x (List.mem_append_right _ hx))
      ((ht.of_vars (by rfl) (by rfl)).frame b.frame) h₂
    have e₁ := b.frame.label
    have e₂ := s₂.label
    refine ⟨s₂.tracks.of_vars rfl rfl, ?_, ?_, ?_⟩
    · have hl := s₂.loops
      simp only [loopLabels, popLoopFrame, newLabel, List.map_tail, b.frame.loopStack] at hl ⊢
      rw [hl]
      rfl
    · simp only [popLoopFrame, newLabel] at e₁ ⊢
      omega
    · intro l
      have d₁ := b.labels l
      have d₂ := s₂.labels l
      simp only [popLoopFrame, newLabel, defs_append, defs_cons, defs_nil, Insn.defines,
        Option.some.injEq, reduceCtorEq, if_false] at d₁ e₁ ⊢
      split_ifs <;> omega
  | .for init e post body, F, c, c', is, hs, hn, ht, h => by
    simp only [Stmt.script, Bool.and_eq_true] at hs
    simp only [Stmt.names, mem_append] at hn
    simp only [compileStmt, bind_ok] at h
    obtain ⟨⟨c₁, is₁⟩, h₁, ⟨c₂, is₂⟩, h₂, h⟩ := h
    cases h
    have s₁ := sim_static w init (init.script_of_basic hs.1.1.1) (fun x hx => hn x (by simp [hx])) ht h₁
    have hb : ∀ {k k' js}, Tracks V (flagsAfter init F) k → compileStmt body k = .ok (k', js) →
        StaticSim V (flagsAfter body (flagsAfter init F)) k k' js :=
      fun ht' h' => sim_static w body hs.2 (fun x hx => hn x (by simp [hx])) ht' h'
    refine s₁.seq (static_forLoop s₁.tracks ?_ hb ?_ h₂)
    · exact fun ht' h' => static_forCond w hs.1.1.2 (fun x hx => hn x (by simp [hx])) ht' h'
    · exact fun ht' h' => sim_static w post (post.script_of_basic hs.1.2) (fun x hx => hn x (by simp [hx])) ht' h'
  | .brk, _, c, _, _, _, _, ht, h | .cont, _, c, _, _, _, _, ht, h => by
    simp only [compileStmt] at h
    split at h
    · cases h
      exact .of_frame ht (.refl c) (.nil fun l => rfl)
    · obtain ⟨c₁, h₁, h⟩ := bind_ok.1 h
      obtain ⟨stack, rfl, hl⟩ := recordLoopEdge_ok h₁
      cases h
      exact ⟨ht.of_vars rfl rfl, hl, le_refl _, .nil fun l => rfl⟩
  | .ret e, F, c, c', is, hs, hn, ht, h => static_ret w hs hn ht h
  | .classDef _, _, _, _, _, hs, _, _, _ | .funcDef _, _, _, _, _, hs, _, _, _
  | .doWhile _ _, _, _, _, _, hs, _, _, _ | .forIn _ _ _, _, _, _, _, hs, _, _, _
  | .switch _ _, _, _, _, _, hs, _, _, _ => by cases hs

/-! Write-back and reload as runs. -/

/-- A binding of the source agrees with the environment; an unbound variable reads zero. -/
def Agree (a b : Option D) : Prop := (∀ v, a = some v → b = some v) ∧ (a = none → b.getD 0 = 0)

/-- Registers are current; the environment is, except for the variables in `U`. -/
structure Rel (V U : List Name) (σ : Env D) (regs : Reg → D) (env : Env D) : Prop where
  regs : ∀ x ∈ V, regs (.var x) = readVar σ x
  synced : ∀ x, x ∉ U → Agree (σ x) (env x)
  pending : ∀ x ∈ U, x ∈ V

theorem Agree.read {x : Name} (h : Agree (σ x) (env x)) : readVar env x = readVar σ x := by
  unfold readVar
  cases hx : σ x with
  | none => exact h.2 hx
  | some v => rw [h.1 v hx]

theorem Agree.of_read (σ : Env D) (x : Name) : Agree (σ x) (some (readVar σ x)) := by
  constructor
  · intro v hv
    simp [readVar, hv]
  · intro hv
    simp [readVar, hv]

theorem Rel.keeps {regs' : Reg → D} (h : Rel V U σ regs env)
    (hk : ∀ x, regs' (.var x) = regs (.var x)) : Rel V U σ regs' env :=
  { h with regs := fun x hx => (hk x).trans (h.regs x hx) }

def storeAll (regs : Reg → D) (env : Env D) : List Name → Env D
  | [] => env
  | x :: xs => storeAll regs (Function.update env x (some (regs (.var x)))) xs

theorem run_stores (w : World D) (prog post : List (Insn D)) (regs : Reg → D) : ∀ (xs : List Name)
    (env : Env D), Reaches (mstep w prog) ⟨stores xs ++ post, regs, env⟩ ⟨post, regs, storeAll regs env xs⟩
  | [], _ => .refl _
  | _ :: xs, _ => .head rfl (run_stores w prog post regs xs _)

theorem storeAll_apply (regs : Reg → D) (y : Name) : ∀ (xs : List Name) (env : Env D),
    storeAll regs env xs y = if y ∈ xs then some (regs (.var y)) else env y
  | [], env => by simp [storeAll]
  | x :: xs, env => by
    rw [storeAll, storeAll_apply regs y xs]
    by_cases hy : y ∈ xs
    · simp [hy]
    · by_cases hyx : y = x
      · subst hyx; simp [hy]
      · simp [hy, hyx]

/-- **A covering write-back brings the environment up to date.** -/
theorem Rel.writeBack {xs : List Name} (h : Rel V U σ regs env) (hU : ∀ x ∈ U, x ∈ xs)
    (hV : ∀ x ∈ xs, x ∈ V) : Rel V [] σ regs (storeAll regs env xs) where
  regs := h.regs
  synced := by
    intro x _
    rw [storeAll_apply]
    split
    · rename_i hx
      rw [h.regs x (hV x hx)]
      exact Agree.of_read σ x
    · rename_i hx
      exact h.synced x fun hu => hx (hU x hu)
  pending := by simp

def loadAll (regs : Reg → D) (env : Env D) : List Name → Reg → D
  | [] => regs
  | x :: xs => loadAll (Function.update regs (.var x) (readVar env x)) env xs

theorem run_loads (w : World D) (prog post : List (Insn D)) (env : Env D) : ∀ (xs : List Name)
    (regs : Reg → D), Reaches (mstep w prog) ⟨loads xs ++ post, regs, env⟩ ⟨post, loadAll regs env xs, env⟩
  | [], _ => .refl _
  | _ :: xs, _ => .head rfl (run_loads w prog post env xs _)

theorem loadAll_apply (env : Env D) (y : Name) : ∀ (xs : List Name) (regs : Reg → D),
    loadAll regs env xs (.var y) = if y ∈ xs then readVar env y else regs (.var y)
  | [], regs => by simp [loadAll]
  | x :: xs, regs => by
    rw [loadAll, loadAll_apply env y xs]
    by_cases hy : y ∈ xs
    · simp [hy]
    · by_cases hyx : y = x
      · subst hyx; simp [hy]
      · have hne : (Reg.var y) ≠ .var x := by simpa using hyx
        simp [hy, hyx, hne]

theorem Rel.reload (regs : Reg → D) (h : ∀ x, Agree (σ x) (env x)) :
    Rel V [] σ (loadAll regs env V) env where
  regs := by
    intro x hx
    rw [loadAll_apply, if_pos hx]
    exact (h x).read
  synced := fun x _ => h x
  pending := by simp

theorem agree_bindAll : ∀ (ws : List (Name × D)) {σ env : Env D}, (∀ x, Agree (σ x) (env x)) →
    ∀ x, Agree (bindAll σ ws x) (bindAll env ws x)
  | [], _, _, h => h
  | (y, v) :: ws, σ, env, h => by
    apply agree_bindAll ws
    intro x
    by_cases hx : x = y
    · subst hx
      simp [Agree]
    · simpa [hx] using h x

theorem run_helper {node : NodeId} {r : Reg} (w : World D) (prog post : List (Insn D))
    (h : emitValueExpr node c = .ok (c', is, r)) (ht : Tracks V F c) (hR : Rel V U σ regs env)
    (hcov : ∀ x ∈ U, F x = true) :
    ∃ regs' env', Reaches (mstep w prog) ⟨is ++ post, regs, env⟩ ⟨post, regs', env'⟩ ∧
      Rel V [] (bindAll σ (w.helper node (readVar σ)).1) regs' env' := by
  obtain ⟨-, -, -, rfl⟩ := emitValueExpr_spec h ht
  have hW : Rel V [] σ regs (storeAll regs env c.dirtyVars) := by
    refine hR.writeBack (fun x hx => ?_) fun x hx => ((ht.mem_dirtyVars x).1 hx).1
    exact (ht.mem_dirtyVars x).2 ⟨hR.pending x hx, hcov x hx⟩
  have hread : readVar (storeAll regs env c.dirtyVars) = readVar σ :=
    funext fun x => (hW.synced x (by simp)).read
  have hA := agree_bindAll (w.helper node (readVar σ)).1 fun x => hW.synced x (by simp)
  rw [append_assoc]
  refine ⟨_, _, (run_stores w prog _ regs _ env).trans (.head rfl (.head rfl (run_loads w prog post _ V _))), ?_⟩
  rw [hread]
  exact .reload _ hA

/-! The dynamic side. -/

theorem pendingAfter_append : ∀ (tr tr' : List Event) (U : List Name),
    pendingAfter U (tr ++ tr') = pendingAfter (pendingAfter U tr) tr'
  | [], _, _ => rfl
  | .assign _ :: tr, tr', _ | .writeBack _ :: tr, tr', _ => pendingAfter_append tr tr' _

theorem covered_append : ∀ (tr tr' : List Event) (U : List Name),
    Covered U (tr ++ tr') ↔ Covered U tr ∧ Covered (pendingAfter U tr) tr'
  | [], _, _ => by simp [Covered, pendingAfter]
  | .assign _ :: tr, tr', _ => covered_append tr tr' _
  | .writeBack _ :: tr, tr', _ => by
    simp only [cons_append, Covered, pendingAfter, covered_append tr tr', and_assoc]

/-- Where the code of a statement ends: after it, at the label of the innermost loop, or at
    a return. -/
def Lands (prog post : List (Insn D)) (ls : List (Label × Label)) : Outcome → List (Insn D) → Prop
  | .normal, code => code = post
  | .brk, code => ∃ b k rest, ls = (b, k) :: rest ∧ seek Insn.defines b prog = some code
  | .cont, code => ∃ b k rest, ls = (b, k) :: rest ∧ seek Insn.defines k prog = some code
  | .ret, code => ∃ r rest, code = .ret r :: rest

/-- The labels of the innermost loop are in the program, and there is such a loop when the
    outcome is about one. -/
structure Targets (prog : List (Insn D)) (ls : List (Label × Label)) (o : Outcome) : Prop where
  found : ∀ b k rest, ls = (b, k) :: rest →
    (∃ t, seek Insn.defines b prog = some t) ∧ ∃ t, seek Insn.defines k prog = some t
  inLoop : o = .brk ∨ o = .cont → ls ≠ []

structure Placed (prog code : List (Insn D)) : Prop where
  nodup : (Lib.labels Insn.defines prog).Nodup
  suffix : code <:+ prog

theorem Placed.tail {js : List (Insn D)} (h : Placed prog (is ++ js)) : Placed prog js :=
  ⟨h.nodup, suffix_tail h.suffix⟩

theorem Placed.next {js : List (Insn D)} {i : Insn D} (h : Placed prog (i :: js)) : Placed prog js :=
  ⟨h.nodup, (List.suffix_cons _ _).trans h.suffix⟩

theorem Placed.seek {js : List (Insn D)} {l : Nat} (h : Placed prog (.label l :: js)) :
    Lib.seek Insn.defines l prog = some (.label l :: js) :=
  seek_of_suffix h.suffix h.nodup rfl

/-- After a return nothing is left to write back. -/
def leftOver : Outcome → List Name → List Name
  | .ret, _ => []
  | _, U => U

/-- The machine, started at `code`, ends as the source run does. -/
def Follows (w : World D) (V : List Name) (prog code post : List (Insn D)) (ls : List (Label × Label))
    (regs : Reg → D) (env : Env D) (o : Outcome) (U : List Name) (σ : Env D) : Prop :=
  ∃ code' regs' env', Reaches (mstep w prog) ⟨code, regs, env⟩ ⟨code', regs', env'⟩ ∧
    Lands prog post ls o code' ∧ Rel V (leftOver o U) σ regs' env'

theorem Follows.after {w : World D} {code code₁ : List (Insn D)} {regs₁ : Reg → D} {env₁ : Env D}
    (h : Reaches (mstep w prog) ⟨code, regs, env⟩ ⟨code₁, regs₁, env₁⟩)
    (hf : Follows w V prog code₁ post ls regs₁ env₁ o U σ) :
    Follows w V prog code post ls regs env o U σ := by
  obtain ⟨code', regs', env', hr, hl, hR⟩ := hf
  exact ⟨code', regs', env', h.trans hr, hl, hR⟩

theorem Follows.normal {w : World D} {code : List (Insn D)}
    (h : Follows w V prog code post ls regs env .normal U σ) :
    ∃ regs' env', Reaches (mstep w prog) ⟨code, regs, env⟩ ⟨post, regs', env'⟩ ∧ Rel V U σ regs' env' := by
  obtain ⟨_, regs', env', hr, rfl, hR⟩ := h
  exact ⟨regs', env', hr, hR⟩

theorem Follows.abrupt {w : World D} {code mid : List (Insn D)} (ho : o ≠ .normal)
    (h : Follows w V prog code mid ls regs env o U σ) :
    Follows w V prog code post ls regs env o U σ := by
  obtain ⟨code', regs', env', hr, hl, hR⟩ := h
  refine ⟨code', regs', env', hr, ?_, hR⟩
  cases o with
  | normal => exact absurd rfl ho
  | brk | cont | ret => exact hl

theorem Follows.leave {w : World D} {code mid : List (Insn D)}
    (h : Follows w V prog code mid ls regs env o U σ)
    (hstep : ∀ regs env, Reaches (mstep w prog) ⟨mid, regs, env⟩ ⟨post, regs, env⟩) :
    Follows w V prog code post ls regs env o U σ := by
  by_cases ho : o = .normal
  · subst ho
    obtain ⟨regs', env', hr, hR⟩ := h.normal
    exact ⟨post, regs', env', hr.trans (hstep regs' env'), rfl, hR⟩
  · exact h.abrupt ho

theorem Follows.jump {w : World D} {code target : List (Insn D)} {b k : Label}
    {outer : List (Label × Label)} (h : Follows w V prog code post ls regs env o U σ)
    (hls : ls = (b, k) :: outer)
    (ht : o = .brk ∧ seek Insn.defines b prog = some target ∨
      o = .cont ∧ seek Insn.defines k prog = some target) :
    ∃ regs' env', Reaches (mstep w prog) ⟨code, regs, env⟩ ⟨target, regs', env'⟩ ∧
      Rel V U σ regs' env' := by
  obtain ⟨code', regs', env', hr, hl, hR⟩ := h
  rcases ht with ⟨rfl, hseek⟩ | ⟨rfl, hseek⟩
  all_goals
    obtain ⟨_, _, _, hl, hcode⟩ := hl
    rw [hls] at hl
    cases hl
    obtain rfl := Option.some.inj (hcode.symm.trans hseek)
    exact ⟨regs', env', hr, hR⟩

/-- The statement code simulates runs of fuel `n`. -/
def StmtSim (w : World D) (V : List Name) (n : Nat) : Prop :=
  ∀ {s : Stmt D} {F : Flags} {c c' : Compiler} {is : List (Insn D)} {σ σ' : Env D} {o : Outcome}
    {tr : List Event} {U : List Name} {prog post : List (Insn D)} {regs : Reg → D} {env : Env D},
    s.script = true → (∀ x ∈ s.names, x ∈ V) → Tracks V F c → compileStmt s c = .ok (c', is) →
    exec w n s F σ = some (o, σ', tr) → Covered U tr → Rel V U σ regs env →
    Placed prog (is ++ post) → Targets prog (loopLabels c) o →
    Follows w V prog (is ++ post) post (loopLabels c) regs env o (pendingAfter U tr) σ'

def ForSim (w : World D) (V : List Name) (n : Nat) : Prop :=
  ∀ {e : Option (Expr D)} {post body : Stmt D} {F : Flags} {c c' : Compiler} {is : List (Insn D)}
    {σ σ' : Env D} {o : Outcome} {tr : List Event} {U : List Name} {prog rest : List (Insn D)}
    {regs : Reg → D} {env : Env D},
    numericOpt e = true → post.basic = true → body.script = true →
    (∀ x ∈ optNames e ++ post.names ++ body.names, x ∈ V) → Tracks V F c →
    emitForLoop (compileForCond e) (compileStmt body) (compileStmt post) c = .ok (c', is) →
    execFor w n e post body F σ = some (o, σ', tr) → Covered U tr → Rel V U σ regs env →
    Placed prog (is ++ rest) → Targets prog (loopLabels c) o →
    Follows w V prog (is ++ rest) rest (loopLabels c) regs env o (pendingAfter U tr) σ'

theorem Rel.eval (h : Rel V U σ regs env) (w : World D) :
    ∀ e : Expr D, (∀ x ∈ e.names, x ∈ V) → e.numeric = true →
      evalExpr w (fun x => regs (.var x)) e = evalExpr w (readVar σ) e
  | .num _, _, _ => rfl
  | .var x, hn, _ => h.regs x (hn x (List.mem_singleton.2 rfl))
  | .neg e, hn, hs | .not e, hn, hs | .plus e, hn, hs => by
    simp only [evalExpr, h.eval w e hn hs]
  | .arith _ l r, hn, hs | .cmp _ l r, hn, hs | .and l r, hn, hs | .or l r, hn, hs => by
    simp only [Expr.numeric, Bool.and_eq_true] at hs
    simp only [Expr.names, List.mem_append] at hn
    simp only [evalExpr, h.eval w l (fun x hx => hn x (.inl hx)) hs.1,
      h.eval w r (fun x hx => hn x (.inr hx)) hs.2]
  | .ite c t e, hn, hs => by
    simp only [Expr.numeric, Bool.and_eq_true] at hs
    simp only [Expr.names, List.mem_append] at hn
    simp only [evalExpr, h.eval w c (fun x hx => hn x (.inl (.inl hx))) hs.1.1,
      h.eval w t (fun x hx => hn x (.inl (.inr hx))) hs.1.2,
      h.eval w e (fun x hx => hn x (.inr hx)) hs.2]
  | .iteNoElse c t, hn, hs => by
    simp only [Expr.numeric, Bool.and_eq_true] at hs
    simp only [Expr.names, List.mem_append] at hn
    simp only [evalExpr, h.eval w c (fun x hx => hn x (.inl hx)) hs.1,
      h.eval w t (fun x hx => hn x (.inr hx)) hs.2]
  | .assign _ _, _, hs | .value _ _, _, hs | .valueAssign _ _ _, _, hs | .throw _ _, _, hs
  | .call _ _ _ _, _, hs | .unsupported _, _, hs => by cases hs

theorem run_cond {target : List (Insn D)} (w : World D) (he : e.numeric = true)
    (hn : ∀ x ∈ e.names, x ∈ V) (ht : Tracks V F c) (h : compileBranchFalse e l c = .ok (c', is))
    (hR : Rel V U σ regs env) (hp : Placed prog (is ++ post))
    (hl : seek Insn.defines l prog = some target) :
    ∃ regs', Reaches (mstep w prog) ⟨is ++ post, regs, env⟩
        ⟨if evalExpr w (readVar σ) e ≠ 0 then post else target, regs', env⟩ ∧ Rel V U σ regs' env := by
  have b := (sim_expr w e he).branchFalse (ht.known hn) h
  obtain ⟨regs', hr, hk⟩ := b.run prog post target regs env hp.nodup hp.suffix hl
  refine ⟨regs', ?_, hR.keeps hk.var⟩
  rw [hR.eval w e hn he] at hr
  by_cases h0 : evalExpr w (readVar σ) e = 0 <;> simpa [h0] using hr

theorem run_forCond {e : Option (Expr D)} {target : List (Insn D)} (w : World D)
    (he : numericOpt e = true) (hn : ∀ x ∈ optNames e, x ∈ V) (ht : Tracks V F c)
    (h : compileForCond e l c = .ok (c', is)) (hR : Rel V U σ regs env)
    (hp : Placed prog (is ++ post)) (hl : seek Insn.defines l prog = some target) :
    ∃ regs', Reaches (mstep w prog) ⟨is ++ post, regs, env⟩
        ⟨if evalCond w (readVar σ) e then post else target, regs', env⟩ ∧ Rel V U σ regs' env := by
  cases e with
  | none =>
    cases h
    exact ⟨regs, .refl _, hR⟩
  | some e => simpa [evalCond] using run_cond w he hn ht h hR hp hl

theorem follow_assign {x : Name} (w : World D) (he : e.numeric = true)
    (hn : ∀ y ∈ (Expr.assign x e).names, y ∈ V) (ht : Tracks V F c)
    (h : compileStmt (.expr (.assign x e)) c = .ok (c', is)) (hR : Rel V U σ regs env)
    (hp : Placed prog (is ++ post)) :
    Follows w V prog (is ++ post) post ls regs env .normal (x :: U)
      (Function.update σ x (some (evalExpr w (readVar σ) e))) := by
  have hx : x ∈ V := hn x (List.mem_cons_self ..)
  have hne : ∀ y ∈ e.names, y ∈ V := fun y hy => hn y (List.mem_cons_of_mem _ hy)
  simp only [compileStmt, compileExpr, lowering, Lowering.ofValue, lowerAssign, bind_ok] at h
  obtain ⟨⟨c₁, is₁, r⟩, ⟨⟨c₂, is₂, r₂⟩, h₂, h₁⟩, h⟩ := h
  cases h₁
  cases h
  have s := (sim_expr w e he).value (ht.known hne) h₂
  simp only [append_assoc] at hp ⊢
  obtain ⟨regs₁, hr₁, hv₁, hk₁⟩ := s.run prog _ regs env hp.nodup hp.suffix
  refine ⟨post, _, env, hr₁.trans (.one rfl), rfl, ?_⟩
  rw [hR.eval w e hne he] at hv₁
  refine ⟨fun y hy => ?_, fun y hy => ?_, fun y hy => ?_⟩
  · by_cases hyx : y = x
    · subst hyx
      simp [readVar, Operand.eval, hv₁]
    · have hne' : (Reg.var y) ≠ .var x := by simpa using hyx
      simp [readVar, hyx, hne', hk₁.var y, hR.regs y hy]
  · simp only [leftOver, List.mem_cons, not_or] at hy
    simpa [hy.1] using hR.synced y hy.2
  · rcases List.mem_cons.1 hy with rfl | hy
    · exact hx
    · exact hR.pending y hy

theorem follow_ret {e : Option (Expr D)} (w : World D) (he : numericOpt e = true)
    (hn : ∀ y ∈ optNames e, y ∈ V) (ht : Tracks V F c) (h : compileStmt (.ret e) c = .ok (c', is))
    (hR : Rel V U σ regs env) (hp : Placed prog (is ++ post)) (hcov : ∀ x ∈ U, F x = true) :
    Follows w V prog (is ++ post) post ls regs env .ret [] σ := by
  simp only [compileStmt, bind_ok] at h
  obtain ⟨⟨c₁, is₁, r⟩, h₁, _, _, h⟩ := h
  have hval : Tracks V F c₁ ∧ ∀ tail, Placed prog (is₁ ++ tail) →
      ∃ regs₁, Reaches (mstep w prog) ⟨is₁ ++ tail, regs, env⟩ ⟨tail, regs₁, env⟩ ∧ Rel V U σ regs₁ env := by
    cases e with
    | none =>
      cases h₁
      refine ⟨ht.frame (.newTemp c), fun tail _ => ⟨_, .one rfl, hR.keeps ?_⟩⟩
      exact (Keeps.update (Nat.zero_le _) regs _).var
    | some e =>
      have s := (sim_expr w e he).value (ht.known hn) h₁
      refine ⟨ht.frame s.frame, fun tail hp' => ?_⟩
      obtain ⟨regs₁, hr₁, -, hk₁⟩ := s.run prog tail regs env hp'.nodup hp'.suffix
      exact ⟨regs₁, hr₁, hR.keeps hk₁.var⟩
  obtain ⟨ht₁, hrun⟩ := hval
  simp only [ht₁.ctxReg, if_true, Except.ok.injEq, Prod.mk.injEq] at h
  obtain ⟨rfl, rfl⟩ := h
  simp only [append_assoc] at hp ⊢
  obtain ⟨regs₁, hr₁, hR₁⟩ := hrun _ hp
  refine ⟨_, _, _, hr₁.trans (run_stores w prog _ regs₁ _ env), ⟨r, post, rfl⟩, ?_⟩
  refine hR₁.writeBack (fun x hx => ?_) fun x hx => ((ht₁.mem_dirtyVars x).1 hx).1
  exact (ht₁.mem_dirtyVars x).2 ⟨hR.pending x hx, hcov x hx⟩

theorem follow_jump {frame : LoopFrame} {outer : List LoopFrame} (w : World D)
    (hst : c.loopStack = frame :: outer)
    (hl : (o = .brk ∧ l = frame.breakLabel) ∨ (o = .cont ∧ l = frame.continueLabel))
    (hR : Rel V U σ regs env) (hT : Targets prog (loopLabels c) o) :
    Follows w V prog (.jmp l :: post) post (loopLabels c) regs env o U σ := by
  have hls : loopLabels c = (frame.breakLabel, frame.continueLabel) :: outer.map
      fun f => (f.breakLabel, f.continueLabel) := by simp only [loopLabels, hst, List.map_cons]
  obtain ⟨⟨tb, hb⟩, tk, hk⟩ := hT.found _ _ _ hls
  rcases hl with ⟨rfl, rfl⟩ | ⟨rfl, rfl⟩
  · exact ⟨tb, regs, env, .one (mstep_jmp hb), ⟨_, _, _, hls, hb⟩, hR⟩
  · exact ⟨tk, regs, env, .one (mstep_jmp hk), ⟨_, _, _, hls, hk⟩, hR⟩

theorem Targets.congr {ls' : List (Label × Label)} (h : Targets prog ls o) (he : ls' = ls) :
    Targets prog ls' o := by
  rw [he]
  exact h

theorem Targets.loop {tb tk : List (Insn D)} {b k : Label}
    (hb : seek Insn.defines b prog = some tb) (hk : seek Insn.defines k prog = some tk)
    (o : Outcome) :
    Targets prog ((b, k) :: ls) o where
  found := by
    rintro b' k' rest ⟨⟩
    exact ⟨⟨tb, hb⟩, tk, hk⟩
  inLoop := fun _ h => by cases h

section Constructs
variable {w : World D} (ih : StmtSim w V n) (ht : Tracks V F c) (hc : Covered U tr)
  (hR : Rel V U σ regs env) (hp : Placed prog (is ++ post)) (hT : Targets prog (loopLabels c) o)
include ih ht hc hR hp hT

theorem follow_seq {s t : Stmt D}
    (hs : (Stmt.seq s t).script = true) (hn : ∀ x ∈ (Stmt.seq s t).names, x ∈ V)
    (h : compileStmt (.seq s t) c = .ok (c', is))
    (hx : exec w (n + 1) (.seq s t) F σ = some (o, σ', tr)) :
    Follows w V prog (is ++ post) post (loopLabels c) regs env o (pendingAfter U tr) σ' := by
  simp only [Stmt.script, Bool.and_eq_true] at hs
  simp only [Stmt.names, mem_append] at hn
  simp only [compileStmt, bind_ok] at h
  obtain ⟨⟨c₁, is₁⟩, h₁, ⟨c₂, is₂⟩, h₂, h⟩ := h
  cases h
  have st₁ := sim_static w s hs.1 (fun x hx => hn x (.inl hx)) ht h₁
  rw [append_assoc] at hp ⊢
  simp only [exec] at hx
  -- either the first part ends normally and the second runs, or its outcome is the result
  rcases he : exec w n s F σ with _ | ⟨o₁, σ₁, tr₁⟩
  · simp only [he] at hx
    cases hx
  · by_cases ho : o₁ = .normal
    · subst ho
      simp only [he] at hx
      obtain ⟨tr₂, hx₂, rfl⟩ := prepend_eq_some hx
      rw [covered_append] at hc
      rw [pendingAfter_append]
      have hf₁ := ih hs.1 (fun x hx => hn x (.inl hx)) ht h₁ he hc.1 hR hp
        ⟨hT.found, fun h => by rcases h with h | h <;> cases h⟩
      obtain ⟨regs₁, env₁, hr₁, hR₁⟩ := hf₁.normal
      refine .after hr₁ ?_
      rw [← st₁.loops]
      exact ih hs.2 (fun x hx => hn x (.inr hx)) st₁.tracks h₂ hx₂ hc.2 hR₁ hp.tail (hT.congr st₁.loops)
    · have hx' : some (o₁, σ₁, tr₁) = some (o, σ', tr) := by
        cases o₁ with
        | normal => exact absurd rfl ho
        | brk | cont | ret => simpa only [he] using hx
      cases hx'
      exact (ih hs.1 (fun x hx => hn x (.inl hx)) ht h₁ he hc hR hp hT).abrupt ho

theorem follow_ifThen {t : Stmt D}
    (hs : (Stmt.ifThen e t).script = true) (hn : ∀ x ∈ (Stmt.ifThen e t).names, x ∈ V)
    (h : compileStmt (.ifThen e t) c = .ok (c', is))
    (hx : exec w (n + 1) (.ifThen e t) F σ = some (o, σ', tr)) :
    Follows w V prog (is ++ post) post (loopLabels c) regs env o (pendingAfter U tr) σ' := by
  simp only [Stmt.script, Bool.and_eq_true] at hs
  simp only [Stmt.names, mem_append] at hn
  simp only [compileStmt, bind_ok] at h
  obtain ⟨⟨c₁, is₁⟩, h₁, _, _, ⟨c₂, is₂⟩, h₂, _, _, _, _, _, _, h⟩ := h
  cases h
  have f₀ := Frame.newLabel c
  have b := (sim_expr w e hs.1).branchFalse ((ht.frame f₀).known fun x hx => hn x (.inl hx)) h₁
  have hls : loopLabels c₁ = loopLabels c := by simp only [loopLabels, (f₀.trans b.frame).loopStack]
  simp only [append_assoc, List.singleton_append] at hp ⊢
  obtain ⟨regs₁, hr₁, hR₁⟩ := run_cond w hs.1 (fun x hx => hn x (.inl hx)) (ht.frame f₀) h₁ hR hp
    hp.tail.tail.seek
  simp only [exec] at hx
  split at hx
  · rename_i h0
    rw [if_pos h0] at hr₁
    refine .after hr₁ ?_
    rw [← hls]
    have hf := ih hs.2 (fun x hx => hn x (.inr hx)) (ht.frame (f₀.trans b.frame)) h₂ hx hc hR₁ hp.tail
      (hT.congr hls)
    exact hf.leave fun _ _ => .one rfl
  · rename_i h0
    rw [if_neg h0] at hr₁
    cases hx
    exact ⟨post, regs₁, env, hr₁.trans (.one rfl), rfl, hR₁⟩

theorem follow_ifElse {t f : Stmt D}
    (hs : (Stmt.ifElse e t f).script = true) (hn : ∀ x ∈ (Stmt.ifElse e t f).names, x ∈ V)
    (h : compileStmt (.ifElse e t f) c = .ok (c', is))
    (hx : exec w (n + 1) (.ifElse e t f) F σ = some (o, σ', tr)) :
    Follows w V prog (is ++ post) post (loopLabels c) regs env o (pendingAfter U tr) σ' := by
  simp only [Stmt.script, Bool.and_eq_true] at hs
  simp only [Stmt.names, mem_append] at hn
  simp only [compileStmt, bind_ok] at h
  obtain ⟨⟨c₁, is₁⟩, h₁, _, _, ⟨c₂, is₂⟩, h₂, _, _, _, _, c₂', hr, ⟨c₃, is₃⟩, h₃, _, _, _, _, _, _, h⟩ := h
  obtain rfl := snapshotRestore_ok hr
  cases h
  have f₀ := (Frame.newLabel c).trans (Frame.newLabel c.newLabel.1)
  have b := (sim_expr w e hs.1.1).branchFalse ((ht.frame f₀).known fun x hx => hn x (.inl (.inl hx))) h₁
  have hls : loopLabels c₁ = loopLabels c := by simp only [loopLabels, (f₀.trans b.frame).loopStack]
  have st₂ := sim_static w t hs.1.2 (fun x hx => hn x (.inl (.inr hx))) (ht.frame (f₀.trans b.frame)) h₂
  simp only [append_assoc, cons_append, nil_append] at hp ⊢
  have hpElse := hp.tail.tail.next
  have hpEnd := hpElse.next.tail
  obtain ⟨regs₁, hr₁, hR₁⟩ := run_cond w hs.1.1 (fun x hx => hn x (.inl (.inl hx))) (ht.frame f₀) h₁ hR hp
    hpElse.seek
  simp only [exec] at hx
  split at hx
  · rename_i h0
    rw [if_pos h0] at hr₁
    refine .after hr₁ ?_
    rw [← hls]
    have hf := ih hs.1.2 (fun x hx => hn x (.inl (.inr hx))) (ht.frame (f₀.trans b.frame)) h₂ hx hc hR₁
      hp.tail (hT.congr hls)
    exact hf.leave fun _ _ => .head (mstep_jmp hpEnd.seek) (.one rfl)
  · rename_i h0
    rw [if_neg h0] at hr₁
    refine .after (hr₁.trans (.one rfl)) ?_
    have hls₂ := st₂.loops.trans hls
    rw [← hls₂]
    have hf := ih hs.2 (fun x hx => hn x (.inr hx)) (st₂.tracks.of_vars (by rfl) (by rfl)) h₃ hx hc hR₁
      hpElse.next (hT.congr hls₂)
    exact hf.leave fun _ _ => .one rfl

theorem follow_while {body : Stmt D}
    (hs : (Stmt.while e body).script = true) (hn : ∀ x ∈ (Stmt.while e body).names, x ∈ V)
    (h : compileStmt (.while e body) c = .ok (c', is))
    (hx : exec w (n + 1) (.while e body) F σ = some (o, σ', tr)) :
    Follows w V prog (is ++ post) post (loopLabels c) regs env o (pendingAfter U tr) σ' := by
  have hs' := hs
  have hn' := hn
  have h' := h
  simp only [Stmt.script, Bool.and_eq_true] at hs
  simp only [Stmt.names, mem_append] at hn
  simp only [compileStmt, bind_ok] at h
  obtain ⟨_, _, c₀, h₀, ⟨c₁, is₁⟩, h₁, ⟨c₂, is₂⟩, h₂, _, _, _, _, h⟩ := h
  cases h
  have f₀ := (Frame.newLabel c).trans (Frame.newLabel c.newLabel.1)
  obtain ⟨ht₀, hl₀⟩ := pushLoopFrame_spec h₀ (ht.frame f₀)
  have b := (sim_expr w e hs.1).branchFalse (ht₀.known fun x hx => hn x (.inl hx)) h₁
  have hls : loopLabels c₁ = (c.newLabel.1.newLabel.2, c.newLabel.2) :: loopLabels c := by
    simp only [loopLabels, b.frame.loopStack]
    exact hl₀
  have hp' := hp
  simp only [append_assoc, cons_append, nil_append] at hp ⊢
  have hloop := hp.seek
  have hend := hp.next.tail.tail.next.seek
  obtain ⟨regs₁, hr₁, hR₁⟩ := run_cond w hs.1 (fun x hx => hn x (.inl hx)) ht₀ h₁ hR hp.next hend
  have hstart := Reaches.head (mstep_label w prog _ c.newLabel.2 regs env) hr₁
  simp only [exec] at hx
  split at hx
  · rename_i h0
    rw [if_pos h0] at hstart
    refine .after hstart ?_
    -- back at the head of the loop the statement runs again, with the same code and flags
    have again : ∀ {tr₁ tr₂ σ₁ regs₂ env₂}, exec w n (.while e body) F σ₁ = some (o, σ', tr₂) →
        Covered (pendingAfter U tr₁) tr₂ → Rel V (pendingAfter U tr₁) σ₁ regs₂ env₂ →
        Follows w V prog (.label c.newLabel.2 :: (is₁ ++ (is₂ ++ .jmp c.newLabel.2 ::
          .label c.newLabel.1.newLabel.2 :: post))) post (loopLabels c) regs₂ env₂ o
          (pendingAfter U (tr₁ ++ tr₂)) σ' := by
      intro tr₁ tr₂ σ₁ regs₂ env₂ hx₂ hc₂ hR₂
      rw [pendingAfter_append]
      have hf := ih hs' hn' ht h' hx₂ hc₂ hR₂ hp' hT
      simpa only [append_assoc, cons_append, nil_append] using hf
    rcases he : exec w n body F σ with _ | ⟨o₁, σ₁, tr₁⟩
    · simp only [he] at hx
      cases hx
    · have hbody : Covered U tr₁ → Follows w V prog _ _ (loopLabels c₁) regs₁ env o₁ _ σ₁ := fun hc₁ =>
        ih hs.2 (fun x hx => hn x (.inr hx)) (ht₀.frame b.frame) h₂ he hc₁ hR₁ hp.next.tail
          ((Targets.loop hend hloop o₁).congr hls)
      cases o₁ with
      | normal =>
        simp only [he] at hx
        obtain ⟨tr₂, hx₂, rfl⟩ := prepend_eq_some hx
        rw [covered_append] at hc
        obtain ⟨regs₂, env₂, hr₂, hR₂⟩ := (hbody hc.1).normal
        exact .after (hr₂.trans (.one (mstep_jmp hloop))) (again hx₂ hc.2 hR₂)
      | cont =>
        simp only [he] at hx
        obtain ⟨tr₂, hx₂, rfl⟩ := prepend_eq_some hx
        rw [covered_append] at hc
        obtain ⟨regs₂, env₂, hr₂, hR₂⟩ := (hbody hc.1).jump hls (.inr ⟨rfl, hloop⟩)
        exact .after hr₂ (again hx₂ hc.2 hR₂)
      | brk =>
        simp only [he] at hx
        cases hx
        obtain ⟨regs₂, env₂, hr₂, hR₂⟩ := (hbody hc).jump hls (.inl ⟨rfl, hend⟩)
        exact ⟨post, regs₂, env₂, hr₂.trans (.one rfl), rfl, hR₂⟩
      | ret =>
        simp only [he] at hx
        cases hx
        exact hbody hc
  · rename_i h0
    rw [if_neg h0] at hstart
    cases hx
    exact ⟨post, regs₁, env, hstart.trans (.one rfl), rfl, hR₁⟩

end Constructs

theorem exec_basic (w : World D) : ∀ (n : Nat) (s : Stmt D), s.basic = true → ∀ {F : Flags} {σ σ' : Env D}
    {o : Outcome} {tr : List Event}, exec w n s F σ = some (o, σ', tr) → o = .normal
  | 0, _, _, _, _, _, _, _, h => by cases h
  | n + 1, .skip, _, _, _, _, _, _, h => by
    simp only [exec] at h
    cases h
    rfl
  | n + 1, .seq s t, hs, F, σ, _, _, _, h => by
    simp only [Stmt.basic, Bool.and_eq_true] at hs
    simp only [exec] at h
    rcases he : exec w n s F σ with _ | ⟨o₁, σ₁, tr₁⟩
    · simp only [he] at h
      cases h
    · obtain rfl := exec_basic w n s hs.1 he
      simp only [he] at h
      obtain ⟨_, h₂, -⟩ := prepend_eq_some h
      exact exec_basic w n t hs.2 h₂
  | n + 1, .expr e, hs, _, _, _, _, _, h => by
    cases e <;> simp only [exec] at h <;> cases h <;> rfl
  | _ + 1, .classDef _, h, _, _, _, _, _, _ | _ + 1, .funcDef _, h, _, _, _, _, _, _
  | _ + 1, .ifThen _ _, h, _, _, _, _, _, _ | _ + 1, .ifElse _ _ _, h, _, _, _, _, _, _
  | _ + 1, .while _ _, h, _, _, _, _, _, _ | _ + 1, .for _ _ _ _, h, _, _, _, _, _, _
  | _ + 1, .doWhile _ _, h, _, _, _, _, _, _ | _ + 1, .brk, h, _, _, _, _, _, _
  | _ + 1, .cont, h, _, _, _, _, _, _ | _ + 1, .ret _, h, _, _, _, _, _, _
  | _ + 1, .forIn _ _ _, h, _, _, _, _, _, _ | _ + 1, .switch _ _, h, _, _, _, _, _, _ => by cases h

theorem trace_prefix {tr₁ : List Event} {q : RunResult D} {next : Env D → RunResult D} (h : (match q with
      | some (.normal, σ₂, tr₂) => prepend (tr₁ ++ tr₂) (next σ₂)
      | r => prepend tr₁ r) = some (o, σ', tr)) : ∃ tr₂, tr = tr₁ ++ tr₂ := by
  split at h
  · obtain ⟨tr₃, -, rfl⟩ := prepend_eq_some h
    exact ⟨_, append_assoc _ _ _⟩
  · obtain ⟨tr₃, -, rfl⟩ := prepend_eq_some h
    exact ⟨tr₃, rfl⟩

theorem follow_forLoop (w : World D) (ih : StmtSim w V n) (ihF : ForSim w V n) : ForSim w V (n + 1) := by
  intro e post body F c c' is σ σ' o tr U prog rest regs env he hpost hbody hn ht h hx hc hR hp hT
  have hn' := hn
  have h' := h
  simp only [mem_append] at hn
  simp only [emitForLoop, bind_ok] at h
  obtain ⟨_, _, c₀, h₀, ⟨c₁, is₁⟩, h₁, ⟨c₂, is₂⟩, h₂, _, _, ⟨c₃, is₃⟩, h₃, _, _, _, _, h⟩ := h
  cases h
  have f₀ := ((Frame.newLabel c).trans (Frame.newLabel _)).trans (Frame.newLabel c.newLabel.1.newLabel.1)
  obtain ⟨ht₀, hl₀⟩ := pushLoopFrame_spec h₀ (ht.frame f₀)
  have st₁ := static_forCond w he (fun x hx => hn x (.inl (.inl hx))) ht₀ h₁
  have st₂ := sim_static w body hbody (fun x hx => hn x (.inr hx)) st₁.tracks h₂
  have hls : loopLabels c₁ =
      (c.newLabel.1.newLabel.1.newLabel.2, c.newLabel.1.newLabel.2) :: loopLabels c :=
    st₁.loops.trans hl₀
  have hp' := hp
  simp only [append_assoc, cons_append, nil_append] at hp ⊢
  have hloop := hp.seek
  have hcont := hp.next.tail.tail.seek
  have hend := hp.next.tail.tail.next.tail.next.seek
  obtain ⟨regs₁, hr₁, hR₁⟩ := run_forCond w he (fun x hx => hn x (.inl (.inl hx))) ht₀ h₁ hR hp.next hend
  have hstart := Reaches.head (mstep_label w prog _ c.newLabel.2 regs env) hr₁
  simp only [execFor] at hx
  split at hx
  · rename_i h0
    rw [if_pos h0] at hstart
    refine .after hstart ?_
    rcases hb : exec w n body F σ with _ | ⟨o₁, σ₁, tr₁⟩
    · simp only [hb] at hx
      cases hx
    have hfb : Covered U tr₁ → Follows w V prog _ _ (loopLabels c₁) regs₁ env o₁ _ σ₁ := fun hc₁ =>
      ih hbody (fun x hx => hn x (.inr hx)) st₁.tracks h₂ hb hc₁ hR₁ hp.next.tail
        ((Targets.loop hend hcont o₁).congr hls)
    -- after a normal end or a `continue` the post statement runs, then the loop again
    have hnext : ∀ {regs₂ env₂}, (match exec w n post (flagsAfter body F) σ₁ with
          | some (.normal, σ₂, tr₂) => prepend (tr₁ ++ tr₂) (execFor w n e post body F σ₂)
          | r => prepend tr₁ r) = some (o, σ', tr) →
        Covered U tr → Rel V (pendingAfter U tr₁) σ₁ regs₂ env₂ →
        Follows w V prog (.label c.newLabel.1.newLabel.2 :: (is₃ ++ .jmp c.newLabel.2 ::
          .label c.newLabel.1.newLabel.1.newLabel.2 :: rest)) rest (loopLabels c) regs₂ env₂ o
          (pendingAfter U tr) σ' := by
      intro regs₂ env₂ hx hc hR₂
      refine .after (.one (mstep_label w prog _ _ _ _)) ?_
      have hnormal : ∀ {o₂ σ₂ tr₂}, exec w n post (flagsAfter body F) σ₁ = some (o₂, σ₂, tr₂) →
          o₂ = .normal := fun hq => exec_basic w n post hpost hq
      rcases hq : exec w n post (flagsAfter body F) σ₁ with _ | ⟨o₂, σ₂, tr₂⟩
      · simp only [hq] at hx
        cases hx
      obtain rfl := hnormal hq
      simp only [hq] at hx
      obtain ⟨tr₃, hx₃, rfl⟩ := prepend_eq_some hx
      rw [covered_append, covered_append] at hc
      rw [pendingAfter_append, pendingAfter_append]
      rw [pendingAfter_append] at hc
      have hls₂ := st₂.loops.trans hls
      have hfp := ih (post.script_of_basic hpost) (fun x hx => hn x (.inl (.inr hx))) st₂.tracks h₃ hq
        hc.1.2 hR₂ hp.next.tail.tail.next ((Targets.loop hend hcont .normal).congr hls₂)
      obtain ⟨regs₃, env₃, hr₃, hR₃⟩ := hfp.normal
      refine .after (hr₃.trans (.one (mstep_jmp hloop))) ?_
      have hf := ihF he hpost hbody hn' ht h' hx₃ hc.2 hR₃ hp' hT
      simpa only [append_assoc, cons_append, nil_append] using hf
    cases o₁ with
    | normal =>
      simp only [hb] at hx
      have hc₁ := hc
      obtain ⟨tr₂, rfl⟩ := trace_prefix hx
      obtain ⟨regs₂, env₂, hr₂, hR₂⟩ := (hfb ((covered_append _ _ _).1 hc₁).1).normal
      exact .after hr₂ (hnext hx hc hR₂)
    | cont =>
      simp only [hb] at hx
      have hc₁ := hc
      obtain ⟨tr₂, rfl⟩ := trace_prefix hx
      have hfb₁ := hfb ((covered_append _ _ _).1 hc₁).1
      obtain ⟨regs₂, env₂, hr₂, hR₂⟩ := hfb₁.jump hls (.inr ⟨rfl, hcont⟩)
      exact .after hr₂ (hnext hx hc hR₂)
    | brk =>
      simp only [hb] at hx
      cases hx
      obtain ⟨regs₂, env₂, hr₂, hR₂⟩ := (hfb hc).jump hls (.inl ⟨rfl, hend⟩)
      exact ⟨rest, regs₂, env₂, hr₂.trans (.one rfl), rfl, hR₂⟩
    | ret =>
      simp only [hb] at hx
      cases hx
      exact hfb hc
  · rename_i h0
    rw [if_neg h0] at hstart
    cases hx
    exact ⟨rest, regs₁, env, hstart.trans (.one rfl), rfl, hR₁⟩

/-- **One more unit of fuel**, construct by construct. -/
theorem sim_step (w : World D) (ih : StmtSim w V n) (ihF : ForSim w V n) : StmtSim w V (n + 1) := by
  intro s F c c' is σ σ' o tr U prog post regs env hs hn ht h hx hc hR hp hT
  cases s with
  | skip =>
    simp only [compileStmt] at h
    simp only [exec] at hx
    cases h
    cases hx
    exact ⟨_, regs, env, .refl _, rfl, hR⟩
  | seq s t => exact follow_seq ih ht hc hR hp hT hs hn h hx
  | expr e =>
    obtain ⟨x, e, rfl, hnum⟩ | ⟨node, names, rfl⟩ | hnum := Expr.basic_cases hs
    · simp only [exec] at hx
      cases hx
      exact follow_assign w hnum hn ht h hR hp
    · simp only [exec] at hx
      cases hx
      simp only [compileStmt, bind_ok] at h
      obtain ⟨⟨c₁, is₁, r⟩, h₁, h⟩ := h
      cases h
      obtain ⟨regs', env', hr, hR'⟩ := run_helper w prog post h₁ ht hR hc.1
      exact ⟨post, regs', env', hr, rfl, hR'⟩
    · have hx' : some (Outcome.normal, σ, []) = some (o, σ', tr) := by
        cases e <;> first | (cases hnum; done) | simpa only [exec] using hx
      cases hx'
      simp only [compileStmt, bind_ok] at h
      obtain ⟨⟨c₁, is₁, r⟩, h₁, h⟩ := h
      cases h
      have s := (sim_expr w e hnum).value (ht.known hn) h₁
      obtain ⟨regs', hr, -, hk⟩ := s.run prog post regs env hp.nodup hp.suffix
      exact ⟨post, regs', env, hr, rfl, hR.keeps hk.var⟩
  | ifThen e t => exact follow_ifThen ih ht hc hR hp hT hs hn h hx
  | ifElse e t f => exact follow_ifElse ih ht hc hR hp hT hs hn h hx
  | «while» e body => exact follow_while ih ht hc hR hp hT hs hn h hx
  | «for» init e post' body =>
    simp only [Stmt.script, Bool.and_eq_true] at hs
    simp only [Stmt.names, mem_append] at hn
    simp only [compileStmt, bind_ok] at h
    obtain ⟨⟨c₁, is₁⟩, h₁, ⟨c₂, is₂⟩, h₂, h⟩ := h
    cases h
    have hni : ∀ x ∈ init.names, x ∈ V := fun x hx => hn x (by simp [hx])
    have st₁ := sim_static w init (init.script_of_basic hs.1.1.1) hni ht h₁
    rw [append_assoc] at hp ⊢
    simp only [exec] at hx
    rcases he : exec w n init F σ with _ | ⟨o₁, σ₁, tr₁⟩
    · simp only [he] at hx
      cases hx
    obtain rfl := exec_basic w n init hs.1.1.1 he
    simp only [he] at hx
    obtain ⟨tr₂, hx₂, rfl⟩ := prepend_eq_some hx
    rw [covered_append] at hc
    rw [pendingAfter_append]
    have hf₁ := ih (init.script_of_basic hs.1.1.1) hni ht h₁ he hc.1 hR hp
      ⟨hT.found, fun h => by rcases h with h | h <;> cases h⟩
    obtain ⟨regs₁, env₁, hr₁, hR₁⟩ := hf₁.normal
    refine .after hr₁ ?_
    rw [← st₁.loops]
    refine ihF hs.1.1.2 hs.1.2 hs.2 (fun x hx => ?_) st₁.tracks h₂ hx₂ hc.2 hR₁ hp.tail (hT.congr st₁.loops)
    simp only [mem_append] at hx
    exact hn x (by tauto)
  | brk =>
    simp only [exec] at hx
    cases hx
    simp only [compileStmt] at h
    split at h
    · rename_i hst
      exact absurd (by simp [loopLabels, hst]) (hT.inLoop (.inl rfl))
    · rename_i frame outer hst
      obtain ⟨c₁, h₁, h⟩ := bind_ok.1 h
      cases h
      exact follow_jump w hst (.inl ⟨rfl, rfl⟩) hR hT
  | cont =>
    simp only [exec] at hx
    cases hx
    simp only [compileStmt] at h
    split at h
    · rename_i hst
      exact absurd (by simp [loopLabels, hst]) (hT.inLoop (.inr rfl))
    · rename_i frame outer hst
      obtain ⟨c₁, h₁, h⟩ := bind_ok.1 h
      cases h
      exact follow_jump w hst (.inr ⟨rfl, rfl⟩) hR hT
  | ret e =>
    simp only [exec] at hx
    cases hx
    exact follow_ret w hs hn ht h hR hp hc.1
  | classDef | funcDef | doWhile | forIn | switch => cases hs

/-- **The lowered code follows the source**, for every amount of fuel. -/
theorem sim_run (w : World D) : ∀ n, StmtSim w V n ∧ ForSim w V n
  | 0 => by
    constructor
    · intro s F c c' is σ σ' o tr U prog post regs env _ _ _ _ hx
      simp only [exec] at hx
      cases hx
    · intro e post body F c c' is σ σ' o tr U prog rest regs env _ _ _ _ _ _ hx
      simp only [execFor] at hx
      cases hx
  | n + 1 => ⟨sim_step w (sim_run w n).1 (sim_run w n).2, follow_forLoop w (sim_run w n).1 (sim_run w n).2⟩

end Script

end TurboScript.Mir
