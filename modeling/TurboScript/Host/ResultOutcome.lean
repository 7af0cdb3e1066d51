import TurboScript.Host.ResultHeld

/- What a result holds after any sequence of its operations. -/
namespace TurboScript.Host.Values

open Lib

variable {lib : Library} {grants : Nat → Bool} {base : Nat} {s s' : ResultState}

/-! The operations. -/

theorem Unfolds.of_view {mem : Memory} {t : Tree} {a b : Nat} (h : Unfolds mem t a) (hb : b ≠ 0)
    (hview : mem.view b = mem.view a) : Unfolds mem t b := by
  cases t with
  | leaf => exact ⟨hb, by rw [hview]; exact h.2.1, by rw [hview]; exact h.2.2⟩
  | array | record => exact ⟨hb, by rw [hview]; exact h.2⟩

theorem validateValueView_spec (hlib : lib.Lawful) (mem : Memory) (value : Nat)
    (limits : Option Limits) : ∃ status, validateValueView lib mem value limits = some status ∧
      (status = .ok → ∃ l ∈ limits, ∃ t, Unfolds mem t value ∧ t.depth ≤ l.maxDepth.toNat) := by
  cases limits with
  | none => exact ⟨_, rfl, fun h => by cases h⟩
  | some l =>
    simp only [validateValueView]
    by_cases hvalue : value = 0
    · exact ⟨_, if_pos hvalue, fun h => by cases h⟩
    rw [if_neg hvalue]
    by_cases hzero : l.maxDepth = 0 ∨ l.maxNodes = 0 ∨ l.maxBytes = 0
    · refine ⟨.invalidArgument, ?_, fun h => by cases h⟩
      unfold validateValueViews
      rw [if_pos (Or.inr (by simpa [or_assoc] using hzero))]
      rfl
    · simp only [not_or] at hzero
      obtain ⟨status, state, hrun, -, hok⟩ := validateValueViews_exact lib hlib mem l hzero.1 hzero.2.1
        hzero.2.2 value 1 _ (Nat.lt_succ_self _)
      refine ⟨status, by rw [hrun]; rfl, fun h => ?_⟩
      obtain ⟨trees, h⟩ := hok.mp h
      have hunf := h.unfolds
      have hslots : slots value viewSize 1 = [value] := rfl
      rw [hslots] at hunf
      cases hunf with
      | cons ht hnil =>
        cases hnil
        exact ⟨l, rfl, _, ht, h.depth _ (.head _)⟩

/-! Calls and what they leave. -/

inductive Call
  | reset
  | storeView (value : Nat) (limits : Option Limits)
  | storeExprtk (value : Option ExprValue) (limits : Option Limits)
  | setError (error : Option ErrorInfo) (maxBytes : UInt64)

/-- `owner` says whether the call is on the thread of the context. -/
def Call.run (lib : Library) (grants : Nat → Bool) (owner : Bool) (s : ResultState) :
    Call → Option (Status × ResultState)
  | .reset => some (resetChecked owner s)
  | .storeView value limits => Values.storeView lib grants owner value limits s
  | .storeExprtk value limits => Values.storeExprtk lib grants owner value limits s
  | .setError error maxBytes => some (Values.setError lib grants owner error maxBytes s)

/-- What was written last: nothing, a value, or an error with its three texts. -/
inductive Outcome
  | empty
  | value (t : Tree)
  | error (info : ErrorInfo) (texts : List (List UInt8))

def ErrorInfo.texts (mem : Memory) (info : ErrorInfo) : List (List UInt8) :=
  [info.moduleName, info.functionName, info.message].map mem.bytes

def Call.Writes (mem : Memory) : Call → Outcome → Prop
  | .reset, o => o = .empty
  | .storeView value _, o => ∃ t, Unfolds mem t value ∧ o = .value t
  | .storeExprtk value _, o => ∃ v ∈ value, o = .value (v.tree mem)
  | .setError error _, o => ∃ info ∈ error, o = .error info (info.texts mem)

/-- The argument shows the same whatever is written from `base` on. -/
def Call.Outside (base : Nat) (mem : Memory) (call : Call) : Prop :=
  ∀ o mem', call.Writes mem o → mem.Agrees (· < base) mem' → call.Writes mem' o

/-- The calls that return before they clear. -/
def Call.Refused (owner : Bool) : Call → Prop
  | .storeExprtk value limits => owner = false ∨ value = none ∨ limits = none
  | _ => owner = false

/-- A call that fails leaves nothing, except that a refused one leaves what there was. -/
def Call.Leaves (owner : Bool) (mem : Memory) (o : Outcome) (call : Call) (status : Status)
    (o' : Outcome) : Prop :=
  (call.Refused owner ∧ status ≠ .ok ∧ o' = o) ∨
    (¬ call.Refused owner ∧ ((status = .ok ∧ call.Writes mem o') ∨ (status ≠ .ok ∧ o' = .empty)))

def Copies (mem : Memory) (copy info : ErrorInfo) (texts : List (List UInt8)) : Prop :=
  (∃ name function message, copy = { info with
    moduleName.data := name, functionName.data := function, message.data := message }) ∧
  copy.texts mem = texts

/-- The result holds the outcome, as long as what lies from `base` on stays. -/
def Holds (base : Nat) (s : ResultState) : Outcome → Prop
  | .empty => s.result = {}
  | .value t => ∃ view, s.result = { value := view, hasValue := true } ∧
    ∀ mem', s.heap.mem.Agrees (base ≤ ·) mem' → ∀ out ≠ 0, mem'.view out = view → Unfolds mem' t out
  | .error info texts => ∃ copy, s.result = { error := copy, hasError := true } ∧
    ∀ mem', s.heap.mem.Agrees (base ≤ ·) mem' → Copies mem' copy info texts

variable {call : Call} {o : Outcome} {owner : Bool}

theorem Call.Writes.unique {mem : Memory} {o' : Outcome} (h : call.Writes mem o)
    (h' : call.Writes mem o') : o = o' := by
  cases call with
  | reset => exact h.trans h'.symm
  | storeView =>
    obtain ⟨t, ht, rfl⟩ := h
    obtain ⟨t', ht', rfl⟩ := h'
    rw [ht.unique ht']
  | storeExprtk =>
    obtain ⟨v, hv, rfl⟩ := h
    obtain ⟨v', hv', rfl⟩ := h'
    rw [Option.mem_unique hv hv']
  | setError =>
    obtain ⟨info, hinfo, rfl⟩ := h
    obtain ⟨info', hinfo', rfl⟩ := h'
    rw [Option.mem_unique hinfo hinfo']

theorem Call.Leaves.unique {mem : Memory} {status : Status} {o₁ o₂ : Outcome}
    (h : call.Leaves owner mem o status o₁) (h' : call.Leaves owner mem o status o₂) : o₁ = o₂ := by
  obtain ⟨hr, -, rfl⟩ | ⟨hr, h⟩ := h
  · obtain ⟨-, -, rfl⟩ | ⟨hr', -⟩ := h'
    · rfl
    · exact absurd hr hr'
  · obtain ⟨hr', -⟩ | ⟨-, h'⟩ := h'
    · exact absurd hr' hr
    · obtain ⟨hs, h⟩ | ⟨hs, rfl⟩ := h
      · obtain ⟨-, h'⟩ | ⟨hs', -⟩ := h'
        · exact h.unique h'
        · exact absurd hs hs'
      · obtain ⟨hs', -⟩ | ⟨-, rfl⟩ := h'
        · exact absurd hs' hs
        · rfl

theorem Holds.mono {base' : Nat} (h : Holds base s o) (hle : base' ≤ base)
    (hr : s'.result = s.result) (hm : s.heap.mem.Agrees (base ≤ ·) s'.heap.mem) :
    Holds base' s' o := by
  have hall : ∀ mem', s'.heap.mem.Agrees (base' ≤ ·) mem' → s.heap.mem.Agrees (base ≤ ·) mem' :=
    fun mem' h => hm.trans (h.mono fun _ ha => hle.trans ha)
  cases o with
  | empty => exact hr.trans h
  | value t =>
    obtain ⟨view, hview, h⟩ := h
    exact ⟨view, hr.trans hview, fun mem' hm' => h mem' (hall mem' hm')⟩
  | error info texts =>
    obtain ⟨copy, hcopy, h⟩ := h
    exact ⟨copy, hr.trans hcopy, fun mem' hm' => h mem' (hall mem' hm')⟩

/-! Each operation. -/

/-- The call ends, writes at new addresses only, and leaves what `writes` says or nothing. -/
def Ends (s : ResultState) (writes : Outcome → Prop) (run : Option (Status × ResultState)) : Prop :=
  ∃ status s' o, run = some (status, s') ∧ Step (fun _ => False) s.heap s'.heap ∧
    ((status = .ok ∧ writes o) ∨ (status ≠ .ok ∧ o = .empty)) ∧ Holds s.heap.top s' o

theorem Ends.fails {status : Status} {writes : Outcome → Prop} (hstatus : status ≠ .ok)
    (hstep : Step (fun _ => False) s.heap s'.heap) : Ends s writes (some (status, s'.clear)) :=
  ⟨status, _, .empty, rfl, hstep, .inr ⟨hstatus, rfl⟩, rfl⟩

theorem Step.refl (own : Nat → Prop) (h : Heap) : Step own h h := ⟨le_rfl, fun _ _ => ⟨rfl, rfl, rfl⟩⟩

theorem Step.reserved {own : Nat → Prop} {size : Nat} {h h₁ h' : Heap} (hs : Step own h₁ h')
    (htop : h₁.top = h.top + size) (hmem : h₁.mem = h.mem) (hown : ∀ a, own a → Block h.top size a) :
    Step (fun _ => False) h h' := by
  have hle := hs.le
  refine ⟨by omega, hmem ▸ hs.frame.mono fun a ha => ⟨fun ho => ?_, by omega⟩⟩
  have := (hown a ho).1
  have := (hown a ho).2
  omega

theorem viewBlock (first : Nat) : Block first viewSize first :=
  ⟨le_rfl, Nat.lt_add_of_pos_right (by decide)⟩

theorem storeCopy_ends {limits : Limits} {value : Nat} {t : Tree} (hbase : 0 < s.heap.top)
    (hshows : ShowsBelow s.heap.top s.heap.mem t value) (hdepth : t.depth ≤ limits.maxDepth.toNat) :
    Ends s (· = .value t) (storeCopy grants limits value s.clear) := by
  have hcopies : PutsHeap s.heap.top s.heap.mem True (· = s.heap.top)
      (fun mem' => Unfolds mem' t s.heap.top)
      (copyView grants (limits.maxDepth.toNat + 1) value s.heap.top) :=
    copyView_puts (fun _ _ => trivial) hbase _ t (hdepth.trans (Nat.le_succ _)) value _ hshows le_rfl
  obtain ⟨status, h, hrun, hstep, -, hok⟩ := hcopies (s.heap.reserve viewSize) (Nat.le_add_right ..)
    (fun a ha => by rw [ha]; exact viewBlock _) (.refl _ _)
  have hkeep : Step (fun _ => False) s.heap h :=
    hstep.reserved rfl rfl fun a ha => by rw [ha]; exact viewBlock _
  have hcopy : storeCopy grants limits value s.clear = some (if status ≠ .ok then
      (status, ResultState.clear ⟨s.result, h⟩)
      else (.ok, ⟨{ value := h.mem.view s.heap.top, hasValue := true }, h⟩)) :=
    congrArg (Option.map _) hrun
  rw [hcopy]
  by_cases hs : status = .ok
  · rw [if_neg (not_not.mpr hs)]
    refine ⟨.ok, _, .value t, rfl, hkeep, .inl ⟨rfl, rfl⟩, _, rfl, fun mem' hm out hout hview => ?_⟩
    refine (hok hs mem' (hm.mono fun a ha => ?_)).of_view hout ?_
    · exact ha.elim Eq.ge fun ha => (Nat.le_add_right ..).trans ha.1
    · exact hview.trans (hm _ le_rfl).1.symm
  · rw [if_pos hs]
    exact .fails hs hkeep

theorem storeView_ends (grants : Nat → Bool) (hlib : lib.Lawful) (value : Nat) (limits : Option Limits)
    (hbase : 0 < s.heap.top) (hout : (Call.storeView value limits).Outside s.heap.top s.heap.mem) :
    Ends s ((Call.storeView value limits).Writes s.heap.mem)
      (storeView lib grants true value limits s) := by
  obtain ⟨status, hrun, hok⟩ := validateValueView_spec hlib s.heap.mem value limits
  unfold storeView
  rw [if_neg (by decide), hrun]
  by_cases hs : status = .ok
  · subst hs
    obtain ⟨l, hl, t, ht, hdepth⟩ := hok rfl
    rw [Option.mem_def.mp hl]
    have hshows : ShowsBelow s.heap.top s.heap.mem t value := fun mem' hm => by
      obtain ⟨t', ht', heq⟩ := hout (.value t) mem' ⟨t, ht, rfl⟩ hm
      cases heq
      exact ht'
    obtain ⟨status, s', o, hcopy, hkeep, hwrites, hholds⟩ := storeCopy_ends hbase hshows hdepth
    refine ⟨status, s', o, hcopy, hkeep, hwrites.imp_left fun h => ⟨h.1, t, ht, h.2⟩, hholds⟩
  · have hfail : Ends s ((Call.storeView value limits).Writes s.heap.mem) (some (status, s.clear)) :=
      .fails hs (.refl _ _)
    cases status <;> first | exact hfail | exact absurd rfl hs

theorem exprtkToView_shows (lib : Library) (grants : Nat → Bool) (v : ExprValue) (limits : Limits) (h : Heap)
    (hbase : 0 < h.top) :
    ∃ status state, exprtkToView lib limits grants v h.top 1
      { heap := Heap.reserve { h with calls := h.calls + 1 } viewSize } = some (status, state) ∧
      Step (fun _ => False) h state.heap ∧ (status = .ok → ∀ mem',
        state.heap.mem.Agrees (· < state.heap.top) mem' → Unfolds mem' (v.tree mem') h.top) := by
  have hput : PutsView h.top h.mem (· = h.top) (fun mem' => Unfolds mem' (v.tree mem') h.top)
      (exprtkToView lib limits grants v h.top 1) :=
    entering_puts (viewContent_puts hbase v h.top 1 hbase)
  obtain ⟨status, state, hrun, hstep, -, hok⟩ := hput
    { heap := Heap.reserve { h with calls := h.calls + 1 } viewSize } (Nat.le_add_right ..)
    (fun a ha => by rw [ha]; exact viewBlock _) (.refl _ _)
  have hle : h.top + viewSize ≤ state.heap.top := hstep.le
  refine ⟨status, state, hrun, hstep.reserved rfl rfl fun a ha => by rw [ha]; exact viewBlock _, ?_⟩
  intro hs mem' hm
  refine hok hs mem' (hm.mono fun a ha => ha.elim (fun ha => ?_) And.right)
  rw [ha]
  exact (viewBlock h.top).2.trans_le hle

theorem storeExprtk_ends (hlib : lib.Lawful) (v : ExprValue) (limits : Limits) (hbase : 0 < s.heap.top)
    (hout : (Call.storeExprtk (some v) (some limits)).Outside s.heap.top s.heap.mem) :
    Ends s ((Call.storeExprtk (some v) (some limits)).Writes s.heap.mem)
      (storeExprtk lib grants true (some v) (some limits) s) := by
  unfold storeExprtk allocate
  by_cases hg : grants s.heap.calls = true
  swap
  · simp only [hg]
    exact .fails (by decide) ⟨le_rfl, fun _ _ => ⟨rfl, rfl, rfl⟩⟩
  obtain ⟨status, state, hrun, hkeep, hok⟩ :=
    exprtkToView_shows lib grants v limits s.heap hbase
  simp only [hg, if_true, Bool.not_true, Bool.false_eq_true, if_false]
  rw [show s.heap.top + 0 = s.heap.top from rfl, hrun, Option.bind_some]
  by_cases hs : status = .ok
  swap
  · rw [if_pos hs]
    exact .fails hs hkeep
  rw [if_neg (not_not.mpr hs)]
  have hsame : ∀ mem', state.heap.mem.Agrees (· < state.heap.top) mem' →
      v.tree mem' = v.tree s.heap.mem := by
    intro mem' hm
    have hbelow : s.heap.mem.Agrees (· < s.heap.top) mem' :=
      (hkeep.frame.mono fun a ha => ⟨id, .inl ha⟩).trans (hm.mono fun a ha => ha.trans_le hkeep.le)
    obtain ⟨v', hv', heq⟩ := hout (.value (v.tree s.heap.mem)) mem' ⟨v, rfl, rfl⟩ hbelow
    cases hv'
    exact (Outcome.value.inj heq).symm
  have hunf : ∀ t, Unfolds state.heap.mem t s.heap.top → t = v.tree s.heap.mem := fun t ht => by
    rw [ht.unique (hok hs _ (.refl _ _)), hsame _ (.refl _ _)]
  have hstored : Ends (ResultState.clear ⟨s.result, state.heap⟩) _ _ :=
    storeView_ends grants hlib s.heap.top (some limits) (hbase.trans_le hkeep.le) fun o mem' ho hm => by
        obtain ⟨t, ht, rfl⟩ := ho
        refine ⟨_, hok hs mem' hm, ?_⟩
        rw [hunf t ht, hsame mem' hm]
  obtain ⟨status', s', o, hstore, hkeep', hwrites, hholds⟩ := hstored
  rw [hstore, Option.map_some]
  have hkeeps : Step (fun _ => False) s.heap s'.heap := (hkeep.trans hkeep').mono fun _ h => h.elim id id
  by_cases hs' : status' = .ok
  swap
  · rw [if_pos hs']
    exact .fails hs' hkeeps
  rw [if_neg (not_not.mpr hs')]
  obtain ⟨-, t, ht, rfl⟩ | ⟨hne, -⟩ := hwrites
  · exact ⟨status', s', _, rfl, hkeeps, .inl ⟨hs', v, rfl, by rw [hunf t ht]⟩,
      hholds.mono hkeep.le rfl (.refl _ _)⟩
  · exact absurd hs' hne

theorem copyString_ends (grants : Nat → Bool) (source : StringView) (h : Heap) : ∃ copy h',
    copyString grants source h = (copy, h') ∧ Step (fun _ => False) h h' ∧ ∀ data ∈ copy,
      ∀ h'', Step (fun _ => False) h' h'' → ∀ mem', h''.mem.Agrees (h.top ≤ ·) mem' →
        mem'.bytes ⟨data, source.size⟩ = h.mem.bytes source := by
  obtain ⟨copy, h', hcopy⟩ : ∃ copy h', copyString grants source h = (copy, h') := ⟨_, _, rfl⟩
  obtain ⟨hstep, -, hbytes⟩ := copyString_spec hcopy
  refine ⟨copy, h', hcopy, hstep, fun data hdata h'' hstep' mem' hm => ?_⟩
  exact (hbytes data hdata).2 mem' ((hstep'.frame.mono fun a ha => ⟨id, .inl ha.2⟩).trans
    (hm.mono fun a ha => ha.1))

theorem setError_ends (error : Option ErrorInfo) (maxBytes : UInt64)
    (hout : (Call.setError error maxBytes).Outside s.heap.top s.heap.mem) :
    Ends s ((Call.setError error maxBytes).Writes s.heap.mem)
      (some (setError lib grants true error maxBytes s)) := by
  unfold setError
  rw [if_neg (by decide)]
  generalize hv : validateErrorInfo lib s.heap.mem error maxBytes = status
  by_cases hs : status = .ok
  swap
  · have hfail : Ends s ((Call.setError error maxBytes).Writes s.heap.mem) (some (status, s.clear)) :=
      .fails hs (.refl _ _)
    cases status <;> first | exact hfail | exact absurd rfl hs
  subst hs
  cases error with
  | none => cases hv
  | some info =>
    obtain ⟨name, h₁, hname, hs₁, hbytes₁⟩ :=
      copyString_ends grants info.moduleName s.heap
    obtain ⟨function, h₂, hfunction, hs₂, hbytes₂⟩ :=
      copyString_ends grants info.functionName h₁
    obtain ⟨message, h₃, hmessage, hs₃, hbytes₃⟩ :=
      copyString_ends grants info.message h₂
    have hs₁₂ : Step (fun _ => False) s.heap h₂ := (hs₁.trans hs₂).mono fun _ h => h.elim id id
    have hs₂₃ : Step (fun _ => False) h₁ h₃ := (hs₂.trans hs₃).mono fun _ h => h.elim id id
    have hkeep : Step (fun _ => False) s.heap h₃ := (hs₁₂.trans hs₃).mono fun _ h => h.elim id id
    simp only [hname, hfunction, hmessage]
    cases name with
    | none => exact .fails (by decide) hkeep
    | some n =>
      cases function with
      | none => exact .fails (by decide) hkeep
      | some f =>
        cases message with
        | none => exact .fails (by decide) hkeep
        | some m =>
          refine ⟨.ok, _, .error info (info.texts s.heap.mem), rfl, hkeep, .inl ⟨rfl, info, rfl, rfl⟩,
            _, rfl, fun mem' hm => ⟨⟨n, f, m, rfl⟩, ?_⟩⟩
          have hsame : ∀ h, Step (fun _ => False) s.heap h → info.texts h.mem = info.texts s.heap.mem := by
            intro h hstep
            obtain ⟨info', hinfo', heq⟩ := hout (.error info (info.texts s.heap.mem)) h.mem
              ⟨info, rfl, rfl⟩ (hstep.frame.mono fun a ha => ⟨id, .inl ha⟩)
            cases hinfo'
            exact (Outcome.error.inj heq).2.symm
          have htexts₁ := hsame h₁ hs₁
          have htexts₂ := hsame h₂ hs₁₂
          simp only [ErrorInfo.texts, List.map_cons, List.map_nil, List.cons.injEq, and_true] at *
          refine ⟨hbytes₁ n rfl h₃ hs₂₃ mem' hm, ?_, ?_⟩
          · rw [← htexts₁.2.1]
            exact hbytes₂ f rfl h₃ hs₃ mem' (hm.mono fun a ha => hs₁.le.trans ha)
          · rw [← htexts₂.2.2]
            exact hbytes₃ m rfl h₃ (.refl _ _) mem' (hm.mono fun a ha => hs₁₂.le.trans ha)

/-! Every sequence of calls. -/

/-- The states of a result, each with what was written last. Between two calls the caller may
    change all that lies below `base`. -/
inductive Reached (lib : Library) (grants : Nat → Bool) (base : Nat) : ResultState → Outcome → Prop
  | create {h h' : Heap} {r : Result} (hbase : base ≤ h.top)
      (hrun : createResult grants true true true h = (.ok, some r, h')) :
      Reached lib grants base ⟨r, h'⟩ .empty
  | call {s s' : ResultState} {o o' : Outcome} {owner : Bool} {call : Call} {status : Status}
      (hs : Reached lib grants base s o) (hout : call.Outside base s.heap.mem)
      (hrun : call.run lib grants owner s = some (status, s'))
      (hleaves : call.Leaves owner s.heap.mem o status o') : Reached lib grants base s' o'
  | change {s : ResultState} {o : Outcome} {mem : Memory} (hs : Reached lib grants base s o)
      (hmem : s.heap.mem.Agrees (base ≤ ·) mem) :
      Reached lib grants base { s with heap := { s.heap with mem := mem } } o

theorem create_spec {h h' : Heap} {r : Result}
    (hrun : createResult grants true true true h = (.ok, some r, h')) : r = {} ∧ h'.top = h.top := by
  unfold createResult allocate at hrun
  by_cases hg : grants h.calls = true
  · by_cases hg' : grants (h.calls + 1) = true
    · simp only [hg, hg', if_true] at hrun
      cases hrun
      exact ⟨rfl, rfl⟩
    · simp [hg, hg'] at hrun
  · simp [hg] at hrun

theorem refused_run (h : call.Refused owner) :
    ∃ status, call.run lib grants owner s = some (status, s) ∧ status ≠ .ok := by
  cases call with
  | storeExprtk value limits =>
    cases value with
    | none => exact ⟨_, rfl, by decide⟩
    | some v =>
      cases limits with
      | none => exact ⟨_, rfl, by decide⟩
      | some l =>
        obtain h | h | h := h
        · rw [h]
          exact ⟨_, rfl, by decide⟩
        · cases h
        · cases h
  | reset | storeView | setError =>
    rw [show owner = false from h]
    exact ⟨_, rfl, by decide⟩

theorem run_ends (hlib : lib.Lawful) (h : ¬ call.Refused owner) (hbase : 0 < s.heap.top)
    (hout : call.Outside s.heap.top s.heap.mem) :
    Ends s (call.Writes s.heap.mem) (call.run lib grants owner s) := by
  cases call with
  | storeExprtk value limits =>
    cases value with
    | none => exact absurd (.inr (.inl rfl)) h
    | some v =>
      cases limits with
      | none => exact absurd (.inr (.inr rfl)) h
      | some l =>
        rw [show owner = true from Bool.eq_true_of_not_eq_false fun hf => h (.inl hf)]
        exact storeExprtk_ends hlib v l hbase hout
  | reset =>
    rw [show owner = true from Bool.eq_true_of_not_eq_false h]
    exact ⟨.ok, s.clear, .empty, rfl, .refl _ _, .inl ⟨rfl, rfl⟩, rfl⟩
  | storeView value limits =>
    rw [show owner = true from Bool.eq_true_of_not_eq_false h]
    exact storeView_ends _ hlib value limits hbase hout
  | setError error maxBytes =>
    rw [show owner = true from Bool.eq_true_of_not_eq_false h]
    exact setError_ends error maxBytes hout

theorem call_spec (hlib : lib.Lawful) (hbase : 0 < base) (hle : base ≤ s.heap.top)
    (hholds : Holds base s o) (hout : call.Outside base s.heap.mem) :
    ∃ status s' o', call.run lib grants owner s = some (status, s') ∧
      call.Leaves owner s.heap.mem o status o' ∧ base ≤ s'.heap.top ∧ Holds base s' o' := by
  by_cases h : call.Refused owner
  · obtain ⟨status, hrun, hs⟩ := refused_run h
    exact ⟨status, s, o, hrun, .inl ⟨h, hs, rfl⟩, hle, hholds⟩
  · obtain ⟨status, s', o', hrun, hkeep, hwrites, hholds'⟩ := run_ends hlib h (hbase.trans_le hle)
      fun o mem' ho hm => hout o mem' ho (hm.mono fun _ ha => ha.trans_le hle)
    exact ⟨status, s', o', hrun, .inr ⟨h, hwrites⟩, hle.trans hkeep.le, hholds'.mono hle rfl (.refl _ _)⟩

theorem Reached.holds (hlib : lib.Lawful) (hbase : 0 < base) (h : Reached lib grants base s o) :
    base ≤ s.heap.top ∧ Holds base s o := by
  induction h with
  | create hb hrun =>
    obtain ⟨rfl, htop⟩ := create_spec hrun
    exact ⟨htop ▸ hb, rfl⟩
  | call _ hout hrun hleaves ih =>
    obtain ⟨status, s', o', hrun', hleaves', hle, hholds⟩ :=
      call_spec hlib hbase ih.1 ih.2 hout
    cases hrun.symm.trans hrun'
    rw [hleaves.unique hleaves']
    exact ⟨hle, hholds⟩
  | change _ hmem ih => exact ⟨ih.1, ih.2.mono le_rfl rfl hmem⟩

/-- **A result holds one outcome.** In every state that calls lead to, whatever is allocated and
    whatever the caller does to its memory, at most one flag is set. The value can be read exactly
    if one was written last, the error likewise, and what is read is a deep copy that stays. A
    call ends; where it fails it leaves nothing, unless it was refused before it began. -/
theorem result_outcome (lib : Library) (hlib : lib.Lawful) (grants : Nat → Bool) (base : Nat)
    (hbase : 0 < base) (s : ResultState) (o : Outcome) (h : Reached lib grants base s o) :
    (s.result.hasValue && s.result.hasError) = false ∧
    (o = .empty → s.result.hasValue = false ∧ s.result.hasError = false) ∧
    ((getValue true true s.result).1 = .ok ↔ ∃ t, o = .value t) ∧
    ((getError true true s.result).1 = .ok ↔ ∃ info texts, o = .error info texts) ∧
    (∀ t, o = .value t → ∃ view, getValue true true s.result = (.ok, some view) ∧
      ∀ mem', s.heap.mem.Agrees (base ≤ ·) mem' → ∀ out ≠ 0, mem'.view out = view → Unfolds mem' t out) ∧
    (∀ info texts, o = .error info texts → ∃ copy, getError true true s.result = (.ok, some copy) ∧
      ∀ mem', s.heap.mem.Agrees (base ≤ ·) mem' → Copies mem' copy info texts) ∧
    ∀ (owner : Bool) (call : Call), call.Outside base s.heap.mem → ∃ status s' o',
      call.run lib grants owner s = some (status, s') ∧
      call.Leaves owner s.heap.mem o status o' ∧ Reached lib grants base s' o' := by
  obtain ⟨hle, hholds⟩ := h.holds hlib hbase
  have hnext : ∀ (owner : Bool) (call : Call), call.Outside base s.heap.mem → ∃ status s' o',
      call.run lib grants owner s = some (status, s') ∧
      call.Leaves owner s.heap.mem o status o' ∧ Reached lib grants base s' o' := by
    intro owner call hout
    obtain ⟨status, s', o', hrun, hleaves, -⟩ := call_spec hlib hbase hle hholds hout
    exact ⟨status, s', o', hrun, hleaves, h.call hout hrun hleaves⟩
  cases o with
  | empty =>
    have hr : s.result = {} := hholds
    rw [hr]
    exact ⟨rfl, fun _ => ⟨rfl, rfl⟩, by simp [getValue], by simp [getError], by simp, by simp, hnext⟩
  | value t =>
    obtain ⟨view, hr, hshown⟩ := hholds
    rw [hr]
    refine ⟨rfl, by simp, by simp [getValue], by simp [getError], fun t' ht' => ?_, by simp, hnext⟩
    cases ht'
    exact ⟨view, rfl, hshown⟩
  | error info texts =>
    obtain ⟨copy, hr, hshown⟩ := hholds
    rw [hr]
    refine ⟨rfl, by simp, by simp [getValue], by simp [getError], by simp, fun i t h => ?_, hnext⟩
    cases h
    exact ⟨copy, rfl, hshown⟩

def nullHeap : Heap := ⟨⟨fun _ => ⟨0, .null⟩, fun _ => ⟨0, 0⟩, fun _ => 0⟩, 2, 0⟩

theorem null_outside (limits : Option Limits) : (Call.storeView 1 limits).Outside 2 nullHeap.mem := by
  intro o mem' ⟨t, ht, ho⟩ hm
  refine ⟨t, ?_, ho⟩
  have hview : mem'.view 1 = ⟨0, .null⟩ := (hm 1 (by decide)).1
  cases t with
  | leaf => exact ⟨ht.1, by rw [hview]; exact ht.2.1, by rw [hview]; exact ht.2.2⟩
  | array | record =>
    obtain ⟨-, _, _, hv, -⟩ := ht
    cases hv

theorem null_stored : ∃ s, Reached listLibrary (fun _ => true) 2 s (.value (.leaf 0 .null)) ∧
    s.result.hasValue = true := by
  have hruns : (storeView listLibrary (fun _ => true) true 1 (some ⟨1, 1, 1⟩)
      ⟨{}, { nullHeap with calls := 2 }⟩).map
      (fun r => (r.1, r.2.result.hasValue)) = some (.ok, true) := by
    decide +kernel
  obtain ⟨⟨status, s⟩, hrun, heq⟩ := Option.map_eq_some_iff.mp hruns
  obtain ⟨rfl, hv⟩ := Prod.mk.inj heq
  have hcreate : Reached listLibrary (fun _ => true) 2 ⟨{}, { nullHeap with calls := 2 }⟩ .empty :=
    .create (h := nullHeap) le_rfl rfl
  have hwrites : (Call.storeView 1 (some ⟨1, 1, 1⟩)).Writes nullHeap.mem (.value (.leaf 0 .null)) :=
    ⟨.leaf 0 .null, ⟨by decide, rfl, rfl⟩, rfl⟩
  have hnot : ¬ (Call.storeView 1 (some ⟨1, 1, 1⟩)).Refused true := Bool.noConfusion
  exact ⟨s, hcreate.call (null_outside _) hrun (.inr ⟨hnot, .inl ⟨rfl, hwrites⟩⟩), hv⟩

/-- The result of a call that stored null. -/
theorem result_outcome_null : ∃ s, Reached listLibrary (fun _ => true) 2 s (.value (.leaf 0 .null)) ∧
    ∃ view, getValue true true s.result = (.ok, some view) ∧
      ∀ mem', s.heap.mem.Agrees (2 ≤ ·) mem' → ∀ out ≠ 0, mem'.view out = view →
        Unfolds mem' (.leaf 0 .null) out := by
  obtain ⟨s, hs, -⟩ := null_stored
  obtain ⟨-, -, -, -, hvalue, -⟩ :=
    result_outcome listLibrary listLibrary_lawful (fun _ => true) 2 (by decide) s _ hs
  exact ⟨s, hs, hvalue _ rfl⟩

/-- `ts_host_result_store_exprtk` with NULL fails, and the value before it stays. -/
theorem refused_call_keeps_value : ¬ ∀ (s s' : ResultState) (o : Outcome) (call : Call)
    (status : Status), Reached listLibrary (fun _ => true) 2 s o →
    call.run listLibrary (fun _ => true) true s = some (status, s') → status ≠ .ok →
    s'.result.hasValue = false := by
  intro h
  obtain ⟨s, hs, hv⟩ := null_stored
  have hnot := h s s _ (.storeExprtk none none) .invalidArgument hs rfl (by decide)
  rw [hv] at hnot
  cases hnot

end TurboScript.Host.Values
