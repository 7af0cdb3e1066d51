import TurboScript.Runtime.Task

/- The identity of tasks: in whose name the code of a callback acts. The thread-local is written
   when a coroutine begins and when it ends. A resume goes on in the middle of a native function,
   which has kept its own job in a local, and then in the callback, which has not.

   The callbacks of a run act as the tasks they belong to exactly when every task that is resumed
   is the one that began last (`lastBegun`), with nothing ended since (`task_identity`). Two tasks
   that wait in turn are enough to break it (`identity_lost`). -/
namespace TurboScript.Runtime.Task
open Lib
open Scheduler (back busy native setCoro settle yieldBack)

variable {V : Type}

/-- The errors that say a task function was called outside every task. -/
def outsideErrors : List String :=
  ["task.yield: may only be called from task.spawn callback",
    "task.sleep: may only be called from task.spawn callback",
    "task.join: may only be called from task.spawn callback"]

/-- A reply the callback of `j` may get: no complaint that it is in no task, and no value put into
an environment that is not its own. -/
def Reply.Fits (j : Nat) : Reply V → Prop
  | .cloned _ into => into = some j
  | .failed .state msg => msg ∉ outsideErrors
  | _ => True

/-- Nothing changed but job `j` and what the executor keeps. -/
structure Only (j : Nat) (s s' : Scheduler V) : Prop where
  others : ∀ k, k ≠ j → s'.jobs k = s.jobs k
  ctxEnv : s'.ctxEnv = s.ctxEnv
  ctxError : s'.ctxError = s.ctxError

/-- A native function that acts on job `j` only. -/
structure Proper (j : Nat) (s : Scheduler V) (out : Scheduler V × Reply V) : Prop where
  only : Only j s out.1
  fits : out.2.Fits j

theorem Only.refl (j : Nat) (s : Scheduler V) : Only j s s := ⟨fun _ _ => rfl, rfl, rfl⟩

variable {j : Nat} {s t : Scheduler V} {w : Wait}

theorem Only.trans {u : Scheduler V} (h : Only j s t) (k : Only j t u) : Only j s u where
  others i hi := (k.others i hi).trans (h.others i hi)
  ctxEnv := k.ctxEnv.trans h.ctxEnv
  ctxError := k.ctxError.trans h.ctxError

theorem Only.setJob (s : Scheduler V) (j : Nat) (job : Job V) : Only j s (s.setJob j job) := by
  refine ⟨?_, rfl, rfl⟩
  intro k hk
  simp [hk]

theorem Proper.after {out : Scheduler V × Reply V} (h : Only j s t) (k : Proper j t out) : Proper j s out :=
  ⟨h.trans k.only, k.fits⟩

theorem executionEnv_own (h : (s.jobs j).envInitialized = true) : s.executionEnv (some j) = some j := by
  simp [Scheduler.executionEnv, h]

namespace Proper

variable {s : Scheduler V} {j : Nat} {opened : Rc}

theorem fail {code : ErrorCode} {msg : String} (h : (s.jobs j).envInitialized = true)
    (hmsg : code = .state → msg ∉ outsideErrors) :
    Proper j s (s.fail (some j) code msg) := by
  refine ⟨?_, ?_⟩
  · simp only [Scheduler.fail, executionEnv_own h]
    exact (Only.setJob s j _).trans (Only.setJob _ j _)
  · cases code with
    | state => exact hmsg rfl
    | argument | cancelled | runtime | oom => trivial

theorem awaitFailed {rc : Rc} {msg : String} (h : (s.jobs j).envInitialized = true)
    (hmsg : msg ∉ outsideErrors) :
    Proper j s (s.awaitFailed (some j) rc msg) := by
  unfold Scheduler.awaitFailed
  split
  · exact fail h (by simp)
  · exact fail h fun _ => hmsg

theorem sleepBack {rc : Rc} (h : (s.jobs j).envInitialized = true) :
    Proper j s (s.sleepBack (some j) rc) := by
  unfold Scheduler.sleepBack
  split
  · exact ⟨Only.refl j s, trivial⟩
  · exact awaitFailed h (by decide)

theorem joinRound {id : Int} (h : (s.jobs j).envInitialized = true) :
    Proper j s (s.joinRound (some j) j id opened) := by
  unfold Scheduler.joinRound
  split
  · exact fail h (by simp)
  · simp only
    split
    · exact fail h (by simp)
    · split
      · split
        · exact ⟨Only.refl j s, rfl⟩
        · refine fail h ?_
          split <;> simp
      · split
        · exact awaitFailed h (by decide)
        · exact ⟨Only.setJob s j _, trivial⟩

theorem fnYield {argc : Nat} (h : (s.jobs j).envInitialized = true) :
    Proper j s (s.fnYield (some j) argc) := by
  simp only [Scheduler.fnYield]
  split
  · exact fail h (by simp)
  · split
    · exact fail h (by simp)
    · exact ⟨Only.refl j s, trivial⟩

theorem fnSleep {arg : Option Int} (h : (s.jobs j).envInitialized = true) :
    Proper j s (s.fnSleep (some j) arg opened) := by
  unfold Scheduler.fnSleep
  split
  · exact fail h (by simp)
  · simp only
    split
    · exact ⟨Only.refl j s, trivial⟩
    · split
      · exact sleepBack h
      · exact ⟨Only.setJob s j _, trivial⟩

theorem fnJoin {arg : Option Int} (h : (s.jobs j).envInitialized = true) :
    Proper j s (s.fnJoin (some j) arg opened) := by
  unfold Scheduler.fnJoin
  split
  · exact fail h (by simp)
  · exact joinRound h

theorem back {w : Wait} {rc status : Rc} (h : (s.jobs j).envInitialized = true) (hw : w.self = j) :
    Proper j s (s.back (some j) w rc status opened) := by
  subst hw
  have hend : ((s.awaitEnd w.self).jobs w.self).envInitialized = true := by
    simpa [Scheduler.awaitEnd] using h
  cases w with
  | yield j =>
    simp only [back, yieldBack]
    split
    · exact fail h (by decide)
    · split
      · exact fail h (by simp)
      · exact ⟨Only.refl _ s, trivial⟩
  | nap j => exact sleepBack h
  | sleep j => exact after (Only.setJob s j _) (sleepBack hend)
  | join j id =>
    simp only [back]
    split
    · exact after (Only.setJob s j _) (awaitFailed hend (by decide))
    · exact after (Only.setJob s j _) (joinRound hend)

end Proper

/-! ## Whose decision an answer is -/

@[simp] theorem fail_reply (s : Scheduler V) (cur : Option Nat) (code : ErrorCode) (msg : String) :
    (s.fail cur code msg).2 = .failed code msg := rfl

theorem awaitFailed_reply (s t : Scheduler V) (cur : Option Nat) (rc : Rc) (msg : String) :
    (t.awaitFailed cur rc msg).2 = (s.awaitFailed cur rc msg).2 := by
  unfold Scheduler.awaitFailed
  split <;> rfl

theorem sleepBack_reply (s t : Scheduler V) (cur : Option Nat) (rc : Rc) :
    (t.sleepBack cur rc).2 = (s.sleepBack cur rc).2 := by
  unfold Scheduler.sleepBack
  split
  · rfl
  · exact awaitFailed_reply s t cur rc _

theorem fnYield_reply (h : t.jobs j = s.jobs j) (argc : Nat) :
    (t.fnYield (some j) argc).2 = (s.fnYield (some j) argc).2 := by
  simp only [Scheduler.fnYield, h]
  split
  · rfl
  · split <;> rfl

theorem fnSleep_reply (s t : Scheduler V) (j : Nat) (arg : Option Int) (opened : Rc) :
    (t.fnSleep (some j) arg opened).2 = (s.fnSleep (some j) arg opened).2 := by
  unfold Scheduler.fnSleep
  split
  · rfl
  · simp only
    split
    · rfl
    · split
      · exact sleepBack_reply s t _ _
      · rfl

/-- Whether a suspension is in `task.join`, whose answer depends on the task it joins. -/
def Wait.joins : Wait → Bool
  | .join _ _ => true
  | _ => false

def Phase.joins : Phase → Bool
  | .suspended w => w.joins
  | _ => false

theorem back_reply (h : t.jobs j = s.jobs j) (hw : w.self = j) (hj : w.joins = false)
    (rc status opened : Rc) :
    (t.back (some j) w rc status opened).2 = (s.back (some j) w rc status opened).2 := by
  subst hw
  cases w with
  | yield j =>
    simp only [back, yieldBack, Wait.self] at h ⊢
    rw [h]
    split
    · rfl
    · split <;> rfl
  | nap j => exact sleepBack_reply s t _ _
  | sleep j =>
    have hrc : t.awaitRc j rc status = s.awaitRc j rc status := by
      simp only [Scheduler.awaitRc]
      rw [show t.jobs j = s.jobs j from h]
    simp only [back, hrc]
    exact sleepBack_reply _ _ _ _
  | join j id => cases hj

/-! ## The thread-local -/

/-- What an event does to the task that is noted as the one on the thread. -/
def switch (cur : Option Nat) : Event V → Option Nat
  | .began j => some j
  | .ended _ | .dropped _ true => none
  | _ => cur

/-- The task that began last on the thread, if no task has ended or been dropped there since. -/
def lastBegun (evs : List (Event V)) : Option Nat := evs.foldl switch none

theorem finish_switch (s : Scheduler V) (i : Nat) (forced : Bool) (cur : Option Nat) :
    (s.finish i forced).2.foldl switch cur = cur := by
  simp only [Scheduler.finish]
  split <;> rfl

theorem settle_switch (out : Scheduler V × Reply V) (c i : Nat) (cur : Option Nat) :
    (settle out c i).2.foldl switch cur = cur := by
  obtain ⟨q, _, he, _⟩ := settle_spec out c i
  rw [he]
  rfl

theorem settle_current (out : Scheduler V × Reply V) (c i : Nat) :
    (settle out c i).1.current = out.1.current := by
  obtain ⟨q, he, _⟩ := settle_spec out c i
  rw [he]
  rfl

theorem step_current {s' : Scheduler V} {op : Op V} {evs : List (Event V)}
    (h : step s op = some (s', evs)) : s'.current = evs.foldl switch s.current := by
  cases op with
  | start c =>
    simp only [step] at h
    split at h
    · rename_i i hc
      simp only [Scheduler.runTask] at h
      split at h
      · cases h
        simp [finish_switch, switch]
      · cases h
        rfl
    · cases h
  | drop c here =>
    simp only [step] at h
    split at h
    · rename_i i hc
      cases h
      cases here <;> simp [finish_switch, switch]
    · cases h
  | resume c rc status opened =>
    simp only [step] at h
    split at h
    · have he := Option.some.inj h
      obtain rfl := congrArg Prod.fst he
      obtain rfl := congrArg Prod.snd he
      rw [settle_current, settle_switch]
      exact (Tame.back s s.current _ rc status opened).current
    · cases h
  | call n =>
    obtain ⟨ci, _, he⟩ := Option.map_eq_some_iff.mp h
    obtain rfl := congrArg Prod.fst he
    obtain rfl := congrArg Prod.snd he
    rw [settle_current, settle_switch]
    exact (native_move s s.current n).current
  | ret v env overQuota =>
    obtain ⟨ci, _, he⟩ := Option.map_eq_some_iff.mp h
    cases he
    simp [finish_switch, switch]
  | host n =>
    cases h
    exact (native_move s none n).current
  | spawnManaged rc =>
    cases h
    exact (spawn_move s none true rc).current
  | close | closeContext =>
    cases h
    rfl
  | closeSlot i =>
    simp only [step] at h
    split at h
    · cases h
      exact (Tame.requestCancel s i).current
    · cases h

theorem current_lastBegun {ops rest : List (Op V)} {capacity : Nat} {os : List (List (Event V))}
    (h : ComesTo step (init capacity) ops s os rest) :
    s.current = lastBegun os.flatten := by
  refine h.rule (P := fun s os => s.current = lastBegun os.flatten) rfl ?_
  intro s os op rest s' evs _ hs ih
  rw [step_current hs, ih]
  simp [lastBegun]

/-! ## The callbacks of a run -/

def Scheduler.codeOf (s : Scheduler V) : Op V → Option Nat
  | .call _ | .ret _ _ _ => s.busy.map Prod.snd
  | .resume c _ _ _ => (s.ready c).map Coroutine.slot
  | _ => none

/-- `task.yield`, `task.sleep` and `task.join`, before and after they suspend. -/
def Op.waits : Op V → Bool
  | .call (.yield _) | .call (.sleep _ _) | .call (.join _ _) | .resume _ _ _ _ => true
  | _ => false

/-- Whether the step is one of `task.join`. -/
def Scheduler.joins (s : Scheduler V) : Op V → Bool
  | .call (.join _ _) => true
  | .resume c _ _ _ => (s.ready c).any fun co => co.phase.joins
  | _ => false

/-- Code that executes now is that of job `j`. -/
structure InTask (s : Scheduler V) (j : Nat) : Prop where
  current : s.current = some j
  env : s.executionEnv s.current = some j

/-- What `task.yield`, `task.sleep` and `task.join` promise in the callback of `j`. -/
structure OwnWait (s : Scheduler V) (op : Op V) (j : Nat) (s' : Scheduler V)
    (evs : List (Event V)) : Prop where
  only : Only j s s'
  fits : ∀ r, .reply r ∈ evs → r.Fits j
  decided : s.joins op = false → ∀ t t' evs', t.current = s.current → t.running = s.running →
    t.coros = s.coros → t.jobs j = s.jobs j → step t op = some (t', evs') → evs' = evs

/-! ## The local of a suspended function -/

theorem awaitFailed_goesOn (s : Scheduler V) (cur : Option Nat) (rc : Rc) (msg : String)
    (w : Wait) : (s.awaitFailed cur rc msg).2 ≠ .suspended w := by
  unfold Scheduler.awaitFailed
  split <;> simp

theorem sleepBack_goesOn (s : Scheduler V) (cur : Option Nat) (rc : Rc) (w : Wait) :
    (s.sleepBack cur rc).2 ≠ .suspended w := by
  unfold Scheduler.sleepBack
  split
  · simp
  · exact awaitFailed_goesOn s cur rc _ w

theorem joinRound_self {cur : Option Nat} {self : Nat} {id : Int} {opened : Rc}
    (h : (s.joinRound cur self id opened).2 = .suspended w) : w.self = self := by
  unfold Scheduler.joinRound at h
  split at h
  · cases h
  · simp only at h
    split at h
    · cases h
    · split at h
      · split at h <;> cases h
      · split at h
        · exact absurd h (awaitFailed_goesOn s cur opened _ w)
        · cases h
          rfl

theorem back_self {cur : Option Nat} {w' : Wait} {rc status opened : Rc}
    (h : (s.back cur w rc status opened).2 = .suspended w') : w'.self = w.self := by
  cases w with
  | yield j =>
    simp only [back, yieldBack] at h
    split at h
    · cases h
    · split at h <;> cases h
  | nap j => exact absurd h (sleepBack_goesOn s cur rc w')
  | sleep j => exact absurd h (sleepBack_goesOn _ cur _ w')
  | join j id =>
    simp only [back] at h
    split at h
    · exact absurd h (awaitFailed_goesOn _ cur _ _ w')
    · exact joinRound_self h

theorem native_self {cur : Option Nat} {n : Native} (h : (s.native cur n).2 = .suspended w) :
    cur = some w.self := by
  cases n with
  | yield argc =>
    simp only [native, Scheduler.fnYield] at h
    split at h
    · cases h
    · cases cur with
      | none => cases h
      | some j =>
        simp only at h
        split at h
        · cases h
        · cases h
          rfl
  | sleep arg opened =>
    simp only [native, Scheduler.fnSleep] at h
    split at h
    · cases h
    · cases cur with
      | none => cases h
      | some j =>
        simp only at h
        split at h
        · cases h
          rfl
        · split at h
          · exact absurd h (sleepBack_goesOn s _ opened w)
          · cases h
            rfl
  | join arg opened =>
    simp only [native, Scheduler.fnJoin] at h
    split at h
    · cases h
    · cases cur with
      | none => cases h
      | some j => rw [joinRound_self h]
  | spawn isFunction rc =>
    simp only [native, Scheduler.fnSpawn] at h
    split at h
    · simp only [Scheduler.spawn] at h
      split at h
      · cases h
      · split at h
        · cases h
        · split at h <;> cases h
    · cases h
  | status arg =>
    simp only [native, Scheduler.fnStatus] at h
    split at h <;> cases h
  | result arg =>
    simp only [native, Scheduler.fnResult] at h
    split at h
    · cases h
    · split at h <;> cases h
  | cancel arg =>
    simp only [native, Scheduler.fnCancel] at h
    split at h
    · cases h
    · split at h <;> cases h
  | release arg =>
    simp only [native, Scheduler.fnRelease] at h
    split at h
    · cases h
    · split at h <;> cases h
  | activeCount argc =>
    simp only [native, Scheduler.fnActive] at h
    split at h <;> cases h

/-- The state between two steps that the right identity needs: what suspended functions have kept
is their own job, and the callback that runs is that of the current task. -/
structure Own (s : Scheduler V) : Prop where
  self : ∀ c i w, s.coros c = some ⟨i, .suspended w⟩ → w.self = i
  now : ∀ c i, s.busy = some (c, i) → s.current = some i

namespace Own

theorem init (capacity : Nat) : Own (init capacity : Scheduler V) where
  self _ _ _ h := by cases h
  now _ _ h := by cases h

theorem move {s s' : Scheduler V} (h : Own s) (hl : Live s) (k : Move s s') : Own s' := by
  have hcoros : ∀ c co, s'.coros c = some co → co.phase ≠ .queued → s.coros c = some co := by
    intro c co hc hp
    obtain k | ⟨i, k⟩ := k
    · exact k.coros ▸ hc
    · by_cases he : c = s.nextCoro
      · obtain rfl : Coroutine.mk i .queued = co := by simpa [k.coros, he] using hc
        exact absurd rfl hp
      · simpa [k.coros, he] using hc
  refine ⟨?_, ?_⟩
  · intro c i w hc
    exact h.self c i w (hcoros c _ hc (by simp))
  · intro c i hb
    obtain ⟨hr, p, hc⟩ := busy_some hb
    rw [k.running] at hr
    -- the coroutine that runs was there before, in its callback
    obtain ⟨j, hj⟩ := hl.runs c hr
    obtain rfl : j = i := by
      have := (hl.moved k hj).symm.trans hc
      cases this
      rfl
    rw [k.current]
    exact h.now c j (by simp [busy, hr, hj])

theorem settle {out : Scheduler V × Reply V} {c i : Nat} (h : Own out.1)
    (hcur : out.1.current = some i) (hself : ∀ w, out.2 = .suspended w → w.self = i) :
    Own (settle out c i).1 := by
  obtain ⟨q, hq, _, hw⟩ := settle_spec out c i
  rw [hq]
  refine ⟨?_, ?_⟩
  · intro d j w hd
    by_cases hdc : d = c
    · subst hdc
      have he : (⟨i, q⟩ : Coroutine) = ⟨j, .suspended w⟩ := by simpa using hd
      cases he
      exact hself w (hw w rfl)
    · exact h.self d j w (by simpa [hdc] using hd)
  · intro d j hb
    obtain ⟨hr, p, hd⟩ := busy_some hb
    by_cases hqc : q = .inCallback
    · obtain rfl : c = d := by simpa [hqc] using hr
      have he : (⟨i, q⟩ : Coroutine) = ⟨j, p⟩ := by simpa using hd
      cases he
      exact hcur
    · simp [hqc] at hr

theorem idle {s s' : Scheduler V} {c : Nat} (h : Own s)
    (hcoros : s'.coros = Function.update s.coros c none) (hr : s'.running = none) : Own s' := by
  refine ⟨?_, ?_⟩
  · intro d i w hd
    by_cases hdc : d = c
    · simp [hcoros, hdc] at hd
    · exact h.self d i w (by simpa [hcoros, hdc] using hd)
  · intro d i hb
    rw [(busy_some hb).1] at hr
    cases hr

theorem runTask {s : Scheduler V} {c i : Nat} (h : Own s) (hr : s.running = none) :
    Own (s.runTask c i).1 := by
  simp only [Scheduler.runTask]
  split
  · obtain ⟨hcoros, _, hrun, _⟩ :=
      finish_frame (s.setJob i { s.jobs i with cancelled := true }) i true
    refine h.idle (c := c) ?_ ?_
    · simp [setCoro, hcoros]
    · simpa [setCoro, hr] using hrun
  · refine ⟨?_, ?_⟩
    · intro d j w hd
      by_cases hdc : d = c
      · simp [hdc] at hd
      · exact h.self d j w (by simpa [hdc] using hd)
    · intro d j hb
      obtain ⟨hd, p, hj⟩ := busy_some hb
      obtain rfl : c = d := by simpa using hd
      have he : (⟨i, .inCallback⟩ : Coroutine) = ⟨j, p⟩ := by simpa using hj
      cases he
      rfl

theorem cancelTask {s : Scheduler V} {c i : Nat} (h : Own s) (here : Bool)
    (hr : here = true → s.running = none) : Own (s.cancelTask c i here).1 := by
  obtain ⟨hcoros, _, hrun, _⟩ :=
    finish_frame (s.setJob i { s.jobs i with cancelled := true }) i true
  refine ⟨?_, ?_⟩
  · intro d j w hd
    by_cases hdc : d = c
    · simp [Scheduler.cancelTask, hdc] at hd
    · exact h.self d j w (by simpa [Scheduler.cancelTask, hdc, hcoros] using hd)
  · intro d j hb
    obtain ⟨hd, p, hj⟩ := busy_some hb
    have hd' : s.running = some d := by
      simpa [Scheduler.cancelTask, setCoro, hrun] using hd
    cases here with
    | true =>
      rw [hr rfl] at hd'
      cases hd'
    | false =>
      have hdc : d ≠ c := by
        intro he
        simp [Scheduler.cancelTask, he] at hj
      have hj' : s.coros d = some ⟨j, p⟩ := by
        simpa [Scheduler.cancelTask, hdc, hcoros] using hj
      exact h.now d j (by simp [busy, hd', hj'])

theorem step {s s' : Scheduler V} {op : Op V} {evs : List (Event V)} (h : Own s) (hl : Live s)
    (hs : step s op = some (s', evs))
    (hres : ∀ c rc status opened, op = .resume c rc status opened →
      ∀ i w, s.ready c = some ⟨i, .suspended w⟩ → s.current = some i) : Own s' := by
  cases op with
  | start c =>
    simp only [Task.step] at hs
    split at hs
    · rename_i i hc
      obtain rfl := congrArg Prod.fst (Option.some.inj hs)
      exact h.runTask (ready_some hc).1
    · cases hs
  | drop c here =>
    simp only [Task.step] at hs
    split at hs
    · rename_i i hc
      obtain rfl := congrArg Prod.fst (Option.some.inj hs)
      refine h.cancelTask here ?_
      intro hh
      subst hh
      exact (ready_some (by simpa using hc)).1
    · cases hs
  | resume c rc status opened =>
    simp only [Task.step] at hs
    split at hs
    · rename_i i w hc
      obtain rfl := congrArg Prod.fst (Option.some.inj hs)
      have hmove : Move s (s.back s.current w rc status opened).1 :=
        .inl (Tame.back s s.current w rc status opened)
      refine settle (h.move hl hmove) ?_ ?_
      · rw [hmove.current]
        exact hres c rc status opened rfl i w hc
      · intro w' hw
        rw [back_self hw]
        exact h.self c i w (ready_some hc).2
    · cases hs
  | call n =>
    obtain ⟨ci, hb, he⟩ := Option.map_eq_some_iff.mp hs
    obtain rfl := congrArg Prod.fst he
    have hmove := native_move s s.current n
    have hcur := h.now ci.1 ci.2 hb
    refine settle (h.move hl hmove) (hmove.current.trans hcur) ?_
    intro w hw
    exact Option.some.inj ((native_self hw).symm.trans hcur)
  | ret v env overQuota =>
    obtain ⟨ci, hb, he⟩ := Option.map_eq_some_iff.mp hs
    obtain rfl := congrArg Prod.fst he
    simp only [Scheduler.callbackEnd]
    generalize hj : (if overQuota then _ else _ : Job V) = j
    obtain ⟨hcoros, _⟩ := finish_frame (s.setJob ci.2 j) ci.2 false
    refine h.idle (c := ci.1) ?_ rfl
    simp [setCoro, hcoros]
  | host n =>
    obtain rfl := congrArg Prod.fst (Option.some.inj hs)
    exact h.move hl (native_move s none n)
  | spawnManaged rc =>
    obtain rfl := congrArg Prod.fst (Option.some.inj hs)
    exact h.move hl (spawn_move s none true rc)
  | close | closeContext =>
    obtain rfl := congrArg Prod.fst (Option.some.inj hs)
    exact ⟨h.self, h.now⟩
  | closeSlot i =>
    simp only [Task.step] at hs
    split at hs
    · obtain rfl := congrArg Prod.fst (Option.some.inj hs)
      exact h.move hl (.inl (Tame.requestCancel s i))
    · cases hs

end Own

/-! ## The identity of tasks over a run -/

theorem settle_events (out : Scheduler V × Reply V) (c i : Nat) :
    (settle out c i).2 = [.reply out.2] := by
  obtain ⟨_, _, he, _⟩ := settle_spec out c i
  exact he

theorem Proper.settle {c i : Nat} {out : Scheduler V × Reply V} (h : Proper j s out) :
    Only j s (Scheduler.settle out c i).1 ∧ ∀ r, .reply r ∈ (Scheduler.settle out c i).2 → r.Fits j := by
  obtain ⟨q, hq, he, _⟩ := settle_spec out c i
  refine ⟨?_, ?_⟩
  · rw [hq]
    exact h.only.trans ⟨fun _ _ => rfl, rfl, rfl⟩
  · intro r hr
    obtain rfl : r = out.2 := by simpa [he] using hr
    exact h.fits

theorem native_proper {n : Native} (h : (s.jobs j).envInitialized = true)
    (hn : (Op.call n : Op V).waits = true) :
    Proper j s (s.native (some j) n) := by
  cases n with
  | yield argc => exact Proper.fnYield h
  | sleep arg opened => exact Proper.fnSleep h
  | join arg opened => exact Proper.fnJoin h
  | spawn | status | result | cancel | release | activeCount => cases hn

theorem native_reply {n : Native} (h : t.jobs j = s.jobs j) (hn : (Op.call n : Op V).waits = true)
    (hj : s.joins (.call n) = false) :
    (t.native (some j) n).2 = (s.native (some j) n).2 := by
  cases n with
  | yield argc => exact fnYield_reply h argc
  | sleep arg opened => exact fnSleep_reply s t j arg opened
  | join arg opened => cases hj
  | spawn | status | result | cancel | release | activeCount => cases hn

theorem ownWait {s' : Scheduler V} {op : Op V} {evs : List (Event V)} (h : Own s) (hl : Live s)
    (hs : step s op = some (s', evs)) (hj : s.codeOf op = some j) (hcur : s.current = some j)
    (hw : op.waits = true) : OwnWait s op j s' evs := by
  cases op with
  | call n =>
    obtain ⟨ci, hb, he⟩ := Option.map_eq_some_iff.mp hs
    obtain rfl : ci.2 = j := by simpa [Scheduler.codeOf, hb] using hj
    obtain ⟨hr, p, hc⟩ := busy_some hb
    have henv := (hl.job ci.1 _ hc).env
    have hproper := native_proper (n := n) henv hw
    rw [hcur] at he
    obtain rfl := congrArg Prod.fst he
    obtain rfl := congrArg Prod.snd he
    refine ⟨hproper.settle.1, hproper.settle.2, ?_⟩
    intro hjoin t t' evs' htcur htrun htcoros htjob ht
    have htb : t.busy = some ci := by
      rw [← hb]
      simp [busy, htrun, htcoros]
    obtain ⟨ci', hb', he'⟩ := Option.map_eq_some_iff.mp ht
    obtain rfl : ci = ci' := Option.some.inj (htb.symm.trans hb')
    rw [htcur, hcur] at he'
    obtain rfl := congrArg Prod.snd he'
    rw [settle_events, settle_events, native_reply htjob hw hjoin]
  | resume c rc status opened =>
    simp only [step] at hs
    split at hs
    · rename_i i w hc
      obtain rfl : i = j := by simpa [Scheduler.codeOf, hc] using hj
      have hcoro := (ready_some hc).2
      have henv := (hl.job c _ hcoro).env
      have hself := h.self c i w hcoro
      have hproper : Proper i s (s.back (some i) w rc status opened) := Proper.back henv hself
      have he := Option.some.inj hs
      rw [hcur] at he
      obtain rfl := congrArg Prod.fst he
      obtain rfl := congrArg Prod.snd he
      refine ⟨hproper.settle.1, hproper.settle.2, ?_⟩
      intro hjoin t t' evs' htcur htrun htcoros htjob ht
      have hready : t.ready c = some ⟨i, .suspended w⟩ := by
        rw [← hc]
        simp [Scheduler.ready, htrun, htcoros]
      have hwj : w.joins = false := by
        simpa [Scheduler.joins, hc, Phase.joins] using hjoin
      simp only [step, hready] at ht
      have he' := Option.some.inj ht
      rw [htcur, hcur] at he'
      obtain rfl := congrArg Prod.snd he'
      rw [settle_events, settle_events, back_reply htjob hself hwj rc status opened]
    · cases hs
  | start | drop | ret | host | spawnManaged | close | closeContext | closeSlot => cases hw

/-- Whenever code of a task's callback executes in the run, it executes as that task: between two
steps, and in each step that is its own, where a wait also touches and depends on no other task
but one it joins. -/
def KeepsIdentity (capacity : Nat) (ops : List (Op V)) : Prop :=
  (∀ s os rest, ComesTo step (init capacity) ops s os rest → ∀ c j, s.busy = some (c, j) → InTask s j) ∧
  ∀ s os op rest s' evs, ComesTo step (init capacity) ops s os (op :: rest) →
    step s op = some (s', evs) → ∀ j, s.codeOf op = some j →
      InTask s j ∧ (op.waits = true → OwnWait s op j s' evs)

/-- Every task that is resumed in the run is the one that began last on the thread, and no task
has ended or been dropped there since. -/
def Undisturbed (capacity : Nat) (ops : List (Op V)) : Prop :=
  ∀ s os c rc status opened rest,
    ComesTo step (init capacity) ops s os (.resume c rc status opened :: rest) →
      ∀ i w, s.ready c = some ⟨i, .suspended w⟩ → lastBegun os.flatten = some i

theorem own_reaches {capacity : Nat} {ops : List (Op V)} (hu : Undisturbed capacity ops)
    {os : List (List (Event V))} {rest : List (Op V)}
    (h : ComesTo step (init capacity) ops s os rest) : Own s := by
  refine h.rule (P := fun s _ => Own s) (Own.init capacity) ?_
  intro s os op rest s' evs hr hs hown
  refine hown.step (Live.reaches hr) hs ?_
  intro c rc status opened hop i w hc
  subst hop
  rw [current_lastBegun hr]
  exact hu s os c rc status opened rest hr i w hc

theorem inTask {c : Nat} {p : Phase} (hl : Live s) (hc : s.coros c = some ⟨j, p⟩)
    (hcur : s.current = some j) : InTask s j := by
  refine ⟨hcur, ?_⟩
  rw [hcur]
  exact executionEnv_own (hl.job c _ hc).env

/-- The code of tasks acts as the tasks it belongs to exactly in the runs where no task is resumed
after another has begun, ended or been dropped on the thread. -/
theorem task_identity (capacity : Nat) (ops : List (Op V)) :
    KeepsIdentity capacity ops ↔ Undisturbed capacity ops := by
  apply Iff.intro
  · intro h s os c rc status opened rest hr i w hc
    -- the step itself is one of the callback of `i`
    have hcode : s.codeOf (.resume c rc status opened) = some i := by
      simp [Scheduler.codeOf, hc]
    have hstep : step s (.resume c rc status opened) =
        some (settle (s.back s.current w rc status opened) c i) := by
      simp [step, hc]
    have hin := (h.2 s os _ rest _ _ hr hstep i hcode).1
    rw [← current_lastBegun hr]
    exact hin.current
  · intro hu
    refine ⟨?_, ?_⟩
    · intro s os rest hr c j hb
      obtain ⟨_, p, hc⟩ := busy_some hb
      exact inTask (Live.reaches hr) hc ((own_reaches hu hr).now c j hb)
    · intro s os op rest s' evs hr hs j hj
      have hl := Live.reaches hr
      have hown := own_reaches hu hr
      have hin : InTask s j := by
        cases op with
        | call | ret =>
          obtain ⟨ci, hb, rfl⟩ := Option.map_eq_some_iff.mp hj
          obtain ⟨_, p, hc⟩ := busy_some hb
          exact inTask hl hc (hown.now ci.1 ci.2 hb)
        | resume c rc status opened =>
          simp only [step] at hs
          split at hs
          · rename_i i w hc
            obtain rfl : i = j := by simpa [Scheduler.codeOf, hc] using hj
            refine inTask hl (ready_some hc).2 ?_
            rw [current_lastBegun hr]
            exact hu s os c rc status opened rest hr i w hc
          · cases hs
        | start | drop | host | spawnManaged | close | closeContext | closeSlot => cases hj
      exact ⟨hin, ownWait hown hl hs hj hin.current⟩

/-- Two tasks are spawned. The first yields, the second runs to its end, and the first goes on and
yields again. -/
def twoTasks : List (Op Unit) :=
  [.host (.spawn true .ok), .host (.spawn true .ok), .start 0, .call (.yield 0), .start 1,
    .ret (.number 0) {} false, .resume 0 .ok .ok .ok, .call (.yield 0)]

/-- The end of the second task has cleared the thread-local, so the first is told that it is no
task, and the error aborts the context's environment. -/
theorem identity_lost : (runOut step (init 2) twoTasks).map (fun r => (r.2.getLast?, r.1.ctxEnv.aborted)) =
        some (some [.reply (.failed .state
          "task.yield: may only be called from task.spawn callback")], true) ∧
      ¬ KeepsIdentity 2 twoTasks := by
  refine ⟨by decide, ?_⟩
  intro h
  have hrun : (runOut step (init 2) (twoTasks.take 7)).map (fun r => (r.1.busy, r.1.current)) =
      some (some (0, 0), none) := by decide
  obtain ⟨⟨s, os⟩, hs, he⟩ := Option.map_eq_some_iff.mp hrun
  obtain ⟨hbusy, hcur⟩ := Prod.mk.inj he
  have hin := h.1 s os (twoTasks.drop 7) ⟨twoTasks.take 7, rfl, hs⟩ 0 0 hbusy
  have hself : s.current = some 0 := hin.current
  rw [hcur] at hself
  cases hself

/- A task that begins after the other has ended waits undisturbed. -/
example : (runOut step (init 2)
    [.host (.spawn true .ok), .host (.spawn true .ok), .start 0, .ret (.number 0) {} false,
      .start 1, .call (.sleep (some 5) .ok), .resume 1 .ok .ok .ok, .call (.yield 0)] :
      Option (Scheduler Unit × _)).map (fun r => r.2.drop 5) =
    some [[.reply (.suspended (.sleep 1))], [.reply (.answered (.number 0))],
      [.reply (.suspended (.yield 1))]] := by decide

end TurboScript.Runtime.Task
