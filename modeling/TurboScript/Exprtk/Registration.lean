import Mathlib.Data.List.Nodup
import Mathlib.Data.List.Forall2
import TurboScript.Exprtk.Value

/- Registering native functions as a batch (`exprtk_env_register_funcs_checked_with_fault`).

   1. Function lists, lookup along the chain of environments (`exprtk_call_internal`,
      `exprtk_env_has_func`), and the registration with its two loops. An allocation fails by
      its index: the fault hook is asked first, then `malloc`.
   2. The validating loop accepts exactly the batches that are complete, distinct and new.
   3. The allocating loop makes two allocations an entry and leaves the batch in reverse.
   4. Registration is all or nothing (`registration_atomic`). -/
namespace TurboScript.Exprtk.Registration

section Functions
variable {F U S : Type}

structure Native (F U : Type) where
  fn : F
  userData : U
  flags : UInt32

/-- `exprtk_func_t`: a name and a native or a script function. -/
structure FuncEntry (F U S : Type) where
  name : Option Name
  data : Native F U ⊕ S

/-- An environment as a lookup sees it: its own list and those of its ancestors. -/
structure Chain (F U S : Type) where
  funcs : List (FuncEntry F U S)
  parents : List (List (FuncEntry F U S))

def FuncEntry.named (name : Name) (f : FuncEntry F U S) : Bool := f.name == some name

/-- The first function of a name: the nearest environment, the head of its list. -/
def findFunc (env : Chain F U S) (name : Name) : Option (FuncEntry F U S) :=
  (env.funcs :: env.parents).findSome? fun funcs => funcs.find? (FuncEntry.named name)

/-- `exprtk_env_has_func`. -/
def hasFunc (env : Chain F U S) (name : Name) : Bool :=
  (env.funcs :: env.parents).any fun funcs => funcs.any (FuncEntry.named name)

/-- `exprtk_native_registration_t`. -/
structure NativeRegistration (F U : Type) where
  name : Option Name
  fn : Option F
  userData : U
  flags : UInt32

inductive Status
  | ok | invalidArgument | conflict | outOfMemory
  deriving DecidableEq, Repr

/-- `EXPRTK_NATIVE_FLAG_MASK`. -/
def flagMask : UInt32 := 1

def sizeMax : Nat := 2 ^ 64 - 1

/-- The validating loop; `seen` are the entries before. -/
def validate (env : Chain F U S) (seen : List (NativeRegistration F U)) :
    List (NativeRegistration F U) → Status
  | [] => .ok
  | r :: rest =>
    match r.name, r.fn with
    | some name, some _ =>
      if r.flags &&& ~~~flagMask ≠ 0 then .invalidArgument
      else if hasFunc env name then .conflict
      else if seen.any fun s => s.name == some name then .conflict
      else validate env (seen ++ [r]) rest
    | _, _ => .invalidArgument

/-- What the second loop leaves: the pending list, or none when an allocation failed, and the
    number of allocations asked for. -/
structure Pending (F U S : Type) where
  head : Option (List (FuncEntry F U S))
  allocations : Nat

/-- The allocating loop; `fails` is asked with the index of the allocation. -/
def build (fails : Nat → Bool) (index : Nat) (pending : List (FuncEntry F U S)) :
    List (NativeRegistration F U) → Pending F U S
  | [] => ⟨some pending, index⟩
  | r :: rest =>
    match r.name, r.fn with
    | some name, some fn =>
      if fails index then ⟨none, index + 1⟩
      else if name.utf8ByteSize = sizeMax ∨ fails (index + 1) then ⟨none, index + 2⟩
      else build fails (index + 2) (⟨some name, .inl ⟨fn, r.userData, r.flags⟩⟩ :: pending) rest
    -- the first loop has refused an entry without a name or a function
    | _, _ => ⟨none, index⟩

structure Outcome (F U S : Type) where
  status : Status
  env : Option (Chain F U S)
  allocations : Nat := 0

/-- An allocation fails by the hook's verdict or by `malloc`'s. -/
def allocationFails (shouldFail : Option (Nat → Bool)) (malloc : Nat → Bool) (index : Nat) : Bool :=
  (match shouldFail with
    | some hook => hook index
    | none => false) || malloc index

/-- `exprtk_env_register_funcs_checked_with_fault`. -/
def registerFuncsChecked (env : Option (Chain F U S))
    (registrations : Option (List (NativeRegistration F U))) (count : Nat)
    (shouldFail : Option (Nat → Bool)) (malloc : Nat → Bool) : Outcome F U S :=
  match env, registrations with
  | none, _ => ⟨.invalidArgument, none, 0⟩
  | some _, none => if count ≠ 0 then ⟨.invalidArgument, env, 0⟩ else ⟨.ok, env, 0⟩
  | some e, some array =>
    let batch := array.take count
    match validate e [] batch with
    | .ok =>
      match build (allocationFails shouldFail malloc) 0 [] batch with
      | ⟨none, n⟩ => ⟨.outOfMemory, env, n⟩
      | ⟨some pending, n⟩ => ⟨.ok, some { e with funcs := pending ++ e.funcs }, n⟩
    | status => ⟨status, env, 0⟩

end Functions

/-! Lookup. -/

section Lookup
variable {F U S : Type} {env : Chain F U S} {name : Name}

theorem findFunc_eq_none_iff : findFunc env name = none ↔ hasFunc env name = false := by
  simp [findFunc, hasFunc, FuncEntry.named]

theorem findFunc_append (pending : List (FuncEntry F U S)) :
    findFunc { env with funcs := pending ++ env.funcs } name =
      (pending.find? (FuncEntry.named name)).or (findFunc env name) := by
  simp only [findFunc, List.findSome?_cons, List.find?_append]
  cases pending.find? (FuncEntry.named name) <;> rfl

theorem find?_of_mem {l : List (FuncEntry F U S)} (hd : (l.map FuncEntry.name).Nodup)
    {f : FuncEntry F U S} (hf : f ∈ l) (hn : f.name = some name) :
    l.find? (FuncEntry.named name) = some f := by
  induction l with
  | nil => simp at hf
  | cons g l ih =>
    obtain ⟨hg, hl⟩ := List.nodup_cons.mp hd
    rcases List.mem_cons.mp hf with rfl | hf
    · simp [FuncEntry.named, hn]
    · have hne : FuncEntry.named name g = false := by
        have hmem : f.name ∈ l.map FuncEntry.name := List.mem_map_of_mem hf
        have hdiff : g.name ≠ some name := fun h => hg (by rw [h, ← hn]; exact hmem)
        simpa [FuncEntry.named] using hdiff
      rw [List.find?_cons, hne]
      exact ih hl hf

end Lookup

/-! The two loops. -/

section Loops
variable {F U S : Type} {env : Chain F U S}

def Complete (r : NativeRegistration F U) : Prop :=
  r.name.isSome ∧ r.fn.isSome ∧ r.flags &&& ~~~flagMask = 0

structure Valid (env : Chain F U S) (batch : List (NativeRegistration F U)) : Prop where
  complete : ∀ r ∈ batch, Complete r
  distinct : (batch.map NativeRegistration.name).Nodup
  fresh : ∀ r ∈ batch, ∀ name, r.name = some name → findFunc env name = none

theorem valid_cons {r : NativeRegistration F U} {rest : List (NativeRegistration F U)} :
    Valid env (r :: rest) ↔ (Complete r ∧ (∀ name, r.name = some name → findFunc env name = none) ∧
        ∀ s ∈ rest, r.name ≠ s.name) ∧ Valid env rest := by
  constructor
  · intro h
    obtain ⟨hr, hrest⟩ := List.forall_mem_cons.mp h.complete
    obtain ⟨hnew, hnews⟩ := List.forall_mem_cons.mp h.fresh
    obtain ⟨hd, hds⟩ := List.nodup_cons.mp h.distinct
    refine ⟨⟨hr, hnew, fun s hs heq => hd ?_⟩, ⟨hrest, hds, hnews⟩⟩
    rw [heq]
    exact List.mem_map_of_mem hs
  · rintro ⟨⟨hr, hnew, hd⟩, h⟩
    refine ⟨List.forall_mem_cons.mpr ⟨hr, h.complete⟩, List.nodup_cons.mpr ⟨?_, h.distinct⟩,
      List.forall_mem_cons.mpr ⟨hnew, h.fresh⟩⟩
    intro hmem
    obtain ⟨s, hs, heq⟩ := List.mem_map.mp hmem
    exact hd s hs heq.symm

theorem validate_ok_iff (batch seen : List (NativeRegistration F U)) : validate env seen batch = .ok ↔
      Valid env batch ∧ ∀ s ∈ seen, ∀ r ∈ batch, s.name ≠ r.name := by
  induction batch generalizing seen with
  | nil => exact iff_of_true rfl ⟨⟨by simp, by simp, by simp⟩, by simp⟩
  | cons r rest ih =>
    obtain ⟨name, fn, userData, flags⟩ := r
    rw [valid_cons, validate]
    cases name with
    | none => simp [Complete]
    | some name =>
      cases fn with
      | none => simp [Complete]
      | some fn =>
        by_cases hflags : flags &&& ~~~flagMask = 0
        · cases hfunc : hasFunc env name with
          | true =>
            have hfound : findFunc env name ≠ none := by simp [findFunc_eq_none_iff, hfunc]
            simp [hflags, hfunc, hfound]
          | false =>
            have hnew := findFunc_eq_none_iff.mpr hfunc
            by_cases hseen : ∃ s ∈ seen, s.name = some name
            · obtain ⟨s, hs, heq⟩ := hseen
              have hany : (seen.any fun s => s.name == some name) = true :=
                List.any_eq_true.mpr ⟨s, hs, by simpa using heq⟩
              simp only [hflags, hfunc, hany, ne_eq, not_true_eq_false, Bool.false_eq_true, if_false,
                if_true, reduceCtorEq, false_iff]
              exact fun h => h.2 s hs _ (List.mem_cons_self ..) heq
            · have hany : (seen.any fun s => s.name == some name) = false := by
                simpa using hseen
              simp only [hflags, hfunc, hany, ne_eq, not_true_eq_false, Bool.false_eq_true, if_false]
              rw [ih]
              simp only [Complete, hflags, List.forall_mem_cons, List.forall_mem_append]
              push Not at hseen
              constructor
              · rintro ⟨hvalid, hold, hthis, -⟩
                exact ⟨⟨⟨⟨rfl, rfl, trivial⟩, fun n hn => by cases hn; exact hnew, hthis⟩, hvalid⟩,
                  fun s hs => ⟨hseen s hs, hold s hs⟩⟩
              · rintro ⟨⟨⟨-, -, hthis⟩, hvalid⟩, hold⟩
                exact ⟨hvalid, fun s hs => (hold s hs).2, hthis, by simp⟩
        · simp [hflags, Complete]

theorem validate_batch_iff (batch : List (NativeRegistration F U)) :
    validate env [] batch = .ok ↔ Valid env batch := by
  rw [validate_ok_iff]
  exact and_iff_left (by simp)

theorem validate_ne_outOfMemory (batch seen : List (NativeRegistration F U)) :
    validate env seen batch ≠ .outOfMemory := by
  induction batch generalizing seen with
  | nil => simp [validate]
  | cons r rest ih =>
    rw [validate]
    split
    · split
      · simp
      · split
        · simp
        · split
          · simp
          · exact ih _
    · simp

def entry (name : Name) (fn : F) (r : NativeRegistration F U) : FuncEntry F U S :=
  ⟨some name, .inl ⟨fn, r.userData, r.flags⟩⟩

def EntryOf (f : FuncEntry F U S) (r : NativeRegistration F U) : Prop :=
  ∃ name fn, r.name = some name ∧ r.fn = some fn ∧ f = entry name fn r

theorem build_some {fails : Nat → Bool} {batch : List (NativeRegistration F U)} {index n : Nat}
    {pending head : List (FuncEntry F U S)}
    (h : build fails index pending batch = ⟨some head, n⟩) :
    ∃ made, head = made.reverse ++ pending ∧ List.Forall₂ EntryOf made batch := by
  induction batch generalizing index pending with
  | nil =>
    cases h
    exact ⟨[], rfl, .nil⟩
  | cons r rest ih =>
    rw [build] at h
    split at h
    · next name fn hname hfn =>
      split at h
      · cases h
      · split at h
        · cases h
        · obtain ⟨made, rfl, hmade⟩ := ih h
          exact ⟨entry name fn r :: made, by simp [entry], .cons ⟨name, fn, hname, hfn, rfl⟩ hmade⟩
    · cases h

end Loops

/-! The whole registration. -/

section Whole
variable {F U S : Type}

structure Registered (before after : Chain F U S) (batch : List (NativeRegistration F U)) : Prop where
  valid : Valid before batch
  parents : after.parents = before.parents
  resolves : ∀ r ∈ batch, ∃ name fn, r.name = some name ∧ r.fn = some fn ∧
    findFunc after name = some (entry name fn r)
  kept : ∀ name f, findFunc before name = some f → findFunc after name = some f

theorem map_name_of_made {made : List (FuncEntry F U S)} {batch : List (NativeRegistration F U)}
    (h : List.Forall₂ EntryOf made batch) :
    made.map FuncEntry.name = batch.map NativeRegistration.name := by
  induction h with
  | nil => rfl
  | cons hf _ ih =>
    obtain ⟨name, fn, hname, -, rfl⟩ := hf
    rw [List.map_cons, List.map_cons, ih, hname]
    rfl

theorem made_of_mem {made : List (FuncEntry F U S)} {batch : List (NativeRegistration F U)}
    (h : List.Forall₂ EntryOf made batch) {r : NativeRegistration F U} (hr : r ∈ batch) :
    ∃ f ∈ made, EntryOf f r := by
  induction h with
  | nil => simp at hr
  | cons hf _ ih =>
    rcases List.mem_cons.mp hr with rfl | hr
    · exact ⟨_, List.mem_cons_self .., hf⟩
    · obtain ⟨g, hg, hgr⟩ := ih hr
      exact ⟨g, List.mem_cons_of_mem _ hg, hgr⟩

theorem registered_of_made {env : Chain F U S} {made : List (FuncEntry F U S)}
    {batch : List (NativeRegistration F U)} (hv : Valid env batch)
    (hmade : List.Forall₂ EntryOf made batch) :
    Registered env { env with funcs := made.reverse ++ env.funcs } batch := by
  have hnames := map_name_of_made hmade
  have hnodup : (made.reverse.map FuncEntry.name).Nodup := by
    rw [List.map_reverse, List.nodup_reverse, hnames]
    exact hv.distinct
  refine ⟨hv, rfl, fun r hr => ?_, fun name f hf => ?_⟩
  · obtain ⟨f, hf, name, fn, hname, hfn, rfl⟩ := made_of_mem hmade hr
    refine ⟨name, fn, hname, hfn, ?_⟩
    have hfound : made.reverse.find? (FuncEntry.named name) = some _ :=
      find?_of_mem hnodup (List.mem_reverse.mpr hf) rfl
    rw [findFunc_append, hfound]
    rfl
  · -- a visible name is in no entry of the batch
    have hnone : made.reverse.find? (FuncEntry.named name) = none := by
      rw [List.find?_eq_none]
      intro g hg hnamed
      have hgname : g.name = some name := by simpa [FuncEntry.named] using hnamed
      have hmem : some name ∈ batch.map NativeRegistration.name := by
        rw [← hnames, ← hgname]
        exact List.mem_map_of_mem (List.mem_reverse.mp hg)
      obtain ⟨r, hr, hrname⟩ := List.mem_map.mp hmem
      rw [hv.fresh r hr name hrname] at hf
      cases hf
    rw [findFunc_append, hnone, Option.none_or, hf]

def batchOf (registrations : Option (List (NativeRegistration F U))) (count : Nat) :
    List (NativeRegistration F U) :=
  (registrations.getD []).take count

theorem valid_nil (env : Chain F U S) : Valid env ([] : List (NativeRegistration F U)) :=
  ⟨by simp, by simp, by simp⟩

theorem registered_nil (env : Chain F U S) : Registered env env ([] : List (NativeRegistration F U)) :=
  ⟨valid_nil env, rfl, by simp, fun _ _ hf => hf⟩

/-- **Registration is all or nothing.** Whatever allocations fail: on success every name of the
    batch is new and resolves to its function and every visible function is found as before; on
    any other status the environment is the one before. A batch with an invalid, repeated or
    visible entry is refused before anything is allocated. -/
theorem registration_atomic (env : Option (Chain F U S))
    (registrations : Option (List (NativeRegistration F U))) (count : Nat)
    (shouldFail : Option (Nat → Bool)) (malloc : Nat → Bool) :
    let out := registerFuncsChecked env registrations count shouldFail malloc
    (out.status = .ok → ∃ before after, env = some before ∧ out.env = some after ∧
      Registered before after (batchOf registrations count)) ∧
    (out.status ≠ .ok → out.env = env) ∧
    (out.status = .invalidArgument ∨ out.status = .conflict → out.allocations = 0) ∧
    ∀ before, env = some before → ¬Valid before (batchOf registrations count) →
      out.status = .invalidArgument ∨ out.status = .conflict := by
  intro out
  simp only [out]
  cases env with
  | none => simp [registerFuncsChecked]
  | some e =>
    cases registrations with
    | none =>
      have hvalid := valid_nil (F := F) (U := U) e
      by_cases hcount : count = 0
      · simp [registerFuncsChecked, hcount, batchOf, hvalid, registered_nil]
      · simp [registerFuncsChecked, hcount, batchOf]
    | some array =>
      have hbatch : batchOf (some array) count = array.take count := rfl
      rw [hbatch]
      simp only [registerFuncsChecked]
      by_cases hvalid : Valid e (array.take count)
      · rw [(validate_batch_iff _).mpr hvalid]
        simp only
        generalize hbuild : build (allocationFails shouldFail malloc) 0 [] (array.take count) = p
        obtain ⟨head, n⟩ := p
        cases head with
        | none => simp [hvalid]
        | some pending =>
          obtain ⟨made, hpending, hmade⟩ := build_some hbuild
          rw [List.append_nil] at hpending
          subst hpending
          have hreg := registered_of_made hvalid hmade
          simp [hvalid, hreg]
      · have hstatus : validate e [] (array.take count) ≠ .ok :=
          fun h => hvalid ((validate_batch_iff _).mp h)
        have hmem : validate e [] (array.take count) ≠ .outOfMemory := validate_ne_outOfMemory _ _
        generalize validate e [] (array.take count) = status at hstatus hmem
        cases status <;> simp_all

end Whole

end TurboScript.Exprtk.Registration
