import Mathlib.Data.List.Basic

/- Control flow as the set of the paths it allows.

   1. `Course`: events in sequence, choices, loops, and abrupt ends under a label that a
      handler may take over.
   2. `Path`: the events on one way through, and how it ends.
   3. `meets`: whether some path meets an event of one kind before every event of another,
      read off the structure; the ways of a choice are joined, a loop may run zero times.
      The answer is exact for the paths of the course (`meets_iff`). -/
namespace TurboScript.Lib

inductive Course (E L : Type)
  | skip
  | event (e : E)
  | exit (l : L)
  | seq (a b : Course E L)
  | choice (a b : Course E L)
  | star (a : Course E L)
  | handle (labels : List L) (a b : Course E L)

namespace Course

inductive Path {E L : Type} : Course E L → List E → Option L → Prop
  | skip : Path .skip [] none
  | event (e : E) : Path (.event e) [e] none
  | exit (l : L) : Path (.exit l) [] (some l)
  | seq {a b : Course E L} {s t : List E} {o : Option L} :
    Path a s none → Path b t o → Path (.seq a b) (s ++ t) o
  | seqExit {a b : Course E L} {s : List E} {l : L} :
    Path a s (some l) → Path (.seq a b) s (some l)
  | left {a b : Course E L} {s : List E} {o : Option L} : Path a s o → Path (.choice a b) s o
  | right {a b : Course E L} {s : List E} {o : Option L} : Path b s o → Path (.choice a b) s o
  | done {a : Course E L} : Path (.star a) [] none
  | again {a : Course E L} {s t : List E} {o : Option L} :
    Path a s none → Path (.star a) t o → Path (.star a) (s ++ t) o
  | leave {a : Course E L} {s : List E} {l : L} : Path a s (some l) → Path (.star a) s (some l)
  | pass {labels : List L} {a b : Course E L} {s : List E} {o : Option L} :
    Path a s o → (∀ l ∈ labels, o ≠ some l) → Path (.handle labels a b) s o
  | taken {labels : List L} {a b : Course E L} {s t : List E} {l : L} {o : Option L} :
    l ∈ labels → Path a s (some l) → Path b t o → Path (.handle labels a b) (s ++ t) o

variable {E L : Type}

/-- Events outside `p` are left out of every path. -/
def keep (p : E → Bool) : Course E L → Course E L
  | .skip => .skip
  | .event e => if p e then .event e else .skip
  | .exit l => .exit l
  | .seq a b => .seq (a.keep p) (b.keep p)
  | .choice a b => .choice (a.keep p) (b.keep p)
  | .star a => .star (a.keep p)
  | .handle labels a b => .handle labels (a.keep p) (b.keep p)

theorem exists_path (a : Course E L) : ∃ s o, Path a s o := by
  induction a with
  | skip => exact ⟨_, _, .skip⟩
  | event e => exact ⟨_, _, .event e⟩
  | exit l => exact ⟨_, _, .exit l⟩
  | seq a b iha ihb =>
    obtain ⟨s, o, ha⟩ := iha
    obtain ⟨t, o', hb⟩ := ihb
    cases o with
    | none => exact ⟨_, _, .seq ha hb⟩
    | some l => exact ⟨_, _, .seqExit ha⟩
  | choice a b iha ihb =>
    obtain ⟨s, o, ha⟩ := iha
    exact ⟨_, _, .left ha⟩
  | star a iha => exact ⟨_, _, .done⟩
  | handle labels a b iha ihb =>
    obtain ⟨s, o, ha⟩ := iha
    obtain ⟨t, o', hb⟩ := ihb
    by_cases h : ∃ l ∈ labels, o = some l
    · obtain ⟨l, hl, rfl⟩ := h
      exact ⟨_, _, .taken hl ha hb⟩
    · push Not at h
      exact ⟨_, _, .pass ha h⟩

section Analysis
variable (uses sets : E → Bool)

/-- No event of `sets`. -/
def Free (s : List E) : Prop := ∀ e ∈ s, sets e = false

/-- An event of `uses` comes before every event of `sets`. -/
def First (s : List E) : Prop :=
  ∃ before e after, s = before ++ e :: after ∧ uses e = true ∧ Free sets before

variable {uses sets}

theorem free_append {s t : List E} : Free sets (s ++ t) ↔ Free sets s ∧ Free sets t := by
  unfold Free
  rw [List.forall_mem_append]

theorem free_nil : Free sets [] := by
  intro e he
  cases he

theorem not_first_nil : ¬First uses sets [] := by
  rintro ⟨before, e, after, h, -, -⟩
  exact List.append_ne_nil_of_right_ne_nil before (List.cons_ne_nil e after) h.symm

theorem first_singleton {e : E} : First uses sets [e] ↔ uses e = true := by
  constructor
  · rintro ⟨before, e', after, h, hu, -⟩
    rw [List.singleton_eq_append_iff] at h
    obtain ⟨-, h⟩ | ⟨-, h⟩ := h
    · cases h
      exact hu
    · cases h
  · intro hu
    exact ⟨[], e, [], rfl, hu, free_nil⟩

theorem first_append {s t : List E} :
    First uses sets (s ++ t) ↔ First uses sets s ∨ Free sets s ∧ First uses sets t := by
  constructor
  · rintro ⟨before, e, after, h, hu, hb⟩
    rw [List.append_eq_append_iff] at h
    obtain ⟨u, rfl, ht⟩ | ⟨u, rfl, hs⟩ := h
    · obtain ⟨hs, hu'⟩ := free_append.1 hb
      exact .inr ⟨hs, u, e, after, ht, hu, hu'⟩
    · cases u with
      | nil =>
        rw [List.append_nil]
        rw [List.nil_append] at hs
        exact .inr ⟨hb, [], e, after, hs.symm, hu, free_nil⟩
      | cons e' u =>
        cases hs
        exact .inl ⟨before, e, u, rfl, hu, hb⟩
  · rintro (⟨before, e, after, rfl, hu, hb⟩ | ⟨hs, before, e, after, rfl, hu, hb⟩)
    · refine ⟨before, e, after ++ t, ?_, hu, hb⟩
      rw [List.append_assoc, List.cons_append]
    · refine ⟨s ++ before, e, after, ?_, hu, free_append.2 ⟨hs, hb⟩⟩
      rw [List.append_assoc]

theorem star_free {a : Course E L} {s : List E} {o : Option L} (h : Path (.star a) s o)
    (hs : Free sets s) : o = none ∨ ∃ t, Path a t o ∧ Free sets t := by
  generalize hc : Course.star a = c at h
  induction h with
  | done => exact .inl rfl
  | again _ _ _ ih =>
    cases hc
    exact ih (free_append.1 hs).2 rfl
  | leave h =>
    cases hc
    exact .inr ⟨_, h, hs⟩
  | _ => cases hc

theorem star_first {a : Course E L} {s : List E} {o : Option L} (h : Path (.star a) s o)
    (hs : First uses sets s) : ∃ t o', Path a t o' ∧ First uses sets t := by
  generalize hc : Course.star a = c at h
  induction h with
  | done => exact absurd hs not_first_nil
  | again h _ _ ih =>
    cases hc
    rcases first_append.1 hs with hs | ⟨-, hs⟩
    · exact ⟨_, _, h, hs⟩
    · exact ih hs rfl
  | leave h =>
    cases hc
    exact ⟨_, _, h, hs⟩
  | _ => cases hc

variable (uses sets) [DecidableEq L]

/-- Some path that ends so has no event of `sets`. -/
def clear : Course E L → Option L → Bool
  | .skip, o => o = none
  | .event e, o => o = none && !sets e
  | .exit l, o => o = some l
  | .seq a b, o => a.clear none && b.clear o || o.isSome && a.clear o
  | .choice a b, o => a.clear o || b.clear o
  | .star a, o => o = none || a.clear o
  | .handle labels a b, o =>
    a.clear o && labels.all (fun l => o ≠ some l) || labels.any (fun l => a.clear (some l)) && b.clear o

/-- Some path meets an event of `uses` before every event of `sets`. -/
def meets : Course E L → Bool
  | .skip | .exit _ => false
  | .event e => uses e
  | .seq a b => a.meets || a.clear sets none && b.meets
  | .choice a b => a.meets || b.meets
  | .star a => a.meets
  | .handle labels a b => a.meets || labels.any (fun l => a.clear sets (some l)) && b.meets

variable {uses sets}

theorem clear_iff (a : Course E L) (o : Option L) :
    a.clear sets o = true ↔ ∃ s, Path a s o ∧ Free sets s := by
  induction a generalizing o with
  | skip =>
    rw [clear, decide_eq_true_eq]
    constructor
    · rintro rfl
      exact ⟨[], .skip, free_nil⟩
    · rintro ⟨s, h, -⟩
      cases h
      rfl
  | event e =>
    rw [clear, Bool.and_eq_true, decide_eq_true_eq, Bool.not_eq_true']
    constructor
    · rintro ⟨rfl, he⟩
      refine ⟨[e], .event e, ?_⟩
      intro e' h
      rw [List.mem_singleton.1 h]
      exact he
    · rintro ⟨s, h, hs⟩
      cases h
      exact ⟨rfl, hs e (List.mem_singleton.2 rfl)⟩
  | exit l =>
    rw [clear, decide_eq_true_eq]
    constructor
    · rintro rfl
      exact ⟨[], .exit l, free_nil⟩
    · rintro ⟨s, h, -⟩
      cases h
      rfl
  | seq a b iha ihb =>
    rw [clear, Bool.or_eq_true, Bool.and_eq_true, Bool.and_eq_true, iha, ihb, iha]
    constructor
    · rintro (⟨⟨s, ha, hs⟩, t, hb, ht⟩ | ⟨ho, s, ha, hs⟩)
      · exact ⟨s ++ t, .seq ha hb, free_append.2 ⟨hs, ht⟩⟩
      · obtain ⟨l, rfl⟩ := Option.isSome_iff_exists.1 ho
        exact ⟨s, .seqExit ha, hs⟩
    · rintro ⟨s, h, hs⟩
      cases h with
      | seq ha hb =>
        obtain ⟨h₁, h₂⟩ := free_append.1 hs
        exact .inl ⟨⟨_, ha, h₁⟩, _, hb, h₂⟩
      | seqExit ha => exact .inr ⟨rfl, _, ha, hs⟩
  | choice a b iha ihb =>
    rw [clear, Bool.or_eq_true, iha, ihb]
    constructor
    · rintro (⟨s, h, hs⟩ | ⟨s, h, hs⟩)
      · exact ⟨s, .left h, hs⟩
      · exact ⟨s, .right h, hs⟩
    · rintro ⟨s, h, hs⟩
      cases h with
      | left h => exact .inl ⟨s, h, hs⟩
      | right h => exact .inr ⟨s, h, hs⟩
  | star a iha =>
    rw [clear, Bool.or_eq_true, decide_eq_true_eq, iha]
    constructor
    · rintro (rfl | ⟨s, h, hs⟩)
      · exact ⟨[], .done, free_nil⟩
      · cases o with
        | none => exact ⟨[], .done, free_nil⟩
        | some l => exact ⟨s, .leave h, hs⟩
    · rintro ⟨s, h, hs⟩
      exact star_free h hs
  | handle labels a b iha ihb =>
    simp only [clear, Bool.or_eq_true, Bool.and_eq_true, iha, ihb, List.all_eq_true,
      List.any_eq_true, decide_eq_true_eq]
    constructor
    · rintro (⟨⟨s, h, hs⟩, ho⟩ | ⟨⟨l, hl, s, h, hs⟩, t, hb, ht⟩)
      · exact ⟨s, .pass h ho, hs⟩
      · exact ⟨s ++ t, .taken hl h hb, free_append.2 ⟨hs, ht⟩⟩
    · rintro ⟨s, h, hs⟩
      cases h with
      | pass h ho => exact .inl ⟨⟨s, h, hs⟩, ho⟩
      | taken hl h hb =>
        obtain ⟨h₁, h₂⟩ := free_append.1 hs
        exact .inr ⟨⟨_, hl, _, h, h₁⟩, _, hb, h₂⟩

/-- **The answer read off the structure is exact.** -/
theorem meets_iff (a : Course E L) : a.meets uses sets = true ↔ ∃ s o, Path a s o ∧ First uses sets s := by
  induction a with
  | skip =>
    constructor
    · rintro ⟨⟩
    · rintro ⟨s, o, h, hs⟩
      cases h
      exact absurd hs not_first_nil
  | event e =>
    rw [meets]
    constructor
    · intro he
      exact ⟨[e], none, .event e, first_singleton.2 he⟩
    · rintro ⟨s, o, h, hs⟩
      cases h
      exact first_singleton.1 hs
  | exit l =>
    constructor
    · rintro ⟨⟩
    · rintro ⟨s, o, h, hs⟩
      cases h
      exact absurd hs not_first_nil
  | seq a b iha ihb =>
    rw [meets, Bool.or_eq_true, Bool.and_eq_true, iha, ihb, clear_iff]
    constructor
    · rintro (⟨s, o, h, hs⟩ | ⟨⟨s, h, hf⟩, t, o, hb, ht⟩)
      · cases o with
        | none =>
          obtain ⟨t, o, hb⟩ := exists_path b
          exact ⟨s ++ t, o, .seq h hb, first_append.2 (.inl hs)⟩
        | some l => exact ⟨s, some l, .seqExit h, hs⟩
      · exact ⟨s ++ t, o, .seq h hb, first_append.2 (.inr ⟨hf, ht⟩)⟩
    · rintro ⟨s, o, h, hs⟩
      cases h with
      | seq h hb =>
        rcases first_append.1 hs with hs | ⟨hf, hs⟩
        · exact .inl ⟨_, _, h, hs⟩
        · exact .inr ⟨⟨_, h, hf⟩, _, _, hb, hs⟩
      | seqExit h => exact .inl ⟨_, _, h, hs⟩
  | choice a b iha ihb =>
    rw [meets, Bool.or_eq_true, iha, ihb]
    constructor
    · rintro (⟨s, o, h, hs⟩ | ⟨s, o, h, hs⟩)
      · exact ⟨s, o, .left h, hs⟩
      · exact ⟨s, o, .right h, hs⟩
    · rintro ⟨s, o, h, hs⟩
      cases h with
      | left h => exact .inl ⟨s, o, h, hs⟩
      | right h => exact .inr ⟨s, o, h, hs⟩
  | star a iha =>
    rw [meets, iha]
    constructor
    · rintro ⟨s, o, h, hs⟩
      cases o with
      | none =>
        refine ⟨s ++ [], none, .again h .done, ?_⟩
        exact first_append.2 (.inl hs)
      | some l => exact ⟨s, some l, .leave h, hs⟩
    · rintro ⟨s, o, h, hs⟩
      exact star_first h hs
  | handle labels a b iha ihb =>
    simp only [meets, Bool.or_eq_true, Bool.and_eq_true, iha, ihb, List.any_eq_true, clear_iff]
    constructor
    · rintro (⟨s, o, h, hs⟩ | ⟨⟨l, hl, s, h, hf⟩, t, o, hb, ht⟩)
      · by_cases ho : ∃ l ∈ labels, o = some l
        · obtain ⟨l, hl, rfl⟩ := ho
          obtain ⟨t, o, hb⟩ := exists_path b
          exact ⟨s ++ t, o, .taken hl h hb, first_append.2 (.inl hs)⟩
        · push Not at ho
          exact ⟨s, o, .pass h ho, hs⟩
      · exact ⟨s ++ t, o, .taken hl h hb, first_append.2 (.inr ⟨hf, ht⟩)⟩
    · rintro ⟨s, o, h, hs⟩
      cases h with
      | pass h _ => exact .inl ⟨_, _, h, hs⟩
      | taken hl h hb =>
        rcases first_append.1 hs with hs | ⟨hf, hs⟩
        · exact .inl ⟨_, _, h, hs⟩
        · exact .inr ⟨⟨_, hl, _, h, hf⟩, _, _, hb, hs⟩

end Analysis
end Course

end TurboScript.Lib
