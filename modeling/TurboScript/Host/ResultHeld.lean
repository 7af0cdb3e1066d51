import TurboScript.Host.ResultStore

/- A result holds at most one outcome, and a deep copy of it.

   1. `Puts`: a run writes at its own addresses and in new ones, and what it has put there stays
      as long as those addresses do.
   2. The copies put the tree that the source shows, the views of script values theirs. -/
namespace TurboScript.Host.Values

open Lib

/-! What a run writes. -/

/-- The two memories hold the same at these addresses. -/
def Memory.Agrees (P : Nat → Prop) (mem mem' : Memory) : Prop :=
  ∀ a, P a → mem'.view a = mem.view a ∧ mem'.key a = mem.key a ∧ mem'.byte a = mem.byte a

theorem Memory.Agrees.mono {P Q : Nat → Prop} {mem mem' : Memory} (h : mem.Agrees P mem')
    (hpq : ∀ a, Q a → P a) : mem.Agrees Q mem' :=
  fun a ha => h a (hpq a ha)

theorem Memory.Agrees.trans {P : Nat → Prop} {mem mem' mem'' : Memory} (h : mem.Agrees P mem')
    (h' : mem'.Agrees P mem'') : mem.Agrees P mem'' :=
  fun a ha => ⟨(h' a ha).1.trans (h a ha).1, (h' a ha).2.1.trans (h a ha).2.1,
    (h' a ha).2.2.trans (h a ha).2.2⟩

def Block (first size : Nat) (a : Nat) : Prop := first ≤ a ∧ a < first + size

/-- From one heap to the next only `own` and new addresses are written. -/
structure Step (own : Nat → Prop) (h h' : Heap) : Prop where
  le : h.top ≤ h'.top
  frame : h.mem.Agrees (fun a => ¬ own a ∧ (a < h.top ∨ h'.top ≤ a)) h'.mem

theorem Step.mono {own own' : Nat → Prop} {h h' : Heap} (hs : Step own h h')
    (hown : ∀ a, own a → own' a) : Step own' h h' :=
  ⟨hs.le, hs.frame.mono fun a ha => ⟨fun ho => ha.1 (hown a ho), ha.2⟩⟩

theorem Step.trans {own own' : Nat → Prop} {h h' h'' : Heap} (hs : Step own h h')
    (hs' : Step own' h' h'') : Step (fun a => own a ∨ own' a) h h'' := by
  have le := hs.le
  have le' := hs'.le
  refine ⟨le.trans le', ?_⟩
  refine (hs.frame.mono fun a ha => ⟨fun ho => ha.1 (.inl ho), ?_⟩).trans
    (hs'.frame.mono fun a ha => ⟨fun ho => ha.1 (.inr ho), ?_⟩)
  all_goals
    have := ha.2
    omega

section Puts
variable {σ : Type}

/-- Started above `base`, with the memory `mem₀` below it, a run writes at its own addresses and
    in new ones. It fails only if it `may`, and where it succeeds `shown` holds of every memory
    that agrees at these addresses. -/
def Puts (heap : σ → Heap) (base : Nat) (mem₀ : Memory) (may : Prop) (own : Nat → Prop)
    (shown : Memory → Prop) (run : σ → Option (Status × σ)) : Prop :=
  ∀ s, base ≤ (heap s).top → (∀ a, own a → base ≤ a ∧ a < (heap s).top) →
    mem₀.Agrees (· < base) (heap s).mem → ∃ status s', run s = some (status, s') ∧
      Step own (heap s) (heap s') ∧ (status ≠ .ok → may) ∧ (status = .ok →
        ∀ mem', (heap s').mem.Agrees (fun a => own a ∨ ((heap s).top ≤ a ∧ a < (heap s').top)) mem' →
          shown mem')

variable {heap : σ → Heap} {base : Nat} {mem₀ : Memory} {may : Prop} {own own' : Nat → Prop}
  {shown shown' : Memory → Prop} {run next : σ → Option (Status × σ)}

theorem Puts.mono (h : Puts heap base mem₀ may own shown run) (hown : ∀ a, own a → own' a)
    (hshown : ∀ mem', shown mem' → shown' mem') : Puts heap base mem₀ may own' shown' run := by
  intro s hb ho hm
  obtain ⟨status, s', hrun, hstep, hfail, hok⟩ := h s hb (fun a ha => ho a (hown a ha)) hm
  refine ⟨status, s', hrun, hstep.mono hown, hfail, fun he mem' hagree => ?_⟩
  exact hshown _ (hok he mem' (hagree.mono fun a ha => ha.imp_left (hown a)))

theorem Puts.congr (h : Puts heap base mem₀ may own shown next)
    (heq : ∀ s, mem₀.Agrees (· < base) (heap s).mem → run s = next s) :
    Puts heap base mem₀ may own shown run := by
  intro s hb ho hm
  rw [heq s hm]
  exact h s hb ho hm

theorem Puts.refuse (status : Status) (hstatus : status ≠ .ok) (hmay : may) :
    Puts heap base mem₀ may own shown fun s => some (status, s) :=
  fun s _ _ _ => ⟨status, s, rfl, ⟨le_rfl, fun _ _ => ⟨rfl, rfl, rfl⟩⟩, fun _ => hmay,
    fun h => absurd h hstatus⟩

theorem Puts.skip (h : ∀ mem', shown mem') : Puts heap base mem₀ may own shown fun s => some (.ok, s) :=
  fun s _ _ _ => ⟨.ok, s, rfl, ⟨le_rfl, fun _ _ => ⟨rfl, rfl, rfl⟩⟩, fun h => absurd rfl h,
    fun _ mem' _ => h mem'⟩

theorem Puts.ite {c : σ → Prop} [DecidablePred c] (h : Puts heap base mem₀ may own shown run)
    (h' : Puts heap base mem₀ may own shown next) :
    Puts heap base mem₀ may own shown fun s => if c s then run s else next s := by
  intro s hb ho hm
  by_cases hc : c s
  · simpa only [if_pos hc] using h s hb ho hm
  · simpa only [if_neg hc] using h' s hb ho hm

theorem Puts.seq (h : Puts heap base mem₀ may own shown run) (h' : Puts heap base mem₀ may own' shown' next)
    (hd : ∀ a, own a → ¬ own' a) : Puts heap base mem₀ may (fun a => own a ∨ own' a)
      (fun mem' => shown mem' ∧ shown' mem') fun s => andThen .ok (run s) next := by
  intro s hb ho hm
  obtain ⟨status, t, hrun, hstep, hfail, hok⟩ := h s hb (fun a ha => ho a (.inl ha)) hm
  by_cases he : status = .ok
  · have hm' : mem₀.Agrees (· < base) (heap t).mem := by
      refine hm.trans (hstep.frame.mono fun a ha => ⟨fun hoa => ?_, .inl (ha.trans_le hb)⟩)
      have := (ho a (.inl hoa)).1
      omega
    have ho' : ∀ a, own' a → base ≤ a ∧ a < (heap t).top := fun a ha =>
      ⟨(ho a (.inr ha)).1, (ho a (.inr ha)).2.trans_le hstep.le⟩
    obtain ⟨status', u, hnext, hstep', hfail', hok'⟩ := h' t (hb.trans hstep.le) ho' hm'
    refine ⟨status', u, by simp [andThen, hrun, he, hnext], hstep.trans hstep', hfail', ?_⟩
    intro he' mem' hagree
    have hle := hstep.le
    have hle' := hstep'.le
    refine ⟨hok he mem' ?_, hok' he' mem' (hagree.mono fun a ha => ?_)⟩
    · refine Memory.Agrees.trans (hstep'.frame.mono fun a ha => ?_) (hagree.mono fun a ha => ?_)
      · rcases ha with ha | ha
        · exact ⟨hd a ha, .inl ((ho a (.inl ha)).2.trans_le hle)⟩
        · refine ⟨fun hoa => ?_, .inl ha.2⟩
          have := (ho a (.inr hoa)).2
          omega
      · exact ha.imp .inl fun h => ⟨h.1, h.2.trans_le hle'⟩
    · exact ha.imp .inr fun h => ⟨hle.trans h.1, h.2⟩
  · refine ⟨status, t, by simp [andThen, hrun, he], hstep.mono fun a => .inl, hfail, fun h => absurd h he⟩

theorem Puts.put {target : Nat} {value : ValueView} {put : σ → σ}
    (hput : ∀ s, heap (put s) = { heap s with mem := (heap s).mem.setView target value }) :
    Puts heap base mem₀ may (· = target) (fun mem' => mem'.view target = value)
      fun s => some (.ok, put s) := by
  refine fun s hb ho hm => ⟨.ok, put s, rfl, ⟨by rw [hput], fun a ha => ?_⟩,
    fun h => absurd rfl h, fun _ mem' hagree => ?_⟩
  · rw [hput]
    exact ⟨Function.update_of_ne ha.1 .., rfl, rfl⟩
  · show mem'.view target = value
    rw [(hagree target (.inl rfl)).1, hput]
    exact Function.update_self ..

theorem Puts.putKey {target : Nat} {key : StringView} {put : σ → σ}
    (hput : ∀ s, heap (put s) = { heap s with mem := (heap s).mem.setKey target key }) :
    Puts heap base mem₀ may (· = target) (fun mem' => mem'.key target = key)
      fun s => some (.ok, put s) := by
  refine fun s hb ho hm => ⟨.ok, put s, rfl, ⟨by rw [hput], fun a ha => ?_⟩,
    fun h => absurd rfl h, fun _ mem' hagree => ?_⟩
  · rw [hput]
    exact ⟨rfl, Function.update_of_ne ha.1 .., rfl⟩
  · show mem'.key target = key
    rw [(hagree target (.inl rfl)).2.1, hput]
    exact Function.update_self ..

theorem Puts.block {grants : Nat → Bool} {size : Nat} {put : σ → Heap → σ}
    (hmay : ∀ n, grants n = false → may) (hput : ∀ s h, heap (put s h) = h) {fill done : Nat → σ → Option (Status × σ)}
    {filled finished : Nat → Memory → Prop}
    (hfill : ∀ first, base ≤ first → Puts heap base mem₀ may (Block first size) (filled first) (fill first))
    (hdone : ∀ first, base ≤ first → Puts heap base mem₀ may own (finished first) (done first)) :
    Puts heap base mem₀ may own (fun mem' => ∃ first, base ≤ first ∧ filled first mem' ∧
      finished first mem') fun s => match allocate grants size (heap s) with
        | (none, h) => some (.outOfMemory, put s h)
        | (some first, h) => andThen .ok (fill first (put s h)) (done first) := by
  intro s hb ho hm
  unfold allocate
  by_cases hg : grants (heap s).calls = true
  · simp only [hg, if_true]
    obtain ⟨status, t, hrun, hstep, hfail, hok⟩ := ((hfill _ hb).seq (hdone _ hb) fun a ha hoa => by
      have := (ho a hoa).2
      have := ha.1
      omega) (put s { heap s with top := (heap s).top + size, calls := (heap s).calls + 1 })
      (by rw [hput]; exact hb.trans (Nat.le_add_right ..))
      (fun a ha => by
        rw [hput]
        rcases ha with ha | ha
        · exact ⟨hb.trans ha.1, ha.2⟩
        · exact ⟨(ho a ha).1, (ho a ha).2.trans_le (Nat.le_add_right ..)⟩)
      (by rw [hput]; exact hm)
    rw [hput] at hstep hok
    have hle : (heap s).top + size ≤ (heap t).top := hstep.le
    refine ⟨status, t, hrun, ⟨(Nat.le_add_right ..).trans hle, hstep.frame.mono fun a ha => ?_⟩, hfail, ?_⟩
    · have hout : ¬ Block (heap s).top size a := fun hin => by
        have := hin.1
        have := hin.2
        omega
      refine ⟨fun h => h.elim hout ha.1, ha.2.imp_left fun h => ?_⟩
      show a < (heap s).top + size
      omega
    · intro he mem' hagree
      refine ⟨_, hb, hok he mem' (hagree.mono fun a ha => ?_)⟩
      rcases ha with (ha | ha) | ha
      · exact .inr ⟨ha.1, ha.2.trans_le hle⟩
      · exact .inl ha
      · exact .inr ⟨(Nat.le_add_right ..).trans ha.1, ha.2⟩
  · simp only [hg]
    refine ⟨_, _, rfl, ?_, fun _ => hmay _ (Bool.eq_false_iff.mpr hg), fun h => by cases h⟩
    rw [hput]
    exact ⟨le_rfl, fun _ _ => ⟨rfl, rfl, rfl⟩⟩

end Puts

/-! Texts and elements. -/

theorem copyString_spec {grants : Nat → Bool} {source : StringView} {h h' : Heap} {copy : Option Nat}
    (hrun : copyString grants source h = (copy, h')) : Step (fun _ => False) h h' ∧
      (copy = none → ∃ n, grants n = false) ∧ ∀ data, copy = some data → data = h.top ∧ ∀ mem',
        h'.mem.Agrees (fun a => h.top ≤ a ∧ a < h'.top) mem' →
          mem'.bytes ⟨data, source.size⟩ = h.mem.bytes source := by
  unfold copyString allocate at hrun
  by_cases hg : grants h.calls = true
  · simp only [hg, if_true] at hrun
    cases hrun
    refine ⟨⟨Nat.le_add_right .., fun a ha => ⟨rfl, rfl, ?_⟩⟩, (fun h => by cases h), ?_⟩
    · -- past the block nothing is written, although the bytes have no end
      show (if a < h.top then h.mem.byte a else _) = _
      split
      · rfl
      · have hlen : (h.mem.bytes source ++ [0]).length ≤ a - h.top := by
          rw [List.length_append, length_bytes, List.length_singleton]
          have : h.top + (source.size.toNat + 1) ≤ a := ha.2.resolve_left ‹_›
          omega
        rw [List.getD_eq_getElem?_getD, List.getElem?_eq_none hlen]
        rfl
    · intro data hdata
      cases hdata
      refine ⟨rfl, fun mem' hagree => List.ext_getElem (by simp) fun i hi hi' => ?_⟩
      rw [length_bytes] at hi hi'
      have hat := (hagree (h.top + i) ⟨Nat.le_add_right .., by
        show h.top + i < h.top + (source.size.toNat + 1)
        simp only at hi
        omega⟩).2.2
      have hbyte : (h.mem.setBytes h.top (h.mem.bytes source ++ [0])).byte (h.top + i) =
          (h.mem.bytes source).get ⟨i, by simpa using hi'⟩ := by
        show (if h.top + i < h.top then _ else (_ ++ [0]).getD (h.top + i - h.top) _) = _
        rw [if_neg (by omega), Nat.add_sub_cancel_left, List.getD_eq_getElem?_getD,
          List.getElem?_append_left (by simpa using hi'), List.getElem?_eq_getElem]
        rfl
      rw [List.get_eq_getElem] at hbyte
      rw [← hbyte, ← hat]
      simp [Memory.bytes]
  · simp only [hg] at hrun
    cases hrun
    exact ⟨⟨le_rfl, fun _ _ => ⟨rfl, rfl, rfl⟩⟩, fun _ => ⟨_, Bool.eq_false_iff.mpr hg⟩,
      fun data hdata => by cases hdata⟩

section Copies
variable {grants : Nat → Bool} {base : Nat} {mem₀ : Memory} {may : Prop} {own : Nat → Prop}
  (hmay : ∀ n, grants n = false → may)

abbrev PutsHeap (base : Nat) (mem₀ : Memory) (may : Prop) (own : Nat → Prop) (shown : Memory → Prop)
    (run : Heap → Option (Status × Heap)) : Prop :=
  Puts (fun h => h) base mem₀ may own shown run

theorem Memory.text_eq {mem mem' : Memory} {s s' : StringView} {text : List UInt8}
    (hs : mem.text s = some text) (hdata : s'.data ≠ 0)
    (hbytes : mem'.bytes s' = mem.bytes s) : mem'.text s' = some text := by
  unfold Memory.text at hs ⊢
  rw [if_neg fun h => hdata h.1, hbytes]
  split at hs
  · cases hs
  · exact hs

include hmay in
theorem Puts.text {source : StringView} {text : List UInt8} (hbase : 0 < base)
    (hread : ∀ mem', mem₀.Agrees (· < base) mem' → mem'.text source = some text)
    {done : Nat → Heap → Option (Status × Heap)} {finished : Nat → Memory → Prop}
    (hdone : ∀ data, PutsHeap base mem₀ may own (finished data) (done data)) :
    PutsHeap base mem₀ may own (fun mem' => ∃ data, mem'.text ⟨data, source.size⟩ = some text ∧
      finished data mem') fun h => orOutOfMemory (copyString grants source h) done := by
  intro h hb ho hm
  obtain ⟨copy, h₁, hcopy⟩ : ∃ copy h₁, copyString grants source h = (copy, h₁) := ⟨_, _, rfl⟩
  obtain ⟨hstep, hnone, hdata⟩ := copyString_spec hcopy
  simp only [hcopy]
  cases copy with
  | none =>
    obtain ⟨n, hn⟩ := hnone rfl
    exact ⟨_, _, rfl, hstep.mono fun _ => False.elim, fun _ => hmay n hn, fun h => by cases h⟩
  | some data =>
    obtain ⟨rfl, hbytes⟩ := hdata _ rfl
    have hm' : mem₀.Agrees (· < base) h₁.mem :=
      hm.trans (hstep.frame.mono fun a ha => ⟨id, .inl (ha.trans_le hb)⟩)
    obtain ⟨status, h₂, hrun, hstep', hfail, hok⟩ := hdone h.top h₁ (hb.trans hstep.le)
      (fun a ha => ⟨(ho a ha).1, (ho a ha).2.trans_le hstep.le⟩) hm'
    refine ⟨status, h₂, hrun, (hstep.trans hstep').mono fun a ha => ha.resolve_left id, hfail, ?_⟩
    intro he mem' hagree
    have hle := hstep.le
    have hle' := hstep'.le
    refine ⟨h.top, Memory.text_eq (hread h.mem hm) (hbase.trans_le hb).ne' (hbytes mem' ?_), hok he mem'
      (hagree.mono fun a ha => ha.imp_right fun h => ⟨hle.trans h.1, h.2⟩)⟩
    refine Memory.Agrees.trans (hstep'.frame.mono fun a ha => ⟨fun hoa => ?_, .inl ha.2⟩)
      (hagree.mono fun a ha => .inr ⟨ha.1, ha.2.trans_le hle'⟩)
    exact absurd (ho a hoa).2 (Nat.not_lt.mpr ha.1)

theorem Puts.each {α : Type} {f : α → Heap → Option (Status × Heap)} {own : α → Nat → Prop}
    {shown : α → Memory → Prop} {as : List α}
    (h : ∀ a ∈ as, PutsHeap base mem₀ may (own a) (shown a) (f a))
    (hd : as.Pairwise fun a b => ∀ x, own a x → ¬ own b x) :
    PutsHeap base mem₀ may (fun x => ∃ a ∈ as, own a x) (fun mem' => ∀ a ∈ as, shown a mem')
      (eachOf .ok f as) := by
  induction as with
  | nil => exact Puts.skip fun _ a ha => by cases ha
  | cons a as ih =>
    obtain ⟨hd, hds⟩ := List.pairwise_cons.mp hd
    have hrest := ih (fun b hb => h b (.tail a hb)) hds
    refine ((h a (.head as)).seq hrest fun x hx ⟨b, hb, hbx⟩ => hd b hb x hx hbx).mono ?_ ?_
    · rintro x (hx | ⟨b, hb, hx⟩)
      · exact ⟨a, .head as, hx⟩
      · exact ⟨b, .tail a hb, hx⟩
    · intro mem' hshown b hb
      cases hb with
      | head => exact hshown.1
      | tail _ hb => exact hshown.2 b hb

theorem eachOf_map {α β σ : Type} (f : β → σ → Option (Status × σ)) (g : α → β) (as : List α) :
    eachOf .ok f (as.map g) = eachOf .ok (fun a => f (g a)) as := by
  induction as with
  | nil => rfl
  | cons a as ih =>
    funext s
    simp only [List.map_cons, eachOf, ih]

theorem block_disjoint {first size i j x : Nat} (hij : i < j) (h : Block (first + size * i) size x) :
    ¬ Block (first + size * j) size x := by
  have hle : size * (i + 1) ≤ size * j := Nat.mul_le_mul_left size hij
  rw [Nat.mul_succ] at hle
  intro h'
  have := h.2
  have := h'.1
  omega

include hmay in
theorem copyElements_puts {size source : Nat} {count : UInt64}
    {copy : Nat → Nat → Heap → Option (Status × Heap)} {shown : Nat → Nat → Memory → Prop}
    (hcopy : ∀ i < count.toNat, ∀ target, base ≤ target →
      PutsHeap base mem₀ may (Block target size) (shown i target) (copy (source + size * i) target))
    {done : Nat → Heap → Option (Status × Heap)} {finished : Nat → Memory → Prop}
    (hdone : ∀ first, PutsHeap base mem₀ may own (finished first) (done first)) (hbase : 0 < base) :
    PutsHeap base mem₀ may own (fun mem' => ∃ first, (first = 0 → count = 0) ∧
      (∀ i < count.toNat, shown i (first + size * i) mem') ∧ finished first mem')
      (copyElements grants copy size source count done) := by
  by_cases hcount : count = 0
  · subst hcount
    refine ((hdone 0).mono (fun _ => id) fun mem' h => ⟨0, fun _ => rfl, ?_, h⟩).congr fun h _ => rfl
    exact fun i hi => absurd hi (Nat.not_lt_zero i)
  · have hfill : ∀ first, base ≤ first → PutsHeap base mem₀ may (Block first (size * count.toNat))
        (fun mem' => ∀ i < count.toNat, shown i (first + size * i) mem')
        (eachOf .ok (fun p => copy p.1 p.2) ((slots source size count).zip (slots first size count))) := by
      intro first hfirst
      have heach : PutsHeap base mem₀ may _ _ (eachOf .ok
          (fun i => copy (source + size * i) (first + size * i)) (List.range count.toNat)) :=
        Puts.each (fun i hi => hcopy i (List.mem_range.mp hi) _ (hfirst.trans (Nat.le_add_right ..)))
          (List.pairwise_lt_range.imp fun hij _ h => block_disjoint hij h)
      unfold slots
      rw [List.zip_map', eachOf_map]
      refine heach.mono (fun x hx => ?_) fun mem' h i hi => h i (List.mem_range.mpr hi)
      obtain ⟨i, hi, hx⟩ := hx
      have hle : size * (i + 1) ≤ size * count.toNat :=
        Nat.mul_le_mul_left size (List.mem_range.mp hi)
      rw [Nat.mul_succ] at hle
      have := hx.1
      have := hx.2
      exact ⟨by omega, by omega⟩
    have hblock := @Puts.block _ (fun h => h) base mem₀ may own grants _ (fun _ h => h) hmay
      (fun _ _ => rfl) _ _ _ _ hfill fun first _ => hdone first
    refine (hblock.mono (fun _ => id) fun mem' h => ?_).congr fun h _ => ?_
    · obtain ⟨first, hfirst, hshown, hend⟩ := h
      exact ⟨first, fun h0 => by omega, hshown, hend⟩
    · unfold copyElements orOutOfMemory
      rw [if_neg hcount]
      cases allocate grants (size * count.toNat) h with
      | mk copy h' => cases copy <;> rfl

/-! Trees. -/

/-- The view shows the tree whatever is written from `base` on. -/
def ShowsBelow (base : Nat) (mem₀ : Memory) (t : Tree) (addr : Nat) : Prop :=
  ∀ mem', mem₀.Agrees (· < base) mem' → Unfolds mem' t addr

theorem Memory.Agrees.refl (P : Nat → Prop) (mem : Memory) : mem.Agrees P mem :=
  fun _ _ => ⟨rfl, rfl, rfl⟩

theorem not_unfolds_other {mem : Memory} {t : Tree} {addr : Nat} (kind : UInt32)
    (h : mem.view addr = ⟨0, .other kind⟩) : ¬ Unfolds mem t addr := by
  intro ht
  cases t with
  | leaf => simpa [h, Memory.scalar] using ht.2.2
  | array | record =>
    obtain ⟨-, _, _, hview, -⟩ := ht
    rw [h] at hview
    cases hview

theorem ShowsBelow.lt {t : Tree} {addr : Nat} (h : ShowsBelow base mem₀ t addr) : addr < base := by
  by_contra hno
  refine not_unfolds_other 0 (Function.update_self ..)
    (h (mem₀.setView addr ⟨0, .other 0⟩) fun a ha => ⟨Function.update_of_ne ?_ .., rfl, rfl⟩)
  omega

theorem ShowsBelow.view {t : Tree} {addr : Nat} (h : ShowsBelow base mem₀ t addr) {mem' : Memory}
    (hm : mem₀.Agrees (· < base) mem') : mem'.view addr = mem₀.view addr :=
  (hm addr h.lt).1

theorem forall₂_range {α : Type} {R : α → Nat → Prop} {as : List α} {n : Nat} {g : Nat → Nat} :
    List.Forall₂ R as ((List.range n).map g) ↔
      as.length = n ∧ ∀ i (h : i < as.length), R (as.get ⟨i, h⟩) (g i) := by
  rw [List.forall₂_iff_get]
  simp only [List.length_map, List.length_range, List.get_eq_getElem, List.getElem_map, List.getElem_range]
  exact and_congr_right fun hlen => ⟨fun h i hi => h i hi (hlen ▸ hi), fun h i hi _ => h i hi⟩

theorem put_puts (target : Nat) (v : ValueView) :
    PutsHeap base mem₀ may (· = target) (fun mem' => mem'.view target = v) (write target v) :=
  Puts.put fun _ => rfl

include hmay in
theorem copyEntry_puts (hbase : 0 < base) {copy : Nat → Nat → Heap → Option (Status × Heap)}
    {key : List UInt8} {t : Tree} {source target : Nat}
    (hkey : ∀ mem', mem₀.Agrees (· < base) mem' → mem'.text (mem'.key source) = some key)
    (hsource : ShowsBelow base mem₀ t (source + valueOffset))
    (hcopy : PutsHeap base mem₀ may (· = target + valueOffset)
      (fun mem' => Unfolds mem' t (target + valueOffset))
      (copy (source + valueOffset) (target + valueOffset))) :
    PutsHeap base mem₀ may (Block target entrySize) (fun mem' => mem'.text (mem'.key target) = some key ∧
      Unfolds mem' t (target + valueOffset)) (copyEntry grants copy source target) := by
  have hsame : ∀ mem', mem₀.Agrees (· < base) mem' → mem'.key source = mem₀.key source :=
    fun mem' hm => (hm source (by have := hsource.lt; omega)).2.1
  have hdone : ∀ data, PutsHeap base mem₀ may (Block target entrySize)
      (fun mem' => mem'.key target = ⟨data, (mem₀.key source).size⟩ ∧ Unfolds mem' t (target + valueOffset))
      (fun h => andThen .ok (some (.ok, { h with
        mem := h.mem.setKey target ⟨data, (mem₀.key source).size⟩ }))
        (copy (source + valueOffset) (target + valueOffset))) := fun data => by
    refine ((Puts.putKey fun _ => rfl).seq hcopy fun a ha ha' => ?_).mono (fun a ha => ?_) fun _ => id
    · rw [ha] at ha'
      unfold valueOffset at ha'
      omega
    · unfold Block entrySize
      unfold valueOffset at ha
      omega
  refine ((Puts.text hmay hbase (fun mem' hm => hsame mem' hm ▸ hkey mem' hm) hdone).mono (fun _ => id)
    fun mem' h => ?_).congr fun h hm => ?_
  · obtain ⟨data, htext, hk, ht⟩ := h
    exact ⟨hk ▸ htext, ht⟩
  · rw [copyEntry, hsame h.mem hm]
    rfl

include hmay in
theorem copyView_puts (hbase : 0 < base) (fuel : Nat) (t : Tree) (hfuel : t.depth ≤ fuel)
    (source target : Nat) (hsource : ShowsBelow base mem₀ t source) (htarget : base ≤ target) :
    PutsHeap base mem₀ may (· = target) (fun mem' => Unfolds mem' t target)
      (copyView grants fuel source target) := by
  induction fuel generalizing t source target with
  | zero => cases t <;> simp [Tree.depth] at hfuel
  | succ fuel ih =>
    have hzero : target ≠ 0 := by omega
    cases t with
    | leaf reserved value =>
      have hscalar : ∀ mem', mem₀.Agrees (· < base) mem' →
          mem'.scalar (mem₀.view source).content = some value := fun mem' hm => by
        rw [← hsource.view hm]
        exact (hsource mem' hm).2.2
      have hr : (mem₀.view source).reserved = reserved := (hsource mem₀ (.refl _ _)).2.1
      have hrun : ∀ h : Heap, mem₀.Agrees (· < base) h.mem →
          h.mem.view source = ⟨reserved, (mem₀.view source).content⟩ :=
        fun h hm => by rw [hsource.view hm, ← hr]
      cases hc : (mem₀.view source).content with
      | string s =>
        rw [hc] at hrun hscalar
        obtain ⟨text, -, rfl⟩ := Option.map_eq_some_iff.mp (hscalar mem₀ (.refl _ _))
        have hread : ∀ mem', mem₀.Agrees (· < base) mem' → mem'.text s = some text := by
          intro mem' hm
          obtain ⟨text', htext, heq⟩ := Option.map_eq_some_iff.mp (hscalar mem' hm)
          rw [htext, Scalar.string.inj heq]
        refine ((Puts.text hmay hbase hread fun data => put_puts target
          ⟨reserved, .string ⟨data, s.size⟩⟩).mono (fun _ => id) fun mem' h => ?_).congr fun h hm => ?_
        · obtain ⟨data, htext, hv⟩ := h
          exact ⟨hzero, by rw [hv], by simp [hv, Memory.scalar, htext]⟩
        · simp only [copyView, hrun h hm]
      | array | record | other =>
        have hno := hscalar mem₀ (.refl _ _)
        simp [hc, Memory.scalar] at hno
      | null | bool | int64 | number =>
        refine ((put_puts target ⟨reserved, (mem₀.view source).content⟩).mono (fun _ => id)
          fun mem' h => ?_).congr fun h hm => ?_
        · have hv := hscalar mem₀ (.refl _ _)
          rw [hc] at h hv
          exact ⟨hzero, by rw [h], by rw [h]; exact hv⟩
        · simp only [copyView, hrun h hm, hc]
    | array reserved items =>
      obtain ⟨-, first, count, hv, -, -⟩ := hsource mem₀ (.refl _ _)
      have hall : ∀ mem', mem₀.Agrees (· < base) mem' →
          items.length = count.toNat ∧ ∀ i (hi : i < items.length),
            Unfolds mem' (items.get ⟨i, hi⟩) (first + viewSize * i) := by
        intro mem' hm
        obtain ⟨-, first', count', hv', -, h⟩ := hsource mem' hm
        cases hv.symm.trans ((hsource.view hm).symm.trans hv')
        exact forall₂_range.mp (unfoldsAll_iff.mp h)
      obtain ⟨hlen, -⟩ := hall mem₀ (.refl _ _)
      have hdepth : ∀ t ∈ items, t.depth ≤ fuel := by
        rw [Tree.depth] at hfuel
        exact depthAll_le.mp (by omega)
      have hitem : ∀ i < count.toNat, ∀ a, base ≤ a → PutsHeap base mem₀ may (Block a viewSize)
          (fun mem' => ∀ hi : i < items.length, Unfolds mem' (items.get ⟨i, hi⟩) a)
          (copyView grants fuel (first + viewSize * i) a) := by
        intro i hi a ha
        have hi' : i < items.length := hlen ▸ hi
        refine (ih (items.get ⟨i, hi'⟩) (hdepth _ (List.get_mem ..)) _ a
          (fun mem' hm => (hall mem' hm).2 i hi') ha).mono (fun x hx => ?_) fun mem' h _ => h
        exact ⟨hx.ge, by rw [hx]; exact Nat.lt_add_of_pos_right (by decide)⟩
      refine ((copyElements_puts hmay hitem (fun first' => put_puts target
        ⟨reserved, .array first' count⟩) hbase).mono (fun _ => id) fun mem' h => ?_).congr fun h hm => ?_
      · obtain ⟨first', h0, hitems, hview⟩ := h
        refine ⟨hzero, first', count, hview, h0, unfoldsAll_iff.mpr (forall₂_range.mpr ⟨hlen, ?_⟩)⟩
        exact fun i hi => hitems i (hlen ▸ hi) hi
      · simp only [copyView, hsource.view hm, hv]
    | record reserved keys values =>
      obtain ⟨-, first, count, hv, -, -⟩ := hsource mem₀ (.refl _ _)
      have hall : ∀ mem', mem₀.Agrees (· < base) mem' →
          (keys.length = count.toNat ∧ ∀ i (hi : i < keys.length),
            mem'.text (mem'.key (first + entrySize * i)) = some (keys.get ⟨i, hi⟩)) ∧
          values.length = count.toNat ∧ ∀ i (hi : i < values.length),
            Unfolds mem' (values.get ⟨i, hi⟩) (first + entrySize * i + valueOffset) := by
        intro mem' hm
        obtain ⟨-, first', count', hv', -, h, h'⟩ := hsource mem' hm
        cases hv.symm.trans ((hsource.view hm).symm.trans hv')
        rw [slots, List.map_map] at h'
        exact ⟨forall₂_range.mp h, forall₂_range.mp (unfoldsAll_iff.mp h')⟩
      obtain ⟨⟨hkeys, -⟩, hvalues, -⟩ := hall mem₀ (.refl _ _)
      have hdepth : ∀ t ∈ values, t.depth ≤ fuel := by
        rw [Tree.depth] at hfuel
        exact depthAll_le.mp (by omega)
      have hentry : ∀ i < count.toNat, ∀ a, base ≤ a → PutsHeap base mem₀ may (Block a entrySize)
          (fun mem' => ∀ (hi : i < keys.length) (hi' : i < values.length),
            mem'.text (mem'.key a) = some (keys.get ⟨i, hi⟩) ∧
              Unfolds mem' (values.get ⟨i, hi'⟩) (a + valueOffset))
          (copyEntry grants (copyView grants fuel) (first + entrySize * i) a) := by
        intro i hi a ha
        have hi' : i < values.length := hvalues ▸ hi
        refine (copyEntry_puts hmay hbase (fun mem' hm => (hall mem' hm).1.2 i (hkeys ▸ hi))
          (fun mem' hm => (hall mem' hm).2.2 i hi') (ih _ (hdepth _ (List.get_mem ..)) _ _
            (fun mem' hm => (hall mem' hm).2.2 i hi') (ha.trans (Nat.le_add_right ..)))).mono
              (fun _ => id) fun mem' h _ _ => h
      refine ((copyElements_puts hmay hentry (fun first' => put_puts target
        ⟨reserved, .record first' count⟩) hbase).mono (fun _ => id) fun mem' h => ?_).congr fun h hm => ?_
      · obtain ⟨first', h0, hentries, hview⟩ := h
        refine ⟨hzero, first', count, hview, h0, forall₂_range.mpr ⟨hkeys, fun i hi => ?_⟩, ?_⟩
        · exact (hentries i (hkeys ▸ hi) hi (hvalues ▸ hkeys ▸ hi)).1
        · rw [slots, List.map_map]
          refine unfoldsAll_iff.mpr (forall₂_range.mpr ⟨hvalues, fun i hi => ?_⟩)
          exact (hentries i (hvalues ▸ hi) (hkeys ▸ hvalues ▸ hi) hi).2
      · simp only [copyView, hsource.view hm, hv]

end Copies

/-! Views of script values. -/

mutual
def ExprValue.tree (mem : Memory) : ExprValue → Tree
  | .null | .other => .leaf 0 .null
  | .bool boolean => .leaf 0 (.bool (if boolean = 0 then 0 else 1))
  | .integer value => .leaf 0 (.int64 value)
  | .number bits => .leaf 0 (.number bits)
  | .string s => .leaf 0 (.string (mem.bytes s))
  | .vector _ elements => .array 0 (elements.map fun bits => .leaf 0 (.number bits))
  | .list _ elements => .array 0 (ExprValue.treeAll mem elements)
  | .map keys values => .record 0 (keys.map mem.bytes) (ExprValue.treeEntries mem keys values)

def ExprValue.treeAll (mem : Memory) : List ExprValue → List Tree
  | [] => []
  | value :: rest => value.tree mem :: ExprValue.treeAll mem rest

def ExprValue.treeEntries (mem : Memory) : List StringView → List ExprValue → List Tree
  | _ :: keys, value :: rest => value.tree mem :: ExprValue.treeEntries mem keys rest
  | _, _ => []
end

section Views
variable {lib : Library} {limits : Limits} {grants : Nat → Bool} {base : Nat} {mem₀ : Memory}
  {own : Nat → Prop}

abbrev PutsView (base : Nat) (mem₀ : Memory) (own : Nat → Prop) (shown : Memory → Prop)
    (run : ViewState → Option (Status × ViewState)) : Prop :=
  Puts ViewState.heap base mem₀ True own shown run

theorem putView_puts (target : Nat) (content : Content) : PutsView base mem₀ (· = target)
    (fun mem' => mem'.view target = ⟨0, content⟩) (putView target content) :=
  Puts.put fun (_ : ViewState) => rfl

theorem Puts.count {run : ViewState → Option (Status × ViewState)} {shown : Memory → Prop}
    (h : ∀ state, ∃ status state', run state = some (status, state') ∧ state'.heap = state.heap)
    (hshown : ∀ mem', shown mem') : PutsView base mem₀ (fun _ => False) shown run := by
  intro state _ _ _
  obtain ⟨status, state', hrun, hheap⟩ := h state
  refine ⟨status, state', hrun, ?_, fun _ => trivial, fun _ mem' _ => hshown mem'⟩
  rw [hheap]
  exact ⟨le_rfl, fun _ _ => ⟨rfl, rfl, rfl⟩⟩

theorem viewCharge_heap (limits : Limits) (count elementSize : Nat) (state : ViewState) : ∃ status state',
    viewCharge limits count elementSize state = some (status, state') ∧ state'.heap = state.heap := by
  unfold viewCharge
  split
  · exact ⟨_, _, rfl, rfl⟩
  · split
    · exact ⟨_, _, rfl, rfl⟩
    · exact ⟨_, _, rfl, rfl⟩

theorem viewText_heap (text : StringView) (state : ViewState) : ∃ status state',
    viewText lib limits text state = some (status, state') ∧ state'.heap = state.heap := by
  unfold viewText
  split
  · exact ⟨_, _, rfl, rfl⟩
  · obtain ⟨status, state', hrun, hheap⟩ :=
      viewCharge_heap limits (text.size.toNat + 1) 1 state
    by_cases hs : status = .ok
    · exact ⟨_, state', by rw [andThen, hrun, Option.bind_some, if_pos hs], hheap⟩
    · exact ⟨status, state', by rw [andThen, hrun, Option.bind_some, if_neg hs], hheap⟩

theorem Puts.after {run next : ViewState → Option (Status × ViewState)} {shown : Memory → Prop}
    (h : ∀ state, ∃ status state', run state = some (status, state') ∧ state'.heap = state.heap)
    (hnext : PutsView base mem₀ own shown next) :
    PutsView base mem₀ own shown fun state => andThen .ok (run state) next :=
  ((Puts.count h fun _ => True.intro).seq hnext fun _ => False.elim).mono
    (fun _ ha => ha.resolve_left id) fun _ => And.right

theorem viewElements_puts {missing : Bool} {size target n : Nat}
    {fill : Nat → ViewState → Option (Status × ViewState)} {content : Nat → UInt64 → Content}
    {filled : Nat → Memory → Prop} (hbase : 0 < base)
    (hfill : ∀ first, 0 < first → PutsView base mem₀ (Block first (size * n)) (filled first) (fill first))
    (hnone : n = 0 → ∀ mem', filled 0 mem') :
    PutsView base mem₀ (· = target) (fun mem' => ∃ first count, count.toNat = n ∧
      (first = 0 → count = 0) ∧ filled first mem' ∧ mem'.view target = ⟨0, content first count⟩)
      (viewElements limits grants missing size n fill target content) := by
  refine Puts.ite (.refuse _ (by decide) trivial) ?_
  by_cases hlt : n < 2 ^ 64
  swap
  · refine (Puts.refuse .limitExceeded (by decide) trivial).congr fun state _ => if_pos ?_
    have := limits.maxNodes.toNat_lt
    omega
  refine Puts.ite (.refuse _ (by decide) trivial) (Puts.after (viewCharge_heap limits n size) ?_)
  have hcount : (UInt64.ofNat n).toNat = n := UInt64.toNat_ofNat_of_lt' hlt
  by_cases hn : n = 0
  · refine ((putView_puts target (content 0 0)).mono (fun _ => id) fun mem' h => ?_).congr
      fun state _ => if_pos hn
    exact ⟨0, 0, hn.symm, fun _ => rfl, hnone hn mem', h⟩
  · have hblock := @Puts.block _ ViewState.heap base mem₀ True (· = target) grants (size * n)
      (fun state h => { state with heap := h }) (fun _ _ => trivial) (fun _ _ => rfl) fill
      (fun first => putView target (content first (UInt64.ofNat n))) filled _
      (fun first h => hfill first (hbase.trans_le h)) fun first _ => putView_puts target _
    refine (hblock.mono (fun _ => id) fun mem' h => ?_).congr fun state _ => if_neg hn
    obtain ⟨first, hfirst, hfilled, hview⟩ := h
    exact ⟨first, _, hcount, fun h0 => by omega, hfilled, hview⟩

theorem entering_puts {depth : Nat} {next : ViewState → Option (Status × ViewState)}
    {shown : Memory → Prop} (h : PutsView base mem₀ own shown next) :
    PutsView base mem₀ own shown (entering limits depth next) := by
  refine Puts.ite (.refuse _ (by decide) trivial) ?_
  exact fun state => h { state with nodes := state.nodes + 1 }

theorem block_succ {first size n a : Nat} (h : Block first size a ∨ Block (first + size) (size * n) a) :
    Block first (size * (n + 1)) a := by
  unfold Block at *
  rw [Nat.mul_succ]
  omega

theorem block_apart {first size n a : Nat} (h : Block first size a) :
    ¬ Block (first + size) (size * n) a := fun h' => Nat.not_le.mpr h.2 h'.1

theorem row_succ (first size n : Nat) : (List.range (n + 1)).map (fun i => first + size * i) =
    first :: (List.range n).map fun i => first + size + size * i := by
  rw [List.range_succ_eq_map, List.map_cons, List.map_map]
  refine congrArg (first :: ·) (List.map_congr_left fun i _ => ?_)
  show first + size * (i + 1) = _
  rw [Nat.mul_succ]
  omega

theorem viewNumbers_puts (elements : List UInt64) (slot : Nat) (hslot : 0 < slot) :
    PutsView base mem₀ (Block slot (viewSize * elements.length))
      (fun mem' => UnfoldsAll mem' (elements.map fun bits => .leaf 0 (.number bits))
        ((List.range elements.length).map fun i => slot + viewSize * i))
      (viewNumbers elements slot) := by
  induction elements generalizing slot with
  | nil => exact Puts.skip fun _ => trivial
  | cons bits rest ih =>
    have hrest := ih (slot + viewSize) (by omega)
    refine ((putView_puts slot (.number bits)).seq (fun state => hrest { state with
      nodes := state.nodes + 1 }) fun a ha ha' => ?_).mono (fun a ha => ?_) fun mem' h => ?_
    · have := ha'.1
      unfold viewSize at this
      omega
    · refine block_succ (ha.imp_left fun ha => ?_)
      unfold Block viewSize
      omega
    · rw [List.length_cons, row_succ]
      exact ⟨⟨hslot.ne', by rw [h.1], by rw [h.1]; rfl⟩, h.2⟩

mutual
theorem viewContent_puts (hbase : 0 < base) : (value : ExprValue) → (target depth : Nat) →
    0 < target → PutsView base mem₀ (· = target) (fun mem' => Unfolds mem' (value.tree mem') target)
      (viewContent lib limits grants value target depth)
  | .null, target, _, ht => (putView_puts target .null).mono (fun _ => id) fun mem' h =>
    ⟨ht.ne', by rw [h], by rw [h]; rfl⟩
  | .bool boolean, target, _, ht => Puts.ite (.refuse _ (by decide) trivial)
    ((putView_puts target _).mono (fun _ => id) fun mem' h => ⟨ht.ne', by rw [h], by rw [h]; rfl⟩)
  | .integer value, target, _, ht => (putView_puts target (.int64 value)).mono (fun _ => id)
    fun mem' h => ⟨ht.ne', by rw [h], by rw [h]; rfl⟩
  | .number bits, target, _, ht => (putView_puts target (.number bits)).mono (fun _ => id)
    fun mem' h => ⟨ht.ne', by rw [h], by rw [h]; rfl⟩
  | .string s, target, _, ht => by
    by_cases hs : s.data = 0 ∧ s.size ≠ 0
    · exact (Puts.refuse .invalidState (by decide) trivial).congr fun _ _ => if_pos hs
    · refine ((Puts.after (viewText_heap s) (putView_puts target (.string s))).mono (fun _ => id)
        fun mem' h => ?_).congr fun _ _ => if_neg hs
      refine ⟨ht.ne', by rw [h], ?_⟩
      rw [h, Memory.scalar, Memory.text, if_neg hs]
      rfl
  | .vector data elements, target, depth, ht => by
    refine (viewElements_puts hbase (fun first hfirst => viewNumbers_puts elements first hfirst)
      fun hn mem' => ?_).mono (fun _ => id) fun mem' h => ?_
    · rw [List.eq_nil_of_length_eq_zero hn]
      trivial
    · obtain ⟨first, count, hcount, h0, hitems, hview⟩ := h
      rw [← hcount] at hitems
      exact ⟨ht.ne', first, count, hview, h0, hitems⟩
  | .list items elements, target, depth, ht => by
    refine (viewElements_puts hbase (fun first hfirst => viewItems_puts hbase elements first
      (depth + 1) hfirst) fun hn mem' => ?_).mono (fun _ => id) fun mem' h => ?_
    · rw [List.eq_nil_of_length_eq_zero hn]
      trivial
    · obtain ⟨first, count, hcount, h0, hitems, hview⟩ := h
      rw [← hcount] at hitems
      exact ⟨ht.ne', first, count, hview, h0, hitems⟩
  | .map keys values, target, depth, ht => by
    refine (viewElements_puts hbase (fun first hfirst => viewEntries_puts hbase keys values first
      (depth + 1) hfirst) fun hn mem' => ?_).mono (fun _ => id) fun mem' h => ?_
    · rw [List.eq_nil_of_length_eq_zero hn]
      exact ⟨.nil, by rw [ExprValue.treeEntries]; trivial; intros; simp_all⟩
    · obtain ⟨first, count, hcount, h0, hentries, hview⟩ := h
      rw [← hcount] at hentries
      exact ⟨ht.ne', first, count, hview, h0, hentries⟩
  | .other, target, _, _ => .refuse _ (by decide) trivial

theorem viewItems_puts (hbase : 0 < base) : (elements : List ExprValue) → (slot depth : Nat) →
    0 < slot → PutsView base mem₀ (Block slot (viewSize * elements.length))
      (fun mem' => UnfoldsAll mem' (ExprValue.treeAll mem' elements)
        ((List.range elements.length).map fun i => slot + viewSize * i))
      (viewItems lib limits grants elements slot depth)
  | [], _, _, _ => .skip fun _ => trivial
  | value :: rest, slot, depth, hslot => by
    refine ((entering_puts (viewContent_puts hbase value slot depth hslot)).seq
      (viewItems_puts hbase rest (slot + viewSize) depth (by omega)) fun a ha ha' => ?_).mono
        (fun a ha => ?_) fun mem' h => ?_
    · have := ha'.1
      unfold viewSize at this
      omega
    · refine block_succ (ha.imp_left fun ha => ?_)
      unfold Block viewSize
      omega
    · rw [List.length_cons, row_succ]
      exact h

theorem viewEntries_puts (hbase : 0 < base) : (keys : List StringView) → (values : List ExprValue) →
    (slot depth : Nat) → 0 < slot → PutsView base mem₀ (Block slot (entrySize * keys.length))
      (fun mem' => List.Forall₂ (fun key e => mem'.text (mem'.key e) = some key) (keys.map mem'.bytes)
          ((List.range keys.length).map fun i => slot + entrySize * i) ∧
        UnfoldsAll mem' (ExprValue.treeEntries mem' keys values)
          (((List.range keys.length).map fun i => slot + entrySize * i).map (· + valueOffset)))
      (viewEntries lib limits grants keys values slot depth)
  | [], [], _, _, _ => .skip fun _ => ⟨.nil, trivial⟩
  | key :: keys, value :: rest, slot, depth, hslot => by
    by_cases hkey : key.data = 0
    · exact (Puts.refuse .invalidState (by decide) trivial).congr fun _ _ => if_pos hkey
    have hset : PutsView base mem₀ (· = slot) (fun mem' => mem'.key slot = key) fun state =>
        some (.ok, { state with heap := { state.heap with mem := state.heap.mem.setKey slot key } }) :=
      Puts.putKey fun _ => rfl
    have hvalue : PutsView base mem₀ (· = slot + valueOffset)
        (fun mem' => Unfolds mem' (value.tree mem') (slot + valueOffset))
        (entering limits depth (viewContent lib limits grants value (slot + valueOffset) depth)) :=
      entering_puts (viewContent_puts hbase value (slot + valueOffset) depth (by omega))
    have hhead : ∀ a, a = slot ∨ a = slot + valueOffset → Block slot entrySize a := by
      unfold Block entrySize valueOffset
      omega
    have hentry := (hset.seq hvalue fun a ha ha' => by unfold valueOffset at ha'; omega).seq
      (viewEntries_puts hbase keys rest (slot + entrySize) depth (by omega)) fun a ha =>
        block_apart (hhead a ha)
    refine ((Puts.ite (c := fun _ => key.size = 0) (.refuse _ (by decide) trivial)
      (Puts.after (viewText_heap key) hentry)).mono (fun a ha => ?_) fun mem' h => ?_).congr
        fun _ _ => if_neg hkey
    · exact block_succ (ha.imp_left (hhead a))
    · obtain ⟨⟨hset, hvalue⟩, hkeys, hvalues⟩ := h
      rw [List.length_cons, row_succ]
      refine ⟨.cons ?_ hkeys, hvalue, hvalues⟩
      rw [hset, Memory.text, if_neg fun h => hkey h.1]
  | _ :: _, [], _, _, _ | [], _ :: _, _, _, _ => .refuse _ (by decide) trivial
end

end Views
end TurboScript.Host.Values
