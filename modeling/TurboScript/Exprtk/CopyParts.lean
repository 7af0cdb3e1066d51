import TurboScript.Exprtk.ValueIndependence

/- What a copy allocates.

   1. `Copied`: a copy is the same value, in blocks that the memory had not given; the older
      blocks are as they were, and destroying the copy frees all of it (`Copied.undo`).
   2. `copied_payload`: the copies of texts and vectors, of no, one or two buffers.
   3. `Built`: the invariant of a container while its elements are copied. Tearing it down, after
      a copy of an element that succeeded or failed, gives back what was allocated
      (`Built.tearDown`). -/
namespace TurboScript.Exprtk.ValueCopy

/-- The memory has gone on from `mem0`: what was allocated then is as it was. -/
structure Since (mem0 mem : Memory) : Prop where
  next : mem0.next ≤ mem.next
  wf : mem.WF
  old : ∀ id, id < mem0.next → mem.blocks id = mem0.blocks id

namespace Since
variable {mem0 mem1 mem : Memory}

theorem refl (h : mem.WF) : Since mem mem := ⟨Nat.le_refl _, h, fun _ _ => rfl⟩

theorem trans (h : Since mem0 mem1) (h' : Since mem1 mem) : Since mem0 mem := by
  refine ⟨Nat.le_trans h.next h'.next, h'.wf, fun id hid => ?_⟩
  exact (h'.old id (Nat.lt_of_lt_of_le hid h.next)).trans (h.old id hid)

theorem of_blocks (h : Since mem0 mem1) (hwf : mem.WF) (hnext : mem1.next ≤ mem.next)
    (hblocks : mem.blocks = mem1.blocks) : Since mem0 mem :=
  h.trans ⟨hnext, hwf, fun id _ => congrFun hblocks id⟩

theorem tick (h : mem.WF) : Since mem mem.tick := (refl h).of_blocks h.tick (Nat.le_refl _) rfl

theorem grow (h : mem.WF) {block : Block}
    (hpool : ∀ pool count, block = .buffer pool count → pool < mem.next) :
    Since mem (mem.grow block) :=
  ⟨Nat.le_succ _, h.grow hpool, fun _ hid => Memory.grow_old (Nat.ne_of_lt hid)⟩

theorem growBuffer (h : mem.WF) {pool : Nat} (hpool : pool < mem.next) (count : Nat) :
    Since mem (mem.grow (.buffer pool count)) := by
  refine grow h fun p c hp => ?_
  injection hp with hp _
  omega

end Since

variable {mem mem' : Memory} {id pool : Nat} {v w : Value}

theorem Memory.WF.given (h : mem.WF) (hlive : mem.blocks id ≠ none) : id < mem.next := by
  by_contra hid
  exact hlive (h.bound id (Nat.le_of_not_lt hid))

/-! A copy that owns all of what it reaches. -/

/-- From `mem` to `mem'`, `w` was made as a copy of `v` for this pool. -/
structure Copied (pool : Nat) (mem : Memory) (v w : Value) (mem' : Memory) : Prop where
  same : Same v w
  since : Since mem mem'
  fresh : ∀ id ∈ w.ids, mem.next ≤ id
  live : ∀ id ∈ w.ids, mem'.blocks id ≠ none
  rest : ∀ id, mem.next ≤ id → id ∉ w.ids → mem'.blocks id = none
  pools : ∀ id p count, mem.next ≤ id → mem'.blocks id = some (.buffer p count) →
    p = pool ∧ v.Leaf ∨ mem.next ≤ p
  frees : Frees w mem'

theorem Copied.agrees {m : Memory} (h : Copied pool mem v w mem') (hm : m.blocks = mem'.blocks) :
    Agrees m mem' w.ids := by
  refine ⟨fun id _ => congrFun hm id, fun id p count hb hp => ?_⟩
  rw [hm] at hb
  by_contra hid
  have hold := h.since.wf.older id p count hb
  have hfresh := h.fresh p hp
  rw [h.rest id (by omega) hid] at hb
  cases hb

theorem Copied.undo {m : Memory} (h : Copied pool mem v w mem') (hwf : mem.WF)
    (hm : m.blocks = mem'.blocks) :
    (destroy w m).blocks = mem.blocks := by
  have hagrees := h.agrees hm
  funext id
  by_cases hid : id ∈ w.ids
  · rw [h.frees m hagrees id hid, hwf.bound id (h.fresh id hid)]
  · rw [destroy_untouched w m id hid fun p count hb hp => hid (hagrees.closed id p count hb hp), hm]
    by_cases hold : id < mem.next
    · exact h.since.old id hold
    · rw [h.rest id (Nat.le_of_not_lt hold) hid, hwf.bound id (Nat.le_of_not_lt hold)]

/-! Payloads. -/

/-- What a copied payload obtained: nothing for an empty one, else a buffer of the pool. -/
inductive Obtained (pool : Nat) : Option Nat → Memory → Memory → Prop where
  | nothing (mem : Memory) : Obtained pool none mem mem
  | buffer (mem : Memory) : Obtained pool (some mem.next) mem (mem.grow (.buffer pool 1))

theorem copied_plain (hwf : mem.WF) (hsame : Same v w) (hids : w.ids = []) (hwf' : mem'.WF)
    (hnext : mem.next ≤ mem'.next) (hblocks : mem'.blocks = mem.blocks) :
    Copied pool mem v w mem' where
  same := hsame
  since := (Since.refl hwf).of_blocks hwf' hnext hblocks
  fresh := by simp [hids]
  live := by simp [hids]
  rest := by
    intro id hid _
    rw [hblocks]
    exact hwf.bound id hid
  pools := by
    intro id p count hid hb
    rw [hblocks, hwf.bound id hid] at hb
    cases hb
  frees := by
    intro m _ id hid
    rw [hids] at hid
    cases hid

theorem release_last (h : mem.blocks id = some (.buffer pool 1)) : (mem.release id).blocks id = none := by
  unfold Memory.release
  rw [h]
  exact Function.update_self ..

theorem copied_one (hwf : mem.WF) (hpool : pool < mem.next) (hleaf : v.Leaf) (hsame : Same v w)
    (hids : w.ids = [mem.next]) (hdestroy : ∀ m, destroy w m = m.release mem.next) :
    Copied pool mem v w (mem.grow (.buffer pool 1)) where
  same := hsame
  since := .growBuffer hwf hpool 1
  fresh := by simp [hids]
  live := by
    intro id hid
    rw [hids, List.mem_singleton] at hid
    subst hid
    rw [Memory.grow_new]
    exact Option.some_ne_none _
  rest := by
    intro id hid hne
    rw [hids, List.mem_singleton] at hne
    rw [Memory.grow_old hne]
    exact hwf.bound id hid
  pools := by
    intro id p count hid hb
    by_cases hne : id = mem.next
    · subst hne
      rw [Memory.grow_new] at hb
      injection hb with hb
      injection hb with hp _
      exact .inl ⟨hp.symm, hleaf⟩
    · rw [Memory.grow_old hne, hwf.bound id hid] at hb
      cases hb
  frees := by
    intro m hm id hid
    have hb := hm.blocks id hid
    rw [hids, List.mem_singleton] at hid
    subst hid
    rw [Memory.grow_new] at hb
    rw [hdestroy]
    exact release_last hb

theorem copied_two (hwf : mem.WF) (hpool : pool < mem.next) (hleaf : v.Leaf) (hsame : Same v w)
    (hids : w.ids = [mem.next, mem.next + 1])
    (hdestroy : ∀ m, destroy w m = (m.release mem.next).release (mem.next + 1)) :
    Copied pool mem v w ((mem.grow (.buffer pool 1)).grow (.buffer pool 1)) := by
  have hgrow : Since mem (mem.grow (.buffer pool 1)) := .growBuffer hwf hpool 1
  have hgrow' : Since (mem.grow (.buffer pool 1)) ((mem.grow (.buffer pool 1)).grow (.buffer pool 1)) :=
    .growBuffer hgrow.wf (Nat.lt_succ_of_lt hpool) 1
  have hfirst : ((mem.grow (.buffer pool 1)).grow (.buffer pool 1)).blocks mem.next =
      some (.buffer pool 1) := by
    rw [hgrow'.old _ (Nat.lt_succ_self mem.next)]
    exact Memory.grow_new _
  have hsecond : ((mem.grow (.buffer pool 1)).grow (.buffer pool 1)).blocks (mem.next + 1) =
      some (.buffer pool 1) := Memory.grow_new _
  have hother : ∀ id, mem.next ≤ id → id ≠ mem.next → id ≠ mem.next + 1 →
      ((mem.grow (.buffer pool 1)).grow (.buffer pool 1)).blocks id = none := by
    intro id hid hne hne'
    rw [Memory.grow_old hne', Memory.grow_old hne]
    exact hwf.bound id hid
  have hmem : ∀ id, id ∈ w.ids ↔ id = mem.next ∨ id = mem.next + 1 := by simp [hids]
  refine ⟨hsame, hgrow.trans hgrow', fun id hid => ?_, fun id hid => ?_, fun id hid hne => ?_,
    fun id p count hid hb => ?_, fun m hm id hid => ?_⟩
  · have hid := (hmem id).mp hid
    omega
  · cases (hmem id).mp hid with
    | inl hid => simp [hid, hfirst]
    | inr hid => simp [hid, hsecond]
  · rw [hmem, not_or] at hne
    exact hother id hid hne.1 hne.2
  · by_cases hids : id = mem.next ∨ id = mem.next + 1
    · have hb' : ((mem.grow (.buffer pool 1)).grow (.buffer pool 1)).blocks id = some (.buffer pool 1) := by
        cases hids with
        | inl hid => rw [hid, hfirst]
        | inr hid => rw [hid, hsecond]
      rw [hb'] at hb
      injection hb with hb
      injection hb with hp _
      exact .inl ⟨hp.symm, hleaf⟩
    · rw [not_or] at hids
      rw [hother id hid hids.1 hids.2] at hb
      cases hb
  · have hbfirst := (hm.blocks mem.next ((hmem _).mpr (.inl rfl))).trans hfirst
    have hbsecond := (hm.blocks (mem.next + 1) ((hmem _).mpr (.inr rfl))).trans hsecond
    rw [hdestroy]
    cases (hmem id).mp hid with
    | inl hid =>
      subst hid
      exact (Shrinks.release _ _).none (release_last hbfirst)
    | inr hid =>
      subst hid
      exact release_last ((release_untouched (Nat.succ_ne_self _)).trans hbsecond)

theorem copied_payload {mem1 : Memory} {storage aux : Option Nat} (own : Ownership) (hwf : mem.WF)
    (hpool : pool < mem.next) (hleaf : v.Leaf) (hsame : Same v w)
    (hids : w.ids = storage.toList ++ aux.toList)
    (hdestroy : ∀ m, destroy w m = releaseStorage storage aux (ownedBy storage aux own) m)
    (hfirst : Obtained pool storage mem mem1) (hsecond : Obtained pool aux mem1 mem') :
    Copied pool mem v w mem' := by
  cases hfirst with
  | nothing =>
    cases hsecond with
    | nothing => exact copied_plain hwf hsame hids hwf (Nat.le_refl _) rfl
    | buffer => exact copied_one hwf hpool hleaf hsame hids hdestroy
  | buffer =>
    cases hsecond with
    | nothing => exact copied_one hwf hpool hleaf hsame hids hdestroy
    | buffer => exact copied_two hwf hpool hleaf hsame hids hdestroy

/-! A container while it is built. -/

def tearDown (array pool : Option Nat) (items : List Value) (mem : Memory) : Memory :=
  Memory.each Memory.freePool (Memory.each Memory.free (destroyItems items mem) array) pool

structure ListHead.Owner (head : ListHead) : Prop where
  own : head.own = .owned
  heapOwned : head.heapOwned = head.array.isSome

theorem destroy_list {head : ListHead} (h : head.Owner) (items : List Value) (mem : Memory) :
    destroy (.list head items) mem = tearDown head.array head.pool items mem := by
  rw [destroy, h.own, if_neg (by decide), h.heapOwned]
  cases head.array <;> rfl

theorem destroy_map (isObject : Bool) (table : Nat) (entries : List (Key × Value)) (mem : Memory) :
    destroy (.map isObject table entries .owned) mem =
      tearDown none (some table) (entries.map Prod.snd) mem := by
  rw [destroy, if_neg (by decide), destroyEntries_eq]
  rfl

theorem tearDown_shrinks (array pool : Option Nat) (items : List Value) (mem : Memory) :
    Shrinks (tearDown array pool items mem) (destroyItems items mem) :=
  (Shrinks.each Shrinks.freePool _ pool).trans (Shrinks.each Shrinks.set_none _ array)

theorem tearDown_shell {array pool : Option Nat} {items : List Value}
    (h : id ∈ array.toList ++ pool.toList ∨
      ∃ p count, p ∈ pool.toList ∧ mem.blocks id = some (.buffer p count)) :
    (tearDown array pool items mem).blocks id = none := by
  have hfreed : ∀ (mem : Memory) (p : Nat), id = p ∨ mem.blocks id = none ∨
      (∃ count, mem.blocks id = some (.buffer p count)) → (mem.freePool p).blocks id = none := by
    intro mem p hp
    obtain rfl | hp | ⟨count, hp⟩ := hp
    · exact if_pos rfl
    · exact (Shrinks.freePool mem p).none hp
    · simp [Memory.freePool, hp]
  obtain h | ⟨p, count, hp, hb⟩ := h
  · cases List.mem_append.mp h with
    | inl harray =>
      rw [Option.mem_toList] at harray
      subst harray
      exact (Shrinks.each Shrinks.freePool _ pool).none (Function.update_self ..)
    | inr hpool =>
      rw [Option.mem_toList] at hpool
      subst hpool
      exact hfreed _ id (.inl rfl)
  · rw [Option.mem_toList] at hp
    subst hp
    refine hfreed _ p (.inr ?_)
    -- what the elements and the array leave of the buffer is nothing, or the same buffer
    have hshrinks : Shrinks (Memory.each Memory.free (destroyItems items mem) array) mem :=
      (Shrinks.each Shrinks.set_none _ array).trans (destroyItems_shrinks items mem)
    obtain hn | hs | ⟨p', c, c', hm, hs⟩ := hshrinks.blocks id
    · exact .inl hn
    · exact .inr ⟨count, by rw [hs, hb]⟩
    · rw [hb] at hm
      injection hm with hm
      injection hm with hp _
      exact .inr ⟨c', by rw [hs, hp]⟩

theorem tearDown_untouched {array pool : Option Nat} {items : List Value}
    (hshell : id ∉ array.toList ++ pool.toList) (hitems : id ∉ itemsIds items)
    (hpools : ∀ p count, mem.blocks id = some (.buffer p count) → p ∉ pool.toList ∧ p ∉ itemsIds items) :
    (tearDown array pool items mem).blocks id = mem.blocks id := by
  rw [List.mem_append, not_or] at hshell
  have hdestroyed : (destroyItems items mem).blocks id = mem.blocks id :=
    destroyItems_untouched items mem id hitems fun p count hb => (hpools p count hb).2
  have hfreed : (Memory.each Memory.free (destroyItems items mem) array).blocks id = mem.blocks id :=
    (each_untouched (fun x mem hne => set_untouched hne) hshell.1).trans hdestroyed
  unfold tearDown
  cases pool with
  | none => exact hfreed
  | some p =>
    refine (freePool_untouched (by simpa using hshell.2) fun p' count hb => ?_).trans hfreed
    rw [hfreed] at hb
    simpa using (hpools p' count hb).1

/-- A container that is built from `mem0` on: its array and its pool, and the copies in it. -/
structure Built (mem0 mem : Memory) (array pool : Option Nat) (items : List Value) : Prop where
  since : Since mem0 mem
  shell : ∀ id ∈ array.toList ++ pool.toList, mem0.next ≤ id ∧
    ∃ block, mem.blocks id = some block ∧ ∀ p count, block ≠ .buffer p count
  distinct : ∀ id ∈ array.toList, id ∉ pool.toList
  inside : ∀ id ∈ itemsIds items, mem0.next ≤ id ∧ id ∉ array.toList ++ pool.toList ∧
    mem.blocks id ≠ none
  rest : ∀ id, mem0.next ≤ id → id ∉ array.toList ++ pool.toList → id ∉ itemsIds items →
    mem.blocks id = none
  pools : ∀ id p count, mem0.next ≤ id → mem.blocks id = some (.buffer p count) → mem0.next ≤ p
  parts : Parts mem items

namespace Built
variable {mem0 mem : Memory} {array pool : Option Nat} {items : List Value}

theorem nil (h : mem.WF) : Built mem mem none none [] where
  since := .refl h
  shell := by simp
  distinct := by simp
  inside := by simp [itemsIds]
  rest := fun id hid _ _ => h.bound id hid
  pools := by
    intro id p count hid hb
    rw [h.bound id hid] at hb
    cases hb
  parts := ⟨by simp, .nil⟩

theorem of_blocks (h : Built mem0 mem array pool items) {m : Memory} (hwf : m.WF)
    (hnext : mem.next ≤ m.next) (hblocks : m.blocks = mem.blocks) :
    Built mem0 m array pool items where
  since := h.since.of_blocks hwf hnext hblocks
  shell := by
    rw [hblocks]
    exact h.shell
  distinct := h.distinct
  inside := by
    rw [hblocks]
    exact h.inside
  rest := by
    rw [hblocks]
    exact h.rest
  pools := by
    rw [hblocks]
    exact h.pools
  parts := h.parts.congr fun id _ => congrFun hblocks id

theorem perm (h : Built mem0 mem array pool items) {items' : List Value}
    (hperm : items.Perm items') : Built mem0 mem array pool items' := by
  have hmem : ∀ id, id ∈ itemsIds items' ↔ id ∈ itemsIds items := by
    intro id
    simp only [mem_itemsIds, hperm.mem_iff]
  exact {
    since := h.since
    shell := h.shell
    distinct := h.distinct
    inside := fun id hid => h.inside id ((hmem id).mp hid)
    rest := fun id hid hshell hitems => h.rest id hid hshell (mt (hmem id).mpr hitems)
    pools := h.pools
    parts := h.parts.perm hperm }

theorem shell_given (h : Built mem0 mem array pool items) {id : Nat}
    (hid : id ∈ array.toList ++ pool.toList) : id < mem.next := by
  obtain ⟨_, block, hb, _⟩ := h.shell id hid
  exact h.since.wf.given (by rw [hb]; exact Option.some_ne_none _)

theorem inside_given (h : Built mem0 mem array pool items) {id : Nat} (hid : id ∈ itemsIds items) :
    id < mem.next := h.since.wf.given (h.inside id hid).2.2

theorem newPool (h : Built mem0 mem array none items) :
    Built mem0 (mem.grow .pool) array (some mem.next) items := by
  have hgrow : Since mem (mem.grow .pool) := .grow h.since.wf nofun
  have hshell : ∀ id, id ∈ array.toList ++ (some mem.next).toList ↔
      id ∈ array.toList ++ (none : Option Nat).toList ∨ id = mem.next := by simp
  exact {
    since := h.since.trans hgrow
    shell := by
      intro id hid
      cases (hshell id).mp hid with
      | inl hid =>
        rw [hgrow.old id (h.shell_given hid)]
        exact h.shell id hid
      | inr hid =>
        subst hid
        exact ⟨h.since.next, .pool, Memory.grow_new _, nofun⟩
    distinct := by
      intro id hid hpool
      have hold := h.shell_given (List.mem_append_left _ hid)
      have hid : id = mem.next := by simpa using hpool
      omega
    inside := by
      intro id hid
      obtain ⟨hnew, hout, hlive⟩ := h.inside id hid
      have hold := h.inside_given hid
      rw [hshell, not_or, hgrow.old id hold]
      exact ⟨hnew, ⟨hout, Nat.ne_of_lt hold⟩, hlive⟩
    rest := by
      intro id hid hout hitems
      rw [hshell, not_or] at hout
      rw [Memory.grow_old hout.2]
      exact h.rest id hid hout.1 hitems
    pools := by
      intro id p count hid hb
      by_cases hne : id = mem.next
      · subst hne
        rw [Memory.grow_new] at hb
        cases hb
      · rw [Memory.grow_old hne] at hb
        exact h.pools id p count hid hb
    parts := h.parts.congr fun id hid => hgrow.old id (h.inside_given hid) }

theorem table (h : mem.WF) : Built mem (mem.grow .table) none (some mem.next) [] where
  since := .grow h nofun
  shell := by
    intro id hid
    have hid : id = mem.next := by simpa using hid
    subst hid
    exact ⟨Nat.le_refl _, .table, Memory.grow_new _, nofun⟩
  distinct := by simp
  inside := by simp [itemsIds]
  rest := by
    intro id hid hout _
    have hne : id ≠ mem.next := by
      rintro rfl
      exact hout (by simp)
    rw [Memory.grow_old hne]
    exact h.bound id hid
  pools := by
    intro id p count hid hb
    by_cases hne : id = mem.next
    · subst hne
      rw [Memory.grow_new] at hb
      cases hb
    · rw [Memory.grow_old hne, h.bound id hid] at hb
      cases hb
  parts := ⟨by simp, .nil⟩

theorem newArray (h : Built mem0 mem array pool items) :
    Built mem0 (Memory.each Memory.free (mem.grow .array) array) (some mem.next) pool items := by
  have hgrow : Since mem (mem.grow .array) := .grow h.since.wf nofun
  have hfree : ∀ id, id ∉ array.toList → (Memory.each Memory.free (mem.grow .array) array).blocks id =
      (mem.grow .array).blocks id :=
    fun id hid => each_untouched (fun x mem hne => set_untouched hne) hid
  have hfreed : ∀ id, id ∈ array.toList →
      (Memory.each Memory.free (mem.grow .array) array).blocks id = none := by
    intro id hid
    rw [Option.mem_toList] at hid
    subst hid
    exact Function.update_self ..
  have hshrinks : Shrinks (Memory.each Memory.free (mem.grow .array) array) (mem.grow .array) :=
    Shrinks.each Shrinks.set_none _ _
  have hnew : mem.next ∉ array.toList := fun hid =>
    Nat.lt_irrefl _ (h.shell_given (List.mem_append_left _ hid))
  exact {
    since := by
      refine ⟨?_, hshrinks.wf hgrow.wf, fun id hid => ?_⟩
      · rw [hshrinks.next]
        exact Nat.le_trans h.since.next hgrow.next
      · rw [hfree id fun harray => ?_]
        · exact (h.since.trans hgrow).old id hid
        · have hshell := (h.shell id (List.mem_append_left _ harray)).1
          omega
    shell := by
      intro id hid
      cases List.mem_append.mp hid with
      | inl hid =>
        have hid : id = mem.next := by simpa using hid
        subst hid
        rw [hfree _ hnew]
        exact ⟨h.since.next, .array, Memory.grow_new _, nofun⟩
      | inr hid =>
        rw [hfree id fun harray => h.distinct id harray hid,
          hgrow.old id (h.shell_given (List.mem_append_right _ hid))]
        exact h.shell id (List.mem_append_right _ hid)
    distinct := by
      intro id hid hpool
      have hold := h.shell_given (List.mem_append_right _ hpool)
      have hid : id = mem.next := by simpa using hid
      omega
    inside := by
      intro id hid
      obtain ⟨hnew, hout, hlive⟩ := h.inside id hid
      have hold := h.inside_given hid
      rw [List.mem_append, not_or] at hout
      rw [List.mem_append, not_or, hfree id hout.1, hgrow.old id hold]
      refine ⟨hnew, ⟨fun hnext => ?_, hout.2⟩, hlive⟩
      have hid : id = mem.next := by simpa using hnext
      omega
    rest := by
      intro id hid hout hitems
      rw [List.mem_append, not_or] at hout
      have hne : id ≠ mem.next := by
        rintro rfl
        exact hout.1 (by simp)
      by_cases harray : id ∈ array.toList
      · exact hfreed id harray
      · rw [hfree id harray, Memory.grow_old hne]
        refine h.rest id hid ?_ hitems
        rw [List.mem_append, not_or]
        exact ⟨harray, hout.2⟩
    pools := by
      intro id p count hid hb
      obtain ⟨count', hb⟩ := hshrinks.buffer hb
      by_cases hne : id = mem.next
      · subst hne
        rw [Memory.grow_new] at hb
        cases hb
      · rw [Memory.grow_old hne] at hb
        exact h.pools id p count' hid hb
    parts := by
      refine h.parts.congr fun id hid => ?_
      have hout := (h.inside id hid).2.1
      rw [List.mem_append, not_or] at hout
      rw [hfree id hout.1, hgrow.old id (h.inside_given hid)] }

theorem cons (h : Built mem0 mem array pool items) {p : Nat} (hp : p ∈ pool.toList) {v w : Value}
    {mem' : Memory} (hcopied : Copied p mem v w mem') :
    Built mem0 mem' array pool (w :: items) := by
  have hold : ∀ id, id ∈ array.toList ++ pool.toList ∨ id ∈ itemsIds items → id < mem.next :=
    fun id hid => hid.elim h.shell_given h.inside_given
  have hpool : p ∈ array.toList ++ pool.toList := List.mem_append_right _ hp
  have hapart : ∀ u ∈ items, Apart mem' w u := by
    intro u hu
    have hu : ∀ id ∈ u.ids, id ∈ itemsIds items := fun id hid => mem_itemsIds.mpr ⟨u, hu, hid⟩
    refine ⟨fun id hw hidu => ?_, fun id q count hb => ⟨fun hw hq => ?_, fun hidu hq => ?_⟩⟩
    · have hfresh := hcopied.fresh id hw
      have hgiven := hold id (.inr (hu id hidu))
      omega
    · -- a buffer of the copy lies in the pool of the container, or in a pool of the copy
      have hgiven := hold q (.inr (hu q hq))
      cases hcopied.pools id q count (hcopied.fresh id hw) hb with
      | inl hqp => exact (h.inside q (hu q hq)).2.1 (hqp.1 ▸ hpool)
      | inr hqp => omega
    · have hfresh := hcopied.fresh q hq
      have hgiven := hold id (.inr (hu id hidu))
      have holder := hcopied.since.wf.older id q count hb
      omega
  exact {
    since := h.since.trans hcopied.since
    shell := by
      intro id hid
      rw [hcopied.since.old id (h.shell_given hid)]
      exact h.shell id hid
    distinct := h.distinct
    inside := by
      intro id hid
      rw [itemsIds, List.mem_append] at hid
      cases hid with
      | inl hid =>
        have hfresh := hcopied.fresh id hid
        refine ⟨Nat.le_trans h.since.next hfresh, fun hshell => ?_, hcopied.live id hid⟩
        have hgiven := h.shell_given hshell
        omega
      | inr hid =>
        rw [hcopied.since.old id (h.inside_given hid)]
        exact h.inside id hid
    rest := by
      intro id hid hshell hitems
      rw [itemsIds, List.mem_append, not_or] at hitems
      by_cases hgiven : id < mem.next
      · rw [hcopied.since.old id hgiven]
        exact h.rest id hid hshell hitems.2
      · exact hcopied.rest id (Nat.le_of_not_lt hgiven) hitems.1
    pools := by
      intro id q count hid hb
      by_cases hgiven : id < mem.next
      · rw [hcopied.since.old id hgiven] at hb
        exact h.pools id q count hid hb
      · cases hcopied.pools id q count (Nat.le_of_not_lt hgiven) hb with
        | inl hq => exact hq.1 ▸ (h.shell p hpool).1
        | inr hq => exact Nat.le_trans h.since.next hq
    parts := by
      have hparts := h.parts.congr fun id hid => hcopied.since.old id (h.inside_given hid)
      exact hparts.cons hcopied.frees hapart }

theorem agrees_items (h : Built mem0 mem array pool items) {m : Memory}
    (hblocks : ∀ id ∈ itemsIds items, m.blocks id = mem.blocks id)
    (hclosed : ∀ id p count, m.blocks id = some (.buffer p count) → p ∈ itemsIds items →
      id ∈ itemsIds items ∨ mem.blocks id = m.blocks id) :
    Agrees m mem (itemsIds items) := by
  refine ⟨hblocks, fun id p count hb hp => ?_⟩
  refine (hclosed id p count hb hp).elim (fun hid => hid) fun hsame => ?_
  rw [← hsame] at hb
  by_contra hid
  have holder := h.since.wf.older id p count hb
  have hnew := (h.inside p hp).1
  by_cases hshell : id ∈ array.toList ++ pool.toList
  · obtain ⟨_, block, hblock, hne⟩ := h.shell id hshell
    rw [hblock] at hb
    exact hne p count (Option.some.inj hb)
  · rw [h.rest id (by omega) hshell hid] at hb
    cases hb

theorem tearDown (h : Built mem0 mem array pool items) (hwf : mem0.WF) {m : Memory}
    (hold : ∀ id, id < mem.next → m.blocks id = mem.blocks id)
    (hnew : ∀ id, mem.next ≤ id → m.blocks id = none ∨
      ∃ p count, p ∈ pool.toList ∧ m.blocks id = some (.buffer p count)) :
    (ValueCopy.tearDown array pool items m).blocks = mem0.blocks := by
  have hagrees : Agrees m mem (itemsIds items) := by
    refine h.agrees_items (fun id hid => hold id (h.inside_given hid)) ?_
    intro id p count hb hp
    by_cases hgiven : id < mem.next
    · exact .inr (hold id hgiven).symm
    · obtain hn | ⟨q, c, hq, hn⟩ := hnew id (Nat.le_of_not_lt hgiven)
      · rw [hn] at hb
        cases hb
      · rw [hn] at hb
        injection hb with hb
        injection hb with hqp _
        subst hqp
        exact absurd (List.mem_append_right _ hq) (h.inside q hp).2.1
  funext id
  by_cases hbefore : id < mem0.next
  · have hm : m.blocks id = mem0.blocks id := by
      rw [hold id (Nat.lt_of_lt_of_le hbefore h.since.next), h.since.old id hbefore]
    rw [tearDown_untouched, hm]
    · intro hshell
      have := (h.shell id hshell).1
      omega
    · intro hitems
      have := (h.inside id hitems).1
      omega
    · intro p count hb
      rw [hm] at hb
      have holder := hwf.older id p count hb
      refine ⟨fun hp => ?_, fun hp => ?_⟩
      · have := (h.shell p (List.mem_append_right _ hp)).1
        omega
      · have := (h.inside p hp).1
        omega
  · rw [hwf.bound id (Nat.le_of_not_lt hbefore)]
    by_cases hshell : id ∈ array.toList ++ pool.toList
    · exact tearDown_shell (.inl hshell)
    · have hshrinks := tearDown_shrinks array pool items m
      by_cases hitems : id ∈ itemsIds items
      · exact hshrinks.none (h.parts.destroy m hagrees id hitems)
      · by_cases hgiven : id < mem.next
        · refine (hshrinks.trans (destroyItems_shrinks items m)).none ?_
          rw [hold id hgiven]
          exact h.rest id (Nat.le_of_not_lt hbefore) hshell hitems
        · obtain hn | ⟨p, count, hp, hb⟩ := hnew id (Nat.le_of_not_lt hgiven)
          · exact (hshrinks.trans (destroyItems_shrinks items m)).none hn
          · exact tearDown_shell (.inr ⟨p, count, hp, hb⟩)

theorem copied (h : Built mem0 mem array pool items) {v w : Value} (p : Nat) (hsame : Same v w)
    (hids : ∀ id, id ∈ w.ids ↔ id ∈ array.toList ++ pool.toList ∨ id ∈ itemsIds items)
    (hdestroy : ∀ m, destroy w m = ValueCopy.tearDown array pool items m) :
    Copied p mem0 v w mem where
  same := hsame
  since := h.since
  fresh := by
    intro id hid
    exact ((hids id).mp hid).elim (fun hid => (h.shell id hid).1) fun hid => (h.inside id hid).1
  live := by
    intro id hid
    refine ((hids id).mp hid).elim (fun hid => ?_) fun hid => (h.inside id hid).2.2
    obtain ⟨_, block, hb, _⟩ := h.shell id hid
    rw [hb]
    exact Option.some_ne_none _
  rest := by
    intro id hid hout
    rw [hids, not_or] at hout
    exact h.rest id hid hout.1 hout.2
  pools := fun id q count hid hb => .inr (h.pools id q count hid hb)
  frees := by
    intro m hm id hid
    have hagrees : Agrees m mem (itemsIds items) := by
      refine h.agrees_items (fun id hid => hm.blocks id ((hids id).mpr (.inr hid))) ?_
      intro id q count hb hq
      exact .inr (hm.blocks id (hm.closed id q count hb ((hids q).mpr (.inr hq)))).symm
    rw [hdestroy]
    cases (hids id).mp hid with
    | inl hid => exact tearDown_shell (.inl hid)
    | inr hid => exact (tearDown_shrinks array pool items m).none (h.parts.destroy m hagrees id hid)

end Built

end TurboScript.Exprtk.ValueCopy
