import TurboScript.Exprtk.ValueCopy

/- When two values are the same, and what destroying a value touches.

   1. `Same`: two values with the same types, payloads, order of elements and entries, up to
      the slots of the entries; functions and references are the same objects.
   2. `destroy_untouched`: destroying a value touches what the value reaches, and the buffers of
      the pools it reaches, and nothing else.
   3. `Frees`, `Parts`: values that are freed completely when they are destroyed, and lists of
      such values, one apart from the other. -/
namespace TurboScript.Exprtk.ValueCopy
open Function

/-! What a value is and what it reaches. -/

mutual

inductive Same : Value → Value → Prop where
  | inline (type : InlineType) (bits : Nat) : Same (.inline type bits) (.inline type bits)
  | text (type : TextType) {view view' : Slice UInt8} (storage storage' : Option Nat)
      (own own' : Ownership) (h : view'.content = view.content) :
      Same (.text type view storage own) (.text type view' storage' own')
  | enum (isFlags : Bool) {name name' symbol symbol' : Slice UInt8} (value : Int)
      (storage storage' aux aux' : Option Nat) (own own' : Ownership)
      (hname : name'.content = name.content) (hsymbol : symbol'.content = symbol.content) :
      Same (.enum isFlags name symbol value storage aux own)
        (.enum isFlags name' symbol' value storage' aux' own')
  | vector {data data' : Slice UInt64} (storage storage' : Option Nat) (own own' : Ownership)
      (h : data'.content = data.content) :
      Same (.vector data storage own) (.vector data' storage' own')
  | typedArray (kind : TypedKind) {data data' : Slice UInt64} (heap heap' : Option Nat)
      (storage storage' : Option Nat) (own own' : Ownership)
      (h : data'.content = data.content) :
      Same (.typedArray kind data heap storage own) (.typedArray kind data' heap' storage' own')
  | list {head head' : ListHead} {items items' : List Value} (hset : head'.isSet = head.isSet)
      (h : SameItems items items') : Same (.list head items) (.list head' items')
  | map (isObject : Bool) (table table' : Nat) {entries entries' shuffled : List (Key × Value)}
      (own own' : Ownership) (h : SameEntries entries shuffled) (hperm : shuffled.Perm entries') :
      Same (.map isObject table entries own) (.map isObject table' entries' own')
  | nullMap (isObject : Bool) (table' : Nat) (own own' : Ownership) :
      Same (.nullMap isObject own) (.map isObject table' [] own')
  | function (closureEnv : Option Nat) (code : Nat) (own own' : Ownership) :
      Same (.function closureEnv code own) (.function closureEnv code own')
  | reference (type : RefType) (object : Nat) :
      Same (.reference type object) (.reference type object)

inductive SameItems : List Value → List Value → Prop where
  | nil : SameItems [] []
  | cons {v w : Value} {vs ws : List Value} (h : Same v w) (hs : SameItems vs ws) :
      SameItems (v :: vs) (w :: ws)

inductive SameEntries : List (Key × Value) → List (Key × Value) → Prop where
  | nil : SameEntries [] []
  | cons (key : Key) {v w : Value} {vs ws : List (Key × Value)} (h : Same v w)
      (hs : SameEntries vs ws) : SameEntries ((key, v) :: vs) ((key, w) :: ws)

end

mutual

def Value.ids : Value → List Nat
  | .inline _ _ => []
  | .text _ _ storage _ => storage.toList
  | .enum _ _ _ _ storage aux _ => storage.toList ++ aux.toList
  | .vector _ storage _ => storage.toList
  | .typedArray _ _ heapData storage _ => storage.toList ++ heapData.toList
  | .list head items => head.array.toList ++ (head.pool.toList ++ itemsIds items)
  | .map _ table entries _ => table :: entriesIds entries
  | .nullMap _ _ => []
  | .function _ _ _ => []
  | .reference _ _ => []

def itemsIds : List Value → List Nat
  | [] => []
  | item :: rest => item.ids ++ itemsIds rest

def entriesIds : List (Key × Value) → List Nat
  | [] => []
  | (_, child) :: rest => child.ids ++ entriesIds rest

end

mutual

/-- A value as the code builds it: the keys of a map are different, and the elements of a typed
array lie in a buffer or on the heap. -/
def Value.Valid : Value → Prop
  | .typedArray _ _ heapData storage _ => storage = none ∨ heapData = none
  | .list _ items => ItemsValid items
  | .map _ _ entries _ => (entries.map Prod.fst).Nodup ∧ EntriesValid entries
  | .inline _ _ => True
  | .text _ _ _ _ => True
  | .enum _ _ _ _ _ _ _ => True
  | .vector _ _ _ => True
  | .nullMap _ _ => True
  | .function _ _ _ => True
  | .reference _ _ => True

def ItemsValid : List Value → Prop
  | [] => True
  | item :: rest => item.Valid ∧ ItemsValid rest

def EntriesValid : List (Key × Value) → Prop
  | [] => True
  | (_, child) :: rest => child.Valid ∧ EntriesValid rest

end

def Value.storages : Value → List Nat
  | .text _ _ storage _ => storage.toList
  | .enum _ _ _ _ storage aux _ => storage.toList ++ aux.toList
  | .vector _ storage _ => storage.toList
  | .typedArray _ _ _ storage _ => storage.toList
  | _ => []

/-! Memory. -/

section Memory
variable {mem : Memory} {id : Nat}

theorem Memory.WF.tick (h : mem.WF) : mem.tick.WF := ⟨h.bound, h.older⟩

theorem Memory.WF.grow (h : mem.WF) {block : Block}
    (hpool : ∀ pool count, block = .buffer pool count → pool < mem.next) :
    (mem.grow block).WF := by
  constructor
  · intro id hid
    have hid : mem.next + 1 ≤ id := hid
    show update mem.blocks mem.next (some block) id = none
    rw [update_of_ne (by omega)]
    exact h.bound id (by omega)
  · intro id pool count hblock
    have hblock : update mem.blocks mem.next (some block) id = some (.buffer pool count) := hblock
    by_cases hid : id = mem.next
    · subst hid
      rw [update_self] at hblock
      injection hblock with hblock
      exact hpool pool count hblock
    · rw [update_of_ne hid] at hblock
      exact h.older id pool count hblock

theorem Memory.grow_new (block : Block) : (mem.grow block).blocks mem.next = some block :=
  update_self ..

theorem Memory.grow_old {block : Block} (h : id ≠ mem.next) :
    (mem.grow block).blocks id = mem.blocks id := update_of_ne h _ _

theorem Memory.WF.shrink (h : mem.WF) {small : Memory} (hnext : small.next = mem.next)
    (hblocks : ∀ id, small.blocks id = none ∨ small.blocks id = mem.blocks id ∨
      ∃ pool count count', mem.blocks id = some (.buffer pool count) ∧
        small.blocks id = some (.buffer pool count')) : small.WF := by
  constructor
  · intro id hid
    rw [hnext] at hid
    obtain hb | hb | ⟨pool, count, count', hb, _⟩ := hblocks id
    · exact hb
    · rw [hb, h.bound id hid]
    · rw [h.bound id hid] at hb
      cases hb
  · intro id pool count hblock
    obtain hb | hb | ⟨pool', c, c', hb, hb'⟩ := hblocks id
    · rw [hb] at hblock
      cases hblock
    · rw [hb] at hblock
      exact h.older id pool count hblock
    · rw [hb'] at hblock
      injection hblock with hblock
      injection hblock with hpool _
      subst hpool
      exact h.older id pool' c hb

end Memory

/-! Operations that only give memory back. -/

/-- The same identities, of which some are freed and some counted otherwise. -/
structure Shrinks (small mem : Memory) : Prop where
  next : small.next = mem.next
  blocks : ∀ id, small.blocks id = none ∨ small.blocks id = mem.blocks id ∨
    ∃ pool count count', mem.blocks id = some (.buffer pool count) ∧
      small.blocks id = some (.buffer pool count')

namespace Shrinks
variable {small mid mem : Memory}

theorem refl (mem : Memory) : Shrinks mem mem := ⟨rfl, fun _ => .inr (.inl rfl)⟩

theorem trans (h : Shrinks small mid) (h' : Shrinks mid mem) : Shrinks small mem := by
  refine ⟨h.next.trans h'.next, fun id => ?_⟩
  obtain hb | hb | ⟨pool, c, c', hb, hb'⟩ := h.blocks id
  · exact .inl hb
  · rw [hb]
    exact h'.blocks id
  · obtain hm | hm | ⟨pool', d, d', hm, hm'⟩ := h'.blocks id
    · rw [hm] at hb
      cases hb
    · rw [hm] at hb
      exact .inr (.inr ⟨pool, c, c', hb, hb'⟩)
    · rw [hm'] at hb
      injection hb with hb
      injection hb with hpool _
      subst hpool
      exact .inr (.inr ⟨pool', d, c', hm, hb'⟩)

theorem wf (h : Shrinks small mem) (hwf : mem.WF) : small.WF := hwf.shrink h.next h.blocks

theorem set_none (mem : Memory) (id : Nat) : Shrinks (mem.set id none) mem := by
  refine ⟨rfl, fun other => ?_⟩
  by_cases h : other = id
  · subst h
    exact .inl (update_self ..)
  · exact .inr (.inl (update_of_ne h _ _))

theorem recount {mem : Memory} {id pool count : Nat} (h : mem.blocks id = some (.buffer pool count))
    (count' : Nat) : Shrinks (mem.set id (some (.buffer pool count'))) mem := by
  refine ⟨rfl, fun other => ?_⟩
  by_cases hid : other = id
  · subst hid
    exact .inr (.inr ⟨pool, count, count', h, update_self ..⟩)
  · exact .inr (.inl (update_of_ne hid _ _))

theorem release (mem : Memory) (id : Nat) : Shrinks (mem.release id) mem := by
  unfold Memory.release
  split
  · rename_i pool count hblock
    split
    · exact set_none mem id
    · exact recount hblock _
  · exact refl mem

theorem freePool (mem : Memory) (pool : Nat) : Shrinks (mem.freePool pool) mem := by
  refine ⟨rfl, fun id => ?_⟩
  unfold Memory.freePool
  dsimp only
  split
  · exact .inl rfl
  · split
    · rename_i p count hblock
      split
      · exact .inl rfl
      · exact .inr (.inl hblock.symm)
    · exact .inr (.inl rfl)

theorem each {f : Memory → Nat → Memory} (h : ∀ mem id, Shrinks (f mem id) mem) (mem : Memory)
    (id : Option Nat) : Shrinks (Memory.each f mem id) mem := by
  cases id with
  | none => exact refl mem
  | some id => exact h mem id

theorem releaseStorage (storage aux : Option Nat) (own : Ownership) (mem : Memory) :
    Shrinks (releaseStorage storage aux own mem) mem := by
  unfold ValueCopy.releaseStorage
  split
  · exact (each release _ aux).trans (each release mem storage)
  · exact refl mem

end Shrinks

mutual

theorem destroy_shrinks (v : Value) (mem : Memory) : Shrinks (destroy v mem) mem := by
  cases v with
  | inline | nullMap | function | reference =>
    rw [destroy]
    exact .refl mem
  | text | enum | vector =>
    rw [destroy]
    exact .releaseStorage ..
  | typedArray =>
    rw [destroy]
    exact (Shrinks.each Shrinks.set_none _ _).trans (.releaseStorage ..)
  | list head items =>
    rw [destroy]
    split
    · exact .refl mem
    · refine (Shrinks.each Shrinks.freePool _ _).trans (Shrinks.trans ?_ (destroyItems_shrinks items mem))
      split
      · exact Shrinks.each Shrinks.set_none _ _
      · exact .refl _
  | map isObject table entries own =>
    rw [destroy]
    split
    · exact .refl mem
    · exact (Shrinks.freePool _ _).trans (destroyEntries_shrinks entries mem)

theorem destroyItems_shrinks (items : List Value) (mem : Memory) :
    Shrinks (destroyItems items mem) mem := by
  cases items with
  | nil =>
    rw [destroyItems]
    exact .refl mem
  | cons item rest =>
    rw [destroyItems]
    exact (destroyItems_shrinks rest _).trans (destroy_shrinks item mem)

theorem destroyEntries_shrinks (entries : List (Key × Value)) (mem : Memory) :
    Shrinks (destroyEntries entries mem) mem := by
  cases entries with
  | nil =>
    rw [destroyEntries]
    exact .refl mem
  | cons entry rest =>
    obtain ⟨key, child⟩ := entry
    rw [destroyEntries]
    exact (destroyEntries_shrinks rest _).trans (destroy_shrinks child mem)

end

/-! Operations that leave a block alone. -/

section Untouched
variable {mem : Memory} {id x : Nat}

theorem set_untouched {block : Option Block} (h : id ≠ x) :
    (mem.set x block).blocks id = mem.blocks id := update_of_ne h _ _

theorem set_at (mem : Memory) (id : Nat) (block : Option Block) :
    (mem.set id block).blocks id = block := update_self ..

theorem release_untouched (h : id ≠ x) : (mem.release x).blocks id = mem.blocks id := by
  unfold Memory.release
  split
  · exact set_untouched h
  · rfl

theorem retain_untouched (h : id ≠ x) : (mem.retain x).blocks id = mem.blocks id := by
  unfold Memory.retain
  split
  · exact set_untouched h
  · rfl

theorem freePool_untouched (h : id ≠ x)
    (hpool : ∀ pool count, mem.blocks id = some (.buffer pool count) → pool ≠ x) :
    (mem.freePool x).blocks id = mem.blocks id := by
  unfold Memory.freePool
  dsimp only
  rw [if_neg h]
  cases hblock : mem.blocks id with
  | none => rfl
  | some block =>
    cases block with
    | buffer pool count => exact if_neg (hpool pool count hblock)
    | table | pool | array | data => rfl

theorem each_untouched {f : Memory → Nat → Memory} {o : Option Nat}
    (hf : ∀ x mem, id ≠ x → (f mem x).blocks id = mem.blocks id) (h : id ∉ o.toList) :
    (Memory.each f mem o).blocks id = mem.blocks id := by
  cases o with
  | none => rfl
  | some x => exact hf x mem (by simpa using h)

theorem releaseStorage_untouched {storage aux : Option Nat} {own : Ownership}
    (hs : id ∉ storage.toList) (ha : id ∉ aux.toList) :
    (releaseStorage storage aux own mem).blocks id = mem.blocks id := by
  have hrelease : ∀ x mem, id ≠ x → (Memory.release mem x).blocks id = mem.blocks id :=
    fun x mem h => release_untouched h
  unfold releaseStorage
  split
  · rw [each_untouched hrelease ha, each_untouched hrelease hs]
  · rfl

theorem retainStorage_untouched {storage aux : Option Nat}
    (hs : id ∉ storage.toList) (ha : id ∉ aux.toList) :
    (retainStorage storage aux mem).blocks id = mem.blocks id := by
  have hretain : ∀ x mem, id ≠ x → (Memory.retain mem x).blocks id = mem.blocks id :=
    fun x mem h => retain_untouched h
  unfold retainStorage
  rw [each_untouched hretain ha, each_untouched hretain hs]

end Untouched

mutual

/-- Destroying a value leaves a block alone that the value does not reach, unless it is a buffer
of a pool that the value reaches. -/
theorem destroy_untouched (v : Value) (mem : Memory) (id : Nat) (hid : id ∉ v.ids)
    (hpool : ∀ pool count, mem.blocks id = some (.buffer pool count) → pool ∉ v.ids) :
    (destroy v mem).blocks id = mem.blocks id := by
  have hfree : ∀ x mem, id ≠ x → (Memory.free mem x).blocks id = mem.blocks id :=
    fun x mem h => set_untouched h
  cases v with
  | inline | nullMap | function | reference => rw [destroy]
  | text type view storage own =>
    rw [destroy]
    exact releaseStorage_untouched hid List.not_mem_nil
  | enum isFlags name symbol value storage aux own =>
    rw [Value.ids, List.mem_append, not_or] at hid
    rw [destroy]
    exact releaseStorage_untouched hid.1 hid.2
  | vector data storage own =>
    rw [destroy]
    exact releaseStorage_untouched hid List.not_mem_nil
  | typedArray kind data heapData storage own =>
    rw [Value.ids, List.mem_append, not_or] at hid
    rw [destroy, each_untouched hfree hid.2]
    exact releaseStorage_untouched hid.1 List.not_mem_nil
  | list head items =>
    rw [Value.ids, List.mem_append, List.mem_append, not_or, not_or] at hid
    rw [destroy]
    split
    · rfl
    · have hitems : (destroyItems items mem).blocks id = mem.blocks id := by
        refine destroyItems_untouched items mem id hid.2.2 fun pool count hblock hmem => ?_
        refine hpool pool count hblock ?_
        rw [Value.ids]
        exact List.mem_append_right _ (List.mem_append_right _ hmem)
      have harray : (if head.heapOwned = true then
          Memory.each Memory.free (destroyItems items mem) head.array
          else destroyItems items mem).blocks id = mem.blocks id := by
        split
        · rw [each_untouched hfree hid.1, hitems]
        · exact hitems
      dsimp only
      cases hp : head.pool with
      | none => exact harray
      | some p =>
        rw [hp] at hid
        refine (freePool_untouched (by simpa using hid.2.1) fun pool count hblock => ?_).trans harray
        rw [harray] at hblock
        rintro rfl
        refine hpool pool count hblock ?_
        rw [Value.ids, hp]
        simp
  | map isObject table entries own =>
    rw [Value.ids, List.mem_cons, not_or] at hid
    rw [destroy]
    split
    · rfl
    · have hentries : (destroyEntries entries mem).blocks id = mem.blocks id := by
        refine destroyEntries_untouched entries mem id hid.2 fun pool count hblock hmem => ?_
        refine hpool pool count hblock ?_
        rw [Value.ids]
        exact List.mem_cons_of_mem _ hmem
      refine (freePool_untouched hid.1 fun pool count hblock => ?_).trans hentries
      rw [hentries] at hblock
      rintro rfl
      refine hpool pool count hblock ?_
      rw [Value.ids]
      exact List.mem_cons_self

theorem destroyItems_untouched (items : List Value) (mem : Memory) (id : Nat) (hid : id ∉ itemsIds items)
    (hpool : ∀ pool count, mem.blocks id = some (.buffer pool count) → pool ∉ itemsIds items) :
    (destroyItems items mem).blocks id = mem.blocks id := by
  cases items with
  | nil => rw [destroyItems]
  | cons item rest =>
    rw [itemsIds, List.mem_append, not_or] at hid
    have hitem : (destroy item mem).blocks id = mem.blocks id := by
      refine destroy_untouched item mem id hid.1 fun pool count hblock hmem => ?_
      exact hpool pool count hblock (by rw [itemsIds]; exact List.mem_append_left _ hmem)
    rw [destroyItems, destroyItems_untouched rest _ id hid.2, hitem]
    intro pool count hblock hmem
    rw [hitem] at hblock
    exact hpool pool count hblock (by rw [itemsIds]; exact List.mem_append_right _ hmem)

theorem destroyEntries_untouched (entries : List (Key × Value)) (mem : Memory) (id : Nat)
    (hid : id ∉ entriesIds entries)
    (hpool : ∀ pool count, mem.blocks id = some (.buffer pool count) → pool ∉ entriesIds entries) :
    (destroyEntries entries mem).blocks id = mem.blocks id := by
  cases entries with
  | nil => rw [destroyEntries]
  | cons entry rest =>
    obtain ⟨key, child⟩ := entry
    rw [entriesIds, List.mem_append, not_or] at hid
    have hitem : (destroy child mem).blocks id = mem.blocks id := by
      refine destroy_untouched child mem id hid.1 fun pool count hblock hmem => ?_
      exact hpool pool count hblock (by rw [entriesIds]; exact List.mem_append_left _ hmem)
    rw [destroyEntries, destroyEntries_untouched rest _ id hid.2, hitem]
    intro pool count hblock hmem
    rw [hitem] at hblock
    exact hpool pool count hblock (by rw [entriesIds]; exact List.mem_append_right _ hmem)

end

def Value.Leaf : Value → Prop
  | .list _ _ => False
  | .map _ _ _ _ => False
  | .nullMap _ _ => False
  | _ => True

variable {v : Value} {mem : Memory} {items : List Value}

theorem destroy_leaf_untouched (hleaf : v.Leaf) (mem : Memory) {id : Nat} (hid : id ∉ v.ids) :
    (destroy v mem).blocks id = mem.blocks id := by
  cases v with
  | list | map | nullMap => exact hleaf.elim
  | inline | function | reference => rw [destroy]
  | text type view storage own =>
    rw [destroy]
    exact releaseStorage_untouched hid List.not_mem_nil
  | enum isFlags name symbol value storage aux own =>
    rw [Value.ids, List.mem_append, not_or] at hid
    rw [destroy]
    exact releaseStorage_untouched hid.1 hid.2
  | vector data storage own =>
    rw [destroy]
    exact releaseStorage_untouched hid List.not_mem_nil
  | typedArray kind data heapData storage own =>
    rw [Value.ids, List.mem_append, not_or] at hid
    have hfree : ∀ x mem, id ≠ x → (Memory.free mem x).blocks id = mem.blocks id :=
      fun x mem hne => set_untouched hne
    rw [destroy, each_untouched hfree hid.2]
    exact releaseStorage_untouched hid.1 List.not_mem_nil

/-! Values that are freed completely. -/

theorem Shrinks.none {small mem : Memory} (h : Shrinks small mem) {id : Nat}
    (hnone : mem.blocks id = none) : small.blocks id = none := by
  obtain hb | hb | ⟨_, _, _, hb, _⟩ := h.blocks id
  · exact hb
  · rw [hb, hnone]
  · rw [hnone] at hb
    cases hb

theorem Shrinks.buffer {small : Memory} (h : Shrinks small mem) {id pool count : Nat}
    (hb : small.blocks id = some (.buffer pool count)) :
    ∃ count', mem.blocks id = some (.buffer pool count') := by
  obtain hs | hs | ⟨pool', c, c', hm, hs⟩ := h.blocks id
  · rw [hs] at hb
    cases hb
  · exact ⟨count, by rw [← hs, hb]⟩
  · rw [hs] at hb
    cases hb
    exact ⟨c, hm⟩

theorem mem_itemsIds {id : Nat} : id ∈ itemsIds items ↔ ∃ v ∈ items, id ∈ v.ids := by
  induction items with
  | nil => simp [itemsIds]
  | cons item rest ih => simp [itemsIds, ih]

theorem entriesIds_eq (entries : List (Key × Value)) :
    entriesIds entries = itemsIds (entries.map Prod.snd) := by
  induction entries with
  | nil => simp [entriesIds, itemsIds]
  | cons entry rest ih => simp [entriesIds, itemsIds, ih]

theorem destroyEntries_eq (entries : List (Key × Value)) : ∀ mem : Memory,
    destroyEntries entries mem = destroyItems (entries.map Prod.snd) mem := by
  induction entries with
  | nil => intro mem; rw [destroyEntries, List.map_nil, destroyItems]
  | cons entry rest ih =>
    intro mem
    rw [destroyEntries, List.map_cons, destroyItems, ih]

/-- `m` has these blocks as `mem` has them, and no other buffer of a pool among them. -/
structure Agrees (m mem : Memory) (ids : List Nat) : Prop where
  blocks : ∀ id ∈ ids, m.blocks id = mem.blocks id
  closed : ∀ id pool count, m.blocks id = some (.buffer pool count) → pool ∈ ids → id ∈ ids

/-- Wherever the blocks of the value are as they are in `mem`, destroying it frees them all. -/
def Frees (v : Value) (mem : Memory) : Prop :=
  ∀ m, Agrees m mem v.ids → ∀ id ∈ v.ids, (destroy v m).blocks id = none

theorem Frees.congr {mem' : Memory} (h : Frees v mem)
    (heq : ∀ id ∈ v.ids, mem'.blocks id = mem.blocks id) : Frees v mem' := by
  intro m hm
  exact h m ⟨fun id hid => (hm.blocks id hid).trans (heq id hid), hm.closed⟩

/-- Two values without a block in common, and without a buffer in a pool of the other. -/
def Apart (mem : Memory) (v w : Value) : Prop :=
  (∀ id ∈ v.ids, id ∉ w.ids) ∧ ∀ id pool count, mem.blocks id = some (.buffer pool count) →
    (id ∈ v.ids → pool ∉ w.ids) ∧ (id ∈ w.ids → pool ∉ v.ids)

theorem Apart.symm {w : Value} (h : Apart mem v w) : Apart mem w v :=
  ⟨fun id hw hv => h.1 id hv hw, fun id pool count hb => (h.2 id pool count hb).symm⟩

theorem Apart.congr {mem' : Memory} {w : Value} (h : Apart mem v w)
    (heq : ∀ id, id ∈ v.ids ∨ id ∈ w.ids → mem'.blocks id = mem.blocks id) : Apart mem' v w := by
  refine ⟨h.1, fun id pool count hb => ⟨fun hv => ?_, fun hw => ?_⟩⟩
  · rw [heq id (.inl hv)] at hb
    exact (h.2 id pool count hb).1 hv
  · rw [heq id (.inr hw)] at hb
    exact (h.2 id pool count hb).2 hw

structure Parts (mem : Memory) (items : List Value) : Prop where
  frees : ∀ v ∈ items, Frees v mem
  apart : items.Pairwise (Apart mem)

theorem Parts.congr {mem' : Memory} (h : Parts mem items)
    (heq : ∀ id ∈ itemsIds items, mem'.blocks id = mem.blocks id) : Parts mem' items := by
  have hone : ∀ v ∈ items, ∀ id ∈ v.ids, mem'.blocks id = mem.blocks id :=
    fun v hv id hid => heq id (mem_itemsIds.mpr ⟨v, hv, hid⟩)
  refine ⟨fun v hv => (h.frees v hv).congr (hone v hv), ?_⟩
  refine h.apart.imp_of_mem fun hv hw hapart => hapart.congr fun id hid => ?_
  exact hid.elim (hone _ hv id) (hone _ hw id)

theorem Parts.perm {items' : List Value} (h : Parts mem items) (hperm : items.Perm items') :
    Parts mem items' :=
  ⟨fun v hv => h.frees v (hperm.mem_iff.mpr hv),
    (hperm.pairwise_iff fun {_ _} h => Apart.symm h).mp h.apart⟩

theorem Parts.cons (h : Parts mem items) (hv : Frees v mem) (hapart : ∀ w ∈ items, Apart mem v w) :
    Parts mem (v :: items) :=
  ⟨List.forall_mem_cons.mpr ⟨hv, h.frees⟩, List.pairwise_cons.mpr ⟨hapart, h.apart⟩⟩

theorem Parts.destroy (h : Parts mem items) : ∀ m, Agrees m mem (itemsIds items) → ∀ id ∈ itemsIds items,
      (destroyItems items m).blocks id = none := by
  induction items with
  | nil =>
    intro m _ id hid
    rw [itemsIds] at hid
    cases hid
  | cons v rest ih =>
    obtain ⟨hapart, hpairs⟩ := List.pairwise_cons.mp h.apart
    have hv := h.frees v List.mem_cons_self
    have hrest : Parts mem rest :=
      ⟨fun w hw => h.frees w (List.mem_cons_of_mem _ hw), hpairs⟩
    intro m hm id hid
    rw [itemsIds] at hm hid
    -- the first value, while the blocks of the rest are still there
    have hfirst : Agrees m mem v.ids := by
      refine ⟨fun id hid => hm.blocks id (List.mem_append_left _ hid), ?_⟩
      intro id pool count hb hpool
      refine (List.mem_append.mp (hm.closed id pool count hb
        (List.mem_append_left _ hpool))).resolve_right fun hid => ?_
      obtain ⟨w, hw, hidw⟩ := mem_itemsIds.mp hid
      rw [hm.blocks id (List.mem_append_right _ hid)] at hb
      exact ((hapart w hw).2 id pool count hb).2 hidw hpool
    have hkept : ∀ id ∈ itemsIds rest, (ValueCopy.destroy v m).blocks id = m.blocks id := by
      intro id hid
      obtain ⟨w, hw, hidw⟩ := mem_itemsIds.mp hid
      refine destroy_untouched v m id (fun hidv => (hapart w hw).1 id hidv hidw) ?_
      intro pool count hb
      rw [hm.blocks id (List.mem_append_right _ hid)] at hb
      exact ((hapart w hw).2 id pool count hb).2 hidw
    have hsecond : Agrees (ValueCopy.destroy v m) mem (itemsIds rest) := by
      refine ⟨fun id hid => (hkept id hid).trans (hm.blocks id (List.mem_append_right _ hid)), ?_⟩
      intro id pool count hb hpool
      obtain ⟨count', hb'⟩ := (destroy_shrinks v m).buffer hb
      refine (List.mem_append.mp (hm.closed id pool count' hb'
        (List.mem_append_right _ hpool))).resolve_left fun hid => ?_
      rw [hv m hfirst id hid] at hb
      cases hb
    rw [destroyItems]
    cases List.mem_append.mp hid with
    | inl hid => exact (destroyItems_shrinks rest _).none (hv m hfirst id hid)
    | inr hid => exact ih hrest _ hsecond id hid

end TurboScript.Exprtk.ValueCopy
