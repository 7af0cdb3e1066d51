import TurboScript.Exprtk.CopyParts

/- The copy into a pool (`exprtk_value_copy_to_pool`, `exprtk_value_copy_to_env`).

   1. `copyToPool_outcome`: by induction on the value, a payload that is not shared is copied in
      the sense of `Copied`, or what was allocated is freed again.
   2. `retained_undo`: a payload that lies in the pool already gets one more holder.
   3. `copyToPool_holders`: the captured scopes of the functions in the copy are counted.
   4. `copy_deep`: what the entry points promise. -/
namespace TurboScript.Exprtk.ValueCopy

/-! A copy that fails. -/

/-- What a copy that failed may leave behind: a buffer of the pool, where `leak` says so. -/
structure Failed (pool : Nat) (leak : Prop) (mem mem' : Memory) : Prop where
  since : Since mem mem'
  rest : ∀ id, mem.next ≤ id → mem'.blocks id = none ∨
    leak ∧ ∃ count, mem'.blocks id = some (.buffer pool count)

/-- All that was allocated since `mem` is freed. -/
structure Restored (mem mem' : Memory) : Prop where
  wf : mem'.WF
  next : mem.next ≤ mem'.next
  blocks : mem'.blocks = mem.blocks

variable {mem : Memory} {pool id : Nat} {storage aux : Option Nat} {v : Value}

theorem Restored.failed {mem' : Memory} (h : Restored mem mem') (hwf : mem.WF) (pool : Nat)
    (leak : Prop) : Failed pool leak mem mem' where
  since := (Since.refl hwf).of_blocks h.wf h.next h.blocks
  rest := by
    intro id hid
    rw [h.blocks]
    exact .inl (hwf.bound id hid)

theorem Failed.restored {leak : Prop} {mem' : Memory} (h : Failed pool leak mem mem')
    (hwf : mem.WF) (hleak : ¬ leak) : Restored mem mem' := by
  refine ⟨h.since.wf, h.since.next, funext fun id => ?_⟩
  by_cases hid : id < mem.next
  · exact h.since.old id hid
  · rw [hwf.bound id (Nat.le_of_not_lt hid)]
    exact (h.rest id (Nat.le_of_not_lt hid)).resolve_right fun hl => hleak hl.1

theorem Restored.tick (h : mem.WF) : Restored mem mem.tick :=
  ⟨h.tick, Nat.le_refl _, rfl⟩

/-- An enum or flags value that is copied as borrowed: where its second text cannot be copied, the
first stays. -/
def Value.Leaks (asBorrowed : Bool) : Value → Prop
  | .enum _ _ _ _ _ _ own => asBorrowed = true ∨ own = .borrowed
  | _ => False

/-- The payload lies in buffers of this pool: `copyToPool` counts one more holder. -/
def Value.shared (pool : Nat) : Value → Memory → Bool
  | .text _ _ storage _, mem => sharable pool storage none mem
  | .enum _ _ _ _ storage aux _, mem => sharable pool storage aux mem
  | .vector _ storage _, mem => sharable pool storage none mem
  | .typedArray _ _ _ storage _, mem => sharable pool storage none mem
  | _, _ => false

theorem sharable_younger (h : mem.WF) (hold : ∀ id ∈ storage.toList, id < pool) :
    sharable pool storage aux mem = false := by
  cases storage with
  | none => rfl
  | some id =>
    have hid := hold id (by simp)
    have hpool : mem.inPool pool id = false := by
      unfold Memory.inPool
      split
      · rename_i p count hb
        have hp := h.older id p count hb
        exact beq_false_of_ne (by omega)
      · rfl
    simp [sharable, hpool]

theorem Value.unshared (h : mem.WF) (hold : ∀ id ∈ v.ids, id < pool) : v.shared pool mem = false := by
  cases v with
  | text | vector => exact sharable_younger h hold
  | enum | typedArray =>
    exact sharable_younger h fun id hid => hold id (List.mem_append_left _ hid)
  | inline | list | map | nullMap | function | reference => rfl

/-- The copy of a value, or the failure, with what is left of it. -/
def Outcome (asBorrowed : Bool) (pool : Nat) (v : Value) (mem : Memory) : Option Value × Memory → Prop
  | (some w, mem') => Copied pool mem v w mem'
  | (none, mem') => Failed pool (v.Leaks asBorrowed) mem mem'

/-! Requests. -/

section Requests
variable (alloc : Nat → Bool) {pool : Nat} {mem : Memory}

theorem request_cases (block : Block) (mem : Memory) :
    request alloc block mem = (some mem.next, mem.grow block) ∨
      request alloc block mem = (none, mem.tick) := by
  unfold request
  split
  · exact .inl rfl
  · exact .inr rfl

theorem copyView_outcome (pool : Nat) (source : Slice UInt8) (nulTerminate : Bool) (hwf : mem.WF) :
    match copyView alloc pool source nulTerminate mem with
    | (some (storage, view), mem') => Obtained pool storage mem mem' ∧
        view.content = source.content
    | (none, mem') => Restored mem mem' := by
  have hrefl : Restored mem mem := ⟨hwf, Nat.le_refl _, rfl⟩
  unfold copyView
  by_cases hnull : source.data = none ∧ source.len ≠ 0
  · rw [if_pos hnull]
    exact hrefl
  · rw [if_neg hnull]
    by_cases hempty : source.len = 0
    · rw [if_pos hempty]
      refine ⟨.nothing mem, ?_⟩
      rw [Slice.content_of, Slice.content, hempty, List.take_zero]
    · rw [if_neg hempty]
      by_cases hlong : nulTerminate = true ∧ source.len = sizeMax
      · rw [if_pos hlong]
        exact hrefl
      · rw [if_neg hlong]
        cases request_cases alloc (.buffer pool 1) mem with
        | inl hrequest =>
          rw [hrequest]
          exact ⟨.buffer mem, Slice.content_of _⟩
        | inr hrequest =>
          rw [hrequest]
          exact .tick hwf

theorem copyPayload_outcome (pool : Nat) (source : Slice UInt64) (elementSize : Nat) (hwf : mem.WF) :
    match copyPayload alloc pool source elementSize mem with
    | (some (storage, data), mem') => Obtained pool storage mem mem' ∧
        data.content = source.content
    | (none, mem') => Restored mem mem' := by
  have hrefl : Restored mem mem := ⟨hwf, Nat.le_refl _, rfl⟩
  unfold copyPayload
  by_cases hempty : source.len = 0
  · rw [if_pos hempty]
    refine ⟨.nothing mem, ?_⟩
    rw [Slice.content, Slice.content, hempty, List.take_zero, List.take_zero]
  · rw [if_neg hempty]
    by_cases hnull : source.data = none
    · rw [if_pos hnull]
      exact hrefl
    · rw [if_neg hnull]
      by_cases hlong : source.len > sizeMax / elementSize
      · rw [if_pos hlong]
        exact hrefl
      · rw [if_neg hlong]
        cases request_cases alloc (.buffer pool 1) mem with
        | inl hrequest =>
          rw [hrequest]
          exact ⟨.buffer mem, Slice.content_of _⟩
        | inr hrequest =>
          rw [hrequest]
          exact .tick hwf

theorem Obtained.wf {storage : Option Nat} {mem' : Memory} (h : Obtained pool storage mem mem')
    (hwf : mem.WF) (hpool : pool < mem.next) : mem'.WF := by
  cases h with
  | nothing => exact hwf
  | buffer => exact (Since.growBuffer hwf hpool 1).wf

end Requests

/-! Payloads that are not shared. -/

section Leaves
variable (alloc : Nat → Bool) (slot : Nat → Key → Nat) {pool : Nat} {mem : Memory}

theorem copyText_outcome (asBorrowed : Bool) (type : TextType) (view : Slice UInt8)
    (storage : Option Nat) (own : Ownership) (hwf : mem.WF) (hpool : pool < mem.next)
    (hshared : sharable pool storage none mem = false) :
    Outcome asBorrowed pool (.text type view storage own) mem
      (copyToPool alloc slot asBorrowed pool (.text type view storage own) mem) := by
  have hview := copyView_outcome alloc pool view (type != .bytes) hwf
  rw [copyToPool, hshared, if_neg Bool.false_ne_true]
  revert hview
  rcases copyView alloc pool view (type != .bytes) mem with ⟨_ | ⟨storage', view'⟩, mem'⟩
  · exact fun hview => hview.failed hwf _ _
  · intro hview
    refine copied_payload (if asBorrowed then .borrowed else own) hwf hpool trivial
      (.text type _ _ _ _ hview.2) ?_ (fun m => ?_) hview.1 (.nothing mem')
    · rw [Value.ids]
      exact (List.append_nil _).symm
    · rw [destroy]

theorem copyVector_outcome (asBorrowed : Bool) (data : Slice UInt64) (storage : Option Nat)
    (own : Ownership) (hwf : mem.WF) (hpool : pool < mem.next)
    (hshared : sharable pool storage none mem = false) :
    Outcome asBorrowed pool (.vector data storage own) mem
      (copyToPool alloc slot asBorrowed pool (.vector data storage own) mem) := by
  have hdata := copyPayload_outcome alloc pool data 8 hwf
  rw [copyToPool, hshared, if_neg Bool.false_ne_true]
  revert hdata
  rcases copyPayload alloc pool data 8 mem with ⟨_ | ⟨storage', data'⟩, mem'⟩
  · exact fun hdata => hdata.failed hwf _ _
  · intro hdata
    refine copied_payload (if asBorrowed then .borrowed else own) hwf hpool trivial
      (.vector _ _ _ _ hdata.2) ?_ (fun m => ?_) hdata.1 (.nothing mem')
    · rw [Value.ids]
      exact (List.append_nil _).symm
    · rw [destroy]

theorem copyTypedArray_outcome (asBorrowed : Bool) (kind : TypedKind) (data : Slice UInt64)
    (heapData storage : Option Nat) (own : Ownership) (hwf : mem.WF) (hpool : pool < mem.next)
    (hshared : sharable pool storage none mem = false) :
    Outcome asBorrowed pool (.typedArray kind data heapData storage own) mem
      (copyToPool alloc slot asBorrowed pool (.typedArray kind data heapData storage own) mem) := by
  rw [copyToPool, hshared, if_neg Bool.false_ne_true]
  cases kind.elementSize with
  | none => exact Restored.failed ⟨hwf, Nat.le_refl _, rfl⟩ hwf _ _
  | some elementSize =>
    have hdata := copyPayload_outcome alloc pool data elementSize hwf
    revert hdata
    dsimp only
    rcases copyPayload alloc pool data elementSize mem with ⟨_ | ⟨storage', data'⟩, mem'⟩
    · exact fun hdata => hdata.failed hwf _ _
    · intro hdata
      refine copied_payload (if asBorrowed then .borrowed else own) hwf hpool trivial
        (.typedArray kind _ _ _ _ _ _ hdata.2) ?_ (fun m => ?_) hdata.1 (.nothing mem')
      · rw [Value.ids]
      · rw [destroy]
        rfl

theorem releaseFirst_outcome {mem1 mem2 : Memory} {storage : Option Nat} {own : Ownership}
    {leak : Prop} (hwf : mem.WF) (hpool : pool < mem.next) (hfirst : Obtained pool storage mem mem1)
    (hsecond : Restored mem1 mem2) (hleak : own = .borrowed → leak) :
    Failed pool leak mem (releaseStorage storage none own mem2) := by
  cases hfirst with
  | nothing =>
    refine Restored.failed ⟨?_, ?_, ?_⟩ hwf pool leak
    · exact (Shrinks.releaseStorage ..).wf hsecond.wf
    · rw [(Shrinks.releaseStorage ..).next]
      exact hsecond.next
    · rw [← hsecond.blocks]
      unfold releaseStorage
      split <;> rfl
  | buffer =>
    have hgrow : Since mem (mem.grow (.buffer pool 1)) := .growBuffer hwf hpool 1
    have hnew : mem2.blocks mem.next = some (.buffer pool 1) := by
      rw [hsecond.blocks]
      exact Memory.grow_new _
    have hshrinks := Shrinks.releaseStorage (some mem.next) none own mem2
    have hother : ∀ id, id ≠ mem.next →
        (releaseStorage (some mem.next) none own mem2).blocks id = mem.blocks id := by
      intro id hid
      rw [releaseStorage_untouched (by simpa using hid) List.not_mem_nil, hsecond.blocks]
      exact Memory.grow_old hid
    refine ⟨⟨?_, hshrinks.wf hsecond.wf, fun id hid => hother id (Nat.ne_of_lt hid)⟩, fun id hid => ?_⟩
    · rw [hshrinks.next]
      exact Nat.le_trans hgrow.next hsecond.next
    · by_cases hne : id = mem.next
      · subst hne
        cases own with
        | owned => exact .inl (release_last hnew)
        | borrowed => exact .inr ⟨hleak rfl, 1, hnew⟩
      · rw [hother id hne]
        exact .inl (hwf.bound id hid)

theorem copyEnum_outcome (asBorrowed isFlags : Bool) (name symbol : Slice UInt8) (value : Int)
    (storage aux : Option Nat) (own : Ownership) (hwf : mem.WF) (hpool : pool < mem.next)
    (hshared : sharable pool storage aux mem = false) :
    Outcome asBorrowed pool (.enum isFlags name symbol value storage aux own) mem
      (copyToPool alloc slot asBorrowed pool (.enum isFlags name symbol value storage aux own) mem) := by
  have hname := copyView_outcome alloc pool name true hwf
  rw [copyToPool, hshared, if_neg Bool.false_ne_true]
  revert hname
  rcases copyView alloc pool name true mem with ⟨_ | ⟨storage', name'⟩, mem1⟩
  · exact fun hname => hname.failed hwf _ _
  · intro hname
    have hsymbol := copyView_outcome alloc pool symbol true (hname.1.wf hwf hpool)
    revert hsymbol
    dsimp only
    rcases copyView alloc pool symbol true mem1 with ⟨_ | ⟨aux', symbol'⟩, mem'⟩
    · intro hsymbol
      refine releaseFirst_outcome hwf hpool hname.1 hsymbol fun hown => ?_
      cases asBorrowed with
      | true => exact .inl rfl
      | false => exact .inr hown
    · intro hsymbol
      refine copied_payload (if asBorrowed then .borrowed else own) hwf hpool trivial
        (.enum isFlags value _ _ _ _ _ _ hname.2 hsymbol.2) ?_ (fun m => ?_) hname.1 hsymbol.1
      · rw [Value.ids]
      · rw [destroy]

end Leaves

/-! One element. -/

section Elements
variable (alloc : Nat → Bool) (slot : Nat → Key → Nat) {mem0 mem : Memory}

theorem listPool_outcome {head : ListHead} {built : List Value} (howner : head.Owner)
    (h : Built mem0 mem head.array head.pool built) :
    match listPool alloc head mem with
    | (some (pool, head'), mem') => head'.isSet = head.isSet ∧ head'.Owner ∧
        head'.pool = some pool ∧ Built mem0 mem' head'.array head'.pool built
    | (none, mem') => Built mem0 mem' head.array head.pool built := by
  unfold listPool
  cases hpool : head.pool with
  | some pool => exact ⟨rfl, howner, hpool, hpool ▸ h⟩
  | none =>
    rw [hpool] at h
    cases request_cases alloc .pool mem with
    | inl hrequest =>
      rw [hrequest]
      exact ⟨rfl, ⟨howner.own, howner.heapOwned⟩, rfl, h.newPool⟩
    | inr hrequest =>
      rw [hrequest]
      exact h.of_blocks h.since.wf.tick (Nat.le_refl _) rfl

theorem Built.drop {array pool : Option Nat} {items : List Value}
    (h : Built mem0 mem array pool items) {p : Nat} {v w : Value} {mem' m : Memory}
    (hcopied : Copied p mem v w mem') (hm : Restored mem' m) :
    Built mem0 (destroy w m) array pool items := by
  have hshrinks := destroy_shrinks w m
  refine h.of_blocks (hshrinks.wf hm.wf) ?_ (hcopied.undo h.since.wf hm.blocks)
  rw [hshrinks.next]
  exact Nat.le_trans hcopied.since.next hm.next

theorem listStore_outcome {head : ListHead} {built : List Value} (howner : head.Owner)
    (h : Built mem0 mem head.array head.pool built) {p : Nat} (hp : head.pool = some p)
    {v w : Value} {mem' : Memory} (hcopied : Copied p mem v w mem') :
    match listStore alloc head built w mem' with
    | (some (head', items), m) => head'.isSet = head.isSet ∧ head'.Owner ∧
        items = built ++ [w] ∧ Built mem0 m head'.array head'.pool (built ++ [w])
    | (none, m) => Built mem0 m head.array head.pool built := by
  have hstored : Built mem0 mem' head.array head.pool (built ++ [w]) :=
    (h.cons (by simp [hp]) hcopied).perm (List.perm_append_singleton w built).symm
  have hwf := hcopied.since.wf
  unfold listStore
  by_cases hroom : built.length < head.capacity
  · rw [if_pos hroom]
    exact ⟨rfl, howner, rfl, hstored⟩
  · rw [if_neg hroom]
    by_cases hlarge : head.capacity > sizeMax / 2
    · rw [if_pos hlarge]
      exact h.drop hcopied ⟨hwf, Nat.le_refl _, rfl⟩
    · rw [if_neg hlarge]
      cases request_cases alloc .array mem' with
      | inl hrequest =>
        rw [hrequest]
        refine ⟨rfl, ⟨rfl, rfl⟩, rfl, ?_⟩
        have harray : (if head.heapOwned = true then
            Memory.each Memory.free (mem'.grow .array) head.array else mem'.grow .array) =
            Memory.each Memory.free (mem'.grow .array) head.array := by
          rw [howner.heapOwned]
          cases head.array <;> rfl
        dsimp only
        rw [harray]
        exact hstored.newArray
      | inr hrequest =>
        rw [hrequest]
        exact h.drop hcopied (.tick hwf)

theorem mapStore_outcome {table : Nat} {built : List (Key × Value)}
    (h : Built mem0 mem none (some table) (built.map Prod.snd)) {key : Key}
    (hkey : key ∉ built.map Prod.fst) {v w : Value} {mem' : Memory}
    (hcopied : Copied table mem v w mem') :
    match mapStore alloc slot built key w mem' with
    | (some built', m) => built'.Perm ((key, w) :: built) ∧
        Built mem0 m none (some table) (built'.map Prod.snd)
    | (none, m) => Built mem0 m none (some table) (built.map Prod.snd) := by
  have hlookup : built.lookup key = none := by
    rw [List.lookup_eq_none_iff]
    intro entry hentry
    refine bne_iff_ne.mpr ?_
    rintro rfl
    exact hkey (List.mem_map_of_mem hentry)
  have hwf := hcopied.since.wf
  unfold mapStore
  rw [hlookup]
  unfold requestInside
  dsimp only
  cases alloc mem'.time with
  | false => exact h.drop hcopied (.tick hwf)
  | true =>
    dsimp only
    cases alloc mem'.tick.time with
    | false => exact h.drop hcopied ⟨hwf.tick.tick, Nat.le_refl _, rfl⟩
    | true =>
      have hperm : (arrange slot mem'.tick.tick.time ((key, w) :: built)).Perm ((key, w) :: built) :=
        List.perm_insertionSort _ _
      refine ⟨hperm, ?_⟩
      have hstored := (h.cons (by simp) hcopied).perm (hperm.map Prod.snd).symm
      exact hstored.of_blocks hwf.tick.tick (Nat.le_refl _) rfl

theorem Built.restored {array pool : Option Nat} {items : List Value}
    (h : Built mem0 mem array pool items) (hwf : mem0.WF) {w : Value}
    (hdestroy : ∀ m, destroy w m = ValueCopy.tearDown array pool items m) {p : Nat}
    (hp : p ∈ pool.toList) {leak : Prop} {m : Memory} (hfailed : Failed p leak mem m) :
    Restored mem0 (destroy w m) := by
  have hshrinks := destroy_shrinks w m
  refine ⟨hshrinks.wf hfailed.since.wf, ?_, ?_⟩
  · rw [hshrinks.next]
    exact Nat.le_trans h.since.next hfailed.since.next
  · rw [hdestroy]
    refine h.tearDown hwf hfailed.since.old fun id hid => ?_
    refine (hfailed.rest id hid).imp_right fun hleft => ?_
    obtain ⟨_, count, hb⟩ := hleft
    exact ⟨p, count, hp, hb⟩

theorem Built.restored_now {array pool : Option Nat} {items : List Value}
    (h : Built mem0 mem array pool items) (hwf : mem0.WF) {w : Value}
    (hdestroy : ∀ m, destroy w m = ValueCopy.tearDown array pool items m) :
    Restored mem0 (destroy w mem) := by
  have hshrinks := destroy_shrinks w mem
  refine ⟨hshrinks.wf h.since.wf, ?_, ?_⟩
  · rw [hshrinks.next]
    exact h.since.next
  · rw [hdestroy]
    exact h.tearDown hwf (fun _ _ => rfl) fun id hid => .inl (h.since.wf.bound id hid)

end Elements

/-! Every value. -/

/-- The rest of the elements is copied behind what is built, or all is freed. -/
def ItemsOutcome (mem0 : Memory) (head : ListHead) (built items : List Value) : Option Value × Memory → Prop
  | (some w, mem') => ∃ head' copies, w = .list head' (built ++ copies) ∧
      head'.isSet = head.isSet ∧ head'.Owner ∧ SameItems items copies ∧
      Built mem0 mem' head'.array head'.pool (built ++ copies)
  | (none, mem') => Restored mem0 mem'

def EntriesOutcome (mem0 : Memory) (isObject : Bool) (table : Nat)
    (built entries : List (Key × Value)) : Option Value × Memory → Prop
  | (some w, mem') => ∃ copies all, w = .map isObject table all .owned ∧
      SameEntries entries copies ∧ (built ++ copies).Perm all ∧
      Built mem0 mem' none (some table) (all.map Prod.snd)
  | (none, mem') => Restored mem0 mem'

section Values
variable (alloc : Nat → Bool) (slot : Nat → Key → Nat)

mutual

theorem copyToPool_outcome (v : Value) (asBorrowed : Bool) (pool : Nat) (mem : Memory)
    (hwf : mem.WF) (hpool : pool < mem.next) (hids : ∀ id ∈ v.ids, id < mem.next) (hvalid : v.Valid)
    (hshared : v.shared pool mem = false) :
    Outcome asBorrowed pool v mem (copyToPool alloc slot asBorrowed pool v mem) := by
  cases v with
  | inline type bits =>
    rw [copyToPool]
    exact copied_plain hwf (.inline type bits) (by rw [Value.ids]) hwf (Nat.le_refl _) rfl
  | text type view storage own =>
    exact copyText_outcome alloc slot asBorrowed type view storage own hwf hpool hshared
  | enum isFlags name symbol value storage aux own =>
    exact copyEnum_outcome alloc slot asBorrowed isFlags name symbol value storage aux own hwf hpool hshared
  | vector data storage own =>
    exact copyVector_outcome alloc slot asBorrowed data storage own hwf hpool hshared
  | typedArray kind data heapData storage own =>
    exact copyTypedArray_outcome alloc slot asBorrowed kind data heapData storage own hwf hpool hshared
  | list head items =>
    rw [Value.ids] at hids
    rw [Value.Valid] at hvalid
    have hitems := copyItems_outcome items mem (emptyList head.isSet) [] mem hwf ⟨rfl, rfl⟩
      (.nil hwf) (fun id hid => hids id (List.mem_append_right _ (List.mem_append_right _ hid)))
      hvalid
    rw [copyToPool]
    revert hitems
    rcases copyItems alloc slot (emptyList head.isSet) [] items mem with ⟨_ | w, mem'⟩
    · exact fun hitems => hitems.failed hwf _ _
    · rintro ⟨head', copies, rfl, hset, howner, hsame, hbuilt⟩
      refine hbuilt.copied pool (.list hset hsame) (fun id => ?_) (destroy_list howner _)
      rw [Value.ids, ← List.append_assoc, List.mem_append]
  | map isObject table entries own =>
    rw [Value.ids] at hids
    rw [Value.Valid] at hvalid
    rw [copyToPool]
    cases request_cases alloc .table mem with
    | inr hrequest =>
      rw [hrequest]
      exact (Restored.tick hwf).failed hwf _ _
    | inl hrequest =>
      rw [hrequest]
      have hentries := copyEntries_outcome entries mem isObject mem.next [] (mem.grow .table) hwf
        (.table hwf) (fun id hid => hids id (List.mem_cons_of_mem _ hid)) hvalid.1 hvalid.2
      dsimp only
      revert hentries
      rcases copyEntries alloc slot isObject mem.next [] entries (mem.grow .table) with
        ⟨_ | w, mem'⟩
      · exact fun hentries => hentries.failed hwf _ _
      · rintro ⟨copies, all, rfl, hsame, hperm, hbuilt⟩
        refine hbuilt.copied pool (.map isObject _ _ _ _ hsame hperm) (fun id => ?_)
          (destroy_map isObject _ all)
        rw [Value.ids, List.mem_cons, entriesIds_eq]
        simp
  | nullMap isObject own =>
    rw [copyToPool]
    cases request_cases alloc .table mem with
    | inr hrequest =>
      rw [hrequest]
      exact (Restored.tick hwf).failed hwf _ _
    | inl hrequest =>
      rw [hrequest]
      refine (Built.table hwf).copied pool (.nullMap isObject _ _ _) (fun id => ?_)
        (destroy_map isObject _ [])
      rw [Value.ids, List.mem_cons, entriesIds_eq]
      simp
  | function closureEnv code own =>
    have hsame : Same (.function closureEnv code own) (.function closureEnv code .owned) :=
      .function closureEnv code _ _
    cases closureEnv with
    | none =>
      rw [copyToPool]
      exact copied_plain hwf hsame (by rw [Value.ids]) hwf (Nat.le_refl _) rfl
    | some env =>
      rw [copyToPool]
      exact copied_plain hwf hsame (by rw [Value.ids]) ⟨hwf.bound, hwf.older⟩ (Nat.le_refl _) rfl
  | reference type object =>
    rw [copyToPool]
    exact copied_plain hwf (.reference type object) (by rw [Value.ids]) hwf (Nat.le_refl _) rfl

theorem copyItems_outcome (items : List Value) (mem0 : Memory) (head : ListHead)
    (built : List Value) (mem : Memory) (hwf : mem0.WF) (howner : head.Owner)
    (h : Built mem0 mem head.array head.pool built) (hids : ∀ id ∈ itemsIds items, id < mem0.next)
    (hvalid : ItemsValid items) :
    ItemsOutcome mem0 head built items (copyItems alloc slot head built items mem) := by
  cases items with
  | nil =>
    rw [copyItems]
    refine ⟨head, [], ?_, rfl, howner, .nil, ?_⟩
    · rw [List.append_nil]
    · rwa [List.append_nil]
  | cons item rest =>
    rw [itemsIds] at hids
    rw [ItemsValid] at hvalid
    rw [copyItems]
    have hmade := listPool_outcome alloc howner h
    revert hmade
    rcases listPool alloc head mem with ⟨_ | ⟨pool, head1⟩, mem1⟩
    · exact fun hmade => hmade.restored_now hwf (destroy_list howner built)
    · rintro ⟨hset1, howner1, hpool1, hbuilt1⟩
      have hp : pool ∈ head1.pool.toList := by simp [hpool1]
      have hnew := (hbuilt1.shell pool (List.mem_append_right _ hp)).1
      have hitem : ∀ id ∈ item.ids, id < mem0.next :=
        fun id hid => hids id (List.mem_append_left _ hid)
      -- the pool is younger than all that the element reaches
      have hcopied := copyToPool_outcome item true pool mem1 hbuilt1.since.wf
        (hbuilt1.shell_given (List.mem_append_right _ hp))
        (fun id hid => Nat.lt_of_lt_of_le (hitem id hid) hbuilt1.since.next) hvalid.1
        (Value.unshared hbuilt1.since.wf fun id hid => Nat.lt_of_lt_of_le (hitem id hid) hnew)
      dsimp only
      revert hcopied
      rcases copyToPool alloc slot true pool item mem1 with ⟨_ | stored, mem2⟩
      · exact fun hcopied => hbuilt1.restored hwf (destroy_list howner1 built) hp hcopied
      · intro hcopied
        have hstored := listStore_outcome alloc howner1 hbuilt1 hpool1 hcopied
        dsimp only
        revert hstored
        rcases listStore alloc head1 built stored mem2 with ⟨_ | ⟨head3, built3⟩, mem3⟩
        · exact fun hstored => hstored.restored_now hwf (destroy_list howner1 built)
        · rintro ⟨hset3, howner3, rfl, hbuilt3⟩
          have hrest := copyItems_outcome rest mem0 head3 (built ++ [stored]) mem3 hwf howner3
            hbuilt3 (fun id hid => hids id (List.mem_append_right _ hid)) hvalid.2
          dsimp only
          revert hrest
          rcases copyItems alloc slot head3 (built ++ [stored]) rest mem3 with ⟨_ | w, mem4⟩
          · exact fun hrest => hrest
          · rintro ⟨head4, copies, rfl, hset4, howner4, hsame, hbuilt4⟩
            rw [List.append_assoc, List.singleton_append] at hbuilt4
            refine ⟨head4, stored :: copies, ?_, hset4.trans (hset3.trans hset1), howner4,
              .cons hcopied.same hsame, hbuilt4⟩
            rw [List.append_assoc, List.singleton_append]

theorem copyEntries_outcome (entries : List (Key × Value)) (mem0 : Memory) (isObject : Bool)
    (table : Nat) (built : List (Key × Value)) (mem : Memory) (hwf : mem0.WF)
    (h : Built mem0 mem none (some table) (built.map Prod.snd))
    (hids : ∀ id ∈ entriesIds entries, id < mem0.next)
    (hkeys : (built.map Prod.fst ++ entries.map Prod.fst).Nodup) (hvalid : EntriesValid entries) :
    EntriesOutcome mem0 isObject table built entries
      (copyEntries alloc slot isObject table built entries mem) := by
  cases entries with
  | nil =>
    rw [copyEntries]
    refine ⟨[], built, rfl, .nil, ?_, h⟩
    rw [List.append_nil]
  | cons entry rest =>
    obtain ⟨key, child⟩ := entry
    rw [entriesIds] at hids
    rw [EntriesValid] at hvalid
    rw [copyEntries]
    have hp : table ∈ (some table).toList := by simp
    have hnew := (h.shell table (List.mem_append_right _ hp)).1
    have hchild : ∀ id ∈ child.ids, id < mem0.next :=
      fun id hid => hids id (List.mem_append_left _ hid)
    have hcopied := copyToPool_outcome child true table mem h.since.wf
      (h.shell_given (List.mem_append_right _ hp))
      (fun id hid => Nat.lt_of_lt_of_le (hchild id hid) h.since.next) hvalid.1
      (Value.unshared h.since.wf fun id hid => Nat.lt_of_lt_of_le (hchild id hid) hnew)
    revert hcopied
    rcases copyToPool alloc slot true table child mem with ⟨_ | stored, mem1⟩
    · exact fun hcopied => h.restored hwf (destroy_map isObject table built) hp hcopied
    · intro hcopied
      rw [List.map_cons, List.perm_middle.nodup_iff, List.nodup_cons, List.mem_append, not_or] at hkeys
      have hstored := mapStore_outcome alloc slot h hkeys.1.1 hcopied
      dsimp only
      revert hstored
      rcases mapStore alloc slot built key stored mem1 with ⟨_ | built2, mem2⟩
      · exact fun hstored => hstored.restored_now hwf (destroy_map isObject table built)
      · rintro ⟨hperm, hbuilt2⟩
        have hkeys2 : (built2.map Prod.fst ++ rest.map Prod.fst).Nodup := by
          refine ((hperm.map Prod.fst).append_right _).nodup_iff.mpr ?_
          rw [List.map_cons, List.cons_append, List.nodup_cons, List.mem_append, not_or]
          exact hkeys
        have hrest := copyEntries_outcome rest mem0 isObject table built2 mem2 hwf hbuilt2
          (fun id hid => hids id (List.mem_append_right _ hid)) hkeys2 hvalid.2
        dsimp only
        revert hrest
        rcases copyEntries alloc slot isObject table built2 rest mem2 with ⟨_ | w, mem3⟩
        · exact fun hrest => hrest
        · rintro ⟨copies, all, rfl, hsame, hall, hbuilt3⟩
          refine ⟨(key, stored) :: copies, all, rfl, .cons key hcopied.same hsame, ?_, hbuilt3⟩
          refine List.Perm.trans ?_ hall
          exact List.perm_middle.trans (hperm.append_right copies).symm

end

end Values

/-! A payload that lies in the pool already. -/

def Memory.count (mem : Memory) (id : Nat) : Nat :=
  match mem.blocks id with
  | some (.buffer _ count) => count
  | _ => 0

/-- A block with one more holder, if it is a buffer. -/
def oneMore : Block → Block
  | .buffer pool count => .buffer pool (count + 1)
  | block => block

theorem Memory.set_same {block : Option Block} (h : mem.blocks id = block) : mem.set id block = mem := by
  subst h
  exact congrArg (fun blocks : Nat → Option Block => { mem with blocks := blocks })
    (Function.update_eq_self id mem.blocks)

theorem Memory.set_set (mem : Memory) (id : Nat) (block block' : Option Block) :
    (mem.set id block).set id block' = mem.set id block' :=
  congrArg (fun blocks : Nat → Option Block => { mem with blocks := blocks }) (Function.update_idem ..)

theorem retain_eq (mem : Memory) (id : Nat) : mem.retain id = mem.set id ((mem.blocks id).map oneMore) := by
  unfold Memory.retain
  cases hb : mem.blocks id with
  | none => exact (Memory.set_same hb).symm
  | some block =>
    cases block with
    | buffer pool count => rfl
    | table | pool | array | data => exact (Memory.set_same hb).symm

theorem retain_comm (mem : Memory) (id other : Nat) :
    (mem.retain id).retain other = (mem.retain other).retain id := by
  by_cases h : id = other
  · rw [h]
  · have hid : (mem.retain id).blocks other = mem.blocks other :=
      retain_untouched (Ne.symm h)
    have hother : (mem.retain other).blocks id = mem.blocks id := retain_untouched h
    rw [retain_eq (mem.retain id), retain_eq (mem.retain other), hid, hother, retain_eq, retain_eq]
    exact congrArg (fun blocks : Nat → Option Block => { mem with blocks := blocks }) (Function.update_comm h _ _ _)

theorem retain_release (h : ∀ pool, mem.blocks id ≠ some (.buffer pool 0)) :
    (mem.retain id).release id = mem := by
  rw [retain_eq]
  unfold Memory.release
  rw [set_at]
  cases hb : mem.blocks id with
  | none => exact Memory.set_same hb
  | some block =>
    cases block with
    | table | pool | array | data => exact Memory.set_same hb
    | buffer pool count =>
      have hcount : ¬ count + 1 ≤ 1 := by
        intro hle
        have hzero : count = 0 := by omega
        exact h pool (hzero ▸ hb)
      simp only [Option.map_some, oneMore, if_neg hcount, Nat.add_sub_cancel, Memory.set_set]
      exact Memory.set_same hb

theorem retain_release_each (h : ∀ id ∈ storage.toList, ∀ pool, mem.blocks id ≠ some (.buffer pool 0)) :
    Memory.each Memory.release (Memory.each Memory.retain mem storage) storage = mem := by
  cases storage with
  | none => rfl
  | some id => exact retain_release (h id (by simp))

theorem retainStorage_undo
    (h : ∀ id ∈ storage.toList ++ aux.toList, ∀ pool, mem.blocks id ≠ some (.buffer pool 0)) :
    releaseStorage storage aux .owned (retainStorage storage aux mem) = mem := by
  have hswap : retainStorage storage aux mem =
      Memory.each Memory.retain (Memory.each Memory.retain mem aux) storage := by
    unfold retainStorage
    cases storage with
    | none => rfl
    | some s =>
      cases aux with
      | none => rfl
      | some a => exact retain_comm mem s a
  have haux : ∀ id ∈ aux.toList, ∀ pool, mem.blocks id ≠ some (.buffer pool 0) :=
    fun id hid => h id (List.mem_append_right _ hid)
  -- one more holder of the second buffer leaves the first one in use
  have hstorage : ∀ id ∈ storage.toList, ∀ pool,
      (Memory.each Memory.retain mem aux).blocks id ≠ some (.buffer pool 0) := by
    intro id hid pool hb
    have hused := h id (List.mem_append_left _ hid) pool
    cases aux with
    | none => exact hused hb
    | some a =>
      have hb : (mem.retain a).blocks id = some (.buffer pool 0) := hb
      by_cases hia : id = a
      · subst hia
        rw [retain_eq, set_at] at hb
        cases hold : mem.blocks id with
        | none => simp [hold] at hb
        | some block => cases block <;> simp [hold, oneMore] at hb
      · rw [retain_untouched hia] at hb
        exact hused hb
  rw [releaseStorage, if_pos rfl, hswap, retain_release_each hstorage, retain_release_each haux]

theorem count_retain {p c : Nat} (hb : mem.blocks id = some (.buffer p c)) (other : Nat) :
    (mem.retain id).count other = mem.count other + [id].count other := by
  by_cases hid : other = id
  · subst hid
    have hset : (mem.retain other).blocks other = some (.buffer p (c + 1)) := by
      rw [retain_eq, hb, set_at]
      rfl
    simp [Memory.count, hset, hb]
  · rw [Memory.count, retain_untouched hid]
    simp [Memory.count, Ne.symm hid]

theorem inPool_buffer (h : mem.inPool pool id = true) :
    ∃ count, mem.blocks id = some (.buffer pool count) := by
  unfold Memory.inPool at h
  split at h
  · rename_i p count hb
    exact ⟨count, beq_iff_eq.mp h ▸ hb⟩
  · cases h

theorem count_retainStorage (h : sharable pool storage aux mem = true) (id : Nat) :
    (retainStorage storage aux mem).count id = mem.count id + (storage.toList ++ aux.toList).count id := by
  cases storage with
  | none => simp [sharable] at h
  | some s =>
    rw [sharable, Option.any_some, Bool.and_eq_true] at h
    obtain ⟨c, hs⟩ := inPool_buffer h.1
    cases aux with
    | none => exact count_retain hs id
    | some a =>
      obtain ⟨c', ha⟩ := inPool_buffer h.2
      have ha : ∃ c, (mem.retain s).blocks a = some (.buffer pool c) := by
        by_cases hsa : a = s
        · subst hsa
          exact ⟨c + 1, by rw [retain_eq, hs, set_at]; rfl⟩
        · exact ⟨c', (retain_untouched hsa).trans ha⟩
      obtain ⟨c', ha⟩ := ha
      have hcount := count_retain ha id
      rw [count_retain hs id] at hcount
      simp only [Option.toList_some, List.count_append]
      exact hcount.trans (Nat.add_assoc ..)

/-! The captured scopes. -/

mutual

def Value.holds (env : Nat) : Value → Nat
  | .function closureEnv _ _ => closureEnv.toList.count env
  | .list _ items => itemsHold env items
  | .map _ _ entries _ => entriesHold env entries
  | .inline _ _ => 0
  | .text _ _ _ _ => 0
  | .enum _ _ _ _ _ _ _ => 0
  | .vector _ _ _ => 0
  | .typedArray _ _ _ _ _ => 0
  | .nullMap _ _ => 0
  | .reference _ _ => 0

def itemsHold (env : Nat) : List Value → Nat
  | [] => 0
  | item :: rest => item.holds env + itemsHold env rest

def entriesHold (env : Nat) : List (Key × Value) → Nat
  | [] => 0
  | (_, child) :: rest => child.holds env + entriesHold env rest

end

theorem each_holders {f : Memory → Nat → Memory} (hf : ∀ mem id, (f mem id).holders = mem.holders)
    (mem : Memory) (o : Option Nat) : (Memory.each f mem o).holders = mem.holders := by
  cases o with
  | none => rfl
  | some id => exact hf mem id

theorem retain_holders (mem : Memory) (id : Nat) : (mem.retain id).holders = mem.holders := by
  unfold Memory.retain
  split <;> rfl

theorem release_holders (mem : Memory) (id : Nat) : (mem.release id).holders = mem.holders := by
  unfold Memory.release
  split <;> rfl

theorem free_holders (mem : Memory) (id : Nat) : (mem.free id).holders = mem.holders := rfl

theorem freePool_holders (mem : Memory) (id : Nat) : (mem.freePool id).holders = mem.holders := rfl

theorem retainStorage_holders (storage aux : Option Nat) (mem : Memory) :
    (retainStorage storage aux mem).holders = mem.holders := by
  unfold retainStorage
  rw [each_holders retain_holders, each_holders retain_holders]

theorem releaseStorage_holders (storage aux : Option Nat) (own : Ownership) (mem : Memory) :
    (releaseStorage storage aux own mem).holders = mem.holders := by
  unfold releaseStorage
  split
  · rw [each_holders release_holders, each_holders release_holders]
  · rfl

mutual

theorem destroy_holders (v : Value) (mem : Memory) : (destroy v mem).holders = mem.holders := by
  cases v with
  | inline | nullMap | function | reference => rw [destroy]
  | text | enum | vector =>
    rw [destroy]
    exact releaseStorage_holders ..
  | typedArray =>
    rw [destroy, each_holders free_holders]
    exact releaseStorage_holders ..
  | list head items =>
    rw [destroy]
    split
    · rfl
    · dsimp only
      rw [each_holders freePool_holders]
      split
      · rw [each_holders free_holders]
        exact destroyItems_holders items mem
      · exact destroyItems_holders items mem
  | map isObject table entries own =>
    rw [destroy]
    split
    · rfl
    · exact destroyEntries_holders entries mem

theorem destroyItems_holders (items : List Value) (mem : Memory) :
    (destroyItems items mem).holders = mem.holders := by
  cases items with
  | nil => rw [destroyItems]
  | cons item rest => rw [destroyItems, destroyItems_holders rest, destroy_holders item]

theorem destroyEntries_holders (entries : List (Key × Value)) (mem : Memory) :
    (destroyEntries entries mem).holders = mem.holders := by
  cases entries with
  | nil => rw [destroyEntries]
  | cons entry rest =>
    obtain ⟨key, child⟩ := entry
    rw [destroyEntries, destroyEntries_holders rest, destroy_holders child]

end

section Holders
variable (alloc : Nat → Bool) (slot : Nat → Key → Nat)

theorem copyView_holders (pool : Nat) (source : Slice UInt8) (nulTerminate : Bool) (mem : Memory) :
    (copyView alloc pool source nulTerminate mem).2.holders = mem.holders := by
  unfold copyView
  split
  · rfl
  · split
    · rfl
    · split
      · rfl
      · cases request_cases alloc (.buffer pool 1) mem with
        | inl hrequest | inr hrequest => rw [hrequest]; rfl

theorem copyPayload_holders (pool : Nat) (source : Slice UInt64) (elementSize : Nat)
    (mem : Memory) : (copyPayload alloc pool source elementSize mem).2.holders = mem.holders := by
  unfold copyPayload
  split
  · rfl
  · split
    · rfl
    · split
      · rfl
      · cases request_cases alloc (.buffer pool 1) mem with
        | inl hrequest | inr hrequest => rw [hrequest]; rfl

theorem listPool_holders (head : ListHead) (mem : Memory) :
    (listPool alloc head mem).2.holders = mem.holders := by
  unfold listPool
  cases head.pool with
  | some pool => rfl
  | none =>
    cases request_cases alloc .pool mem with
    | inl hrequest | inr hrequest => rw [hrequest]; rfl

theorem listStore_holders (head : ListHead) (items : List Value) (stored : Value) (mem : Memory) :
    (listStore alloc head items stored mem).2.holders = mem.holders := by
  unfold listStore
  split
  · rfl
  · split
    · exact destroy_holders stored mem
    · cases request_cases alloc .array mem with
      | inl hrequest =>
        rw [hrequest]
        dsimp only
        split
        · exact each_holders free_holders _ _
        · rfl
      | inr hrequest =>
        rw [hrequest]
        exact destroy_holders stored _

theorem mapStore_holders (entries : List (Key × Value)) (key : Key) (stored : Value)
    (mem : Memory) : (mapStore alloc slot entries key stored mem).2.holders = mem.holders := by
  unfold mapStore requestInside
  cases entries.lookup key with
  | some old => exact destroy_holders old mem
  | none =>
    dsimp only
    cases alloc mem.time with
    | false => exact destroy_holders stored _
    | true =>
      dsimp only
      cases alloc mem.tick.time with
      | false => exact destroy_holders stored _
      | true => rfl

mutual

theorem copyToPool_holders (env : Nat) (v : Value) (asBorrowed : Bool) (pool : Nat) (mem : Memory)
    {w : Value} {mem' : Memory} (h : copyToPool alloc slot asBorrowed pool v mem = (some w, mem')) :
    mem'.holders env = mem.holders env + v.holds env := by
  cases v with
  | inline | reference =>
    rw [copyToPool] at h
    cases h
    rfl
  | text type view storage own =>
    rw [copyToPool] at h
    have hview := copyView_holders alloc pool view (type != .bytes) mem
    rw [Value.holds, Nat.add_zero]
    split at h
    · cases h
      rw [retainStorage_holders]
    · revert hview h
      rcases copyView alloc pool view (type != .bytes) mem with ⟨_ | ⟨storage', view'⟩, mem1⟩
      · exact fun _ h => nomatch h
      · intro hview h
        cases h
        exact congrFun hview env
  | enum isFlags name symbol value storage aux own =>
    rw [copyToPool] at h
    have hname := copyView_holders alloc pool name true mem
    rw [Value.holds, Nat.add_zero]
    split at h
    · cases h
      rw [retainStorage_holders]
    · revert hname h
      rcases copyView alloc pool name true mem with ⟨_ | ⟨storage', name'⟩, mem1⟩
      · exact fun _ h => nomatch h
      · intro hname h
        have hsymbol := copyView_holders alloc pool symbol true mem1
        revert h hsymbol
        dsimp only
        rcases copyView alloc pool symbol true mem1 with ⟨_ | ⟨aux', symbol'⟩, mem2⟩
        · exact fun h => nomatch h
        · intro h hsymbol
          cases h
          exact congrFun (hsymbol.trans hname) env
  | vector data storage own =>
    rw [copyToPool] at h
    have hdata := copyPayload_holders alloc pool data 8 mem
    rw [Value.holds, Nat.add_zero]
    split at h
    · cases h
      rw [retainStorage_holders]
    · revert hdata h
      rcases copyPayload alloc pool data 8 mem with ⟨_ | ⟨storage', data'⟩, mem1⟩
      · exact fun _ h => nomatch h
      · intro hdata h
        cases h
        exact congrFun hdata env
  | typedArray kind data heapData storage own =>
    rw [copyToPool] at h
    rw [Value.holds, Nat.add_zero]
    split at h
    · cases h
      rw [retainStorage_holders]
    · revert h
      cases kind.elementSize with
      | none => exact fun h => nomatch h
      | some elementSize =>
        have hdata := copyPayload_holders alloc pool data elementSize mem
        revert hdata
        dsimp only
        rcases copyPayload alloc pool data elementSize mem with ⟨_ | ⟨storage', data'⟩, mem1⟩
        · exact fun _ h => nomatch h
        · intro hdata h
          cases h
          exact congrFun hdata env
  | list head items =>
    rw [copyToPool] at h
    exact copyItems_holders env items (emptyList head.isSet) [] mem h
  | map isObject table entries own =>
    rw [copyToPool] at h
    cases request_cases alloc .table mem with
    | inl hrequest =>
      rw [hrequest] at h
      exact copyEntries_holders env entries isObject mem.next [] (mem.grow .table) h
    | inr hrequest =>
      rw [hrequest] at h
      cases h
  | nullMap isObject own =>
    rw [copyToPool] at h
    cases request_cases alloc .table mem with
    | inl hrequest =>
      rw [hrequest] at h
      cases h
      rfl
    | inr hrequest =>
      rw [hrequest] at h
      cases h
  | function closureEnv code own =>
    cases closureEnv with
    | none =>
      rw [copyToPool] at h
      cases h
      rfl
    | some scope =>
      rw [copyToPool] at h
      cases h
      rw [Value.holds]
      by_cases hscope : env = scope
      · subst hscope
        simp
      · simp [Function.update_of_ne hscope, Ne.symm hscope]
termination_by structural v

theorem copyItems_holders (env : Nat) (items : List Value) (head : ListHead) (built : List Value)
    (mem : Memory) {w : Value} {mem' : Memory}
    (h : copyItems alloc slot head built items mem = (some w, mem')) :
    mem'.holders env = mem.holders env + itemsHold env items := by
  cases items with
  | nil =>
    rw [copyItems] at h
    cases h
    rfl
  | cons item rest =>
    rw [copyItems] at h
    rw [itemsHold]
    have hpool := listPool_holders alloc head mem
    revert h hpool
    rcases listPool alloc head mem with ⟨_ | ⟨pool, head1⟩, mem1⟩
    · exact fun h => nomatch h
    · intro h hpool
      revert h
      dsimp only
      rcases hcopied : copyToPool alloc slot true pool item mem1 with ⟨_ | stored, mem2⟩
      · exact fun h => nomatch h
      · intro h
        have hitem := copyToPool_holders env item true pool mem1 hcopied
        have hstored := listStore_holders alloc head1 built stored mem2
        revert h hstored
        dsimp only
        rcases listStore alloc head1 built stored mem2 with ⟨_ | ⟨head3, built3⟩, mem3⟩
        · exact fun h => nomatch h
        · intro h hstored
          rw [copyItems_holders env rest head3 built3 mem3 h, congrFun hstored env, hitem,
            congrFun hpool env]
          exact Nat.add_assoc ..
termination_by structural items

theorem copyEntries_holders (env : Nat) (entries : List (Key × Value)) (isObject : Bool)
    (table : Nat) (built : List (Key × Value)) (mem : Memory) {w : Value} {mem' : Memory}
    (h : copyEntries alloc slot isObject table built entries mem = (some w, mem')) :
    mem'.holders env = mem.holders env + entriesHold env entries := by
  cases entries with
  | nil =>
    rw [copyEntries] at h
    cases h
    rfl
  | cons entry rest =>
    obtain ⟨key, child⟩ := entry
    rw [copyEntries] at h
    rw [entriesHold]
    revert h
    rcases hcopied : copyToPool alloc slot true table child mem with ⟨_ | stored, mem1⟩
    · exact fun h => nomatch h
    · intro h
      have hchild := copyToPool_holders env child true table mem hcopied
      have hstored := mapStore_holders alloc slot built key stored mem1
      revert h hstored
      dsimp only
      rcases mapStore alloc slot built key stored mem1 with ⟨_ | built2, mem2⟩
      · exact fun h => nomatch h
      · intro h hstored
        rw [copyEntries_holders env rest isObject table built2 mem2 h, congrFun hstored env, hchild]
        exact Nat.add_assoc ..
termination_by structural entries

end

end Holders

/-! Mutation. -/

mutual

/-- What becomes of a value when a container is written in place: the container is reached by its
array, its pool or its table. -/
def Value.mutate (write : Value → Value) (id : Nat) : Value → Value
  | .list head items =>
    if id ∈ head.array.toList ++ head.pool.toList then write (.list head items)
    else .list head (mutateItems write id items)
  | .map isObject table entries own =>
    if id = table then write (.map isObject table entries own)
    else .map isObject table (mutateEntries write id entries) own
  | .inline type bits => .inline type bits
  | .text type view storage own => .text type view storage own
  | .enum isFlags typeName symbol value storage aux own =>
    .enum isFlags typeName symbol value storage aux own
  | .vector data storage own => .vector data storage own
  | .typedArray kind data heapData storage own => .typedArray kind data heapData storage own
  | .nullMap isObject own => .nullMap isObject own
  | .function closureEnv code own => .function closureEnv code own
  | .reference type object => .reference type object

def mutateItems (write : Value → Value) (id : Nat) : List Value → List Value
  | [] => []
  | item :: rest => item.mutate write id :: mutateItems write id rest

def mutateEntries (write : Value → Value) (id : Nat) : List (Key × Value) → List (Key × Value)
  | [] => []
  | (key, child) :: rest => (key, child.mutate write id) :: mutateEntries write id rest

end

mutual

theorem mutate_unreached (write : Value → Value) (id : Nat) (v : Value) (h : id ∉ v.ids) :
    v.mutate write id = v := by
  cases v with
  | inline | text | enum | vector | typedArray | nullMap | function | reference => rw [Value.mutate]
  | list head items =>
    rw [Value.ids, ← List.append_assoc, List.mem_append, not_or] at h
    rw [Value.mutate, if_neg h.1, mutateItems_unreached write id items h.2]
  | map isObject table entries own =>
    rw [Value.ids, List.mem_cons, not_or] at h
    rw [Value.mutate, if_neg h.1, mutateEntries_unreached write id entries h.2]

theorem mutateItems_unreached (write : Value → Value) (id : Nat) (items : List Value)
    (h : id ∉ itemsIds items) : mutateItems write id items = items := by
  cases items with
  | nil => rw [mutateItems]
  | cons item rest =>
    rw [itemsIds, List.mem_append, not_or] at h
    rw [mutateItems, mutate_unreached write id item h.1, mutateItems_unreached write id rest h.2]

theorem mutateEntries_unreached (write : Value → Value) (id : Nat)
    (entries : List (Key × Value)) (h : id ∉ entriesIds entries) :
    mutateEntries write id entries = entries := by
  cases entries with
  | nil => rw [mutateEntries]
  | cons entry rest =>
    obtain ⟨key, child⟩ := entry
    rw [entriesIds, List.mem_append, not_or] at h
    rw [mutateEntries, mutate_unreached write id child h.1, mutateEntries_unreached write id rest h.2]

end

/-! What a copy promises. -/

/-- A value that a caller can copy into a pool: all of it is allocated, the pool too, and the
buffers of its payload have holders. -/
structure Ready (v : Value) (pool : Nat) (mem : Memory) : Prop where
  wf : mem.WF
  pool : pool < mem.next
  given : ∀ id ∈ v.ids, id < mem.next
  valid : v.Valid
  held : ∀ id ∈ v.storages, ∀ p, mem.blocks id ≠ some (.buffer p 0)

/-- How the copy `w` of `v` lies in the memory. -/
structure Independent (v w : Value) (mem mem' : Memory) : Prop where
  /-- Each block of the copy is new, or it is a buffer of the payload with one more holder. -/
  counted : ∀ id ∈ w.ids, mem.next ≤ id ∨
    id ∈ w.storages ∧ mem'.count id = mem.count id + w.storages.count id
  /-- So are the captured scopes of the functions. -/
  scopes : ∀ env, mem'.holders env = mem.holders env + v.holds env
  /-- Nothing else has changed. -/
  others : ∀ id, id < mem.next → id ∉ w.ids → mem'.blocks id = mem.blocks id
  live : ∀ id ∈ w.ids, mem'.blocks id ≠ none
  /-- Destroying the copy frees all of it and leaves the source as it was. -/
  destroyed : (destroy w mem').blocks = mem.blocks
  /-- Destroying the source leaves the copy. -/
  survives : ∀ id ∈ w.ids, (destroy v mem').blocks id ≠ none
  /-- A container of the source that is written is not seen in the copy, and vice versa. -/
  written : ∀ (write : Value → Value), ∀ id ∈ v.ids, w.mutate write id = w
  writing : ∀ (write : Value → Value), ∀ id ∈ w.ids, v.mutate write id = v

theorem Copied.independent {mem' : Memory} {w : Value} (h : Copied pool mem v w mem')
    (hgiven : ∀ id ∈ v.ids, id < mem.next) (hwf : mem.WF)
    (hscopes : ∀ env, mem'.holders env = mem.holders env + v.holds env) :
    Independent v w mem mem' where
  counted := fun id hid => .inl (h.fresh id hid)
  scopes := hscopes
  others := fun id hold _ => h.since.old id hold
  live := h.live
  destroyed := h.undo hwf rfl
  survives := by
    intro id hid
    have hfresh := h.fresh id hid
    have hout : id ∉ v.ids := fun hv => by
      have hold := hgiven id hv
      omega
    have hkept : (destroy v mem').blocks id = mem'.blocks id := by
      by_cases hleaf : v.Leaf
      · exact destroy_leaf_untouched hleaf mem' hout
      · refine destroy_untouched v mem' id hout fun p count hb hp => ?_
        have hold := hgiven p hp
        cases h.pools id p count hfresh hb with
        | inl hpool => exact hleaf hpool.2
        | inr hnew => omega
    rw [hkept]
    exact h.live id hid
  written := by
    intro write id hid
    refine mutate_unreached write id w fun hw => ?_
    have hfresh := h.fresh id hw
    have hold := hgiven id hid
    omega
  writing := by
    intro write id hid
    refine mutate_unreached write id v fun hv => ?_
    have hfresh := h.fresh id hid
    have hold := hgiven id hv
    omega

theorem sharable_buffer (h : sharable pool storage aux mem = true)
    (hid : id ∈ storage.toList ++ aux.toList) :
    ∃ count, mem.blocks id = some (.buffer pool count) := by
  rw [sharable, Bool.and_eq_true] at h
  cases List.mem_append.mp hid with
  | inl hid =>
    rw [Option.mem_toList] at hid
    subst hid
    exact inPool_buffer h.1
  | inr hid =>
    rw [Option.mem_toList] at hid
    subst hid
    exact inPool_buffer h.2

theorem shared_independent {w : Value} {own : Ownership}
    (hshared : sharable pool storage aux mem = true) (hids : w.ids = storage.toList ++ aux.toList)
    (hstorages : w.storages = storage.toList ++ aux.toList)
    (hheld : ∀ id ∈ storage.toList ++ aux.toList, ∀ p, mem.blocks id ≠ some (.buffer p 0))
    (hcopy : ∀ m, destroy w m = releaseStorage storage aux .owned m)
    (hsource : ∀ m, destroy v m = releaseStorage storage aux own m)
    (hholds : ∀ env, v.holds env = 0) (hv : ∀ write id, v.mutate write id = v)
    (hw : ∀ write id, w.mutate write id = w) :
    Independent v w mem (retainStorage storage aux mem) := by
  have hundo := retainStorage_undo hheld
  have hbefore : ∀ id ∈ w.ids, mem.blocks id ≠ none := by
    intro id hid
    rw [hids] at hid
    obtain ⟨count, hb⟩ := sharable_buffer hshared hid
    rw [hb]
    exact Option.some_ne_none _
  -- what a release brings back was there
  have hlive : ∀ id ∈ w.ids, (retainStorage storage aux mem).blocks id ≠ none := by
    intro id hid hnone
    have hgone := (Shrinks.releaseStorage storage aux .owned _).none hnone
    rw [hundo] at hgone
    exact hbefore id hid hgone
  exact {
    counted := by
      intro id hid
      rw [hstorages]
      exact .inr ⟨hids ▸ hid, count_retainStorage hshared id⟩
    scopes := by
      intro env
      rw [retainStorage_holders, hholds]
      rfl
    others := by
      intro id _ hid
      rw [hids, List.mem_append, not_or] at hid
      exact retainStorage_untouched hid.1 hid.2
    live := hlive
    destroyed := by rw [hcopy, hundo]
    survives := by
      intro id hid
      rw [hsource]
      cases own with
      | owned =>
        rw [hundo]
        exact hbefore id hid
      | borrowed => exact hlive id hid
    written := fun write id _ => hw write id
    writing := fun write id _ => hv write id }

theorem copyToPool_shared (alloc : Nat → Bool) (slot : Nat → Key → Nat) (hvalid : v.Valid)
    (hshared : v.shared pool mem = true)
    (hheld : ∀ id ∈ v.storages, ∀ p, mem.blocks id ≠ some (.buffer p 0)) :
    ∃ w mem', copyToPool alloc slot false pool v mem = (some w, mem') ∧ Same v w ∧
      Independent v w mem mem' := by
  cases v with
  | inline | list | map | nullMap | function | reference => cases hshared
  | text type view storage own =>
    have hsharable : sharable pool storage none mem = true := hshared
    have hids : storage.toList = storage.toList ++ (none : Option Nat).toList :=
      (List.append_nil _).symm
    refine ⟨_, _, by rw [copyToPool, if_pos hsharable], .text type _ _ _ _ rfl,
      shared_independent hsharable (by rw [Value.ids]; exact hids) hids (hids ▸ hheld)
        (fun m => by rw [destroy]) (fun m => by rw [destroy]) (fun env => by rw [Value.holds])
        (fun write id => by rw [Value.mutate]) fun write id => by rw [Value.mutate]⟩
  | enum isFlags name symbol value storage aux own =>
    have hsharable : sharable pool storage aux mem = true := hshared
    refine ⟨_, _, by rw [copyToPool, if_pos hsharable], .enum isFlags _ _ _ _ _ _ _ rfl rfl,
      shared_independent hsharable (by rw [Value.ids]) rfl hheld
        (fun m => by rw [destroy]) (fun m => by rw [destroy]) (fun env => by rw [Value.holds])
        (fun write id => by rw [Value.mutate]) fun write id => by rw [Value.mutate]⟩
  | vector data storage own =>
    have hsharable : sharable pool storage none mem = true := hshared
    have hids : storage.toList = storage.toList ++ (none : Option Nat).toList :=
      (List.append_nil _).symm
    refine ⟨_, _, by rw [copyToPool, if_pos hsharable], .vector _ _ _ _ rfl,
      shared_independent hsharable (by rw [Value.ids]; exact hids) hids (hids ▸ hheld)
        (fun m => by rw [destroy]) (fun m => by rw [destroy]) (fun env => by rw [Value.holds])
        (fun write id => by rw [Value.mutate]) fun write id => by rw [Value.mutate]⟩
  | typedArray kind data heapData storage own =>
    have hsharable : sharable pool storage none mem = true := hshared
    have hids : storage.toList = storage.toList ++ (none : Option Nat).toList :=
      (List.append_nil _).symm
    -- the elements lie in the buffer, not on the heap
    have hheap : heapData = none := by
      rw [Value.Valid] at hvalid
      refine hvalid.resolve_left fun hnone => ?_
      rw [hnone] at hsharable
      cases hsharable
    subst hheap
    refine ⟨_, _, by rw [copyToPool, if_pos hsharable], .typedArray kind _ _ _ _ _ _ rfl,
      shared_independent hsharable (by rw [Value.ids]) hids (hids ▸ hheld)
        (fun m => by rw [destroy]; rfl) (fun m => by rw [destroy]; rfl)
        (fun env => by rw [Value.holds]) (fun write id => by rw [Value.mutate])
        fun write id => by rw [Value.mutate]⟩

/-- The status, what the output holds, and the memory after a copy of `v`: an equal value that is
independent of it; or a failure that leaves the output as it was, and nothing allocated. -/
def DeepCopied (v out : Value) (mem : Memory) : Int × Value × Memory → Prop
  | (status, w, mem') => status = 0 ∧ Same v w ∧ Independent v w mem mem' ∨
      status = -1 ∧ w = out ∧ (¬ v.Leaks false → Restored mem mem')

section Promise
variable (alloc : Nat → Bool) (slot : Nat → Key → Nat) {v : Value} {mem : Memory}

theorem copyToPool_deep {pool : Nat} (h : Ready v pool mem) (out : Value) :
    DeepCopied v out mem (exprtkValueCopyToPool alloc slot v pool out mem) := by
  unfold exprtkValueCopyToPool
  cases hshared : v.shared pool mem with
  | true =>
    obtain ⟨w, mem', hcopy, hsame, hindependent⟩ :=
      copyToPool_shared alloc slot h.valid hshared h.held
    rw [hcopy]
    exact .inl ⟨rfl, hsame, hindependent⟩
  | false =>
    have houtcome := copyToPool_outcome alloc slot v false pool mem h.wf h.pool h.given h.valid hshared
    revert houtcome
    rcases hcopy : copyToPool alloc slot false pool v mem with ⟨_ | w, mem'⟩
    · intro hfailed
      exact .inr ⟨rfl, rfl, fun hleak => Failed.restored hfailed h.wf hleak⟩
    · intro hcopied
      have hscopes := fun env => copyToPool_holders alloc slot env v false pool mem hcopy
      exact .inl ⟨rfl, Copied.same hcopied, Copied.independent hcopied h.given h.wf hscopes⟩

end Promise

/-- **Copies are deep.** Into a pool, and into the arena of an environment, whatever requests the
allocator refuses: the copy is structurally equal to its source and independent of it. A failure
sets the error of the environment. -/
theorem copy_deep (alloc : Nat → Bool) (slot : Nat → Key → Nat) (v : Value) (pool : Nat)
    (env : Env) (out : Value) (mem : Memory) (h : Ready v pool mem) (henv : Ready v env.arena mem) :
    DeepCopied v out mem (exprtkValueCopyToPool alloc slot v pool out mem) ∧
      ∃ status w env' mem', exprtkValueCopyToEnv alloc slot v env out mem = (status, w, env', mem') ∧
        DeepCopied v out mem (status, w, mem') ∧
        env' = if status = 0 then env else
          { env with aborted := true, errorMsg := "failed to allocate owned value payload" } := by
  refine ⟨copyToPool_deep alloc slot h out, ?_⟩
  have hcopied := copyToPool_deep alloc slot henv out
  unfold exprtkValueCopyToEnv
  revert hcopied
  rcases exprtkValueCopyToPool alloc slot v env.arena out mem with ⟨status, w, mem'⟩
  intro hcopied
  cases hcopied with
  | inl hdone =>
    obtain ⟨rfl, hdone⟩ := hdone
    exact ⟨0, w, env, mem', rfl, .inl ⟨rfl, hdone⟩, (if_pos rfl).symm⟩
  | inr hfailed =>
    obtain ⟨rfl, hfailed⟩ := hfailed
    exact ⟨-1, w, _, mem', rfl, .inr ⟨rfl, hfailed⟩, (if_neg (by decide)).symm⟩

/-- The arena of an environment (0), and a list with an element in its pool. -/
def listMemory : Memory where
  time := 0
  next := 4
  blocks := fun id => [some .pool, some .pool, some (.buffer 1 1), some .array].getD id none
  holders := fun _ => 0

def listValue : Value :=
  .list ⟨false, some 3, 4, true, some 1, .owned⟩
    [.text .string (.of [97, 98]) (some 2) .owned, .function (some 0) 7 .owned]

theorem listMemory_wf : listMemory.WF := by
  constructor
  · intro id hid
    have hlong : [some Block.pool, some .pool, some (.buffer 1 1), some .array].length ≤ id := hid
    simp only [listMemory, List.getD_eq_getElem?_getD, List.getElem?_eq_none hlong, Option.getD_none]
  · intro id pool count hb
    match id with
    | 0 | 1 | 3 => cases hb
    | 2 =>
      injection hb with hb
      injection hb with hp _
      omega
    | id + 4 => cases hb

theorem listValue_ready : Ready listValue 0 listMemory where
  wf := listMemory_wf
  pool := by decide
  given := by decide +kernel
  valid := by simp [listValue, Value.Valid, ItemsValid]
  held := by simp [listValue, Value.storages]

theorem copy_deep_list : (exprtkValueCopyToPool (fun _ => true) (fun _ _ => 0) listValue 0 (.inline .null 0)
      listMemory).1 = 0 ∧
      DeepCopied listValue (.inline .null 0) listMemory
        (exprtkValueCopyToPool (fun _ => true) (fun _ _ => 0) listValue 0 (.inline .null 0) listMemory) :=
  ⟨by decide +kernel, (copy_deep (fun _ => true) (fun _ _ => 0) listValue 0 ⟨0, false, ""⟩
    (.inline .null 0) listMemory listValue_ready listValue_ready).1⟩

/-- A failure does not make the output null, and an object that is referred to is shared without
a count. -/
theorem failed_copy_leaves_output : (¬ ∀ (alloc : Nat → Bool) (v out : Value), Ready v 0 listMemory →
      (exprtkValueCopyToPool alloc (fun _ _ => 0) v 0 out listMemory).1 ≠ 0 →
      (exprtkValueCopyToPool alloc (fun _ _ => 0) v 0 out listMemory).2.1 = .inline .null 0) ∧
    ¬ ∀ (v : Value) (object other : Nat), Ready v 0 listMemory → v = .reference .instanceVal object →
      (exprtkValueCopyToPool (fun _ => true) (fun _ _ => 0) v 0 (.inline .null 0) listMemory).2.1 =
        .reference .instanceVal other → object ≠ other := by
  refine ⟨fun h => ?_, fun h => ?_⟩
  · have hnull := h (fun _ => false) listValue (.inline .number 7) listValue_ready (by decide +kernel)
    cases hnull
  · refine h (.reference .instanceVal 5) 5 5 ⟨listMemory_wf, by decide, ?_, ?_, ?_⟩ rfl rfl rfl
    · simp [Value.ids]
    · simp [Value.Valid]
    · simp [Value.storages]

end TurboScript.Exprtk.ValueCopy
