import Mathlib.Algebra.Order.Group.Nat
import Mathlib.Algebra.Order.Monoid.Prod
import TurboScript.Host.ValueCheck

/- What the validation accepts. -/
namespace TurboScript.Host.Values

open Lib
open scoped Pointwise

def Tree.cost (t : Tree) : Nat × Nat := (t.nodes, t.bytes)

section Charges
variable {lib : Library} {mem : Memory} {limits : Limits}
  {holds : lib.pointers.Carrier → List Nat → Nat → Prop} {active : List Nat} {extra : Nat}

/-- The meter of a validation while some containers are active. As many nodes have been visited,
    and `extra` more. -/
def meter (lib : Library) (limits : Limits)
    (holds : lib.pointers.Carrier → List Nat → Nat → Prop) (active : List Nat) (extra : Nat) :
    Meter (State lib.pointers.Carrier) Status (Nat × Nat) where
  ok := .ok
  inv state := holds state.active active limits.maxNodes.toNat ∧ state.wrapped = false ∧
    active.length + extra ≤ state.nodes
  spent state := (state.nodes, state.bytes)
  limit := (limits.maxNodes.toNat, limits.maxBytes.toNat)

theorem wrap_of_le {n : Nat} (h : n ≤ sizeMax) : wrap n = n :=
  Nat.mod_eq_of_lt (by unfold sizeMax at h; omega)

theorem sizeSub_of_le {a b : Nat} (h : b ≤ a) (ha : a ≤ sizeMax) : sizeSub a b = a - b := by
  unfold sizeSub wrap sizeMax at *
  omega

theorem toNat_le_sizeMax (n : UInt64) : n.toNat ≤ sizeMax := by
  have := n.toNat_lt
  unfold sizeMax
  omega

theorem toNat_pos {n : UInt64} (h : n ≠ 0) : 0 < n.toNat :=
  Nat.pos_of_ne_zero fun h0 => h (UInt64.toNat_inj.mp h0)

theorem noting_false {C : Type} (state : State C) : state.noting false = state := by
  simp [State.noting]

theorem chargeBytes_eq {C : Type} {state : State C} (count elementSize : Nat)
    (hle : state.bytes ≤ limits.maxBytes.toNat) : chargeBytes limits count elementSize state =
      if state.bytes + count * elementSize ≤ limits.maxBytes.toNat then
        (.ok, { state with bytes := state.bytes + count * elementSize })
      else (.limitExceeded, state) := by
  have hmax := toNat_le_sizeMax limits.maxBytes
  have hguard : (count ≠ 0 ∧ sizeMax / count < elementSize) ↔ sizeMax < count * elementSize := by
    constructor
    · intro ⟨hc, h⟩
      rw [Nat.div_lt_iff_lt_mul (by omega)] at h
      rwa [Nat.mul_comm]
    · intro h
      have hc : count ≠ 0 := by
        intro h0
        simp [h0] at h
      refine ⟨hc, ?_⟩
      rw [Nat.div_lt_iff_lt_mul (by omega)]
      rwa [Nat.mul_comm]
  unfold chargeBytes
  by_cases hw : sizeMax < count * elementSize
  · rw [if_pos (hguard.mpr hw), if_neg (by omega)]
  · have hnote : decide (sizeMax < count * elementSize) = false := by simpa using hw
    have hnote' : decide (limits.maxBytes.toNat < state.bytes) = false := by simpa using hle
    rw [if_neg (mt hguard.mp hw), wrap_of_le (by omega)]
    simp only [hnote, noting_false, hnote', sizeSub_of_le hle hmax]
    by_cases hfit : state.bytes + count * elementSize ≤ limits.maxBytes.toNat
    · have hnote : decide (sizeMax < state.bytes + count * elementSize) = false := by
        simp only [decide_eq_false_iff_not]
        omega
      rw [if_neg (by omega), if_pos hfit, hnote, noting_false, wrap_of_le (by omega)]
    · rw [if_pos (by omega), if_neg hfit]

theorem chargeBytes_checks (count elementSize : Nat) :
    (meter lib limits holds active extra).Checks {(0, count * elementSize)}
      {(0, count * elementSize)} fun state =>
        some (chargeBytes limits count elementSize state) := by
  intro state hinv hle
  have hfits : ∀ b, (state.nodes, state.bytes) + (0, b) ≤ (limits.maxNodes.toNat,
      limits.maxBytes.toNat) ↔ state.bytes + b ≤ limits.maxBytes.toNat := by
    intro b
    simp only [Prod.mk_add_mk, Prod.mk_le_mk, Nat.add_zero]
    exact ⟨And.right, fun h => ⟨hle.1, h⟩⟩
  show ∃ e t, some (chargeBytes limits count elementSize state) = some (e, t) ∧ _
  rw [chargeBytes_eq count elementSize hle.2]
  by_cases hfit : state.bytes + count * elementSize ≤ limits.maxBytes.toNat
  · rw [if_pos hfit]
    exact ⟨_, _, rfl, hinv, ⟨hle.1, hfit⟩, fun _ => ⟨_, rfl, rfl⟩, fun _ _ _ => rfl⟩
  · rw [if_neg hfit]
    refine ⟨_, _, rfl, hinv, hle, fun h => absurd h (show Status.limitExceeded ≠ .ok by decide),
      fun c hc h => ?_⟩
    rw [Set.mem_singleton_iff.mp hc] at h
    exact absurd ((hfits _).mp h) hfit

structure TextOk (nonempty noNul : Bool) (text : List UInt8) : Prop where
  nonempty : nonempty = true → text ≠ []
  noNul : noNul = true → 0 ∉ text
  utf8 : ValidUtf8 text

/-- The cost of the string that a view shows, if it is as it has to be. -/
def textCost (mem : Memory) (nonempty noNul : Bool) (value : StringView) : Set (Nat × Nat) :=
  {c | ∃ text, mem.text value = some text ∧ TextOk nonempty noNul text ∧ c = (0, textBytes text)}

theorem text_eq {value : StringView} (h : ¬ (value.data = 0 ∧ value.size ≠ 0)) :
    mem.text value = some (mem.bytes value) := if_neg h

theorem mem_textCost {value : StringView} {nonempty noNul : Bool} {c : Nat × Nat}
    (h : ¬ (value.data = 0 ∧ value.size ≠ 0)) : c ∈ textCost mem nonempty noNul value ↔
      TextOk nonempty noNul (mem.bytes value) ∧ c = (0, value.size.toNat + 1) := by
  unfold textCost
  simp [text_eq h, textBytes]

theorem validateString_checks (hlib : lib.Lawful) (value : StringView) (nonempty noNul : Bool) :
    (meter lib limits holds active extra).Checks (textCost mem nonempty noNul value)
      (textCost mem nonempty noNul value) fun state =>
        some (validateString lib mem limits value nonempty noNul state) := by
  unfold validateString
  by_cases hnull : value.data = 0 ∧ value.size ≠ 0
  · simp only [if_pos hnull]
    refine .refuse (show Status.invalidArgument ≠ .ok by decide) fun c hc => ?_
    obtain ⟨text, htext, -⟩ := hc
    simp [Memory.text, hnull] at htext
  simp only [if_neg hnull]
  by_cases hempty : nonempty = true ∧ value.size = 0
  · simp only [if_pos hempty]
    refine .refuse (show Status.validationError ≠ .ok by decide) fun c hc => ?_
    have hlen := length_bytes mem value
    rw [hempty.2] at hlen
    exact ((mem_textCost hnull).mp hc).1.nonempty hempty.1 (List.eq_nil_of_length_eq_zero hlen)
  simp only [if_neg hempty]
  by_cases hnul : noNul = true ∧ 0 ∈ mem.bytes value
  · simp only [if_pos hnul]
    refine .refuse (show Status.validationError ≠ .ok by decide) fun c hc => ?_
    exact ((mem_textCost hnull).mp hc).1.noNul hnul.1 hnul.2
  simp only [if_neg hnul]
  by_cases hmax : value.size.toNat = sizeMax
  · -- the NUL would not fit in memory
    simp only [if_pos hmax]
    intro state hinv hle
    refine ⟨_, _, rfl, hinv, hle, fun h => absurd h (show Status.limitExceeded ≠ .ok by decide),
      fun c hc hfit => ?_⟩
    rw [((mem_textCost hnull).mp hc).2] at hfit
    have hbytes : state.bytes + (value.size.toNat + 1) ≤ limits.maxBytes.toNat := hfit.2
    have := toNat_le_sizeMax limits.maxBytes
    omega
  have hsize := toNat_le_sizeMax value.size
  simp only [if_neg hmax, wrap_of_le (show value.size.toNat + 1 ≤ sizeMax by omega)]
  have hcharge : (meter lib limits holds active extra).Checks {(0, value.size.toNat + 1)}
      {(0, value.size.toNat + 1)} fun state =>
        some (chargeBytes limits (value.size.toNat + 1) 1 state) := by
    simpa only [Nat.mul_one] using chargeBytes_checks (value.size.toNat + 1) 1
  by_cases hutf : lib.utf8Valid (mem.bytes value) = true
  · simp only [hutf, Bool.not_true, Bool.false_eq_true, if_false, ite_self]
    refine hcharge.mono (fun c hc => ?_) (fun c hc => ((mem_textCost hnull).mp hc).2)
    rw [mem_textCost hnull]
    refine ⟨⟨fun h h0 => hempty ⟨h, ?_⟩, fun h h0 => hnul ⟨h, h0⟩, (hlib.utf8Valid _).mp hutf⟩, hc⟩
    have hlen := length_bytes mem value
    rw [h0] at hlen
    exact UInt64.toNat_inj.mp hlen.symm
  · have hnone : ∀ c, c ∉ textCost mem nonempty noNul value := fun c hc =>
      hutf ((hlib.utf8Valid _).mpr ((mem_textCost hnull).mp hc).1.utf8)
    have hrefuse : (meter lib limits holds active extra).Checks (textCost mem nonempty noNul value)
        (textCost mem nonempty noNul value) fun state => some (.invalidUtf8, state) :=
      .refuse (show Status.invalidUtf8 ≠ .ok by decide) hnone
    refine ((hcharge.seq hrefuse fun c hc c' hc' => hc.trans hc'.symm).mono (fun c hc => ?_)
      fun c hc => absurd hc (hnone c)).congr fun state _ _ => ?_
    · obtain ⟨_, -, d, hd, -⟩ := Set.mem_add.mp hc
      exact absurd hd (hnone d)
    · simp only [hutf, Bool.not_false, if_true, andThen, Option.bind_some]
      by_cases hok : (chargeBytes limits (value.size.toNat + 1) 1 state).1 = .ok
      · simp [hok, meter]
      · simp [hok, meter]

variable {may must : Set (Nat × Nat)}

/-- The elements of a container are asked for in advance, which refuses only what the elements
    would not have left to spend. -/
theorem chargeElements_checks {first : Nat} {count : UInt64} (elementSize : Nat)
    {next : State lib.pointers.Carrier → Option (Status × State lib.pointers.Carrier)}
    (hfirst : first = 0 → count = 0) (hcount : ∀ c ∈ must, count.toNat ≤ c.1)
    (h : (meter lib limits holds active extra).Checks may must next) :
    (meter lib limits holds active extra).Checks ({(0, count.toNat * elementSize)} + may)
      ({(0, count.toNat * elementSize)} + must) fun state =>
        andThen .ok (some (chargeElements limits first count elementSize state)) next := by
  have hcharge : (meter lib limits holds active extra).Checks {(0, count.toNat * elementSize)}
      {(0, count.toNat * elementSize)} fun state =>
        some (chargeBytes limits count.toNat elementSize state) :=
    chargeBytes_checks count.toNat elementSize
  have hpaid := hcharge.seq h fun c hc c' hc' => hc.trans hc'.symm
  have hguarded : (meter lib limits holds active extra).Checks
      ({(0, count.toNat * elementSize)} + may) ({(0, count.toNat * elementSize)} + must)
      fun state => if limits.maxNodes.toNat - state.nodes < count.toNat then
        some (.limitExceeded, state)
      else andThen .ok (some (chargeBytes limits count.toNat elementSize state)) next := by
    refine hpaid.guard (show Status.limitExceeded ≠ .ok by decide) fun state _ hle hbad c hc hfit => ?_
    obtain ⟨x, hx, y, hy, rfl⟩ := Set.mem_add.mp hc
    rw [Set.mem_singleton_iff.mp hx] at hfit
    have hnodes : state.nodes + (0 + y.1) ≤ limits.maxNodes.toNat := hfit.1
    have := hcount y hy
    omega
  refine hguarded.congr fun state hinv hle => ?_
  have hnodes : state.nodes ≤ limits.maxNodes.toNat := hle.1
  have hnote : decide (limits.maxNodes.toNat < state.nodes) = false := by simpa using hnodes
  have hzero : ¬ (first = 0 ∧ count ≠ 0) := fun h => h.2 (hfirst h.1)
  simp only [chargeElements, if_neg hzero, hnote, noting_false, sizeSub_of_le hnodes (toNat_le_sizeMax _)]
  by_cases hbad : limits.maxNodes.toNat - state.nodes < count.toNat
  · simp [hbad, andThen]
  · simp only [if_neg hbad]

theorem whileActive_again {addr : Nat}
    {elements : State lib.pointers.Carrier → Option (Status × State lib.pointers.Carrier)}
    (hsets : lib.pointers.Abstracts lib.hashBytes (· == ·) holds) (hact : addr ∈ active)
    (hmust : ∀ c, c ∉ must) :
    (meter lib limits holds active extra).Checks may must (whileActive lib addr elements) := by
  refine (Meter.Checks.refuse (show Status.validationError ≠ .ok by decide) hmust).congr
    fun state hinv _ => if_pos ?_
  rw [hsets.contains _ _ _ _ hinv.1]
  exact ⟨addr, hact, by simp⟩

theorem whileActive_checks {addr : Nat}
    {elements : State lib.pointers.Carrier → Option (Status × State lib.pointers.Carrier)}
    (hsets : lib.pointers.Abstracts lib.hashBytes (· == ·) holds) (hact : addr ∉ active)
    (h : (meter lib limits holds (addr :: active) 0).Checks may must elements) :
    (meter lib limits holds active 1).Checks may must (whileActive lib addr elements) := by
  intro state ⟨hholds, hwrapped, hlen⟩ hle
  have hnot : ¬ lib.pointers.contains state.active addr = true := by
    rw [hsets.contains _ _ _ _ hholds]
    intro ⟨a, ha, heq⟩
    rw [beq_iff_eq] at heq
    exact hact (heq ▸ ha)
  -- each active container has been counted as a node, and so has this one
  have hroom : active.length < limits.maxNodes.toNat := by
    have hnodes : state.nodes ≤ limits.maxNodes.toNat := hle.1
    omega
  obtain ⟨added, hadd, hadded⟩ := hsets.add _ _ _ addr hholds (fun a ha heq => by
    rw [beq_iff_eq] at heq
    exact hact (heq ▸ ha)) hroom
  obtain ⟨status, t, hrun, ⟨ht, htw, htlen⟩, htle, hok, hfits⟩ :=
    h { state with active := added } ⟨hadded, hwrapped, by simpa using hlen⟩ hle
  obtain ⟨removed, hrem, hremoved⟩ := hsets.remove _ [] _ _ _ ht
  refine ⟨status, { t with active := removed }, ?_, ⟨hremoved, htw, by simpa using htlen⟩, htle, hok, hfits⟩
  unfold whileActive
  have hrem' : lib.pointers.remove t.active addr = (.ok, removed) := hrem
  simp [hnot, hadd, stlStatus, hrun, hrem']

theorem stringEqual_iff {lhs rhs : StringView} :
    stringEqual mem lhs rhs = true ↔ mem.bytes lhs = mem.bytes rhs := by
  unfold stringEqual
  simp only [Bool.and_eq_true, Bool.or_eq_true, beq_iff_eq]
  constructor
  · intro ⟨hsize, h⟩
    obtain hzero | h := h
    · have hl := length_bytes mem lhs
      have hr := length_bytes mem rhs
      rw [hzero] at hl
      rw [← hsize, hzero] at hr
      rw [List.eq_nil_of_length_eq_zero hl, List.eq_nil_of_length_eq_zero hr]
    · exact h
  · intro h
    refine ⟨UInt64.toNat_inj.mp ?_, .inr h⟩
    rw [← length_bytes mem lhs, h, length_bytes]

theorem keys_abstracts (hlib : lib.Lawful) :
    ∃ holds, lib.keys.Abstracts (stringHash mem) (stringEqual mem) holds := by
  apply hlib.keys
  · refine ⟨fun a => ?_, fun h => ?_, fun h h' => ?_⟩
    · rw [stringEqual_iff]
    · rw [stringEqual_iff] at *
      exact h.symm
    · rw [stringEqual_iff] at *
      exact h.trans h'
  · intro a b h
    unfold stringHash
    rw [stringEqual_iff.mp h]

/-- The costs of entries, whose keys are none of those seen, where `cost` gives those of the
    values. -/
def entriesCost (mem : Memory) (cost : Nat → Set (Nat × Nat)) :
    List (List UInt8) → List Nat → Set (Nat × Nat)
  | _, [] => {0}
  | seen, e :: es => {c | ∃ key x y, mem.text (mem.key e) = some key ∧ KeyWellFormed key ∧
      key ∉ seen ∧ x ∈ cost (e + valueOffset) ∧ y ∈ entriesCost mem cost (key :: seen) es ∧
      c = (0, textBytes key) + (x + y)}

theorem textOk_key {key : List UInt8} : TextOk true true key ↔ KeyWellFormed key :=
  ⟨fun h => ⟨h.nonempty rfl, h.noNul rfl, h.utf8⟩, fun h => ⟨fun _ => h.nonempty, fun _ => h.noNul, h.utf8⟩⟩

theorem validateEntries_checks (hlib : lib.Lawful)
    {kholds : lib.keys.Carrier → List StringView → Nat → Prop}
    (hkeys : lib.keys.Abstracts (stringHash mem) (stringEqual mem) kholds)
    {may must : Nat → Set (Nat × Nat)}
    {validate : Nat → State lib.pointers.Carrier → Option (Status × State lib.pointers.Carrier)}
    {es : List Nat}
    (hvalidate : ∀ e ∈ es, (meter lib limits holds active extra).Checks (may (e + valueOffset))
      (must (e + valueOffset)) (validate (e + valueOffset)))
    (hone : ∀ e ∈ es, Single (may (e + valueOffset)) (must (e + valueOffset)))
    {keys : lib.keys.Carrier} {seen : List StringView} {limit : Nat}
    (hseen : kholds keys seen limit) (hroom : seen.length + es.length ≤ limit) :
    (meter lib limits holds active extra).Checks (entriesCost mem may (seen.map mem.bytes) es)
      (entriesCost mem must (seen.map mem.bytes) es)
      (validateEntries lib mem limits validate es keys) := by
  induction es generalizing keys seen with
  | nil => exact .accept
  | cons e es ih =>
    have hstring : (meter lib limits holds active extra).Checks
        (textCost mem true true (mem.key e)) (textCost mem true true (mem.key e)) fun state =>
          some (validateString lib mem limits (mem.key e) true true state) :=
      validateString_checks hlib (mem.key e) true true
    have hsame : Single (textCost mem true true (mem.key e)) (textCost mem true true (mem.key e)) := by
      intro c hc c' hc'
      obtain ⟨text, htext, -, rfl⟩ := hc
      obtain ⟨text', htext', -, rfl⟩ := hc'
      rw [Option.some.inj (htext.symm.trans htext')]
    have hbytes : ∀ key, mem.text (mem.key e) = some key → mem.bytes (mem.key e) = key := by
      intro key hkey
      unfold Memory.text at hkey
      split at hkey
      · cases hkey
      · exact Option.some.inj hkey
    by_cases hin : ∃ y ∈ seen, stringEqual mem (mem.key e) y = true
    · -- the key has been seen
      have hmem : mem.bytes (mem.key e) ∈ seen.map mem.bytes := by
        obtain ⟨y, hy, heq⟩ := hin
        rw [stringEqual_iff.mp heq]
        exact List.mem_map_of_mem hy
      have hnone : ∀ A c, c ∉ entriesCost mem A (seen.map mem.bytes) (e :: es) := by
        intro A c hc
        obtain ⟨key, x, y, hkey, -, hnot, -⟩ := hc
        rw [← hbytes key hkey] at hnot
        exact hnot hmem
      have hrefuse : (meter lib limits holds active extra).Checks ∅ ∅ fun state =>
          some (.duplicateRecordKey, state) :=
        .refuse (show Status.duplicateRecordKey ≠ .ok by decide) fun _ hc => hc
      refine ((hstring.seq hrefuse hsame).mono (fun c hc => ?_) fun c hc =>
        absurd hc (hnone must c)).congr fun state _ _ => ?_
      · obtain ⟨_, -, d, hd, -⟩ := Set.mem_add.mp hc
        exact hd.elim
      · have hcontains := (hkeys.contains _ _ _ (mem.key e) hseen).mpr hin
        simp only [validateEntries, hcontains, if_true]
        rfl
    · obtain ⟨keys', hadd, hseen'⟩ := hkeys.add _ _ _ (mem.key e) hseen
        (fun y hy heq => hin ⟨y, hy, heq⟩) (by rw [List.length_cons] at hroom; omega)
      have hrest := ih (fun e' he' => hvalidate e' (.tail e he'))
        (fun e' he' => hone e' (.tail e he')) hseen'
        (by rw [List.length_cons] at hroom ⊢; omega)
      have hinner := (hvalidate e (.head es)).seq hrest (hone e (.head es))
      have hmem : mem.bytes (mem.key e) ∉ seen.map mem.bytes := by
        intro h
        obtain ⟨y, hy, heq⟩ := List.mem_map.mp h
        exact hin ⟨y, hy, stringEqual_iff.mpr heq.symm⟩
      refine ((hstring.seq hinner hsame).mono (fun c hc => ?_) (fun c hc => ?_)).congr fun state _ _ => ?_
      · obtain ⟨_, ⟨key, hkey, hok, rfl⟩, d, hd, rfl⟩ := Set.mem_add.mp hc
        obtain ⟨x, hx, y, hy, rfl⟩ := Set.mem_add.mp hd
        rw [List.map_cons, hbytes key hkey] at hy
        rw [hbytes key hkey] at hmem
        exact ⟨key, x, y, hkey, textOk_key.mp hok, hmem, hx, hy, rfl⟩
      · obtain ⟨key, x, y, hkey, hok, -, hx, hy, rfl⟩ := hc
        refine Set.add_mem_add ⟨key, hkey, textOk_key.mpr hok, rfl⟩ (Set.add_mem_add hx ?_)
        rw [List.map_cons, hbytes key hkey]
        exact hy
      · have hcontains := mt (hkeys.contains _ _ _ (mem.key e) hseen).mp hin
        simp only [validateEntries, hcontains, hadd]
        simp [meter]

theorem validateRecord_checks (hlib : lib.Lawful) {may must : Nat → Set (Nat × Nat)}
    {validate : Nat → State lib.pointers.Carrier → Option (Status × State lib.pointers.Carrier)}
    {first : Nat} {count : UInt64}
    (hvalidate : ∀ a ∈ (slots first entrySize count).map (· + valueOffset),
      (meter lib limits holds active extra).Checks (may a) (must a) (validate a))
    (hone : ∀ a ∈ (slots first entrySize count).map (· + valueOffset), Single (may a) (must a)) :
    (meter lib limits holds active extra).Checks (entriesCost mem may [] (slots first entrySize count))
      (entriesCost mem must [] (slots first entrySize count))
      (validateRecord lib mem limits validate first count) := by
  obtain ⟨kholds, hkeys⟩ : ∃ holds, lib.keys.Abstracts (stringHash mem) (stringEqual mem) holds :=
    keys_abstracts hlib
  by_cases hzero : count = 0
  · subst hzero
    exact Meter.Checks.accept.congr fun state _ _ => by simp [validateRecord, meter]
  · obtain ⟨keys, hinit, hempty⟩ := hkeys.init _ (toNat_pos hzero)
    refine (validateEntries_checks hlib hkeys (fun e he => hvalidate _ (List.mem_map_of_mem he))
      (fun e he => hone _ (List.mem_map_of_mem he)) hempty (by simp)).congr fun state _ _ => ?_
    simp [validateRecord, hzero, hinit]

theorem container_checks {elementsMay elementsMust : Set (Nat × Nat)} {addr first : Nat}
    {count : UInt64} {elementSize : Nat}
    {elements : State lib.pointers.Carrier → Option (Status × State lib.pointers.Carrier)}
    (hsets : lib.pointers.Abstracts lib.hashBytes (· == ·) holds)
    (hmay : (first = 0 → count = 0) → {(0, count.toNat * elementSize)} + elementsMay ⊆ may)
    (hmust : ∀ c ∈ must, (first = 0 → count = 0) ∧ addr ∉ active ∧
      c ∈ ({(0, count.toNat * elementSize)} : Set (Nat × Nat)) + elementsMust)
    (hcount : ∀ c ∈ elementsMust, count.toNat ≤ c.1)
    (h : (meter lib limits holds (addr :: active) 0).Checks elementsMay elementsMust elements) :
    (meter lib limits holds active 1).Checks may must fun state =>
      andThen .ok (some (chargeElements limits first count elementSize state))
        (whileActive lib addr elements) := by
  by_cases hfirst : first = 0 → count = 0
  · by_cases hact : addr ∈ active
    · -- then nothing is due
      have hagain : (meter lib limits holds active 1).Checks ∅ ∅ (whileActive lib addr elements) :=
        whileActive_again hsets hact fun _ hc => hc
      refine (chargeElements_checks elementSize hfirst (fun _ hc => hc.elim) hagain).mono
        (fun c hc => ?_) fun c hc => absurd hact (hmust c hc).2.1
      obtain ⟨_, -, d, hd, -⟩ := Set.mem_add.mp hc
      exact hd.elim
    · exact (chargeElements_checks elementSize hfirst hcount
        (whileActive_checks hsets hact h)).mono (hmay hfirst) fun c hc => (hmust c hc).2.2
  · refine (Meter.Checks.refuse (show Status.invalidArgument ≠ .ok by decide) fun c hc =>
      hfirst (hmust c hc).1).congr fun state _ _ => ?_
    have hnull : first = 0 ∧ count ≠ 0 := by simpa using hfirst
    simp [chargeElements, hnull, andThen]

end Charges

section Nodes
variable {lib : Library} {mem : Memory} {limits : Limits}

structure ShowsAt (mem : Memory) (limits : Limits) (depth addr : Nat) (t : Tree) : Prop where
  unfolds : Unfolds mem t addr
  wellFormed : t.WellFormed
  depth : depth + t.depth ≤ limits.maxDepth.toNat + 1

/-- No active container can be a part of the tree. -/
def Beneath (mem : Memory) (active : List Nat) (t : Tree) : Prop :=
  ∀ a ∈ active, ∀ u, Unfolds mem u a → t.nodes < u.nodes

def costs (P : Tree → Prop) : Set (Nat × Nat) := {c | ∃ t, P t ∧ c = t.cost}

def partCosts (P : Tree → Prop) : Set (Nat × Nat) := {c | ∃ t, P t ∧ c = (t.nodes - 1, t.bytes)}

theorem costs_eq (P : Tree → Prop) : costs P = {(1, 0)} + partCosts P := by
  ext c
  constructor
  · intro ⟨t, ht, hc⟩
    refine Set.mem_add.mpr ⟨(1, 0), rfl, _, ⟨t, ht, rfl⟩, ?_⟩
    have := nodes_pos t
    rw [hc, Prod.mk_add_mk]
    show (1 + (t.nodes - 1), 0 + t.bytes) = (t.nodes, t.bytes)
    rw [Nat.zero_add, Nat.add_sub_cancel' this]
  · intro hc
    obtain ⟨x, hx, y, ⟨t, ht, rfl⟩, rfl⟩ := Set.mem_add.mp hc
    have := nodes_pos t
    refine ⟨t, ht, ?_⟩
    rw [Set.mem_singleton_iff.mp hx, Prod.mk_add_mk]
    show (1 + (t.nodes - 1), 0 + t.bytes) = (t.nodes, t.bytes)
    rw [Nat.zero_add, Nat.add_sub_cancel' this]

theorem sum_costs (ts : List Tree) : (ts.map Tree.cost).sum = (Tree.nodesAll ts, Tree.bytesAll ts) := by
  induction ts with
  | nil => rfl
  | cons t ts ih => rw [List.map_cons, List.sum_cons, ih]; rfl

theorem forall₂_costs {P : Nat → Tree → Prop} {as : List Nat} {cs : List (Nat × Nat)} :
    List.Forall₂ (fun a c => c ∈ costs (P a)) as cs ↔
      ∃ ts, List.Forall₂ (fun t a => P a t) ts as ∧ cs = ts.map Tree.cost := by
  constructor
  · intro h
    induction h with
    | nil => exact ⟨[], .nil, rfl⟩
    | cons hc _ ih =>
      obtain ⟨t, ht, rfl⟩ := hc
      obtain ⟨ts, hts, rfl⟩ := ih
      exact ⟨t :: ts, .cons ht hts, rfl⟩
  · intro ⟨ts, h, hcs⟩
    subst hcs
    induction h with
    | nil => exact .nil
    | cons ht _ ih => exact .cons ⟨_, ht, rfl⟩ ih

theorem mem_entriesCost {cost : Nat → Set (Nat × Nat)} {seen : List (List UInt8)} {es : List Nat}
    {c : Nat × Nat} : c ∈ entriesCost mem cost seen es ↔ ∃ keys cs,
      List.Forall₂ (fun key e => mem.text (mem.key e) = some key) keys es ∧
      (∀ key ∈ keys, KeyWellFormed key) ∧ (∀ key ∈ keys, key ∉ seen) ∧ keys.Nodup ∧
      List.Forall₂ (fun a c => c ∈ cost a) (es.map (· + valueOffset)) cs ∧
      c = (0, (keys.map textBytes).sum) + cs.sum := by
  induction es generalizing seen c with
  | nil =>
    constructor
    · intro hc
      exact ⟨[], [], .nil, by simp, by simp, .nil, .nil, hc⟩
    · intro ⟨keys, cs, hkeys, _, _, _, hcs, hc⟩
      cases hkeys
      cases hcs
      exact hc
  | cons e es ih =>
    constructor
    · intro ⟨key, x, y, hkey, hok, hnot, hx, hy, hc⟩
      obtain ⟨keys, cs, hkeys, hwf, hseen, hnodup, hcs, rfl⟩ := ih.mp hy
      have hfresh : key ∉ keys := fun h => hseen key h (.head seen)
      refine ⟨key :: keys, x :: cs, .cons hkey hkeys, ?_, ?_,
        List.nodup_cons.mpr ⟨hfresh, hnodup⟩, .cons hx hcs, ?_⟩
      · intro k hk
        cases hk with
        | head => exact hok
        | tail _ hk => exact hwf k hk
      · intro k hk
        cases hk with
        | head => exact hnot
        | tail _ hk => exact fun h => hseen k hk (.tail key h)
      · rw [hc, List.map_cons, List.sum_cons, List.sum_cons]
        ext
        · simp
        · simp only [Prod.snd_add]
          omega
    · intro ⟨keys, cs, hkeys, hwf, hseen, hnodup, hcs, hc⟩
      cases hkeys with
      | @cons key _ keys _ hkey hkeys =>
        cases hcs with
        | @cons _ x _ cs hx hcs =>
          have hpair := List.nodup_cons.mp hnodup
          refine ⟨key, x, (0, (keys.map textBytes).sum) + cs.sum, hkey, hwf key (.head keys),
            hseen key (.head keys), hx, ih.mpr ⟨keys, cs, hkeys, fun k hk => hwf k (.tail key hk),
              fun k hk h => ?_, hpair.2, hcs, rfl⟩, ?_⟩
          · cases h with
            | head => exact hpair.1 hk
            | tail _ h => exact hseen k (.tail key hk) h
          · rw [hc, List.map_cons, List.sum_cons, List.sum_cons]
            ext
            · simp
            · simp only [Prod.snd_add]
              omega

section Inversion
variable {depth addr : Nat} {t : Tree}

theorem showsAt_all (hdepth : depth ≤ limits.maxDepth.toNat) {ts : List Tree} {as : List Nat} :
    List.Forall₂ (fun t a => ShowsAt mem limits (depth + 1) a t) ts as ↔ UnfoldsAll mem ts as ∧
      Tree.WellFormedAll ts ∧ depth + (1 + Tree.depthAll ts) ≤ limits.maxDepth.toNat + 1 := by
  induction ts generalizing as with
  | nil =>
    cases as with
    | nil =>
      simp only [UnfoldsAll, Tree.WellFormedAll, Tree.depthAll, List.Forall₂.nil, true_and, true_iff]
      omega
    | cons a as => simp [UnfoldsAll]
  | cons t ts ih =>
    cases as with
    | nil => simp [UnfoldsAll]
    | cons a as =>
      rw [List.forall₂_cons, ih]
      simp only [UnfoldsAll, Tree.WellFormedAll, Tree.depthAll]
      constructor
      · rintro ⟨h, hrest⟩
        have := h.depth
        have := hrest.2.2
        exact ⟨⟨h.unfolds, hrest.1⟩, ⟨h.wellFormed, hrest.2.1⟩, by omega⟩
      · rintro ⟨hu, hw, hd⟩
        exact ⟨⟨hu.1, hw.1, by omega⟩, hu.2, hw.2, by omega⟩

theorem ShowsAt.reserved (h : ShowsAt mem limits depth addr t) : (mem.view addr).reserved = 0 := by
  have hwf := h.wellFormed
  have hunf := h.unfolds
  cases t with
  | leaf =>
    obtain ⟨-, hr, -⟩ := hunf
    exact hr.trans hwf.1
  | array | record =>
    obtain ⟨-, first, count, hview, -⟩ := hunf
    rw [hview]
    exact hwf.1

theorem showsAt_leaf (haddr : addr ≠ 0) (hdepth : depth ≤ limits.maxDepth.toNat)
    (hres : (mem.view addr).reserved = 0)
    (harray : ∀ first count, (mem.view addr).content ≠ .array first count)
    (hrecord : ∀ first count, (mem.view addr).content ≠ .record first count) :
    ShowsAt mem limits depth addr t ↔ ∃ value, mem.scalar (mem.view addr).content = some value ∧
      value.WellFormed ∧ t = .leaf 0 value := by
  constructor
  · intro h
    have hunf := h.unfolds
    have hwf := h.wellFormed
    cases t with
    | leaf reserved value =>
      obtain ⟨-, -, hv⟩ := hunf
      exact ⟨value, hv, hwf.2, by rw [hwf.1]⟩
    | array =>
      obtain ⟨-, first, count, hview, -⟩ := hunf
      exact absurd (congrArg ValueView.content hview) (harray first count)
    | record =>
      obtain ⟨-, first, count, hview, -⟩ := hunf
      exact absurd (congrArg ValueView.content hview) (hrecord first count)
  · rintro ⟨value, hv, hwf, ht⟩
    subst ht
    exact ⟨⟨haddr, hres, hv⟩, ⟨rfl, hwf⟩, by simp only [Tree.depth]; omega⟩

theorem showsAt_array (haddr : addr ≠ 0) (hdepth : depth ≤ limits.maxDepth.toNat) {first : Nat}
    {count : UInt64} (hview : mem.view addr = ⟨0, .array first count⟩) :
    ShowsAt mem limits depth addr t ↔ ∃ items, t = .array 0 items ∧ (first = 0 → count = 0) ∧
      List.Forall₂ (fun t a => ShowsAt mem limits (depth + 1) a t) items (slots first viewSize count) := by
  constructor
  · intro h
    have hunf := h.unfolds
    cases t with
    | leaf =>
      obtain ⟨-, -, hv⟩ := hunf
      simp [hview, Memory.scalar] at hv
    | array reserved items =>
      obtain ⟨-, first', count', hview', hfirst, hitems⟩ := hunf
      cases hview.symm.trans hview'
      exact ⟨items, rfl, hfirst, (showsAt_all hdepth).mpr ⟨hitems, h.wellFormed.2, h.depth⟩⟩
    | record =>
      obtain ⟨-, first', count', hview', -⟩ := hunf
      cases hview.symm.trans hview'
  · rintro ⟨items, ht, hfirst, hitems⟩
    subst ht
    obtain ⟨hunf, hwf, hd⟩ := (showsAt_all hdepth).mp hitems
    exact ⟨⟨haddr, first, count, hview, hfirst, hunf⟩, ⟨rfl, hwf⟩, hd⟩

theorem showsAt_record (haddr : addr ≠ 0) (hdepth : depth ≤ limits.maxDepth.toNat) {first : Nat}
    {count : UInt64} (hview : mem.view addr = ⟨0, .record first count⟩) :
    ShowsAt mem limits depth addr t ↔ ∃ keys values, t = .record 0 keys values ∧ (first = 0 → count = 0) ∧
      List.Forall₂ (fun key e => mem.text (mem.key e) = some key) keys
        (slots first entrySize count) ∧ (∀ key ∈ keys, KeyWellFormed key) ∧ keys.Nodup ∧
      List.Forall₂ (fun t a => ShowsAt mem limits (depth + 1) a t) values
        ((slots first entrySize count).map (· + valueOffset)) := by
  constructor
  · intro h
    have hunf := h.unfolds
    cases t with
    | leaf =>
      obtain ⟨-, -, hv⟩ := hunf
      simp [hview, Memory.scalar] at hv
    | array =>
      obtain ⟨-, first', count', hview', -⟩ := hunf
      cases hview.symm.trans hview'
    | record reserved keys values =>
      obtain ⟨-, first', count', hview', hfirst, hkeys, hvalues⟩ := hunf
      cases hview.symm.trans hview'
      obtain ⟨-, hwf, hnodup, hall⟩ := h.wellFormed
      exact ⟨keys, values, rfl, hfirst, hkeys, hwf, hnodup,
        (showsAt_all hdepth).mpr ⟨hvalues, hall, h.depth⟩⟩
  · rintro ⟨keys, values, ht, hfirst, hkeys, hwf, hnodup, hvalues⟩
    subst ht
    obtain ⟨hunf, hall, hd⟩ := (showsAt_all hdepth).mp hvalues
    exact ⟨⟨haddr, first, count, hview, hfirst, hkeys, hunf⟩, ⟨rfl, hwf, hnodup, hall⟩, hd⟩

end Inversion
section Node
variable {holds : lib.pointers.Carrier → List Nat → Nat → Prop} {active : List Nat}

def Due (mem : Memory) (limits : Limits) (active : List Nat) (depth addr : Nat) (t : Tree) : Prop :=
  ShowsAt mem limits depth addr t ∧ Beneath mem active t

def mayCost (mem : Memory) (limits : Limits) (depth addr : Nat) : Set (Nat × Nat) :=
  costs (ShowsAt mem limits depth addr)

/-- What a view costs, where it is to be accepted. -/
def mustCost (mem : Memory) (limits : Limits) (active : List Nat) (depth addr : Nat) : Set (Nat × Nat) :=
  costs (Due mem limits active depth addr)

theorem single_cost (depth addr : Nat) :
    Single (mayCost mem limits depth addr) (mustCost mem limits active depth addr) := by
  intro c hc c' hc'
  obtain ⟨t, ht, rfl⟩ := hc
  obtain ⟨u, hu, rfl⟩ := hc'
  rw [ht.unfolds.unique hu.1.unfolds]

theorem Beneath.parts {addr : Nat} {t u : Tree} (h : Beneath mem active t)
    (ht : Unfolds mem t addr) (hu : u.nodes < t.nodes) : Beneath mem (addr :: active) u := by
  intro a ha v hv
  cases ha with
  | head => rwa [← ht.unique hv]
  | tail _ ha => exact hu.trans (h a ha v hv)

theorem Beneath.due {depth addr : Nat} {t : Tree} {ts : List Tree} {as : List Nat}
    (h : Beneath mem active t) (ht : Unfolds mem t addr) (hts : Tree.nodesAll ts < t.nodes)
    (hshows : List.Forall₂ (fun t a => ShowsAt mem limits depth a t) ts as) :
    List.Forall₂ (fun t a => Due mem limits (addr :: active) depth a t) ts as := by
  have hboth := (List.forall₂_and_left (p := Beneath mem (addr :: active)) ts _).mpr
    ⟨fun u hu => h.parts ht ((nodes_le_nodesAll hu).trans_lt hts), hshows⟩
  exact hboth.imp fun u a hu => ⟨hu.2, hu.1⟩

theorem Beneath.not_active {addr : Nat} {t : Tree} (h : Beneath mem active t)
    (ht : Unfolds mem t addr) : addr ∉ active :=
  fun ha => Nat.lt_irrefl _ (h addr ha t ht)

theorem mem_sum_costs {P : Nat → Tree → Prop} {as : List Nat} {c : Nat × Nat} :
    c ∈ (as.map fun a => costs (P a)).sum ↔ ∃ ts, List.Forall₂ (fun t a => P a t) ts as ∧
      c = (Tree.nodesAll ts, Tree.bytesAll ts) := by
  rw [mem_sum_sets]
  constructor
  · intro ⟨cs, hcs, hc⟩
    obtain ⟨ts, hts, rfl⟩ := forall₂_costs.mp hcs
    exact ⟨ts, hts, by rw [← hc, sum_costs]⟩
  · intro ⟨ts, hts, hc⟩
    exact ⟨ts.map Tree.cost, forall₂_costs.mpr ⟨ts, hts, rfl⟩, by rw [hc, sum_costs]⟩

theorem mem_entries_costs {P : Nat → Tree → Prop} {es : List Nat} {c : Nat × Nat} :
    c ∈ entriesCost mem (fun a => costs (P a)) [] es ↔ ∃ keys ts,
      List.Forall₂ (fun key e => mem.text (mem.key e) = some key) keys es ∧
      (∀ key ∈ keys, KeyWellFormed key) ∧ keys.Nodup ∧
      List.Forall₂ (fun t a => P a t) ts (es.map (· + valueOffset)) ∧
      c = (Tree.nodesAll ts, (keys.map textBytes).sum + Tree.bytesAll ts) := by
  rw [mem_entriesCost]
  constructor
  · intro ⟨keys, cs, hkeys, hwf, _, hnodup, hcs, hc⟩
    obtain ⟨ts, hts, rfl⟩ := forall₂_costs.mp hcs
    refine ⟨keys, ts, hkeys, hwf, hnodup, hts, ?_⟩
    rw [hc, sum_costs, Prod.mk_add_mk, Nat.zero_add]
  · intro ⟨keys, ts, hkeys, hwf, hnodup, hts, hc⟩
    refine ⟨keys, ts.map Tree.cost, hkeys, hwf, by simp, hnodup, forall₂_costs.mpr ⟨ts, hts, rfl⟩, ?_⟩
    rw [hc, sum_costs, Prod.mk_add_mk, Nat.zero_add]

variable {depth addr first : Nat} {count : UInt64}

theorem partCosts_leaf (haddr : addr ≠ 0) (hdepth : depth ≤ limits.maxDepth.toNat)
    (hres : (mem.view addr).reserved = 0)
    (harray : ∀ first count, (mem.view addr).content ≠ .array first count)
    (hrecord : ∀ first count, (mem.view addr).content ≠ .record first count) :
    partCosts (ShowsAt mem limits depth addr) = {c | ∃ value,
      mem.scalar (mem.view addr).content = some value ∧ value.WellFormed ∧
      c = (0, value.bytes)} := by
  ext c
  constructor
  · intro ⟨t, ht, hc⟩
    obtain ⟨value, hv, hwf, rfl⟩ :=
      (showsAt_leaf haddr hdepth hres harray hrecord).mp ht
    exact ⟨value, hv, hwf, hc⟩
  · intro ⟨value, hv, hwf, hc⟩
    exact ⟨.leaf 0 value, (showsAt_leaf haddr hdepth hres harray hrecord).mpr ⟨value, hv, hwf, rfl⟩, hc⟩

theorem partCosts_due : partCosts (Due mem limits active depth addr) ⊆
    partCosts (ShowsAt mem limits depth addr) :=
  fun _ ⟨t, ht, hc⟩ => ⟨t, ht.1, hc⟩

theorem scalar_checks (value : Scalar) (haddr : addr ≠ 0)
    (hdepth : depth ≤ limits.maxDepth.toNat) (hres : (mem.view addr).reserved = 0)
    (hvalue : mem.scalar (mem.view addr).content = some value) (hbytes : value.bytes = 0)
    (hwf : value.WellFormed) :
    (meter lib limits holds active 1).Checks (partCosts (ShowsAt mem limits depth addr))
      (partCosts (Due mem limits active depth addr)) fun state => some (.ok, state) := by
  have hleaf := partCosts_leaf haddr hdepth hres (fun first count h => by simp [h, Memory.scalar] at hvalue)
    (fun first count h => by simp [h, Memory.scalar] at hvalue)
  refine Meter.Checks.accept.mono (fun c hc => ?_) fun c hc => ?_
  · rw [hleaf]
    exact ⟨value, hvalue, hwf, by rw [Set.mem_singleton_iff.mp hc, hbytes]; rfl⟩
  · have hc := partCosts_due hc
    rw [hleaf] at hc
    obtain ⟨value', hvalue', -, rfl⟩ := hc
    rw [← Option.some.inj (hvalue.symm.trans hvalue'), hbytes]
    rfl

section Parts
variable (hsets : lib.pointers.Abstracts lib.hashBytes (· == ·) holds) (haddr : addr ≠ 0)
  (hdepth : depth ≤ limits.maxDepth.toNat)
  {validate : Nat → State lib.pointers.Carrier → Option (Status × State lib.pointers.Carrier)}
  (h : ∀ a, (meter lib limits holds (addr :: active) 0).Checks
    (mayCost mem limits (depth + 1) a) (mustCost mem limits (addr :: active) (depth + 1) a)
    (validate a))
include hsets haddr hdepth h

theorem array_checks (hview : mem.view addr = ⟨0, .array first count⟩) :
    (meter lib limits holds active 1).Checks (partCosts (ShowsAt mem limits depth addr))
      (partCosts (Due mem limits active depth addr)) fun state =>
        andThen .ok (some (chargeElements limits first count viewSize state))
          (whileActive lib addr (eachOf .ok validate (slots first viewSize count))) := by
  have hsum : ∀ items : List Tree, items.length = count.toNat →
      ((0, count.toNat * viewSize) : Nat × Nat) + (Tree.nodesAll items, Tree.bytesAll items) =
        ((Tree.array 0 items).nodes - 1, (Tree.array 0 items).bytes) := by
    intro items hlen
    simp only [Prod.mk_add_mk, Tree.nodes, Tree.bytes, hlen, Nat.zero_add, Nat.add_sub_cancel_left,
      Nat.mul_comm]
  refine container_checks hsets (fun hfirst c hc => ?_) (fun c hc => ?_) (fun c hc => ?_)
    (Meter.Checks.each (fun a _ => h a) fun a _ => single_cost (depth + 1) a)
  · obtain ⟨x, hx, y, hy, rfl⟩ := Set.mem_add.mp hc
    obtain ⟨items, hitems, rfl⟩ := mem_sum_costs.mp hy
    have hlen := hitems.length_eq
    rw [length_slots] at hlen
    refine ⟨.array 0 items, (showsAt_array haddr hdepth hview).mpr ⟨items, rfl, hfirst, hitems⟩, ?_⟩
    rw [Set.mem_singleton_iff.mp hx]
    exact hsum items hlen
  · obtain ⟨t, ⟨ht, hbeneath⟩, rfl⟩ := hc
    obtain ⟨items, rfl, hfirst, hitems⟩ := (showsAt_array haddr hdepth hview).mp ht
    have hlen := hitems.length_eq
    rw [length_slots] at hlen
    refine ⟨hfirst, hbeneath.not_active ht.unfolds, ?_⟩
    rw [← hsum items hlen]
    refine Set.add_mem_add rfl (mem_sum_costs.mpr ⟨items, ?_, rfl⟩)
    exact hbeneath.due ht.unfolds (by simp only [Tree.nodes]; omega) hitems
  · obtain ⟨items, hitems, rfl⟩ := mem_sum_costs.mp hc
    have hlen := hitems.length_eq
    rw [length_slots] at hlen
    rw [← hlen]
    exact length_le_nodesAll

theorem record_checks (hlib : lib.Lawful) (hview : mem.view addr = ⟨0, .record first count⟩) :
    (meter lib limits holds active 1).Checks (partCosts (ShowsAt mem limits depth addr))
      (partCosts (Due mem limits active depth addr)) fun state =>
        andThen .ok (some (chargeElements limits first count entrySize state))
          (whileActive lib addr (validateRecord lib mem limits validate first count)) := by
  have hsum : ∀ (keys : List (List UInt8)) (values : List Tree), keys.length = count.toNat →
      ((0, count.toNat * entrySize) : Nat × Nat) +
        (Tree.nodesAll values, (keys.map textBytes).sum + Tree.bytesAll values) =
        ((Tree.record 0 keys values).nodes - 1, (Tree.record 0 keys values).bytes) := by
    intro keys values hlen
    simp only [Prod.mk_add_mk, Tree.nodes, Tree.bytes, hlen, Nat.zero_add, Nat.add_sub_cancel_left,
      Nat.mul_comm, Nat.add_assoc]
  refine container_checks hsets (fun hfirst c hc => ?_) (fun c hc => ?_) (fun c hc => ?_)
    (validateRecord_checks hlib (fun a _ => h a) fun a _ => single_cost (depth + 1) a)
  · obtain ⟨x, hx, y, hy, rfl⟩ := Set.mem_add.mp hc
    obtain ⟨keys, values, hkeys, hwf, hnodup, hvalues, rfl⟩ := mem_entries_costs.mp hy
    have hlen := hkeys.length_eq
    rw [length_slots] at hlen
    refine ⟨.record 0 keys values, (showsAt_record haddr hdepth hview).mpr
      ⟨keys, values, rfl, hfirst, hkeys, hwf, hnodup, hvalues⟩, ?_⟩
    rw [Set.mem_singleton_iff.mp hx]
    exact hsum keys values hlen
  · obtain ⟨t, ⟨ht, hbeneath⟩, rfl⟩ := hc
    obtain ⟨keys, values, rfl, hfirst, hkeys, hwf, hnodup, hvalues⟩ :=
      (showsAt_record haddr hdepth hview).mp ht
    have hlen := hkeys.length_eq
    rw [length_slots] at hlen
    refine ⟨hfirst, hbeneath.not_active ht.unfolds, ?_⟩
    rw [← hsum keys values hlen]
    refine Set.add_mem_add rfl (mem_entries_costs.mpr ⟨keys, values, hkeys, hwf, hnodup, ?_, rfl⟩)
    exact hbeneath.due ht.unfolds (by simp only [Tree.nodes]; omega) hvalues
  · obtain ⟨keys, values, _, _, _, hvalues, rfl⟩ := mem_entries_costs.mp hc
    have hlen := hvalues.length_eq
    rw [List.length_map, length_slots] at hlen
    rw [← hlen]
    exact length_le_nodesAll

theorem validateContent_checks (hlib : lib.Lawful) :
    (meter lib limits holds active 1).Checks (partCosts (ShowsAt mem limits depth addr))
      (partCosts (Due mem limits active depth addr))
      (validateContent lib mem limits validate addr) := by
  show (meter lib limits holds active 1).Checks (partCosts (ShowsAt mem limits depth addr))
    (partCosts (Due mem limits active depth addr)) fun state =>
      validateContent lib mem limits validate addr state
  unfold validateContent
  by_cases hres : (mem.view addr).reserved = 0
  · simp only [hres, ne_eq, not_true_eq_false, if_false]
    cases hcontent : (mem.view addr).content with
    | null => exact scalar_checks .null haddr hdepth hres (by rw [hcontent]; rfl) rfl trivial
    | int64 n => exact scalar_checks (.int64 n) haddr hdepth hres (by rw [hcontent]; rfl) rfl trivial
    | number b => exact scalar_checks (.number b) haddr hdepth hres (by rw [hcontent]; rfl) rfl trivial
    | bool boolean =>
      by_cases hb : boolean ≤ 1
      · simp only [if_pos hb]
        exact scalar_checks (.bool boolean) haddr hdepth hres (by rw [hcontent]; rfl) rfl hb
      · simp only [if_neg hb]
        refine .refuse (show Status.validationError ≠ .ok by decide) fun c hc => ?_
        have hc := partCosts_due hc
        rw [partCosts_leaf haddr hdepth hres (by simp [hcontent]) (by simp [hcontent])] at hc
        obtain ⟨value, hvalue, hwf, -⟩ := hc
        rw [hcontent] at hvalue
        cases hvalue
        exact hb hwf
    | string s =>
      -- a string of its own may be empty and may have NULs
      have hcosts : partCosts (ShowsAt mem limits depth addr) = textCost mem false false s := by
        rw [partCosts_leaf haddr hdepth hres (by simp [hcontent]) (by simp [hcontent]), hcontent]
        ext c
        constructor
        · intro ⟨value, hvalue, hwf, hc⟩
          obtain ⟨text, htext, rfl⟩ := Option.map_eq_some_iff.mp hvalue
          exact ⟨text, htext, ⟨by simp, by simp, hwf⟩, hc⟩
        · intro ⟨text, htext, hok, hc⟩
          exact ⟨.string text, Option.map_eq_some_iff.mpr ⟨text, htext, rfl⟩, hok.utf8, hc⟩
      have hstring : (meter lib limits holds active 1).Checks (textCost mem false false s)
          (textCost mem false false s) fun state =>
            some (validateString lib mem limits s false false state) :=
        validateString_checks hlib s false false
      rw [← hcosts] at hstring
      exact hstring.mono (fun _ hc => hc) partCosts_due
    | array first count =>
      have hview : mem.view addr = ⟨0, .array first count⟩ := by rw [← hres, ← hcontent]
      exact array_checks hsets haddr hdepth h hview
    | record first count =>
      have hview : mem.view addr = ⟨0, .record first count⟩ := by rw [← hres, ← hcontent]
      exact record_checks hsets haddr hdepth h hlib hview
    | other kind =>
      refine .refuse (show Status.validationError ≠ .ok by decide) fun c hc => ?_
      have hc := partCosts_due hc
      rw [partCosts_leaf haddr hdepth hres (by simp [hcontent]) (by simp [hcontent])] at hc
      obtain ⟨value, hvalue, -⟩ := hc
      rw [hcontent] at hvalue
      cases hvalue
  · simp only [ne_eq, hres, not_false_eq_true, if_true]
    refine .refuse (show Status.invalidArgument ≠ .ok by decide) fun c hc => ?_
    obtain ⟨t, ht, -⟩ := hc
    exact hres ht.1.reserved

end Parts

theorem visit_eq {C : Type} {state : State C} (h : state.nodes < sizeMax) :
    state.visit = { state with nodes := state.nodes + 1 } := by
  have hnote : decide (sizeMax < state.nodes + 1) = false := by
    simp only [decide_eq_false_iff_not]
    omega
  unfold State.visit
  rw [hnote, noting_false, wrap_of_le h]

theorem validateNode_checks (hlib : lib.Lawful)
    (hsets : lib.pointers.Abstracts lib.hashBytes (· == ·) holds) {fuel depth : Nat}
    (hfuel : limits.maxDepth.toNat + 1 < depth + fuel) (hdepth : depth ≤ limits.maxDepth.toNat + 1)
    (addr : Nat) (active : List Nat) :
    (meter lib limits holds active 0).Checks (mayCost mem limits depth addr)
      (mustCost mem limits active depth addr) (validateNode lib mem limits fuel depth addr) := by
  induction fuel generalizing depth addr active with
  | zero => omega
  | succ fuel ih =>
    show (meter lib limits holds active 0).Checks (costs (ShowsAt mem limits depth addr))
      (costs (Due mem limits active depth addr)) fun state =>
        validateNode lib mem limits (fuel + 1) depth addr state
    simp only [validateNode]
    by_cases haddr : addr = 0
    · simp only [if_pos haddr]
      refine .refuse (show Status.invalidArgument ≠ .ok by decide) fun c hc => ?_
      obtain ⟨t, ht, -⟩ := hc
      have hunf := ht.1.unfolds
      cases t with
      | leaf | array | record => exact hunf.1 haddr
    by_cases hdeep : limits.maxDepth.toNat < depth
    · simp only [if_neg haddr, hdeep, true_or, if_true]
      refine .refuse (show Status.limitExceeded ≠ .ok by decide) fun c hc => ?_
      obtain ⟨t, ht, -⟩ := hc
      have hd := ht.1.depth
      have : 0 < t.depth := by
        cases t <;> simp only [Tree.depth] <;> omega
      omega
    have hle : depth ≤ limits.maxDepth.toNat := by omega
    simp only [if_neg haddr, hdeep, false_or]
    rw [costs_eq, costs_eq]
    have hmax := toNat_le_sizeMax limits.maxNodes
    refine .pay (show Status.limitExceeded ≠ .ok by decide) (fun state _ hspent => ?_)
      (fun state hinv hspent hroom => ?_) (fun state hinv => ?_)
      (validateContent_checks hsets haddr hle (fun a => ih (by omega) (by omega) a _) hlib)
    · have hnodes : state.nodes ≤ limits.maxNodes.toNat := hspent.1
      have hbytes : state.bytes ≤ limits.maxBytes.toNat := hspent.2
      show state.nodes = limits.maxNodes.toNat ↔ ¬ (state.nodes + 1 ≤ limits.maxNodes.toNat ∧
        state.bytes + 0 ≤ limits.maxBytes.toNat)
      omega
    · have hnodes : state.nodes ≤ limits.maxNodes.toNat := hspent.1
      rw [visit_eq (show state.nodes < sizeMax by omega)]
      exact ⟨⟨hinv.1, hinv.2.1, Nat.add_le_add_right hinv.2.2 1⟩, rfl⟩
    · exact ⟨hinv.1, hinv.2.1, (Nat.le_succ _).trans hinv.2.2⟩

end Node

structure Accepted (mem : Memory) (limits : Limits) (values : Nat) (count : UInt64)
    (trees : List Tree) : Prop where
  unfolds : List.Forall₂ (Unfolds mem) trees (slots values viewSize count)
  wellFormed : ∀ t ∈ trees, t.WellFormed
  depth : ∀ t ∈ trees, t.depth ≤ limits.maxDepth.toNat
  nodes : Tree.nodesAll trees ≤ limits.maxNodes.toNat
  bytes : Tree.bytesAll trees ≤ limits.maxBytes.toNat

theorem forall₂_due {trees : List Tree} {as : List Nat} :
    List.Forall₂ (fun t a => Due mem limits [] 1 a t) trees as ↔ List.Forall₂ (Unfolds mem) trees as ∧
        ∀ t ∈ trees, t.WellFormed ∧ t.depth ≤ limits.maxDepth.toNat := by
  rw [and_comm, ← List.forall₂_and_left]
  constructor
  · intro h
    refine h.imp fun t a ht => ⟨⟨ht.1.wellFormed, ?_⟩, ht.1.unfolds⟩
    have := ht.1.depth
    omega
  · intro h
    refine h.imp fun t a ht => ⟨⟨ht.2, ht.1.1, ?_⟩, fun b hb => absurd hb (by simp)⟩
    have := ht.1.2
    omega

theorem accepted_iff {values : Nat} {count : UInt64} {trees : List Tree} :
    Accepted mem limits values count trees ↔
      List.Forall₂ (fun t a => Due mem limits [] 1 a t) trees (slots values viewSize count) ∧
        (Tree.nodesAll trees, Tree.bytesAll trees) ≤ (limits.maxNodes.toNat, limits.maxBytes.toNat) := by
  rw [forall₂_due]
  constructor
  · intro h
    exact ⟨⟨h.unfolds, fun t ht => ⟨h.wellFormed t ht, h.depth t ht⟩⟩, h.nodes, h.bytes⟩
  · intro ⟨⟨hunf, hall⟩, hle⟩
    exact ⟨hunf, fun t ht => (hall t ht).1, fun t ht => (hall t ht).2, hle.1, hle.2⟩

theorem not_accepted_null {count : UInt64} (hcount : count ≠ 0) (trees : List Tree) :
    ¬ Accepted mem limits 0 count trees := by
  intro h
  obtain ⟨n, hn⟩ := Nat.exists_eq_succ_of_ne_zero (toNat_pos hcount).ne'
  have hslots : slots 0 viewSize count = 0 :: (List.range n).map fun i => 0 + viewSize * (i + 1) := by
    unfold slots
    rw [hn, List.range_succ_eq_map]
    simp [Function.comp_def]
  have hunf := h.unfolds
  rw [hslots] at hunf
  cases hunf with
  | @cons t _ _ _ ht =>
    cases t with
    | leaf | array | record => exact ht.1 rfl

theorem validateValueViews_exact (lib : Library) (hlib : lib.Lawful) (mem : Memory) (limits : Limits)
    (hdepth : limits.maxDepth ≠ 0) (hnodes : limits.maxNodes ≠ 0) (hbytes : limits.maxBytes ≠ 0)
    (values : Nat) (count : UInt64) (fuel : Nat) (hfuel : limits.maxDepth.toNat < fuel) :
    ∃ status state, validateValueViews lib mem limits fuel values count = some (status, state) ∧
      (∀ last ∈ state, last.wrapped = false) ∧
      (status = .ok ↔ ∃ trees, Accepted mem limits values count trees) := by
  by_cases hnull : values = 0 ∧ count ≠ 0
  · refine ⟨.invalidArgument, none, by simp [validateValueViews, hnull], by simp, by simp, ?_⟩
    intro ⟨trees, h⟩
    rw [hnull.1] at h
    exact absurd h (not_accepted_null hnull.2 trees)
  obtain ⟨holds, hsets⟩ := hlib.pointers lib.hashBytes (· == ·)
    ⟨fun a => beq_self_eq_true a, fun h => by rwa [beq_iff_eq, eq_comm, ← beq_iff_eq],
      fun h h' => by rwa [eq_of_beq h]⟩ (fun a b h => by rw [eq_of_beq h])
  obtain ⟨active, hinit, hempty⟩ := hsets.init _ (toNat_pos hnodes)
  have hnode : ∀ a, (meter lib limits holds [] 0).Checks _ _ (validateNode lib mem limits fuel 1 a) :=
    fun a => validateNode_checks hlib hsets
      (show limits.maxDepth.toNat + 1 < 1 + fuel by omega) (by omega) a []
  have hchecks : (meter lib limits holds [] 0).Checks _ _
      (eachOf .ok (validateNode lib mem limits fuel 1) (slots values viewSize count)) :=
    Meter.Checks.each (fun a _ => hnode a) fun a _ => single_cost 1 a
  obtain ⟨status, last, hrun, hinv, hle, hok, hfits⟩ := hchecks { active := active }
    ⟨hempty, rfl, Nat.le_refl 0⟩ ⟨Nat.zero_le _, Nat.zero_le _⟩
  have hrun' : eachOf .ok (validateNode lib mem limits fuel 1) (slots values viewSize count)
    { active := active } = some (status, last) := hrun
  refine ⟨status, some last, ?_, ?_, ?_, ?_⟩
  · unfold validateValueViews
    rw [if_neg (by simpa [hdepth, hnodes, hbytes] using hnull), hinit]
    simp [hrun']
  · intro s hs
    cases hs
    exact hinv.2.1
  · intro hstatus
    obtain ⟨c, hc, hspent⟩ := hok hstatus
    obtain ⟨trees, htrees, rfl⟩ := mem_sum_costs.mp hc
    rw [hspent] at hle
    refine ⟨trees, accepted_iff.mpr ⟨htrees.imp fun t a ht => ⟨ht, fun b hb => absurd hb (by simp)⟩, ?_⟩⟩
    exact le_of_eq_of_le (Prod.ext (Nat.zero_add _).symm (Nat.zero_add _).symm) hle
  · intro ⟨trees, h⟩
    obtain ⟨hdue, hwithin⟩ := accepted_iff.mp h
    apply hfits _ (mem_sum_costs.mpr ⟨trees, hdue, rfl⟩)
    exact le_of_eq_of_le (Prod.ext (Nat.zero_add _) (Nat.zero_add _)) hwithin

/-- **The validation is exact.** With limits that are not zero it ends, no operation on `size_t`
    wraps, and it accepts the arguments exactly when they unfold to well formed trees that are
    within the limits. -/
theorem value_validation (lib : Library) (hlib : lib.Lawful) (mem : Memory) (limits : Limits)
    (hdepth : limits.maxDepth ≠ 0) (hnodes : limits.maxNodes ≠ 0) (hbytes : limits.maxBytes ≠ 0)
    (values : Nat) (count : UInt64) (fuel : Nat) (hfuel : limits.maxDepth.toNat < fuel) :
    ∃ status state, validateValueViews lib mem limits fuel values count = some (status, state) ∧
      (∀ last ∈ state, last.wrapped = false) ∧
      (status = .ok ↔ ∃ trees, Accepted mem limits values count trees) :=
  validateValueViews_exact lib hlib mem limits hdepth hnodes hbytes values count fuel hfuel

end Nodes

/-! Sets kept as lists. -/

def listSets (α : Type) : HashSets α where
  Carrier := (α → α → Bool) × List α × Nat
  init _ equal limit := (.ok, equal, [], limit)
  contains s x := s.2.1.any (s.1 x)
  add s x :=
    if s.2.1.length < s.2.2 then (.ok, s.1, x :: s.2.1, s.2.2) else (.capacityExceeded, s)
  remove s x := (.ok, s.1, s.2.1.eraseP (s.1 x), s.2.2)

theorem listSets_lawful (α : Type) : (listSets α).Lawful := by
  intro hash equal heq _
  refine ⟨fun s xs limit => s = (equal, xs, limit) ∧ xs.Pairwise fun a b => ¬ equal a b = true,
    fun limit _ => ⟨_, rfl, rfl, .nil⟩, ?_, ?_, ?_⟩
  · intro s xs limit x ⟨hs, _⟩
    subst hs
    exact List.any_eq_true
  · intro s xs limit x ⟨hs, hpair⟩ hnew hroom
    subst hs
    exact ⟨_, if_pos hroom, rfl, .cons hnew hpair⟩
  · intro s xs ys limit x ⟨hs, hpair⟩
    subst hs
    obtain ⟨hxs, hys, hboth⟩ := List.pairwise_append.mp hpair
    refine ⟨_, rfl, ?_, List.pairwise_append.mpr ⟨hxs, hys.of_cons, fun a ha b hb =>
      hboth a ha b (.tail x hb)⟩⟩
    have hfirst : ∀ a ∈ xs, ¬ equal x a = true := fun a ha h =>
      hboth a ha x (.head ys) (heq.symm h)
    show (equal, (xs ++ x :: ys).eraseP (equal x), limit) = (equal, xs ++ ys, limit)
    rw [List.eraseP_append_right _ hfirst, List.eraseP_cons_of_pos (heq.refl x)]

def listLibrary : Library where
  pointers := listSets Nat
  keys := listSets StringView
  hashBytes _ := 0
  utf8Valid text := text.toByteArray.validateUTF8

theorem listLibrary_lawful : listLibrary.Lawful where
  pointers := listSets_lawful Nat
  keys := listSets_lawful StringView
  utf8Valid _ := ByteArray.validateUTF8_eq_true_iff

/-- A record with the key `a`, for the value `true`. -/
def flagRecord : Memory where
  view addr := if addr = 8 then ⟨0, .record 32 1⟩ else ⟨0, .bool 1⟩
  key _ := ⟨96, 1⟩
  byte _ := 97

theorem flagRecord_valid : ∃ state,
    validateValueViews listLibrary flagRecord ⟨2, 2, 64⟩ 3 8 1 = some (.ok, state) := by
  obtain ⟨status, state, hrun, -, hok⟩ := value_validation listLibrary listLibrary_lawful flagRecord
    ⟨2, 2, 64⟩ (by decide) (by decide) (by decide) 8 1 3 (by decide)
  rw [hok.mpr ⟨[.record 0 [[97]] [.leaf 0 (.bool 1)]], ?_⟩] at hrun
  · exact ⟨state, hrun⟩
  have hutf : ValidUtf8 [97] := by
    unfold ValidUtf8
    decide
  have hkey : KeyWellFormed [97] := ⟨by decide, by decide, hutf⟩
  refine ⟨.cons ⟨by decide, 32, 1, rfl, by decide, .cons rfl .nil, ⟨by decide, rfl, rfl⟩, trivial⟩
    .nil, ?_, ?_, by decide, by decide⟩
  · intro t ht
    rw [List.mem_singleton.mp ht]
    exact ⟨rfl, by simpa using hkey, by decide, ⟨rfl, show (1 : UInt8) ≤ 1 by decide⟩, trivial⟩
  · intro t ht
    rw [List.mem_singleton.mp ht]
    decide

end TurboScript.Host.Values
