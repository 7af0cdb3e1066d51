import Mathlib.Data.List.Forall2
import TurboScript.Host.Limits

/- Value views, and the values that they show (`turbo_script_value_view_t`).

   1. Views lie in memory. A view of an array or of a record points to further views, which may
      be shared, and may be the view itself.
   2. A value is a finite tree. `Unfolds mem tree addr` says that the view at an address unfolds
      to a tree. Where the views are cyclic, or where NULL stands for something, they do not.
   3. What the trees of the host boundary have to be: `Tree.WellFormed`, and their depth, nodes
      and bytes. -/
namespace TurboScript.Host.Values

/-! Views. -/

def sizeMax : Nat := 2 ^ 64 - 1

/-- `turbo_script_string_view_t`. The address 0 is NULL. -/
structure StringView where
  data : Nat
  size : UInt64
  deriving DecidableEq, Repr

/-- The kind of a view, with the member of the union that belongs to it; `other` is any kind
    outside the enumeration. The bits of a double stand for it. -/
inductive Content
  | null
  | bool (boolean : UInt8)
  | int64 (integer : Int64)
  | number (bits : UInt64)
  | string (string : StringView)
  | array (items : Nat) (count : UInt64)
  | record (entries : Nat) (count : UInt64)
  | other (kind : UInt32)
  deriving DecidableEq, Repr

/-- `turbo_script_value_view_t`. -/
structure ValueView where
  reserved : UInt32
  content : Content
  deriving DecidableEq, Repr

/-- What is read at an address: a value view, the key of a record entry, a byte. -/
structure Memory where
  view : Nat → ValueView
  key : Nat → StringView
  byte : Nat → UInt8

def Memory.bytes (mem : Memory) (s : StringView) : List UInt8 :=
  (List.range s.size.toNat).map fun i => mem.byte (s.data + i)

/-- `sizeof(turbo_script_value_view_t)`. -/
def viewSize : Nat := 24

/-- `sizeof(turbo_script_record_entry_view_t)`. -/
def entrySize : Nat := 40

/-- `offsetof(turbo_script_record_entry_view_t, value)`. -/
def valueOffset : Nat := 16

/-- The addresses of `count` elements. -/
def slots (first size : Nat) (count : UInt64) : List Nat :=
  (List.range count.toNat).map fun i => first + size * i

@[simp] theorem length_slots (first size : Nat) (count : UInt64) :
    (slots first size count).length = count.toNat := by
  simp [slots]

@[simp] theorem length_bytes (mem : Memory) (s : StringView) : (mem.bytes s).length = s.size.toNat := by
  simp [Memory.bytes]

/-! Values. -/

inductive Scalar
  | null
  | bool (boolean : UInt8)
  | int64 (integer : Int64)
  | number (bits : UInt64)
  | string (bytes : List UInt8)
  deriving DecidableEq, Repr

/-- What views show, with their reserved fields. The values of a record stand in the order of its
    keys. -/
inductive Tree
  | leaf (reserved : UInt32) (value : Scalar)
  | array (reserved : UInt32) (items : List Tree)
  | record (reserved : UInt32) (keys : List (List UInt8)) (values : List Tree)

@[elab_as_elim] theorem Tree.parts {motive : Tree → Prop}
    (leaf : ∀ reserved value, motive (.leaf reserved value))
    (array : ∀ reserved items, (∀ t ∈ items, motive t) → motive (.array reserved items))
    (record : ∀ reserved keys values, (∀ t ∈ values, motive t) →
      motive (.record reserved keys values)) (tree : Tree) : motive tree := by
  refine Tree.rec (motive_1 := motive) (motive_2 := fun ts => ∀ t ∈ ts, motive t) leaf array record
    ?_ ?_ tree
  · intro t ht
    cases ht
  · intro t ts ht hts u hu
    cases hu with
    | head => exact ht
    | tail _ hu => exact hts u hu

/-- `size` bytes from an address that is not NULL. -/
def Memory.text (mem : Memory) (s : StringView) : Option (List UInt8) :=
  if s.data = 0 ∧ s.size ≠ 0 then none else some (mem.bytes s)

def Memory.scalar (mem : Memory) : Content → Option Scalar
  | .null => some .null
  | .bool boolean => some (.bool boolean)
  | .int64 integer => some (.int64 integer)
  | .number bits => some (.number bits)
  | .string s => (mem.text s).map .string
  | _ => none

mutual
def Unfolds (mem : Memory) : Tree → Nat → Prop
  | .leaf reserved value, addr => addr ≠ 0 ∧ (mem.view addr).reserved = reserved ∧
    mem.scalar (mem.view addr).content = some value
  | .array reserved items, addr => addr ≠ 0 ∧ ∃ first count,
    mem.view addr = ⟨reserved, .array first count⟩ ∧ (first = 0 → count = 0) ∧
    UnfoldsAll mem items (slots first viewSize count)
  | .record reserved keys values, addr => addr ≠ 0 ∧ ∃ first count,
    mem.view addr = ⟨reserved, .record first count⟩ ∧ (first = 0 → count = 0) ∧
    List.Forall₂ (fun key e => mem.text (mem.key e) = some key) keys (slots first entrySize count) ∧
    UnfoldsAll mem values ((slots first entrySize count).map (· + valueOffset))

def UnfoldsAll (mem : Memory) : List Tree → List Nat → Prop
  | [], [] => True
  | t :: ts, a :: as => Unfolds mem t a ∧ UnfoldsAll mem ts as
  | _, _ => False
end

mutual
def Tree.depth : Tree → Nat
  | .leaf .. => 1
  | .array _ items => 1 + Tree.depthAll items
  | .record _ _ values => 1 + Tree.depthAll values

def Tree.depthAll : List Tree → Nat
  | [] => 0
  | t :: ts => max t.depth (Tree.depthAll ts)
end

mutual
def Tree.nodes : Tree → Nat
  | .leaf .. => 1
  | .array _ items => 1 + Tree.nodesAll items
  | .record _ _ values => 1 + Tree.nodesAll values

def Tree.nodesAll : List Tree → Nat
  | [] => 0
  | t :: ts => t.nodes + Tree.nodesAll ts
end

def textBytes (text : List UInt8) : Nat := text.length + 1

def Scalar.bytes : Scalar → Nat
  | .string text => textBytes text
  | _ => 0

mutual
def Tree.bytes : Tree → Nat
  | .leaf _ value => value.bytes
  | .array _ items => viewSize * items.length + Tree.bytesAll items
  | .record _ keys values =>
    entrySize * keys.length + (keys.map textBytes).sum + Tree.bytesAll values

def Tree.bytesAll : List Tree → Nat
  | [] => 0
  | t :: ts => t.bytes + Tree.bytesAll ts
end

def ValidUtf8 (text : List UInt8) : Prop := text.toByteArray.IsValidUTF8

def Scalar.WellFormed : Scalar → Prop
  | .bool boolean => boolean ≤ 1
  | .string text => ValidUtf8 text
  | _ => True

structure KeyWellFormed (key : List UInt8) : Prop where
  nonempty : key ≠ []
  noNul : 0 ∉ key
  utf8 : ValidUtf8 key

mutual
def Tree.WellFormed : Tree → Prop
  | .leaf reserved value => reserved = 0 ∧ value.WellFormed
  | .array reserved items => reserved = 0 ∧ Tree.WellFormedAll items
  | .record reserved keys values => reserved = 0 ∧ (∀ key ∈ keys, KeyWellFormed key) ∧
    keys.Nodup ∧ Tree.WellFormedAll values

def Tree.WellFormedAll : List Tree → Prop
  | [] => True
  | t :: ts => t.WellFormed ∧ Tree.WellFormedAll ts
end

section Lists
variable {mem : Memory} {ts : List Tree}

theorem unfoldsAll_iff {as : List Nat} : UnfoldsAll mem ts as ↔ List.Forall₂ (Unfolds mem) ts as := by
  induction ts generalizing as with
  | nil => cases as <;> simp [UnfoldsAll]
  | cons t ts ih => cases as <;> simp [UnfoldsAll, ih]

theorem wellFormedAll_iff : Tree.WellFormedAll ts ↔ ∀ t ∈ ts, t.WellFormed := by
  induction ts with
  | nil => simp [Tree.WellFormedAll]
  | cons t ts ih => simp [Tree.WellFormedAll, ih]

theorem depthAll_le {n : Nat} : Tree.depthAll ts ≤ n ↔ ∀ t ∈ ts, t.depth ≤ n := by
  induction ts with
  | nil => simp [Tree.depthAll]
  | cons t ts ih => simp [Tree.depthAll, ih]

theorem nodes_le_nodesAll {t : Tree} (ht : t ∈ ts) : t.nodes ≤ Tree.nodesAll ts := by
  induction ts with
  | nil => cases ht
  | cons u ts ih =>
    rw [Tree.nodesAll]
    cases ht with
    | head => omega
    | tail _ ht => exact (ih ht).trans (Nat.le_add_left ..)

theorem nodes_pos (t : Tree) : 0 < t.nodes := by
  cases t <;> simp only [Tree.nodes] <;> omega

theorem length_le_nodesAll : ts.length ≤ Tree.nodesAll ts := by
  induction ts with
  | nil => simp [Tree.nodesAll]
  | cons t ts ih =>
    have := nodes_pos t
    rw [Tree.nodesAll, List.length_cons]
    omega

end Lists

theorem forall₂_unique {α β : Type} {R : α → β → Prop} {as as' : List α} {bs : List β}
    (h : ∀ a ∈ as, ∀ a' b, R a b → R a' b → a = a') (has : List.Forall₂ R as bs)
    (has' : List.Forall₂ R as' bs) : as = as' := by
  induction has generalizing as' with
  | nil => cases has'; rfl
  | cons ha _ ih =>
    cases has' with
    | cons ha' hrest => rw [h _ (.head _) _ _ ha ha', ih (fun a ha => h a (.tail _ ha)) hrest]

theorem Unfolds.unique {mem : Memory} {t u : Tree} {addr : Nat} (ht : Unfolds mem t addr)
    (hu : Unfolds mem u addr) : t = u := by
  induction t using Tree.parts generalizing u addr with
  | leaf reserved value =>
    obtain ⟨-, hr, hv⟩ := ht
    cases u with
    | leaf =>
      obtain ⟨-, hr', hv'⟩ := hu
      rw [← hr, ← hr', Option.some.inj (hv.symm.trans hv')]
    | array | record =>
      obtain ⟨-, first, count, hview, -⟩ := hu
      simp [hview, Memory.scalar] at hv
  | array reserved items ih =>
    obtain ⟨-, first, count, hview, -, hitems⟩ := ht
    cases u with
    | leaf =>
      obtain ⟨-, -, hv⟩ := hu
      simp [hview, Memory.scalar] at hv
    | array =>
      obtain ⟨-, first', count', hview', -, hitems'⟩ := hu
      cases hview.symm.trans hview'
      have h := forall₂_unique (R := Unfolds mem) (fun t ht _ _ h h' => ih t ht h h')
        (unfoldsAll_iff.mp hitems) (unfoldsAll_iff.mp hitems')
      rw [h]
    | record =>
      obtain ⟨-, first', count', hview', -⟩ := hu
      cases hview.symm.trans hview'
  | record reserved keys values ih =>
    obtain ⟨-, first, count, hview, -, hkeys, hvalues⟩ := ht
    cases u with
    | leaf =>
      obtain ⟨-, -, hv⟩ := hu
      simp [hview, Memory.scalar] at hv
    | array =>
      obtain ⟨-, first', count', hview', -⟩ := hu
      cases hview.symm.trans hview'
    | record =>
      obtain ⟨-, first', count', hview', -, hkeys', hvalues'⟩ := hu
      cases hview.symm.trans hview'
      have h := forall₂_unique (R := Unfolds mem) (fun t ht _ _ h h' => ih t ht h h')
        (unfoldsAll_iff.mp hvalues) (unfoldsAll_iff.mp hvalues')
      have h' := forall₂_unique (fun key _ key' e hk hk' => Option.some.inj (hk.symm.trans hk'))
        hkeys hkeys'
      rw [h, h']

end TurboScript.Host.Values
