import Mathlib.Algebra.BigOperators.Group.Finset.Sigma
import Mathlib.Data.Finset.Card
import TurboScript.Exprtk.Value

/- Grouping and joining of tables (`mod_core.c`). The characters of a text stand for its bytes.

   1. The code: keys are texts of at most 127 bytes, and the accumulators are maps in a map.
   2. `Key`: what a key is, and `render`, the text that the code takes for it.
   3. `groups_lookup`: a group accumulates the rows whose key has its name.
   4. `table_by_key`: rows are grouped and joined by key exactly as far as `render` keeps the
      keys of the table apart. -/
namespace TurboScript.Exprtk.Tables
open Double

section Code
variable {D : Type} [Double D] (print : D → String)

/-- What a buffer of 128 bytes keeps of a text that is then read as a C string. -/
def cut (s : String) : Name := .ofList ((s.toList.take 127).takeWhile (· ≠ '\x00'))

/-- `table_key_from_value`; `print` is `"%.17g"`. -/
def tableKeyFromValue : Value D → Option Name
  | .string s => some (cut s)
  | v => if isNumeric v then some (print (valToDouble v)) else none

/-- `exprtk_map_has` and `exprtk_map_get`. -/
def field (row : Value D) (name : Name) : Option (Value D) := (entries? row).bind fun es => es.lookup name

inductive GroupOp
  | sum | count | mean

def GroupOp.value (op : GroupOp) (sum count : D) : D :=
  match op with
  | .count => count
  | .mean => div sum count
  | .sum => sum

def rowValue (valueField : Name) (row : Value D) : D :=
  match field row valueField with
  | some v => valToDouble v
  | none => ofInt 0

/-- The accumulator of a group, after another row. -/
def accumulate (op : GroupOp) (acc : Value D) (v : D) : Value D :=
  let es := (entries? acc).getD []
  let sum := add (valToDouble (mapGet es "sum")) v
  let count := add (valToDouble (mapGet es "count")) (ofInt 1)
  .map (mapSet (mapSet (mapSet es "sum" (.number sum)) "count" (.number count)) "value"
    (.number (op.value sum count)))

def rowName (keyField : Name) (row : Value D) : Option Name :=
  (field row keyField).bind (tableKeyFromValue print)

def groupRow (op : GroupOp) (keyField valueField : Name) (groups : List (Name × Value D))
    (row : Value D) : List (Name × Value D) :=
  match rowName print keyField row with
  | none => groups
  | some name =>
    mapSet groups name (accumulate op ((groups.lookup name).getD (.map [])) (rowValue valueField row))

/-- `fn_table_groupby`, once its arguments are checked. -/
def fnTableGroupby (op : GroupOp) (keyField valueField : String) (rows : List (Value D)) :
    List (Name × Value D) :=
  rows.foldl (groupRow print op (cut keyField) (cut valueField)) []

/-- The fields of the left row, then those of the right one but for the key. -/
def joinRow (keyField : Name) (left right : Value D) : Value D :=
  let clone := ((entries? left).getD []).foldl (fun m kv => mapSet m kv.1 kv.2) []
  let row := ((entries? right).getD []).foldl
    (fun m kv => if kv.1 ≠ keyField then mapSet m kv.1 kv.2 else m) clone
  match left with
  | .object _ => .object row
  | _ => .map row

/-- `fn_table_join`, once its arguments are checked. -/
def fnTableJoin (keyField : String) (left right : List (Value D)) : List (Value D) :=
  left.flatMap fun l => right.filterMap fun r =>
    match rowName print (cut keyField) l, rowName print (cut keyField) r with
    | some lk, some rk => if lk = rk then some (joinRow (cut keyField) l r) else none
    | _, _ => none

end Code

/-! Keys. -/

/-- The exact values of the numbers; the code works with the double it gets from them. -/
structure Exact (D N : Type) [Double D] where
  num : Value D → N
  round : N → D
  round_num : ∀ v, isNumeric v = true → valToDouble v = round (num v)

inductive Key (N : Type)
  | text (s : String)
  | number (n : N)
  deriving DecidableEq

section Keys
variable {D N : Type} [Double D] [DecidableEq N] (X : Exact D N) (print : D → String)

def Exact.key : Value D → Option (Key N)
  | .string s => some (.text s)
  | v => if isNumeric v then some (.number (X.num v)) else none

def Exact.render : Key N → Name
  | .text s => cut s
  | .number n => print (X.round n)

def Exact.rowKey (keyField : Name) (row : Value D) : Option (Key N) := (field row keyField).bind X.key

/-- The accumulator of exactly these rows. -/
def total (op : GroupOp) (valueField : Name) (rows : List (Value D)) : Value D :=
  rows.foldl (fun acc row => accumulate op acc (rowValue valueField row)) (.map [])

def Exact.keys (keyField : Name) (rows : List (Value D)) : Finset (Key N) :=
  (rows.filterMap (X.rowKey keyField)).toFinset

def Exact.members (keyField : Name) (rows : List (Value D)) (k : Key N) : List (Value D) :=
  rows.filter fun row => X.rowKey keyField row = some k

/-- One group for every key, under its text, with the rows that have it; together they are the rows
that have a key. -/
def Exact.GroupsByKey (op : GroupOp) (keyField valueField : Name) (rows : List (Value D))
    (groups : List (Name × Value D)) : Prop :=
  (∀ k ∈ X.keys keyField rows,
    groups.lookup (X.render print k) = some (total op valueField (X.members keyField rows k))) ∧
  groups.length = (X.keys keyField rows).card ∧
  ∑ k ∈ X.keys keyField rows, (X.members keyField rows k).length =
    (rows.filterMap (X.rowKey keyField)).length

/-- The pairs with equal keys, in order. -/
def Exact.joined (keyField : Name) (left right : List (Value D)) : List (Value D) :=
  left.flatMap fun l => right.filterMap fun r =>
    match X.rowKey keyField l, X.rowKey keyField r with
    | some lk, some rk => if lk = rk then some (joinRow keyField l r) else none
    | _, _ => none

omit [DecidableEq N] in
theorem rowName_eq (keyField : Name) (row : Value D) :
    rowName print keyField row = (X.rowKey keyField row).map (X.render print) := by
  have hkey : ∀ v : Value D, tableKeyFromValue print v = (X.key v).map (X.render print) := by
    intro v
    unfold tableKeyFromValue Exact.key
    split
    · rfl
    · split
      · rename_i hnum
        simp [Exact.render, X.round_num v hnum]
      · rfl
  unfold rowName Exact.rowKey
  cases field row keyField with
  | none => rfl
  | some v => exact hkey v

end Keys

/-! Maps. -/

section Maps
variable {D : Type} {n : Name}

theorem lookup_cons (e : Name × Value D) (es : List (Name × Value D)) :
    (e :: es).lookup n = if n = e.1 then some e.2 else es.lookup n := by
  obtain ⟨k, v⟩ := e
  by_cases hn : n = k
  · simp [hn]
  · have hb : (n == k) = false := by simpa using hn
    simp [List.lookup_cons, hn, hb]

theorem lookup_mapSet (es : List (Name × Value D)) (key : Name) (v : Value D) :
    (mapSet es key v).lookup n = if n = key then some v else es.lookup n := by
  induction es with
  | nil => exact lookup_cons ..
  | cons e es ih =>
    unfold mapSet
    by_cases he : e.1 = key
    · rw [if_pos he, lookup_cons, lookup_cons, he]
      split <;> rfl
    · rw [if_neg he, lookup_cons, lookup_cons, ih]
      by_cases hn : n = e.1 <;> simp [hn, he]

theorem names_mapSet (es : List (Name × Value D)) (key : Name) (v : Value D) :
    (mapSet es key v).map Prod.fst =
      if key ∈ es.map Prod.fst then es.map Prod.fst else es.map Prod.fst ++ [key] := by
  induction es with
  | nil => simp [mapSet]
  | cons e es ih =>
    unfold mapSet
    by_cases he : e.1 = key
    · simp [he]
    · rw [if_neg he, List.map_cons, ih]
      by_cases hmem : key ∈ es.map Prod.fst <;> simp_all [Ne.symm he]

theorem lookup_foldl_mapSet (p : Name → Prop) [DecidablePred p] {es : List (Name × Value D)}
    (hes : (es.map Prod.fst).Nodup) (m : List (Name × Value D)) :
    (es.foldl (fun m kv => if p kv.1 then mapSet m kv.1 kv.2 else m) m).lookup n =
      if p n then (es.lookup n).or (m.lookup n) else m.lookup n := by
  induction es generalizing m with
  | nil => simp
  | cons e es ih =>
    rw [List.map_cons, List.nodup_cons] at hes
    rw [List.foldl_cons, ih hes.2]
    by_cases hn : n = e.1
    · have hnone : es.lookup e.1 = none := by
        rw [List.lookup_eq_none_iff]
        intro e' he'
        simpa using fun heq : e.1 = e'.1 => hes.1 (heq ▸ List.mem_map_of_mem he')
      subst hn
      by_cases hp : p e.1 <;> simp [hp, hnone, lookup_mapSet, lookup_cons]
    · by_cases hp : p e.1 <;> simp [hp, hn, lookup_mapSet, lookup_cons]

/-- The names of a map are distinct. -/
def Distinct (row : Value D) : Prop := (((entries? row).getD []).map Prod.fst).Nodup

theorem field_joinRow {keyField : Name} {left right : Value D} (hl : Distinct left) (hr : Distinct right) (n : Name) :
    field (joinRow keyField left right) n =
      if n = keyField then field left n else (field right n).or (field left n) := by
  have hfield : ∀ row : Value D, field row n = ((entries? row).getD []).lookup n := by
    intro row
    unfold field
    cases entries? row <;> rfl
  have hclone := lookup_foldl_mapSet (n := n) (fun _ => True) hl []
  have hjoin := lookup_foldl_mapSet (n := n) (· ≠ keyField) hr
  simp only [if_true, List.lookup_nil, Option.or_none] at hclone
  have hrow : field (joinRow keyField left right) n = (((entries? right).getD []).foldl
      (fun m kv => if kv.1 ≠ keyField then mapSet m kv.1 kv.2 else m)
      (((entries? left).getD []).foldl (fun m kv => mapSet m kv.1 kv.2) [])).lookup n := by
    cases left <;> rfl
  rw [hrow, hjoin, hclone, hfield, hfield]
  by_cases hn : n = keyField <;> simp [hn]
end Maps

/-! Groups. -/

section Groups
variable {D : Type} [Double D] {print : D → String} {op : GroupOp} {keyField valueField : Name}

theorem groups_lookup (rows : List (Value D)) (groups : List (Name × Value D)) (n : Name) :
    (rows.foldl (groupRow print op keyField valueField) groups).lookup n =
      let ms := rows.filter fun row => rowName print keyField row = some n
      if ms = [] then groups.lookup n
      else some (ms.foldl (fun acc row => accumulate op acc (rowValue valueField row))
        ((groups.lookup n).getD (.map []))) := by
  induction rows generalizing groups with
  | nil => rfl
  | cons row rows ih =>
    rw [List.foldl_cons, ih]
    cases hname : rowName print keyField row with
    | none => simp [groupRow, hname]
    | some name =>
      by_cases hn : n = name
      · subst hn
        simp only [groupRow, hname, lookup_mapSet, if_true, Option.getD_some, decide_true,
          List.filter_cons_of_pos, List.cons_ne_nil, if_false, List.foldl_cons]
        split
        · rename_i hnil
          rw [hnil, List.foldl_nil]
        · rfl
      · have hne : ¬ name = n := fun h => hn h.symm
        simp [groupRow, hname, lookup_mapSet, hn, hne]

theorem groups_names (rows : List (Value D)) (groups : List (Name × Value D))
    (hg : (groups.map Prod.fst).Nodup) :
    let names := (rows.foldl (groupRow print op keyField valueField) groups).map Prod.fst
    names.Nodup ∧ names.toFinset = (groups.map Prod.fst).toFinset ∪ (rows.filterMap (rowName print keyField)).toFinset := by
  induction rows generalizing groups with
  | nil => exact ⟨hg, by simp⟩
  | cons row rows ih =>
    rw [List.foldl_cons]
    cases hname : rowName print keyField row with
    | none => simpa [groupRow, hname] using ih groups hg
    | some name =>
      have hset : ((groupRow print op keyField valueField groups row).map Prod.fst).Nodup ∧
          ((groupRow print op keyField valueField groups row).map Prod.fst).toFinset =
            insert name (groups.map Prod.fst).toFinset := by
        simp only [groupRow, hname, names_mapSet]
        split
        · rename_i hmem
          exact ⟨hg, (Finset.insert_eq_self.2 (List.mem_toFinset.2 hmem)).symm⟩
        · rename_i hmem
          rw [← List.concat_eq_append]
          exact ⟨hg.concat hmem, by ext; simp⟩
      refine ⟨(ih _ hset.1).1, (ih _ hset.1).2.trans ?_⟩
      rw [hset.2, List.filterMap_cons_some hname]
      ext
      simp
end Groups

section Join
variable {α β γ : Type}

theorem flatMap_filterMap (f : α → β → Option γ) (l : List α) (r : List β) :
    (l.flatMap fun a => r.filterMap (f a)) = (l.product r).filterMap fun p => f p.1 p.2 := by
  simp [List.product, List.filterMap_flatMap, List.filterMap_map]

theorem keeps_same {p q : α → Bool} {l : List α} (hqp : ∀ x, q x → p x) (h : l.countP p = l.countP q) :
    ∀ x ∈ l, p x → q x := by
  have hsub : (l.filter q).Sublist (l.filter p) := List.monotone_filter_right l hqp
  have heq : l.filter q = l.filter p := by
    apply hsub.eq_of_length
    rw [← List.countP_eq_length_filter, ← List.countP_eq_length_filter, h]
  intro x hx hp
  have hmem : x ∈ l.filter q := heq ▸ List.mem_filter.2 ⟨hx, hp⟩
  exact (List.mem_filter.1 hmem).2
end Join

section ByKey
variable {D N : Type} [Double D] [DecidableEq N] (X : Exact D N) (print : D → String) (op : GroupOp)
  {keyField valueField : String}

theorem mem_keys {rows : List (Value D)} {k : Key N} :
    k ∈ X.keys keyField rows ↔ ∃ row ∈ rows, X.rowKey keyField row = some k := by
  simp [Exact.keys]

theorem groupby_by_key (hkey : cut keyField = keyField) (hval : cut valueField = valueField)
    (rows : List (Value D)) :
    X.GroupsByKey print op keyField valueField rows (fnTableGroupby print op keyField valueField rows) ↔
      Set.InjOn (X.render print) (X.keys keyField rows) := by
  unfold fnTableGroupby
  rw [hkey, hval]
  have hlength : (rows.foldl (groupRow print op keyField valueField) []).length =
      ((X.keys keyField rows).image (X.render print)).card := by
    obtain ⟨hnodup, hset⟩ := @groups_names D _ print op keyField valueField rows [] List.nodup_nil
    rw [← List.length_map, ← List.toFinset_card_of_nodup hnodup, hset]
    congr 1
    ext n
    simp only [rowName_eq X, Exact.keys, List.map_nil, List.toFinset_nil, Finset.empty_union,
      List.mem_toFinset, List.mem_filterMap, Option.map_eq_some_iff, Finset.mem_image]
    grind
  constructor
  · rintro ⟨-, hcard, -⟩
    exact Finset.card_image_iff.1 (hlength.symm.trans hcard)
  · intro hinj
    refine ⟨fun k hk => ?_, hlength.trans (Finset.card_image_of_injOn hinj), ?_⟩
    · have hmembers : (rows.filter fun row => rowName print keyField row = some (X.render print k)) =
          X.members keyField rows k := by
        apply List.filter_congr
        intro row hrow
        rw [rowName_eq X]
        cases hr : X.rowKey keyField row with
        | none => simp
        | some k' =>
          have hk' : k' ∈ X.keys keyField rows := (mem_keys X).2 ⟨row, hrow, hr⟩
          simpa using ⟨fun h => hinj hk' hk h, fun h => h ▸ rfl⟩
      obtain ⟨row, hrow, hr⟩ := (mem_keys X).1 hk
      have hne : X.members keyField rows k ≠ [] :=
        List.ne_nil_of_mem (List.mem_filter.2 ⟨hrow, decide_eq_true hr⟩)
      rw [groups_lookup, hmembers, if_neg hne]
      rfl
    · calc ∑ k ∈ X.keys keyField rows, (X.members keyField rows k).length
          = ∑ k ∈ X.keys keyField rows, (rows.filterMap (X.rowKey keyField)).count k := by
            apply Finset.sum_congr rfl
            intro k _
            rw [Exact.members, ← List.countP_eq_length_filter, List.count, List.countP_filterMap]
            congr 1
            funext row
            cases X.rowKey keyField row with
            | none => rfl
            | some k' => simp [beq_eq_decide]
        _ = _ := List.sum_toFinset_count_eq_length _

theorem join_by_key (hkey : cut keyField = keyField) (left right : List (Value D)) :
    fnTableJoin print keyField left right = X.joined keyField left right ↔
      ∀ kl ∈ X.keys keyField left, ∀ kr ∈ X.keys keyField right,
        X.render print kl = X.render print kr → kl = kr := by
  unfold fnTableJoin Exact.joined
  simp only [hkey, rowName_eq X, flatMap_filterMap]
  constructor
  · intro h kl hl kr hr heq
    obtain ⟨l, hlmem, hl⟩ := (mem_keys X).1 hl
    obtain ⟨r, hrmem, hr⟩ := (mem_keys X).1 hr
    have hlength := congrArg List.length h
    rw [List.length_filterMap_eq_countP, List.length_filterMap_eq_countP] at hlength
    have hsame := keeps_same (fun p => ?_) hlength (l, r) (List.pair_mem_product.2 ⟨hlmem, hrmem⟩)
    · simpa [hl, hr, heq] using hsame
    · cases X.rowKey keyField p.1 <;> cases X.rowKey keyField p.2 <;> simp
      rintro rfl
      simp
  · intro h
    apply List.filterMap_congr
    rintro ⟨l, r⟩ hp
    obtain ⟨hlmem, hrmem⟩ := List.pair_mem_product.1 hp
    cases hl : X.rowKey keyField l with
    | none => rfl
    | some kl =>
      cases hr : X.rowKey keyField r with
      | none => rfl
      | some kr =>
        have hiff : X.render print kl = X.render print kr ↔ kl = kr :=
          ⟨h kl ((mem_keys X).2 ⟨l, hlmem, hl⟩) kr ((mem_keys X).2 ⟨r, hrmem, hr⟩), congrArg _⟩
        simp [hiff]

end ByKey

def rational : Exact ℚ ℚ := ⟨valToDouble, id, fun _ _ => rfl⟩

/-- The number 1 and its text. -/
def mixed : List (Value ℚ) := [.map [("k", .number 1)], .map [("k", .string (.ofList ['1']))]]

end TurboScript.Exprtk.Tables
