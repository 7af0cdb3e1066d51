import TurboScript.Stream.Split

/- The two passes and the two kinds of streams split alike.

   Every loop over the pieces of a text makes the same cuts (`pieceCuts`, `lineCuts`): one
   counts them, one writes them into its table, one appends their bytes. The cuts are then
   compared once with what splitting is (`SplitInto`, `List.splitOn`). -/
namespace TurboScript.Stream
open Lib

/-! The search. -/

section Search
variable {text sep : Text} {cursor : Nat}

theorem separatorAt_iff {bytes pattern : List UInt8} {i : Nat} :
    separatorAt bytes pattern i = true ↔ pattern <+: bytes.drop i := by
  rw [separatorAt, decide_eq_true_iff, List.prefix_iff_eq_take]
  exact eq_comm

theorem Text.len_lt (text : Text) : text.len < 2 ^ 63 := text.fits

theorem sum_fits {j : Nat} (hj : j ≤ text.len) : (j + sep.len) % 2 ^ 64 = j + sep.len := by
  have htext := text.len_lt
  have hfits := sep.len_lt
  exact Nat.mod_eq_of_lt (by omega)

theorem streamFind_eq (hsep : 0 < sep.len) (hc : cursor ≤ text.len) :
    streamFind text sep cursor = cflowFind text sep cursor := by
  rw [streamFind, cflowFind]
  congr 1
  apply firstFrom_congr (n := text.len)
  · intro j hj
    rw [Bool.eq_iff_iff]
    simp only [Bool.and_eq_true, decide_eq_true_iff, sum_fits hj]
    omega
  · intro j hj hguard
    simp only [decide_eq_true_iff, sum_fits hj] at hguard
    omega
  · exact hc

theorem cflowFind_cases (hsep : 0 < sep.len) (hc : cursor ≤ text.len) :
    (cflowFind text sep cursor = sizeMax ∧ ¬ sep.bytes <:+: text.bytes.drop cursor) ∨
    (cflowFind text sep cursor ≠ sizeMax ∧ cursor ≤ cflowFind text sep cursor ∧
      cflowFind text sep cursor + sep.len ≤ text.len ∧
      sep.bytes <+: text.bytes.drop (cflowFind text sep cursor) ∧
      ∀ j, cursor ≤ j → j < cflowFind text sep cursor → ¬ sep.bytes <+: text.bytes.drop j) := by
  have htext := text.len_lt
  rw [cflowFind]
  cases h : firstFrom (fun i => decide (i ≤ text.len) && decide (sep.len ≤ text.len - i))
      (separatorAt text.bytes sep.bytes) (text.len + 1) cursor with
  | none =>
    left
    refine ⟨rfl, ?_⟩
    rintro ⟨a, b, hab⟩
    have hlen : a.length + sep.len + b.length = text.len - cursor := by
      have hlen := congrArg List.length hab
      rwa [List.length_append, List.length_append, List.length_drop] at hlen
    have hguard : ∀ j, cursor ≤ j → j < text.len + 1 - sep.len →
        (decide (j ≤ text.len) && decide (sep.len ≤ text.len - j)) = true := by
      intro j hj hlt
      simp only [Bool.and_eq_true, decide_eq_true_iff]
      omega
    have hmiss := firstFrom_none h hguard (by omega) (cursor + a.length) (by omega) (by omega)
    have hhit : separatorAt text.bytes sep.bytes (cursor + a.length) = true := by
      rw [separatorAt_iff, ← List.drop_drop, ← hab, List.append_assoc, List.drop_left]
      exact List.prefix_append _ _
    rw [hhit] at hmiss
    cases hmiss
  | some k =>
    right
    obtain ⟨hle, hguard, hhit, hbefore⟩ := firstFrom_some h
    simp only [Bool.and_eq_true, decide_eq_true_iff] at hguard
    rw [Option.getD_some]
    refine ⟨by simp only [sizeMax]; omega, hle, by omega, separatorAt_iff.1 hhit, ?_⟩
    intro j hj hlt hpre
    have hmiss := hbefore j hj hlt
    rw [separatorAt_iff.2 hpre] at hmiss
    cases hmiss

end Search

/-! The cuts at a separator. -/

/-- The slices that the search loop cuts from a position on. -/
def pieceCuts (text sep : Text) : Nat → Nat → List Slice
  | 0, _ => []
  | fuel + 1, cursor =>
    if cursor ≤ text.len then
      if cflowFind text sep cursor = sizeMax then [⟨some cursor, text.len - cursor⟩]
      else
        ⟨some cursor, cflowFind text sep cursor - cursor⟩ ::
          pieceCuts text sep fuel (cflowFind text sep cursor + sep.len)
    else []

section Pieces
variable {mem : Memory} {text sep : Text} {fuel cursor : Nat}

theorem sliceBytes_whole {bytes : List UInt8} :
    sliceBytes bytes ⟨some cursor, bytes.length - cursor⟩ = bytes.drop cursor := by
  simp only [sliceBytes, Option.getD_some]
  apply List.take_of_length_le
  simp

theorem pieceCuts_split (hsep : 0 < sep.len) (hc : cursor ≤ text.len) (hfuel : text.len < cursor + fuel) :
    SplitInto sep.bytes (text.bytes.drop cursor)
      ((pieceCuts text sep fuel cursor).map (sliceBytes text.bytes)) := by
  induction fuel generalizing cursor with
  | zero => omega
  | succ fuel ih =>
    rw [pieceCuts, if_pos hc]
    rcases cflowFind_cases hsep hc with ⟨hnone, hno⟩ | ⟨hsome, hle, hend, hhit, hbefore⟩
    · rw [if_pos hnone, List.map_singleton, Text.len, sliceBytes_whole]
      exact .last hno
    · rw [if_neg hsome, List.map_cons]
      generalize cflowFind text sep cursor = k at hle hend hhit hbefore
      obtain ⟨back, hback⟩ := hhit
      have hlen : (sliceBytes text.bytes ⟨some cursor, k - cursor⟩).length = k - cursor := by
        simp only [sliceBytes, Option.getD_some, List.length_take, List.length_drop, Text.len] at *
        omega
      have hrest : text.bytes.drop (k + sep.len) = back := by
        rw [← List.drop_drop, ← hback, Text.len, List.drop_left]
      have hcut : text.bytes.drop cursor = sliceBytes text.bytes ⟨some cursor, k - cursor⟩ ++ sep.bytes ++
            text.bytes.drop (k + sep.len) := by
        calc text.bytes.drop cursor = (text.bytes.drop cursor).take (k - cursor) ++
                (text.bytes.drop cursor).drop (k - cursor) := (List.take_append_drop _ _).symm
          _ = sliceBytes text.bytes ⟨some cursor, k - cursor⟩ ++ text.bytes.drop k := by
            rw [List.drop_drop, Nat.add_sub_cancel' hle]
            rfl
          _ = _ := by rw [hrest, ← hback, List.append_assoc]
      rw [hcut]
      refine .cut (fun a b hab => ?_) (ih hend (by omega))
      rw [← hcut] at hab
      rw [hlen]
      by_contra hlt
      apply hbefore (cursor + a.length) (by omega) (by omega)
      rw [← List.drop_drop, hab, List.append_assoc, List.drop_left]
      exact List.prefix_append _ _

theorem pieceCuts_pos (hc : cursor ≤ text.len) (hfuel : 0 < fuel) :
    0 < (pieceCuts text sep fuel cursor).length := by
  cases fuel with
  | zero => omega
  | succ fuel =>
    rw [pieceCuts, if_pos hc]
    split <;> simp

theorem countPass_eq (hsep : 0 < sep.len) (hc : cursor ≤ text.len)
    (hfuel : text.len < cursor + fuel) {count : Nat} :
    countPass text sep fuel cursor count + 1 = count + (pieceCuts text sep fuel cursor).length := by
  induction fuel generalizing cursor count with
  | zero => omega
  | succ fuel ih =>
    rw [countPass, pieceCuts, if_pos hc, if_pos hc]
    rcases cflowFind_cases hsep hc with ⟨hnone, -⟩ | ⟨hsome, hle, hend, -⟩
    · simp [hnone]
    · rw [if_neg hsome, if_neg hsome, ih hend (by omega), List.length_cons]
      omega

theorem set_then_rest {items cuts : List Slice} {index : Nat} {s : Slice} (h : index < items.length) :
    (items.set index s).take (index + 1) ++ cuts = items.take index ++ s :: cuts := by
  rw [List.take_set, List.set_eq_take_append_cons_drop, if_pos (by simp; omega)]
  simp [List.take_take]

theorem fillPass_eq (hsep : 0 < sep.len) (hc : cursor ≤ text.len)
    (hfuel : text.len < cursor + fuel) {count index : Nat} {items : List Slice}
    (hitems : items.length = count)
    (hcount : index + (pieceCuts text sep fuel cursor).length = count) :
    fillPass text sep count fuel cursor index items =
      ⟨items.take index ++ pieceCuts text sep fuel cursor, count⟩ := by
  induction fuel generalizing cursor index items with
  | zero => omega
  | succ fuel ih =>
    have hpos : 0 < (pieceCuts text sep (fuel + 1) cursor).length := pieceCuts_pos hc (by omega)
    have hindex : index < count := by omega
    rw [fillPass, if_pos ⟨hc, hindex⟩]
    rw [pieceCuts, if_pos hc] at hcount ⊢
    rcases cflowFind_cases hsep hc with ⟨hnone, -⟩ | ⟨hsome, hle, hend, -⟩
    · simp only [hnone, if_true, List.length_singleton] at hcount ⊢
      rw [← set_then_rest (hitems ▸ hindex), List.append_nil, List.take_of_length_le (by simp; omega),
        hcount]
    · rw [if_neg hsome, List.length_cons] at hcount
      rw [if_neg hsome, if_neg hsome, ih hend (by omega) (by rw [List.length_set, hitems]) (by omega),
        set_then_rest (hitems ▸ hindex)]

theorem listAppendString_ample (hmem : mem.Ample) (list : List (List UInt8)) (item : List UInt8) :
    listAppendString mem list item = some (list ++ [item]) := by
  rw [listAppendString, if_pos (hmem.2.1 _), listPush, if_pos (hmem.2.2 _)]

theorem splitLoop_eq (hmem : mem.Ample) (hsep : 0 < sep.len) (hc : cursor ≤ text.len)
    (hfuel : text.len < cursor + fuel) {parts : List (List UInt8)} :
    splitLoop mem text sep fuel cursor parts =
      parts ++ (pieceCuts text sep fuel cursor).map (sliceBytes text.bytes) := by
  induction fuel generalizing cursor parts with
  | zero => omega
  | succ fuel ih =>
    rw [splitLoop, pieceCuts, if_pos hc, if_pos hc, streamFind_eq hsep hc]
    rcases cflowFind_cases hsep hc with ⟨hnone, -⟩ | ⟨hsome, hle, hend, -⟩
    · rw [if_pos hnone, if_pos hnone, listAppendString_ample hmem]
      rfl
    · rw [if_neg hsome, if_neg hsome, listAppendString_ample hmem]
      dsimp only
      rw [ih hend (by omega), List.map_cons, List.append_assoc, List.singleton_append]

end Pieces

/-! The cuts at the newlines. -/

def lineCuts (text : Text) : List Nat → Nat → List Slice
  | [], _ => []
  | i :: rest, start =>
    if endsLine text i then
      ⟨some start, lineEnd text start i - start⟩ :: lineCuts text rest (i + 1)
    else lineCuts text rest start

section Lines
variable {mem : Memory} {text : Text} {start i k : Nat}

theorem line_bytes (hstart : start ≤ i) (hi : i ≤ text.len) :
    sliceBytes text.bytes ⟨some start, lineEnd text start i - start⟩ =
      stripCr ((text.bytes.drop start).take (i - start)) := by
  have hlast : start < i → ((text.bytes.drop start).take (i - start)).getLast? = text.bytes[i - 1]? := by
    intro hlt
    have hget : (text.bytes.drop start)[i - start - 1]? = text.bytes[i - 1]? := by
      rw [List.getElem?_drop]
      congr 1
      omega
    have hsome : (text.bytes[i - 1]?).isSome := by
      rw [List.getElem?_eq_getElem (by simp only [Text.len] at hi; omega)]
      rfl
    rw [List.getLast?_take, if_neg (by omega), hget]
    cases h : text.bytes[i - 1]? with
    | none => simp [h] at hsome
    | some c => rfl
  simp only [sliceBytes, Option.getD_some, lineEnd, stripCr]
  by_cases hlt : start < i
  · rw [hlast hlt]
    by_cases hcr : text.bytes[i - 1]? = some carriageReturn
    · rw [if_pos ⟨hlt, hcr⟩, if_pos hcr, List.dropLast_eq_take, List.take_take, List.length_take,
        List.length_drop]
      congr 1
      simp only [Text.len] at hi
      omega
    · rw [if_neg (fun h => hcr h.2), if_neg hcr]
  · obtain rfl : start = i := by omega
    simp

theorem lineCuts_split (hk : i + k = text.len + 1) (hi : i ≤ text.len) (hstart : start ≤ i)
    (hopen : newline ∉ (text.bytes.drop start).take (i - start)) :
    (lineCuts text (List.range' i k) start).map (sliceBytes text.bytes) =
      ((text.bytes.drop start).splitOn newline).map stripCr := by
  induction k generalizing i start with
  | zero => omega
  | succ k ih =>
    rw [List.range'_succ, lineCuts]
    by_cases hend : i = text.len
    · obtain rfl : k = 0 := by omega
      have hwhole : (text.bytes.drop start).take (i - start) = text.bytes.drop start := by
        apply List.take_of_length_le
        simp [hend, Text.len]
      rw [hwhole] at hopen
      rw [if_pos (by simp [endsLine, hend]), List.map_cons, line_bytes hstart hi, hwhole,
        List.splitOn_eq_singleton hopen]
      rfl
    · have hlt : i < text.bytes.length := by
        simp only [Text.len] at *
        omega
      have hcut : text.bytes.drop start =
          (text.bytes.drop start).take (i - start) ++ text.bytes[i] :: text.bytes.drop (i + 1) := by
        rw [← List.drop_eq_getElem_cons hlt]
        conv_lhs => rw [← List.take_append_drop (i - start) (text.bytes.drop start)]
        rw [List.drop_drop, Nat.add_sub_cancel' hstart]
      by_cases hnew : text.bytes[i] = newline
      · have hrest := ih (i := i + 1) (by omega) (by simp only [Text.len]; omega) (Nat.le_refl _) (by simp)
        rw [if_pos (by simp [endsLine, hlt, hnew]), List.map_cons, hrest, line_bytes hstart hi]
        conv_rhs => rw [hcut, hnew, List.splitOn_append_cons_self_of_not_mem hopen]
        rfl
      · rw [if_neg (by simp [endsLine, hlt, hend, hnew])]
        apply ih (by omega) (by simp only [Text.len]; omega) (by omega)
        rw [show i + 1 - start = i - start + 1 by omega, List.take_add_one, List.getElem?_drop,
          Nat.add_sub_cancel' hstart, List.getElem?_eq_getElem hlt]
        simp [hopen, Ne.symm hnew]

theorem lineCuts_whole : (lineCuts text (List.range (text.len + 1)) 0).map (sliceBytes text.bytes) =
      (text.bytes.splitOn newline).map stripCr := by
  rw [List.range_eq_range', lineCuts_split (by omega) (Nat.zero_le _) (Nat.le_refl _) (by simp),
    List.drop_zero]

theorem count_from (hk : i + k = text.len) {count : Nat} : (List.range' i k).foldl
        (fun count i => if text.bytes[i]? = some newline then count + 1 else count) count =
      count + (text.bytes.drop i).count newline := by
  induction k generalizing i count with
  | zero =>
    have hnil : text.bytes.drop i = [] := by
      apply List.drop_eq_nil_of_le
      simp only [Text.len] at hk
      omega
    simp [hnil]
  | succ k ih =>
    have hlt : i < text.bytes.length := by
      simp only [Text.len] at hk
      omega
    rw [List.range'_succ, List.foldl_cons, ih (by omega), List.drop_eq_getElem_cons hlt,
      List.count_cons, List.getElem?_eq_getElem hlt]
    by_cases hnew : text.bytes[i] = newline
    · simp [hnew]
      omega
    · simp [hnew]

theorem lineSlots_eq : lineSlots text = text.bytes.count newline + 1 := by
  rw [lineSlots, List.range_eq_range', count_from (by omega), List.drop_zero, Nat.add_comm]

theorem lineCuts_length : (lineCuts text (List.range (text.len + 1)) 0).length = lineSlots text := by
  have hwhole : (lineCuts text (List.range (text.len + 1)) 0).map (sliceBytes text.bytes) =
      (text.bytes.splitOn newline).map stripCr := lineCuts_whole
  have h := congrArg List.length hwhole
  rwa [List.length_map, List.length_map, length_splitOn, ← lineSlots_eq] at h

theorem fillLines_eq {is : List Nat} {index : Nat} {items : List Slice}
    (hitems : items.length = index + (lineCuts text is start).length) :
    fillLines text is start index items = ⟨items.take index ++ lineCuts text is start, items.length⟩ := by
  induction is generalizing start index items with
  | nil =>
    simp only [lineCuts, List.length_nil, Nat.add_zero] at hitems
    simp [fillLines, lineCuts, ← hitems]
  | cons i is ih =>
    rw [lineCuts] at hitems ⊢
    rw [fillLines]
    by_cases hend : endsLine text i = true
    · rw [if_pos hend] at hitems ⊢
      rw [List.length_cons] at hitems
      rw [if_pos hend, ih (by rw [List.length_set]; omega), set_then_rest (by omega), List.length_set]
    · rw [if_neg hend] at hitems ⊢
      rw [if_neg hend, ih hitems]

theorem linesLoop_eq (hmem : mem.Ample) {is : List Nat} {lines : List (List UInt8)} :
    linesLoop mem text is start lines = lines ++ (lineCuts text is start).map (sliceBytes text.bytes) := by
  induction is generalizing start lines with
  | nil => simp [linesLoop, lineCuts]
  | cons i is ih =>
    rw [linesLoop, lineCuts]
    by_cases hend : endsLine text i = true
    · rw [if_pos hend, if_pos hend, if_pos (hmem.2.1 _), ih, listPush, if_pos (hmem.2.2 _),
        List.map_cons, List.append_assoc, List.singleton_append]
    · rw [if_neg hend, if_neg hend, ih]

end Lines

/-! Splitting. -/

section Splitting
variable {mem : Memory} {text sep : Text}

theorem byteLoop_eq (hmem : mem.Ample) {is : List Nat} {parts : List (List UInt8)} :
    byteLoop mem text is parts = parts ++ is.map fun i => sliceBytes text.bytes ⟨some i, 1⟩ := by
  induction is generalizing parts with
  | nil => simp [byteLoop]
  | cons i is ih =>
    rw [byteLoop, listAppendString_ample hmem]
    dsimp only
    rw [ih, List.map_cons, List.append_assoc, List.singleton_append]

theorem splitSlots_eq (hsep : 0 < sep.len) :
    splitSlots text sep = (pieceCuts text sep (text.len + 1) 0).length := by
  have h : countPass text sep (text.len + 1) 0 1 + 1 = 1 + (pieceCuts text sep (text.len + 1) 0).length :=
    countPass_eq hsep (Nat.zero_le _) (by omega)
  rw [splitSlots]
  omega

theorem cflowTextSplitSourceInit_eq (hmem : mem.Ample) (hsep : 0 < sep.len) :
    cflowTextSplitSourceInit mem text sep =
      some ⟨pieceCuts text sep (text.len + 1) 0, splitSlots text sep⟩ := by
  rw [cflowTextSplitSourceInit, if_neg (by omega), if_pos (hmem.1 _),
    fillPass_eq hsep (Nat.zero_le _) (by omega) (by simp) (by rw [splitSlots_eq hsep]; omega)]
  rfl

theorem cflowTextLinesSourceInit_eq (hmem : mem.Ample) : cflowTextLinesSourceInit mem text =
      some ⟨lineCuts text (List.range (text.len + 1)) 0, lineSlots text⟩ := by
  rw [cflowTextLinesSourceInit, if_pos (hmem.1 _),
    fillLines_eq (by rw [List.length_replicate, lineCuts_length]; omega), List.length_replicate]
  rfl

theorem pieceCuts_data {fuel cursor : Nat} :
    ∀ s ∈ pieceCuts text sep fuel cursor, s.data.isSome = true := by
  induction fuel generalizing cursor with
  | zero => simp [pieceCuts]
  | succ fuel ih =>
    intro s hs
    rw [pieceCuts] at hs
    by_cases hc : cursor ≤ text.len
    · rw [if_pos hc] at hs
      by_cases hnone : cflowFind text sep cursor = sizeMax
      · rw [if_pos hnone, List.mem_singleton] at hs
        rw [hs]
        rfl
      · rw [if_neg hnone] at hs
        rcases List.mem_cons.1 hs with rfl | hs
        · rfl
        · exact ih s hs
    · simp [hc] at hs

theorem lineCuts_data {is : List Nat} {start : Nat} :
    ∀ s ∈ lineCuts text is start, s.data.isSome = true := by
  induction is generalizing start with
  | nil => simp [lineCuts]
  | cons i is ih =>
    intro s hs
    rw [lineCuts] at hs
    by_cases hend : endsLine text i = true
    · rw [if_pos hend] at hs
      rcases List.mem_cons.1 hs with rfl | hs
      · rfl
      · exact ih s hs
    · rw [if_neg hend] at hs
      exact ih s hs

/-- There are as many slots as the source counts, and all of them are written. -/
def Source.Filled (source : Source) : Prop :=
  source.items.length = source.count ∧ ∀ s ∈ source.items, s.data.isSome = true

theorem stripCr_sublist {line : List UInt8} : stripCr line ⊆ line := by
  rw [stripCr]
  split
  · exact List.dropLast_subset line
  · exact List.Subset.refl line

theorem split_agrees (hmem : mem.Ample) (text sep : Text) :
    ∃ source, cflowTextSplitSourceInit mem text sep = some source ∧ source.Filled ∧
      source.pieces text = streamSplitString mem text sep ∧
      (sep.bytes ≠ [] → source.count = splitSlots text sep ∧
        SplitInto sep.bytes text.bytes (source.pieces text)) := by
  by_cases hsep : sep.len = 0
  · have hnil : sep.bytes = [] := List.length_eq_zero_iff.1 hsep
    refine ⟨⟨(List.range text.len).map fun i => ⟨some i, 1⟩, text.len⟩, ?_, ⟨by simp, by simp⟩, ?_,
      fun h => absurd hnil h⟩
    · rw [cflowTextSplitSourceInit, if_pos hsep]
      by_cases htext : text.len = 0
      · simp [htext]
      · rw [if_neg htext, if_pos (hmem.1 _)]
    · rw [streamSplitString, if_pos hsep, byteLoop_eq hmem, List.nil_append, Source.pieces, List.map_map]
      rfl
  · have hpos : 0 < sep.len := by omega
    refine ⟨_, cflowTextSplitSourceInit_eq hmem hpos,
      ⟨(splitSlots_eq hpos).symm, pieceCuts_data⟩, ?_, fun _ => ⟨rfl, ?_⟩⟩
    · rw [streamSplitString, if_neg hsep, splitLoop_eq hmem hpos (Nat.zero_le _) (by omega)]
      rfl
    · exact pieceCuts_split hpos (Nat.zero_le _) (by omega)

theorem lines_agree (hmem : mem.Ample) (text : Text) :
    ∃ source, cflowTextLinesSourceInit mem text = some source ∧ source.Filled ∧
      source.count = lineSlots text ∧
      source.pieces text = streamLinesFromString mem text ∧
      source.pieces text = rtStreamStringLines mem text ∧
      source.pieces text = (text.bytes.splitOn newline).map stripCr := by
  refine ⟨_, cflowTextLinesSourceInit_eq hmem, ⟨lineCuts_length, lineCuts_data⟩, rfl, ?_, ?_,
    lineCuts_whole⟩
  · rw [streamLinesFromString, linesLoop_eq hmem]
    rfl
  · rw [rtStreamStringLines, linesLoop_eq hmem]
    rfl

theorem text_splitting (hmem : mem.Ample) (text sep : Text) :
    (∃ source, cflowTextSplitSourceInit mem text sep = some source ∧
      source.pieces text = streamSplitString mem text sep ∧ source.Filled ∧
      (sep.bytes ≠ [] → source.count = splitSlots text sep ∧
        sep.bytes.intercalate (source.pieces text) = text.bytes ∧
        ∀ piece ∈ source.pieces text, ¬ sep.bytes <:+: piece)) ∧
    ∃ source, cflowTextLinesSourceInit mem text = some source ∧
      source.pieces text = streamLinesFromString mem text ∧
      source.pieces text = rtStreamStringLines mem text ∧ source.Filled ∧
      source.count = lineSlots text ∧
      source.pieces text = (text.bytes.splitOn newline).map stripCr ∧
      (source.pieces text).length = text.bytes.count newline + 1 ∧
      ∀ line ∈ source.pieces text, newline ∉ line := by
  obtain ⟨pieces, hpieces, hfilled, hsame, hsplit⟩ := split_agrees hmem text sep
  obtain ⟨lines, hlines, hlfilled, hcount, hstream, hrt, heq⟩ := lines_agree hmem text
  refine ⟨⟨pieces, hpieces, hsame, hfilled, fun hsep => ?_⟩,
    ⟨lines, hlines, hstream, hrt, hlfilled, hcount, heq, ?_, ?_⟩⟩
  · obtain ⟨hslots, hinto⟩ := hsplit hsep
    exact ⟨hslots, hinto.join, hinto.free hsep⟩
  · rw [heq, List.length_map, length_splitOn]
  · intro line hline hnew
    rw [heq] at hline
    obtain ⟨raw, hraw, rfl⟩ := List.mem_map.1 hline
    exact not_mem_of_mem_splitOn hraw (stripCr_sublist hnew)

def Memory.plenty : Memory := ⟨fun _ => true, fun _ => true, fun _ => true⟩

/-- `"a,,b"` at `","`. -/
theorem text_splitting_commas :
    ∃ source, cflowTextSplitSourceInit .plenty ⟨[97, 44, 44, 98], by decide⟩ ⟨[44], by decide⟩ =
        some source ∧
      source.pieces ⟨[97, 44, 44, 98], by decide⟩ =
        streamSplitString .plenty ⟨[97, 44, 44, 98], by decide⟩ ⟨[44], by decide⟩ ∧
      source.pieces ⟨[97, 44, 44, 98], by decide⟩ = [[97], [], [98]] := by
  have hplenty : Memory.plenty.Ample := ⟨fun _ => rfl, fun _ => rfl, fun _ => rfl⟩
  obtain ⟨source, hsource, hsame, -⟩ :=
    (text_splitting hplenty ⟨[97, 44, 44, 98], by decide⟩ ⟨[44], by decide⟩).1
  refine ⟨source, hsource, hsame, ?_⟩
  rw [hsame]
  decide +kernel

end Splitting

end TurboScript.Stream
