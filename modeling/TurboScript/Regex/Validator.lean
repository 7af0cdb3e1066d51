import TurboScript.Regex.Grammar

/- The validator accepts exactly the grammar.

   Every scanner returns on every range of a pattern, and what it returns is a boundary of
   the kind it looks for (`classLoop_total`, `groupLoop_total`, `branchLoop_total`). From
   these the three functions of the validator are shown, by induction on the fuel, to return
   on every range, and to return success only where the range is the text of a tree. The
   other half, that the text of every tree is accepted, is in `Grammar`. -/
namespace TurboScript.Regex

theorem closedBody_cons {c : Char} {body : List Char} (hesc : c ≠ '\\') (hclose : c ≠ ']')
    (h : closedBody body = true) : closedBody (c :: body) = true := by
  cases body with
  | nil => simp [closedBody, hesc, hclose]
  | cons d rest => simp [closedBody, hesc, hclose, h]

theorem closedBody_escape {c : Char} {body : List Char} (h : closedBody body = true) :
    closedBody ('\\' :: c :: body) = true := by
  simpa [closedBody] using h

section Scanners
variable {p : List Char} {start stop : Nat}

/-- What the class scanner returns: the bracket behind a closed body. -/
def ClosesClass (p : List Char) (i stop k : Nat) : Prop :=
  ∃ body, closedBody body = true ∧ Reads p i body ∧ i + body.length = k ∧ k < stop ∧ p[k]? = some ']'

theorem ClosesClass.cons {i k : Nat} {c : Char} (h : ClosesClass p (i + 1) stop k)
    (hc : p[i]? = some c) (hesc : c ≠ '\\') (hclose : c ≠ ']') : ClosesClass p i stop k := by
  obtain ⟨body, hbody, hread, hk, hrest⟩ := h
  refine ⟨c :: body, closedBody_cons hesc hclose hbody, reads_cons.mpr ⟨hc, hread⟩, ?_, hrest⟩
  simp only [List.length_cons]
  omega

theorem ClosesClass.escape {i k : Nat} (h : ClosesClass p (i + 2) stop k)
    (hc : p[i]? = some '\\') (hi : i + 1 < p.length) : ClosesClass p i stop k := by
  obtain ⟨body, hbody, hread, hk, hrest⟩ := h
  obtain ⟨d, hd⟩ := exists_char (Nat.le_refl p.length) hi
  refine ⟨'\\' :: d :: body, closedBody_escape hbody,
    reads_cons.mpr ⟨hc, reads_cons.mpr ⟨hd, hread⟩⟩, ?_, hrest⟩
  simp only [List.length_cons]
  omega

theorem classLoop_total (hstop : stop ≤ p.length) : ∀ n i, start ≤ i → stop - i < n →
      ∃ r, classLoop p start stop n i = .ok r ∧ ∀ k, r = some k → ClosesClass p i stop k := by
  intro n
  induction n with
  | zero =>
    intro i hs hn
    omega
  | succ n ih =>
    intro i hs hn
    by_cases hi : i < stop
    · obtain ⟨c, hc⟩ := exists_char hstop hi
      by_cases hesc : c = '\\'
      · subst hesc
        by_cases hlast : i + 1 < stop
        · obtain ⟨r, hr, hclose⟩ := ih (i + 2) (by omega) (by omega)
          refine ⟨r, by rw [classLoop_escape hc hs hlast, hr], fun k hk => ?_⟩
          exact (hclose k hk).escape hc (by omega)
        · refine ⟨none, ?_, by simp⟩
          rw [classLoop, if_pos hi, patternAt_ok hc hs hi, Run.ok_bind, if_pos rfl, if_pos (by omega)]
          rfl
      · by_cases hclose : c = ']'
        · subst hclose
          refine ⟨some i, classLoop_close hc hs hi, fun k hk => ?_⟩
          obtain rfl : i = k := by simpa using hk
          exact ⟨[], rfl, Reads.nil (by omega), rfl, hi, hc⟩
        · obtain ⟨r, hr, hends⟩ := ih (i + 1) (by omega) (by omega)
          exact ⟨r, by rw [classLoop_other hc hs hi hesc hclose, hr],
            fun k hk => (hends k hk).cons hc hesc hclose⟩
    · refine ⟨none, ?_, by simp⟩
      rw [classLoop, if_neg hi]
      rfl

theorem findCharClassEnd_total (hstop : stop ≤ p.length) (i : Nat) :
    ∃ r, findCharClassEnd p i stop = .ok r ∧ ∀ k, r = some k → ClosesClass p (i + 1) stop k := by
  unfold findCharClassEnd
  by_cases hi : i + 1 < stop
  · obtain ⟨c, hc⟩ := exists_char hstop hi
    rw [if_pos hi, patternAt_ok hc (by omega) hi, Run.ok_bind]
    by_cases hcaret : c = '^'
    · obtain ⟨r, hr, hends⟩ := classLoop_total hstop (stop + 1) (i + 1 + 1)
        (show i ≤ i + 1 + 1 by omega) (by omega)
      refine ⟨r, by rw [if_pos hcaret, hr], fun k hk => (hends k hk).cons hc ?_ ?_⟩ <;>
        rw [hcaret] <;> decide
    · obtain ⟨r, hr, hends⟩ := classLoop_total hstop (stop + 1) (i + 1) (show i ≤ i + 1 by omega) (by omega)
      exact ⟨r, by rw [if_neg hcaret, hr], hends⟩
  · rw [if_neg hi]
    exact classLoop_total hstop (stop + 1) (i + 1) (by omega) (by omega)

theorem round_total {Q : Nat → Prop} {c : Char} {i d : Nat} {loop : Nat → Nat → Run (Option Nat)}
    {rest : Run (Option Nat)} (hstop : stop ≤ p.length)
    (hgoes : ∀ j e, i < j → j ≤ stop → ∃ r, loop j e = .ok r ∧ ∀ k, r = some k → Q k)
    (hi : i < stop) (hrest : ∃ r, rest = .ok r ∧ ∀ k, r = some k → Q k) :
    ∃ r, (if c = '\\' then if i + 1 ≥ stop then return none else loop (i + 2) d
      else if c = '[' then do
        match ← findCharClassEnd p i stop with
        | none => return none
        | some classEnd => loop (classEnd + 1) d
      else if c = '(' then loop (i + 1) (d + 1)
      else rest) = .ok r ∧ ∀ k, r = some k → Q k := by
  by_cases h₁ : c = '\\'
  · rw [if_pos h₁]
    by_cases hlast : i + 1 ≥ stop
    · rw [if_pos hlast]
      exact ⟨none, rfl, by simp⟩
    · rw [if_neg hlast]
      exact hgoes (i + 2) d (by omega) (by omega)
  · rw [if_neg h₁]
    by_cases h₂ : c = '['
    · obtain ⟨r, hr, hends⟩ := findCharClassEnd_total hstop i
      rw [if_pos h₂, hr, Run.ok_bind]
      cases r with
      | none => exact ⟨none, rfl, by simp⟩
      | some k =>
        obtain ⟨body, _, _, hk, hlt, _⟩ := hends k rfl
        exact hgoes (k + 1) d (by omega) (by omega)
    · rw [if_neg h₂]
      by_cases h₃ : c = '('
      · rw [if_pos h₃]
        exact hgoes (i + 1) (d + 1) (by omega) (by omega)
      · rw [if_neg h₃]
        exact hrest

theorem groupLoop_total (hstop : stop ≤ p.length) : ∀ n i d, start ≤ i → stop - i < n →
      ∃ r, groupLoop p start stop n i d = .ok r ∧
        ∀ k, r = some k → i ≤ k ∧ k < stop ∧ p[k]? = some ')' := by
  intro n
  induction n with
  | zero =>
    intro i d hs hn
    omega
  | succ n ih =>
    intro i d hs hn
    have hgoes : ∀ j e, i < j → j ≤ stop → ∃ r, groupLoop p start stop n j e = .ok r ∧
        ∀ k, r = some k → i ≤ k ∧ k < stop ∧ p[k]? = some ')' := by
      intro j e hij _
      obtain ⟨r, hr, hends⟩ := ih j e (by omega) (by omega)
      exact ⟨r, hr, fun k hk => ⟨by have := (hends k hk).1; omega, (hends k hk).2⟩⟩
    by_cases hi : i < stop
    · obtain ⟨c, hc⟩ := exists_char hstop hi
      rw [groupLoop, if_pos hi, patternAt_ok hc hs hi, Run.ok_bind]
      refine round_total hstop hgoes hi ?_
      by_cases h₄ : c = ')'
      · rw [if_pos h₄]
        by_cases hd : d - 1 = 0
        · rw [if_pos hd]
          refine ⟨some i, rfl, fun k hk => ?_⟩
          obtain rfl : i = k := by simpa using hk
          exact ⟨Nat.le_refl _, hi, by rw [hc, h₄]⟩
        · rw [if_neg hd]
          exact hgoes (i + 1) (d - 1) (by omega) (by omega)
      · rw [if_neg h₄]
        exact hgoes (i + 1) d (by omega) (by omega)
    · refine ⟨none, ?_, by simp⟩
      rw [groupLoop, if_neg hi]
      rfl

theorem findGroupEnd_total (hstop : stop ≤ p.length) (i : Nat) : ∃ r, findGroupEnd p i stop = .ok r ∧
      ∀ k, r = some k → i + 1 ≤ k ∧ k < stop ∧ p[k]? = some ')' :=
  groupLoop_total hstop (stop + 1) (i + 1) 1 (by omega) (by omega)

theorem branchLoop_total (hstop : stop ≤ p.length) : ∀ n i d, start ≤ i → i ≤ stop → stop - i < n →
      ∃ r, branchLoop p start stop n i d = .ok r ∧
        ∀ k, r = some k → i ≤ k ∧ k ≤ stop ∧ (k = stop ∨ p[k]? = some '|') := by
  intro n
  induction n with
  | zero =>
    intro i d hs hi hn
    omega
  | succ n ih =>
    intro i d hs hi hn
    have hgoes : ∀ j e, i < j → j ≤ stop → ∃ r, branchLoop p start stop n j e = .ok r ∧
        ∀ k, r = some k → i ≤ k ∧ k ≤ stop ∧ (k = stop ∨ p[k]? = some '|') := by
      intro j e hij hjs
      obtain ⟨r, hr, hends⟩ := ih j e (by omega) hjs (by omega)
      exact ⟨r, hr, fun k hk => ⟨by have := (hends k hk).1; omega, (hends k hk).2⟩⟩
    by_cases hlt : i < stop
    · obtain ⟨c, hc⟩ := exists_char hstop hlt
      rw [branchLoop, if_pos hlt, patternAt_ok hc hs hlt, Run.ok_bind]
      refine round_total hstop hgoes hlt ?_
      by_cases h₄ : c = ')'
      · rw [if_pos h₄]
        by_cases hd : d = 0
        · rw [if_pos hd]
          exact ⟨none, rfl, by simp⟩
        · rw [if_neg hd]
          exact hgoes (i + 1) (d - 1) (by omega) (by omega)
      · rw [if_neg h₄]
        by_cases h₅ : c = '|' ∧ d = 0
        · rw [if_pos h₅]
          refine ⟨some i, rfl, fun k hk => ?_⟩
          obtain rfl : i = k := by simpa using hk
          exact ⟨Nat.le_refl _, hi, .inr (by rw [hc, h₅.1])⟩
        · rw [if_neg h₅]
          exact hgoes (i + 1) d (by omega) (by omega)
    · refine ⟨some stop, ?_, fun k hk => ?_⟩
      · rw [branchLoop, if_neg hlt]
        rfl
      · obtain rfl : stop = k := by simpa using hk
        exact ⟨hi, Nat.le_refl _, .inl rfl⟩

theorem findBranchEnd_total (hstop : stop ≤ p.length) {i : Nat} (hi : i ≤ stop) :
    ∃ r, findBranchEnd p i stop = .ok r ∧
      ∀ k, r = some k → i ≤ k ∧ k ≤ stop ∧ (k = stop ∨ p[k]? = some '|') :=
  branchLoop_total hstop (stop + 1) i 0 (Nat.le_refl _) hi (by omega)

end Scanners

/-! The validator on any range, for one amount of fuel. -/

/-- What `atom_end_at` returns on a range: nothing, or the end of an anchor or an atom. -/
def AtomTotal (p : List Char) (n : Nat) : Prop :=
  ∀ i stop, i ≤ stop → stop ≤ p.length → 3 * (stop - i) + 1 ≤ n →
    ∃ r, atomEndAt p n i stop = .ok r ∧ ∀ k, r = some k →
      (∃ a : Anchor, p[i]? = some a.char ∧ k = i + 1 ∧ k ≤ stop) ∨
      (∃ a : Atom, Reads p i a.render ∧ i + a.render.length = k ∧ k ≤ stop)

def SequenceTotal (p : List Char) (n : Nat) : Prop :=
  ∀ i stop, i ≤ stop → stop ≤ p.length → 3 * (stop - i) + 2 ≤ n → ∃ b, validateSequence p n i stop = .ok b ∧
      (b = true → ∃ s : Sequence, Reads p i s.render ∧ i + s.render.length = stop)

def ExprTotal (p : List Char) (n : Nat) : Prop :=
  ∀ i stop, i ≤ stop → stop ≤ p.length → 3 * (stop - i) + 3 ≤ n → ∃ b, validateExpr p n i stop = .ok b ∧
      (b = true → ∃ e : Expr, Reads p i e.render ∧ i + e.render.length = stop)

section Total
variable {p : List Char} {n : Nat}

theorem ordinary_or_anchor {c : Char} (h₁ : c ≠ '[') (h₂ : c ≠ '(') (h₃ : c ≠ '\\')
    (h₄ : ¬(c = '|' ∨ c = ')' ∨ isquantifier c = true)) :
    (∃ a : Anchor, c = a.char) ∨ ordinary c = true := by
  by_cases hbol : c = '^'
  · exact .inl ⟨.bol, hbol⟩
  · by_cases heol : c = '$'
    · exact .inl ⟨.eol, heol⟩
    · push Not at h₄
      right
      simp [ordinary, h₁, h₂, h₃, h₄.1, h₄.2.1, h₄.2.2, hbol, heol]

theorem atomTotal_step (hexpr : ExprTotal p n) : AtomTotal p (n + 1) := by
  intro i stop hi hstop hn
  by_cases hlt : i < stop
  · obtain ⟨c, hc⟩ := exists_char hstop hlt
    have hread := atomEndAt.eq_2 p i stop n
    rw [if_neg (by omega), patternAt_ok hc (Nat.le_refl _) hlt, Run.ok_bind] at hread
    by_cases h₁ : c = '['
    · obtain ⟨r, hr, hends⟩ := findCharClassEnd_total hstop i
      rw [if_pos h₁, hr, Run.ok_bind] at hread
      cases r with
      | none => exact ⟨none, hread, by simp⟩
      | some k =>
        obtain ⟨body, hbody, hreads, hk, hkstop, hclose⟩ := hends k rfl
        by_cases hlong : k - i ≥ maxCharClassLen
        · exact ⟨none, by rw [hread]; exact if_pos hlong, by simp⟩
        · refine ⟨some (k + 1), by rw [hread]; exact if_neg hlong, fun k' hk' => .inr ?_⟩
          obtain rfl : k + 1 = k' := by simpa using hk'
          refine ⟨.charClass body hbody (by omega), ?_, ?_, by omega⟩
          · have hlast : Reads p k [']'] := reads_cons.mpr ⟨hclose, Reads.nil (by omega)⟩
            rw [← hk] at hlast
            rw [h₁] at hc
            exact reads_cons.mpr ⟨hc, reads_append.mpr ⟨hreads, hlast⟩⟩
          · simp only [Atom.render, List.length_cons, List.length_append, List.length_nil]
            omega
    · rw [if_neg h₁] at hread
      by_cases h₂ : c = '('
      · obtain ⟨r, hr, hends⟩ := findGroupEnd_total hstop i
        rw [if_pos h₂, hr, Run.ok_bind] at hread
        cases r with
        | none => exact ⟨none, hread, by simp⟩
        | some g =>
          obtain ⟨hig, hgstop, hclose⟩ := hends g rfl
          obtain ⟨b, hb, hinner⟩ := hexpr (i + 1) g hig (by omega) (by omega)
          change atomEndAt p (n + 1) i stop = (validateExpr p n (i + 1) g >>= _) at hread
          rw [hb, Run.ok_bind] at hread
          cases b with
          | false => exact ⟨none, hread, by simp⟩
          | true =>
            refine ⟨some (g + 1), hread, fun k hk => .inr ?_⟩
            obtain rfl : g + 1 = k := by simpa using hk
            obtain ⟨e, hreads, hlen⟩ := hinner rfl
            refine ⟨.group e, ?_, ?_, by omega⟩
            · have hlast : Reads p g [')'] := reads_cons.mpr ⟨hclose, Reads.nil (by omega)⟩
              rw [← hlen] at hlast
              rw [h₂] at hc
              exact reads_cons.mpr ⟨hc, reads_append.mpr ⟨hreads, hlast⟩⟩
            · simp only [Atom.render, List.length_cons, List.length_append, List.length_nil]
              omega
      · rw [if_neg h₂] at hread
        by_cases h₃ : c = '\\'
        · rw [if_pos h₃] at hread
          by_cases hlast : i + 1 < stop
          · refine ⟨some (i + 2), by rw [hread]; exact if_pos hlast, fun k hk => .inr ?_⟩
            obtain rfl : i + 2 = k := by simpa using hk
            obtain ⟨d, hd⟩ := exists_char hstop hlast
            rw [h₃] at hc
            exact ⟨.escape d, reads_cons.mpr ⟨hc, reads_cons.mpr ⟨hd, Reads.nil (by omega)⟩⟩, rfl, by omega⟩
          · exact ⟨none, by rw [hread]; exact if_neg hlast, by simp⟩
        · rw [if_neg h₃] at hread
          by_cases h₄ : c = '|' ∨ c = ')' ∨ isquantifier c = true
          · exact ⟨none, by rw [hread]; exact if_pos h₄, by simp⟩
          · refine ⟨some (i + 1), by rw [hread]; exact if_neg h₄, fun k hk => ?_⟩
            obtain rfl : i + 1 = k := by simpa using hk
            cases ordinary_or_anchor h₁ h₂ h₃ h₄ with
            | inl h =>
              obtain ⟨a, ha⟩ := h
              exact .inl ⟨a, by rw [hc, ha], rfl, by omega⟩
            | inr h =>
              exact .inr ⟨.plain c h, reads_cons.mpr ⟨hc, Reads.nil (by omega)⟩, rfl, by omega⟩
  · refine ⟨none, ?_, by simp⟩
    rw [atomEndAt, if_pos (by omega)]
    rfl

theorem isquantifier_char {c : Char} (h : isquantifier c = true) : ∃ q : Quantifier, q.char = c := by
  simp only [isquantifier, Bool.or_eq_true, beq_iff_eq] at h
  obtain (rfl | rfl) | rfl := h
  · exact ⟨.star, rfl⟩
  · exact ⟨.plus, rfl⟩
  · exact ⟨.optional, rfl⟩

theorem sequenceTotal_step (hatom : AtomTotal p n) (hseq : SequenceTotal p n) :
    SequenceTotal p (n + 1) := by
  intro i stop hi hstop hn
  by_cases hlt : i < stop
  · have hread := validateSequence.eq_2 p i stop n
    obtain ⟨r, hr, hends⟩ := hatom i stop hi hstop (by omega)
    rw [if_pos hlt, hr, Run.ok_bind] at hread
    cases r with
    | none => exact ⟨false, hread, by simp⟩
    | some k =>
      change validateSequence p (n + 1) i stop = (if k < stop then _ else _) at hread
      -- the rest of the range behind the atom, and behind its quantifier if it has one
      have hrest : ∀ j, i < j → j ≤ stop → validateSequence p (n + 1) i stop = validateSequence p n j stop →
          (∀ s : Sequence, Reads p j s.render → ∃ t : Sequence, Reads p i t.render ∧
              i + t.render.length = j + s.render.length) →
          ∃ b, validateSequence p (n + 1) i stop = .ok b ∧
            (b = true → ∃ s : Sequence, Reads p i s.render ∧ i + s.render.length = stop) := by
        intro j hij hj hstep hcons
        obtain ⟨b, hb, hacc⟩ := hseq j stop hj hstop (by omega)
        refine ⟨b, by rw [hstep, hb], fun hb' => ?_⟩
        obtain ⟨s, hs, hlen⟩ := hacc hb'
        obtain ⟨t, ht, htlen⟩ := hcons s hs
        exact ⟨t, ht, by omega⟩
      cases hends k rfl with
      | inl h =>
        obtain ⟨a, ha, rfl, hk⟩ := h
        have hbare : ∀ s : Sequence, Reads p (i + 1) s.render → ∃ t : Sequence, Reads p i t.render ∧
              i + t.render.length = i + 1 + s.render.length := by
          intro s hs
          refine ⟨.anchor a s, reads_cons.mpr ⟨ha, hs⟩, ?_⟩
          simp only [Sequence.render, List.length_cons]
          omega
        by_cases hk' : i + 1 < stop
        · obtain ⟨q, hq⟩ := exists_char hstop hk'
          rw [if_pos hk', patternAt_ok hq (by omega) hk', Run.ok_bind] at hread
          by_cases hquant : isquantifier q = true
          · -- an anchor with a quantifier is refused
            rw [if_pos hquant, patternAt_ok ha (Nat.le_refl _) hlt, Run.ok_bind,
              if_pos (by cases a <;> simp [Anchor.char])] at hread
            exact ⟨false, hread, by simp⟩
          · rw [if_neg hquant] at hread
            exact hrest (i + 1) (by omega) hk hread hbare
        · rw [if_neg hk'] at hread
          exact hrest (i + 1) (by omega) hk hread hbare
      | inr h =>
        obtain ⟨a, ha, hlen, hk⟩ := h
        have hpos := length_pos_render_atom a
        have hbare : ∀ s : Sequence, Reads p k s.render →
            ∃ t : Sequence, Reads p i t.render ∧ i + t.render.length = k + s.render.length := by
          intro s hs
          refine ⟨.item a none s, reads_append.mpr ⟨ha, ?_⟩, ?_⟩
          · rw [hlen]
            exact hs
          · simp only [Sequence.render, quantifierText, List.nil_append, List.length_append]
            omega
        by_cases hk' : k < stop
        · obtain ⟨q, hq⟩ := exists_char hstop hk'
          rw [if_pos hk', patternAt_ok hq (by omega) hk', Run.ok_bind] at hread
          by_cases hquant : isquantifier q = true
          · obtain ⟨c, tail, hrender, _, hbol, heol⟩ := atom_head a
            have hc : p[i]? = some c := by
              rw [hrender] at ha
              exact (reads_cons.mp ha).1
            rw [if_pos hquant, patternAt_ok hc (Nat.le_refl _) hlt, Run.ok_bind,
              if_neg (by simp [hbol, heol])] at hread
            obtain ⟨q', rfl⟩ := isquantifier_char hquant
            refine hrest (k + 1) (by omega) (by omega) hread fun s hs => ?_
            refine ⟨.item a (some q') s, reads_append.mpr ⟨ha, ?_⟩, ?_⟩
            · rw [hlen]
              exact reads_cons.mpr ⟨hq, hs⟩
            · simp only [Sequence.render, quantifierText, List.length_append, List.length_singleton]
              omega
          · rw [if_neg hquant] at hread
            exact hrest k (by omega) hk hread hbare
        · rw [if_neg hk'] at hread
          exact hrest k (by omega) hk hread hbare
  · refine ⟨true, ?_, fun _ => ⟨.empty, Reads.nil (by omega), by simp [Sequence.render]; omega⟩⟩
    rw [validateSequence, if_neg hlt]
    rfl

theorem exprTotal_step (hseq : SequenceTotal p n) (hexpr : ExprTotal p n) : ExprTotal p (n + 1) := by
  intro i stop hi hstop hn
  obtain ⟨r, hr, hends⟩ := findBranchEnd_total hstop hi
  have hread := validateExpr.eq_2 p i stop n
  rw [if_pos hi, hr, Run.ok_bind] at hread
  cases r with
  | none => exact ⟨false, hread, by simp⟩
  | some k =>
    obtain ⟨hik, hk, hbar⟩ := hends k rfl
    obtain ⟨b, hb, hacc⟩ := hseq i k hik (by omega) (by omega)
    change validateExpr p (n + 1) i stop = (validateSequence p n i k >>= _) at hread
    rw [hb, Run.ok_bind] at hread
    cases b with
    | false => exact ⟨false, hread, by simp⟩
    | true =>
      obtain ⟨s, hs, hlen⟩ := hacc rfl
      rw [if_pos rfl] at hread
      by_cases hlast : k = stop
      · rw [if_pos hlast] at hread
        exact ⟨true, hread, fun _ => ⟨.single s, hs, by simp only [Expr.render]; omega⟩⟩
      · rw [if_neg hlast] at hread
        obtain ⟨b, hb, hacc⟩ := hexpr (k + 1) stop (by omega) hstop (by omega)
        refine ⟨b, by rw [hread, hb], fun hb' => ?_⟩
        obtain ⟨e, he, helen⟩ := hacc hb'
        have hbar := hbar.resolve_left hlast
        refine ⟨.branch s e, reads_append.mpr ⟨hs, ?_⟩, ?_⟩
        · rw [hlen]
          exact reads_cons.mpr ⟨hbar, he⟩
        · simp only [Expr.render, List.length_append, List.length_cons]
          omega

end Total

theorem validator_total (p : List Char) : ∀ n, AtomTotal p n ∧ SequenceTotal p n ∧ ExprTotal p n := by
  intro n
  induction n with
  | zero =>
    refine ⟨fun i stop _ _ hn => ?_, fun i stop _ _ hn => ?_, fun i stop _ _ hn => ?_⟩ <;> omega
  | succ n ih =>
    obtain ⟨hatom, hseq, hexpr⟩ := ih
    exact ⟨atomTotal_step hexpr, sequenceTotal_step hatom hseq, exprTotal_step hseq hexpr⟩

theorem reads_zero {p l : List Char} (h : Reads p 0 l) (hlen : l.length = p.length) : l = p := by
  obtain ⟨before, after, rfl, hbefore⟩ := h
  obtain rfl : before = [] := List.length_eq_zero_iff.mp hbefore
  simp only [List.nil_append, List.length_append] at hlen
  have hafter : after = [] := List.length_eq_zero_iff.mp (by omega)
  simp [hafter]

theorem reads_self (p : List Char) : Reads p 0 p := ⟨[], [], by simp, rfl⟩

/-- The validator returns 1 on the text of every expression and 0 on every other string; and
wherever the text of a class, a group or a sequence stands in a pattern, the scanner that
looks for its end finds the end it has as a tree. -/
theorem validator_exact (p : List Char) : (∃ b, validateExpr p (fuelFor p) 0 p.length = .ok b ∧
      (b = true ↔ ∃ e : Expr, e.render = p)) ∧
    (∀ i stop body, closedBody body = true → Reads p i ('[' :: (body ++ [']'])) →
      i + 1 + body.length < stop → findCharClassEnd p i stop = .ok (some (i + 1 + body.length))) ∧
    (∀ i stop (e : Expr), Reads p i ('(' :: (e.render ++ [')'])) → i + 1 + e.render.length < stop →
        findGroupEnd p i stop = .ok (some (i + 1 + e.render.length))) ∧
    (∀ i stop (s : Sequence), Reads p i s.render → (i + s.render.length = stop ∨
        p[i + s.render.length]? = some '|' ∧ i + s.render.length < stop) →
        findBranchEnd p i stop = .ok (some (i + s.render.length))) := by
  refine ⟨?_, fun i stop body hbody hread hstop => findCharClassEnd_body body hbody hread hstop,
    fun i stop e hread hstop => findGroupEnd_group e hread hstop,
    fun i stop s hread hend => findBranchEnd_sequence s hread hend⟩
  obtain ⟨b, hb, hacc⟩ := (validator_total p (fuelFor p)).2.2 0 p.length (Nat.zero_le _)
    (Nat.le_refl _) (Nat.le_refl _)
  refine ⟨b, hb, fun h => ?_, fun h => ?_⟩
  · obtain ⟨e, he, hlen⟩ := hacc h
    exact ⟨e, reads_zero he (by omega)⟩
  · obtain ⟨e, rfl⟩ := h
    have hok := validateExpr_expr e (reads_self e.render) (Nat.zero_add _)
      (Nat.le_refl (3 * e.render.length + 3))
    rw [fuelFor, hok] at hb
    injection hb with hb
    exact hb.symm

end TurboScript.Regex
