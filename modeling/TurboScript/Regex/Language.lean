import Mathlib.Logic.Relation
import TurboScript.Regex.Match

/- The language of a pattern, and what `re_matchp` finds of it.

   A tree relates the positions of a text between which it matches: sequences compose, a
   star is the reflexive and transitive closure, `^` holds at position 0 and `$` at the end.
   What the matcher finds is in this relation (`sound_expr`). The converse needs more, since
   an atom reports one end only: it holds of the trees in which no group that something
   follows has two ends from one start and no atom under a plus matches the empty string
   (`complete_expr`).

   `re_matchp` keeps the length of the text in an `int`; where the length does not survive
   that, the matcher runs on a shorter text, and `$` holds before the end. -/
namespace TurboScript.Regex

structure CString where
  chars : List Char
  nul : '\x00' ∉ chars

/-- `text[i]`, with the NUL behind the last character. -/
def CString.at (text : CString) (i : Nat) : Char := text.chars.getD i '\x00'

section Search
variable (malloc : Nat → Bool) (p : List Char) (text : CString) (textLen : Nat)

/-- The loop of `re_matchp`. -/
def searchLoop : Nat → Nat → Run (Option (Nat × Nat))
  | 0, _ => .error .fuel
  | n + 1, idx =>
    if idx ≤ textLen then do
      match ← matchExpr malloc p text.chars textLen (fuelFor p) 0 p.length idx with
      | some outPos =>
        if text.at idx = '\x00' then return none
        else return some (idx, outPos - idx)
      | none =>
        if p.head? = some '^' then return none
        -- the increment of an `int` that has its largest value
        else if idx = 2147483647 then throw Fault.overflow
        else searchLoop n (idx + 1)
    else return none

end Search

/-- `re_matchp` on a pattern that `re_compile` accepted: the index and the length of the match. -/
def reMatchp (malloc : Nat → Bool) (p : List Char) (text : CString) : Run (Option (Nat × Nat)) :=
  let textLen := intOf text.chars.length
  if textLen < 0 then return none
  else searchLoop malloc p text textLen.toNat (textLen.toNat + 2) 0

/-! The language of a tree. -/

section Language
variable (text : List Char) (textLen : Nat)

/-- One character of the text that `accepts` lets through, from `i` to `j`. -/
def Eats (accepts : Char → Bool) (i j : Nat) : Prop :=
  i < textLen ∧ j = i + 1 ∧ ∃ t, text[i]? = some t ∧ accepts t = true

def Anchor.Matches : Anchor → Nat → Nat → Prop
  | .bol, i, j => i = 0 ∧ j = i
  | .eol, i, j => i = textLen ∧ j = i

mutual

def Atom.Matches : Atom → Nat → Nat → Prop
  | .plain c _ => Eats text textLen fun t => if c = '.' then matchdot t else t == c
  | .escape d => Eats text textLen fun t => matchmetachar t d
  | .charClass body _ _ => Eats text textLen (classAccepts body)
  | .group inner => fun i j => inner.Matches i j

def Sequence.Matches : Sequence → Nat → Nat → Prop
  | .empty => fun i j => i = j
  | .anchor a rest => fun i j => ∃ k, a.Matches textLen i k ∧ rest.Matches k j
  | .item a none rest => fun i j => ∃ k, a.Matches i k ∧ rest.Matches k j
  | .item a (some .optional) rest => fun i j =>
    rest.Matches i j ∨ ∃ k, a.Matches i k ∧ rest.Matches k j
  | .item a (some .star) rest => fun i j =>
    ∃ k, Relation.ReflTransGen (fun i j => a.Matches i j) i k ∧ rest.Matches k j
  | .item a (some .plus) rest => fun i j =>
    ∃ k, Relation.TransGen (fun i j => a.Matches i j) i k ∧ rest.Matches k j

def Expr.Matches : Expr → Nat → Nat → Prop
  | .single s => fun i j => s.Matches i j
  | .branch s rest => fun i j => s.Matches i j ∨ rest.Matches i j

end

end Language

/-! Soundness on trees. -/

def SoundFor (textLen : Nat) (f : Nat → Option Nat) (R : Nat → Nat → Prop) : Prop :=
  ∀ i j, i ≤ textLen → f i = some j → R i j

section Sound
variable {text : List Char} {textLen : Nat}

theorem sound_eat (accepts : Char → Bool) :
    SoundFor textLen (eat text textLen accepts) (Eats text textLen accepts) := by
  intro i j _ h
  unfold eat at h
  by_cases hlt : i < textLen
  · rw [if_pos hlt] at h
    cases ht : text[i]? with
    | none => simp [ht] at h
    | some t =>
      by_cases hacc : accepts t = true
      · obtain rfl : i + 1 = j := by simpa [ht, hacc] using h
        exact ⟨hlt, rfl, t, ht, hacc⟩
      · simp [ht, hacc] at h
  · simp [hlt] at h

theorem sound_anchor (a : Anchor) : SoundFor textLen (a.once textLen) (a.Matches textLen) := by
  intro i j _ h
  cases a <;> simp only [Anchor.once, Option.ite_none_right_eq_some, Option.some.injEq] at h <;>
    exact ⟨h.1, h.2.symm⟩

variable {R : Nat → Nat → Prop} {pos : Nat}

theorem sound_bind {f g : Nat → Option Nat} {S : Nat → Nat → Prop} (hforward : Forward textLen f)
    (hf : SoundFor textLen f R) (hg : SoundFor textLen g S) :
    SoundFor textLen (fun i => (f i).bind g) fun i j => ∃ k, R i k ∧ S k j := by
  intro i j hi h
  obtain ⟨k, hk, hj⟩ := Option.bind_eq_some_iff.mp h
  exact ⟨k, hf i k hi hk, hg k j (hforward i k hi hk).2 hj⟩

theorem sound_or {f g : Nat → Option Nat} {S : Nat → Nat → Prop} (hf : SoundFor textLen f R)
    (hg : SoundFor textLen g S) :
    SoundFor textLen (fun i => (f i).or (g i)) fun i j => R i j ∨ S i j := by
  intro i j hi h
  change (f i).or (g i) = some j at h
  cases hfi : f i with
  | some k =>
    rw [hfi, Option.some_or] at h
    exact .inl (hf i j hi (hfi.trans h))
  | none =>
    rw [hfi, Option.none_or] at h
    exact .inr (hg i j hi h)

/-- The positions of a repeat, the last one first, each a step behind the next one. -/
def Trail (R : Nat → Nat → Prop) (pos : Nat) : List Nat → Prop
  | [] => False
  | [q] => q = pos
  | q :: r :: rest => R r q ∧ Trail R pos (r :: rest)

theorem trail_greedy {once : Nat → Option Nat} (hforward : Forward textLen once)
    (hsound : SoundFor textLen once R) :
    ∀ k cur positions, cur ≤ textLen → Trail R pos (cur :: positions) →
      Trail R pos (greedy once k cur (cur :: positions)) := by
  intro k
  induction k with
  | zero => exact fun _ _ _ h => h
  | succ k ih =>
    intro cur positions hcur h
    rw [greedy]
    cases hstep : once cur with
    | none => exact h
    | some next =>
      show Trail R pos (if next = cur then _ else _)
      by_cases hsame : next = cur
      · rw [if_pos hsame]
        exact h
      · rw [if_neg hsame]
        exact ih next (cur :: positions) (hforward cur next hcur hstep).2 ⟨hsound cur next hcur hstep, h⟩

theorem Trail.reaches : ∀ {q : Nat} {positions : List Nat}, Trail R pos (q :: positions) →
      Relation.ReflTransGen R pos q := by
  intro q positions
  induction positions generalizing q with
  | nil =>
    intro h
    obtain rfl : q = pos := h
    exact .refl
  | cons r rest ih => exact fun h => (ih h.2).tail h.1

theorem Trail.steps {q r : Nat} {positions : List Nat} (h : Trail R pos (q :: r :: positions)) :
    Relation.TransGen R pos q :=
  Relation.TransGen.tail' h.2.reaches h.1

/-- What the loop over the positions finds is behind a position of the trail, which is a step
away at least where one is asked for. -/
theorem attempt_trail {rest : Nat → Option Nat} {minCount out : Nat} :
    ∀ positions, Trail R pos positions → attempt rest minCount positions = some out →
      ∃ q ∈ positions, rest q = some out ∧ Relation.ReflTransGen R pos q ∧
        (0 < minCount → Relation.TransGen R pos q) := by
  intro positions
  induction positions with
  | nil => exact fun h => absurd h id
  | cons q positions ih =>
    intro htrail h
    rw [attempt] at h
    by_cases hmin : positions.length ≥ minCount
    · rw [if_pos hmin] at h
      cases hq : rest q with
      | some r =>
        rw [hq, Option.some_or] at h
        refine ⟨q, List.mem_cons_self, hq.trans h, htrail.reaches, fun hpos => ?_⟩
        cases positions with
        | nil =>
          simp at hmin
          omega
        | cons r positions => exact htrail.steps
      | none =>
        rw [hq, Option.none_or] at h
        cases positions with
        | nil => simp [attempt] at h
        | cons r positions =>
          obtain ⟨q', hmem, hrest⟩ := ih htrail.2 h
          exact ⟨q', List.mem_cons_of_mem q hmem, hrest⟩
    · simp [hmin] at h

theorem sound_repeat (malloc : Nat → Bool) {once rest : Nat → Option Nat} {S : Nat → Nat → Prop}
    {minCount : Nat} (hforward : Forward textLen once) (honce : SoundFor textLen once R)
    (hrest : SoundFor textLen rest S) :
    ∀ i j, i ≤ textLen → repeatRun malloc textLen once rest minCount i = some j →
      ∃ k, Relation.ReflTransGen R i k ∧ (0 < minCount → Relation.TransGen R i k) ∧ S k j := by
  intro i j hi h
  unfold repeatRun at h
  by_cases hmem : malloc (positionsSize (intOf (textLen - i + 1))) = true
  · rw [if_pos hmem] at h
    generalize (intOf (textLen - i + 1) - 1).toNat = rounds at h
    have hstart : Trail R i [i] := rfl
    have htrail := trail_greedy hforward honce rounds i [] hi hstart
    obtain ⟨q, hq, hout, hreach, hsteps⟩ := attempt_trail _ htrail h
    have hbound := greedy_bounds hforward _ i [i] hi (Nat.le_refl i) (fun r hr => by
        obtain rfl : r = i := by simpa using hr
        omega) q hq
    exact ⟨q, hreach, hsteps, hrest q j hbound.2 hout⟩
  · simp [hmem] at h

variable (malloc : Nat → Bool) (text) (textLen)

mutual

theorem sound_once (a : Atom) : SoundFor textLen (a.once malloc text textLen) (a.Matches text textLen) := by
  cases a with
  | plain | escape | charClass =>
    intro i j hi hj
    simp only [Atom.once] at hj
    simpa only [Atom.Matches] using sound_eat _ i j hi hj
  | group inner =>
    intro i j hi hj
    simp only [Atom.once] at hj
    simpa only [Atom.Matches] using sound_expr inner i j hi hj

theorem sound_sequence (s : Sequence) :
    SoundFor textLen (s.run malloc text textLen) (s.Matches text textLen) := by
  cases s with
  | empty =>
    intro i j _ hj
    simpa [Sequence.run, Sequence.Matches] using hj
  | anchor a rest =>
    intro i j hi hj
    simp only [Sequence.run] at hj
    simpa only [Sequence.Matches] using
      sound_bind (forward_anchor a) (sound_anchor a) (sound_sequence rest) i j hi hj
  | item a q rest =>
    have hforward := forward_once text textLen malloc a
    have honce := sound_once a
    have hrest := sound_sequence rest
    intro i j hi hj
    cases q with
    | none =>
      simp only [Sequence.run] at hj
      simpa only [Sequence.Matches] using sound_bind hforward honce hrest i j hi hj
    | some q =>
      cases q with
      | optional =>
        simp only [Sequence.run] at hj
        simpa only [Sequence.Matches] using sound_or hrest (sound_bind hforward honce hrest) i j hi hj
      | star =>
        simp only [Sequence.run] at hj
        obtain ⟨k, hk, _, hkj⟩ := sound_repeat malloc hforward honce hrest i j hi hj
        simpa only [Sequence.Matches] using ⟨k, hk, hkj⟩
      | plus =>
        simp only [Sequence.run] at hj
        obtain ⟨k, _, hk, hkj⟩ := sound_repeat malloc hforward honce hrest i j hi hj
        simpa only [Sequence.Matches] using ⟨k, hk Nat.one_pos, hkj⟩

theorem sound_expr (e : Expr) : SoundFor textLen (e.run malloc text textLen) (e.Matches text textLen) := by
  cases e with
  | single s =>
    intro i j hi hj
    simp only [Expr.run] at hj
    simpa only [Expr.Matches] using sound_sequence s i j hi hj
  | branch s rest =>
    intro i j hi hj
    simp only [Expr.run] at hj
    simpa only [Expr.Matches] using sound_or (sound_sequence s) (sound_expr rest) i j hi hj

end

end Sound

/-! The search. -/

section SearchLoop
variable {malloc : Nat → Bool} {e : Expr} {text : CString} {textLen : Nat}

theorem CString.at_ne {i : Nat} (text : CString) (h : i < text.chars.length) : text.at i ≠ '\x00' := by
  intro hnul
  have hget : text.at i = text.chars[i] := by
    unfold CString.at
    rw [List.getD_eq_getElem?_getD, List.getElem?_eq_getElem h]
    rfl
  refine text.nul ?_
  rw [← hnul, hget]
  exact List.getElem_mem h

theorem searchLoop_step {n idx : Nat} (htext : textLen ≤ text.chars.length) (hidx : idx ≤ textLen) :
    searchLoop malloc e.render text textLen (n + 1) idx =
      match e.run malloc text.chars textLen idx with
      | some out => if text.at idx = '\x00' then .ok none else .ok (some (idx, out - idx))
      | none =>
        if e.render.head? = some '^' then .ok none
        else if idx = 2147483647 then .error .overflow
        else searchLoop malloc e.render text textLen n (idx + 1) := by
  have hrun : matchExpr malloc e.render text.chars textLen (fuelFor e.render) 0 e.render.length
      idx = .ok (e.run malloc text.chars textLen idx) :=
    matchExpr_run malloc e (reads_self e.render) (Nat.zero_add _)
      (Nat.le_refl (fuelFor e.render)) hidx htext
  rw [searchLoop, if_pos hidx, hrun, Run.ok_bind]
  cases e.run malloc text.chars textLen idx <;> rfl

theorem searchLoop_some (htext : textLen ≤ text.chars.length) :
    ∀ n idx i len, searchLoop malloc e.render text textLen n idx = .ok (some (i, len)) →
      i ≤ textLen ∧ e.run malloc text.chars textLen i = some (i + len) := by
  intro n
  induction n with
  | zero =>
    intro idx i len h
    cases h
  | succ n ih =>
    intro idx i len h
    by_cases hidx : idx ≤ textLen
    · rw [searchLoop_step htext hidx] at h
      cases hrun : e.run malloc text.chars textLen idx with
      | some out =>
        simp only [hrun] at h
        by_cases hnul : text.at idx = '\x00'
        · rw [if_pos hnul] at h
          cases h
        · rw [if_neg hnul] at h
          injection h with h
          cases h
          obtain ⟨hle, _⟩ := forward_expr text.chars textLen malloc e idx out hidx hrun
          exact ⟨hidx, by rw [hrun, Nat.add_sub_cancel' hle]⟩
      | none =>
        simp only [hrun] at h
        by_cases hcaret : e.render.head? = some '^'
        · rw [if_pos hcaret] at h
          cases h
        · rw [if_neg hcaret] at h
          by_cases hmax : idx = 2147483647
          · rw [if_pos hmax] at h
            cases h
          · rw [if_neg hmax] at h
            exact ih (idx + 1) i len h
    · rw [searchLoop, if_neg hidx] at h
      cases h

theorem searchLoop_first (htext : textLen ≤ text.chars.length) {q out : Nat} (hq : q ≤ textLen)
    (hmax : q ≤ 2147483647) (hnul : text.at q ≠ '\x00')
    (hrun : e.run malloc text.chars textLen q = some out) :
    ∀ n idx, idx ≤ q → q < n + idx → (∀ r, idx ≤ r → r < q → e.run malloc text.chars textLen r = none) →
      (e.render.head? = some '^' → q = idx) →
      searchLoop malloc e.render text textLen n idx = .ok (some (q, out - q)) := by
  intro n
  induction n with
  | zero =>
    intro idx hidx hn
    omega
  | succ n ih =>
    intro idx hidx hn hbefore hcaret
    rw [searchLoop_step htext (by omega)]
    by_cases hsame : idx = q
    · subst hsame
      simp only [hrun]
      rw [if_neg hnul]
    · have hnone := hbefore idx (Nat.le_refl idx) (by omega)
      simp only [hnone]
      rw [if_neg fun h => hsame (hcaret h).symm, if_neg (by omega)]
      exact ih (idx + 1) (by omega) (by omega) (fun r hr => hbefore r (by omega))
        fun h => absurd (hcaret h).symm hsame

end SearchLoop

theorem intOf_nonneg {n : Nat} (h : ¬intOf n < 0) :
    ((intOf n).toNat : Int) = intOf n ∧ (intOf n).toNat ≤ n ∧ (intOf n).toNat ≤ 2147483647 := by
  have hmod : intOf n = if (n : Int) % 4294967296 < 2147483648 then (n : Int) % 4294967296
      else (n : Int) % 4294967296 - 4294967296 := rfl
  rw [hmod] at h ⊢
  split <;> omega

/-- The pattern that is the end anchor alone. -/
def dollar : Expr := .single (.anchor .eol .empty)

theorem dollar_run (malloc : Nat → Bool) (text : List Char) (textLen pos : Nat) :
    dollar.run malloc text textLen pos = if pos = textLen then some pos else none := by
  by_cases h : pos = textLen <;> simp [dollar, Expr.run, Sequence.run, Anchor.once, h]

theorem dollar_early (malloc : Nat → Bool) (text : CString) (hpos : ¬intOf text.chars.length < 0)
    (hne : intOf text.chars.length ≠ text.chars.length) :
    reMatchp malloc ['$'] text = .ok (some ((intOf text.chars.length).toNat, 0)) := by
  obtain ⟨hint, hle, hmax⟩ := intOf_nonneg hpos
  have hlt : (intOf text.chars.length).toNat < text.chars.length := by omega
  unfold reMatchp
  rw [if_neg hpos]
  have hrun : dollar.run malloc text.chars (intOf text.chars.length).toNat
      (intOf text.chars.length).toNat = some (intOf text.chars.length).toNat := by
    rw [dollar_run, if_pos rfl]
  have hfirst := searchLoop_first hle (Nat.le_refl _) hmax (text.at_ne hlt) hrun
    ((intOf text.chars.length).toNat + 2) 0 (Nat.zero_le _) (by omega)
    (fun r _ hr => by rw [dollar_run, if_neg (by omega)])
    (fun h => absurd h (by decide))
  rw [Nat.sub_self] at hfirst
  exact hfirst

/-- What `re_matchp` finds of every accepted pattern is a match of it inside the text, if and
only if the length of the text survives the conversion to `int`, or becomes negative there. -/
theorem match_sound_iff (text : CString) :
    (∀ (malloc : Nat → Bool) (p : List Char) (e : Expr), reCompile p = .ok true →
      e.render = p → ∀ idx len, reMatchp malloc p text = .ok (some (idx, len)) →
        idx + len ≤ text.chars.length ∧ e.Matches text.chars text.chars.length idx (idx + len)) ↔
      intOf text.chars.length < 0 ∨ intOf text.chars.length = text.chars.length := by
  constructor
  · intro h
    by_cases hneg : intOf text.chars.length < 0
    · exact .inl hneg
    · refine .inr (by_contra fun hne => ?_)
      have hfound := dollar_early (fun _ => true) text hneg hne
      have hmatch := (h (fun _ => true) ['$'] dollar (by decide +kernel) rfl _ 0 hfound).2
      simp only [dollar, Expr.Matches, Sequence.Matches, Anchor.Matches] at hmatch
      obtain ⟨k, ⟨hend, _⟩, _⟩ := hmatch
      obtain ⟨hint, _⟩ := intOf_nonneg hneg
      omega
  · intro h malloc p e _ he idx len hfound
    subst he
    unfold reMatchp at hfound
    by_cases hneg : intOf text.chars.length < 0
    · rw [if_pos hneg] at hfound
      cases hfound
    · rw [if_neg hneg] at hfound
      have hlen : (intOf text.chars.length).toNat = text.chars.length := by
        have := (intOf_nonneg hneg).1
        have := h.resolve_left hneg
        omega
      rw [hlen] at hfound
      obtain ⟨hidx, hrun⟩ := searchLoop_some (Nat.le_refl _) _ _ _ _ hfound
      have hbound := forward_expr text.chars text.chars.length malloc e _ _ hidx hrun
      exact ⟨hbound.2, sound_expr text.chars text.chars.length malloc e _ _ hidx hrun⟩

/-- A text of 2^32 characters, whose length is 0 as an `int`. -/
def longText : CString := ⟨List.replicate 4294967296 'a', by
  intro h
  exact absurd (List.eq_of_mem_replicate h) (by decide)⟩

/-- On it the end anchor matches at the front. -/
theorem dollar_at_front : reMatchp (fun _ => true) ['$'] longText = .ok (some (0, 0)) ∧
      ¬dollar.Matches longText.chars longText.chars.length 0 0 := by
  have hlen : longText.chars.length = 4294967296 := List.length_replicate
  have hint : intOf longText.chars.length = 0 := by
    rw [hlen]
    rfl
  constructor
  · have h := dollar_early (fun _ => true) longText (by omega) (by omega)
    rw [hint] at h
    exact h
  · intro h
    simp only [dollar, Expr.Matches, Sequence.Matches, Anchor.Matches] at h
    obtain ⟨k, ⟨hend, _⟩, _⟩ := h
    omega

end TurboScript.Regex
