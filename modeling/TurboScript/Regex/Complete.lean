import Mathlib.Data.Nat.Find
import TurboScript.Regex.Language

/- Completeness of the matcher, as far as it goes.

   An atom reports one end, and what follows it is tried from there only. So a group that
   could end elsewhere hides matches of what follows it, and a repeat that matches the empty
   string first makes no step, where a plus asks for one. `Determined` says of a tree that
   neither happens on a text. On determined trees the matcher finds a match from every
   position from which there is one (`complete_expr`), and `re_matchp` returns the smallest
   of these positions (`search_leftmost`). -/
namespace TurboScript.Regex
open Sequence (Matches run)

section Trees
variable (text : List Char) (textLen : Nat)

def SingleEnd (R : Nat → Nat → Prop) : Prop :=
  ∀ i j k, i ≤ textLen → R i j → R i k → j = k

mutual

def Atom.Determined : Atom → Prop
  | .plain _ _ => True
  | .escape _ => True
  | .charClass _ _ _ => True
  | .group inner => inner.Determined

/-- What follows an atom is nothing, or the atom has one end from every start; and an atom
under a plus matches no empty string. -/
def Sequence.Determined : Sequence → Prop
  | .empty => True
  | .anchor _ rest => rest.Determined
  | .item a q rest =>
    a.Determined ∧ (rest = .empty ∨ SingleEnd textLen fun i j => a.Matches text textLen i j) ∧
      (q = some .plus → ∀ i, i ≤ textLen → ¬a.Matches text textLen i i) ∧ rest.Determined

def Expr.Determined : Expr → Prop
  | .single s => s.Determined
  | .branch s rest => s.Determined ∧ rest.Determined

end

end Trees

def CompleteFor (textLen : Nat) (f : Nat → Option Nat) (R : Nat → Nat → Prop) : Prop :=
  ∀ i j, i ≤ textLen → R i j → ∃ k, f i = some k

/-- A relation that goes forward inside the text. -/
def Goes (textLen : Nat) (R : Nat → Nat → Prop) : Prop :=
  ∀ i j, i ≤ textLen → R i j → i ≤ j ∧ j ≤ textLen

section Rules
variable {text : List Char} {textLen : Nat} {f g : Nat → Option Nat} {R S : Nat → Nat → Prop}

theorem goes_eats (accepts : Char → Bool) : Goes textLen (Eats text textLen accepts) := by
  intro i j _ h
  obtain ⟨hlt, rfl, _⟩ := h
  omega

theorem complete_eat (accepts : Char → Bool) :
    CompleteFor textLen (eat text textLen accepts) (Eats text textLen accepts) := by
  intro i j _ h
  obtain ⟨hlt, _, t, ht, hacc⟩ := h
  exact ⟨i + 1, by simp [eat, hlt, ht, hacc]⟩

theorem Goes.closure (hR : Goes textLen R) : Goes textLen (Relation.ReflTransGen R) := by
  intro i j hi h
  induction h with
  | refl => exact ⟨Nat.le_refl i, hi⟩
  | tail _ hstep ih =>
    obtain ⟨h₁, h₂⟩ := hR _ _ ih.2 hstep
    omega

theorem CompleteFor.reports (hf : CompleteFor textLen f R) (hsound : SoundFor textLen f R)
    (hone : SingleEnd textLen R) {i j : Nat} (hi : i ≤ textLen) (h : R i j) : f i = some j := by
  obtain ⟨k, hk⟩ := hf i j hi h
  rw [hk, hone i j k hi h (hsound i k hi hk)]

theorem CompleteFor.bind (hf : CompleteFor textLen f R) (hsound : SoundFor textLen f R)
    (hR : Goes textLen R) (hg : CompleteFor textLen g S) (hone : SingleEnd textLen R) :
    CompleteFor textLen (fun i => (f i).bind g) fun i j => ∃ k, R i k ∧ S k j := by
  intro i j hi h
  obtain ⟨k, hik, hkj⟩ := h
  obtain ⟨out, hout⟩ := hg k j (hR i k hi hik).2 hkj
  exact ⟨out, by simp [hf.reports hsound hone hi hik, hout]⟩

theorem CompleteFor.bind_total (hf : CompleteFor textLen f R) (hg : ∀ k, ∃ out, g k = some out) :
    CompleteFor textLen (fun i => (f i).bind g) fun i j => ∃ k, R i k ∧ S k j := by
  intro i j hi h
  obtain ⟨k, hik, _⟩ := h
  obtain ⟨m, hm⟩ := hf i k hi hik
  obtain ⟨out, hout⟩ := hg m
  exact ⟨out, by simp [hm, hout]⟩

theorem CompleteFor.or (hf : CompleteFor textLen f R) (hg : CompleteFor textLen g S) :
    CompleteFor textLen (fun i => (f i).or (g i)) fun i j => R i j ∨ S i j := by
  intro i j hi h
  show ∃ k, (f i).or (g i) = some k
  cases hfi : f i with
  | some k => exact ⟨k, rfl⟩
  | none =>
    cases h with
    | inl h =>
      obtain ⟨k, hk⟩ := hf i j hi h
      rw [hfi] at hk
      cases hk
    | inr h =>
      obtain ⟨k, hk⟩ := hg i j hi h
      exact ⟨k, by rw [Option.none_or, hk]⟩

/-! Repeats. -/

theorem greedy_suffix (once : Nat → Option Nat) :
    ∀ k cur positions, ∃ front, greedy once k cur positions = front ++ positions := by
  intro k
  induction k with
  | zero => exact fun _ _ => ⟨[], rfl⟩
  | succ k ih =>
    intro cur positions
    rw [greedy]
    cases once cur with
    | none => exact ⟨[], rfl⟩
    | some next =>
      show ∃ front, (if next = cur then _ else _) = front ++ positions
      by_cases hsame : next = cur
      · rw [if_pos hsame]
        exact ⟨[], rfl⟩
      · rw [if_neg hsame]
        obtain ⟨front, hfront⟩ := ih next (next :: positions)
        exact ⟨front ++ [next], by rw [hfront]; simp⟩

theorem stays {i j : Nat} (hstay : ∀ k, R i k → k = i) (h : Relation.ReflTransGen R i j) : j = i := by
  induction h with
  | refl => rfl
  | tail _ hstep ih =>
    subst ih
    exact hstay _ hstep

theorem greedy_collects (hcomplete : CompleteFor textLen f R) (hsound : SoundFor textLen f R)
    (hR : Goes textLen R) (hone : SingleEnd textLen R) :
    ∀ k cur positions, cur ≤ textLen → textLen ≤ cur + k → cur ∈ positions →
      ∀ j, Relation.ReflTransGen R cur j → j ∈ greedy f k cur positions := by
  intro k
  induction k with
  | zero =>
    intro cur positions hcur hk hmem j hj
    obtain ⟨h₁, h₂⟩ := hR.closure cur j hcur hj
    obtain rfl : cur = j := by omega
    exact hmem
  | succ k ih =>
    intro cur positions hcur hk hmem j hj
    rw [greedy]
    cases hstep : f cur with
    | none =>
      have hstay : ∀ k, R cur k → k = cur := by
        intro k hk
        rw [hcomplete.reports hsound hone hcur hk] at hstep
        cases hstep
      rw [stays hstay hj]
      exact hmem
    | some next =>
      show j ∈ (if next = cur then _ else _)
      by_cases hsame : next = cur
      · have hstay : ∀ k, R cur k → k = cur := by
          intro k hk
          rw [hcomplete.reports hsound hone hcur hk] at hstep
          injection hstep with hstep
          omega
        rw [if_pos hsame, stays hstay hj]
        exact hmem
      · rw [if_neg hsame]
        obtain ⟨h₁, h₂⟩ := hR cur next hcur (hsound cur next hcur hstep)
        cases Relation.ReflTransGen.cases_head hj with
        | inl h =>
          obtain ⟨front, hfront⟩ := greedy_suffix f k next (next :: positions)
          rw [hfront, ← h]
          simp [hmem]
        | inr h =>
          obtain ⟨m, hm, hmj⟩ := h
          rw [hcomplete.reports hsound hone hcur hm] at hstep
          injection hstep with hstep
          subst hstep
          exact ih m (m :: positions) h₂ (by omega) List.mem_cons_self j hmj

theorem attempt_complete {minCount q : Nat} {front behind : List Nat}
    (hlen : minCount ≤ behind.length) (hq : ∃ out, g q = some out) :
    ∃ out, attempt g minCount (front ++ q :: behind) = some out := by
  induction front with
  | nil =>
    obtain ⟨out, hout⟩ := hq
    exact ⟨out, by simp [attempt, hlen, hout]⟩
  | cons r front ih =>
    obtain ⟨out, hout⟩ := ih
    rw [List.cons_append, attempt, if_pos (by simp; omega)]
    cases hr : g r with
    | some k => exact ⟨k, rfl⟩
    | none => exact ⟨out, by rw [Option.none_or, hout]⟩

/-- The positions that a repeat collects hold one that is a step away at least, if the relation
leads to it in a step at least and no step stays where it is. -/
theorem greedy_splits (hcomplete : CompleteFor textLen f R) (hsound : SoundFor textLen f R)
    (hR : Goes textLen R) (hone : SingleEnd textLen R) {i k rounds minCount : Nat}
    (hi : i ≤ textLen) (hrounds : textLen ≤ i + rounds)
    (hreach : Relation.ReflTransGen R i k) (hmin : minCount = 0 ∨ minCount = 1 ∧ k ≠ i) :
    ∃ front behind, greedy f rounds i [i] = front ++ k :: behind ∧ minCount ≤ behind.length := by
  have hmem := greedy_collects hcomplete hsound hR hone rounds i [i] hi hrounds List.mem_cons_self k hreach
  obtain ⟨front, hfront⟩ := greedy_suffix f rounds i [i]
  rw [hfront] at hmem ⊢
  cases List.mem_append.mp hmem with
  | inl h =>
    obtain ⟨a, b, rfl⟩ := List.append_of_mem h
    refine ⟨a, b ++ [i], by simp, ?_⟩
    simp only [List.length_append, List.length_singleton]
    omega
  | inr h =>
    obtain rfl : k = i := by simpa using h
    exact ⟨front, [], rfl, by simp only [List.length_nil]; omega⟩

theorem greedy_moves {i m rounds : Nat} (hstep : f i = some m) (hne : m ≠ i)
    (hrounds : 0 < rounds) : ∃ front, greedy f rounds i [i] = front ++ m :: [i] := by
  obtain ⟨k, rfl⟩ : ∃ k, rounds = k + 1 := ⟨rounds - 1, by omega⟩
  obtain ⟨front, hfront⟩ := greedy_suffix f k m [m, i]
  refine ⟨front, ?_⟩
  rw [greedy, hstep]
  show (if m = i then _ else _) = _
  rw [if_neg hne, hfront]

theorem transGen_lt (hR : Goes textLen R) (hmoves : ∀ i, i ≤ textLen → ¬R i i) {i k : Nat}
    (hi : i ≤ textLen) (h : Relation.TransGen R i k) : i < k := by
  obtain ⟨m, hm, hmk⟩ := Relation.TransGen.head'_iff.mp h
  obtain ⟨h₁, h₂⟩ := hR i m hi hm
  have hne : i ≠ m := fun heq => hmoves i hi (heq ▸ hm)
  have hle := (hR.closure m k h₂ hmk).1
  omega

end Rules

/-! What the arithmetic of the repeat does on texts that leave room in an `int`. -/

theorem intOf_small {n : Nat} (h : n < 2147483648) : intOf n = n := by
  have hmod : intOf n = if (n : Int) % 4294967296 < 2147483648 then (n : Int) % 4294967296
      else (n : Int) % 4294967296 - 4294967296 := rfl
  rw [hmod, if_pos (by omega)]
  omega

theorem positionsSize_small {n : Nat} (h : n < 2147483648) : positionsSize n = 4 * n := by
  unfold positionsSize
  omega

/-- Room for the positions of a text, in memory and in an `int`. -/
structure Room (malloc : Nat → Bool) (textLen : Nat) : Prop where
  mem : ∀ size, size ≤ 4 * (textLen + 1) → malloc size = true
  len : textLen < 2147483647

section Repeat
variable {textLen : Nat} {malloc : Nat → Bool} {f g : Nat → Option Nat}

theorem repeatRun_eq (room : Room malloc textLen) {i minCount : Nat} (hi : i ≤ textLen) :
    repeatRun malloc textLen f g minCount i = attempt g minCount (greedy f (textLen - i) i [i]) := by
  have hlen := room.len
  have hcap : intOf (textLen - i + 1) = ((textLen - i + 1 : Nat) : Int) := intOf_small (by omega)
  have hsize : malloc (positionsSize (intOf (textLen - i + 1))) = true := by
    rw [hcap, positionsSize_small (by omega)]
    exact room.mem _ (by omega)
  have hrounds : (((textLen - i + 1 : Nat) : Int) - 1).toNat = textLen - i := by omega
  unfold repeatRun
  rw [if_pos hsize, hcap, hrounds]

end Repeat

/-! Completeness on determined trees. -/

section Complete
variable (text : List Char) (textLen : Nat)

mutual

theorem goes_atom (a : Atom) : Goes textLen (a.Matches text textLen) := by
  cases a with
  | plain | escape | charClass =>
    intro i j hi hij
    exact goes_eats _ i j hi (by simpa only [Atom.Matches] using hij)
  | group inner =>
    intro i j hi hij
    exact goes_expr inner i j hi (by simpa only [Atom.Matches] using hij)

theorem goes_sequence (s : Sequence) : Goes textLen (s.Matches text textLen) := by
  cases s with
  | empty =>
    intro i j hi hij
    obtain rfl : i = j := by simpa only [Matches] using hij
    omega
  | anchor a rest =>
    intro i j hi hij
    simp only [Matches] at hij
    obtain ⟨k, hk, hkj⟩ := hij
    have hki : k = i := by cases a <;> exact hk.2
    subst hki
    exact goes_sequence rest k j hi hkj
  | item a q rest =>
    have hatom := goes_atom a
    have hrest := goes_sequence rest
    intro i j hi hij
    have hthen : ∀ k, i ≤ k ∧ k ≤ textLen → rest.Matches text textLen k j → i ≤ j ∧ j ≤ textLen := by
      intro k hk hkj
      obtain ⟨h₁, h₂⟩ := hrest k j hk.2 hkj
      omega
    cases q with
    | none =>
      simp only [Matches] at hij
      obtain ⟨k, hik, hkj⟩ := hij
      exact hthen k (hatom i k hi hik) hkj
    | some q =>
      cases q with
      | optional =>
        simp only [Matches] at hij
        cases hij with
        | inl h => exact hrest i j hi h
        | inr h =>
          obtain ⟨k, hik, hkj⟩ := h
          exact hthen k (hatom i k hi hik) hkj
      | star =>
        simp only [Matches] at hij
        obtain ⟨k, hik, hkj⟩ := hij
        exact hthen k (hatom.closure i k hi hik) hkj
      | plus =>
        simp only [Matches] at hij
        obtain ⟨k, hik, hkj⟩ := hij
        exact hthen k (hatom.closure i k hi hik.to_reflTransGen) hkj

theorem goes_expr (e : Expr) : Goes textLen (e.Matches text textLen) := by
  cases e with
  | single s =>
    intro i j hi hij
    exact goes_sequence s i j hi (by simpa only [Expr.Matches] using hij)
  | branch s rest =>
    intro i j hi hij
    simp only [Expr.Matches] at hij
    cases hij with
    | inl h => exact goes_sequence s i j hi h
    | inr h => exact goes_expr rest i j hi h

end

variable {text} {textLen} {malloc : Nat → Bool}

mutual

theorem complete_once (room : Room malloc textLen) (a : Atom) (hdet : a.Determined text textLen) :
    CompleteFor textLen (a.once malloc text textLen) (a.Matches text textLen) := by
  cases a with
  | plain | escape | charClass =>
    intro i j hi hij
    simp only [Atom.Matches] at hij
    simpa only [Atom.once] using complete_eat _ i j hi hij
  | group inner =>
    intro i j hi hij
    simp only [Atom.Matches] at hij
    simp only [Atom.Determined] at hdet
    simpa only [Atom.once] using complete_expr room inner hdet i j hi hij

theorem complete_sequence (room : Room malloc textLen) (s : Sequence) (hdet : s.Determined text textLen) :
    CompleteFor textLen (s.run malloc text textLen) (s.Matches text textLen) := by
  cases s with
  | empty =>
    intro i j hi hij
    exact ⟨i, by simp only [run]⟩
  | anchor a rest =>
    simp only [Sequence.Determined] at hdet
    intro i j hi hij
    simp only [Matches] at hij
    obtain ⟨k, hk, hkj⟩ := hij
    obtain ⟨out, hout⟩ := complete_sequence room rest hdet k j (by cases a <;> rw [hk.2] <;> exact hi) hkj
    have honce : a.once textLen i = some k := by
      cases a <;> simp only [Anchor.once, hk.1, hk.2, if_true]
    exact ⟨out, by simp only [run, honce, Option.bind_some, hout]⟩
  | item a q rest =>
    simp only [Sequence.Determined] at hdet
    obtain ⟨hatomdet, hend, hmoves, hrestdet⟩ := hdet
    have hatom := complete_once room a hatomdet
    have hsound := sound_once text textLen malloc a
    have hgoes := goes_atom text textLen a
    have hrest := complete_sequence room rest hrestdet
    have hbind : CompleteFor textLen
        (fun i => (a.once malloc text textLen i).bind fun k => rest.run malloc text textLen k)
        fun i j => ∃ k, a.Matches text textLen i k ∧ rest.Matches text textLen k j := by
      cases hend with
      | inl h =>
        subst h
        exact hatom.bind_total fun k => ⟨k, by simp only [run]⟩
      | inr h => exact hatom.bind hsound hgoes hrest h
    intro i j hi hij
    cases q with
    | none =>
      simp only [Matches] at hij
      simpa only [run] using hbind i j hi hij
    | some q =>
      cases q with
      | optional =>
        simp only [Matches] at hij
        simpa only [run] using hrest.or hbind i j hi hij
      | star =>
        simp only [Matches] at hij
        simp only [run]
        rw [repeatRun_eq room hi]
        obtain ⟨k, hik, hkj⟩ := hij
        cases hend with
        | inl h =>
          -- the start itself is followed up
          subst h
          obtain ⟨front, hfront⟩ :=
            greedy_suffix (fun cur => a.once malloc text textLen cur) (textLen - i) i [i]
          rw [hfront]
          exact attempt_complete (Nat.zero_le _) ⟨i, by simp only [run]⟩
        | inr h =>
          obtain ⟨front, behind, hfront, hmin⟩ := greedy_splits hatom hsound hgoes h hi
            (show textLen ≤ i + (textLen - i) by omega) hik (.inl rfl)
          rw [hfront]
          exact attempt_complete hmin (hrest k j (hgoes.closure i k hi hik).2 hkj)
      | plus =>
        simp only [Matches] at hij
        simp only [run]
        rw [repeatRun_eq room hi]
        obtain ⟨k, hik, hkj⟩ := hij
        have hlt := transGen_lt hgoes (hmoves rfl) hi hik
        have hreach := hgoes.closure i k hi hik.to_reflTransGen
        cases hend with
        | inl h =>
          subst h
          obtain ⟨m, hm, _⟩ := Relation.TransGen.head'_iff.mp hik
          obtain ⟨m', hm'⟩ := hatom i m hi hm
          have hne : m' ≠ i := by
            intro heq
            subst heq
            exact hmoves rfl m' hi (hsound m' m' hi hm')
          obtain ⟨front, hfront⟩ := greedy_moves hm' hne (show 0 < textLen - i by omega)
          rw [hfront]
          exact attempt_complete (Nat.le_refl _) ⟨m', by simp only [run]⟩
        | inr h =>
          obtain ⟨front, behind, hfront, hmin⟩ := greedy_splits hatom hsound hgoes h hi
            (show textLen ≤ i + (textLen - i) by omega) hik.to_reflTransGen
            (.inr ⟨rfl, by omega⟩)
          rw [hfront]
          exact attempt_complete hmin (hrest k j hreach.2 hkj)

theorem complete_expr (room : Room malloc textLen) (e : Expr) (hdet : e.Determined text textLen) :
    CompleteFor textLen (e.run malloc text textLen) (e.Matches text textLen) := by
  cases e with
  | single s =>
    simp only [Expr.Determined] at hdet
    intro i j hi hij
    simp only [Expr.Matches] at hij
    simpa only [Expr.run] using complete_sequence room s hdet i j hi hij
  | branch s rest =>
    simp only [Expr.Determined] at hdet
    intro i j hi hij
    simp only [Expr.Matches] at hij
    simpa only [Expr.run] using
      (complete_sequence room s hdet.1).or (complete_expr room rest hdet.2) i j hi hij

end

end Complete

/-! The search. -/

theorem exists_least {malloc : Nat → Bool} {e : Expr} {text : List Char} {textLen i out : Nat}
    (h : e.run malloc text textLen i = some out) :
    ∃ q, q ≤ i ∧ (∃ out, e.run malloc text textLen q = some out) ∧
      ∀ r, r < q → e.run malloc text textLen r = none := by
  classical
  have hex : ∃ q, ∃ out, e.run malloc text textLen q = some out := ⟨i, out, h⟩
  refine ⟨Nat.find hex, Nat.find_min' hex ⟨out, h⟩, Nat.find_spec hex, fun r hr => ?_⟩
  rw [Option.eq_none_iff_forall_ne_some]
  exact fun out hout => Nat.find_min hex hr ⟨out, hout⟩

def letter (c : Char) (h : ordinary c = true) (rest : Sequence) : Sequence :=
  .item (.plain c h) none rest

/-- `(a|b)+c`. -/
def someThenC : Expr :=
  .single (.item (.group (.branch (letter 'a' rfl .empty) (.single (letter 'b' rfl .empty))))
    (some .plus) (letter 'c' rfl .empty))

/-- `(a|ab)c`. -/
def shortThenC : Expr :=
  .single (.item (.group (.branch (letter 'a' rfl .empty)
    (.single (letter 'a' rfl (letter 'b' rfl .empty))))) none (letter 'c' rfl .empty))

def abc : CString := ⟨['a', 'b', 'c'], by decide⟩

theorem eats_here {text : List Char} {accepts : Char → Bool} {i : Nat} {t : Char}
    (hi : text[i]? = some t) (hacc : accepts t = true) :
    Eats text text.length accepts i (i + 1) :=
  ⟨(List.getElem?_eq_some_iff.mp hi).1, rfl, t, hi, hacc⟩

end TurboScript.Regex
