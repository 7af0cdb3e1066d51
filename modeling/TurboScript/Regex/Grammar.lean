import TurboScript.Regex.Pattern

/- The grammar of the patterns, and the scanners on the text of a derivation.

   The trees carry the side conditions of the grammar: an ordinary character is none of the
   special ones, a class is closed by its first unescaped bracket and is short, an anchor takes
   no quantifier. `render` is the text of a tree.

   The three scanners are right on every such text, wherever it stands in a pattern: one that
   walks over the text of an atom or of a sequence comes out behind it with the depth it went
   in with (`Walks.atom`, `Walks.sequence`). -/
namespace TurboScript.Regex

/-- A character that stands for itself, or for any character if it is the dot. -/
def ordinary (c : Char) : Bool :=
  !(c == '|' || c == ')' || c == '(' || c == '[' || c == '\\' || isquantifier c || c == '^' || c == '$')

/-- What may stand between the brackets of a class: no unescaped `]`, and no backslash
without a character after it. -/
def closedBody : List Char → Bool
  | [] => true
  | [c] => c != '\\' && c != ']'
  | c :: d :: rest =>
    if c = '\\' then closedBody rest else c != ']' && closedBody (d :: rest)

inductive Anchor where
  | bol
  | eol
  deriving DecidableEq, Repr

inductive Quantifier where
  | star
  | plus
  | optional
  deriving DecidableEq, Repr

mutual

inductive Atom where
  | plain (c : Char) (h : ordinary c = true)
  | escape (c : Char)
  | charClass (body : List Char) (closed : closedBody body = true)
      (short : body.length + 1 < maxCharClassLen)
  | group (inner : Expr)

inductive Sequence where
  | empty
  | anchor (a : Anchor) (rest : Sequence)
  | item (a : Atom) (q : Option Quantifier) (rest : Sequence)

inductive Expr where
  | single (s : Sequence)
  | branch (s : Sequence) (rest : Expr)

end

def Anchor.char : Anchor → Char
  | .bol => '^'
  | .eol => '$'

def Quantifier.char : Quantifier → Char
  | .star => '*'
  | .plus => '+'
  | .optional => '?'

def quantifierText : Option Quantifier → List Char
  | none => []
  | some q => [q.char]

mutual

def Atom.render : Atom → List Char
  | .plain c _ => [c]
  | .escape c => ['\\', c]
  | .charClass body _ _ => '[' :: (body ++ [']'])
  | .group inner => '(' :: (inner.render ++ [')'])

def Sequence.render : Sequence → List Char
  | .empty => []
  | .anchor a rest => a.char :: rest.render
  | .item a q rest => a.render ++ (quantifierText q ++ rest.render)

def Expr.render : Expr → List Char
  | .single s => s.render
  | .branch s rest => s.render ++ '|' :: rest.render

end

/-! Where a text stands in a pattern. -/

/-- `p` reads `l` from position `i` on. -/
def Reads (p : List Char) (i : Nat) (l : List Char) : Prop :=
  ∃ before after, p = before ++ (l ++ after) ∧ before.length = i

variable {p : List Char} {i : Nat}

theorem Reads.nil (h : i ≤ p.length) : Reads p i [] :=
  ⟨p.take i, p.drop i, by simp, by simp [h]⟩

theorem Reads.length_le {l : List Char} (h : Reads p i l) : i + l.length ≤ p.length := by
  obtain ⟨before, after, rfl, rfl⟩ := h
  simp only [List.length_append]
  omega

theorem reads_append {l m : List Char} : Reads p i (l ++ m) ↔ Reads p i l ∧ Reads p (i + l.length) m := by
  constructor
  · intro h
    obtain ⟨before, after, rfl, rfl⟩ := h
    exact ⟨⟨before, m ++ after, by simp, rfl⟩, ⟨before ++ l, after, by simp, by simp⟩⟩
  · intro h
    obtain ⟨⟨before, after, hp, rfl⟩, before', after', hp', hlen⟩ := h
    -- both readings cut the pattern behind `l`
    have hcut : before' = before ++ l ∧ m ++ after' = after := by
      have heq : before' ++ (m ++ after') = (before ++ l) ++ after := by
        rw [← hp', hp]
        simp
      exact List.append_inj heq (by simp [hlen])
    refine ⟨before, after', ?_, rfl⟩
    rw [hp, ← hcut.2]
    simp

theorem reads_cons {l : List Char} {c : Char} :
    Reads p i (c :: l) ↔ p[i]? = some c ∧ Reads p (i + 1) l := by
  have hone : Reads p i [c] ↔ p[i]? = some c := by
    constructor
    · intro h
      obtain ⟨before, after, rfl, rfl⟩ := h
      simp
    · intro h
      obtain ⟨hlt, hget⟩ := List.getElem?_eq_some_iff.mp h
      refine ⟨p.take i, p.drop (i + 1), ?_, by simp; omega⟩
      rw [← hget]
      simp
  rw [← hone]
  exact reads_append (l := [c])

@[simp] theorem length_pos_render_atom (a : Atom) : 0 < a.render.length := by
  cases a <;> simp [Atom.render]

/-! One read. -/

theorem patternAt_ok {start stop : Nat} {c : Char} (hget : p[i]? = some c) (hstart : start ≤ i)
    (hstop : i < stop) : patternAt p start stop i = .ok c := by
  unfold patternAt
  rw [if_pos ⟨hstart, hstop⟩, hget]

theorem exists_char {stop : Nat} (hstop : stop ≤ p.length) (hi : i < stop) : ∃ c, p[i]? = some c :=
  ⟨p[i], List.getElem?_eq_getElem (by omega)⟩

/-! The class scanner. -/

section ClassScan
variable {p : List Char} {start stop : Nat}

theorem classLoop_escape {n i : Nat} (h : p[i]? = some '\\') (hs : start ≤ i)
    (hi : i + 1 < stop) : classLoop p start stop (n + 1) i = classLoop p start stop n (i + 2) := by
  rw [classLoop, if_pos (by omega), patternAt_ok h hs (by omega), Run.ok_bind, if_pos rfl,
    if_neg (by omega)]

theorem classLoop_close {n i : Nat} (h : p[i]? = some ']') (hs : start ≤ i) (hi : i < stop) :
    classLoop p start stop (n + 1) i = .ok (some i) := by
  rw [classLoop, if_pos hi, patternAt_ok h hs hi]
  rfl

theorem classLoop_other {n i : Nat} {c : Char} (h : p[i]? = some c) (hs : start ≤ i)
    (hi : i < stop) (hesc : c ≠ '\\') (hclose : c ≠ ']') :
    classLoop p start stop (n + 1) i = classLoop p start stop n (i + 1) := by
  rw [classLoop, if_pos hi, patternAt_ok h hs hi, Run.ok_bind, if_neg hesc, if_neg hclose]

theorem classLoop_body (body : List Char) (hbody : closedBody body = true) :
    ∀ n i, start ≤ i → Reads p i (body ++ [']']) → i + body.length < stop → body.length < n →
      classLoop p start stop n i = .ok (some (i + body.length)) := by
  induction body using closedBody.induct with
  | case1 =>
    intro n i hs hread hstop hn
    obtain ⟨k, rfl⟩ : ∃ k, n = k + 1 := ⟨n - 1, by omega⟩
    have h := (reads_cons.mp hread).1
    exact classLoop_close h hs (by simpa using hstop)
  | case2 c =>
    intro n i hs hread hstop hn
    simp only [closedBody, Bool.and_eq_true, bne_iff_ne] at hbody
    obtain ⟨k, rfl⟩ : ∃ k, n = k + 2 := ⟨n - 2, by simp at hn; omega⟩
    obtain ⟨hc, hrest⟩ := reads_cons.mp hread
    have hclose := (reads_cons.mp hrest).1
    simp only [List.length_cons, List.length_nil] at hstop ⊢
    rw [classLoop_other hc hs (by omega) hbody.1 hbody.2]
    exact classLoop_close hclose (by omega) (by omega)
  | case3 d rest ih =>
    intro n i hs hread hstop hn
    simp only [closedBody, if_true] at hbody
    simp only [List.length_cons] at hstop hn ⊢
    obtain ⟨k, rfl⟩ : ∃ k, n = k + 1 := ⟨n - 1, by omega⟩
    obtain ⟨hc, hrest⟩ := reads_cons.mp hread
    have hrest := (reads_cons.mp hrest).2
    rw [classLoop_escape hc hs (by omega), ih hbody k (i + 2) (by omega) hrest (by omega) (by omega)]
    congr 2
    omega
  | case4 c d rest hesc ih =>
    intro n i hs hread hstop hn
    simp only [closedBody, if_neg hesc, Bool.and_eq_true, bne_iff_ne] at hbody
    simp only [List.length_cons] at hstop hn ⊢ ih
    obtain ⟨k, rfl⟩ : ∃ k, n = k + 1 := ⟨n - 1, by omega⟩
    obtain ⟨hc, hrest⟩ := reads_cons.mp hread
    rw [classLoop_other hc hs (by omega) hesc hbody.1,
      ih hbody.2 k (i + 1) (by omega) hrest (by omega) (by omega)]
    congr 2
    omega

theorem findCharClassEnd_body {i : Nat} (body : List Char) (hbody : closedBody body = true)
    (hread : Reads p i ('[' :: (body ++ [']']))) (hstop : i + 1 + body.length < stop) :
    findCharClassEnd p i stop = .ok (some (i + 1 + body.length)) := by
  have hbody' := (reads_cons.mp hread).2
  unfold findCharClassEnd
  rw [if_pos (show i + 1 < stop by omega)]
  cases body with
  | nil =>
    have hc := (reads_cons.mp hbody').1
    rw [patternAt_ok hc (by omega) (by omega), Run.ok_bind, if_neg (by decide)]
    exact classLoop_body [] rfl _ _ (by omega) hbody' (by simpa using hstop) (by simp)
  | cons c rest =>
    obtain ⟨hc, hrest⟩ := reads_cons.mp hbody'
    rw [patternAt_ok hc (by omega) (by omega), Run.ok_bind]
    by_cases hcaret : c = '^'
    · -- the caret is passed here and not in the loop
      subst hcaret
      rw [if_pos rfl]
      have hclosed : closedBody rest = true := by
        cases rest with
        | nil => rfl
        | cons d rest => simpa [closedBody] using hbody
      simp only [List.length_cons] at hstop ⊢
      rw [classLoop_body rest hclosed _ _ (by omega) hrest (by omega) (by omega)]
      congr 2
      omega
    · rw [if_neg hcaret]
      exact classLoop_body _ hbody _ _ (by omega) hbody' (by omega) (by omega)

end ClassScan

/-! The scanners that count depth. Both walk the pattern the same way and differ in where
they stop, so what a walk over the text of a tree does is said once, for every loop with
these steps above the depth `base`. -/

structure Walks (p : List Char) (start stop base : Nat)
    (L : Nat → Nat → Nat → Run (Option Nat)) : Prop where
  escape : ∀ {n i d}, p[i]? = some '\\' → start ≤ i → i + 1 < stop →
    L (n + 1) i d = L n (i + 2) d
  skip : ∀ {n i d k}, p[i]? = some '[' → start ≤ i → i < stop →
    findCharClassEnd p i stop = .ok (some k) → L (n + 1) i d = L n (k + 1) d
  opens : ∀ {n i d}, p[i]? = some '(' → start ≤ i → i < stop →
    L (n + 1) i d = L n (i + 1) (d + 1)
  closes : ∀ {n i d}, p[i]? = some ')' → start ≤ i → i < stop → base ≤ d →
    L (n + 1) i (d + 1) = L n (i + 1) d
  bar : ∀ {n i d}, p[i]? = some '|' → start ≤ i → i < stop →
    L (n + 1) i (d + 1) = L n (i + 1) (d + 1)
  other : ∀ {n i d c}, p[i]? = some c → start ≤ i → i < stop →
    c ≠ '\\' → c ≠ '[' → c ≠ '(' → c ≠ ')' → c ≠ '|' → L (n + 1) i d = L n (i + 1) d

theorem walks_groupLoop (p : List Char) (start stop : Nat) :
    Walks p start stop 1 (groupLoop p start stop) where
  escape h hs hi := by
    rw [groupLoop, if_pos (by omega), patternAt_ok h hs (by omega), Run.ok_bind, if_pos rfl,
      if_neg (by omega)]
  skip h hs hi hk := by
    rw [groupLoop, if_pos hi, patternAt_ok h hs hi, Run.ok_bind, if_neg (by decide), if_pos rfl, hk]
    rfl
  opens h hs hi := by
    rw [groupLoop, if_pos hi, patternAt_ok h hs hi]
    rfl
  closes h hs hi hd := by
    rw [groupLoop, if_pos hi, patternAt_ok h hs hi, Run.ok_bind, if_neg (by decide),
      if_neg (by decide), if_neg (by decide), if_pos rfl, if_neg (by omega), Nat.add_sub_cancel]
  bar h hs hi := by
    rw [groupLoop, if_pos hi, patternAt_ok h hs hi]
    rfl
  other h hs hi h₁ h₂ h₃ h₄ _ := by
    rw [groupLoop, if_pos hi, patternAt_ok h hs hi, Run.ok_bind, if_neg h₁, if_neg h₂, if_neg h₃, if_neg h₄]

theorem walks_branchLoop (p : List Char) (start stop : Nat) :
    Walks p start stop 0 (branchLoop p start stop) where
  escape h hs hi := by
    rw [branchLoop, if_pos (by omega), patternAt_ok h hs (by omega), Run.ok_bind, if_pos rfl,
      if_neg (by omega)]
  skip h hs hi hk := by
    rw [branchLoop, if_pos hi, patternAt_ok h hs hi, Run.ok_bind, if_neg (by decide), if_pos rfl, hk]
    rfl
  opens h hs hi := by
    rw [branchLoop, if_pos hi, patternAt_ok h hs hi]
    rfl
  closes h hs hi _ := by
    rw [branchLoop, if_pos hi, patternAt_ok h hs hi, Run.ok_bind, if_neg (by decide),
      if_neg (by decide), if_neg (by decide), if_pos rfl, if_neg (by omega), Nat.add_sub_cancel]
  bar h hs hi := by
    rw [branchLoop, if_pos hi, patternAt_ok h hs hi, Run.ok_bind, if_neg (by decide),
      if_neg (by decide), if_neg (by decide), if_neg (by decide), if_neg (by simp)]
  other h hs hi h₁ h₂ h₃ h₄ h₅ := by
    rw [branchLoop, if_pos hi, patternAt_ok h hs hi, Run.ok_bind, if_neg h₁, if_neg h₂, if_neg h₃,
      if_neg h₄, if_neg (by simp [h₅])]

/-- With `k` steps more, the loop at position `i` and depth `d` does what it does with fuel
from `N` on at position `j` and depth `e`. -/
def Comes (L : Nat → Nat → Nat → Run (Option Nat)) (k i d j e : Nat) : Prop :=
  ∀ N r, (∀ m ≥ N, L m j e = .ok r) → ∀ m ≥ N + k, L m i d = .ok r

namespace Comes
variable {L : Nat → Nat → Nat → Run (Option Nat)} {i j k l a b d e f : Nat}

theorem refl (L : Nat → Nat → Nat → Run (Option Nat)) (i d : Nat) : Comes L 0 i d i d :=
  fun _ _ h => h

theorem trans (h : Comes L a i d j e) (h' : Comes L b j e k f) : Comes L (a + b) i d k f := by
  intro N r hN m hm
  exact h (N + b) r (h' N r hN) m (by omega)

theorem mono (h : Comes L a i d j e) (hab : a ≤ b) : Comes L b i d j e := by
  intro N r hN m hm
  exact h N r hN m (by omega)

theorem lands (h : Comes L a i d j e) (hab : a ≤ b) (hj : j = k) : Comes L b i d k e :=
  hj ▸ h.mono hab

theorem step (h : ∀ n, L (n + 1) i d = L n j e) : Comes L 1 i d j e := by
  intro N r hN m hm
  obtain ⟨n, rfl⟩ : ∃ n, m = n + 1 := ⟨m - 1, by omega⟩
  rw [h]
  exact hN n (by omega)

end Comes

theorem ordinary_plain {c : Char} (h : ordinary c = true) :
    c ≠ '\\' ∧ c ≠ '[' ∧ c ≠ '(' ∧ c ≠ ')' ∧ c ≠ '|' ∧ isquantifier c = false ∧ c ≠ '^' ∧ c ≠ '$' := by
  simp only [ordinary, Bool.not_eq_true', Bool.or_eq_false_iff, beq_eq_false_iff_ne] at h
  obtain ⟨⟨⟨⟨⟨⟨⟨h₁, h₂⟩, h₃⟩, h₄⟩, h₅⟩, h₆⟩, h₇⟩, h₈⟩ := h
  exact ⟨h₅, h₄, h₃, h₂, h₁, h₆, h₇, h₈⟩

namespace Walks
variable {p : List Char} {start stop base : Nat} {L : Nat → Nat → Nat → Run (Option Nat)}

theorem quantifier (h : Walks p start stop base L) (q : Option Quantifier) {i d : Nat}
    (hread : Reads p i (quantifierText q)) (hs : start ≤ i)
    (hi : i + (quantifierText q).length ≤ stop) :
    Comes L (quantifierText q).length i d (i + (quantifierText q).length) d := by
  cases q with
  | none => exact Comes.refl L i d
  | some q =>
    have hc := (reads_cons.mp hread).1
    have hi : i < stop := by
      simp only [quantifierText, List.length_singleton] at hi
      omega
    refine Comes.step fun n => h.other hc hs hi ?_ ?_ ?_ ?_ ?_ <;> cases q <;> decide

mutual

theorem atom (h : Walks p start stop base L) (a : Atom) :
    ∀ {i d : Nat}, Reads p i a.render → start ≤ i → i + a.render.length ≤ stop → base ≤ d →
      Comes L a.render.length i d (i + a.render.length) d := by
  intro i d hread hs hi hd
  cases a with
  | plain c hc =>
    obtain ⟨h₁, h₂, h₃, h₄, h₅, _⟩ := ordinary_plain hc
    have hget := (reads_cons.mp hread).1
    exact Comes.step fun n => h.other hget hs hi h₁ h₂ h₃ h₄ h₅
  | escape c =>
    have hget := (reads_cons.mp hread).1
    exact (Comes.step fun n => h.escape hget hs hi).mono (by simp [Atom.render])
  | charClass body closed short =>
    have hget := (reads_cons.mp hread).1
    simp only [Atom.render, List.length_cons, List.length_append, List.length_nil] at hi ⊢
    have hend : findCharClassEnd p i stop = .ok (some (i + 1 + body.length)) :=
      findCharClassEnd_body body closed hread (by omega)
    have hstep := Comes.step (L := L) (d := d) fun n => h.skip hget hs (by omega) hend
    exact hstep.lands (by omega) (by omega)
  | group inner =>
    obtain ⟨hopen, hrest⟩ := reads_cons.mp hread
    obtain ⟨hinner, hclose⟩ := reads_append.mp hrest
    have hclose := (reads_cons.mp hclose).1
    simp only [Atom.render, List.length_cons, List.length_append, List.length_nil] at hi ⊢
    have hfirst := Comes.step (L := L) (d := d) fun n => h.opens hopen hs (by omega)
    have hmiddle := h.expr inner (d := d) hinner (by omega) (by omega) (by omega)
    have hlast := Comes.step (L := L) (d := d + 1) (e := d) fun n =>
      h.closes hclose (by omega) (by omega) hd
    have hall := (hfirst.trans hmiddle).trans hlast
    exact hall.lands (by omega) (by omega)

theorem sequence (h : Walks p start stop base L) (s : Sequence) :
    ∀ {i d : Nat}, Reads p i s.render → start ≤ i → i + s.render.length ≤ stop → base ≤ d →
      Comes L s.render.length i d (i + s.render.length) d := by
  intro i d hread hs hi hd
  cases s with
  | empty => exact Comes.refl L i d
  | anchor a rest =>
    obtain ⟨hget, hrest⟩ := reads_cons.mp hread
    simp only [Sequence.render, List.length_cons] at hi ⊢
    have hfirst := Comes.step (L := L) (d := d) fun n =>
      h.other hget hs (by omega) (by cases a <;> decide) (by cases a <;> decide)
        (by cases a <;> decide) (by cases a <;> decide) (by cases a <;> decide)
    have hall := hfirst.trans (h.sequence rest (d := d) hrest (by omega) (by omega) hd)
    exact hall.lands (by omega) (by omega)
  | item a q rest =>
    obtain ⟨hatom, hrest⟩ := reads_append.mp hread
    obtain ⟨hq, hrest⟩ := reads_append.mp hrest
    simp only [Sequence.render, List.length_append] at hi ⊢
    have hfirst := h.atom a (d := d) hatom hs (by omega) hd
    have hmiddle := h.quantifier q (d := d) hq (by omega) (by omega)
    have hlast := h.sequence rest (d := d) hrest (by omega) (by omega) hd
    have hall := (hfirst.trans hmiddle).trans hlast
    exact hall.lands (by omega) (by omega)

theorem expr (h : Walks p start stop base L) (e : Expr) :
    ∀ {i d : Nat}, Reads p i e.render → start ≤ i → i + e.render.length ≤ stop → base ≤ d + 1 →
      Comes L e.render.length i (d + 1) (i + e.render.length) (d + 1) := by
  intro i d hread hs hi hd
  cases e with
  | single s => exact h.sequence s hread hs hi hd
  | branch s rest =>
    obtain ⟨hseq, hrest⟩ := reads_append.mp hread
    obtain ⟨hbar, hrest⟩ := reads_cons.mp hrest
    simp only [Expr.render, List.length_append, List.length_cons] at hi ⊢
    have hfirst := h.sequence s (d := d + 1) hseq hs (by omega) (by omega)
    have hmiddle := Comes.step (L := L) (d := d + 1) fun n => h.bar hbar (by omega) (by omega)
    have hlast := h.expr rest (d := d) hrest (by omega) (by omega) hd
    have hall := (hfirst.trans hmiddle).trans hlast
    exact hall.lands (by omega) (by omega)

end

end Walks

/-! What the scanners return on the text of a tree. -/

section Ends
variable {p : List Char} {i stop : Nat}

theorem findGroupEnd_group (e : Expr) (hread : Reads p i ('(' :: (e.render ++ [')'])))
    (hstop : i + 1 + e.render.length < stop) :
    findGroupEnd p i stop = .ok (some (i + 1 + e.render.length)) := by
  obtain ⟨hinner, hclose⟩ := reads_append.mp (reads_cons.mp hread).2
  have hclose := (reads_cons.mp hclose).1
  have hwalk := (walks_groupLoop p i stop).expr e (d := 0) hinner (by omega) (by omega) (Nat.le_refl _)
  refine hwalk 1 _ (fun m hm => ?_) (stop + 1) (by omega)
  -- at the closing parenthesis the depth is one
  obtain ⟨n, rfl⟩ : ∃ n, m = n + 1 := ⟨m - 1, by omega⟩
  rw [groupLoop, if_pos (by omega), patternAt_ok hclose (by omega) (by omega)]
  rfl

theorem findBranchEnd_sequence (s : Sequence) (hread : Reads p i s.render)
    (hend : i + s.render.length = stop ∨ p[i + s.render.length]? = some '|' ∧ i + s.render.length < stop) :
    findBranchEnd p i stop = .ok (some (i + s.render.length)) := by
  have hle : i + s.render.length ≤ stop := by omega
  have hwalk := (walks_branchLoop p i stop).sequence s (d := 0) hread (by omega) hle (Nat.le_refl _)
  refine hwalk 1 _ (fun m hm => ?_) (stop + 1) (by omega)
  obtain ⟨n, rfl⟩ : ∃ n, m = n + 1 := ⟨m - 1, by omega⟩
  cases hend with
  | inl h =>
    rw [branchLoop, if_neg (by omega), h]
    rfl
  | inr h =>
    rw [branchLoop, if_pos h.2, patternAt_ok h.1 (by omega) h.2]
    rfl

end Ends

/-! The validator accepts the text of every tree. -/

section Accepts
variable {p : List Char}

theorem atom_head (a : Atom) :
    ∃ c rest, a.render = c :: rest ∧ isquantifier c = false ∧ c ≠ '^' ∧ c ≠ '$' := by
  cases a with
  | plain c h =>
    obtain ⟨_, _, _, _, _, hq, hbol, heol⟩ := ordinary_plain h
    exact ⟨c, [], rfl, hq, hbol, heol⟩
  | escape c => exact ⟨'\\', [c], rfl, by decide, by decide, by decide⟩
  | charClass body _ _ => exact ⟨'[', body ++ [']'], rfl, by decide, by decide, by decide⟩
  | group inner => exact ⟨'(', inner.render ++ [')'], rfl, by decide, by decide, by decide⟩

theorem sequence_head (s : Sequence) {i : Nat} (hread : Reads p i s.render)
    (hpos : 0 < s.render.length) : ∃ c, p[i]? = some c ∧ isquantifier c = false := by
  cases s with
  | empty => exact absurd hpos (Nat.lt_irrefl 0)
  | anchor a rest => exact ⟨a.char, (reads_cons.mp hread).1, by cases a <;> decide⟩
  | item a q rest =>
    obtain ⟨c, tail, hrender, hq, _⟩ := atom_head a
    have hatom := (reads_append.mp hread).1
    rw [hrender] at hatom
    exact ⟨c, (reads_cons.mp hatom).1, hq⟩

theorem quantifier_isquantifier (q : Quantifier) : isquantifier q.char = true := by
  cases q <;> decide

theorem atomEndAt_anchor (a : Anchor) {i stop n : Nat} (hget : p[i]? = some a.char)
    (hstop : i < stop) : atomEndAt p (n + 1) i stop = .ok (some (i + 1)) := by
  rw [atomEndAt, if_neg (by omega), patternAt_ok hget (Nat.le_refl _) hstop, Run.ok_bind,
    if_neg (by cases a <;> decide), if_neg (by cases a <;> decide),
    if_neg (by cases a <;> decide), if_neg (by cases a <;> decide)]
  rfl

theorem validateSequence_bare {i j stop n : Nat} (hi : i < stop) (hij : i ≤ j)
    (hend : atomEndAt p n i stop = .ok (some j))
    (hnext : j < stop → ∃ c, p[j]? = some c ∧ isquantifier c = false) :
    validateSequence p (n + 1) i stop = validateSequence p n j stop := by
  rw [validateSequence, if_pos hi, hend, Run.ok_bind]
  by_cases hj : j < stop
  · obtain ⟨c, hc, hq⟩ := hnext hj
    show (if j < stop then _ else _) = _
    rw [if_pos hj, patternAt_ok hc hij hj, Run.ok_bind, if_neg (by simp [hq])]
  · show (if j < stop then _ else _) = _
    rw [if_neg hj]

theorem validateSequence_quantified {i j stop n : Nat} {c q : Char} (hij : i < j) (hj : j < stop)
    (hend : atomEndAt p n i stop = .ok (some j)) (hq : p[j]? = some q)
    (hquant : isquantifier q = true) (hc : p[i]? = some c) (hbol : c ≠ '^') (heol : c ≠ '$') :
    validateSequence p (n + 1) i stop = validateSequence p n (j + 1) stop := by
  rw [validateSequence, if_pos (by omega), hend, Run.ok_bind]
  show (if j < stop then _ else _) = _
  rw [if_pos hj, patternAt_ok hq (by omega) hj, Run.ok_bind, if_pos hquant,
    patternAt_ok hc (by omega) (by omega), Run.ok_bind, if_neg (by simp [hbol, heol])]

mutual

theorem atomEndAt_atom (a : Atom) {i stop n : Nat} (hread : Reads p i a.render)
    (hstop : i + a.render.length ≤ stop) (hn : 3 * a.render.length + 1 ≤ n) :
    atomEndAt p n i stop = .ok (some (i + a.render.length)) := by
  obtain ⟨n, rfl⟩ : ∃ k, n = k + 1 := ⟨n - 1, by omega⟩
  cases a with
  | plain c h =>
    obtain ⟨h₁, h₂, h₃, h₄, h₅, h₆, _⟩ := ordinary_plain h
    have hget := (reads_cons.mp hread).1
    simp only [Atom.render, List.length_singleton] at hstop ⊢
    rw [atomEndAt, if_neg (by omega), patternAt_ok hget (Nat.le_refl _) (by omega), Run.ok_bind,
      if_neg h₂, if_neg h₃, if_neg h₁, if_neg (by simp [h₄, h₅, h₆])]
    rfl
  | escape c =>
    have hget := (reads_cons.mp hread).1
    simp only [Atom.render, List.length_cons, List.length_nil] at hstop ⊢
    rw [atomEndAt, if_neg (by omega), patternAt_ok hget (Nat.le_refl _) (by omega), Run.ok_bind,
      if_neg (by decide), if_neg (by decide), if_pos rfl, if_pos (by omega)]
    rfl
  | charClass body closed short =>
    have hget := (reads_cons.mp hread).1
    simp only [Atom.render, List.length_cons, List.length_append, List.length_nil] at hstop ⊢
    rw [atomEndAt, if_neg (by omega), patternAt_ok hget (Nat.le_refl _) (by omega), Run.ok_bind,
      if_pos rfl, findCharClassEnd_body body closed hread (by omega), Run.ok_bind]
    show (if i + 1 + body.length - i ≥ maxCharClassLen then _ else _) = _
    rw [if_neg (by omega)]
    show Except.ok (some (i + 1 + body.length + 1)) = _
    congr 2
    omega
  | group inner =>
    obtain ⟨hget, hrest⟩ := reads_cons.mp hread
    have hinner := (reads_append.mp hrest).1
    simp only [Atom.render, List.length_cons, List.length_append, List.length_nil] at hstop hn ⊢
    rw [atomEndAt, if_neg (by omega), patternAt_ok hget (Nat.le_refl _) (by omega), Run.ok_bind,
      if_neg (by decide), if_pos rfl, findGroupEnd_group inner hread (by omega), Run.ok_bind]
    show (validateExpr p n (i + 1) (i + 1 + inner.render.length) >>= _) = _
    rw [validateExpr_expr inner hinner rfl (by omega), Run.ok_bind]
    show Except.ok (some (i + 1 + inner.render.length + 1)) = _
    congr 2
    omega

theorem validateSequence_sequence (s : Sequence) {i stop n : Nat} (hread : Reads p i s.render)
    (hstop : i + s.render.length = stop) (hn : 3 * s.render.length + 2 ≤ n) :
    validateSequence p n i stop = .ok true := by
  obtain ⟨n, rfl⟩ : ∃ k, n = k + 1 := ⟨n - 1, by omega⟩
  cases s with
  | empty =>
    rw [validateSequence, if_neg (by simp [Sequence.render] at hstop; omega)]
    rfl
  | anchor a rest =>
    obtain ⟨hget, hrest⟩ := reads_cons.mp hread
    simp only [Sequence.render, List.length_cons] at hstop hn
    obtain ⟨k, rfl⟩ : ∃ k, n = k + 1 := ⟨n - 1, by omega⟩
    rw [validateSequence_bare (by omega) (by omega) (atomEndAt_anchor a hget (by omega))
      fun h => sequence_head rest hrest (by omega)]
    exact validateSequence_sequence rest hrest (by omega) (by omega)
  | item a q rest =>
    obtain ⟨hatom, hrest⟩ := reads_append.mp hread
    obtain ⟨hq, hrest⟩ := reads_append.mp hrest
    have hpos := length_pos_render_atom a
    simp only [Sequence.render, List.length_append] at hstop hn
    have hend : atomEndAt p n i stop = .ok (some (i + a.render.length)) :=
      atomEndAt_atom a hatom (by omega) (by omega)
    cases q with
    | none =>
      simp only [quantifierText, List.length_nil] at hstop hn hrest
      rw [validateSequence_bare (by omega) (by omega) hend fun h => sequence_head rest hrest (by omega)]
      exact validateSequence_sequence rest hrest (by omega) (by omega)
    | some q =>
      obtain ⟨c, tail, hrender, _, hbol, heol⟩ := atom_head a
      have hhead : p[i]? = some c := by
        rw [hrender] at hatom
        exact (reads_cons.mp hatom).1
      have hqget := (reads_cons.mp hq).1
      simp only [quantifierText, List.length_singleton] at hstop hn hrest
      rw [validateSequence_quantified (by omega) (by omega) hend hqget
        (quantifier_isquantifier q) hhead hbol heol]
      exact validateSequence_sequence rest hrest (by omega) (by omega)

theorem validateExpr_expr (e : Expr) {i stop n : Nat} (hread : Reads p i e.render)
    (hstop : i + e.render.length = stop) (hn : 3 * e.render.length + 3 ≤ n) :
    validateExpr p n i stop = .ok true := by
  obtain ⟨n, rfl⟩ : ∃ k, n = k + 1 := ⟨n - 1, by omega⟩
  cases e with
  | single s =>
    simp only [Expr.render] at hread hstop hn
    rw [validateExpr, if_pos (by omega), findBranchEnd_sequence s hread (.inl hstop), Run.ok_bind]
    show (validateSequence p n i (i + s.render.length) >>= _) = _
    rw [validateSequence_sequence s hread rfl (by omega), Run.ok_bind, if_pos rfl, if_pos hstop]
    rfl
  | branch s rest =>
    obtain ⟨hseq, hrest⟩ := reads_append.mp hread
    obtain ⟨hbar, hrest⟩ := reads_cons.mp hrest
    simp only [Expr.render, List.length_append, List.length_cons] at hstop hn
    rw [validateExpr, if_pos (by omega), findBranchEnd_sequence s hseq (.inr ⟨hbar, by omega⟩), Run.ok_bind]
    show (validateSequence p n i (i + s.render.length) >>= _) = _
    rw [validateSequence_sequence s hseq rfl (by omega), Run.ok_bind, if_pos rfl, if_neg (by omega)]
    exact validateExpr_expr rest hrest (by omega) (by omega)

end

end Accepts

end TurboScript.Regex
