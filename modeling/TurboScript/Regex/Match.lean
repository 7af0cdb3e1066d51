import TurboScript.Regex.CharClass

/- The matcher.

   `match_expr`, `match_sequence` and `match_atom_once` call each other on ever smaller
   ranges of the pattern and find the boundaries again at every step. In the model every read of
   the pattern and of the text and every write of the positions array is checked. `Expr.run` is
   the matcher on the tree of the pattern, where nothing is scanned; on the text of every tree
   the two are equal (`matchExpr_run`), so no check fails and the fuel lasts. -/
namespace TurboScript.Regex

/-- `text[i]`, for a text of `textLen` characters. -/
def textAt (text : List Char) (textLen i : Nat) : Run Char :=
  if i < textLen then
    match text[i]? with
    | some c => .ok c
    | none => .error .text
  else .error .text

/-- An `int`. -/
def intOf (n : Nat) : Int := Int.bmod n 4294967296

/-- The size asked of `malloc` for `cap` positions, with the conversions of the source. -/
def positionsSize (cap : Int) : Nat := ((cap % 18446744073709551616) * 4 % 18446744073709551616).toNat

/-- The loop that fills the positions array, the last one first; `entries` is how many there
are room for and the first argument how often the loop may still go round. -/
def repeatLoop (once : Nat → Run (Option Nat)) (entries : Nat) : Nat → Nat → List Nat → Run (List Nat)
  | 0, _, positions => return positions
  | k + 1, cur, positions => do
    match ← once cur with
    | none => return positions
    | some next =>
      if next = cur then return positions
      else if positions.length < entries then
        repeatLoop once entries k next (next :: positions)
      else throw .positions

/-- The loop over the positions, from the last one back to `minCount`. -/
def attemptLoop (rest : Nat → Run (Option Nat)) (minCount : Nat) : List Nat → Run (Option Nat)
  | [] => return none
  | pos :: positions =>
    if positions.length ≥ minCount then do
      match ← rest pos with
      | some out => return some out
      | none => attemptLoop rest minCount positions
    else return none

/-- Whether the class at `start` begins with a caret. -/
def invertedAt (p : List Char) (start atomEnd classEnd : Nat) : Run Bool :=
  if start + 1 < classEnd then do
    let d ← patternAt p start atomEnd (start + 1)
    return d == '^'
  else return false

/-- The class branch of `match_atom_once`, with the class found. -/
def classMatches (t : Char) (p : List Char) (start atomEnd classEnd : Nat) : Run Bool := do
  let inverted ← invertedAt p start atomEnd classEnd
  let classStart := if inverted then start + 2 else start + 1
  let inClass ← matchcharclassN t p classStart (classEnd - classStart)
  return if inverted then !inClass else inClass

/-- The quantifier behind the atom that ends at `atomEnd`. -/
def quantifierAt (p : List Char) (start stop atomEnd : Nat) : Run (Option Char) :=
  if atomEnd < stop then do
    let c ← patternAt p start stop atomEnd
    return if isquantifier c then some c else none
  else return none

section Matcher
variable (malloc : Nat → Bool) (p text : List Char) (textLen : Nat)

mutual

/-- `match_atom_once`: the value is `out_pos`, where the atom matches. -/
def matchAtomOnce : Nat → Nat → Nat → Nat → Run (Option Nat)
  | 0, _, _, _ => .error .fuel
  | n + 1, start, atomEnd, pos => do
    let c ← patternAt p start atomEnd start
    if c = '^' then return if pos = 0 then some pos else none
    else if c = '$' then return if pos = textLen then some pos else none
    else if c = '(' then
      match ← findGroupEnd p start atomEnd with
      | none => throw .scan
      | some groupEnd => matchExpr n (start + 1) groupEnd pos
    else if pos ≥ textLen then return none
    else
      let t ← textAt text textLen pos
      if c = '.' then return if matchdot t then some (pos + 1) else none
      else if c = '[' then
        match ← findCharClassEnd p start atomEnd with
        | none => throw .scan
        | some classEnd =>
          let found ← classMatches t p start atomEnd classEnd
          return if found then some (pos + 1) else none
      else if c = '\\' then
        let d ← patternAt p start atomEnd (start + 1)
        return if matchmetachar t d then some (pos + 1) else none
      else return if t = c then some (pos + 1) else none

def matchSequence : Nat → Nat → Nat → Nat → Run (Option Nat)
  | 0, _, _, _ => .error .fuel
  | n + 1, start, stop, pos =>
    if start ≥ stop then return some pos
    else do
      match ← atomEndAt p n start stop with
      | none => return none
      | some atomEnd =>
        match ← quantifierAt p start stop atomEnd with
        | none =>
          match ← matchAtomOnce n start atomEnd pos with
          | none => return none
          | some next => matchSequence n atomEnd stop next
        | some q =>
          if q = '?' then
            match ← matchSequence n (atomEnd + 1) stop pos with
            | some out => return some out
            | none =>
              match ← matchAtomOnce n start atomEnd pos with
              | none => return none
              | some next => matchSequence n (atomEnd + 1) stop next
          else
            let repeatCap := intOf (textLen - pos + 1)
            if malloc (positionsSize repeatCap) then
              let positions ← repeatLoop (fun cur => matchAtomOnce n start atomEnd cur)
                (textLen - pos + 1) (repeatCap - 1).toNat pos [pos]
              attemptLoop (fun cur => matchSequence n (atomEnd + 1) stop cur)
                (if q = '+' then 1 else 0) positions
            else return none

def matchExpr : Nat → Nat → Nat → Nat → Run (Option Nat)
  | 0, _, _, _ => .error .fuel
  | n + 1, branchStart, stop, pos =>
    if branchStart ≤ stop then do
      match ← findBranchEnd p branchStart stop with
      | none => return none
      | some branchEnd =>
        match ← matchSequence n branchStart branchEnd pos with
        | some out => return some out
        | none =>
          if branchEnd = stop then return none
          else matchExpr n (branchEnd + 1) stop pos
    else return none

end

end Matcher

/-! The matcher on trees. -/

/-- One character of the text that `accepts` lets through. -/
def eat (text : List Char) (textLen : Nat) (accepts : Char → Bool) (pos : Nat) : Option Nat :=
  if pos < textLen then
    match text[pos]? with
    | some t => if accepts t then some (pos + 1) else none
    | none => none
  else none

/-- The characters a class accepts: those of its body by the loop of `matchcharclass_n`
(`matchcharclassN_eq`), or all others behind a caret. -/
def classAccepts (body : List Char) (t : Char) : Bool :=
  match body with
  | [] => bodyHas t true []
  | c :: rest => if c = '^' then !bodyHas t true rest else bodyHas t true (c :: rest)

/-- The loop that fills the positions array, without its checks. -/
def greedy (once : Nat → Option Nat) : Nat → Nat → List Nat → List Nat
  | 0, _, positions => positions
  | k + 1, cur, positions =>
    match once cur with
    | none => positions
    | some next => if next = cur then positions else greedy once k next (next :: positions)

def attempt (rest : Nat → Option Nat) (minCount : Nat) : List Nat → Option Nat
  | [] => none
  | pos :: positions =>
    if positions.length ≥ minCount then (rest pos).or (attempt rest minCount positions) else none

/-- A star or a plus, `minCount` telling them apart. -/
def repeatRun (malloc : Nat → Bool) (textLen : Nat) (once rest : Nat → Option Nat)
    (minCount pos : Nat) : Option Nat :=
  if malloc (positionsSize (intOf (textLen - pos + 1))) then
    attempt rest minCount (greedy once (intOf (textLen - pos + 1) - 1).toNat pos [pos])
  else none

def Anchor.once (textLen : Nat) : Anchor → Nat → Option Nat
  | .bol, pos => if pos = 0 then some pos else none
  | .eol, pos => if pos = textLen then some pos else none

section Trees
variable (malloc : Nat → Bool) (text : List Char) (textLen : Nat)

mutual

def Atom.once : Atom → Nat → Option Nat
  | .plain c _, pos => eat text textLen (fun t => if c = '.' then matchdot t else t == c) pos
  | .escape d, pos => eat text textLen (fun t => matchmetachar t d) pos
  | .charClass body _ _, pos => eat text textLen (classAccepts body) pos
  | .group inner, pos => inner.run pos

def Sequence.run : Sequence → Nat → Option Nat
  | .empty, pos => some pos
  | .anchor a rest, pos => (a.once textLen pos).bind fun next => rest.run next
  | .item a none rest, pos => (a.once pos).bind fun next => rest.run next
  | .item a (some .optional) rest, pos =>
    (rest.run pos).or ((a.once pos).bind fun next => rest.run next)
  | .item a (some .star) rest, pos =>
    repeatRun malloc textLen (fun cur => a.once cur) (fun cur => rest.run cur) 0 pos
  | .item a (some .plus) rest, pos =>
    repeatRun malloc textLen (fun cur => a.once cur) (fun cur => rest.run cur) 1 pos

def Expr.run : Expr → Nat → Option Nat
  | .single s, pos => s.run pos
  | .branch s rest, pos => (s.run pos).or (rest.run pos)

end

end Trees

/-! Where a match ends. -/

/-- A step that only goes forward, and not past the end of the text. -/
def Forward (textLen : Nat) (f : Nat → Option Nat) : Prop :=
  ∀ pos out, pos ≤ textLen → f pos = some out → pos ≤ out ∧ out ≤ textLen

section Forward
variable {text : List Char} {textLen : Nat}

theorem forward_eat (accepts : Char → Bool) : Forward textLen (eat text textLen accepts) := by
  intro pos out hpos h
  unfold eat at h
  by_cases hlt : pos < textLen
  · rw [if_pos hlt] at h
    cases ht : text[pos]? with
    | none => simp [ht] at h
    | some t =>
      by_cases hacc : accepts t = true
      · obtain rfl : pos + 1 = out := by simpa [ht, hacc] using h
        omega
      · simp [ht, hacc] at h
  · simp [hlt] at h

theorem forward_bind {f g : Nat → Option Nat} (hf : Forward textLen f) (hg : Forward textLen g) :
    Forward textLen fun pos => (f pos).bind g := by
  intro pos out hpos h
  obtain ⟨next, hnext, hout⟩ := Option.bind_eq_some_iff.mp h
  obtain ⟨h₁, h₂⟩ := hf pos next hpos hnext
  obtain ⟨h₃, h₄⟩ := hg next out h₂ hout
  omega

theorem forward_or {f g : Nat → Option Nat} (hf : Forward textLen f) (hg : Forward textLen g) :
    Forward textLen fun pos => (f pos).or (g pos) := by
  intro pos out hpos h
  change (f pos).or (g pos) = some out at h
  cases hfpos : f pos with
  | some next =>
    rw [hfpos, Option.some_or] at h
    exact hf pos out hpos (hfpos.trans h)
  | none =>
    rw [hfpos, Option.none_or] at h
    exact hg pos out hpos h

theorem greedy_bounds {once : Nat → Option Nat} (honce : Forward textLen once) {pos : Nat} :
    ∀ k cur positions, cur ≤ textLen → pos ≤ cur → (∀ q ∈ positions, pos ≤ q ∧ q ≤ textLen) →
      ∀ q ∈ greedy once k cur positions, pos ≤ q ∧ q ≤ textLen := by
  intro k
  induction k with
  | zero => exact fun _ _ _ _ h => h
  | succ k ih =>
    intro cur positions hcur hpos hall q hq
    rw [greedy] at hq
    cases hstep : once cur with
    | none =>
      rw [hstep] at hq
      exact hall q hq
    | some next =>
      simp only [hstep] at hq
      by_cases hsame : next = cur
      · rw [if_pos hsame] at hq
        exact hall q hq
      · rw [if_neg hsame] at hq
        obtain ⟨h₁, h₂⟩ := honce cur next hcur hstep
        refine ih next (next :: positions) h₂ (by omega) (fun r hr => ?_) q hq
        cases List.mem_cons.mp hr with
        | inl h => omega
        | inr h => exact hall r h

theorem attempt_some {rest : Nat → Option Nat} {minCount out : Nat} :
    ∀ positions, attempt rest minCount positions = some out → ∃ q ∈ positions, rest q = some out := by
  intro positions
  induction positions with
  | nil => intro h; simp [attempt] at h
  | cons q positions ih =>
    intro h
    rw [attempt] at h
    by_cases hmin : positions.length ≥ minCount
    · rw [if_pos hmin] at h
      cases hq : rest q with
      | some r =>
        rw [hq, Option.some_or] at h
        exact ⟨q, List.mem_cons_self, hq.trans h⟩
      | none =>
        rw [hq, Option.none_or] at h
        obtain ⟨r, hr, hout⟩ := ih h
        exact ⟨r, List.mem_cons_of_mem q hr, hout⟩
    · simp [hmin] at h

theorem forward_repeat (malloc : Nat → Bool) {once rest : Nat → Option Nat}
    (honce : Forward textLen once) (hrest : Forward textLen rest) (minCount : Nat) :
    Forward textLen (repeatRun malloc textLen once rest minCount) := by
  intro pos out hpos h
  unfold repeatRun at h
  by_cases hmem : malloc (positionsSize (intOf (textLen - pos + 1))) = true
  · rw [if_pos hmem] at h
    obtain ⟨q, hq, hout⟩ := attempt_some _ h
    have hbound := greedy_bounds honce _ pos [pos] hpos (Nat.le_refl pos) (fun r hr => by
        obtain rfl : r = pos := by simpa using hr
        omega) q hq
    obtain ⟨h₁, h₂⟩ := hrest q out hbound.2 hout
    omega
  · simp [hmem] at h

theorem forward_anchor (a : Anchor) : Forward textLen (a.once textLen) := by
  intro pos out hpos hout
  cases a <;> simp only [Anchor.once, Option.ite_none_right_eq_some, Option.some.injEq] at hout <;> omega

variable (malloc : Nat → Bool) (text) (textLen)

mutual

theorem forward_once (a : Atom) : Forward textLen (a.once malloc text textLen) := by
  cases a with
  | plain | escape | charClass =>
    intro pos out hpos hout
    exact forward_eat _ pos out hpos (by simpa only [Atom.once] using hout)
  | group inner =>
    intro pos out hpos hout
    exact forward_expr inner pos out hpos (by simpa only [Atom.once] using hout)

theorem forward_sequence (s : Sequence) : Forward textLen (s.run malloc text textLen) := by
  cases s with
  | empty =>
    intro pos out hpos hout
    obtain rfl : pos = out := by simpa [Sequence.run] using hout
    omega
  | anchor a rest =>
    intro pos out hpos hout
    exact forward_bind (forward_anchor a) (forward_sequence rest) pos out hpos
      (by simpa only [Sequence.run] using hout)
  | item a q rest =>
    have hatom := forward_once a
    have hrest := forward_sequence rest
    have hone := forward_bind hatom hrest
    intro pos out hpos hout
    cases q with
    | none => exact hone pos out hpos (by simpa only [Sequence.run] using hout)
    | some q =>
      cases q with
      | optional => exact forward_or hrest hone pos out hpos (by simpa only [Sequence.run] using hout)
      | star =>
        exact forward_repeat malloc hatom hrest 0 pos out hpos (by simpa only [Sequence.run] using hout)
      | plus =>
        exact forward_repeat malloc hatom hrest 1 pos out hpos (by simpa only [Sequence.run] using hout)

theorem forward_expr (e : Expr) : Forward textLen (e.run malloc text textLen) := by
  cases e with
  | single s =>
    intro pos out hpos hout
    exact forward_sequence s pos out hpos (by simpa only [Expr.run] using hout)
  | branch s rest =>
    intro pos out hpos hout
    exact forward_or (forward_sequence s) (forward_expr rest) pos out hpos
      (by simpa only [Expr.run] using hout)

end

end Forward

/-! The matcher on the text of a tree. -/

section Loops
variable {textLen : Nat}

theorem repeatLoop_eq {once' : Nat → Run (Option Nat)} {once : Nat → Option Nat} {pos : Nat}
    (heq : ∀ q, q ≤ textLen → once' q = .ok (once q)) (honce : Forward textLen once) :
    ∀ k cur positions, cur ≤ textLen → pos ≤ cur → positions.length ≤ cur - pos + 1 →
      repeatLoop once' (textLen - pos + 1) k cur positions = .ok (greedy once k cur positions) := by
  intro k
  induction k with
  | zero => exact fun _ _ _ _ _ => rfl
  | succ k ih =>
    intro cur positions hcur hpos hlen
    rw [repeatLoop, heq cur hcur, Run.ok_bind, greedy]
    cases hstep : once cur with
    | none => rfl
    | some next =>
      show (if next = cur then _ else _) = Except.ok (if next = cur then _ else _)
      by_cases hsame : next = cur
      · rw [if_pos hsame, if_pos hsame]
        rfl
      · obtain ⟨h₁, h₂⟩ := honce cur next hcur hstep
        rw [if_neg hsame, if_neg hsame, if_pos (by omega)]
        refine ih next (next :: positions) h₂ (by omega) ?_
        simp only [List.length_cons]
        omega

theorem attemptLoop_eq {rest' : Nat → Run (Option Nat)} {rest : Nat → Option Nat} {minCount : Nat} :
    ∀ positions : List Nat, (∀ q ∈ positions, rest' q = .ok (rest q)) →
      attemptLoop rest' minCount positions = .ok (attempt rest minCount positions) := by
  intro positions
  induction positions with
  | nil => exact fun _ => rfl
  | cons q positions ih =>
    intro h
    rw [attemptLoop, attempt]
    by_cases hmin : positions.length ≥ minCount
    · rw [if_pos hmin, if_pos hmin, h q List.mem_cons_self, Run.ok_bind]
      cases rest q with
      | some out => rfl
      | none => exact ih fun r hr => h r (List.mem_cons_of_mem q hr)
    · rw [if_neg hmin, if_neg hmin]
      rfl

end Loops

section OnTrees
variable {malloc : Nat → Bool} {p text : List Char} {textLen : Nat}

theorem textAt_ok {pos : Nat} {t : Char} (h : text[pos]? = some t) (hpos : pos < textLen) :
    textAt text textLen pos = .ok t := by
  unfold textAt
  rw [if_pos hpos, h]

theorem quantifierAt_none {start stop j : Nat} (hj : start ≤ j)
    (hnext : j < stop → ∃ c, p[j]? = some c ∧ isquantifier c = false) :
    quantifierAt p start stop j = .ok none := by
  unfold quantifierAt
  by_cases h : j < stop
  · obtain ⟨c, hc, hq⟩ := hnext h
    rw [if_pos h, patternAt_ok hc hj h, Run.ok_bind, hq]
    rfl
  · rw [if_neg h]
    rfl

theorem quantifierAt_some {start stop j : Nat} {c : Char} (hj : start ≤ j) (hstop : j < stop)
    (hc : p[j]? = some c) (hq : isquantifier c = true) :
    quantifierAt p start stop j = .ok (some c) := by
  unfold quantifierAt
  rw [if_pos hstop, patternAt_ok hc hj hstop, Run.ok_bind, hq]
  rfl

theorem matchAtomOnce_anchor (a : Anchor) {n i stop pos : Nat} (hc : p[i]? = some a.char) (hi : i < stop) :
    matchAtomOnce malloc p text textLen (n + 1) i stop pos = .ok (a.once textLen pos) := by
  rw [matchAtomOnce, patternAt_ok hc (Nat.le_refl _) hi, Run.ok_bind]
  cases a with
  | bol =>
    rw [if_pos (show Anchor.bol.char = '^' from rfl)]
    rfl
  | eol =>
    rw [if_neg (by decide), if_pos (show Anchor.eol.char = '$' from rfl)]
    rfl

theorem invertedAt_class {i k stop : Nat} (body : List Char) (hread : Reads p (i + 1) body)
    (hk : k = i + 1 + body.length) (hstop : k < stop) :
    invertedAt p i stop k = .ok (body.head? == some '^') := by
  unfold invertedAt
  cases body with
  | nil =>
    simp only [List.length_nil] at hk
    rw [if_neg (by omega)]
    rfl
  | cons c rest =>
    have hc := (reads_cons.mp hread).1
    simp only [List.length_cons] at hk
    rw [if_pos (by omega), patternAt_ok hc (by omega) (by omega), Run.ok_bind]
    simp
    rfl

theorem classMatches_body {i k stop : Nat} {t : Char} (body : List Char)
    (hread : Reads p (i + 1) body) (hk : k = i + 1 + body.length) (hstop : k < stop) :
    classMatches t p i stop k = .ok (classAccepts body t) := by
  unfold classMatches
  rw [invertedAt_class body hread hk hstop, Run.ok_bind]
  cases body with
  | nil =>
    simp only [List.length_nil, Nat.add_zero] at hk
    subst hk
    have h := matchcharclassN_eq (c := t) hread
    show (matchcharclassN t p (i + 1) (i + 1 - (i + 1)) >>= _) = _
    rw [Nat.sub_self]
    rw [List.length_nil] at h
    rw [h]
    rfl
  | cons c rest =>
    simp only [List.length_cons] at hk
    by_cases hcaret : c = '^'
    · subst hcaret
      have h := matchcharclassN_eq (c := t) (reads_cons.mp hread).2
      have hlen : k - (i + 2) = rest.length := by omega
      show (matchcharclassN t p (i + 2) (k - (i + 2)) >>= _) = _
      rw [hlen, h]
      rfl
    · have h := matchcharclassN_eq (c := t) hread
      have hhead : ((c :: rest).head? == some '^') = false := by simpa using hcaret
      have hlen : k - (i + 1) = (c :: rest).length := by simp only [List.length_cons]; omega
      rw [hhead]
      show (matchcharclassN t p (i + 1) (k - (i + 1)) >>= _) = _
      rw [hlen, h, Run.ok_bind, classAccepts, if_neg hcaret]
      rfl

theorem eat_eq {accepts : Char → Bool} {pos : Nat} (htext : textLen ≤ text.length)
    {f : Char → Run (Option Nat)}
    (hf : ∀ t, f t = .ok (if accepts t then some (pos + 1) else none)) :
    (if pos ≥ textLen then (return none : Run (Option Nat))
      else do
        let t ← textAt text textLen pos
        f t) = .ok (eat text textLen accepts pos) := by
  unfold eat
  by_cases hpos : pos < textLen
  · obtain ⟨t, ht⟩ := exists_char htext hpos
    rw [if_neg (by omega), textAt_ok ht hpos, Run.ok_bind, if_pos hpos, ht, hf]
  · rw [if_pos (by omega), if_neg hpos]
    rfl

section Steps
variable {n i stop pos : Nat}

theorem matchAtomOnce_plain {c : Char} (h : ordinary c = true) (hc : p[i]? = some c)
    (hi : i < stop) (htext : textLen ≤ text.length) :
    matchAtomOnce malloc p text textLen (n + 1) i stop pos =
      .ok (eat text textLen (fun t => if c = '.' then matchdot t else t == c) pos) := by
  obtain ⟨h₁, h₂, h₃, h₄, h₅, h₆, h₇, h₈⟩ := ordinary_plain h
  rw [matchAtomOnce, patternAt_ok hc (Nat.le_refl _) hi, Run.ok_bind, if_neg h₇, if_neg h₈, if_neg h₃]
  refine eat_eq htext fun t => ?_
  by_cases hdot : c = '.'
  · simp only [if_pos hdot]
    rfl
  · rw [if_neg hdot, if_neg h₂, if_neg h₁]
    simp only [hdot, if_false, beq_iff_eq]
    rfl

theorem matchAtomOnce_escape {d : Char} (hread : Reads p i ['\\', d]) (hi : i + 1 < stop)
    (htext : textLen ≤ text.length) :
    matchAtomOnce malloc p text textLen (n + 1) i stop pos =
      .ok (eat text textLen (fun t => matchmetachar t d) pos) := by
  obtain ⟨hc, hrest⟩ := reads_cons.mp hread
  have hd := (reads_cons.mp hrest).1
  rw [matchAtomOnce, patternAt_ok hc (Nat.le_refl _) (by omega), Run.ok_bind, if_neg (by decide),
    if_neg (by decide), if_neg (by decide)]
  refine eat_eq htext fun t => ?_
  rw [if_neg (by decide), if_neg (by decide), if_pos rfl, patternAt_ok hd (by omega) hi, Run.ok_bind]
  rfl

theorem matchAtomOnce_class (body : List Char) (closed : closedBody body = true)
    (hread : Reads p i ('[' :: (body ++ [']']))) (hstop : i + 1 + body.length < stop)
    (htext : textLen ≤ text.length) :
    matchAtomOnce malloc p text textLen (n + 1) i stop pos =
      .ok (eat text textLen (classAccepts body) pos) := by
  obtain ⟨hc, hrest⟩ := reads_cons.mp hread
  have hbody := (reads_append.mp hrest).1
  rw [matchAtomOnce, patternAt_ok hc (Nat.le_refl _) (by omega), Run.ok_bind, if_neg (by decide),
    if_neg (by decide), if_neg (by decide)]
  refine eat_eq htext fun t => ?_
  rw [if_neg (by decide), if_pos rfl, findCharClassEnd_body body closed hread hstop, Run.ok_bind]
  show (classMatches t p i stop (i + 1 + body.length) >>= _) = _
  rw [classMatches_body body hbody rfl hstop]
  rfl

theorem matchAtomOnce_group (e : Expr) (hread : Reads p i ('(' :: (e.render ++ [')'])))
    (hstop : i + 1 + e.render.length < stop) :
    matchAtomOnce malloc p text textLen (n + 1) i stop pos =
      matchExpr malloc p text textLen n (i + 1) (i + 1 + e.render.length) pos := by
  have hc := (reads_cons.mp hread).1
  rw [matchAtomOnce, patternAt_ok hc (Nat.le_refl _) (by omega), Run.ok_bind, if_neg (by decide),
    if_neg (by decide), if_pos rfl, findGroupEnd_group e hread hstop]
  rfl

theorem matchSequence_bare {j : Nat} (hi : i < stop) (hij : i ≤ j)
    (hend : atomEndAt p n i stop = .ok (some j))
    (hnext : j < stop → ∃ c, p[j]? = some c ∧ isquantifier c = false)
    {once rest : Nat → Option Nat}
    (honce : matchAtomOnce malloc p text textLen n i j pos = .ok (once pos))
    (hrest : ∀ next, once pos = some next →
      matchSequence malloc p text textLen n j stop next = .ok (rest next)) :
    matchSequence malloc p text textLen (n + 1) i stop pos = .ok ((once pos).bind rest) := by
  rw [matchSequence, if_neg (by omega), hend, Run.ok_bind]
  show (quantifierAt p i stop j >>= _) = _
  rw [quantifierAt_none hij hnext, Run.ok_bind]
  show (matchAtomOnce malloc p text textLen n i j pos >>= _) = _
  rw [honce, Run.ok_bind]
  cases hstep : once pos with
  | none => rfl
  | some next => exact hrest next hstep

theorem matchSequence_optional {j : Nat} (hij : i < j) (hj : j < stop)
    (hend : atomEndAt p n i stop = .ok (some j)) (hq : p[j]? = some '?')
    {once rest : Nat → Option Nat}
    (honce : matchAtomOnce malloc p text textLen n i j pos = .ok (once pos))
    (hhere : matchSequence malloc p text textLen n (j + 1) stop pos = .ok (rest pos))
    (hrest : ∀ next, once pos = some next →
      matchSequence malloc p text textLen n (j + 1) stop next = .ok (rest next)) :
    matchSequence malloc p text textLen (n + 1) i stop pos =
      .ok ((rest pos).or ((once pos).bind rest)) := by
  rw [matchSequence, if_neg (by omega), hend, Run.ok_bind]
  show (quantifierAt p i stop j >>= _) = _
  rw [quantifierAt_some (by omega) hj hq (by decide), Run.ok_bind]
  show (if '?' = '?' then matchSequence malloc p text textLen n (j + 1) stop pos >>= _ else _) = _
  rw [if_pos rfl, hhere, Run.ok_bind]
  cases rest pos with
  | some out => rfl
  | none =>
    show (matchAtomOnce malloc p text textLen n i j pos >>= _) = _
    rw [honce, Run.ok_bind]
    cases hstep : once pos with
    | none => rfl
    | some next => exact hrest next hstep

theorem matchSequence_repeat {j : Nat} {q : Char} (hij : i < j) (hj : j < stop)
    (hend : atomEndAt p n i stop = .ok (some j)) (hq : p[j]? = some q)
    (hquant : isquantifier q = true) (hne : q ≠ '?') (hpos : pos ≤ textLen)
    {once rest : Nat → Option Nat} (hforward : Forward textLen once)
    (honce : ∀ cur, cur ≤ textLen →
      matchAtomOnce malloc p text textLen n i j cur = .ok (once cur))
    (hrest : ∀ cur, cur ≤ textLen →
      matchSequence malloc p text textLen n (j + 1) stop cur = .ok (rest cur)) :
    matchSequence malloc p text textLen (n + 1) i stop pos =
      .ok (repeatRun malloc textLen once rest (if q = '+' then 1 else 0) pos) := by
  rw [matchSequence, if_neg (by omega), hend, Run.ok_bind]
  show (quantifierAt p i stop j >>= _) = _
  rw [quantifierAt_some (by omega) hj hq hquant, Run.ok_bind]
  show (if q = '?' then _ else _) = _
  unfold repeatRun
  rw [if_neg hne]
  by_cases hmem : malloc (positionsSize (intOf (textLen - pos + 1))) = true
  · rw [if_pos hmem, if_pos hmem]
    have hfill := repeatLoop_eq honce hforward (intOf (textLen - pos + 1) - 1).toNat pos [pos]
      hpos (Nat.le_refl pos) (by simp)
    rw [hfill, Run.ok_bind]
    refine attemptLoop_eq _ fun cur hcur => hrest cur ?_
    have hbound := greedy_bounds hforward _ pos [pos] hpos (Nat.le_refl pos) (fun r hr => by
        obtain rfl : r = pos := by simpa using hr
        omega) cur hcur
    exact hbound.2
  · rw [if_neg hmem, if_neg hmem]
    rfl

end Steps

variable (malloc)

mutual

theorem matchAtomOnce_once (a : Atom) {n i stop pos : Nat} (hread : Reads p i a.render)
    (hstop : i + a.render.length = stop) (hn : 3 * a.render.length + 1 ≤ n)
    (hpos : pos ≤ textLen) (htext : textLen ≤ text.length) :
    matchAtomOnce malloc p text textLen n i stop pos = .ok (a.once malloc text textLen pos) := by
  obtain ⟨n, rfl⟩ : ∃ k, n = k + 1 := ⟨n - 1, by omega⟩
  cases a with
  | plain c h =>
    simp only [Atom.render, List.length_singleton] at hstop
    rw [matchAtomOnce_plain h (reads_cons.mp hread).1 (by omega) htext, Atom.once]
  | escape d =>
    simp only [Atom.render, List.length_cons, List.length_nil] at hstop
    rw [matchAtomOnce_escape hread (by omega) htext, Atom.once]
  | charClass body closed short =>
    simp only [Atom.render, List.length_cons, List.length_append, List.length_nil] at hstop
    rw [matchAtomOnce_class body closed hread (by omega) htext, Atom.once]
  | group inner =>
    have hinner := (reads_append.mp (reads_cons.mp hread).2).1
    simp only [Atom.render, List.length_cons, List.length_append, List.length_nil] at hstop hn
    rw [matchAtomOnce_group inner hread (by omega),
      matchExpr_run inner hinner rfl (by omega) hpos htext, Atom.once]

theorem matchSequence_run (s : Sequence) {n i stop pos : Nat} (hread : Reads p i s.render)
    (hstop : i + s.render.length = stop) (hn : 3 * s.render.length + 2 ≤ n)
    (hpos : pos ≤ textLen) (htext : textLen ≤ text.length) :
    matchSequence malloc p text textLen n i stop pos = .ok (s.run malloc text textLen pos) := by
  obtain ⟨n, rfl⟩ : ∃ k, n = k + 1 := ⟨n - 1, by omega⟩
  cases s with
  | empty =>
    simp only [Sequence.render, List.length_nil] at hstop
    rw [matchSequence, if_pos (by omega), Sequence.run]
    rfl
  | anchor a rest =>
    obtain ⟨hc, hrest⟩ := reads_cons.mp hread
    simp only [Sequence.render, List.length_cons] at hstop hn
    obtain ⟨n, rfl⟩ : ∃ k, n = k + 1 := ⟨n - 1, by omega⟩
    rw [matchSequence_bare (by omega) (by omega) (atomEndAt_anchor a hc (by omega))
      (fun h => sequence_head rest hrest (by omega)) (matchAtomOnce_anchor a hc (by omega))
      fun next hnext => matchSequence_run rest hrest (by omega) (by omega)
        (forward_anchor a pos next hpos hnext).2 htext, Sequence.run]
  | item a q rest =>
    obtain ⟨hatom, hrest⟩ := reads_append.mp hread
    obtain ⟨hq, hrest⟩ := reads_append.mp hrest
    have hlen := length_pos_render_atom a
    simp only [Sequence.render, List.length_append] at hstop hn
    have hend : atomEndAt p n i stop = .ok (some (i + a.render.length)) :=
      atomEndAt_atom a hatom (by omega) (by omega)
    have hforward := forward_once text textLen malloc a
    have honce : ∀ cur, cur ≤ textLen →
        matchAtomOnce malloc p text textLen n i (i + a.render.length) cur =
          .ok (a.once malloc text textLen cur) :=
      fun cur hcur => matchAtomOnce_once a hatom rfl (by omega) hcur htext
    cases q with
    | none =>
      simp only [quantifierText, List.length_nil] at hstop hn hrest
      have hall : ∀ cur, cur ≤ textLen →
          matchSequence malloc p text textLen n (i + a.render.length) stop cur =
            .ok (rest.run malloc text textLen cur) :=
        fun cur hcur => matchSequence_run rest hrest (by omega) (by omega) hcur htext
      rw [matchSequence_bare (by omega) (by omega) hend
        (fun h => sequence_head rest hrest (by omega)) (honce pos hpos)
        fun next hnext => hall next (hforward pos next hpos hnext).2, Sequence.run]
    | some q =>
      have hqget := (reads_cons.mp hq).1
      simp only [quantifierText, List.length_singleton] at hstop hn hrest
      have hall : ∀ cur, cur ≤ textLen →
          matchSequence malloc p text textLen n (i + a.render.length + 1) stop cur =
            .ok (rest.run malloc text textLen cur) :=
        fun cur hcur => matchSequence_run rest hrest (by omega) (by omega) hcur htext
      cases q with
      | optional =>
        rw [matchSequence_optional (by omega) (by omega) hend hqget (honce pos hpos)
          (hall pos hpos) fun next hnext => hall next (hforward pos next hpos hnext).2,
          Sequence.run]
      | star | plus =>
        rw [matchSequence_repeat (by omega) (by omega) hend hqget (by decide) (by decide) hpos
          hforward honce hall, Sequence.run]
        rfl

theorem matchExpr_run (e : Expr) {n i stop pos : Nat} (hread : Reads p i e.render)
    (hstop : i + e.render.length = stop) (hn : 3 * e.render.length + 3 ≤ n)
    (hpos : pos ≤ textLen) (htext : textLen ≤ text.length) :
    matchExpr malloc p text textLen n i stop pos = .ok (e.run malloc text textLen pos) := by
  obtain ⟨n, rfl⟩ : ∃ k, n = k + 1 := ⟨n - 1, by omega⟩
  cases e with
  | single s =>
    simp only [Expr.render] at hread hstop hn
    rw [matchExpr, if_pos (by omega), findBranchEnd_sequence s hread (.inl hstop), Run.ok_bind]
    show (matchSequence malloc p text textLen n i (i + s.render.length) pos >>= _) = _
    rw [matchSequence_run s hread rfl (by omega) hpos htext, Run.ok_bind, Expr.run]
    cases s.run malloc text textLen pos with
    | some out => rfl
    | none =>
      show (if i + s.render.length = stop then _ else _) = _
      rw [if_pos hstop]
      rfl
  | branch s rest =>
    obtain ⟨hseq, hrest⟩ := reads_append.mp hread
    obtain ⟨hbar, hrest⟩ := reads_cons.mp hrest
    simp only [Expr.render, List.length_append, List.length_cons] at hstop hn
    rw [matchExpr, if_pos (by omega), findBranchEnd_sequence s hseq (.inr ⟨hbar, by omega⟩), Run.ok_bind]
    show (matchSequence malloc p text textLen n i (i + s.render.length) pos >>= _) = _
    rw [matchSequence_run s hseq rfl (by omega) hpos htext, Run.ok_bind, Expr.run]
    cases s.run malloc text textLen pos with
    | some out => rfl
    | none =>
      show (if i + s.render.length = stop then _ else _) = _
      rw [if_neg (by omega)]
      exact matchExpr_run rest hrest (by omega) (by omega) hpos htext

end

end OnTrees

theorem tree_of_accepted {p : List Char} (h : reCompile p = .ok true) : ∃ e : Expr, e.render = p := by
  unfold reCompile at h
  by_cases hlong : p.length ≥ maxPatternLen
  · rw [if_pos hlong] at h
    cases h
  · rw [if_neg hlong] at h
    obtain ⟨b, hb, hacc⟩ := (validator_exact p).1
    rw [hb] at h
    injection h with h
    exact hacc.mp h

/-- A result without a fault, which ends between `pos` and the end of the text. -/
def SafeAt (textLen pos : Nat) (run : Run (Option Nat)) : Prop :=
  ∃ r, run = .ok r ∧ ∀ out, r = some out → pos ≤ out ∧ out ≤ textLen

/-- On an accepted pattern and a text, from every position of the text: the expression, and
every expression of a group, every sequence, every atom and every anchor that stands in the
pattern, are matched without a fault, and a match ends between its start and the end of the
text. -/
theorem matcher_safe (malloc : Nat → Bool) (p text : List Char) (textLen : Nat)
    (hacc : reCompile p = .ok true) (htext : textLen ≤ text.length) :
    (∀ pos ≤ textLen, SafeAt textLen pos (matchExpr malloc p text textLen (fuelFor p) 0 p.length pos)) ∧
    (∀ (e : Expr) i, Reads p i e.render → ∀ pos ≤ textLen, SafeAt textLen pos
      (matchExpr malloc p text textLen (fuelFor p) i (i + e.render.length) pos)) ∧
    (∀ (s : Sequence) i, Reads p i s.render → ∀ pos ≤ textLen, SafeAt textLen pos
      (matchSequence malloc p text textLen (fuelFor p) i (i + s.render.length) pos)) ∧
    (∀ (a : Atom) i, Reads p i a.render → ∀ pos ≤ textLen, SafeAt textLen pos
      (matchAtomOnce malloc p text textLen (fuelFor p) i (i + a.render.length) pos)) ∧
    (∀ (a : Anchor) i, p[i]? = some a.char → ∀ pos ≤ textLen, SafeAt textLen pos
      (matchAtomOnce malloc p text textLen (fuelFor p) i (i + 1) pos)) := by
  have hexpr : ∀ (e : Expr) i, Reads p i e.render → ∀ pos ≤ textLen, SafeAt textLen pos
      (matchExpr malloc p text textLen (fuelFor p) i (i + e.render.length) pos) := by
    intro e i hread pos hpos
    have hlen := hread.length_le
    exact ⟨_, matchExpr_run malloc e hread rfl (by unfold fuelFor; omega) hpos htext,
      fun out => forward_expr text textLen malloc e pos out hpos⟩
  refine ⟨fun pos hpos => ?_, hexpr, fun s i hread pos hpos => ?_, fun a i hread pos hpos => ?_,
    fun a i hc pos hpos => ?_⟩
  · obtain ⟨e, rfl⟩ := tree_of_accepted hacc
    have h := hexpr e 0 (reads_self e.render) pos hpos
    rwa [Nat.zero_add] at h
  · have hlen := hread.length_le
    exact ⟨_, matchSequence_run malloc s hread rfl (by unfold fuelFor; omega) hpos htext,
      fun out => forward_sequence text textLen malloc s pos out hpos⟩
  · have hlen := hread.length_le
    exact ⟨_, matchAtomOnce_once malloc a hread rfl (by unfold fuelFor; omega) hpos htext,
      fun out => forward_once text textLen malloc a pos out hpos⟩
  · obtain ⟨n, hn⟩ : ∃ n, fuelFor p = n + 1 := ⟨3 * p.length + 2, by unfold fuelFor; omega⟩
    rw [hn]
    exact ⟨_, matchAtomOnce_anchor a hc (Nat.lt_succ_self i), fun out => forward_anchor a pos out hpos⟩

/-- The pattern `^(a|b)+c`, on the text `abc` from its start. -/
theorem matcher_safe_grouped :
    SafeAt 3 0 (matchExpr (fun _ => true) ['^', '(', 'a', '|', 'b', ')', '+', 'c']
      ['a', 'b', 'c'] 3 27 0 8 0) :=
  (matcher_safe (fun _ => true) ['^', '(', 'a', '|', 'b', ')', '+', 'c'] ['a', 'b', 'c'] 3
    (by decide +kernel) (by decide)).1 0 (by decide)

end TurboScript.Regex
