import TurboScript.Regex.Validator

/- Character classes.

   `matchcharclass_n` does not parse the body of a class into items: at every offset it tries
   a range, an escape and a literal in this order, goes on by one (by two behind an escape),
   and returns at the first hit. It accepts, for a character other than `-`, those of the items
   and, besides them, what it reads across the borders of items (`bodyHas_other`); for `-` the
   items, unless a `-` inside the body ends the walk before them (`bodyHas_dash`). -/
namespace TurboScript.Regex

/-- The value of a `char`, which is signed. -/
def charVal (c : Char) : Int := if c.toNat < 128 then c.toNat else (c.toNat : Int) - 256

def matchdigit (c : Char) : Bool := '0' ≤ c && c ≤ '9'
def matchalpha (c : Char) : Bool := ('a' ≤ c && c ≤ 'z') || ('A' ≤ c && c ≤ 'Z')
def matchwhitespace (c : Char) : Bool := c == ' ' || (9 ≤ c.toNat && c.toNat ≤ 13)
def matchalphanum (c : Char) : Bool := c == '_' || matchalpha c || matchdigit c

/-- The dot, with `RE_DOT_MATCHES_NEWLINE` as the header sets it. -/
def matchdot (_ : Char) : Bool := true

def ismetachar (c : Char) : Bool :=
  c == 's' || c == 'S' || c == 'w' || c == 'W' || c == 'd' || c == 'D'

def matchmetachar (c d : Char) : Bool :=
  if d = 'd' then matchdigit c
  else if d = 'D' then !matchdigit c
  else if d = 'w' then matchalphanum c
  else if d = 'W' then !matchalphanum c
  else if d = 's' then matchwhitespace c
  else if d = 'S' then !matchwhitespace c
  else c == d

/-- `str[i]`, for the body of `len` characters from `base` on. -/
def bodyAt (p : List Char) (base len i : Nat) : Run Char := patternAt p base (base + len) (base + i)

/-- The test for a range at offset `i`. -/
def rangeTest (c : Char) (p : List Char) (base len i : Nat) : Run Bool :=
  if i + 2 < len ∧ c ≠ '-' then do
    let a ← bodyAt p base len i
    let b ← bodyAt p base len (i + 1)
    let d ← bodyAt p base len (i + 2)
    return a != '-' && b == '-' && decide (charVal a ≤ charVal c) && decide (charVal c ≤ charVal d)
  else return false

/-- The loop of `matchcharclass_n`. -/
def matchcharclassLoop (c : Char) (p : List Char) (base len : Nat) : Nat → Nat → Run Bool
  | 0, _ => .error .fuel
  | n + 1, i =>
    if i < len then do
      if ← rangeTest c p base len i then return true
      else
        let a ← bodyAt p base len i
        if a = '\\' then
          if i + 1 < len then
            let d ← bodyAt p base len (i + 1)
            if matchmetachar c d then return true
            else if c = d ∧ ismetachar d = false then return true
            else matchcharclassLoop c p base len n (i + 2)
          else matchcharclassLoop c p base len n (i + 2)
        else if c = a then return c != '-' || i == 0 || i == len - 1
        else matchcharclassLoop c p base len n (i + 1)
    else return false

/-- `matchcharclass_n`, on the body of `len` characters at `base`. -/
def matchcharclassN (c : Char) (p : List Char) (base len : Nat) : Run Bool :=
  matchcharclassLoop c p base len (len + 1) 0

/-! The walk over the body as a list. -/

def rangeHit (c : Char) : List Char → Bool
  | a :: b :: d :: _ =>
    c != '-' && (a != '-' && b == '-' && decide (charVal a ≤ charVal c) && decide (charVal c ≤ charVal d))
  | _ => false

/-- Whether the loop accepts `c` on what is left of the body; `first` says that nothing of
the body is behind it. -/
def bodyHas (c : Char) : Bool → List Char → Bool
  | _, [] => false
  | _, [a] =>
    -- the last character: here a '-' counts
    if a = '\\' then false else c == a
  | first, a :: d :: rest =>
    rangeHit c (a :: d :: rest) || (if a = '\\' then matchmetachar c d || bodyHas c false rest
      else if c = a then c != '-' || first
      else bodyHas c false (d :: rest))

theorem bodyAt_ok {p : List Char} {base len i : Nat} {c : Char} (h : p[base + i]? = some c)
    (hi : i < len) : bodyAt p base len i = .ok c :=
  patternAt_ok h (by omega) (by omega)

theorem matchmetachar_literal {c d : Char} (h : matchmetachar c d = false) :
    ¬(c = d ∧ ismetachar d = false) := by
  intro hcd
  obtain ⟨rfl, hmeta⟩ := hcd
  simp only [ismetachar, Bool.or_eq_false_iff, beq_eq_false_iff_ne] at hmeta
  obtain ⟨⟨⟨⟨⟨h₁, h₂⟩, h₃⟩, h₄⟩, h₅⟩, h₆⟩ := hmeta
  simp [matchmetachar, h₁, h₂, h₃, h₄, h₅, h₆] at h

section Walk
variable {c : Char} {p : List Char} {base len : Nat}

theorem rangeTest_eq {i : Nat} {rest : List Char} (hread : Reads p (base + i) rest)
    (hlen : i + rest.length = len) : rangeTest c p base len i = .ok (rangeHit c rest) := by
  unfold rangeTest
  by_cases hlong : i + 2 < len
  · obtain ⟨a, b, d, tail, rfl⟩ : ∃ a b d tail, rest = a :: b :: d :: tail := by
      match rest, hlen with
      | a :: b :: d :: tail, _ => exact ⟨a, b, d, tail, rfl⟩
      | [], h | [_], h | [_, _], h => simp at h; omega
    obtain ⟨ha, hread⟩ := reads_cons.mp hread
    obtain ⟨hb, hread⟩ := reads_cons.mp hread
    obtain ⟨hd, _⟩ := reads_cons.mp hread
    by_cases hdash : c = '-'
    · rw [if_neg (by simp [hdash])]
      simp only [rangeHit, hdash]
      rfl
    · rw [if_pos ⟨hlong, hdash⟩, bodyAt_ok ha (by omega), Run.ok_bind, bodyAt_ok (i := i + 1) hb
        (by omega), Run.ok_bind, bodyAt_ok (i := i + 2) hd hlong, Run.ok_bind]
      have hne : (c != '-') = true := by simpa using hdash
      simp only [rangeHit, hne, Bool.true_and]
      rfl
  · rw [if_neg (by omega)]
    match rest, hlen with
    | a :: b :: d :: tail, h => simp at h; omega
    | [], _ | [_], _ | [_, _], _ => rfl

theorem matchcharclassLoop_eq :
    ∀ n i rest, Reads p (base + i) rest → i + rest.length = len → rest.length < n →
      matchcharclassLoop c p base len n i = .ok (bodyHas c (i == 0) rest) := by
  intro n
  induction n with
  | zero =>
    intro i rest _ _ hn
    omega
  | succ n ih =>
    intro i rest hread hlen hn
    match rest with
    | [] =>
      simp only [List.length_nil] at hlen
      rw [matchcharclassLoop, if_neg (by omega)]
      rfl
    | [a] =>
      have ha := (reads_cons.mp hread).1
      have hrest := (reads_cons.mp hread).2
      simp only [List.length_singleton] at hlen hn
      rw [matchcharclassLoop, if_pos (by omega), rangeTest_eq hread hlen, Run.ok_bind,
        bodyAt_ok ha (by omega)]
      show (if a = '\\' then _ else _) = _
      by_cases hesc : a = '\\'
      · obtain ⟨n, rfl⟩ : ∃ k, n = k + 1 := ⟨n - 1, by omega⟩
        rw [if_pos hesc, if_neg (by omega), matchcharclassLoop, if_neg (by omega)]
        simp [bodyHas, hesc]
        rfl
      · rw [if_neg hesc]
        by_cases hc : c = a
        · have hlast : (i == len - 1) = true := by simp; omega
          rw [if_pos hc, hlast]
          simp [bodyHas, hesc, hc]
          rfl
        · rw [if_neg hc, ih (i + 1) [] hrest (by simpa using hlen) (by simpa using hn)]
          simp [bodyHas, hesc, hc]
    | a :: d :: rest =>
      obtain ⟨ha, hread'⟩ := reads_cons.mp hread
      obtain ⟨hd, hread''⟩ := reads_cons.mp hread'
      simp only [List.length_cons] at hlen hn
      have hfirst : ∀ j, (i + (j + 1) == 0) = false := fun j => by simp
      rw [matchcharclassLoop, if_pos (by omega), rangeTest_eq hread (by simpa using hlen), Run.ok_bind]
      cases hhit : rangeHit c (a :: d :: rest) with
      | true =>
        simp only [bodyHas, hhit, Bool.true_or]
        rfl
      | false =>
        simp only [bodyHas, hhit, Bool.false_or]
        rw [if_neg (by decide), bodyAt_ok ha (by omega), Run.ok_bind]
        by_cases hesc : a = '\\'
        · rw [if_pos hesc, if_pos hesc, if_pos (by omega), bodyAt_ok (i := i + 1) hd (by omega),
            Run.ok_bind]
          cases hmeta : matchmetachar c d with
          | true => rfl
          | false =>
            rw [if_neg (by decide), if_neg (matchmetachar_literal hmeta),
              ih (i + 2) rest hread'' (by omega) (by omega), hfirst 1]
            rfl
        · rw [if_neg hesc, if_neg hesc]
          by_cases hc : c = a
          · have hlast : (i == len - 1) = false := by simp; omega
            rw [if_pos hc, if_pos hc, hlast, Bool.or_false]
            rfl
          · rw [if_neg hc, if_neg hc, ih (i + 1) (d :: rest) hread' (by simp; omega)
              (by simp; omega), hfirst 0]

theorem matchcharclassN_eq {body : List Char} (hread : Reads p base body) :
    matchcharclassN c p base body.length = .ok (bodyHas c true body) := by
  exact matchcharclassLoop_eq (body.length + 1) 0 body hread (Nat.zero_add _) (Nat.lt_succ_self _)

end Walk

/-! The items of a body. -/

inductive Item where
  | escape (d : Char)
  | range (a d : Char)
  | single (a : Char)
  deriving DecidableEq, Repr

def Item.has (c : Char) : Item → Bool
  | .escape d => matchmetachar c d
  | .range a d => decide (charVal a ≤ charVal c) && decide (charVal c ≤ charVal d)
  | .single a => c == a

/-- Whether `a - d` at the front of a body is a range: both ends are ordinary characters,
neither a backslash nor a `-`. -/
def rangeAhead (a b d : Char) : Bool := a != '-' && b == '-' && d != '\\' && d != '-'

/-- One character as an item; a `-` is one at the front of the body only. -/
def singleItem (first : Bool) (a : Char) : List Item :=
  if a = '-' ∧ first = false then [] else [.single a]

/-- The items of a body from left to right; a `-` stands for itself when it is first (`first`
says that nothing is behind), last or escaped. -/
def items : Bool → List Char → List Item
  | _, [] => []
  | _, [a] => if a = '\\' then [] else [.single a]
  | first, [a, b] =>
    if a = '\\' then [.escape b] else singleItem first a ++ items false [b]
  | first, a :: b :: d :: rest =>
    if a = '\\' then .escape b :: items false (d :: rest)
    else if rangeAhead a b d then .range a d :: items false rest
    else singleItem first a ++ items false (b :: d :: rest)

def denotes (c : Char) (first : Bool) (body : List Char) : Bool :=
  (items first body).any fun item => item.has c

/-! What is read across the borders of items: a range from the backslash of an escape, a
range up to a backslash or a `-`, a range from the upper end of a range, and the ends of a
range that holds nothing. -/

def misread (c : Char) : List Char → Bool
  | a :: b :: d :: rest =>
    if a = '\\' then rangeHit c (a :: b :: d :: rest) || misread c (d :: rest)
    else if rangeAhead a b d then
      c == a || c == d || rangeHit c (d :: rest) || misread c rest
    else rangeHit c (a :: b :: d :: rest) || misread c (b :: d :: rest)
  | _ => false

section Denotes
variable {c : Char} {first : Bool}

theorem denotes_escape {b : Char} {rest : List Char} :
    denotes c first ('\\' :: b :: rest) = (matchmetachar c b || denotes c false rest) := by
  cases rest <;> simp only [denotes, items, if_true, List.any_cons, Item.has, List.any_nil]

theorem denotes_range {a b d : Char} {rest : List Char} (hesc : a ≠ '\\')
    (hrange : rangeAhead a b d = true) :
    denotes c first (a :: b :: d :: rest) = ((Item.range a d).has c || denotes c false rest) := by
  simp only [denotes, items, if_neg hesc, if_pos hrange, List.any_cons]

theorem denotes_char {a b d : Char} {rest : List Char} (hesc : a ≠ '\\')
    (hrange : rangeAhead a b d = false) :
    denotes c first (a :: b :: d :: rest) =
      (((singleItem first a).any fun item => item.has c) || denotes c false (b :: d :: rest)) := by
  simp only [denotes, items, if_neg hesc, hrange, Bool.false_eq_true, if_false, List.any_append]

theorem denotes_pair {a b : Char} (hesc : a ≠ '\\') : denotes c first [a, b] =
      (((singleItem first a).any fun item => item.has c) || denotes c false [b]) := by
  simp only [denotes, items, if_neg hesc, List.any_append]

theorem singleItem_other {a : Char} (hdash : c ≠ '-') :
    ((singleItem first a).any fun item => item.has c) = (c == a) := by
  unfold singleItem
  by_cases h : a = '-' ∧ first = false
  · rw [if_pos h, h.1]
    simp [hdash]
  · rw [if_neg h]
    simp [Item.has]

end Denotes

section Other
variable {c : Char}

theorem bodyHas_other (hdash : c ≠ '-') (first : Bool) (body : List Char) :
    bodyHas c first body = (denotes c first body || misread c body) := by
  have hne : (c != '-') = true := by simpa using hdash
  induction first, body using items.induct with
  | case1 first => rfl
  | case2 first => simp [bodyHas, denotes, items, misread]
  | case3 first a hesc => simp [bodyHas, denotes, items, misread, hesc, Item.has]
  | case4 first b => simp [bodyHas, rangeHit, denotes, items, misread, Item.has]
  | case5 first a b hesc ih =>
    rw [denotes_pair hesc, singleItem_other hdash, bodyHas, if_neg hesc, ih]
    by_cases hc : c = a
    · subst hc
      simp [rangeHit, hne]
    · have hca : (c == a) = false := by simpa using hc
      simp [rangeHit, misread, hc, hca]
  | case6 first b d rest ih =>
    rw [denotes_escape, bodyHas, if_pos rfl, ih, misread, if_pos rfl]
    cases rangeHit c ('\\' :: b :: d :: rest) <;> cases matchmetachar c b <;>
      cases denotes c false (d :: rest) <;> rfl
  | case7 first a b d rest hesc hrange ih =>
    rw [denotes_range hesc hrange, misread, if_neg hesc, if_pos hrange]
    simp only [rangeAhead, Bool.and_eq_true, bne_iff_ne, beq_iff_eq] at hrange
    obtain ⟨⟨⟨ha, rfl⟩, hd⟩, hd'⟩ := hrange
    -- the three offsets of the range, one after the other
    have hthird : bodyHas c false (d :: rest) =
        (rangeHit c (d :: rest) || c == d || (denotes c false rest || misread c rest)) := by
      rw [← ih]
      cases rest with
      | nil => simp [bodyHas, rangeHit, hd]
      | cons e rest =>
        rw [bodyHas, if_neg hd]
        by_cases hc : c = d
        · subst hc
          simp [hne]
        · have hcd : (c == d) = false := by simpa using hc
          rw [if_neg hc, hcd, Bool.or_false]
    have hsecond : bodyHas c false ('-' :: d :: rest) = bodyHas c false (d :: rest) := by
      have hhit : rangeHit c ('-' :: d :: rest) = false := by
        cases rest <;> simp [rangeHit]
      rw [bodyHas, hhit, if_neg (by decide), if_neg hdash, Bool.false_or]
    have hfirst : bodyHas c first (a :: '-' :: d :: rest) =
        ((Item.range a d).has c || c == a || bodyHas c false ('-' :: d :: rest)) := by
      have hhit : rangeHit c (a :: '-' :: d :: rest) = (Item.range a d).has c := by
        have ha' : (a != '-') = true := by simpa using ha
        simp [rangeHit, Item.has, hne, ha']
      rw [bodyHas, hhit, if_neg hesc]
      by_cases hc : c = a
      · subst hc
        simp [hne]
      · have hca : (c == a) = false := by simpa using hc
        rw [if_neg hc, hca, Bool.or_false]
    rw [hfirst, hsecond, hthird]
    cases (Item.range a d).has c <;> cases c == a <;> cases c == d <;>
      cases rangeHit c (d :: rest) <;> cases denotes c false rest <;> rfl
  | case8 first a b d rest hesc hrange ih =>
    have hrange : rangeAhead a b d = false := by simpa using hrange
    rw [denotes_char hesc hrange, singleItem_other hdash, bodyHas, if_neg hesc, ih, misread,
      if_neg hesc, hrange, if_neg Bool.false_ne_true]
    by_cases hc : c = a
    · subst hc
      simp [hne]
    · have hca : (c == a) = false := by simpa using hc
      rw [if_neg hc, hca]
      cases rangeHit c (a :: b :: d :: rest) <;> cases denotes c false (b :: d :: rest) <;> rfl

end Other

/-! The character `-`: the loop ends at the first unescaped one. -/

/-- What is before and behind the first unescaped `-`. -/
def splitDash : List Char → Option (List Char × List Char)
  | [] => none
  | [a] => if a = '-' then some ([], []) else none
  | a :: b :: rest =>
    if a = '\\' then (splitDash rest).map fun cut => (a :: b :: cut.1, cut.2)
    else if a = '-' then some ([], b :: rest)
    else (splitDash (b :: rest)).map fun cut => (a :: cut.1, cut.2)

/-- The loop on `-`: what the items before the first unescaped `-` hold, and that `-` itself
where it is first or last. -/
def dashSeen (first : Bool) (body : List Char) : Bool :=
  match splitDash body with
  | none => denotes '-' first body
  | some (before, behind) =>
    denotes '-' first before || (before.isEmpty && first) || behind.isEmpty

section Dash
variable {first : Bool}

theorem rangeHit_dash (body : List Char) : rangeHit '-' body = false := by
  match body with
  | _ :: _ :: _ :: _ | [] | [_] | [_, _] => rfl

theorem splitDash_none_head {b : Char} {rest : List Char} (h : splitDash (b :: rest) = none) : b ≠ '-' := by
  intro hb
  subst hb
  cases rest <;> simp [splitDash] at h

theorem splitDash_some_head {body before behind : List Char} {b : Char}
    (h : splitDash body = some (b :: before, behind)) : b ≠ '-' := by
  cases body with
  | nil => simp [splitDash] at h
  | cons a rest =>
    cases rest with
    | nil => simp [splitDash] at h
    | cons d rest =>
      rw [splitDash] at h
      by_cases hesc : a = '\\'
      · rw [if_pos hesc] at h
        obtain ⟨cut, _, hcut⟩ := Option.map_eq_some_iff.mp h
        simp only [Prod.mk.injEq, List.cons.injEq] at hcut
        rw [← hcut.1.1, hesc]
        decide
      · by_cases ha : a = '-'
        · simp [ha] at h
        · rw [if_neg hesc, if_neg ha] at h
          obtain ⟨cut, _, hcut⟩ := Option.map_eq_some_iff.mp h
          simp only [Prod.mk.injEq, List.cons.injEq] at hcut
          rw [← hcut.1.1]
          exact ha

theorem denotes_skip {a b : Char} {rest : List Char} (hesc : a ≠ '\\') (ha : a ≠ '-')
    (hb : b ≠ '-') : denotes '-' first (a :: b :: rest) = denotes '-' false (b :: rest) := by
  have hsingle : ((singleItem first a).any fun item => item.has '-') = false := by
    have hne : ('-' == a) = false := by simpa using fun h => ha h.symm
    simp [singleItem, ha, Item.has, hne]
  cases rest with
  | nil => rw [denotes_pair hesc, hsingle, Bool.false_or]
  | cons d rest =>
    have hrange : rangeAhead a b d = false := by simp [rangeAhead, hb]
    rw [denotes_char hesc hrange, hsingle, Bool.false_or]

theorem denotes_alone {a : Char} (ha : a ≠ '-') : denotes '-' first [a] = false := by
  have hne : ('-' == a) = false := by simpa using fun h => ha h.symm
  by_cases hesc : a = '\\' <;> simp [denotes, items, hesc, Item.has, hne]

theorem bodyHas_dash (first : Bool) (body : List Char) : bodyHas '-' first body = dashSeen first body := by
  induction body using splitDash.induct generalizing first with
  | case1 => rfl
  | case2 => simp [bodyHas, dashSeen, splitDash]
  | case3 a ha =>
    have hne : ('-' == a) = false := by simpa using fun h => ha h.symm
    simp [bodyHas, dashSeen, splitDash, ha, hne, denotes_alone]
  | case4 b rest ih =>
    rw [bodyHas, if_pos rfl, rangeHit_dash, Bool.false_or, ih]
    unfold dashSeen
    rw [splitDash, if_pos rfl]
    cases hcut : splitDash rest with
    | none => exact denotes_escape.symm
    | some cut =>
      show (matchmetachar '-' b || (denotes '-' false cut.1 || (cut.1.isEmpty && false) ||
        cut.2.isEmpty)) = (denotes '-' first ('\\' :: b :: cut.1) || false || cut.2.isEmpty)
      rw [denotes_escape, Bool.and_false, Bool.or_false, Bool.or_false, Bool.or_assoc]
  | case5 b rest hesc =>
    rw [bodyHas, rangeHit_dash, Bool.false_or, if_neg hesc, if_pos rfl]
    simp [dashSeen, splitDash, denotes, items]
  | case6 a b rest hesc ha ih =>
    rw [bodyHas, rangeHit_dash, Bool.false_or, if_neg hesc, if_neg (Ne.symm ha), ih]
    unfold dashSeen
    rw [splitDash, if_neg hesc, if_neg ha]
    cases hcut : splitDash (b :: rest) with
    | none => exact (denotes_skip hesc ha (splitDash_none_head hcut)).symm
    | some cut =>
      obtain ⟨before, behind⟩ := cut
      show (denotes '-' false before || (before.isEmpty && false) || behind.isEmpty) =
        (denotes '-' first (a :: before) || false || behind.isEmpty)
      rw [Bool.and_false]
      cases before with
      | nil => rw [denotes_alone ha]; rfl
      | cons d before => rw [denotes_skip hesc ha (splitDash_some_head hcut)]

theorem dashSeen_denotes (first : Bool) (body : List Char) (h : dashSeen first body = true) :
    denotes '-' first body = true := by
  induction body using splitDash.induct generalizing first with
  | case1 => simpa [dashSeen, splitDash] using h
  | case2 => simp [denotes, items, Item.has]
  | case3 a ha => simpa [dashSeen, splitDash, ha] using h
  | case4 b rest ih =>
    rw [← bodyHas_dash, bodyHas, if_pos rfl, rangeHit_dash, Bool.false_or, Bool.or_eq_true] at h
    rw [denotes_escape, Bool.or_eq_true]
    exact h.imp_right fun h => ih false (by rwa [bodyHas_dash] at h)
  | case5 b rest hesc =>
    have hfirst : first = true := by simpa [dashSeen, splitDash, denotes, items] using h
    subst hfirst
    cases rest with
    | nil => simp [denotes_pair hesc, singleItem, Item.has]
    | cons d rest => simp [denotes_char hesc (show rangeAhead '-' b d = false by rfl), singleItem,
        Item.has]
  | case6 a b rest hesc ha ih =>
    rw [← bodyHas_dash, bodyHas, rangeHit_dash, Bool.false_or, if_neg hesc, if_neg (Ne.symm ha),
      bodyHas_dash] at h
    have hrest := ih false h
    by_cases hb : b = '-'
    · -- a `-` that is not first is accepted only as the last character
      subst hb
      have hlast : rest = [] := by
        cases rest with
        | nil => rfl
        | cons d rest => simp [dashSeen, splitDash, denotes, items] at h
      subst hlast
      rw [denotes_pair hesc, hrest, Bool.or_true]
    · rw [denotes_skip hesc ha hb]
      exact hrest

end Dash

/-! When the loop is right. -/

/-- A character other than `-` is not read across the borders of items, or an item holds it
anyway; and `-` is held by no item, or nothing that holds it comes behind an unescaped `-`
inside the body. -/
def ClearlyRead (c : Char) (body : List Char) : Prop :=
  if c = '-' then
    denotes c true body = true →
      match splitDash body with
      | none => True
      | some (before, behind) => before = [] ∨ behind = [] ∨ denotes c true before = true
  else misread c body = true → denotes c true body = true

/-- The loop accepts a character of a body exactly when an item of the body holds it, if and
only if the character is read clearly. -/
theorem class_denotes_iff (c : Char) (body : List Char) :
    matchcharclassN c body 0 body.length = .ok (denotes c true body) ↔ ClearlyRead c body := by
  rw [matchcharclassN_eq (reads_self body)]
  have hok : (Except.ok (bodyHas c true body) : Run Bool) = .ok (denotes c true body) ↔
      bodyHas c true body = denotes c true body := by
    constructor
    · intro h
      injection h
    · intro h
      rw [h]
  rw [hok]
  unfold ClearlyRead
  by_cases hdash : c = '-'
  · subst hdash
    rw [if_pos rfl, bodyHas_dash]
    have hback := dashSeen_denotes true body
    have hseen : dashSeen true body = true ↔ (denotes '-' true body = true ∧
        match splitDash body with
        | none => True
        | some (before, behind) => before = [] ∨ behind = [] ∨ denotes '-' true before = true) := by
      constructor
      · intro h
        refine ⟨hback h, ?_⟩
        unfold dashSeen at h
        cases hcut : splitDash body with
        | none => trivial
        | some cut =>
          rw [hcut] at h
          simp only [Bool.and_true, Bool.or_eq_true, List.isEmpty_iff] at h
          obtain (h | h) | h := h
          · exact .inr (.inr h)
          · exact .inl h
          · exact .inr (.inl h)
      · intro h
        unfold dashSeen
        cases hcut : splitDash body with
        | none => exact h.1
        | some cut =>
          have h := h.2
          rw [hcut] at h
          simp only [Bool.and_true, Bool.or_eq_true, List.isEmpty_iff]
          obtain h | h | h := h
          · exact .inl (.inr h)
          · exact .inr h
          · exact .inl (.inl h)
    constructor
    · intro h hden
      exact (hseen.mp (by rw [h, hden])).2
    · intro h
      cases hden : denotes '-' true body with
      | true => exact hseen.mpr ⟨hden, h hden⟩
      | false =>
        cases hs : dashSeen true body with
        | false => rfl
        | true => exact absurd (hback hs) (by simp [hden])
  · rw [if_neg hdash, bodyHas_other hdash]
    cases denotes c true body <;> cases misread c body <;> simp

/-- The class of an escaped `-` and `z` takes the backslash as the lower end of a range. -/
theorem class_backslash_range : matchcharclassN 'a' ['\\', '-', 'z'] 0 3 = .ok true ∧
      denotes 'a' true ['\\', '-', 'z'] = false := by
  decide

end TurboScript.Regex
