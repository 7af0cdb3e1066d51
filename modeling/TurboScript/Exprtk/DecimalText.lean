import Mathlib.Data.List.TakeWhile
import Mathlib.Data.Rat.Lemmas
import Mathlib.Algebra.Order.Ring.Rat
import Mathlib.Tactic.FieldSimp
import Mathlib.Tactic.Ring
import TurboScript.Exprtk.Value

/- Decimals as text (`core_decimal_normalize`, `core_decimal_from_text`, `core_decimal_text`
   of `mod_core.c`).

   The accumulator is a natural number: its guard keeps it below the limit, so the unsigned
   64-bit arithmetic does not wrap. What a text denotes is stated apart from the loop that reads
   it: blanks, a sign, digits with at most one point among them, blanks (`numeral?`). The loop
   reads exactly the numerals whose digits fit (`coreDecimalFromText_eq`). -/
namespace TurboScript.Exprtk.DecimalText

/-! The functions. -/

section Functions

def int64Max : Nat := 2 ^ 63 - 1
def int32Max : Nat := 2 ^ 31 - 1

/-- `isspace` in the C locale. -/
def isSpace (c : Char) : Bool := c.toNat == 32 || (9 ≤ c.toNat && c.toNat ≤ 13)

def coreDecimalNormalize (value : Decimal) : Option Decimal :=
  if value.scale < 0 then none else some value.normalize

structure Scan where
  acc : Nat := 0
  scale : Nat := 0
  sawDigit : Bool := false
  sawDot : Bool := false

/-- The loop of `core_decimal_from_text`. -/
def scan (limit : Nat) : List Char → Scan → Option Scan
  | [], s => some s
  | c :: text, s =>
    if c.isDigit then
      let digit := c.toNat - '0'.toNat
      if (limit - digit) / 10 < s.acc then none
      else if s.sawDot then
        if s.scale = int32Max then none
        else scan limit text { s with acc := s.acc * 10 + digit, sawDigit := true, scale := s.scale + 1 }
      else scan limit text { s with acc := s.acc * 10 + digit, sawDigit := true }
    else if c = '.' then
      if s.sawDot then none else scan limit text { s with sawDot := true }
    -- blanks are skipped, and then the text has to end
    else if isSpace c && text.all isSpace then some s
    else none

def readSign : List Char → Bool × List Char
  | '-' :: text => (true, text)
  | '+' :: text => (false, text)
  | text => (false, text)

def signLimit (negative : Bool) : Nat := if negative then int64Max + 1 else int64Max

def signed (negative : Bool) (acc : Nat) : Int :=
  if negative then (if acc = int64Max + 1 then -2 ^ 63 else -(acc : Int)) else acc

def coreDecimalFromText (text : List Char) : Option Decimal :=
  let (negative, p) := readSign (text.dropWhile isSpace)
  match scan (signLimit negative) p {} with
  | none => none
  | some s =>
    if s.sawDigit then coreDecimalNormalize ⟨signed negative s.acc, s.scale⟩ else none

/-- `core_decimal_text`; the three layouts are those of `eval_value_text`. -/
def coreDecimalText (size : Nat) (value : Decimal) : Option String :=
  if size = 0 then none
  else match coreDecimalNormalize value with
    | none => none
    | some v =>
      if v.mantissa < 0 ∧ size ≤ 1 then none else decimalText 0 size v

end Functions

/-! What a text denotes. -/

section Numerals

structure Numeral where
  negative : Bool
  whole : List Char
  frac : List Char

def Numeral.digits (n : Numeral) : List Char := n.whole ++ n.frac

def Numeral.magnitude (n : Numeral) : Nat := Nat.ofDigitChars 10 n.digits 0

def Numeral.value (n : Numeral) : ℚ :=
  (if n.negative then -(n.magnitude : ℚ) else n.magnitude) / 10 ^ n.frac.length

/-- The digits fit the mantissa and their number after the point the scale. -/
def Numeral.Fits (n : Numeral) : Prop :=
  n.magnitude ≤ signLimit n.negative ∧ n.frac.length ≤ int32Max

instance (n : Numeral) : Decidable n.Fits := inferInstanceAs (Decidable (_ ∧ _))

/-- There is a digit, and nothing but blanks follows. -/
def finish (n : Numeral) (rest : List Char) : Option Numeral :=
  if n.digits ≠ [] ∧ rest.all isSpace then some n else none

/-- The numeral of a text: blanks, a sign, digits with at most one point among them, blanks. -/
def numeral? (text : List Char) : Option Numeral :=
  let (negative, body) := readSign (text.dropWhile isSpace)
  let whole := body.takeWhile Char.isDigit
  match body.dropWhile Char.isDigit with
  | '.' :: rest =>
    finish ⟨negative, whole, rest.takeWhile Char.isDigit⟩ (rest.dropWhile Char.isDigit)
  | rest => finish ⟨negative, whole, []⟩ rest

def denotation (text : List Char) : Option ℚ := (numeral? text).map Numeral.value

end Numerals

/-! The loop. -/

section Loop
variable {limit : Nat}

theorem digit_le {c : Char} (hc : c.isDigit = true) : c.toNat - '0'.toNat ≤ 9 := by
  have hle := (Char.isDigit_iff_toNat.mp hc).2
  simp at hle ⊢
  omega

theorem digit_not_space {c : Char} (hc : c.isDigit = true) : isSpace c = false := by
  have hle := (Char.isDigit_iff_toNat.mp hc).1
  simp at hle
  simp [isSpace]
  omega

theorem guard_iff {acc digit : Nat} (h9 : 9 ≤ limit) (hd : digit ≤ 9) :
    (limit - digit) / 10 < acc ↔ limit < acc * 10 + digit := by
  rw [Nat.div_lt_iff_lt_mul (by decide)]
  omega

def Scan.digits (s : Scan) (ds : List Char) : Scan where
  acc := Nat.ofDigitChars 10 ds s.acc
  scale := if s.sawDot then s.scale + ds.length else s.scale
  sawDigit := s.sawDigit || !ds.isEmpty
  sawDot := s.sawDot

def Scan.point (s : Scan) : Scan := { s with sawDot := true }

theorem Scan.digits_nil (s : Scan) : s.digits [] = s := by
  cases s with
  | mk acc scale sawDigit sawDot => cases sawDot <;> simp [Scan.digits]

theorem scan_digits (h9 : 9 ≤ limit) (rest : List Char) :
    ∀ (ds : List Char) (s : Scan), (∀ c ∈ ds, c.isDigit = true) → s.acc ≤ limit → s.scale ≤ int32Max →
      scan limit (ds ++ rest) s =
        if (s.digits ds).acc ≤ limit ∧ (s.digits ds).scale ≤ int32Max
          then scan limit rest (s.digits ds) else none := by
  intro ds
  induction ds with
  | nil =>
    intro s _ hacc hscale
    rw [Scan.digits_nil, if_pos ⟨hacc, hscale⟩]
    rfl
  | cons c ds ih =>
    intro s hds hacc hscale
    have hc : c.isDigit = true := hds c (List.mem_cons_self ..)
    have hrest : ∀ c ∈ ds, c.isDigit = true := fun d hd => hds d (List.mem_cons_of_mem _ hd)
    have hguard : (limit - (c.toNat - '0'.toNat)) / 10 < s.acc ↔
        limit < s.acc * 10 + (c.toNat - '0'.toNat) := guard_iff h9 (digit_le hc)
    -- once the digits do not fit, more digits do not help
    have hgrow : s.acc * 10 + (c.toNat - '0'.toNat) ≤ (s.digits (c :: ds)).acc := by
      simp only [Scan.digits, Nat.ofDigitChars_cons]
      rw [Nat.ofDigitChars_eq_ofDigitChars_zero, Nat.mul_comm s.acc]
      exact Nat.le_trans (Nat.le_mul_of_pos_left _ (Nat.pow_pos (by decide))) (Nat.le_add_right ..)
    simp only [List.cons_append, scan, hc, if_true]
    by_cases hfit : limit < s.acc * 10 + (c.toNat - '0'.toNat)
    · rw [if_pos (hguard.mpr hfit), if_neg]
      intro h
      omega
    · rw [if_neg (fun h => hfit (hguard.mp h))]
      cases hdot : s.sawDot with
      | false =>
        rw [if_neg Bool.false_ne_true]
        refine (ih _ hrest ?_ ?_).trans ?_
        · exact Nat.not_lt.mp hfit
        · exact hscale
        · simp [Scan.digits, hdot, Nat.ofDigitChars_cons, Nat.mul_comm]
      | true =>
        rw [if_pos rfl]
        by_cases hfull : s.scale = int32Max
        · rw [if_pos hfull, if_neg]
          simp [Scan.digits, hdot, hfull]
        · rw [if_neg hfull]
          refine (ih _ hrest ?_ ?_).trans ?_
          · exact Nat.not_lt.mp hfit
          · exact Nat.lt_of_le_of_ne hscale hfull
          · simp [Scan.digits, hdot, Nat.ofDigitChars_cons, Nat.mul_comm, Nat.add_assoc, Nat.add_comm 1]

theorem scan_end {rest : List Char} {s : Scan} (hhead : ∀ c ∈ rest.head?, c.isDigit = false)
    (hdot : s.sawDot = true) :
    scan limit rest s = if rest.all isSpace then some s else none := by
  cases rest with
  | nil => rfl
  | cons c rest =>
    have hc : c.isDigit = false := hhead c rfl
    by_cases hpoint : c = '.'
    · subst hpoint
      simp [scan, hdot, isSpace]
    · simp [scan, hc, hpoint]

theorem scan_end_whole {rest : List Char} {s : Scan}
    (hhead : ∀ c ∈ rest.head?, c.isDigit = false ∧ c ≠ '.') :
    scan limit rest s = if rest.all isSpace then some s else none := by
  cases rest with
  | nil => rfl
  | cons c rest =>
    obtain ⟨hc, hpoint⟩ := hhead c rfl
    simp [scan, hc, hpoint]

theorem takeWhile_digits {l : List Char} : ∀ c ∈ l.takeWhile Char.isDigit, c.isDigit = true :=
  fun _ hc => List.mem_takeWhile_imp hc

theorem dropWhile_head {l : List Char} : ∀ c ∈ (l.dropWhile Char.isDigit).head?, c.isDigit = false := by
  induction l with
  | nil => simp
  | cons c l ih => cases hc : c.isDigit <;> simp_all

theorem signLimit_ge (negative : Bool) : 9 ≤ signLimit negative := by
  cases negative <;> decide

theorem coreDecimalNormalize_nat (m : Int) (scale : Nat) :
    coreDecimalNormalize ⟨m, scale⟩ = some (Decimal.normalize ⟨m, scale⟩) :=
  if_neg (Int.not_lt.mpr (Int.natCast_nonneg scale))

def Numeral.decimal (n : Numeral) : Decimal :=
  Decimal.normalize ⟨signed n.negative n.magnitude, n.frac.length⟩

/-- `core_decimal_from_text` after the sign. -/
def readBody (negative : Bool) (body : List Char) : Option Decimal :=
  match scan (signLimit negative) body {} with
  | none => none
  | some s =>
    if s.sawDigit then coreDecimalNormalize ⟨signed negative s.acc, s.scale⟩ else none

theorem outcome_eq (n : Numeral) (rest : List Char) (s : Scan) (hacc : s.acc = n.magnitude)
    (hscale : s.scale = n.frac.length) (hsaw : s.sawDigit = !n.digits.isEmpty) :
    (match (if s.acc ≤ signLimit n.negative ∧ s.scale ≤ int32Max then
        (if rest.all isSpace then some s else none) else none : Option Scan) with
      | none => none
      | some s =>
        if s.sawDigit then coreDecimalNormalize ⟨signed n.negative s.acc, s.scale⟩ else none) =
      (finish n rest).bind fun n => if n.Fits then some n.decimal else none := by
  have hfits : (s.acc ≤ signLimit n.negative ∧ s.scale ≤ int32Max) ↔ n.Fits := by
    rw [hacc, hscale]
    exact Iff.rfl
  by_cases hfit : n.Fits
  · rw [if_pos (hfits.mpr hfit), finish]
    cases hend : rest.all isSpace with
    | false => simp
    | true =>
      by_cases hne : n.digits = []
      · simp [hsaw, hne]
      · have hdec := coreDecimalNormalize_nat (signed n.negative n.magnitude) n.frac.length
        simp [hsaw, hne, hfit, hacc, hscale, hdec, Numeral.decimal]
  · rw [if_neg (fun h => hfit (hfits.mp h)), finish]
    by_cases hend : n.digits ≠ [] ∧ rest.all isSpace = true
    · rw [if_pos hend, Option.bind_some, if_neg hfit]
    · rw [if_neg hend, Option.bind_none]

theorem readBody_whole (negative : Bool) {whole rest : List Char}
    (hw : ∀ c ∈ whole, c.isDigit = true) (hr : ∀ c ∈ rest.head?, c.isDigit = false ∧ c ≠ '.') :
    readBody negative (whole ++ rest) =
      (finish ⟨negative, whole, []⟩ rest).bind fun n => if n.Fits then some n.decimal else none := by
  have hread := scan_digits (signLimit_ge negative) rest whole {} hw (Nat.zero_le _) (Nat.zero_le _)
  rw [readBody, hread, scan_end_whole hr]
  apply outcome_eq ⟨negative, whole, []⟩ rest
  · simp [Scan.digits, Numeral.magnitude, Numeral.digits]
  · rfl
  · simp [Scan.digits, Numeral.digits]

theorem readBody_point (negative : Bool) {whole frac rest : List Char}
    (hw : ∀ c ∈ whole, c.isDigit = true) (hf : ∀ c ∈ frac, c.isDigit = true)
    (hr : ∀ c ∈ rest.head?, c.isDigit = false) :
    readBody negative (whole ++ '.' :: (frac ++ rest)) =
      (finish ⟨negative, whole, frac⟩ rest).bind fun n => if n.Fits then some n.decimal else none := by
  have h9 := signLimit_ge negative
  have hwhole := scan_digits h9 ('.' :: (frac ++ rest)) whole {} hw (Nat.zero_le _) (Nat.zero_le _)
  have hdot : scan (signLimit negative) ('.' :: (frac ++ rest)) (Scan.digits {} whole) =
      scan (signLimit negative) (frac ++ rest) (Scan.digits {} whole).point := by
    simp [scan, Scan.digits, Scan.point]
  have hsaw : ((Scan.digits {} whole).point.digits frac).sawDigit = !(whole ++ frac).isEmpty := by
    cases whole <;> cases frac <;> rfl
  have hout := outcome_eq ⟨negative, whole, frac⟩ rest ((Scan.digits {} whole).point.digits frac)
    (by simp [Scan.digits, Scan.point, Numeral.magnitude, Numeral.digits, Nat.ofDigitChars_append])
    (by simp [Scan.digits, Scan.point]) hsaw
  rw [readBody, hwhole, hdot]
  by_cases hfit : (Scan.digits {} whole).acc ≤ signLimit negative
  · rw [if_pos ⟨hfit, Nat.zero_le _⟩,
      scan_digits h9 rest frac (Scan.digits {} whole).point hf hfit (Nat.zero_le _),
      scan_end hr rfl]
    exact hout
  · rw [← hout, if_neg (fun h => hfit h.1), if_neg]
    -- the digits after the point make the number no smaller
    have hgrow : (Scan.digits {} whole).acc ≤ ((Scan.digits {} whole).point.digits frac).acc := by
      simp only [Scan.digits, Scan.point]
      rw [Nat.ofDigitChars_eq_ofDigitChars_zero (l := frac)]
      exact Nat.le_trans (Nat.le_mul_of_pos_left _ (Nat.pow_pos (by decide))) (Nat.le_add_right ..)
    exact fun h => hfit (Nat.le_trans hgrow h.1)

/-- **Reading a decimal.** The loop accepts exactly the numerals whose digits fit, and returns
    the normal form of the decimal that is written. -/
theorem coreDecimalFromText_eq (text : List Char) : coreDecimalFromText text =
      (numeral? text).bind fun n => if n.Fits then some n.decimal else none := by
  show readBody (readSign (text.dropWhile isSpace)).1 (readSign (text.dropWhile isSpace)).2 = _
  simp only [numeral?]
  generalize readSign (text.dropWhile isSpace) = p
  obtain ⟨negative, body⟩ := p
  have hbody := List.takeWhile_append_dropWhile (p := Char.isDigit) (l := body)
  have hhead := dropWhile_head (l := body)
  cases hrest : body.dropWhile Char.isDigit with
  | nil =>
    rw [hrest] at hbody
    have hread := @readBody_whole negative (body.takeWhile Char.isDigit) [] takeWhile_digits (by simp)
    rw [hbody] at hread
    exact hread
  | cons c rest =>
    by_cases hpoint : c = '.'
    · subst hpoint
      have hfrac := List.takeWhile_append_dropWhile (p := Char.isDigit) (l := rest)
      have hread := @readBody_point negative (body.takeWhile Char.isDigit)
        (rest.takeWhile Char.isDigit) (rest.dropWhile Char.isDigit) takeWhile_digits
        takeWhile_digits dropWhile_head
      rw [hfrac, ← hrest, hbody] at hread
      exact hread
    · have hc : c.isDigit = false := hhead c (by rw [hrest]; rfl)
      have hread := @readBody_whole negative (body.takeWhile Char.isDigit) (c :: rest)
        takeWhile_digits (by simpa using ⟨hc, hpoint⟩)
      rw [← hrest, hbody, hrest] at hread
      refine hread.trans ?_
      split
      · next heq => exact absurd (List.cons.inj heq).1 hpoint
      · rfl

end Loop

/-! The normal form. -/

section Normal

def value (d : Decimal) : ℚ := d.mantissa / 10 ^ d.scale.toNat

/-- No trailing zero while there is a scale, and no scale when the number is zero. -/
structure NormalForm (d : Decimal) : Prop where
  scale_nonneg : 0 ≤ d.scale
  no_trailing : 0 < d.scale → d.mantissa % 10 ≠ 0
  zero : d.mantissa = 0 → d.scale = 0

theorem tdiv_ten {m : Int} (h : m % 10 = 0) : m.tdiv 10 * 10 = m :=
  Int.tdiv_mul_cancel (Int.dvd_of_emod_eq_zero h)

theorem value_strip (m : Int) (n : Nat) : value (Decimal.normalize.strip m n) = m / 10 ^ n := by
  induction n generalizing m with
  | zero => simp [Decimal.normalize.strip, value]
  | succ n ih =>
    rw [Decimal.normalize.strip]
    split
    · next h =>
      have hm : ((m.tdiv 10 : Int) : ℚ) * 10 = m := by exact_mod_cast tdiv_ten h
      rw [ih, ← hm, pow_succ]
      field_simp
    · have hn : ((n : Int) + 1).toNat = n + 1 := by omega
      rw [value, hn]

theorem strip_scale (m : Int) (n : Nat) :
    0 ≤ (Decimal.normalize.strip m n).scale ∧ (Decimal.normalize.strip m n).scale ≤ n := by
  induction n generalizing m with
  | zero => simp [Decimal.normalize.strip]
  | succ n ih =>
    rw [Decimal.normalize.strip]
    split
    · have h := ih (m.tdiv 10)
      omega
    · simp only
      omega

theorem strip_no_trailing (m : Int) (n : Nat) (h : 0 < (Decimal.normalize.strip m n).scale) :
    (Decimal.normalize.strip m n).mantissa % 10 ≠ 0 := by
  induction n generalizing m with
  | zero => simp [Decimal.normalize.strip] at h
  | succ n ih =>
    rw [Decimal.normalize.strip] at h ⊢
    split
    · next h10 =>
      rw [if_pos h10] at h
      exact ih _ h
    · assumption

theorem strip_mantissa (m : Int) (n : Nat) {lo hi : Int} (hlo : lo ≤ 0) (hhi : 0 ≤ hi)
    (hm : lo ≤ m ∧ m ≤ hi) :
    lo ≤ (Decimal.normalize.strip m n).mantissa ∧ (Decimal.normalize.strip m n).mantissa ≤ hi := by
  induction n generalizing m with
  | zero => exact hm
  | succ n ih =>
    rw [Decimal.normalize.strip]
    split
    · next h =>
      have hten := tdiv_ten h
      apply ih
      omega
    · exact hm

theorem normalize_eq {d : Decimal} (hs : 0 ≤ d.scale) :
    d.normalize = Decimal.normalize.strip d.mantissa d.scale.toNat := by
  have hstrip : (if 0 < d.scale then Decimal.normalize.strip d.mantissa d.scale.toNat else d) =
      Decimal.normalize.strip d.mantissa d.scale.toNat := by
    split
    · rfl
    · have h0 : d.scale = 0 := by omega
      cases d with
      | mk m s =>
        cases h0
        rfl
  simp only [Decimal.normalize, hstrip]
  split
  · next h0 =>
    have hscale := strip_scale d.mantissa d.scale.toNat
    have htrail := strip_no_trailing d.mantissa d.scale.toNat
    generalize Decimal.normalize.strip d.mantissa d.scale.toNat = e at *
    obtain ⟨m, s⟩ := e
    simp only at h0 hscale htrail
    have hs0 : s = 0 := by
      by_contra hne
      exact htrail (by omega) (by rw [h0]; rfl)
    rw [h0, hs0]
  · rfl

theorem normalize_normalForm {d : Decimal} (hs : 0 ≤ d.scale) : NormalForm d.normalize := by
  rw [normalize_eq hs]
  refine ⟨(strip_scale _ _).1, strip_no_trailing _ _, fun h0 => ?_⟩
  by_contra hne
  have hpos := (strip_scale d.mantissa d.scale.toNat).1
  exact strip_no_trailing d.mantissa d.scale.toNat (by omega) (by rw [h0]; rfl)

theorem value_normalize {d : Decimal} (hs : 0 ≤ d.scale) : value d.normalize = value d := by
  rw [normalize_eq hs, value_strip, value]

theorem NormalForm.unique {a b : Decimal} (ha : NormalForm a) (hb : NormalForm b)
    (h : value a = value b) : a = b := by
  have key : ∀ {a b : Decimal}, NormalForm a → NormalForm b → value a = value b →
      a.scale ≤ b.scale → a = b := by
    intro a b ha hb h hle
    obtain ⟨k, hk⟩ : ∃ k : Nat, b.scale.toNat = a.scale.toNat + k :=
      ⟨b.scale.toNat - a.scale.toNat, by omega⟩
    have hm : a.mantissa * 10 ^ k = b.mantissa := by
      have hq : (a.mantissa : ℚ) * 10 ^ k = b.mantissa := by
        rw [value, value, hk, pow_add] at h
        field_simp at h
        exact h
      exact_mod_cast hq
    cases k with
    | zero =>
      have hs : a.scale = b.scale := by
        have := ha.scale_nonneg
        omega
      cases a
      cases b
      simp_all
    | succ k =>
      have hpos : 0 < b.scale := by omega
      have hten : b.mantissa % 10 = 0 := by
        rw [← hm, pow_succ, ← mul_assoc]
        exact Int.mul_emod_left _ _
      exact absurd hten (hb.no_trailing hpos)
  rcases le_total a.scale b.scale with hle | hle
  · exact key ha hb h hle
  · exact (key hb ha h.symm hle).symm

theorem normalize_of_normalForm {d : Decimal} (h : NormalForm d) : d.normalize = d :=
  (normalize_normalForm h.scale_nonneg).unique h (value_normalize h.scale_nonneg)

end Normal

/-! The text of a decimal. -/

section RoundTrip

def Numeral.text (n : Numeral) : List Char :=
  (if n.negative then ['-'] else []) ++ n.whole ++ (if n.frac.isEmpty then [] else '.' :: n.frac)

def mantissaDigits (n : Decimal) : List Char := Nat.toDigits 10 n.mantissa.natAbs

/-- The numeral `core_decimal_text` writes for a normalised decimal. -/
def written (n : Decimal) : Numeral where
  negative := n.mantissa < 0
  whole :=
    if n.scale = 0 then mantissaDigits n
    else if (mantissaDigits n).length ≤ n.scale.toNat then ['0']
    else (mantissaDigits n).take ((mantissaDigits n).length - n.scale.toNat)
  frac :=
    if n.scale = 0 then []
    else if (mantissaDigits n).length ≤ n.scale.toNat then
      List.replicate (n.scale.toNat - (mantissaDigits n).length) '0' ++ mantissaDigits n
    else (mantissaDigits n).drop ((mantissaDigits n).length - n.scale.toNat)

theorem toString_natAbs (n : Decimal) : (toString n.mantissa.natAbs).toList = mantissaDigits n :=
  Nat.toList_repr

theorem mantissaDigits_ne_nil (n : Decimal) : mantissaDigits n ≠ [] := Nat.toDigits_ne_nil

theorem mantissaDigits_digit (n : Decimal) : ∀ c ∈ mantissaDigits n, c.isDigit = true :=
  fun _ hc => Nat.isDigit_of_mem_toDigits (by decide) (by decide) hc

theorem decimalText_eq {n : Decimal} (h : NormalForm n) (size : Nat) : decimalText 0 size n =
      if (written n).text.length < size then some (String.ofList (written n).text) else none := by
  have hne := mantissaDigits_ne_nil n
  have hscale := h.scale_nonneg
  simp only [decimalText, normalize_of_normalForm h, toString_natAbs, Numeral.text, written,
    decide_eq_true_eq, Nat.zero_add]
  generalize (if n.mantissa < 0 then ['-'] else []) = sign
  by_cases h0 : n.scale = 0
  · simp only [h0, if_true, List.isEmpty_nil, List.append_nil, List.length_append]
    split <;> split <;> first | rfl | omega
  · simp only [h0, if_false]
    by_cases hlen : (mantissaDigits n).length ≤ n.scale.toNat
    · have hfrac : (List.replicate (n.scale.toNat - (mantissaDigits n).length) '0' ++
          mantissaDigits n).isEmpty = false := by
        simp [hne]
      simp only [hlen, if_true, hfrac, Bool.false_eq_true, if_false, List.length_append, List.length_cons,
        List.length_replicate, List.append_assoc, List.cons_append, List.nil_append]
      split <;> split <;> first | rfl | omega
    · have hfrac : ((mantissaDigits n).drop
          ((mantissaDigits n).length - n.scale.toNat)).isEmpty = false := by
        rw [List.isEmpty_eq_false_iff, Ne, List.drop_eq_nil_iff]
        omega
      simp only [hlen, if_false, hfrac, Bool.false_eq_true, List.length_append, List.length_cons, List.length_take,
        List.length_drop, List.append_assoc, List.cons_append, List.nil_append]
      split <;> split <;> first | rfl | omega

theorem written_digits (n : Decimal) :
    (∀ c ∈ (written n).whole, c.isDigit = true) ∧ (∀ c ∈ (written n).frac, c.isDigit = true) ∧
      (written n).whole ≠ [] := by
  have hdig := mantissaDigits_digit n
  have hne := mantissaDigits_ne_nil n
  have htake : ∀ c ∈ (mantissaDigits n).take ((mantissaDigits n).length - n.scale.toNat),
      c.isDigit = true := fun c hc => hdig c (List.mem_of_mem_take hc)
  have hdrop : ∀ c ∈ (mantissaDigits n).drop ((mantissaDigits n).length - n.scale.toNat),
      c.isDigit = true := fun c hc => hdig c (List.mem_of_mem_drop hc)
  simp only [written]
  by_cases h0 : n.scale = 0
  · simp only [h0, if_true]
    exact ⟨hdig, by simp, hne⟩
  · by_cases hlen : (mantissaDigits n).length ≤ n.scale.toNat
    · simp only [h0, hlen, if_true, if_false]
      refine ⟨by simp, ?_, by simp⟩
      intro c hc
      rcases List.mem_append.mp hc with hc | hc
      · rw [List.eq_of_mem_replicate hc]
        rfl
      · exact hdig c hc
    · simp only [h0, hlen, if_false]
      refine ⟨htake, hdrop, ?_⟩
      rw [Ne, List.take_eq_nil_iff]
      simp only [hne, or_false]
      omega

theorem written_magnitude (n : Decimal) : (written n).magnitude = n.mantissa.natAbs := by
  have hval : Nat.ofDigitChars 10 (mantissaDigits n) 0 = n.mantissa.natAbs :=
    Nat.ofDigitChars_ten_toDigits
  simp only [Numeral.magnitude, Numeral.digits, written]
  split
  · rw [List.append_nil, hval]
  · split
    · rw [List.cons_append, List.nil_append, Nat.ofDigitChars_cons, Nat.ofDigitChars_append]
      simp [hval]
    · rw [List.take_append_drop, hval]

theorem written_scale (n : Decimal) : (written n).frac.length = n.scale.toNat := by
  simp only [written]
  split
  · next h0 => simp [h0]
  · split
    · next hlen =>
      rw [List.length_append, List.length_replicate]
      omega
    · rw [List.length_drop]
      omega

theorem numeral?_text {n : Numeral} (hw : ∀ c ∈ n.whole, c.isDigit = true)
    (hf : ∀ c ∈ n.frac, c.isDigit = true) (hne : n.whole ≠ []) : numeral? n.text = some n := by
  obtain ⟨negative, whole, frac⟩ := n
  obtain ⟨c, w, rfl⟩ := List.exists_cons_of_ne_nil hne
  have hc : c.isDigit = true := hw c (List.mem_cons_self ..)
  let tail := if frac.isEmpty then [] else '.' :: frac
  have htail : ∀ d ∈ tail.head?, d.isDigit = false := by
    cases frac <;> simp [tail]
  have hsign : readSign ((Numeral.mk negative (c :: w) frac).text.dropWhile isSpace) =
      (negative, c :: w ++ tail) := by
    cases negative with
    | true => rfl
    | false =>
      have hspace := digit_not_space hc
      have hminus : c ≠ '-' := fun h => by rw [h] at hc; exact absurd hc (by decide)
      have hplus : c ≠ '+' := fun h => by rw [h] at hc; exact absurd hc (by decide)
      simp [Numeral.text, hspace, readSign, hminus, hplus, tail]
  have hrest : (c :: w ++ tail).dropWhile Char.isDigit = tail := by
    rw [List.dropWhile_append_of_pos hw]
    cases frac <;> simp [tail]
  have hwhole : (c :: w ++ tail).takeWhile Char.isDigit = c :: w := by
    rw [List.takeWhile_append_of_pos hw]
    cases frac <;> simp [tail]
  simp only [numeral?, hsign, hwhole, hrest]
  cases frac with
  | nil => simp [tail, finish, Numeral.digits]
  | cons d frac =>
    have htake : (d :: frac).takeWhile Char.isDigit = d :: frac :=
      List.takeWhile_eq_self_iff.mpr hf
    have hdrop : (d :: frac).dropWhile Char.isDigit = [] :=
      List.dropWhile_eq_nil_iff.mpr hf
    simp [tail, htake, hdrop, finish, Numeral.digits]

structure Stored extends Decimal where
  mantissa_ge : -2 ^ 63 ≤ mantissa
  mantissa_lt : mantissa < 2 ^ 63
  scale_nonneg : 0 ≤ scale
  scale_lt : scale < 2 ^ 31

theorem coreDecimalText_eq {d : Decimal} (hs : 0 ≤ d.scale) (size : Nat) : coreDecimalText size d =
      if (written d.normalize).text.length < size
        then some (String.ofList (written d.normalize).text) else none := by
  have hnorm : coreDecimalNormalize d = some d.normalize := if_neg (Int.not_lt.mpr hs)
  have htext := decimalText_eq (normalize_normalForm hs) size
  unfold coreDecimalText
  by_cases h0 : size = 0
  · simp [h0]
  · rw [if_neg h0, hnorm]
    simp only
    by_cases hneg : d.normalize.mantissa < 0 ∧ size ≤ 1
    · -- the sign alone fills the buffer
      rw [if_pos hneg, if_neg]
      simp [Numeral.text, written, hneg.1]
      omega
    · rw [if_neg hneg, htext]

theorem Stored.normalize_mantissa (d : Stored) :
    -2 ^ 63 ≤ d.toDecimal.normalize.mantissa ∧ d.toDecimal.normalize.mantissa ≤ 2 ^ 63 - 1 := by
  rw [normalize_eq d.scale_nonneg]
  refine strip_mantissa d.mantissa d.scale.toNat (by decide) (by decide) ⟨d.mantissa_ge, ?_⟩
  have := d.mantissa_lt
  omega

theorem written_fits (d : Stored) : (written d.toDecimal.normalize).Fits := by
  have hmant := d.normalize_mantissa
  have hscale := strip_scale d.mantissa d.scale.toNat
  rw [← normalize_eq d.scale_nonneg] at hscale
  have hlt := d.scale_lt
  refine ⟨?_, ?_⟩
  · rw [written_magnitude]
    by_cases hneg : d.toDecimal.normalize.mantissa < 0
    · simp [written, signLimit, int64Max, hneg]
      omega
    · simp [written, signLimit, int64Max, hneg]
      omega
  · rw [written_scale]
    simp only [int32Max]
    omega

theorem signed_natAbs {m : Int} (hm : -2 ^ 63 ≤ m) : signed (m < 0) m.natAbs = m := by
  unfold signed int64Max
  by_cases hneg : m < 0
  · simp only [hneg, decide_true, if_true]
    split <;> omega
  · simp only [hneg, decide_false, Bool.false_eq_true, if_false]
    omega

theorem written_decimal {n : Decimal} (h : NormalForm n) (hm : -2 ^ 63 ≤ n.mantissa) :
    (written n).decimal = n := by
  have hscale : ((written n).frac.length : Int) = n.scale := by
    rw [written_scale]
    exact Int.toNat_of_nonneg h.scale_nonneg
  have hsigned : signed (written n).negative (written n).magnitude = n.mantissa := by
    rw [written_magnitude]
    exact signed_natAbs hm
  rw [Numeral.decimal, hscale, hsigned]
  exact normalize_of_normalForm h

theorem value_decimal (n : Numeral) : value n.decimal = n.value := by
  have hsigned : ((signed n.negative n.magnitude : Int) : ℚ) =
      if n.negative then -(n.magnitude : ℚ) else n.magnitude := by
    unfold signed
    cases n.negative with
    | false => simp
    | true =>
      simp only [if_true]
      split
      · next hmin =>
        rw [hmin]
        norm_num [int64Max]
      · push_cast
        rfl
  rw [Numeral.decimal, value_normalize (Int.natCast_nonneg _), value, hsigned, Numeral.value,
    Int.toNat_natCast]

/-- **Decimals as text.** A decimal whose text fits the buffer is written, and its text is read
    back as the normal form of the same number; a text that is read at all is read as the normal
    form of the number it denotes. -/
theorem decimal_text_round_trip :
    (∀ (d : Stored) (size : Nat), (written d.toDecimal.normalize).text.length < size →
      ∃ text n, coreDecimalText size d.toDecimal = some text ∧
        coreDecimalFromText text.toList = some n ∧ NormalForm n ∧ value n = value d.toDecimal) ∧
    (∀ (d : Stored) (size : Nat) (text : String), coreDecimalText size d.toDecimal = some text →
      coreDecimalFromText text.toList = some d.toDecimal.normalize) ∧
    ∀ (text : List Char) (d : Decimal), coreDecimalFromText text = some d →
      denotation text = some (value d) ∧ NormalForm d := by
  have hread : ∀ (d : Stored), coreDecimalFromText (written d.toDecimal.normalize).text =
      some d.toDecimal.normalize := by
    intro d
    have hform := normalize_normalForm d.scale_nonneg
    obtain ⟨hw, hf, hne⟩ := written_digits d.toDecimal.normalize
    rw [coreDecimalFromText_eq, numeral?_text hw hf hne, Option.bind_some, if_pos (written_fits d),
      written_decimal hform d.normalize_mantissa.1]
  refine ⟨fun d size hsize => ?_, fun d size text htext => ?_, fun text d hd => ?_⟩
  · refine ⟨String.ofList (written d.toDecimal.normalize).text, d.toDecimal.normalize, ?_, ?_,
      normalize_normalForm d.scale_nonneg, value_normalize d.scale_nonneg⟩
    · rw [coreDecimalText_eq d.scale_nonneg, if_pos hsize]
    · rw [String.toList_ofList]
      exact hread d
  · rw [coreDecimalText_eq d.scale_nonneg] at htext
    split at htext
    · cases htext
      rw [String.toList_ofList]
      exact hread d
    · cases htext
  · rw [coreDecimalFromText_eq] at hd
    obtain ⟨n, hn, hd⟩ := Option.bind_eq_some_iff.mp hd
    by_cases hfit : n.Fits
    · rw [if_pos hfit] at hd
      cases hd
      rw [value_decimal, denotation, hn]
      exact ⟨rfl, normalize_normalForm (Int.natCast_nonneg _)⟩
    · rw [if_neg hfit] at hd
      cases hd

/-- The least mantissa, and a scale of more places than there are digits. -/
example : coreDecimalText 64 ⟨-2 ^ 63, 21⟩ = some "-0.009223372036854775808" := by decide +kernel

/-- **One text for one number.** Decimals are written alike exactly when they are the same number. -/
theorem decimal_text_canonical (d e : Stored) {size : Nat} {text : String}
    (hd : coreDecimalText size d.toDecimal = some text) :
    coreDecimalText size e.toDecimal = some text ↔ value e.toDecimal = value d.toDecimal := by
  have hread (d : Stored) : numeral? (written d.toDecimal.normalize).text =
      some (written d.toDecimal.normalize) := by
    obtain ⟨hw, hf, hne⟩ := written_digits d.toDecimal.normalize
    exact numeral?_text hw hf hne
  have hform (d : Stored) := normalize_normalForm d.scale_nonneg
  constructor
  · intro he
    rw [coreDecimalText_eq d.scale_nonneg] at hd
    rw [coreDecimalText_eq e.scale_nonneg] at he
    split at hd <;> cases hd
    split at he <;> simp only [Option.some.injEq, reduceCtorEq] at he
    have hwritten : written e.toDecimal.normalize = written d.toDecimal.normalize := by
      rw [← Option.some_inj, ← hread, ← hread, String.ofList_injective he]
    rw [← value_normalize e.scale_nonneg, ← value_normalize d.scale_nonneg,
      ← written_decimal (hform e) e.normalize_mantissa.1, hwritten,
      written_decimal (hform d) d.normalize_mantissa.1]
  · intro hvalue
    have hsame : e.toDecimal.normalize = d.toDecimal.normalize := by
      apply (hform e).unique (hform d)
      rw [value_normalize e.scale_nonneg, value_normalize d.scale_nonneg, hvalue]
    rw [← hd, coreDecimalText_eq e.scale_nonneg, coreDecimalText_eq d.scale_nonneg, hsame]

theorem decimal_text_canonical_one : coreDecimalText 64 ⟨1, 0⟩ = some "1" := by
  refine (decimal_text_canonical ⟨⟨10, 1⟩, by decide, by decide, by decide, by decide⟩
    ⟨⟨1, 0⟩, by decide, by decide, by decide, by decide⟩ (by decide +kernel)).2 ?_
  norm_num [value]

end RoundTrip

end TurboScript.Exprtk.DecimalText
