import TurboScript.Exprtk.DecimalText
import TurboScript.Exprtk.ValueArg

/- The text of a value: `eval_value_text` of the tree evaluator, `ts_mir_runtime_value_text` of
   compiled code, and the formatters of `exprtk_runtime.c` and `mod_core.c`.

   1. The formatters. Those of decimals and money are not cut off by the buffer.
   2. `Agree`: from some size of the buffer on all texts of a value are one. Compiled code prints
      offset datetimes, big integers, money, enums, flags and containers as the number zero, so
      `Agree` holds of a type with a case on both sides, and of a value whose text happens to be
      that of zero (`agree_iff`).
   3. `+` with a string: compiled code has half the buffer (`concat_iff`). -/
namespace TurboScript.Exprtk.ValueText
open Double DecimalText

/-! The formatters. -/

section Formatters

/-- `snprintf` into a buffer, which fails when there is none. -/
def printed (size : Nat) (text : String) : Option String :=
  if size = 0 then none else some (String.ofList (text.toList.take (size - 1)))

def coreDateText (size : Nat) (year month day : Int) : Option String :=
  printed size (dateText year month day)

def runtimeDateText (size : Nat) (year month day : Int) : Option String :=
  printed size (dateText year month day)

def coreTimeText (size : Nat) (hour minute second millisecond : Int) : Option String :=
  printed size (timeText hour minute second millisecond)

def runtimeTimeText (size : Nat) (hour minute second millisecond : Int) : Option String :=
  printed size (timeText hour minute second millisecond)

def coreDurationText (size : Nat) (ms : Int) : Option String := printed size (durationText ms)

def runtimeDurationText (size : Nat) (ms : Int) : Option String := printed size (durationText ms)

def coreOffsetDatetimeText (size : Nat) (t : DateTime) (offset : Int) : Option String :=
  printed size (offsetDatetimeText t offset)

def runtimeOffsetDatetimeText (size : Nat) (t : DateTime) (offset : Int) : Option String :=
  printed size (offsetDatetimeText t offset)

def runtimeDecimalText (size : Nat) (value : Decimal) : Option String :=
  if size = 0 ∨ value.scale < 0 then none
  else if value.normalize.mantissa < 0 ∧ size ≤ 1 then none
  else decimalText 0 size value.normalize

/-- The amount is written to 64 bytes of its own. -/
def coreMoneyText (size : Nat) (amount : Decimal) (currency : String) : Option String :=
  match coreDecimalText 64 amount with
  | none => none
  | some text => printed size (currency ++ " " ++ text)

def coreUuidText [Formats] (size : Nat) (b : List UInt8) : Option String :=
  if size = 0 then none else Formats.uuid size b

variable {D : Type} [Formats]

def formatters : Value D → List (Nat → Option String)
  | .uuid b => [fun n => coreUuidText n b, fun n => Formats.uuid n b]
  | .datetime t => [fun n => Formats.datetime n t]
  | .offsetDatetime t o =>
    [fun n => coreOffsetDatetimeText n t o, fun n => runtimeOffsetDatetimeText n t o]
  | .date y m d => [fun n => coreDateText n y m d, fun n => runtimeDateText n y m d]
  | .time h m s ms => [fun n => coreTimeText n h m s ms, fun n => runtimeTimeText n h m s ms]
  | .duration ms => [fun n => coreDurationText n ms, fun n => runtimeDurationText n ms]
  | .decimal d => [fun n => coreDecimalText n d, fun n => runtimeDecimalText n d]
  | .money a c => [fun n => coreMoneyText n a c]
  -- `fn_bigint_to_string`
  | .bigint text => [fun _ => some text]
  | _ => []

end Formatters

/-! Texts that are, or are not, the text of zero. -/

theorem printed_of_lt {size : Nat} {text : String} (h : text.toList.length < size) :
    printed size text = some text := by
  unfold printed
  rw [if_neg (by omega), List.take_of_length_le (by omega), String.ofList_toList]

theorem around_ne_zero (a b : String) {c : Char} (hc : c ≠ '0') :
    a ++ String.ofList [c] ++ b ≠ "0" := by
  intro h
  have hlist := congrArg String.toList h
  simp only [String.toList_append, String.toList_ofList] at hlist
  cases ha : a.toList with
  | nil =>
    rw [ha] at hlist
    exact hc (List.cons.inj hlist).1
  | cons d rest =>
    rw [ha] at hlist
    have htail := (List.cons.inj hlist).2
    simp at htail

theorem toString_eq_zero {i : Int} : toString i = "0" ↔ i = 0 := by
  constructor
  · intro h
    cases i with
    | ofNat n =>
      have hdigits : Nat.toDigits 10 n = ['0'] := Nat.toList_repr.symm.trans (congrArg _ h)
      have hn : n = 0 := by
        rw [← Nat.ofDigitChars_ten_toDigits (n := n), hdigits]
        rfl
      rw [hn]
      rfl
    | negSucc n =>
      have hminus : toString (Int.negSucc n) = "" ++ String.ofList ['-'] ++ (n + 1).repr := rfl
      rw [hminus] at h
      exact absurd h (around_ne_zero _ _ (by decide))
  · rintro rfl
    rfl

theorem offsetDatetimeText_ne (t : DateTime) (offset : Int) : offsetDatetimeText t offset ≠ "0" := by
  unfold offsetDatetimeText
  rw [String.append_assoc, String.append_assoc, String.append_assoc, String.append_assoc]
  exact around_ne_zero (c := 'T') _ _ (by decide)

section Texts
variable {D : Type} [Double D] [Formats]

omit [Formats] in
theorem runtimeDecimalText_eq (size : Nat) (d : Decimal) :
    runtimeDecimalText size d = coreDecimalText size d := by
  unfold runtimeDecimalText coreDecimalText coreDecimalNormalize
  by_cases h0 : size = 0
  · simp [h0]
  · by_cases hs : d.scale < 0
    · simp [h0, hs]
    · simp [h0, hs]

omit [Formats] in
theorem decimalText_stored {d : Decimal} (hs : 0 ≤ d.scale) (size : Nat) : decimalText 0 size d =
      if (written d.normalize).text.length < size
        then some (String.ofList (written d.normalize).text) else none := by
  have hnorm : decimalText 0 size d = decimalText 0 size d.normalize := by
    unfold decimalText
    rw [normalize_of_normalForm (normalize_normalForm hs)]
  rw [hnorm]
  exact decimalText_eq (normalize_normalForm hs) size

/-- From some size of the buffer on, all converters of the value give one text. -/
def Agree (v : Value D) : Prop :=
  ∃ least, ∀ n, least ≤ n → evalValueText n v = mirValueText n v ∧
    ∀ f ∈ formatters v, f n = evalValueText n v

/-- The types compiled code has a case for; NUMBERs are its default. -/
def covered : Value D → Bool
  | .string _ | .integer _ | .number _ | .bool _ | .bytes _ | .uuid _ | .datetime _
  | .date _ _ _ | .time _ _ _ _ | .duration _ | .decimal _ | .null => true
  | _ => false

/-- A covered type, or a value whose text is that of zero. -/
def OneText (v : Value D) : Prop :=
  match v with
  | .bigint text => text = "0"
  | .enum e | .flags e => e.symbol = "0" ∨ (e.symbol = "" ∧ e.value = 0)
  | v => covered v = true

/-- A decimal's scale is not negative: `core_decimal_normalize` refuses others. -/
def Scaled : Value D → Prop
  | .decimal d => 0 ≤ d.scale
  | _ => True

variable {v : Value D}

omit [Double D] [Formats] in
theorem oneText_of_covered (h : covered v = true) : OneText v := by
  cases v with
  | bigint | enum | flags => cases h
  | _ => exact h

theorem mirValueText_uncovered (hzero : format (ofInt 0 : D) = "0") (h : covered v = false)
    (n : Nat) : mirValueText n v = some "0" := by
  cases v with
  | string | integer | number | bool | bytes | uuid | datetime | date | time | duration | decimal
  | null => cases h
  | _ => exact congrArg some hzero

omit [Formats] in
theorem enumText_eq_zero (e : EnumValue) :
    (if e.symbol.isEmpty then toString e.value else e.symbol) = "0" ↔
      e.symbol = "0" ∨ (e.symbol = "" ∧ e.value = 0) := by
  by_cases hempty : e.symbol = ""
  · simpa [hempty] using toString_eq_zero (i := e.value)
  · simp [hempty, String.isEmpty_iff]

theorem evalValueText_uncovered (h : covered v = false) (n : Nat) :
    evalValueText n v = some "0" ↔ OneText v := by
  cases v with
  | string | integer | number | bool | bytes | uuid | datetime | date | time | duration | decimal
  | null => cases h
  | bigint text => exact Option.some_inj
  | enum e | flags e => exact Option.some_inj.trans (enumText_eq_zero e)
  | offsetDatetime t o =>
    have hne := offsetDatetimeText_ne t o
    simp [evalValueText, OneText, covered, hne]
  | money a c =>
    refine ⟨fun heq => ?_, fun hone => absurd hone (by simp [OneText, covered])⟩
    simp only [evalValueText] at heq
    split at heq
    · cases heq
    · obtain ⟨text, -, htext⟩ := Option.map_eq_some_iff.mp heq
      exact absurd htext (around_ne_zero c text (c := ' ') (by decide))
  | _ => simp [evalValueText, OneText, covered]

theorem agree_printed {text : String} (he : ∀ n, evalValueText n v = some text)
    (hm : ∀ n, mirValueText n v = some text) (hf : ∀ f ∈ formatters v, ∀ n, f n = printed n text) :
    Agree v := by
  refine ⟨text.toList.length + 1, fun n hn => ⟨(he n).trans (hm n).symm, fun f hmem => ?_⟩⟩
  rw [hf f hmem n, he n]
  exact printed_of_lt (by omega)

theorem agree_covered (h : covered v = true) (hs : Scaled v) : Agree v := by
  cases v with
  | string | integer | number | bool | bytes | null =>
    exact ⟨0, fun _ _ => ⟨rfl, fun _ hf => absurd hf List.not_mem_nil⟩⟩
  | uuid b =>
    refine ⟨1, fun n hn => ⟨rfl, ?_⟩⟩
    have hcore : coreUuidText n b = Formats.uuid n b := if_neg (by omega)
    simp [formatters, evalValueText, hcore]
  | datetime t => exact ⟨0, fun _ _ => ⟨rfl, by simp [formatters, evalValueText]⟩⟩
  | date y m d =>
    exact agree_printed (fun _ => rfl) (fun _ => rfl) (by simp [formatters, coreDateText, runtimeDateText])
  | time h m s ms =>
    exact agree_printed (fun _ => rfl) (fun _ => rfl) (by simp [formatters, coreTimeText, runtimeTimeText])
  | duration ms =>
    exact agree_printed (fun _ => rfl) (fun _ => rfl)
      (by simp [formatters, coreDurationText, runtimeDurationText])
  | decimal d =>
    have hcore : ∀ n, coreDecimalText n d = decimalText 0 n d := fun n =>
      (coreDecimalText_eq hs n).trans (decimalText_stored hs n).symm
    refine ⟨0, fun n _ => ⟨rfl, ?_⟩⟩
    simp [formatters, evalValueText, runtimeDecimalText_eq, hcore]
  | _ => cases h

theorem agree_iff (hzero : format (ofInt 0 : D) = "0") (hs : Scaled v) :
    Agree v ↔ OneText v := by
  cases hc : covered v with
  | true => exact iff_of_true (agree_covered hc hs) (oneText_of_covered hc)
  | false =>
    have hmir := mirValueText_uncovered hzero hc
    constructor
    · rintro ⟨n, h⟩
      exact (evalValueText_uncovered hc n).mp ((h n le_rfl).1.trans (hmir n))
    · intro hone
      have heval := fun n => (evalValueText_uncovered hc n).mpr hone
      refine ⟨0, fun n _ => ⟨(heval n).trans (hmir n).symm, fun f hf => ?_⟩⟩
      cases v with
      | bigint text =>
        rw [List.mem_singleton.mp hf]
        rfl
      | offsetDatetime | money => exact absurd hone (by simp [OneText, covered])
      | uuid | datetime | date | time | duration | decimal => cases hc
      | _ => exact absurd hf List.not_mem_nil

/-! Concatenation. -/

/-- Both evaluators give one value, or both fail. -/
def SameResult : Except String (Value D) → MirResult D → Prop
  | .ok v, .ok w => v = w
  | .error _, .fail | .error _, .abort => True
  | _, _ => False

/-- The buffers of 64 and of 32 bytes are both large enough, or neither is. -/
def Fits : Value D → Prop
  | .uuid b => Formats.uuid 64 b = Formats.uuid 32 b
  | .datetime t => Formats.datetime 64 t = Formats.datetime 32 t
  | .decimal d => (written d.normalize).text.length < 32 ∨ 64 ≤ (written d.normalize).text.length
  | _ => True

theorem evalBinary_append (s : String) (v : Value D) :
    (∃ msg, evalValueText 64 v = none ∧ evalBinary .plus (.string s) v = .error msg) ∨
      ∃ text, evalValueText 64 v = some text ∧
        evalBinary .plus (.string s) v = .ok (.string (s ++ text)) := by
  have hnumeric : isNumeric (.string s : Value D) = false := rfl
  have hstring : isString (.string s : Value D) = true := rfl
  have hself : evalValueText 64 (.string s : Value D) = some s := rfl
  cases ht : evalValueText 64 v with
  | none => exact .inl ⟨_, rfl, by simp [evalBinary, hnumeric, hstring, hself, ht]; rfl⟩
  | some text => exact .inr ⟨text, rfl, by simp [evalBinary, hnumeric, hstring, hself, ht]⟩

theorem mirBinary_append (s : String) (v : Value D) :
    (mirValueText 32 v = none ∧ mirBinary .plus (.string s) v = .fail) ∨
      ∃ text, mirValueText 32 v = some text ∧
        mirBinary .plus (.string s) v = .ok (.string (s ++ text)) := by
  have hbind : (mirEqual (.string s) v).bind (equalityResult (D := D) .plus) = none := by
    cases mirEqual (.string s) v with
    | none | some => rfl
  have hstring : isString (.string s : Value D) = true := rfl
  have hself : mirValueText 32 (.string s : Value D) = some s := rfl
  cases ht : mirValueText 32 v with
  | none => exact .inl ⟨rfl, by simp [mirBinary, hbind, hstring, hself, ht]⟩
  | some text => exact .inr ⟨text, rfl, by simp [mirBinary, hbind, hstring, hself, ht]⟩

theorem concat_same_iff (v : Value D) :
    (∀ s, SameResult (evalBinary .plus (.string s) v) (mirBinary .plus (.string s) v)) ↔
      evalValueText 64 v = mirValueText 32 v := by
  constructor
  · intro h
    have hempty := h ""
    obtain ⟨msg, het, he⟩ | ⟨a, het, he⟩ := evalBinary_append "" v
    · obtain ⟨hmt, -⟩ | ⟨b, -, hm⟩ := mirBinary_append "" v
      · rw [het, hmt]
      · rw [he, hm] at hempty
        exact hempty.elim
    · obtain ⟨-, hm⟩ | ⟨b, hmt, hm⟩ := mirBinary_append "" v
      · rw [he, hm] at hempty
        exact hempty.elim
      · rw [he, hm] at hempty
        have hab : a = b := by simpa using Value.string.inj hempty
        rw [het, hmt, hab]
  · intro h s
    obtain ⟨msg, het, he⟩ | ⟨a, het, he⟩ := evalBinary_append s v
    · obtain ⟨-, hm⟩ | ⟨b, hmt, -⟩ := mirBinary_append s v
      · rw [he, hm]
        trivial
      · rw [het, hmt] at h
        cases h
    · obtain ⟨hmt, -⟩ | ⟨b, hmt, hm⟩ := mirBinary_append s v
      · rw [het, hmt] at h
        cases h
      · rw [het, hmt] at h
        cases h
        rw [he, hm]
        rfl

omit [Double D] [Formats] in
theorem fits_iff {α : Type} (length : Nat) (text : α) :
    ((if length < 64 then some text else none) = (if length < 32 then some text else none)) ↔
      length < 32 ∨ 64 ≤ length := by
  by_cases h32 : length < 32
  · simp [h32, show length < 64 by omega]
  · by_cases h64 : length < 64
    · simp [h32, h64]
    · simp [h32, h64]
      omega

theorem buffers_iff (hzero : format (ofInt 0 : D) = "0") (hs : Scaled v) :
    evalValueText 64 v = mirValueText 32 v ↔ OneText v ∧ Fits v := by
  cases hc : covered v with
  | false =>
    have hfits : Fits v := by
      cases v with
      | uuid | datetime | decimal => cases hc
      | _ => trivial
    rw [mirValueText_uncovered hzero hc 32, evalValueText_uncovered hc 64]
    exact (and_iff_left hfits).symm
  | true =>
    rw [and_iff_right (oneText_of_covered hc)]
    cases v with
    | uuid | datetime => exact Iff.rfl
    | decimal d =>
      simp only [evalValueText, mirValueText, decimalText_stored hs]
      exact fits_iff _ _
    | string | integer | number | bool | bytes | date | time | duration | null =>
      exact iff_of_true rfl trivial
    | _ => cases hc

/-- For large buffers the converters give one text exactly if compiled code has a case for the
    value's type or the text is that of zero, and concatenation to a string gives one result
    exactly if, besides, the two evaluators' buffers make no difference. -/
theorem one_text_iff (hzero : format (ofInt 0 : D) = "0") (v : Value D) (hs : Scaled v) :
    (Agree v ↔ OneText v) ∧
      ((∀ s, SameResult (evalBinary .plus (.string s) v) (mirBinary .plus (.string s) v)) ↔
        OneText v ∧ Fits v) :=
  ⟨agree_iff hzero hs, (concat_same_iff v).trans (buffers_iff hzero hs)⟩

end Texts

section Samples

/-- The decimal 123.45, with a trailing zero in store. -/
theorem decimal_text :
    evalValueText 32 (.decimal ⟨123450, 3⟩ : Value ℚ) = some "123.45" ∧
      Agree (.decimal ⟨123450, 3⟩ : Value ℚ) := by
  refine ⟨by decide +kernel, ?_⟩
  have hscaled : Scaled (.decimal ⟨123450, 3⟩ : Value ℚ) := by
    show (0 : Int) ≤ 3
    decide
  exact (one_text_iff (D := ℚ) (by decide +kernel) _ hscaled).1.mpr rfl

/-- Compiled code prints an amount of money and a big integer as zero. -/
theorem money_prints_as_zero :
    evalValueText 64 (.money ⟨12345, 2⟩ "USD" : Value ℚ) = some "USD 123.45" ∧
      mirValueText 64 (.money ⟨12345, 2⟩ "USD" : Value ℚ) = some "0" ∧
      ¬Agree (.bigint "7" : Value ℚ) := by
  refine ⟨by decide +kernel, by decide +kernel, ?_⟩
  rintro ⟨n, h⟩
  have heq := (h n le_rfl).1
  have hmir : mirValueText n (.bigint "7" : Value ℚ) = some "0" :=
    congrArg some (by decide +kernel)
  rw [hmir] at heq
  exact absurd (Option.some.inj heq) (by decide)

end Samples

end TurboScript.Exprtk.ValueText
