import Mathlib

/- The escapes of the string module and their inverses (`mod_string.c`).

   A text is the list of its bytes. Escapes are written byte by byte; the functions that read them
   are loops over the text, and read every text back (`escapes_read_back`). Allocations succeed. -/
namespace TurboScript.Exprtk.Codecs

/-- What is written item by item is read back if the reader takes off one item at a time. -/
theorem read_flatMap {α β : Type} {write : α → List β} (read : List β → Option (List α))
    (hnil : read [] = some []) {s : List α}
    (h : ∀ c ∈ s, ∀ rest, read (write c ++ rest) = (read rest).map (c :: ·)) :
    read (s.flatMap write) = some s := by
  induction s with
  | nil => exact hnil
  | cons c s ih =>
    rw [List.flatMap_cons, h c List.mem_cons_self, ih fun d hd => h d (List.mem_cons_of_mem c hd)]
    rfl

/-! Hexadecimal digits. -/

def modHexValue (c : Char) : Option Nat :=
  if '0' ≤ c ∧ c ≤ '9' then some (c.toNat - '0'.toNat)
  else if 'a' ≤ c ∧ c ≤ 'f' then some (c.toNat - 'a'.toNat + 10)
  else if 'A' ≤ c ∧ c ≤ 'F' then some (c.toNat - 'A'.toNat + 10)
  else none

def modHex4Value : List Char → Option Nat
  | [a, b, c, d] => do
    return 4096 * (← modHexValue a) + 256 * (← modHexValue b) + 16 * (← modHexValue c) + (← modHexValue d)
  | _ => none

/-- `hex[c >> 4]` and `hex[c & 0x0F]`, in the capital digits. -/
def capitals (c : Char) : List Char :=
  [(Nat.digitChar (c.toNat / 16)).toUpper, (Nat.digitChar (c.toNat % 16)).toUpper]

theorem modHexValue_digit : ∀ n < 16, modHexValue (Nat.digitChar n) = some n ∧
    modHexValue (Nat.digitChar n).toUpper = some n := by
  decide

/-! The functions. -/

/-- `fn_hex_encode`. -/
def hexEncode (s : List Char) : List Char :=
  s.flatMap fun c => [Nat.digitChar (c.toNat / 16), Nat.digitChar (c.toNat % 16)]

/-- `fn_hex_decode`, which looks at the parity of the length first. -/
def hexDecode : List Char → Option (List Char)
  | [] => some []
  | [_] => none
  | a :: b :: rest => do
    let hi ← modHexValue a
    let lo ← modHexValue b
    (hexDecode rest).map (Char.ofNat (16 * hi + lo) :: ·)

def modIsUnreservedUrlChar (c : Char) : Bool :=
  c.isAlphanum || c == '-' || c == '_' || c == '.' || c == '~'

/-- `fn_url_encode`. -/
def urlEncode (s : List Char) : List Char :=
  s.flatMap fun c => if modIsUnreservedUrlChar c then [c] else '%' :: capitals c

/-- `fn_url_decode`. -/
def urlDecode : List Char → List Char
  | '%' :: a :: b :: rest =>
    match modHexValue a, modHexValue b with
    | some hi, some lo => Char.ofNat (16 * hi + lo) :: urlDecode rest
    | _, _ => '%' :: urlDecode (a :: b :: rest)
  | '+' :: rest => ' ' :: urlDecode rest
  | c :: rest => c :: urlDecode rest
  | [] => []

/-- `fn_html_escape`. -/
def htmlEscape (s : List Char) : List Char :=
  s.flatMap fun
    | '&' => ['&', 'a', 'm', 'p', ';']
    | '<' => ['&', 'l', 't', ';']
    | '>' => ['&', 'g', 't', ';']
    | '\x22' => ['&', 'q', 'u', 'o', 't', ';']
    | '\x27' => ['&', '#', '3', '9', ';']
    | c => [c]

/-- `fn_html_unescape`. -/
def htmlUnescape : List Char → List Char
  | '&' :: 'a' :: 'm' :: 'p' :: ';' :: rest => '&' :: htmlUnescape rest
  | '&' :: 'l' :: 't' :: ';' :: rest => '<' :: htmlUnescape rest
  | '&' :: 'g' :: 't' :: ';' :: rest => '>' :: htmlUnescape rest
  | '&' :: 'q' :: 'u' :: 'o' :: 't' :: ';' :: rest => '\x22' :: htmlUnescape rest
  | '&' :: 'a' :: 'p' :: 'o' :: 's' :: ';' :: rest => '\x27' :: htmlUnescape rest
  | '&' :: '#' :: '3' :: '9' :: ';' :: rest => '\x27' :: htmlUnescape rest
  | c :: rest => c :: htmlUnescape rest
  | [] => []

def jsonEscapeChar : Char → List Char
  | '\x22' => ['\\', '\x22']
  | '\\' => ['\\', '\\']
  | '\x08' => ['\\', 'b']
  | '\x0c' => ['\\', 'f']
  | '\n' => ['\\', 'n']
  | '\r' => ['\\', 'r']
  | '\t' => ['\\', 't']
  | c => if c.toNat < 32 then ['\\', 'u', '0', '0'] ++ capitals c else [c]

/-- `fn_json_escape`. -/
def jsonEscape (s : List Char) : List Char := s.flatMap jsonEscapeChar

/-- `fn_json_unescape`; `utf8` is `mod_utf8_write_codepoint`. -/
def jsonUnescape (utf8 : Nat → List Char) : List Char → Option (List Char)
  | '\\' :: e :: rest =>
    match e with
    | 'b' => (jsonUnescape utf8 rest).map ('\x08' :: ·)
    | 'f' => (jsonUnescape utf8 rest).map ('\x0c' :: ·)
    | 'n' => (jsonUnescape utf8 rest).map ('\n' :: ·)
    | 'r' => (jsonUnescape utf8 rest).map ('\r' :: ·)
    | 't' => (jsonUnescape utf8 rest).map ('\t' :: ·)
    | 'u' =>
      match modHex4Value (rest.take 4) with
      | none => (jsonUnescape utf8 rest).map (['\\', 'u'] ++ ·)
      | some cp =>
        let pair := if 0xD800 ≤ cp ∧ cp ≤ 0xDBFF ∧ (rest.drop 4).take 2 = ['\\', 'u'] then
          (modHex4Value ((rest.drop 6).take 4)).filter fun low => 0xDC00 ≤ low ∧ low ≤ 0xDFFF
          else none
        match pair with
        | some low =>
          let out := utf8 (0x10000 + (cp - 0xD800) * 1024 + (low - 0xDC00))
          if out = [] then none else (jsonUnescape utf8 (rest.drop 10)).map (out ++ ·)
        | none => if utf8 cp = [] then none else (jsonUnescape utf8 (rest.drop 4)).map (utf8 cp ++ ·)
    | _ => (jsonUnescape utf8 rest).map (e :: ·)
  | c :: rest => (jsonUnescape utf8 rest).map (c :: ·)
  | [] => some []
termination_by s => s.length
decreasing_by all_goals simp <;> omega

/-- `fn_csv_escape`. -/
def csvEscape (s : List Char) : List Char :=
  if s.any fun c => c == '\x22' || c == ',' || c == '\n' || c == '\r' then
    '\x22' :: (s.flatMap fun c => if c = '\x22' then ['\x22', '\x22'] else [c]) ++ ['\x22']
  else s

/-- The loop of `fn_csv_unescape`, between the outer quotes. -/
def csvBody : List Char → List Char
  | '\x22' :: '\x22' :: rest => '\x22' :: csvBody rest
  | c :: rest => c :: csvBody rest
  | [] => []

/-- `fn_csv_unescape`. -/
def csvUnescape (s : List Char) : List Char :=
  if s.length < 2 ∨ s.head? ≠ some '\x22' ∨ s.getLast? ≠ some '\x22' then s else csvBody s.tail.dropLast

/-! Reading back. -/

theorem byte_split {c : Char} : Char.ofNat (16 * (c.toNat / 16) + c.toNat % 16) = c := by
  rw [Nat.div_add_mod, Char.ofNat_toNat]

section Bytes
variable {c : Char} (hc : c.toNat < 256)
include hc

theorem hexDecode_byte (rest : List Char) :
    hexDecode ([Nat.digitChar (c.toNat / 16), Nat.digitChar (c.toNat % 16)] ++ rest) =
      (hexDecode rest).map (c :: ·) := by
  have hhi := (modHexValue_digit (c.toNat / 16) (by omega)).1
  have hlo := (modHexValue_digit (c.toNat % 16) (by omega)).1
  simp [hexDecode, hhi, hlo, byte_split]

theorem urlDecode_byte (rest : List Char) :
    urlDecode ((if modIsUnreservedUrlChar c then [c] else '%' :: capitals c) ++ rest) =
      c :: urlDecode rest := by
  by_cases h : modIsUnreservedUrlChar c = true
  · have hpercent : c ≠ '%' := fun he => absurd (he ▸ h) (by decide)
    have hplus : c ≠ '+' := fun he => absurd (he ▸ h) (by decide)
    simp [h, urlDecode, hpercent]
  · have hhi := (modHexValue_digit (c.toNat / 16) (by omega)).2
    have hlo := (modHexValue_digit (c.toNat % 16) (by omega)).2
    simp [h, capitals, urlDecode, hhi, hlo, byte_split]

end Bytes

theorem csvBody_double (s : List Char) :
    csvBody (s.flatMap fun c => if c = '\x22' then ['\x22', '\x22'] else [c]) = s := by
  induction s with
  | nil => rfl
  | cons c s ih =>
    by_cases h : c = '\x22'
    · simp [h, csvBody, ih]
    · simp [h, csvBody, ih]

theorem csv_read_back (s : List Char) : csvUnescape (csvEscape s) = s := by
  unfold csvEscape
  split
  · have hne (t : List Char) : ('\x22' :: (t ++ ['\x22'])).getLast? = some '\x22' := by
      rw [← List.cons_append, List.getLast?_concat]
    simp only [csvUnescape, List.cons_append, hne, List.tail_cons, List.dropLast_concat, csvBody_double]
    rw [if_neg (by simp)]
  · rename_i hquote
    unfold csvUnescape
    split
    · rfl
    · rename_i hends
      cases s with
      | nil => simp at hends
      | cons c s =>
        refine absurd ?_ hquote
        simp_all

theorem jsonUnescape_char (utf8 : Nat → List Char) {c : Char} (hc : c.toNat < 32 → utf8 c.toNat = [c])
    (rest : List Char) : jsonUnescape utf8 (jsonEscapeChar c ++ rest) = (jsonUnescape utf8 rest).map (c :: ·) := by
  unfold jsonEscapeChar
  split
  iterate 7 simp [jsonUnescape]
  · rename_i h1 h2 h3 h4 h5 h6 h7
    split
    · rename_i hlt
      have hhi := (modHexValue_digit (c.toNat / 16) (by omega)).2
      have hlo := (modHexValue_digit (c.toNat % 16) (by omega)).2
      have hzero : modHexValue '0' = some 0 := by decide
      have hlow : ¬55296 ≤ c.toNat := by omega
      have hcp : 16 * (c.toNat / 16) + c.toNat % 16 = c.toNat := Nat.div_add_mod _ _
      rw [jsonUnescape.eq_def]
      simp [capitals, modHex4Value, hhi, hlo, hzero, hcp, hc hlt, hlow]
    · rw [List.singleton_append, jsonUnescape]
      exact fun e _ h => (h2 h).elim

/-- **Round trips.** Every text of bytes is read back from what is written for it. -/
theorem escapes_read_back (utf8 : Nat → List Char) (s : List Char) (hbytes : ∀ c ∈ s, c.toNat < 256)
    (hutf8 : ∀ c ∈ s, c.toNat < 32 → utf8 c.toNat = [c]) :
    htmlUnescape (htmlEscape s) = s ∧ jsonUnescape utf8 (jsonEscape s) = some s ∧
      urlDecode (urlEncode s) = s ∧ hexDecode (hexEncode s) = some s ∧
      csvUnescape (csvEscape s) = s := by
  refine ⟨Option.some.inj ?_, ?_, Option.some.inj ?_, ?_, csv_read_back s⟩
  · refine read_flatMap (fun s => some (htmlUnescape s)) rfl fun c _ rest => ?_
    split <;> simp_all [htmlUnescape]
  · exact read_flatMap (jsonUnescape utf8) (by rw [jsonUnescape]) fun c hc rest => jsonUnescape_char utf8 (hutf8 c hc) rest
  · exact read_flatMap (fun s => some (urlDecode s)) rfl fun c hc rest =>
      congrArg some (urlDecode_byte (hbytes c hc) rest)
  · exact read_flatMap hexDecode rfl fun c hc rest => hexDecode_byte (hbytes c hc) rest

/-- A byte that three of the escapes replace, and a control character. -/
def sample : List Char := ['<', '\n']

theorem escapes_read_back_sample : htmlUnescape (htmlEscape sample) = sample ∧
    jsonUnescape (fun n => [Char.ofNat n]) (jsonEscape sample) = some sample ∧
    urlDecode (urlEncode sample) = sample ∧ hexDecode (hexEncode sample) = some sample ∧
    csvUnescape (csvEscape sample) = sample :=
  escapes_read_back (fun n => [Char.ofNat n]) sample (by simp [sample]) (by simp [sample])

end TurboScript.Exprtk.Codecs
