import TurboScript.Syntax.Tokens

/- The scanner: `exprtk_lexer_next` and what its actions do.

   A call starts at the cursor and goes back to `lex_start` after every comment, newline and
   run of blanks, until it returns a token, 0 at the end of the text, or -1. `lexStart` is one
   pass from `lex_start`, `exprtkLexerNext` the passes of one call, `lexAll` the calls of the
   parser's loop. Lines and columns are `int`s; a sum that does not fit one wraps around. -/
namespace TurboScript.Syntax
open Lib

/-- A value converted to `int`. -/
def toInt (i : Int) : Int := Int.bmod i 4294967296

structure Position where
  line : Int
  column : Int
  deriving DecidableEq, Repr

/-! Regular expressions. -/

/-- The loop of `scan_regex_literal`: how many bytes stand before the closing slash. -/
def regexBody : List Char → Bool → Bool → Option Nat
  | [], _, _ => none
  | c :: rest, escaped, inClass =>
    if c = '\n' ∨ c = '\r' then none
    else if escaped then (regexBody rest false inClass).map (· + 1)
    else if c = '\\' then (regexBody rest true inClass).map (· + 1)
    else if c = '[' then (regexBody rest false true).map (· + 1)
    else if c = ']' ∧ inClass = true then (regexBody rest false false).map (· + 1)
    else if c = '/' ∧ inClass = false then some 0
    else (regexBody rest false inClass).map (· + 1)

/-- `scan_regex_literal`: the length of the literal that begins with the text's first slash. -/
def scanRegexLiteral (text : List Char) : Option Nat :=
  (regexBody text.tail false false).map fun n =>
    n + 2 + ((text.drop (n + 2)).takeWhile isalpha).length

/-! Block comments. -/

def Position.byte (pos : Position) (c : Char) : Position :=
  if c = '\n' then ⟨toInt (pos.line + 1), 1⟩ else ⟨pos.line, toInt (pos.column + 1)⟩

def commentLoop : List Char → Nat → Position → Nat × Position
  | [], cursor, pos => (cursor, pos)
  | c :: rest, cursor, pos =>
    let pos := pos.byte c
    if c = '*' ∧ rest.head? = some '/' then (cursor + 2, ⟨pos.line, toInt (pos.column + 2)⟩)
    else commentLoop rest (cursor + 1) pos

/-! Numbers. -/

def decimal (l : List Char) : Nat :=
  l.foldl (fun n c => 10 * n + (c.toNat - '0'.toNat)) 0

/-- `strtoll` on a numeral without a sign. -/
def strtoll (buf : List Char) : Nat := min (decimal buf) (2 ^ 63 - 1)

/-- The double nearest to `n`, of two the even one. The doubles from 2^53 on are whole. -/
def roundDouble (n : Nat) : Nat :=
  if n < 2 ^ 53 then n
  else
    let unit := 2 ^ (n.log2 - 52)
    let kept := n / unit
    let cut := n % unit
    if 2 * cut < unit ∨ 2 * cut = unit ∧ kept % 2 = 0 then kept * unit else (kept + 1) * unit

/-- `num_value`: of an integer, or what `strtod` makes of the text. -/
inductive NumValue where
  | whole (value : Nat)
  | strtod (buf : List Char)
  deriving DecidableEq, Repr

def isInteger (text : List Char) : Bool :=
  text.all fun c => !(c == '.' || c == 'e' || c == 'E')

/-- The token of a number: an integer goes through `char buf[32]`, another number through
`char buf[64]`. -/
def numberToken (text : List Char) : TokenType × NumValue :=
  if isInteger text then (.integer, .whole (roundDouble (strtoll (text.take 31))))
  else (.number, .strtod (text.take 63))

/-! The scanner. -/

structure Token where
  type : TokenType
  start : Nat
  length : Nat
  numValue : Option NumValue
  position : Position
  deriving DecidableEq, Repr

/-- `exprtk_lexer_t`, without the text. `lastToken` is `none` for 0. -/
structure Lexer where
  cursor : Nat
  position : Position
  lastToken : Option TokenType
  error : String
  deriving DecidableEq, Repr

def exprtkLexerInit : Lexer := ⟨0, ⟨1, 1⟩, none, ""⟩

inductive Lexed where
  | token (t : Token)
  | eof (position : Position)
  | error
  deriving DecidableEq, Repr

/-- What a pass from `lex_start` comes to. -/
inductive Pass where
  | again (lexer : Lexer)
  | returns (result : Lexed) (lexer : Lexer)
  deriving DecidableEq, Repr

/-- The column behind `n` bytes. -/
def Position.forward (pos : Position) (n : Nat) : Position :=
  ⟨pos.line, toInt (pos.column + toInt n)⟩

def Lexer.ret (lexer : Lexer) (t : TokenType) (n : Nat) (value : Option NumValue) : Pass :=
  .returns (.token ⟨t, lexer.cursor, n, value, lexer.position⟩) { lexer with
      cursor := lexer.cursor + n
      position := lexer.position.forward n
      lastToken := some t }

/-- The action of a rule that matches the first `n` bytes of the text at the cursor. -/
def Rule.act (rule : Rule) (lexer : Lexer) (text : List Char) (n : Nat) : Pass :=
  match rule with
  | .fixed _ t => lexer.ret t n none
  | .slash =>
    if regexCanStartAfter lexer.lastToken then
      match scanRegexLiteral text with
      | some length => lexer.ret .regex length none
      | none => .returns .error { lexer with
          error := "Unterminated regex literal at line " ++ toString lexer.position.line }
    else lexer.ret .divide n none
  | .string => lexer.ret .string n none
  | .template => lexer.ret .template n none
  | .lineComment => .again { lexer with cursor := lexer.cursor + n }
  | .blockComment =>
    let (cursor, pos) := commentLoop (text.drop n) (lexer.cursor + n) lexer.position
    .again { lexer with cursor := cursor, position := pos }
  | .newline => .again { lexer with
      cursor := lexer.cursor + n, position := ⟨toInt (lexer.position.line + 1), 1⟩ }
  | .blanks => .again { lexer with
      cursor := lexer.cursor + n, position := lexer.position.forward n }
  | .number => lexer.ret (numberToken (text.take n)).1 n (some (numberToken (text.take n)).2)
  | .ident => lexer.ret .variable n none

section Scan
variable (input : List Char)

/-- One pass from `lex_start`. -/
def lexStart (lexer : Lexer) : Pass :=
  match pick Rule.rx (input.drop lexer.cursor) rules with
  | none =>
    -- the rules `$` and `*`
    if input.drop lexer.cursor = [] then .returns (.eof lexer.position) lexer
    else .returns .error lexer
  | some (n, rule) => rule.act lexer (input.drop lexer.cursor) n

/-- The passes of a call, as many as `n`. -/
def passes : Nat → Lexer → Option (Lexed × Lexer)
  | 0, _ => none
  | n + 1, lexer =>
    match lexStart input lexer with
    | .again lexer => passes n lexer
    | .returns result lexer => some (result, lexer)

def exprtkLexerNext (lexer : Lexer) : Option (Lexed × Lexer) :=
  passes input (input.length + 1) lexer

/-- The calls until one returns 0 or -1, `n` at most: the tokens and the last result. -/
def lexAll : Nat → Lexer → Option (List Token × Lexed)
  | 0, _ => none
  | n + 1, lexer =>
    match exprtkLexerNext input lexer with
    | none => none
    | some (.token t, lexer) => (lexAll n lexer).map fun found => (t :: found.1, found.2)
    | some (last, _) => some ([], last)

end Scan

example : (lexAll "a=/x/ // c".toList 11 exprtkLexerInit).map
    (fun found => found.1.map fun t => (t.type, t.start, t.length)) =
      some [(.variable, 0, 1), (.equal, 1, 1), (.regex, 2, 3)] := by
  decide +kernel

end TurboScript.Syntax
