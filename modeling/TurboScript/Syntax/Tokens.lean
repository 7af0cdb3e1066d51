import Mathlib.Algebra.Order.Ring.Int
import TurboScript.Lib.Lexing

/- The tokens of the script language, and the rules of its scanner in their order.

   A rule is an expression with an action. Most actions return a token of a fixed type for a
   fixed text; `slash` looks at the token before it, comments, newlines and blanks start over,
   and numbers, names, strings and templates have a text of their own. Texts are lists of
   bytes; `.` is every byte but the newline. -/
namespace TurboScript.Syntax
open Lib

inductive TokenType where
  | plus | minus | multiply | regex | divide | mod | power | spread | dotdot | dot
  | questionDot | question
  | eq | arrow | equal | ne | lt | le | gt | ge
  | assignAdd | assignSub | assignMul | assignDiv
  | and | or | not | pipe
  | «if» | elif | «else» | «while» | «do» | «for» | «break» | «continue» | «return»
  | var | const
  | «class» | constructor | this | static | «extends» | implements | interface | super | new
  | instanceof | abstract | override | final | pub | «protected» | «private» | async | await
  | func | map | «in» | null | switch | case | default | «try» | «catch» | throw
  | lbrace | rbrace | semicolon | colon | lparen | rparen | lbracket | rbracket | comma
  | string | template | integer | number | variable
  deriving DecidableEq, Repr

inductive Rule where
  | fixed (text : String) (token : TokenType)
  | slash
  | string
  | template
  | lineComment
  | blockComment
  | newline
  | blanks
  | number
  | ident
  deriving DecidableEq, Repr

def isDigit (c : Char) : Bool := '0' ≤ c && c ≤ '9'

/-- `isalpha` in the C locale. -/
def isalpha (c : Char) : Bool := ('a' ≤ c && c ≤ 'z') || ('A' ≤ c && c ≤ 'Z')

def isBlank (c : Char) : Bool := c == ' ' || c == '\t' || c == '\r'

def isIdentStart (c : Char) : Bool := isalpha c || c == '_'

def isIdentPart (c : Char) : Bool := isIdentStart c || isDigit c

/-- A delimiter, anything in which the delimiter and the backslash stand behind a backslash
only, and the delimiter. -/
def quoted (q : Char) : Rx Char :=
  .seq (.word [q]) (.seq (.star (.alt (.set fun c => c != q && c != '\\')
      (.seq (.word ['\\']) (.set fun c => c != '\n'))))
    (.word [q]))

def digits : Rx Char := .plus (.set isDigit)

def intRx : Rx Char :=
  .alt (.word ['0']) (.seq (.set fun c => '1' ≤ c && c ≤ '9') (.many isDigit))

def fracRx : Rx Char := .seq (.word ['.']) digits

def expRx : Rx Char :=
  .seq (.set fun c => c == 'e' || c == 'E') (.seq (.opt (.set fun c => c == '+' || c == '-')) digits)

def Rule.rx : Rule → Rx Char
  | .fixed text _ => .word text.toList
  | .slash => .word ['/']
  | .string => quoted '\x22'
  | .template => quoted '\x60'
  | .lineComment => .seq (.word ['/', '/']) (.many fun c => c != '\n')
  | .blockComment => .word ['/', '*']
  | .newline => .word ['\n']
  | .blanks => .plus (.set isBlank)
  | .number => .seq intRx (.seq (.opt fracRx) (.opt expRx))
  | .ident => .seq (.set isIdentStart) (.many isIdentPart)

def rules : List Rule := [
  -- Operators
  .fixed "+" .plus, .fixed "-" .minus, .fixed "*" .multiply, .slash,
  .fixed "%" .mod, .fixed "^" .power, .fixed "..." .spread, .fixed ".." .dotdot,
  .fixed "." .dot, .fixed "?." .questionDot, .fixed "?" .question,
  -- Comparison
  .fixed "==" .eq, .fixed "=>" .arrow, .fixed "=" .equal, .fixed "!=" .ne, .fixed "<>" .ne,
  .fixed "<" .lt, .fixed "<=" .le, .fixed ">" .gt, .fixed ">=" .ge,
  -- Assignment
  .fixed "+=" .assignAdd, .fixed "-=" .assignSub, .fixed "*=" .assignMul, .fixed "/=" .assignDiv,
  -- Logic
  .fixed "and" .and, .fixed "or" .or, .fixed "not" .not, .fixed "|>" .pipe, .fixed "&&" .and,
  .fixed "||" .or, .fixed "!" .not,
  -- Control Flow
  .fixed "if" .if, .fixed "elif" .elif, .fixed "else" .else, .fixed "while" .while,
  .fixed "do" .do, .fixed "for" .for, .fixed "break" .break, .fixed "continue" .continue,
  .fixed "return" .return, .fixed "var" .var, .fixed "let" .var, .fixed "const" .const,
  -- OOP Keywords
  .fixed "class" .class, .fixed "constructor" .constructor, .fixed "this" .this,
  .fixed "static" .static, .fixed "extends" .extends, .fixed "implements" .implements,
  .fixed "interface" .interface, .fixed "super" .super, .fixed "new" .new,
  .fixed "instanceof" .instanceof, .fixed "abstract" .abstract, .fixed "override" .override,
  .fixed "final" .final, .fixed "public" .pub, .fixed "protected" .protected,
  .fixed "private" .private, .fixed "async" .async, .fixed "await" .await,
  .fixed "function" .func, .fixed "func" .func, .fixed "map" .map, .fixed "struct" .map,
  .fixed "in" .in, .fixed "null" .null, .fixed "nil" .null, .fixed "switch" .switch,
  .fixed "case" .case, .fixed "default" .default, .fixed "try" .try, .fixed "catch" .catch,
  .fixed "throw" .throw,
  -- Structure
  .fixed "\x7b" .lbrace, .fixed "\x7d" .rbrace, .fixed ";" .semicolon, .fixed ":" .colon,
  .fixed "..." .spread,
  -- Punctuation
  .fixed "(" .lparen, .fixed ")" .rparen, .fixed "[" .lbracket, .fixed "]" .rbracket,
  .fixed "," .comma,
  .string, .template, .lineComment, .blockComment, .newline, .blanks, .number, .ident]

/-- After these tokens, and at the start, a slash begins a regular expression. -/
def regexCanStartAfter : Option TokenType → Bool
  | none => true
  | some t => t ∈ [.equal, .assignAdd, .assignSub, .assignMul, .assignDiv, .lparen, .lbracket,
      .lbrace, .comma, .colon, .semicolon, .return, .throw, .case, .question, .arrow, .plus,
      .minus, .multiply, .divide, .mod, .power, .eq, .ne, .lt, .le, .gt, .ge, .and, .or, .not,
      .pipe]

end TurboScript.Syntax
