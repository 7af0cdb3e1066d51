import Mathlib.Algebra.Order.Ring.Int
import TurboScript.Lib.Splitting

/- Splitting a text into pieces and into lines.

   The plan's source (`ts_cflow_text_split_source_init`, `ts_cflow_text_lines_source_init`)
   counts the slices in one pass over the text, asks for a table of that many and fills it in
   a second pass; the streams of the interpreter (`stream_split_string`,
   `stream_lines_from_string`, `rt_stream_string_lines`) append a copy of each piece to a
   list. Positions are `size_t`: a sum is taken modulo `2 ^ 64` where a loop's bound rests
   on it. What an allocation is answered is an argument (`Memory`). -/
namespace TurboScript.Stream
open Lib

/-- A script's string. No object is larger than `PTRDIFF_MAX`. -/
structure Text where
  bytes : List UInt8
  fits : bytes.length < 2 ^ 63

def Text.len (text : Text) : Nat := text.bytes.length

/-- Which requests are granted: a table of so many slots, so many bytes of the arena, and a
    slot more in a list of so many. -/
structure Memory where
  calloc : Nat → Bool
  alloc : Nat → Bool
  push : Nat → Bool

def Memory.Ample (mem : Memory) : Prop :=
  (∀ n, mem.calloc n = true) ∧ (∀ n, mem.alloc n = true) ∧ ∀ n, mem.push n = true

/-- `ts_cflow_line_slice_t`: where in the text the slice begins, and its length. -/
structure Slice where
  data : Option Nat
  len : Nat
  deriving DecidableEq, Repr

/-- A slot as `calloc` leaves it. -/
def Slice.zero : Slice := ⟨none, 0⟩

/-- `ts_cflow_text_lines_source_t`. -/
structure Source where
  items : List Slice
  count : Nat
  deriving DecidableEq, Repr

def sliceBytes (text : List UInt8) (s : Slice) : List UInt8 :=
  (text.drop (s.data.getD 0)).take s.len

def Source.pieces (source : Source) (text : Text) : List (List UInt8) :=
  source.items.map (sliceBytes text.bytes)

def sizeMax : Nat := 2 ^ 64 - 1

def newline : UInt8 := 10
def carriageReturn : UInt8 := 13

/-! The plan's sources. -/

/-- `memcmp(text + i, separator, separator_len) == 0`. -/
def separatorAt (text sep : List UInt8) (i : Nat) : Bool :=
  decide ((text.drop i).take sep.length = sep)

/-- The inner loop; `SIZE_MAX` stands for no separator. -/
def cflowFind (text sep : Text) (cursor : Nat) : Nat :=
  (firstFrom (fun i => decide (i ≤ text.len) && decide (sep.len ≤ text.len - i))
    (separatorAt text.bytes sep.bytes) (text.len + 1) cursor).getD sizeMax

def countPass (text sep : Text) : Nat → Nat → Nat → Nat
  | 0, _, count => count
  | fuel + 1, cursor, count =>
    if cursor ≤ text.len then
      if cflowFind text sep cursor = sizeMax then count
      else countPass text sep fuel (cflowFind text sep cursor + sep.len) (count + 1)
    else count

def fillPass (text sep : Text) (count : Nat) : Nat → Nat → Nat → List Slice → Source
  | 0, _, index, items => ⟨items, index⟩
  | fuel + 1, cursor, index, items =>
    if cursor ≤ text.len ∧ index < count then
      if cflowFind text sep cursor = sizeMax then
        ⟨items.set index ⟨some cursor, text.len - cursor⟩, index + 1⟩
      else
        fillPass text sep count fuel (cflowFind text sep cursor + sep.len) (index + 1)
          (items.set index ⟨some cursor, cflowFind text sep cursor - cursor⟩)
    else ⟨items, index⟩

def splitSlots (text sep : Text) : Nat := countPass text sep (text.len + 1) 0 1

def cflowTextSplitSourceInit (mem : Memory) (text sep : Text) : Option Source :=
  if sep.len = 0 then
    if text.len = 0 then some ⟨[], 0⟩
    else if mem.calloc text.len then
      some ⟨(List.range text.len).map fun i => ⟨some i, 1⟩, text.len⟩
    else none
  else if mem.calloc (splitSlots text sep) then
    some (fillPass text sep (splitSlots text sep) (text.len + 1) 0 0
      (List.replicate (splitSlots text sep) .zero))
  else none

/-- Does a line end before position `i`? -/
def endsLine (text : Text) (i : Nat) : Bool :=
  decide (i = text.len) || decide (text.bytes[i]? = some newline)

/-- Where the line from `start` to `i` ends, a carriage return before its end left out. -/
def lineEnd (text : Text) (start i : Nat) : Nat :=
  if start < i ∧ text.bytes[i - 1]? = some carriageReturn then i - 1 else i

def fillLines (text : Text) : List Nat → Nat → Nat → List Slice → Source
  | [], _, index, items => ⟨items, index⟩
  | i :: rest, start, index, items =>
    if endsLine text i then
      fillLines text rest (i + 1) (index + 1) (items.set index ⟨some start, lineEnd text start i - start⟩)
    else fillLines text rest start index items

/-- The slots that the counting pass asks for: one, and one more for each newline. -/
def lineSlots (text : Text) : Nat :=
  (List.range text.len).foldl (fun count i => if text.bytes[i]? = some newline then count + 1 else count) 1

def cflowTextLinesSourceInit (mem : Memory) (text : Text) : Option Source :=
  if mem.calloc (lineSlots text) then
    some (fillLines text (List.range (text.len + 1)) 0 0 (List.replicate (lineSlots text) .zero))
  else none

/-! The interpreter's streams. -/

/-- `exprtk_list_push`, whose answer the callers do not look at. -/
def listPush (mem : Memory) (list : List (List UInt8)) (item : List UInt8) : List (List UInt8) :=
  if mem.push list.length then list ++ [item] else list

/-- `stream_list_append_string`. -/
def listAppendString (mem : Memory) (list : List (List UInt8)) (item : List UInt8) :
    Option (List (List UInt8)) :=
  if mem.alloc (item.length + 1) then some (listPush mem list item) else none

/-- The inner loop; `VSTR_NPOS` stands for no separator. -/
def streamFind (text sep : Text) (cursor : Nat) : Nat :=
  (firstFrom (fun i => decide ((i + sep.len) % 2 ^ 64 ≤ text.len))
    (separatorAt text.bytes sep.bytes) (text.len + 1) cursor).getD sizeMax

def splitLoop (mem : Memory) (text sep : Text) : Nat → Nat → List (List UInt8) → List (List UInt8)
  | 0, _, parts => parts
  | fuel + 1, cursor, parts =>
    if cursor ≤ text.len then
      if streamFind text sep cursor = sizeMax then
        (listAppendString mem parts (sliceBytes text.bytes ⟨some cursor, text.len - cursor⟩)).getD []
      else
        match listAppendString mem parts
            (sliceBytes text.bytes ⟨some cursor, streamFind text sep cursor - cursor⟩) with
        | none => []
        | some parts => splitLoop mem text sep fuel (streamFind text sep cursor + sep.len) parts
    else parts

def byteLoop (mem : Memory) (text : Text) : List Nat → List (List UInt8) → List (List UInt8)
  | [], parts => parts
  | i :: rest, parts =>
    match listAppendString mem parts (sliceBytes text.bytes ⟨some i, 1⟩) with
    | none => []
    | some parts => byteLoop mem text rest parts

def streamSplitString (mem : Memory) (text sep : Text) : List (List UInt8) :=
  if sep.len = 0 then byteLoop mem text (List.range text.len) []
  else splitLoop mem text sep (text.len + 1) 0 []

/-- The loop of both line adapters, which stops at a request that is refused. -/
def linesLoop (mem : Memory) (text : Text) : List Nat → Nat → List (List UInt8) → List (List UInt8)
  | [], _, lines => lines
  | i :: rest, start, lines =>
    if endsLine text i then
      if mem.alloc (lineEnd text start i - start + 1) then
        linesLoop mem text rest (i + 1)
          (listPush mem lines (sliceBytes text.bytes ⟨some start, lineEnd text start i - start⟩))
      else lines
    else linesLoop mem text rest start lines

def streamLinesFromString (mem : Memory) (text : Text) : List (List UInt8) :=
  linesLoop mem text (List.range (text.len + 1)) 0 []

def rtStreamStringLines (mem : Memory) (text : Text) : List (List UInt8) :=
  linesLoop mem text (List.range (text.len + 1)) 0 []

/-- A line without one carriage return at its end. -/
def stripCr (line : List UInt8) : List UInt8 :=
  if line.getLast? = some carriageReturn then line.dropLast else line

end TurboScript.Stream
