import Mathlib.Data.List.Basic
import Mathlib.Tactic.Common

/- The pattern scanners and the validator of the small regex engine.

   The engine has no parser: it walks the pattern text with three forward scanners (the end
   of a class, of a group, of a branch) whenever it needs a boundary, first to validate the
   pattern and then again at every step of a match. A `char` of the source is a `Char`, a
   position is a `Nat`, and the value -1 of a scanner is `none`. Every read goes through
   `patternAt`, which faults outside the range the reading function was given, and every
   loop has fuel, which faults when it runs out; `Run` carries these faults, so that
   "reads inside its range" and "terminates" are statements about results. -/
namespace TurboScript.Regex

inductive Fault where
  /-- a loop or a recursion that did not end -/
  | fuel
  /-- a read of the pattern outside the range of the function that reads -/
  | pattern
  /-- a read of the text at or past its length -/
  | text
  /-- a write past the entries of the positions array -/
  | positions
  /-- a boundary asked for where there is none -/
  | scan
  /-- an `int` counted past its largest value -/
  | overflow
  deriving DecidableEq, Repr

abbrev Run := Except Fault

theorem Run.ok_bind {α β : Type} (a : α) (f : α → Run β) : (Except.ok a >>= f) = f a := rfl

/-- `pattern[i]`, in a function that was given the range from `start` to `stop`. -/
def patternAt (p : List Char) (start stop i : Nat) : Run Char :=
  if start ≤ i ∧ i < stop then
    match p[i]? with
    | some c => .ok c
    | none => .error .pattern
  else .error .pattern

def isquantifier (c : Char) : Bool := c == '*' || c == '+' || c == '?'

def maxCharClassLen : Nat := 40
def maxPatternLen : Nat := 256

/-! The scanners. -/

/-- The loop of `find_char_class_end`. -/
def classLoop (p : List Char) (start stop : Nat) : Nat → Nat → Run (Option Nat)
  | 0, _ => .error .fuel
  | n + 1, i =>
    if i < stop then do
      let c ← patternAt p start stop i
      if c = '\\' then
        if i + 1 ≥ stop then return none
        else classLoop p start stop n (i + 2)
      else if c = ']' then return some i
      else classLoop p start stop n (i + 1)
    else return none

/-- `find_char_class_end`: from the bracket at `start`. -/
def findCharClassEnd (p : List Char) (start stop : Nat) : Run (Option Nat) := do
  let i := start + 1
  if i < stop then
    let c ← patternAt p start stop i
    if c = '^' then classLoop p start stop (stop + 1) (i + 1)
    else classLoop p start stop (stop + 1) i
  else classLoop p start stop (stop + 1) i

/-- The loop of `find_group_end`. -/
def groupLoop (p : List Char) (start stop : Nat) : Nat → Nat → Nat → Run (Option Nat)
  | 0, _, _ => .error .fuel
  | n + 1, i, depth =>
    if i < stop then do
      let c ← patternAt p start stop i
      if c = '\\' then
        if i + 1 ≥ stop then return none
        else groupLoop p start stop n (i + 2) depth
      else if c = '[' then
        match ← findCharClassEnd p i stop with
        | none => return none
        | some classEnd => groupLoop p start stop n (classEnd + 1) depth
      else if c = '(' then groupLoop p start stop n (i + 1) (depth + 1)
      else if c = ')' then
        if depth - 1 = 0 then return some i
        else groupLoop p start stop n (i + 1) (depth - 1)
      else groupLoop p start stop n (i + 1) depth
    else return none

/-- `find_group_end`: from the parenthesis at `start`. -/
def findGroupEnd (p : List Char) (start stop : Nat) : Run (Option Nat) :=
  groupLoop p start stop (stop + 1) (start + 1) 1

/-- The loop of `find_branch_end`. -/
def branchLoop (p : List Char) (start stop : Nat) : Nat → Nat → Nat → Run (Option Nat)
  | 0, _, _ => .error .fuel
  | n + 1, i, depth =>
    if i < stop then do
      let c ← patternAt p start stop i
      if c = '\\' then
        if i + 1 ≥ stop then return none
        else branchLoop p start stop n (i + 2) depth
      else if c = '[' then
        match ← findCharClassEnd p i stop with
        | none => return none
        | some classEnd => branchLoop p start stop n (classEnd + 1) depth
      else if c = '(' then branchLoop p start stop n (i + 1) (depth + 1)
      else if c = ')' then
        -- the counter of the source would go below zero
        if depth = 0 then return none
        else branchLoop p start stop n (i + 1) (depth - 1)
      else if c = '|' ∧ depth = 0 then return some i
      else branchLoop p start stop n (i + 1) depth
    else return some stop

def findBranchEnd (p : List Char) (start stop : Nat) : Run (Option Nat) :=
  branchLoop p start stop (stop + 1) start 0

/-! The validator. Its functions and those of the matcher call each other on ever smaller
ranges; one fuel counts all of these calls. -/

mutual

/-- `atom_end_at`: the end of the atom at `start`, with a group's inside validated. -/
def atomEndAt (p : List Char) : Nat → Nat → Nat → Run (Option Nat)
  | 0, _, _ => .error .fuel
  | n + 1, start, stop =>
    if start ≥ stop then return none
    else do
      let c ← patternAt p start stop start
      if c = '[' then
        match ← findCharClassEnd p start stop with
        | none => return none
        | some classEnd =>
          if classEnd - start ≥ maxCharClassLen then return none
          else return some (classEnd + 1)
      else if c = '(' then
        match ← findGroupEnd p start stop with
        | none => return none
        | some groupEnd =>
          if ← validateExpr p n (start + 1) groupEnd then return some (groupEnd + 1)
          else return none
      else if c = '\\' then
        if start + 1 < stop then return some (start + 2) else return none
      else if c = '|' ∨ c = ')' ∨ isquantifier c then return none
      else return some (start + 1)

/-- `validate_sequence`, with its loop over the atoms as a recursion on the rest. -/
def validateSequence (p : List Char) : Nat → Nat → Nat → Run Bool
  | 0, _, _ => .error .fuel
  | n + 1, i, stop =>
    if i < stop then do
      match ← atomEndAt p n i stop with
      | none => return false
      | some atomEnd =>
        if atomEnd < stop then
          let q ← patternAt p i stop atomEnd
          if isquantifier q then
            let c ← patternAt p i stop i
            if c = '^' ∨ c = '$' then return false
            else validateSequence p n (atomEnd + 1) stop
          else validateSequence p n atomEnd stop
        else validateSequence p n atomEnd stop
    else return true

/-- `validate_expr`, with its loop over the branches as a recursion on the rest. -/
def validateExpr (p : List Char) : Nat → Nat → Nat → Run Bool
  | 0, _, _ => .error .fuel
  | n + 1, branchStart, stop =>
    if branchStart ≤ stop then do
      match ← findBranchEnd p branchStart stop with
      | none => return false
      | some branchEnd =>
        if ← validateSequence p n branchStart branchEnd then
          if branchEnd = stop then return true
          else validateExpr p n (branchEnd + 1) stop
        else return false
    else return true

end

/-- Enough for every chain of calls on a pattern. -/
def fuelFor (p : List Char) : Nat := 3 * p.length + 3

/-- `re_compile`: the pattern is short enough and valid. -/
def reCompile (p : List Char) : Run Bool :=
  if p.length ≥ maxPatternLen then return false
  else validateExpr p (fuelFor p) 0 p.length

end TurboScript.Regex
