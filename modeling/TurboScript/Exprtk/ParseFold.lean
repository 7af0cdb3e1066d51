import TurboScript.Exprtk.Charge
import TurboScript.Exprtk.Ieee

/- The constants the parser folds (`exprtk_fold_binary`, `exprtk_fold_unary`, `exprtk_fold_if`)
   against the evaluation of the tree as written.

   An operand that is no operator is any computation. The charge made for each node is left out:
   the folded tree has fewer nodes. A tree and all its parts evaluate the same folded and as
   written exactly when folding is invisible at every operator that is folded (`NumbersOk`,
   `UnaryOk`). -/
namespace TurboScript.Exprtk.ParseFold
open Lib
open Double (add eps eq fabs le lt neg ofInt sub tiny)
open List (mem_append mem_append_left mem_append_right mem_cons mem_cons_of_mem mem_cons_self)

section Constructors
variable {D : Type} [Double D]

def boolNumber (b : Bool) : D := ofInt (if b then 1 else 0)

def cTrue (x : D) : Bool := !eq x (ofInt 0)

/-- Two numbers; a zero divisor is left to the evaluator. -/
def foldNumbers (op : BinOp) (l r : D) : Option D :=
  match op with
  | .plus => some (add l r)
  | .minus => some (sub l r)
  | .multiply => some (Double.mul l r)
  | .divide => if cTrue r then some (Double.div l r) else none
  | .mod => if cTrue r then some (Double.fmod l r) else none
  | .power => some (Double.pow l r)
  | .eq => some (boolNumber (eq l r))
  | .ne => some (boolNumber (!eq l r))
  | .lt => some (boolNumber (lt l r))
  | .le => some (boolNumber (le l r))
  | .gt => some (boolNumber (lt r l))
  | .ge => some (boolNumber (le r l))
  | .and => some (boolNumber (cTrue l && cTrue r))
  | .or => some (boolNumber (cTrue l || cTrue r))
  | .not => none

/-- The literal two operands are folded to. INTEGER literals are not folded. -/
def foldLiterals (op : BinOp) : Node D → Node D → Option (Node D)
  | .number l, .number r => (foldNumbers op l r).map .number
  | .string l, .string r => if op = .plus then some (.string (l ++ r)) else none
  | .string l, .number r => if op = .plus then some (.string (l ++ Double.format r)) else none
  | .number l, .string r => if op = .plus then some (.string (Double.format l ++ r)) else none
  | _, _ => none

def foldBinary (op : BinOp) (left right : Node D) : Node D :=
  (foldLiterals op left right).getD (.binary op (some left) right)

def foldSign (op : BinOp) (v : D) : Option D :=
  match op with
  | .minus => some (neg v)
  | .plus => some v
  | .not => some (boolNumber (lt (fabs v) eps))
  | _ => none

def foldUnary (op : BinOp) (child : Node D) : Node D :=
  match child with
  | .number v => ((foldSign op v).map .number).getD (.binary op none child)
  | _ => .binary op none child

/-- `exprtk_fold_if`. The grammar always has the first branch. -/
def foldIf (cond ifBranch : Node D) (elseBranch : Option (Node D)) : Node D :=
  match cond with
  | .number v => if nonzero v then ifBranch else elseBranch.getD (.block [])
  | _ => .ifStmt cond (some ifBranch) elseBranch

/-- The tree the constructors make of an operator tree. -/
def foldTree : Node D → Node D
  | .binary op none r => foldUnary op (foldTree r)
  | .binary op (some l) r => foldBinary op (foldTree l) (foldTree r)
  | .ifStmt c (some t) none => foldIf (foldTree c) (foldTree t) none
  | .ifStmt c (some t) (some f) => foldIf (foldTree c) (foldTree t) (some (foldTree f))
  | node => node

/-- The operator nodes of a tree and their operands. -/
def treeParts : Node D → List (Node D)
  | .binary op none r => .binary op none r :: treeParts r
  | .binary op (some l) r => .binary op (some l) r :: (treeParts l ++ treeParts r)
  | .ifStmt c (some t) none => .ifStmt c (some t) none :: (treeParts c ++ treeParts t)
  | .ifStmt c (some t) (some f) =>
    .ifStmt c (some t) (some f) :: (treeParts c ++ (treeParts t ++ treeParts f))
  | node => [node]

end Constructors

/-! Evaluation. -/

section Evaluation
variable {D Θ : Type} [Double D] [Formats]

/-- An aborted environment evaluates nothing. -/
def entered (e : EnvId) (m : Eval D Θ (Value D)) : Eval D Θ (Value D) := do
  if (← getEnv e).aborted then return zero else m

/-- A part and what follows it when no jump and no throw is under way. -/
def andThen (e : EnvId) (m : Eval D Θ (Value D)) (k : Value D → Eval D Θ (Value D)) :
    Eval D Θ (Value D) := do
  let v ← m
  if !(← flowNormal e) then return zero else k v

/-- `exprtk_eval` on an operator tree whose other operands `R` evaluates. -/
def evalTree (R : Node D → EnvId → Eval D Θ (Value D)) (e : EnvId) : Node D → Eval D Θ (Value D)
  | .number x => entered e (return .number x)
  | .integer i => entered e (return .integer i)
  | .string s => entered e (return .string s)
  | .null => entered e (return .null)
  | .block [] => entered e (return zero)
  | .binary op none r =>
    entered e (andThen e (evalTree R e r) fun v => binaryResult op zero v e)
  | .binary op (some l) r =>
    entered e (andThen e (evalTree R e l) fun v =>
      andThen e (evalTree R e r) fun w => binaryResult op v w e)
  | .ifStmt c (some t) none =>
    entered e (andThen e (evalTree R e c) fun v =>
      if evalValueTruthy v then evalTree R e t else return zero)
  | .ifStmt c (some t) (some f) =>
    entered e (andThen e (evalTree R e c) fun v =>
      if evalValueTruthy v then evalTree R e t else evalTree R e f)
  | node => entered e (R node e)

variable {R : Node D → EnvId → Eval D Θ (Value D)} {e : EnvId} {s : State D Θ}

/-! What each operator node evaluates. -/

theorem evalTree_sign (op : BinOp) (r : Node D) : evalTree R e (.binary op none r) =
      entered e (andThen e (evalTree R e r) fun v => binaryResult op zero v e) := rfl

theorem evalTree_operator (op : BinOp) (l r : Node D) : evalTree R e (.binary op (some l) r) =
      entered e (andThen e (evalTree R e l) fun v =>
        andThen e (evalTree R e r) fun w => binaryResult op v w e) := rfl

theorem evalTree_branch (c t : Node D) : evalTree R e (.ifStmt c (some t) none) =
      entered e (andThen e (evalTree R e c) fun v =>
        if evalValueTruthy v then evalTree R e t else return zero) := rfl

theorem evalTree_branches (c t f : Node D) : evalTree R e (.ifStmt c (some t) (some f)) =
      entered e (andThen e (evalTree R e c) fun v =>
        if evalValueTruthy v then evalTree R e t else evalTree R e f) := rfl

variable {m : Eval D Θ (Value D)} {v : Value D}

omit [Formats] in
theorem entered_congr {m' : Eval D Θ (Value D)} (h : (s.envs e).aborted = false → m s = m' s) :
    entered e m s = entered e m' s := by
  unfold entered
  rw [bind_apply, bind_apply, getEnv_apply]
  cases ha : (s.envs e).aborted with
  | true => simp only [ha, if_true]
  | false => simpa only [ha, Bool.false_eq_true, if_false] using h ha

omit [Formats] in
theorem entered_running (ha : (s.envs e).aborted = false) : entered e m s = m s := by
  unfold entered
  rw [bind_apply, getEnv_apply]
  simp only [ha, Bool.false_eq_true, if_false]

omit [Formats] in
theorem entered_aborted (ha : (s.envs e).aborted = true) : entered e m s = .ok zero s := by
  unfold entered
  rw [bind_apply, getEnv_apply]
  simp only [ha, if_true]
  rfl

theorem evalTree_aborted {t : Node D} (ha : (s.envs e).aborted = true) : evalTree R e t s = .ok zero s := by
  unfold evalTree
  split <;> exact entered_aborted ha

omit [Formats] in
theorem andThen_congr {m' : Eval D Θ (Value D)} {k k' : Value D → Eval D Θ (Value D)}
    (hm : m s = m' s) (hk : ∀ v t, (t.envs e).flow = .normal → k v t = k' v t) :
    andThen e m k s = andThen e m' k' s := by
  unfold andThen
  rw [bind_apply, bind_apply, hm]
  cases m' s with
  | error u t => rfl
  | ok v t =>
    simp only [bind_apply, flowNormal_apply]
    by_cases hf : (t.envs e).flow = .normal
    · simpa only [hf, decide_true, Bool.not_true, Bool.false_eq_true, if_false] using hk v t hf
    · simp only [hf, decide_false, Bool.not_false, if_true]

omit [Formats] in
theorem andThen_value {k : Value D → Eval D Θ (Value D)} (hf : (s.envs e).flow = .normal)
    (hm : m s = .ok v s) : andThen e m k s = k v s := by
  unfold andThen
  rw [bind_apply, hm]
  simp only [bind_apply, flowNormal_apply, hf, decide_true, Bool.not_true, Bool.false_eq_true, if_false]

def literal : Node D → Option (Value D)
  | .number x => some (.number x)
  | .string s => some (.string s)
  | _ => none

theorem evalTree_literal {node : Node D} (hl : literal node = some v)
    (ha : (s.envs e).aborted = false) : evalTree R e node s = .ok v s := by
  cases node with
  | number | string =>
    cases hl
    exact entered_running ha
  | _ => cases hl

theorem evalTree_binary_literal {op : BinOp} {l r : Node D} {w : Value D}
    (hl : literal l = some v) (hr : literal r = some w) (ha : (s.envs e).aborted = false)
    (hf : (s.envs e).flow = .normal) :
    evalTree R e (.binary op (some l) r) s = binaryResult op v w e s := by
  rw [evalTree_operator, entered_running ha, andThen_value hf (evalTree_literal hl ha),
    andThen_value hf (evalTree_literal hr ha)]

theorem evalTree_unary_literal {op : BinOp} {r : Node D} {w : Value D} (hr : literal r = some w)
    (ha : (s.envs e).aborted = false) (hf : (s.envs e).flow = .normal) :
    evalTree R e (.binary op none r) s = binaryResult op zero w e s := by
  rw [evalTree_sign, entered_running ha, andThen_value hf (evalTree_literal hr ha)]

theorem binaryResult_eq_iff {op : BinOp} {l r : Value D} (hf : (s.envs e).flow = .normal) :
    binaryResult op l r e s = .ok v s ↔ evalBinary op l r = .ok v := by
  unfold binaryResult
  cases evalBinary op l r with
  | ok w =>
    show EStateM.Result.ok w s = .ok v s ↔ _
    simp
  | error msg =>
    refine ⟨fun h => ?_, fun h => by cases h⟩
    have hthrow : ∃ u t, throwErr (D := D) (Θ := Θ) e msg s = .ok u t ∧ (t.envs e).flow = .throw :=
      ⟨_, _, rfl, by simp [State.update]⟩
    obtain ⟨u, t, hr, ht⟩ := hthrow
    rw [show throwErr e msg s = .ok v s from h] at hr
    cases hr
    rw [hf] at ht
    cases ht

end Evaluation

/-! One operator on literals. -/

section Operators
variable {D : Type} [Ieee D] [Formats]

omit [Formats] in
theorem boolNumber_inj {a b : Bool} : (boolNumber a : D) = boolNumber b ↔ a = b := by
  have h10 : (ofInt 1 : D) ≠ ofInt 0 := by
    intro h
    have h₁ := Ieee.one_ne_zero (D := D)
    rw [h, Ieee.eq_zero] at h₁
    cases h₁
  cases a <;> cases b <;> simp [boolNumber, h10, h10.symm]

/-- The numbers on which folding an operator is what the evaluator does: it throws for a divisor
below `1e-15`, and its equality and truth have a tolerance of `1e-9`. -/
def NumbersOk (op : BinOp) (l r : D) : Prop :=
  match op with
  | .divide | .mod => cTrue r = true → lt (fabs r) tiny = false
  | .eq => eq l r = lt (fabs (sub l r)) eps
  | .ne => (!eq l r) = le eps (fabs (sub l r))
  | .and => (cTrue l && cTrue r) = (nonzero l && nonzero r)
  | .or => (cTrue l || cTrue r) = (nonzero l || nonzero r)
  | _ => True

/-- The evaluator subtracts from zero and adds to zero, and has no case for `not`. -/
def UnaryOk (op : BinOp) (v : D) : Prop :=
  match op with
  | .minus => sub (ofInt 0) v = neg v
  | .plus => add (ofInt 0) v = v
  | .not => False
  | _ => True

theorem evalBinary_numbers_iff {op : BinOp} {l r v : D} (hf : foldNumbers op l r = some v) :
    evalBinary op (.number l) (.number r) = .ok (.number v) ↔ NumbersOk op l r := by
  cases op with
  | divide | mod =>
    simp only [foldNumbers] at hf
    split at hf
    case isFalse => cases hf
    case isTrue hr =>
      cases hf
      cases ht : lt (fabs r) tiny with
      | true => simp [evalBinary, isNumeric, valToDouble, doubleBinary, NumbersOk, hr, ht]
      | false => simp [evalBinary, isNumeric, valToDouble, doubleBinary, NumbersOk, ht]
  | eq | ne | and | or =>
    cases hf
    show Except.ok (Value.number (boolNumber _)) = Except.ok (Value.number (boolNumber _)) ↔ _
    rw [Except.ok.injEq, Value.number.injEq, boolNumber_inj]
    exact eq_comm
  | plus | minus | multiply | power | lt | le | gt | ge =>
    cases hf
    exact ⟨fun _ => trivial, fun _ => rfl⟩
  | not => cases hf

theorem evalBinary_sign_iff {op : BinOp} {r v : D} (hf : foldSign op r = some v) :
    evalBinary op zero (.number r) = .ok (.number v) ↔ UnaryOk op r := by
  cases op with
  | minus | plus =>
    cases hf
    show Except.ok (Value.number _) = Except.ok (Value.number _) ↔ _
    rw [Except.ok.injEq, Value.number.injEq]
    rfl
  | not => exact ⟨fun h => by (cases h), fun h => h.elim⟩
  | _ => cases hf

end Operators

/-! Trees. -/

section Trees
variable {D Θ : Type} [Ieee D] [Formats] {R : Node D → EnvId → Eval D Θ (Value D)}

/-- An operator whose folding, if it is folded, is invisible. -/
def FoldOk : Node D → Prop
  | .binary op none r =>
    match foldTree r with
    | .number v => UnaryOk op v
    | _ => True
  | .binary op (some l) r =>
    match foldTree l, foldTree r with
    | .number x, .number y => NumbersOk op x y
    | _, _ => True
  | _ => True

/-- Two trees with the same runs: the same value in the same state, from every state in which
nothing is thrown. -/
def SameRuns (R : Node D → EnvId → Eval D Θ (Value D)) (t u : Node D) : Prop :=
  ∀ e s, (s.envs e).flow = .normal → evalTree R e t s = evalTree R e u s

/-- The tree the constructors make evaluates as the tree that was written. -/
def Same (R : Node D → EnvId → Eval D Θ (Value D)) (t : Node D) : Prop := SameRuns R (foldTree t) t

variable {t u r c : Node D} {op : BinOp} {b : Value D}

theorem SameRuns.trans {w : Node D} (h : SameRuns R t u) (h' : SameRuns R u w) :
    SameRuns R t w := fun e s hf => (h e s hf).trans (h' e s hf)

theorem SameRuns.symm (h : SameRuns R t u) : SameRuns R u t :=
  fun e s hf => (h e s hf).symm

theorem sameRuns_binary {l l' r' : Node D} (hl : SameRuns R l l') (hr : SameRuns R r r') :
    SameRuns R (.binary op (some l) r) (.binary op (some l') r') := by
  intro e s hf
  rw [evalTree_operator, evalTree_operator]
  refine entered_congr fun _ => andThen_congr (hl e s hf) fun v t ht => ?_
  exact andThen_congr (hr e t ht) fun _ _ _ => rfl

theorem sameRuns_unary {r' : Node D} (hr : SameRuns R r r') :
    SameRuns R (.binary op none r) (.binary op none r') := by
  intro e s hf
  rw [evalTree_sign, evalTree_sign]
  exact entered_congr fun _ => andThen_congr (hr e s hf) fun _ _ _ => rfl

theorem sameRuns_if {c' t' : Node D} (hc : SameRuns R c c') (ht : SameRuns R t t') :
    SameRuns R (.ifStmt c (some t) none) (.ifStmt c' (some t') none) := by
  intro e s hf
  rw [evalTree_branch, evalTree_branch]
  refine entered_congr fun _ => andThen_congr (hc e s hf) fun v u hu => ?_
  split
  · exact ht e u hu
  · rfl

theorem sameRuns_ifElse {c' t' f f' : Node D} (hc : SameRuns R c c') (ht : SameRuns R t t')
    (hf : SameRuns R f f') :
    SameRuns R (.ifStmt c (some t) (some f)) (.ifStmt c' (some t') (some f')) := by
  intro e s hn
  rw [evalTree_branches, evalTree_branches]
  refine entered_congr fun _ => andThen_congr (hc e s hn) fun v u hu => ?_
  split
  · exact ht e u hu
  · exact hf e u hu

def calmState (D Θ : Type) [Double D] [Inhabited Θ] : State D Θ where
  envs _ := { vars := fun _ => none, returnValue := zero, errorValue := zero }
  next := 1
  store := default

theorem literal_iff [Inhabited Θ] {lit node : Node D} {a v : Value D} (hlit : literal lit = some v)
    (hnode : ∀ e s, (s.envs e).aborted = false → (s.envs e).flow = .normal →
      evalTree R e node s = binaryResult op a b e s) :
    SameRuns R lit node ↔ evalBinary op a b = .ok v := by
  constructor
  · intro h
    have hs := h 0 (calmState D Θ) rfl
    rw [hnode 0 _ rfl rfl, evalTree_literal hlit rfl] at hs
    exact (binaryResult_eq_iff (e := 0) (s := calmState D Θ) rfl).1 hs.symm
  · intro hv e s hf
    cases ha : (s.envs e).aborted with
    | true => rw [evalTree_aborted ha, evalTree_aborted ha]
    | false =>
      rw [evalTree_literal hlit ha, hnode e s ha hf]
      exact ((binaryResult_eq_iff hf).2 hv).symm

theorem binary_iff [Inhabited Θ] {lit l : Node D} {a v : Value D} (hlit : literal lit = some v)
    (hl : literal l = some a) (hr : literal r = some b) :
    SameRuns R lit (.binary op (some l) r) ↔ evalBinary op a b = .ok v :=
  literal_iff hlit fun _ _ ha hf => evalTree_binary_literal hl hr ha hf

theorem unary_iff [Inhabited Θ] {lit : Node D} {v : Value D} (hlit : literal lit = some v)
    (hr : literal r = some b) :
    SameRuns R lit (.binary op none r) ↔ evalBinary op zero b = .ok v :=
  literal_iff hlit fun _ _ ha hf => evalTree_unary_literal hr ha hf

theorem evalBinary_concat {a : Value D} {x y : String} (ha : evalValueText 64 a = some x)
    (hb : evalValueText 64 b = some y) (hs : isString a = true ∨ isString b = true)
    (hn : (isNumeric a && isNumeric b) = false) :
    evalBinary .plus a b = .ok (.string (x ++ y)) := by
  unfold evalBinary
  cases a <;> cases b <;> simp_all [isNumeric, isString]

theorem foldBinary_iff [Inhabited Θ] (R : Node D → EnvId → Eval D Θ (Value D)) (op : BinOp) (l r : Node D) :
    SameRuns R (foldBinary op l r) (.binary op (some l) r) ↔
      match l, r with
      | .number x, .number y => NumbersOk op x y
      | _, _ => True := by
  have hsame : foldLiterals op l r = none → SameRuns R (foldBinary op l r) (.binary op (some l) r) := by
    intro hnone e s _
    rw [foldBinary, hnone]
    rfl
  -- a text and a number or a text
  have htext : ∀ {a b : Value D} {x y : String}, literal l = some a → literal r = some b →
      evalValueText 64 a = some x → evalValueText 64 b = some y →
      (isString a = true ∨ isString b = true) → (isNumeric a && isNumeric b) = false →
      foldLiterals op l r = (if op = .plus then some (.string (x ++ y)) else none) →
      SameRuns R (foldBinary op l r) (.binary op (some l) r) := by
    intro a b x y hl hr hx hy hs hn hfold
    by_cases hop : op = .plus
    · rw [if_pos hop] at hfold
      have hlit : literal (.string (x ++ y) : Node D) = some (.string (x ++ y)) := rfl
      rw [foldBinary, hfold]
      refine (binary_iff hlit hl hr).2 ?_
      rw [hop]
      exact evalBinary_concat hx hy hs hn
    · rw [if_neg hop] at hfold
      exact hsame hfold
  cases l with
  | number x =>
    cases r with
    | number y =>
      show _ ↔ NumbersOk op x y
      cases hf : foldNumbers op x y with
      | some v =>
        have hlit : literal (.number v : Node D) = some (.number v) := rfl
        have hfold : foldBinary op (.number x) (.number y) = .number v := by
          simp [foldBinary, foldLiterals, hf]
        rw [hfold, binary_iff hlit rfl rfl]
        exact evalBinary_numbers_iff hf
      | none =>
        have hok : NumbersOk op x y := by
          cases op with
          | divide | mod =>
            intro hr
            simp [foldNumbers, hr] at hf
          | not => trivial
          | _ => cases hf
        exact iff_of_true (hsame (by simp [foldLiterals, hf])) hok
    | string t =>
      exact iff_of_true (htext (a := .number x) (b := .string t) rfl rfl rfl rfl (.inr rfl) rfl rfl) trivial
    | _ => exact iff_of_true (hsame rfl) trivial
  | string t =>
    cases r with
    | number y =>
      exact iff_of_true (htext (a := .string t) (b := .number y) rfl rfl rfl rfl (.inl rfl) rfl rfl) trivial
    | string u =>
      exact iff_of_true (htext (a := .string t) (b := .string u) rfl rfl rfl rfl (.inl rfl) rfl rfl) trivial
    | _ => exact iff_of_true (hsame rfl) trivial
  | _ => exact iff_of_true (hsame (by cases r <;> rfl)) trivial

theorem foldUnary_iff [Inhabited Θ] (R : Node D → EnvId → Eval D Θ (Value D)) (op : BinOp) (r : Node D) :
    SameRuns R (foldUnary op r) (.binary op none r) ↔
      match r with
      | .number v => UnaryOk op v
      | _ => True := by
  cases r with
  | number x =>
    show _ ↔ UnaryOk op x
    cases hf : foldSign op x with
    | some v =>
      have hlit : literal (.number v : Node D) = some (.number v) := rfl
      have hfold : foldUnary op (.number x) = .number v := by simp [foldUnary, hf]
      rw [hfold, unary_iff hlit rfl]
      exact evalBinary_sign_iff hf
    | none =>
      have hfold : foldUnary op (.number x) = .binary op none (.number x) := by
        simp [foldUnary, hf]
      have hok : UnaryOk op x := by
        cases op with
        | minus | plus | not => cases hf
        | _ => trivial
      rw [hfold]
      exact iff_of_true (fun e s _ => rfl) hok
  | _ => exact iff_of_true (fun e s _ => rfl) trivial

theorem foldIf_same (R : Node D → EnvId → Eval D Θ (Value D)) (c t : Node D)
    (f : Option (Node D)) : SameRuns R (foldIf c t f) (.ifStmt c (some t) f) := by
  cases c with
  | number v =>
    intro e s hf
    cases ha : (s.envs e).aborted with
    | true => rw [evalTree_aborted ha, evalTree_aborted ha]
    | false =>
      have hc : evalTree R e (.number v) s = .ok (.number v) s := entered_running ha
      cases f with
      | none =>
        rw [evalTree_branch, entered_running ha, andThen_value hf hc]
        show evalTree R e (if nonzero v then t else .block []) s =
          (if nonzero v then evalTree R e t else return zero) s
        split
        · rfl
        · exact entered_running ha
      | some f =>
        rw [evalTree_branches, entered_running ha, andThen_value hf hc]
        show evalTree R e (if nonzero v then t else f) s =
          (if nonzero v then evalTree R e t else evalTree R e f) s
        split <;> rfl
  | _ => exact fun e s _ => rfl

theorem same_binary_iff [Inhabited Θ] {l : Node D} (hl : Same R l) (hr : Same R r) :
    Same R (.binary op (some l) r) ↔ FoldOk (.binary op (some l) r) := by
  have hparts : SameRuns R (.binary op _ _) _ := sameRuns_binary hl hr
  have hfold := foldBinary_iff R op (foldTree l) (foldTree r)
  show SameRuns R (foldBinary op (foldTree l) (foldTree r)) _ ↔ _
  constructor
  · exact fun h => hfold.1 (h.trans hparts.symm)
  · exact fun h => (hfold.2 h).trans hparts

theorem same_unary_iff [Inhabited Θ] (hr : Same R r) :
    Same R (.binary op none r) ↔ FoldOk (.binary op none r) := by
  have hparts : SameRuns R (.binary op _ _) _ := sameRuns_unary hr
  have hfold := foldUnary_iff R op (foldTree r)
  show SameRuns R (foldUnary op (foldTree r)) _ ↔ _
  constructor
  · exact fun h => hfold.1 (h.trans hparts.symm)
  · exact fun h => (hfold.2 h).trans hparts

theorem same_if (hc : Same R c) (ht : Same R t) : Same R (.ifStmt c (some t) none) := by
  exact SameRuns.trans (foldIf_same R _ _ _) (sameRuns_if hc ht)

theorem same_ifElse {f : Node D} (hc : Same R c) (ht : Same R t) (hf : Same R f) :
    Same R (.ifStmt c (some t) (some f)) := by
  exact SameRuns.trans (foldIf_same R _ _ _) (sameRuns_ifElse hc ht hf)

omit [Formats] in
theorem treeInduction {motive : Node D → Prop} (sign : ∀ op r, motive r → motive (.binary op none r))
    (operator : ∀ op l r, motive l → motive r → motive (.binary op (some l) r))
    (branch : ∀ c t, motive c → motive t → motive (.ifStmt c (some t) none))
    (branches : ∀ c t f, motive c → motive t → motive f → motive (.ifStmt c (some t) (some f)))
    (leaf : ∀ node, treeParts node = [node] → foldTree node = node → FoldOk node → motive node)
    (t : Node D) : motive t := by
  fun_induction treeParts t with
  | case1 op r ih => exact sign op r ih
  | case2 op l r ihl ihr => exact operator op l r ihl ihr
  | case3 c t ihc iht => exact branch c t ihc iht
  | case4 c t f ihc iht ihf => exact branches c t f ihc iht ihf
  | case5 node h₁ h₂ h₃ h₄ =>
    refine leaf node ?_ ?_ ?_
    · rw [treeParts] <;> assumption
    · rw [foldTree] <;> assumption
    · unfold FoldOk
      split
      · exact absurd rfl (h₁ _ _)
      · exact absurd rfl (h₂ _ _ _)
      · trivial

theorem same_of_parts [Inhabited Θ] (h : ∀ u ∈ treeParts t, FoldOk u) : Same R t := by
  induction t using treeInduction with
  | sign op r ih =>
    exact (same_unary_iff (ih fun u hu => h u (mem_cons_of_mem _ hu))).2 (h _ (mem_cons_self ..))
  | operator op l r ihl ihr =>
    refine (same_binary_iff (ihl fun u hu => ?_) (ihr fun u hu => ?_)).2 (h _ (mem_cons_self ..))
    · exact h u (mem_cons_of_mem _ (mem_append_left _ hu))
    · exact h u (mem_cons_of_mem _ (mem_append_right _ hu))
  | branch c t ihc iht =>
    refine same_if (ihc fun u hu => ?_) (iht fun u hu => ?_)
    · exact h u (mem_cons_of_mem _ (mem_append_left _ hu))
    · exact h u (mem_cons_of_mem _ (mem_append_right _ hu))
  | branches c t f ihc iht ihf =>
    refine same_ifElse (ihc fun u hu => ?_) (iht fun u hu => ?_) (ihf fun u hu => ?_)
    · exact h u (mem_cons_of_mem _ (mem_append_left _ hu))
    · exact h u (mem_cons_of_mem _ (mem_append_right _ (mem_append_left _ hu)))
    · exact h u (mem_cons_of_mem _ (mem_append_right _ (mem_append_right _ hu)))
  | leaf node hparts hfold hok =>
    unfold Same
    rw [hfold]
    exact fun e s _ => rfl

omit [Formats] in
theorem treeParts_self (t : Node D) : t ∈ treeParts t := by
  induction t using treeInduction with
  | leaf node hparts hfold hok => exact hparts ▸ List.mem_singleton_self node
  | _ => exact mem_cons_self ..

omit [Formats] in
theorem treeParts_trans (hu : u ∈ treeParts t) : ∀ w ∈ treeParts u, w ∈ treeParts t := by
  induction t using treeInduction with
  | sign op r ih =>
    intro w hw
    rcases mem_cons.1 hu with rfl | hu
    · exact hw
    · exact mem_cons_of_mem _ (ih hu w hw)
  | operator op l r ihl ihr =>
    intro w hw
    rcases mem_cons.1 hu with rfl | hu
    · exact hw
    · refine mem_cons_of_mem _ (mem_append.2 ?_)
      exact (mem_append.1 hu).imp (fun hu => ihl hu w hw) fun hu => ihr hu w hw
  | branch c t ihc iht =>
    intro w hw
    rcases mem_cons.1 hu with rfl | hu
    · exact hw
    · refine mem_cons_of_mem _ (mem_append.2 ?_)
      exact (mem_append.1 hu).imp (fun hu => ihc hu w hw) fun hu => iht hu w hw
  | branches c t f ihc iht ihf =>
    intro w hw
    rcases mem_cons.1 hu with rfl | hu
    · exact hw
    · refine mem_cons_of_mem _ (mem_append.2 ?_)
      refine (mem_append.1 hu).imp (fun hu => ihc hu w hw) fun hu => mem_append.2 ?_
      exact (mem_append.1 hu).imp (fun hu => iht hu w hw) fun hu => ihf hu w hw
  | leaf node hparts hfold hok =>
    rw [hparts] at hu
    cases List.mem_singleton.1 hu
    exact fun w hw => hw

theorem foldOk_of_same [Inhabited Θ] (h : ∀ w ∈ treeParts u, Same R w) : FoldOk u := by
  induction u using treeInduction with
  | sign op r _ =>
    exact (same_unary_iff (h r (mem_cons_of_mem _ (treeParts_self r)))).1 (h _ (mem_cons_self ..))
  | operator op l r _ _ =>
    have hl := h l (mem_cons_of_mem _ (mem_append_left _ (treeParts_self l)))
    have hr := h r (mem_cons_of_mem _ (mem_append_right _ (treeParts_self r)))
    exact (same_binary_iff hl hr).1 (h _ (mem_cons_self ..))
  | branch | branches => trivial
  | leaf node hparts hfold hok => exact hok

/-- **Folding at parse time.** A tree and all its parts evaluate the same as the parser's
constructors make them and as they are written, whatever their other operands do, exactly when
every operator that is folded is applied to literals it treats as the evaluator does. -/
theorem parse_folding_invisible_iff [Inhabited Θ] (R : Node D → EnvId → Eval D Θ (Value D))
    (t : Node D) : (∀ u ∈ treeParts t, Same R u) ↔ ∀ u ∈ treeParts t, FoldOk u := by
  constructor
  · exact fun h u hu => foldOk_of_same fun w hw => h w (treeParts_trans hu w hw)
  · exact fun h u hu => same_of_parts fun w hw => h w (treeParts_trans hu w hw)

end Trees

/-- `1.0 == 1.0000000001` folds to zero; the evaluator finds them equal. -/
theorem parse_folding_equality :
    letI : PowFn := ⟨powInt⟩
    ¬Same (Θ := Unit) (fun _ _ => return zero)
      (.binary .eq (some (.number (.fin 1))) (.number (.fin 1.0000000001)) : Node Ext) := by
  let : PowFn := ⟨powInt⟩
  intro h
  have hleaf : ∀ x : Ext, Same (Θ := Unit) (fun _ _ => return zero) (.number x) :=
    fun x e s _ => rfl
  have hok : NumbersOk .eq (.fin 1 : Ext) (.fin 1.0000000001) :=
    (same_binary_iff (hleaf _) (hleaf _)).1 h
  have hne : eq (.fin 1 : Ext) (.fin 1.0000000001) = false := by decide +kernel
  have hlt : lt (fabs (sub (.fin 1 : Ext) (.fin 1.0000000001))) eps =
      true := by decide +kernel
  unfold NumbersOk at hok
  rw [hne, hlt] at hok
  cases hok

end TurboScript.Exprtk.ParseFold
