import TurboScript.Lib.Course
import TurboScript.Mir.ClosureAnalysis

/- Definite assignment of the locals of a compiled function.

   1. The control paths of a body: the branches of an `if`, loops of any number of rounds,
      jumps, and throws with the clauses that catch them. The right operand of `&&` and `||`
      may be passed over, as compiled code does.
   2. The locals: names read in the body and neither parameters nor captured, whose registers
      nothing initialises. A called name is no variable here, as in the capture analysis.
   3. Each local is assigned before it is read on every path exactly when, with branches
      joined and loops allowed no round, no read of it can be met first. What the analysis
      accepts goes by the order of the text instead. -/
namespace TurboScript.Mir
open Lib
open Exprtk (Node)

/-! Control paths. -/

inductive Jump
  | breaking
  | continuing
  | returning
  | throwing
  /-- A loop is left from one of its rounds. -/
  | leaving
  deriving DecidableEq, Repr

abbrev Touch := VarName × Access
abbrev Paths := Course Touch Jump

section Paths
variable {D : Type}

def reads (x : VarName) (t : Touch) : Bool := t = (x, .read)
def assigns (x : VarName) (t : Touch) : Bool := t.1 = x && t.2 ≠ .read

def mayThrow (operands : Paths) : Paths := .seq operands (.choice .skip (.exit .throwing))

def roundOf (body : Paths) : Paths :=
  .handle [.breaking] (.handle [.continuing] body .skip) (.exit .leaving)

def rounds (round : Paths) : Paths := .handle [.leaving] (.star round) .skip

mutual
/-- The names a destructuring pattern assigns; a value of another kind binds nothing. -/
def patternCourse : Node D → Paths
  | .varRef x => .event (x, .write)
  | .vector elements => .choice .skip (patternCourses elements)
  | .mapLiteral entries => .choice .skip (patternEntriesCourse entries)
  | .spread (.varRef x) => .event (x, .write)
  | _ => .skip

def patternCourses : List (Node D) → Paths
  | [] => .skip
  | node :: nodes => .seq (patternCourse node) (patternCourses nodes)

def patternEntriesCourse : List (Option VarName × Node D) → Paths
  | [] => .skip
  | (_, node) :: entries => .seq (patternCourse node) (patternEntriesCourse entries)
end

variable (placeholders : String → Paths)

mutual
/-- The paths of a node. What a template reads is given with its text. -/
def course : Node D → Paths
  | .number _ | .integer _ | .string _ | .null => .skip
  | .varRef x => .event (x, .read)
  | .assignment x value => mayThrow (.seq (course value) (.event (x, .write)))
  | .constantDecl x value => mayThrow (.seq (course value) (.event (x, .write)))
  | .destructuring targets value _ => mayThrow (.seq (course value) (patternCourse targets))
  | .binary .and left right | .binary .or left right =>
    mayThrow (.seq (courseOpt left) (.choice .skip (course right)))
  | .binary _ left right => mayThrow (.seq (courseOpt left) (course right))
  | .functionCall _ args | .newExpr _ args | .superExpr _ args _ => mayThrow (courseList args)
  | .templateString text => placeholders text
  | .vector elements => mayThrow (courseList elements)
  | .mapLiteral entries => courseEntries entries
  | .index array index => mayThrow (.seq (course array) (course index))
  | .slice array start stop =>
    mayThrow (.seq (course array) (.seq (courseOpt start) (courseOpt stop)))
  | .spread child => course child
  | .memberCall object _ args => mayThrow (.seq (course object) (courseList args))
  | .memberAccess object _ => mayThrow (course object)
  -- the value comes before the receiver
  | .memberSet object _ value => mayThrow (.seq (course value) (course object))
  | .thisExpr => mayThrow .skip
  | .instanceOf object _ classExpr => mayThrow (.seq (course object) (courseOpt classExpr))
  | .ifStmt c t f => .seq (course c) (.choice (courseOpt t) (courseOpt f))
  | .whileLoop c body => .seq (course c) (rounds (.seq (roundOf (course body)) (course c)))
  | .forLoop init c post body =>
    .seq (courseOpt init) (.seq (courseOpt c)
      (rounds (.seq (roundOf (course body)) (.seq (courseOpt post) (courseOpt c)))))
  | .doWhile body c =>
    .handle [.leaving] (.seq (roundOf (course body)) (.seq (course c)
      (.star (.seq (roundOf (course body)) (course c))))) .skip
  | .forIn x collection body =>
    .seq (course collection) (rounds (.seq (.event (x, .loopVariable)) (roundOf (course body))))
  | .block statements => courseList statements
  | .switch value cases defaultCase =>
    .seq (course value) (courseCases cases (courseOpt defaultCase))
  | .flowReturn value => .seq (courseOpt value) (.exit .returning)
  | .flowBreak => .exit .breaking
  | .flowContinue => .exit .continuing
  | .throwStmt value => .seq (courseOpt value) (.exit .throwing)
  -- the variable of the clause hides one of the same name
  | .tryCatch tryBody catchVar catchBody =>
    .handle [.throwing] (course tryBody) ((course catchBody).keep fun t => !catchVar.toList.contains t.1)
  | .classDef _ _ _ _ members _ _ _ => mayThrow (courseMembers members)
  -- a function made here runs when it is called
  | .functionDefinition _ _ _ | .functionExpression _ _ | .generator _ _ _
  | .method _ _ _ _ _ _ _ _ | .fieldDecl _ _ _ _ _ | .yieldExpr _ => .skip

def courseOpt : Option (Node D) → Paths
  | none => .skip
  | some node => course node

def courseList : List (Node D) → Paths
  | [] => .skip
  | node :: nodes => .seq (course node) (courseList nodes)

def courseEntries : List (Option VarName × Node D) → Paths
  | [] => .skip
  | (_, node) :: entries => .seq (course node) (courseEntries entries)

def courseCases : List (Node D) → Paths → Paths
  | [], last => last
  | [_], last => last
  | c :: cases, last => .seq (course c) (courseCaseBody cases last)

def courseCaseBody : List (Node D) → Paths → Paths
  | [], last => last
  | body :: cases, last => .choice (course body) (courseCases cases last)

def courseMembers : List (Node D) → Paths
  | [] => .skip
  | .fieldDecl _ _ initializer _ _ :: members =>
    mayThrow (.seq (courseOpt initializer) (courseMembers members))
  | _ :: members => mayThrow (courseMembers members)
end

def ReadFirst (x : VarName) (path : List Touch) : Prop := Course.First (reads x) (assigns x) path

/-- A read of the variable can be met first, branches joined and loops allowed no round. -/
def mayReadFirst (x : VarName) (body : Node D) : Bool :=
  (course placeholders body).meets (reads x) (assigns x)

theorem mayReadFirst_iff (x : VarName) (body : Node D) : mayReadFirst placeholders x body = true ↔
      ∃ path o, Course.Path (course placeholders body) path o ∧ ReadFirst x path :=
  Course.meets_iff (course placeholders body)

end Paths

/-! Locals. -/

section Locals
variable {D : Type} (placeholders : String → Paths) (templateNames : String → List (VarName × Access))
variable (body : Node D) (params : List (Node D)) (envHas : VarName → Bool) (outerScope : Node D)

/-- The analysis has the name as read, as no parameter and as not captured. -/
structure ClassifiedLocal (x : VarName) : Prop where
  used : x ∈ (analyzeNode body { defined := params.flatMap paramDefines }).used
  notParameter : x ∉ params.flatMap paramDefines
  notCaptured : x ∉ (analyzeClosure body params envHas outerScope).capturedVars

/-- The analysis sees the name read, and sees it either as the variable of a `for … in` or
    assigned without a binding outside. -/
structure SeenLocal (x : VarName) : Prop where
  read : reading x ∈ occurrences templateNames body
  notParameter : x ∉ params.flatMap paramDefines
  bound : ⟨x, .loopVariable, true⟩ ∈ occurrences templateNames body ∨
    writing x ∈ occurrences templateNames body ∧ boundOutside envHas outerScope x = false

theorem classifiedLocal_iff (x : VarName) : ClassifiedLocal body params envHas outerScope x ↔
      SeenLocal templateNames body params envHas outerScope x := by
  have hrec := analyzeNode_records templateNames body { defined := params.flatMap paramDefines }
  have hused := hrec .read x
  simp only [Analysis.recorded, List.not_mem_nil, false_or] at hused
  constructor
  · rintro ⟨hu, hp, hc⟩
    rw [captured_iff templateNames body params envHas outerScope hp] at hc
    refine ⟨hused.1 hu, hp, ?_⟩
    by_cases hl : ⟨x, .loopVariable, true⟩ ∈ occurrences templateNames body
    · exact .inl hl
    · -- not captured although it is no loop variable: assigned, and not bound outside
      by_contra h
      push Not at h
      apply hc
      refine ⟨hused.1 hu, hl, fun hw => ?_⟩
      rw [← Bool.not_eq_false]
      exact h.2 hw
  · rintro ⟨hr, hp, hb⟩
    refine ⟨hused.2 hr, hp, ?_⟩
    rw [captured_iff templateNames body params envHas outerScope hp]
    rintro ⟨-, hl, hbound⟩
    rcases hb with hb | ⟨hw, hb⟩
    · exact hl hb
    · rw [hbound hw] at hb
      cases hb

def AssignedBeforeRead : Prop :=
  ∀ x, ClassifiedLocal body params envHas outerScope x →
    ∀ path o, Course.Path (course placeholders body) path o → ¬ReadFirst x path

/-- **When a body, accepted or not, reads no register before it is written.** -/
theorem assigned_before_read_iff : AssignedBeforeRead placeholders body params envHas outerScope ↔
      ∀ x, SeenLocal templateNames body params envHas outerScope x →
        mayReadFirst placeholders x body = false := by
  constructor
  · intro h x hx
    rw [← Bool.not_eq_true, mayReadFirst_iff]
    rintro ⟨path, o, hp, hf⟩
    exact h x ((classifiedLocal_iff templateNames body params envHas outerScope x).2 hx) path o hp hf
  · intro h x hx path o hp hf
    have hclear := h x ((classifiedLocal_iff templateNames body params envHas outerScope x).1 hx)
    rw [← Bool.not_eq_true, mayReadFirst_iff] at hclear
    exact hclear ⟨path, o, hp, hf⟩

end Locals

/-- `if (c) { x = 1 } else { x = 2 } return x`. -/
def assignedInBoth : Node ℚ :=
  .block [.ifStmt (.varRef "c") (some (.block [.assignment "x" (.integer 1)]))
      (some (.block [.assignment "x" (.integer 2)])), .flowReturn (some (.varRef "x"))]

example : mayReadFirst (fun _ => .skip) "x" assignedInBoth = false := by decide

/-- `if (c) { x = 1 } return x`. -/
def assignedInOne : Node ℚ :=
  .block [.ifStmt (.varRef "c") (some (.block [.assignment "x" (.integer 1)])) none,
    .flowReturn (some (.varRef "x"))]

/-- The body is accepted, and without the branch the register is read as it is. -/
theorem branch_leaves_local_unassigned :
    (analyzeClosure assignedInOne [.varRef "c"] (fun _ => false) (.block [])).canJit = true ∧
      ¬AssignedBeforeRead (fun _ => .skip) assignedInOne [.varRef "c"] (fun _ => false)
        (.block []) := by
  refine ⟨by decide, fun h => ?_⟩
  have hx : ClassifiedLocal assignedInOne [.varRef "c"] (fun _ => false) (.block []) "x" :=
    ⟨by decide, by decide, by decide⟩
  have hmay : mayReadFirst (fun _ => .skip) "x" assignedInOne = true := by decide
  obtain ⟨path, o, hp, hf⟩ := (mayReadFirst_iff (fun _ => .skip) "x" assignedInOne).1 hmay
  exact h "x" hx path o hp hf

end TurboScript.Mir
