import TurboScript.Exprtk.Value

/- The names a closure captures (`exprtk_collect_closure_free_vars`).

   The source keeps a list without repetitions; only membership matters, since the snapshot
   asks of each variable whether its name is listed. -/
namespace TurboScript.Exprtk

section Collector
variable {D : Type}

mutual
/-- `exprtk_collect_free_vars_node`. The loop over a `switch` runs over the first half of
    its flat case array. -/
def collectNode : Node D → List Name
  | .varRef name => [name]
  | .binary _ left right => collectOpt left ++ collectNode right
  | .functionCall name args => name :: collectNodes args
  | .assignment _ value => collectNode value
  | .constantDecl _ value => collectNode value
  | .ifStmt c t f => collectNode c ++ collectOpt t ++ collectOpt f
  | .whileLoop c body => collectNode c ++ collectNode body
  | .forLoop init c post body =>
    collectOpt init ++ collectOpt c ++ collectOpt post ++ collectNode body
  | .block statements => collectNodes statements
  | .flowReturn value => collectOpt value
  | .vector elements => collectNodes elements
  | .index array index => collectNode array ++ collectNode index
  | .slice array start stop => collectNode array ++ collectOpt start ++ collectOpt stop
  | .functionDefinition _ _ body => collectNode body
  | .functionExpression _ body => collectNode body
  | .generator _ _ body => collectNode body
  | .memberCall object _ args => collectNode object ++ collectNodes args
  | .switch value cases defaultCase =>
    collectNode value ++ collectPrefix (cases.length / 2) cases ++ collectOpt defaultCase
  | .doWhile body c => collectNode body ++ collectNode c
  | .mapLiteral entries => collectEntries entries
  | .memberAccess object _ => collectNode object
  | .memberSet object _ value => collectNode object ++ collectNode value
  | .forIn _ collection body => collectNode collection ++ collectNode body
  | .destructuring targets value _ => collectNode targets ++ collectNode value
  | .tryCatch tryBody _ catchBody => collectNode tryBody ++ collectNode catchBody
  | .throwStmt value => collectOpt value
  | .yieldExpr value => collectOpt value
  | .classDef _ _ _ ctor members _ _ _ => collectOpt ctor ++ collectNodes members
  | .method _ _ body _ _ _ _ _ => collectNode body
  | .fieldDecl _ _ initializer _ _ => collectOpt initializer
  | .newExpr _ args => collectNodes args
  | .superExpr _ args _ => collectNodes args
  | .instanceOf object _ classExpr => collectNode object ++ collectOpt classExpr
  | .spread child => collectNode child
  | .number _ | .integer _ | .string _ | .null | .templateString _ | .flowBreak
  | .flowContinue | .thisExpr => []

def collectOpt : Option (Node D) → List Name
  | none => []
  | some node => collectNode node

def collectNodes : List (Node D) → List Name
  | [] => []
  | node :: nodes => collectNode node ++ collectNodes nodes

def collectPrefix : Nat → List (Node D) → List Name
  | 0, _ => []
  | _, [] => []
  | n + 1, node :: nodes => collectNode node ++ collectPrefix n nodes

def collectEntries : List (Option Name × Node D) → List Name
  | [] => []
  | (_, node) :: entries => collectNode node ++ collectEntries entries
end

def isParam (params : List (Node D)) (x : Name) : Bool :=
  params.any fun p => match p with
    | .varRef name => name == x
    | _ => false

/-- `exprtk_collect_closure_free_vars`. -/
def closureFreeVars (body : Node D) (params : List (Node D)) : List Name :=
  (collectNode body).filter fun x => x != "" && !isParam params x

end Collector

end TurboScript.Exprtk
