import TurboScript.Mir.ClosureAnalysis

/- Specialised copies of higher-order functions
   (`ts_find_hof_specialized_call`, `ts_try_emit_hof_specialized_call`).

   1. The key: the names of a call, each cut to its buffer and with `_` for every character
      that is no ASCII letter or digit, joined by `_`. Two keys are the same text exactly
      when the names give the same words (`key_eq_iff`).
   2. The call site: which definition a called name means, which parameters the definition
      calls, and which compiled function an argument names.
   3. The emission, which looks the key up among the compiled functions.

   Identifiers are ASCII, so a character of a name is a byte of the source's text. -/
namespace TurboScript.Mir.Specialize
open Exprtk (Node Func)

section Key

/-- The characters that a part of a key keeps and that are not the separator. -/
def isWordChar (ch : Char) : Bool :=
  ('a' ≤ ch && ch ≤ 'z') || ('A' ≤ ch && ch ≤ 'Z') || ('0' ≤ ch && ch ≤ '9')

def keyChar (ch : Char) : Char := if isWordChar ch || ch == '_' then ch else '_'

/-- `ts_sanitize_name_part`, into a buffer of 64 characters with its terminator. -/
def sanitizeNamePart (src : Exprtk.Name) : List Char := (src.toList.take 63).map keyChar

/-- The loop over the targets; the buffer of the key has 256 characters. -/
def appendParts : List Char → List Exprtk.Name → Option (List Char)
  | out, [] => some out
  | out, target :: targets =>
    let out := out ++ '_' :: sanitizeNamePart target
    if 256 ≤ out.length then none else appendParts out targets

def buildHofSpecializationKey (baseName : Exprtk.Name) (targets : List Exprtk.Name) : Option Exprtk.Name :=
  if targets = [] then none
  else
    let out := "__hof_".toList ++ sanitizeNamePart baseName
    if 256 ≤ out.length then none else (appendParts out targets).map String.ofList

/-- The words of a list of names: each name cut to 63 characters and split at every character
    that is no ASCII letter or digit. -/
def keyWords (names : List Exprtk.Name) : List (List Char) :=
  names.flatMap fun name => (name.toList.take 63).splitOnP fun ch => !isWordChar ch

theorem keyChar_eq_separator (ch : Char) : (keyChar ch == '_') = !isWordChar ch := by
  unfold keyChar
  by_cases hw : isWordChar ch
  · have hne : ch ≠ '_' := by
      rintro rfl
      exact absurd hw (by decide)
    simp [hw, hne]
  · by_cases hu : ch = '_'
    · subst hu
      rfl
    · simp [hw, hu]

theorem keyChar_of_word {ch : Char} (h : isWordChar ch) : keyChar ch = ch := by
  simp [keyChar, h]

theorem splitOn_map_keyChar (chars : List Char) :
    (chars.map keyChar).splitOn '_' = chars.splitOnP fun ch => !isWordChar ch := by
  induction chars with
  | nil => rfl
  | cons ch chars ih =>
    rw [List.map_cons, List.splitOn_cons_eq_if_modifyHead, List.splitOnP_cons_eq_if_modifyHead,
      keyChar_eq_separator, ih]
    by_cases hw : isWordChar ch
    · rw [keyChar_of_word hw]
    · simp [hw]

theorem splitOn_sanitizeNamePart (name : Exprtk.Name) : (sanitizeNamePart name).splitOn '_' =
      (name.toList.take 63).splitOnP fun ch => !isWordChar ch :=
  splitOn_map_keyChar _

/-- The text of a key after its `__hof_`. -/
def keyText (names : List Exprtk.Name) : List Char := ['_'].intercalate (names.map sanitizeNamePart)

theorem keyText_cons_cons (name next : Exprtk.Name) (names : List Exprtk.Name) :
    keyText (name :: next :: names) = sanitizeNamePart name ++ '_' :: keyText (next :: names) := by
  simp [keyText, List.intercalate_cons_cons]

theorem splitOn_keyText (name : Exprtk.Name) (names : List Exprtk.Name) :
    (keyText (name :: names)).splitOn '_' = keyWords (name :: names) := by
  induction names generalizing name with
  | nil => simp [keyText, keyWords, splitOn_sanitizeNamePart]
  | cons next names ih =>
    rw [keyText_cons_cons, List.splitOn_append_cons_self, ih, splitOn_sanitizeNamePart]
    rfl

theorem keyText_eq_iff (name name' : Exprtk.Name) (names names' : List Exprtk.Name) :
    keyText (name :: names) = keyText (name' :: names') ↔
      keyWords (name :: names) = keyWords (name' :: names') := by
  constructor
  · intro h
    rw [← splitOn_keyText, ← splitOn_keyText, h]
  · intro h
    rw [← splitOn_keyText, ← splitOn_keyText] at h
    calc keyText (name :: names)
        = ['_'].intercalate ((keyText (name :: names)).splitOn '_') := (List.intercalate_splitOn _).symm
      _ = ['_'].intercalate ((keyText (name' :: names')).splitOn '_') := by rw [h]
      _ = keyText (name' :: names') := List.intercalate_splitOn _

theorem appendParts_eq {out text : List Char} {targets : List Exprtk.Name}
    (h : appendParts out targets = some text) :
    text = out ++ targets.flatMap fun target => '_' :: sanitizeNamePart target := by
  induction targets generalizing out with
  | nil => simpa [appendParts] using h.symm
  | cons target targets ih =>
    simp only [appendParts] at h
    split at h
    · cases h
    · rw [ih h, List.flatMap_cons, List.append_assoc]

theorem keyText_cons (name : Exprtk.Name) (names : List Exprtk.Name) : keyText (name :: names) =
      sanitizeNamePart name ++ names.flatMap fun target => '_' :: sanitizeNamePart target := by
  induction names generalizing name with
  | nil => simp [keyText]
  | cons next names ih => rw [keyText_cons_cons, ih, List.flatMap_cons, List.cons_append]

theorem key_text {base key : Exprtk.Name} {targets : List Exprtk.Name}
    (h : buildHofSpecializationKey base targets = some key) :
    key.toList = "__hof_".toList ++ keyText (base :: targets) := by
  unfold buildHofSpecializationKey at h
  split at h
  · cases h
  · simp only at h
    split at h
    · cases h
    · obtain ⟨text, htext, rfl⟩ := Option.map_eq_some_iff.1 h
      rw [String.toList_ofList, appendParts_eq htext, keyText_cons, List.append_assoc]

/-- **Two keys are the same exactly when the names have the same words.** -/
theorem key_eq_iff {base base' key key' : Exprtk.Name} {targets targets' : List Exprtk.Name}
    (h : buildHofSpecializationKey base targets = some key)
    (h' : buildHofSpecializationKey base' targets' = some key') :
    key = key' ↔ keyWords (base :: targets) = keyWords (base' :: targets') := by
  rw [← keyText_eq_iff, ← String.toList_inj, key_text h, key_text h', List.append_cancel_left_eq]

end Key

section Walks
variable {D : Type}

mutual
/-- The nodes below a node that `ts_node_calls_param_function` and
    `ts_node_uses_name_as_value` visit: whether one of them is `found`. -/
def anyBelow (found : Node D → Bool) : Node D → Bool
  | .block statements => anyNodes found statements
  | .flowReturn value => anyOpt found value
  | .assignment _ value | .constantDecl _ value => found value || anyBelow found value
  | .binary _ left right => anyOpt found left || (found right || anyBelow found right)
  | .ifStmt condition ifBranch elseBranch =>
    (found condition || anyBelow found condition) || anyOpt found ifBranch || anyOpt found elseBranch
  | .whileLoop condition body =>
    (found condition || anyBelow found condition) || (found body || anyBelow found body)
  | .forLoop init condition post body =>
    anyOpt found init || anyOpt found condition || anyOpt found post || (found body || anyBelow found body)
  | .doWhile body condition =>
    (found body || anyBelow found body) || (found condition || anyBelow found condition)
  | .forIn _ collection body =>
    (found collection || anyBelow found collection) || (found body || anyBelow found body)
  | .functionCall _ args => anyNodes found args
  | .memberCall object _ args => (found object || anyBelow found object) || anyNodes found args
  | .memberAccess object _ => found object || anyBelow found object
  | .memberSet object _ value =>
    (found object || anyBelow found object) || (found value || anyBelow found value)
  | .vector elements => anyNodes found elements
  | .mapLiteral entries => anyEntries found entries
  | .index array index =>
    (found array || anyBelow found array) || (found index || anyBelow found index)
  | .slice array start stop =>
    (found array || anyBelow found array) || anyOpt found start || anyOpt found stop
  -- the default case visits nothing: the bodies of nested functions stay unseen
  | _ => false

def anyOpt (found : Node D → Bool) : Option (Node D) → Bool
  | none => false
  | some node => found node || anyBelow found node

def anyNodes (found : Node D → Bool) : List (Node D) → Bool
  | [] => false
  | node :: nodes => (found node || anyBelow found node) || anyNodes found nodes

def anyEntries (found : Node D → Bool) : List (Option Exprtk.Name × Node D) → Bool
  | [] => false
  | (_, node) :: entries => (found node || anyBelow found node) || anyEntries found entries
end

def anyNode (found : Node D → Bool) (node : Node D) : Bool := found node || anyBelow found node

/-- `ts_name_matches_variable_param`. -/
def matchesVariableParam (name : Exprtk.Name) (params : List (Node D)) : Bool :=
  params.any fun param => match param with
    | .varRef x | .assignment x _ => x == name
    | _ => false

/-- `ts_node_calls_param_function`. -/
def callsParamFunction (body : Node D) (params : List (Node D)) : Bool :=
  anyNode (fun node => match node with
    | .functionCall name _ => matchesVariableParam name params
    | _ => false) body

/-- `ts_node_uses_name_as_value`. -/
def usesNameAsValue (body : Node D) (name : Exprtk.Name) : Bool :=
  anyNode (fun node => match node with
    | .varRef x | .assignment x _ | .constantDecl x _ | .forIn x _ _ => x == name
    | _ => false) body

end Walks

section Sites
variable {D : Type}

/-- `ts_mir_func_alias_t`. -/
structure FuncAlias where
  paramName : Exprtk.Name
  targetName : Exprtk.Name
  deriving DecidableEq, Repr

/-- `ts_compiled_func_t`, with the parameters, the body and the aliases its code was made of. -/
structure CompiledFunc (D : Type) where
  name : Exprtk.Name
  argCount : Nat
  params : List (Node D)
  body : Node D
  aliases : List FuncAlias

/-- What the specialisation reads of `ts_mir_compiler_t`; `scriptFuncs` are the script functions
    of the context's environments, the innermost environment first. -/
structure Compiler (D : Type) where
  astRoot : Node D
  scriptFuncs : List (Func D)
  isClass : Exprtk.Name → Bool
  envHas : Exprtk.Name → Bool
  compiledFuncs : List (CompiledFunc D)

structure CallSite (D : Type) where
  name : Exprtk.Name
  args : List (Node D × Nat)

inductive Callee (D : Type)
  | node (name : Exprtk.Name) (params : List (Node D)) (body : Node D)
  | func (f : Func D)

def Callee.name : Callee D → Exprtk.Name
  | .node name _ _ => name
  | .func f => f.name

def Callee.params : Callee D → List (Node D)
  | .node _ params _ => params
  | .func f => f.params

def Callee.body : Callee D → Node D
  | .node _ _ body => body
  | .func f => f.body

mutual
/-- `ts_find_function_def_node`: the first definition in the blocks of the module. -/
def findFunctionDefNode (x : Exprtk.Name) : Node D → Option (Callee D)
  | .functionDefinition name params body => if name = x then some (.node name params body) else none
  | .block statements => findFunctionDefNodes x statements
  | _ => none

def findFunctionDefNodes (x : Exprtk.Name) : List (Node D) → Option (Callee D)
  | [] => none
  | node :: nodes => (findFunctionDefNode x node).or (findFunctionDefNodes x nodes)
end

namespace Compiler

/-- `ts_find_compiled_func`. -/
def find (c : Compiler D) (name : Exprtk.Name) : Option (CompiledFunc D) :=
  c.compiledFuncs.find? fun f => f.name == name

def extend (c : Compiler D) (more : List (CompiledFunc D)) : Compiler D :=
  { c with compiledFuncs := c.compiledFuncs ++ more }

/-- `ts_find_script_func_node`, else `ts_find_script_func_in_env`. -/
def findCallee (c : Compiler D) (name : Exprtk.Name) : Option (Callee D) :=
  (findFunctionDefNode name c.astRoot).or ((c.scriptFuncs.find? fun f => f.name == name).map .func)

/-- `ts_function_expr_can_compile_for_hof`. -/
def canCompileForHof (c : Compiler D) (params : List (Node D)) (body : Node D) : Bool :=
  decide (params.length ≤ 16) &&
    params.all (fun param => match param with | .varRef _ => true | _ => false) &&
    (analyzeClosure body params c.envHas c.astRoot).canJit

end Compiler

/-- `ts_build_hof_lambda_name`. -/
def lambdaName (address : Nat) : Exprtk.Name :=
  "__lambda_" ++ String.ofList (Nat.toDigits 16 address)

/-- `ts_hof_resolve_function_arg`: the compiled function that an argument names. -/
def resolveFunctionArg (c : Compiler D) : Node D × Nat → Option Exprtk.Name
  | (.varRef x, _) => if (c.find x).isSome then some x else none
  | (.functionExpression params body, address) =>
    if c.canCompileForHof params body && (c.find (lambdaName address)).isSome then
      some (lambdaName address)
    else none
  | _ => none

/-- The parameters of the callee against the arguments: the aliases of those its body calls, and
    the indices of the others. -/
def matchParams (c : Compiler D) (body : Node D) :
    Nat → List (Node D) → List (Node D × Nat) → Option (List FuncAlias × List Nat)
  | _, [], _ => some ([], [])
  | i, .varRef x :: params, arg :: args =>
    if callsParamFunction body [.varRef x] then
      (resolveFunctionArg c arg).bind fun target =>
        if usesNameAsValue body x then none
        else (matchParams c body (i + 1) params args).map fun r => (⟨x, target⟩ :: r.1, r.2)
    else (matchParams c body (i + 1) params args).map fun r => (r.1, i :: r.2)
  | _, _, _ => none

theorem matchParams_cons {c : Compiler D} {body param : Node D} {params : List (Node D)}
    {args : List (Node D × Nat)} {i : Nat} {r : List FuncAlias × List Nat}
    (h : matchParams c body i (param :: params) args = some r) :
    ∃ x arg rest, param = .varRef x ∧ args = arg :: rest ∧
      ((callsParamFunction body [.varRef x] = true ∧ ∃ target r',
          resolveFunctionArg c arg = some target ∧ usesNameAsValue body x = false ∧
          matchParams c body (i + 1) params rest = some r' ∧ r = (⟨x, target⟩ :: r'.1, r'.2)) ∨
        (callsParamFunction body [.varRef x] = false ∧ ∃ r',
          matchParams c body (i + 1) params rest = some r' ∧ r = (r'.1, i :: r'.2))) := by
  cases param with
  | varRef x =>
    cases args with
    | nil => cases h
    | cons arg rest =>
      refine ⟨x, arg, rest, rfl, rfl, ?_⟩
      rw [matchParams] at h
      cases hcalls : callsParamFunction body [.varRef x] with
      | true =>
        rw [if_pos hcalls] at h
        obtain ⟨target, htarget, h⟩ := Option.bind_eq_some_iff.1 h
        cases huses : usesNameAsValue body x with
        | true =>
          rw [if_pos huses] at h
          cases h
        | false =>
          rw [huses] at h
          obtain ⟨r', hr', rfl⟩ := Option.map_eq_some_iff.1 h
          exact .inl ⟨rfl, target, r', htarget, rfl, hr', rfl⟩
      | false =>
        rw [hcalls] at h
        obtain ⟨r', hr', rfl⟩ := Option.map_eq_some_iff.1 h
        exact .inr ⟨rfl, r', hr', rfl⟩
  | _ => cases h

structure Specialization (D : Type) where
  callee : Callee D
  aliases : List FuncAlias
  numericArgs : List Nat
  key : Exprtk.Name

/-- `ts_find_hof_specialized_call` up to its lookup of the key. -/
def specialize (c : Compiler D) (site : CallSite D) : Option (Specialization D) :=
  (c.findCallee site.name).bind fun callee =>
    if callee.params.length ≠ site.args.length ∨ 16 < callee.params.length then none
    else
      (matchParams c callee.body 0 callee.params site.args).bind fun r =>
        (buildHofSpecializationKey site.name (r.1.map FuncAlias.targetName)).map fun key =>
          ⟨callee, r.1, r.2, key⟩

/-- The compiled functions that a specialisation puts in the place of its arguments. -/
def Specialization.targets (p : Specialization D) (c : Compiler D) : List (Option (CompiledFunc D)) :=
  p.aliases.map fun a => c.find a.targetName

/-- `ts_try_emit_hof_specialized_call`: the function called and the arguments it is passed. -/
def emitHofSpecializedCall (c : Compiler D) (site : CallSite D) : Option (CompiledFunc D × List (Node D)) :=
  (specialize c site).bind fun p =>
    (c.find p.key).bind fun f =>
      if f.argCount ≠ p.numericArgs.length then none
      else some (f, p.numericArgs.filterMap fun i => (site.args[i]?).map Prod.fst)

end Sites

section Lookup
variable {D : Type} {c : Compiler D}

theorem name_of_find {name : Exprtk.Name} {f : CompiledFunc D} (h : c.find name = some f) :
    f.name = name := by
  simpa using List.find?_some h

theorem find_extend {name : Exprtk.Name} {f : CompiledFunc D} (h : c.find name = some f)
    (more : List (CompiledFunc D)) : (c.extend more).find name = some f := by
  show (c.compiledFuncs ++ more).find? _ = some f
  rw [List.find?_append, show c.compiledFuncs.find? _ = some f from h]
  rfl

@[simp] theorem findCallee_extend (more : List (CompiledFunc D)) (name : Exprtk.Name) :
    (c.extend more).findCallee name = c.findCallee name := rfl

mutual
theorem name_of_findFunctionDefNode {x : Exprtk.Name} {callee : Callee D} : ∀ {node : Node D},
    findFunctionDefNode x node = some callee → callee.name = x := by
  intro node h
  unfold findFunctionDefNode at h
  split at h
  · split at h
    · cases h
      assumption
    · cases h
  · exact name_of_findFunctionDefNodes h
  · cases h

theorem name_of_findFunctionDefNodes {x : Exprtk.Name} {callee : Callee D} : ∀ {nodes : List (Node D)},
    findFunctionDefNodes x nodes = some callee → callee.name = x := by
  intro nodes h
  match nodes with
  | [] => cases h
  | node :: nodes =>
    rw [findFunctionDefNodes, Option.or_eq_some_iff] at h
    rcases h with h | ⟨-, h⟩
    · exact name_of_findFunctionDefNode h
    · exact name_of_findFunctionDefNodes h
end

theorem name_of_findCallee {name : Exprtk.Name} {callee : Callee D} (h : c.findCallee name = some callee) :
    callee.name = name := by
  rw [Compiler.findCallee, Option.or_eq_some_iff] at h
  rcases h with h | ⟨-, h⟩
  · exact name_of_findFunctionDefNode h
  · obtain ⟨f, hf, rfl⟩ := Option.map_eq_some_iff.1 h
    show f.name = name
    simpa using List.find?_some hf

/-- The name of an argument that is a function: a variable's, or the one a function expression
    is compiled under. -/
def argName : Node D × Nat → Exprtk.Name
  | (.varRef x, _) => x
  | (_, address) => lambdaName address

theorem resolveFunctionArg_cases {arg : Node D × Nat} {target : Exprtk.Name}
    (h : resolveFunctionArg c arg = some target) :
    target = argName arg ∧ ∃ f, c.find target = some f := by
  unfold resolveFunctionArg at h
  split at h
  · split at h
    · cases h
      exact ⟨rfl, Option.isSome_iff_exists.1 ‹_›⟩
    · cases h
  · split at h
    · rename_i hc
      cases h
      exact ⟨rfl, Option.isSome_iff_exists.1 (Bool.and_eq_true_iff.1 hc).2⟩
    · cases h
  · cases h

end Lookup

end TurboScript.Mir.Specialize
