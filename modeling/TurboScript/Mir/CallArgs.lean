import TurboScript.Mir.CallPaths
import Mathlib.Data.List.Forall2

/- When a compiled call hands over all its arguments.

   At each position of a call the arguments are kept exactly when the call is evaluated from its
   tree, when the compilation fails, or when they fit into the registers, whatever bridge takes
   these (`call_args_kept_iff`). -/
namespace TurboScript.Mir.CallPaths
open Exprtk (Node)
open Mir.Specialize (Callee CompiledFunc FuncAlias argName
  callsParamFunction emitHofSpecializedCall matchParams matchParams_cons resolveFunctionArg
  specialize)

section Registers
variable {D : Type} {args : List (Arg D)}

def NoSpread (args : List (Arg D)) : Prop := ∀ arg ∈ args, isSpread arg.1 = false

theorem noSpread_cons {arg : Arg D} :
    NoSpread (arg :: args) ↔ isSpread arg.1 = false ∧ NoSpread args := List.forall_mem_cons

def InRegisters (args : List (Arg D)) : Prop := args.length ≤ 16 ∧ NoSpread args

theorem forall₂_registers : List.Forall₂ Carries (args.map .value) (args.map .register) ↔
    NoSpread args := by
  rw [List.forall₂_map_left_iff, List.forall₂_map_right_iff, List.forall₂_same]
  exact forall₂_congr fun arg _ => and_iff_right rfl

theorem forall₂_compileCallArgs :
    List.Forall₂ Carries (args.map .value) ((compileCallArgs args).map .register) ↔
      InRegisters args := by
  by_cases hlen : args.length ≤ 16
  · rw [compileCallArgs, List.take_of_length_le hlen, forall₂_registers]
    exact (and_iff_right hlen).symm
  · constructor
    · intro h
      have hcount := h.length_eq
      simp only [List.length_map, compileCallArgs, List.length_take] at hcount
      omega
    · intro h
      exact absurd h.1 hlen

theorem length_compileCallArgs (args : List (Arg D)) :
    (compileCallArgs args).length = min 16 args.length := List.length_take

theorem bridgeArgs_compileCallArgs (bridge : Bridge) :
    bridgeArgs bridge (compileCallArgs args).length (compileCallArgs args) =
      compileCallArgs args := by
  have hlen : (compileCallArgs args).length ≤ 16 := by
    rw [length_compileCallArgs]
    omega
  cases bridge with
  | hostSlot | call | native | builtin | instantiate | memberCall => simp [bridgeArgs, hlen]

theorem kept_of_receive {code : CallCode D} {received : List (Passed D)}
    (h : receive code = some received) :
    Kept args code ↔ List.Forall₂ Carries (wants args code) received := by
  constructor
  · exact fun hkept => hkept received h
  · intro hall other hother
    rw [h] at hother
    cases hother
    exact hall

theorem kept_failed : Kept args (.failed : CallCode D) := fun _ h => nomatch h

theorem kept_tree : Kept args (.tree args) := by
  rw [kept_of_receive rfl]
  show List.Forall₂ Carries (args.map .value) (args.map .evaluated)
  rw [List.forall₂_map_left_iff, List.forall₂_map_right_iff, List.forall₂_same]
  exact fun arg _ => rfl

theorem kept_direct : Kept args (.direct (compileCallArgs args)) ↔ InRegisters args := by
  rw [kept_of_receive rfl]
  exact forall₂_compileCallArgs

theorem kept_inlined : Kept args (.inlined (compileCallArgs args)) ↔ InRegisters args := by
  rw [kept_of_receive rfl]
  exact forall₂_compileCallArgs

theorem kept_packedCall (bridge : Bridge) :
    Kept args (packedCall bridge (compileCallArgs args)) ↔ InRegisters args := by
  rw [kept_of_receive rfl, bridgeArgs_compileCallArgs]
  exact forall₂_compileCallArgs

theorem kept_awaited : Kept args (.awaited args.head?) ↔ args.length ≤ 1 ∧ NoSpread args := by
  rw [kept_of_receive rfl]
  match args with
  | [] => exact ⟨fun _ => ⟨Nat.zero_le 1, fun _ h => nomatch h⟩, fun _ => .nil⟩
  | [arg] =>
    rw [show ([arg].head?.toList.map .register : List (Passed D)) = [arg].map .register from rfl]
    exact forall₂_registers.trans (and_iff_right (Nat.le_refl 1)).symm
  | arg :: next :: rest =>
    constructor
    · intro h
      have hcount := h.length_eq
      simp [wants] at hcount
    · intro h
      have hlen := h.1
      simp at hlen

theorem kept_predicate {name : Exprtk.Name} {arg : Arg D} (h : predicateArg name args = some arg) :
    Kept args (.predicate arg) ↔ InRegisters args := by
  unfold predicateArg at h
  split at h
  · split at h
    · cases h
      rw [kept_of_receive rfl]
      exact @forall₂_compileCallArgs D [arg]
    · cases h
  · cases h

end Registers

section Copies
variable {D : Type} {c : Specialize.Compiler D}

/-- The arguments that a specialised call passes as numbers. -/
def operands : List (Arg D) → List (Option Exprtk.Name) → List (Arg D)
  | arg :: args, none :: wanted => arg :: operands args wanted
  | _ :: args, some _ :: wanted => operands args wanted
  | _, _ => []

theorem mem_of_mem_operands {args : List (Arg D)} {wanted : List (Option Exprtk.Name)} {arg : Arg D}
    (h : arg ∈ operands args wanted) : arg ∈ args := by
  fun_induction operands args wanted with
  | case1 first args wanted ih =>
    rcases List.mem_cons.1 h with rfl | h
    · exact List.mem_cons_self
    · exact List.mem_cons_of_mem _ (ih h)
  | case2 first args name wanted ih => exact List.mem_cons_of_mem _ (ih h)
  | case3 => cases h

theorem forall₂_copyArgs {args : List (Arg D)} {wanted : List (Option Exprtk.Name)}
    (hlen : args.length = wanted.length) (builtIn : List (Option Exprtk.Name)) :
    List.Forall₂ Carries (wantedBy args wanted) (copyArgs builtIn (operands args wanted)) ↔
      builtIn = wanted ∧ NoSpread (operands args wanted) := by
  induction args generalizing wanted builtIn with
  | nil =>
    obtain rfl := List.length_eq_zero_iff.1 hlen.symm
    cases builtIn with
    | nil => exact ⟨fun _ => ⟨rfl, fun _ h => nomatch h⟩, fun _ => .nil⟩
    | cons place rest =>
      constructor
      · intro h
        cases place <;> cases h
      · intro h
        cases h.1
  | cons arg args ih =>
    cases wanted with
    | nil => cases hlen
    | cons want wanted =>
      have hrest := Nat.succ.inj hlen
      cases want with
      | some name =>
        cases builtIn with
        | nil => exact ⟨fun h => (nomatch h), fun h => (nomatch h.1)⟩
        | cons place rest =>
          cases place with
          | some target =>
            show List.Forall₂ Carries (.function name :: wantedBy args wanted)
              (.builtIn target :: copyArgs rest (operands args wanted)) ↔ _
            rw [List.forall₂_cons, ih hrest rest, List.cons_eq_cons, Option.some_inj, and_assoc]
            rfl
          | none =>
            constructor
            · intro h
              cases hops : operands args wanted with
              | nil | cons =>
                rw [show operands (arg :: args) (some name :: wanted) = operands args wanted from rfl,
                  hops] at h
                exact ((List.forall₂_cons.1 h).1).elim
            · intro h
              cases h.1
      | none =>
        cases builtIn with
        | nil => exact ⟨fun h => (nomatch h), fun h => (nomatch h.1)⟩
        | cons place rest =>
          cases place with
          | some target =>
            exact ⟨fun h => ((List.forall₂_cons.1 h).1).elim, fun h => (nomatch h.1)⟩
          | none =>
            show List.Forall₂ Carries (.value arg :: wantedBy args wanted)
              (.register arg :: copyArgs rest (operands args wanted)) ↔
                _ ∧ NoSpread (arg :: operands args wanted)
            rw [List.forall₂_cons, ih hrest rest, noSpread_cons, List.cons_eq_cons]
            constructor
            · rintro ⟨⟨-, hspread⟩, hsame, hops⟩
              exact ⟨⟨rfl, hsame⟩, hspread, hops⟩
            · rintro ⟨⟨-, hsame⟩, hspread, hops⟩
              exact ⟨⟨rfl, hspread⟩, hsame, hops⟩

theorem operands_of_matchParams {body : Node D} {all : List (Arg D)} :
    ∀ {params : List (Node D)} {args : List (Arg D)} {i : Nat} {r : List FuncAlias × List Nat},
      matchParams c body i params args = some r → all.drop i = args →
      r.2.filterMap (fun j => all[j]?) = operands args (params.zipWith (fun param arg =>
        if callsParamFunction body [param] then some (argName arg) else none) args) ∧
      ∀ arg ∈ args.take params.length, isSpread arg.1 →
        arg ∈ operands args (params.zipWith (fun param arg =>
          if callsParamFunction body [param] then some (argName arg) else none) args) := by
  intro params args i r h hdrop
  induction params generalizing args i r with
  | nil =>
    cases h
    refine ⟨by cases args <;> rfl, fun arg harg => ?_⟩
    simp at harg
  | cons param params ih =>
    obtain ⟨x, arg, rest, rfl, rfl, hcase⟩ := matchParams_cons h
    have hnext : all.drop (i + 1) = rest := by
      rw [← List.drop_drop, hdrop]
      rfl
    rcases hcase with ⟨hcalls, target, r', htarget, -, hr', rfl⟩ | ⟨hcalls, r', hr', rfl⟩
    · obtain ⟨hops, hspread⟩ := ih hr' hnext
      simp only [List.zipWith_cons_cons, hcalls, if_true, operands]
      refine ⟨hops, ?_⟩
      intro other hother hsp
      rcases List.mem_cons.1 hother with rfl | hother
      · -- a spread names no compiled function
        unfold resolveFunctionArg at htarget
        split at htarget
        · cases hsp
        · cases hsp
        · cases htarget
      · exact hspread other hother hsp
    · obtain ⟨hops, hspread⟩ := ih hr' hnext
      have hget : all[i]? = some arg := by
        have hhead := congrArg (fun l => l[0]?) hdrop
        simpa using hhead
      simp only [List.zipWith_cons_cons, hcalls, List.filterMap_cons, hget]
      refine ⟨by rw [hops]; rfl, ?_⟩
      intro other hother hsp
      rcases List.mem_cons.1 hother with rfl | hother
      · exact List.mem_cons_self
      · exact List.mem_cons_of_mem _ (hspread other hother hsp)

end Copies

section Conditions
variable {D : Type} (F : Facts D)

/-- The copy has built in exactly the functions that the call passes. -/
def CopyKept (f : CompiledFunc D) (p : Specialize.Specialization D) (args : List (Arg D)) : Prop :=
  builtInFunctions f = wantedFunctions p.callee args ∧ NoSpread args

/-- The host slot of this name refuses a full array of registers. -/
def SlotRefuses (name : Exprtk.Name) : Prop :=
  ∃ minArity maxArity, F.hostSlot name = some (minArity, maxArity) ∧ (16 < minArity ∨ maxArity < 16)

/-- When `ts_compile_expr` keeps the arguments of a function call. -/
def FunctionKept (name : Exprtk.Name) (args : List (Arg D)) : Prop :=
  match specializedCall F ⟨name, args⟩ with
  | some (f, p) => CopyKept f p args
  | none =>
    let name := (F.funcAlias name).getD name
    if name = "await" then args.length ≤ 1 ∧ NoSpread args
    else
      functionNeedsTree F name args ∨ args.length ≤ 16 ∨
        (F.compiler.find name).map CompiledFunc.argCount ≠ some 16 ∧ SlotRefuses F name

/-- When `ts_compile_expr` keeps the arguments of a member call. -/
def MethodKept (object : Node D) (method : Exprtk.Name) (args : List (Arg D)) : Prop :=
  methodNeedsTree F object method args ∨ hasReceiver F object = false ∨
    oopCallArgsNeedValueBridge F (nodes args) ∨ args.length ≤ 16 ∨
    ∃ x, object = .varRef x ∧ SlotRefuses F (qualifiedName x method)

/-- When the creation of an instance keeps its arguments. -/
def InstantiationKept (args : List (Arg D)) : Prop :=
  oopCallArgsNeedValueBridge F (nodes args) ∨ InRegisters args

def ValueKept : Target D → List (Arg D) → Prop
  | .function name, args => FunctionKept F name args
  | .method object methodName, args => MethodKept F object methodName args
  | .construct _, _ | .superMethod _, _ => True

def FunctionAssignKept (name : Exprtk.Name) (args : List (Arg D)) : Prop :=
  if F.knownClass name then InstantiationKept F args
  else match specializedCall F ⟨name, args⟩ with
    | some (f, p) => CopyKept f p args
    | none =>
      if name = "await" then args.length ≤ 1 ∧ NoSpread args
      else
        callArgsNeedAstEval F (nodes args) ∨ runtimeCallNeedsValueEval F name args.length ∨
          if callAssignmentNeedsValueBridge F name args.length then args.length ≤ 16
          else exprContainsValueCall F (.functionCall name (nodes args)) ∨ FunctionKept F name args

def MethodAssignKept (object : Node D) (method : Exprtk.Name) (args : List (Arg D)) : Prop :=
  methodAssignNeedsTree F object method args ∨ hasReceiver F object = false ∨
    oopCallArgsNeedValueBridge F (nodes args) ∨ args.length ≤ 16

def FunctionReceiverKept (name : Exprtk.Name) (args : List (Arg D)) : Prop :=
  if F.knownClass name then InstantiationKept F args
  else callAssignmentNeedsValueBridge F name args.length = false ∨ InRegisters args

def MethodReceiverKept (object : Node D) (args : List (Arg D)) : Prop :=
  hasReceiver F object = false ∨ oopCallArgsNeedValueBridge F (nodes args) ∨ InRegisters args

/-- **When a call keeps its arguments.** It is evaluated from its tree, it is refused, or its
    arguments fit into 16 registers with no spread among those that are compiled to one. -/
def ArgsKept : Position → Target D → List (Arg D) → Prop
  | .value, target, args => ValueKept F target args
  | .assignment, .function name, args => FunctionAssignKept F name args
  | .assignment, .method object methodName, args => MethodAssignKept F object methodName args
  | .assignment, .construct _, args => InstantiationKept F args
  | .constant, target, args =>
    exprContainsValueCall F (target.node args) ∨ ValueKept F target args
  | .receiver, .function name, args => FunctionReceiverKept F name args
  | .receiver, .method object _, args => MethodReceiverKept F object args
  | .receiver, .construct _, args => InstantiationKept F args
  | .assignment, .superMethod _, _ | .receiver, .superMethod _, _ => True
  | .inlinedMethod className params, target, args =>
    oopInlineExprSupported F className params (target.node args) = false ∨ args.length ≤ 16

end Conditions

section Kept
variable {D : Type} {F : Facts D} {args : List (Arg D)}

theorem noSpread_of_plain (h : callArgsNeedAstEval F (nodes args) = false) : NoSpread args := by
  induction args with
  | nil => exact fun _ h => nomatch h
  | cons arg args ih =>
    rw [nodes, List.map_cons, callArgsNeedAstEval, Bool.or_eq_false_iff] at h
    obtain ⟨hfirst, hrest⟩ := h
    simp only [Bool.or_eq_false_iff] at hfirst
    exact noSpread_cons.2 ⟨hfirst.1.1.1, ih hrest⟩

theorem inRegisters_iff_length (h : NoSpread args) : InRegisters args ↔ args.length ≤ 16 :=
  and_iff_left h

theorem noSpread_of_supported {className : Exprtk.Name} {params : List Exprtk.Name}
    (h : oopInlineExprsSupported F className params (nodes args)) : NoSpread args := by
  induction args with
  | nil => exact fun _ h => nomatch h
  | cons arg args ih =>
    rw [nodes, List.map_cons, oopInlineExprsSupported, Bool.and_eq_true] at h
    refine noSpread_cons.2 ⟨?_, ih h.2⟩
    obtain ⟨node, address⟩ := arg
    cases node with
    | spread child => exact absurd h.1 (by simp [oopInlineExprSupported])
    | _ => rfl

theorem kept_resolved {name : Exprtk.Name} {otherwise : CallCode D}
    (hother : Kept args otherwise ↔ InRegisters args) (hspread : NoSpread args) :
    Kept args ((emitDirectResolvedCall F name (compileCallArgs args)).getD otherwise) ↔
      args.length ≤ 16 ∨ SlotRefuses F name := by
  have hregs := inRegisters_iff_length hspread
  have hcount := length_compileCallArgs args
  unfold emitDirectResolvedCall
  cases hslot : F.hostSlot name with
  | some arities =>
    obtain ⟨minArity, maxArity⟩ := arities
    have hrefuses : SlotRefuses F name ↔ 16 < minArity ∨ maxArity < 16 := by
      constructor
      · rintro ⟨low, high, hfound, hout⟩
        rw [hslot] at hfound
        cases hfound
        exact hout
      · exact fun hout => ⟨minArity, maxArity, hslot, hout⟩
    rw [hrefuses, hcount]
    by_cases harity : min 16 args.length < minArity ∨ maxArity < min 16 args.length
    · simp only [if_pos harity, Option.getD_some]
      refine iff_of_true kept_failed ?_
      omega
    · simp only [if_neg harity, Option.getD_some]
      rw [kept_packedCall, hregs]
      omega
  | none =>
    have hnot : ¬ SlotRefuses F name := by
      rintro ⟨low, high, hfound, -⟩
      rw [hslot] at hfound
      cases hfound
    rw [or_iff_left hnot, ← hregs]
    cases F.native name with
    | some preserves =>
      cases preserves with
      | true => exact hother
      | false => exact kept_packedCall .native
    | none =>
      cases F.admitsBuiltin name with
      | true => exact kept_packedCall .builtin
      | false => exact hother

theorem kept_runtimeCall : Kept args (emitRuntimeCall (compileCallArgs args)) ↔ InRegisters args := by
  unfold emitRuntimeCall
  split
  · exact kept_direct
  · exact kept_packedCall .call

theorem kept_methodCall (object : Node D) (method : Exprtk.Name) :
    Kept args (emitMethodCall F object method (compileCallArgs args)) ↔ InRegisters args := by
  unfold emitMethodCall
  split
  · exact kept_inlined
  · exact kept_packedCall .memberCall

theorem kept_instantiation : Kept args (lowerInstantiation F args) ↔ InstantiationKept F args := by
  unfold lowerInstantiation InstantiationKept
  cases oopCallArgsNeedValueBridge F (nodes args) with
  | true => exact iff_of_true kept_tree (.inl rfl)
  | false => simp [kept_packedCall]

theorem specializedCall_cases {name : Exprtk.Name} {f : CompiledFunc D} {p : Specialize.Specialization D}
    (h : specializedCall F ⟨name, args⟩ = some (f, p)) :
    p.callee.params.length = args.length ∧
      matchParams F.compiler p.callee.body 0 p.callee.params args = some (p.aliases, p.numericArgs) := by
  obtain ⟨r, -, h⟩ := Option.bind_eq_some_iff.1 h
  obtain ⟨q, hq, h⟩ := Option.map_eq_some_iff.1 h
  cases h
  obtain ⟨callee, -, hq⟩ := Option.bind_eq_some_iff.1 hq
  split at hq
  · cases hq
  · rename_i hlen
    obtain ⟨r', hr', hq⟩ := Option.bind_eq_some_iff.1 hq
    obtain ⟨key, -, rfl⟩ := Option.map_eq_some_iff.1 hq
    exact ⟨not_not.1 fun hne => hlen (.inl hne), hr'⟩

theorem kept_specialized {name : Exprtk.Name} {f : CompiledFunc D} {p : Specialize.Specialization D}
    (h : specializedCall F ⟨name, args⟩ = some (f, p)) :
    Kept args (lowerSpecialized f p args) ↔ CopyKept f p args := by
  obtain ⟨hlen, hmatch⟩ := specializedCall_cases h
  obtain ⟨hops, hspread⟩ := operands_of_matchParams hmatch (List.drop_zero)
  have hwanted : args.length = (wantedFunctions p.callee args).length := by
    simp [wantedFunctions, hlen]
  have hall : NoSpread (operands args (wantedFunctions p.callee args)) ↔ NoSpread args := by
    constructor
    · intro hno arg harg
      by_contra hsp
      have hsp' : isSpread arg.1 = true := by simpa using hsp
      rw [hlen, List.take_length] at hspread
      exact hsp (hno arg (hspread arg harg hsp'))
    · intro hno arg harg
      exact hno arg (mem_of_mem_operands harg)
  rw [kept_of_receive rfl, hops, CopyKept, ← hall]
  exact forall₂_copyArgs hwanted (builtInFunctions f)

end Kept

section Main
variable {D : Type} {F : Facts D} {args : List (Arg D)}

theorem kept_function (name : Exprtk.Name) : Kept args (lowerFunction F name args) ↔
    FunctionKept F name args := by
  unfold lowerFunction FunctionKept
  cases hcopy : specializedCall F ⟨name, args⟩ with
  | some r => exact kept_specialized hcopy
  | none =>
    simp only
    generalize (F.funcAlias name).getD name = called
    by_cases hawait : called = "await"
    · simp only [if_pos hawait]
      exact kept_awaited
    · simp only [if_neg hawait]
      cases htree : functionNeedsTree F called args with
      | true => exact iff_of_true kept_tree (.inl rfl)
      | false =>
        have hspread : NoSpread args := by
          unfold functionNeedsTree at htree
          simp only [Bool.or_eq_false_iff] at htree
          exact noSpread_of_plain htree.1.2
        have hregs := inRegisters_iff_length hspread
        simp only [Bool.false_eq_true, if_false, false_or]
        cases hpred : predicateArg called args with
        | some arg =>
          have hone : args.length ≤ 16 := by
            unfold predicateArg at hpred
            split at hpred
            · exact Nat.le_add_left 1 15
            · cases hpred
          exact iff_of_true ((kept_predicate hpred).2 ⟨hone, hspread⟩) (.inl hone)
        | none =>
          simp only
          rw [length_compileCallArgs]
          by_cases hlen : args.length ≤ 16
          · -- every path holds the arguments
            refine iff_of_true ?_ (.inl hlen)
            have hin : InRegisters args := ⟨hlen, hspread⟩
            split
            · exact kept_direct.2 hin
            · split
              · exact kept_direct.2 hin
              · exact (kept_resolved kept_runtimeCall hspread).2 (.inl hlen)
          · have hmin : min 16 args.length = 16 := by omega
            have hmath : mathDispatch called 16 = false := by simp [mathDispatch]
            rw [hmin, hmath, or_iff_right hlen]
            by_cases hfound : (F.compiler.find called).map CompiledFunc.argCount = some 16
            · rw [if_pos hfound, kept_direct, hregs]
              exact iff_of_false hlen fun h => h.1 hfound
            · rw [if_neg hfound]
              simp only [Bool.false_eq_true, if_false]
              rw [kept_resolved kept_runtimeCall hspread, or_iff_right hlen]
              exact (and_iff_right hfound).symm

theorem kept_method (object : Node D) (method : Exprtk.Name) :
    Kept args (lowerMethod F object method args) ↔ MethodKept F object method args := by
  unfold lowerMethod MethodKept
  cases htree : methodNeedsTree F object method args with
  | true => exact iff_of_true kept_tree (.inl rfl)
  | false =>
    cases hrecv : hasReceiver F object with
    | false => exact iff_of_true kept_failed (.inr (.inl rfl))
    | true =>
      cases hbridge : oopCallArgsNeedValueBridge F (nodes args) with
      | true => exact iff_of_true kept_tree (.inr (.inr (.inl rfl)))
      | false =>
        have hspread : NoSpread args := by
          unfold methodNeedsTree at htree
          simp only [Bool.or_eq_false_iff, hbridge, Bool.not_false, Bool.and_true] at htree
          exact noSpread_of_plain htree.1.2
        have hcall := @kept_methodCall D F args object method
        simp only [Bool.false_eq_true, if_false, Bool.not_true, false_or, reduceCtorEq]
        unfold emitQualifiedCall
        split
        · rename_i x
          rw [kept_resolved hcall hspread]
          constructor
          · rintro (hlen | hslot)
            · exact .inl hlen
            · exact .inr ⟨x, rfl, hslot⟩
          · rintro (hlen | ⟨y, hy, hslot⟩)
            · exact .inl hlen
            · cases hy
              exact .inr hslot
        · rename_i hvar
          rw [Option.getD_none, hcall, inRegisters_iff_length hspread]
          constructor
          · exact .inl
          · rintro (hlen | ⟨x, hx, -⟩)
            · exact hlen
            · exact absurd hx (hvar x)

theorem kept_value (target : Target D) : Kept args (lowerValue F target args) ↔
    ValueKept F target args := by
  cases target with
  | function name => exact kept_function name
  | method object methodName => exact kept_method object methodName
  | construct | superMethod => exact iff_of_true kept_failed trivial

theorem kept_functionAssign (name : Exprtk.Name) : Kept args (lowerFunctionAssign F name args) ↔
    FunctionAssignKept F name args := by
  unfold lowerFunctionAssign FunctionAssignKept
  by_cases hclass : F.knownClass name
  · simp only [if_pos hclass]
    exact kept_instantiation
  · simp only [if_neg hclass]
    cases hcopy : specializedCall F ⟨name, args⟩ with
    | some r => exact kept_specialized hcopy
    | none =>
      simp only
      by_cases hawait : name = "await"
      · simp only [if_pos hawait]
        exact kept_awaited
      · simp only [if_neg hawait]
        cases hplain : callArgsNeedAstEval F (nodes args) with
        | true => exact iff_of_true kept_tree (.inl rfl)
        | false =>
          cases hvalue : runtimeCallNeedsValueEval F name args.length with
          | true => exact iff_of_true kept_tree (.inr (.inl rfl))
          | false =>
            cases hbridge : callAssignmentNeedsValueBridge F name args.length with
            | true =>
              simp only [Bool.false_eq_true, if_false, if_true, false_or]
              rw [kept_packedCall, inRegisters_iff_length (noSpread_of_plain hplain)]
            | false =>
              simp only [Bool.false_eq_true, if_false, false_or]
              cases exprContainsValueCall F (.functionCall name (nodes args)) with
              | true => exact iff_of_true kept_tree (.inl rfl)
              | false =>
                simp only [Bool.false_eq_true, if_false, false_or]
                exact kept_function name

theorem kept_methodAssign (object : Node D) (method : Exprtk.Name) :
    Kept args (lowerMethodAssign F object method args) ↔ MethodAssignKept F object method args := by
  unfold lowerMethodAssign MethodAssignKept
  cases htree : methodAssignNeedsTree F object method args with
  | true => exact iff_of_true kept_tree (.inl rfl)
  | false =>
    cases hasReceiver F object with
    | false => exact iff_of_true kept_failed (.inr (.inl rfl))
    | true =>
      cases hbridge : oopCallArgsNeedValueBridge F (nodes args) with
      | true => exact iff_of_true kept_tree (.inr (.inr (.inl rfl)))
      | false =>
        have hspread : NoSpread args := by
          unfold methodAssignNeedsTree at htree
          simp only [Bool.or_eq_false_iff, hbridge, Bool.not_false, Bool.and_true] at htree
          exact noSpread_of_plain htree.2
        simp only [Bool.false_eq_true, if_false, Bool.not_true, false_or, reduceCtorEq]
        rw [kept_methodCall, inRegisters_iff_length hspread]

theorem kept_functionReceiver (name : Exprtk.Name) : Kept args (lowerFunctionReceiver F name args) ↔
    FunctionReceiverKept F name args := by
  unfold lowerFunctionReceiver FunctionReceiverKept
  by_cases hclass : F.knownClass name
  · simp only [if_pos hclass]
    exact kept_instantiation
  · simp only [if_neg hclass]
    cases callAssignmentNeedsValueBridge F name args.length with
    | true => simp [kept_packedCall]
    | false => exact iff_of_true kept_failed (.inl rfl)

theorem kept_methodReceiver (object : Node D) : Kept args (lowerMethodReceiver F object args) ↔
    MethodReceiverKept F object args := by
  unfold lowerMethodReceiver MethodReceiverKept
  cases hasReceiver F object with
  | false => exact iff_of_true kept_failed (.inl rfl)
  | true =>
    cases oopCallArgsNeedValueBridge F (nodes args) with
    | true => exact iff_of_true kept_tree (.inr (.inl rfl))
    | false => simp [kept_packedCall]

theorem kept_inlinedMethod (className : Exprtk.Name) (params : List Exprtk.Name) (target : Target D) :
    Kept args (lowerInlined F className params target args) ↔
      (oopInlineExprSupported F className params (target.node args) = false ∨ args.length ≤ 16) := by
  unfold lowerInlined
  cases hsupported : oopInlineExprSupported F className params (target.node args) with
  | false => exact iff_of_true kept_tree (.inl rfl)
  | true =>
    simp only [if_true, reduceCtorEq, false_or]
    have hspread : NoSpread args := by
      cases target with
      | superMethod member =>
        simp only [Target.node, oopInlineExprSupported, Bool.and_eq_true] at hsupported
        exact noSpread_of_supported hsupported.1.2
      | function | method | construct => simp [Target.node, oopInlineExprSupported] at hsupported
    by_cases hlen : 16 < args.length
    · -- the call is replaced by the constant 0
      rw [if_pos hlen, kept_of_receive rfl]
      refine iff_of_false (fun h => ?_) (by omega)
      have hcount : args.length = 0 := by simpa [wants] using h.length_eq
      omega
    · rw [if_neg hlen, kept_of_receive rfl]
      exact iff_of_true (forall₂_registers.2 hspread) (by omega)

/-- **When a call keeps its arguments.** For every call that the lowering meets, in every position
    and whatever the compiler knows, the callee receives exactly the arguments of the call, or the
    compilation fails, if and only if `ArgsKept`. -/
theorem call_args_kept_iff (F : Facts D) (position : Position) (target : Target D) (args : List (Arg D)) :
    Kept args (lowerCall F position target args) ↔ ArgsKept F position target args := by
  cases position with
  | value => exact kept_value target
  | assignment =>
    cases target with
    | function name => exact kept_functionAssign name
    | method object methodName => exact kept_methodAssign object methodName
    | construct className => exact kept_instantiation
    | superMethod member => exact iff_of_true kept_failed trivial
  | constant =>
    show Kept args (if _ then _ else _) ↔ _ ∨ _
    cases exprContainsValueCall F (target.node args) with
    | true => exact iff_of_true kept_tree (.inl rfl)
    | false =>
      simp only [Bool.false_eq_true, if_false, false_or]
      exact kept_value target
  | receiver =>
    cases target with
    | function name => exact kept_functionReceiver name
    | method object methodName => exact kept_methodReceiver object
    | construct className => exact kept_instantiation
    | superMethod member => exact iff_of_true kept_failed trivial
  | inlinedMethod className params => exact kept_inlinedMethod className params target

end Main

section Seventeen

/-- A module whose only compiled function is `f`, with 16 parameters. -/
def sixteenParams : Facts ℚ where
  compiler := {
    astRoot := .block []
    scriptFuncs := []
    isClass := fun _ => false
    envHas := fun _ => false
    compiledFuncs := [⟨"f", 16, [], .block [], []⟩] }
  knownClass := fun _ => false
  funcAlias := fun _ => none
  varClass := fun _ => none
  isDynamic := fun _ => false
  isStream := fun _ => false
  envHasFunc := fun _ => false
  admitsBuiltin := fun _ => false
  findsBuiltin := fun _ => false
  coreCompat := fun _ => false
  native := fun _ => none
  hostSlot := fun _ => none
  inlineable := fun _ _ _ => none
  parentClass := fun _ => none
  intOf := fun x => if x.den = 1 then some x.num else none

/-- The arguments `0, 1, .., 16`. -/
def seventeen : List (Arg ℚ) := (List.range 17).map fun (i : Nat) => (.integer (Int.ofNat i), i)

/-- `f(0, 1, .., 16)` calls the compiled function with its first 16 arguments. -/
theorem seventeenth_dropped :
    ¬ ∀ (F : Facts ℚ) (position : Position) (target : Target ℚ) (args : List (Arg ℚ)),
      Kept args (lowerCall F position target args) := by
  intro h
  have hcode : receive (lowerCall sixteenParams .value (.function "f") seventeen) =
      some ((seventeen.take 16).map .register) := rfl
  have hcount := (h sixteenParams .value (.function "f") seventeen _ hcode).length_eq
  exact absurd hcount (by decide)

/-- The constructor of `c = new C(0, 1, .., 16)` gets 16 numbers too. -/
example : (receive (lowerCall sixteenParams .assignment (.construct "C") seventeen)).map
    List.length = some 16 := by decide

end Seventeen

end TurboScript.Mir.CallPaths
