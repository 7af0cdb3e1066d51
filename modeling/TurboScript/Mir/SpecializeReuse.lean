import TurboScript.Mir.Specialize

/- Which call sites of higher-order functions share a compiled copy.

   Two call sites share a key without sharing callee and functions exactly when the names in the
   calls differ and their words do not (`shared_key_iff`). -/
namespace TurboScript.Mir.Specialize
open Exprtk (Node)

section Pairs
variable {D : Type} {c : Compiler D}

/-- The names of the functions that a call passes for the parameters its callee calls. -/
def functionArgNames (body : Node D) : List (Node D) → List (Node D × Nat) → List Exprtk.Name
  | param :: params, arg :: args =>
    if callsParamFunction body [param] then argName arg :: functionArgNames body params args
    else functionArgNames body params args
  | _, _ => []

/-- The names in a call: the callee, then the functions passed for the parameters it calls. -/
def siteNames (c : Compiler D) (site : CallSite D) : List Exprtk.Name :=
  site.name :: match c.findCallee site.name with
    | some callee => functionArgNames callee.body callee.params site.args
    | none => []

def functionParams (body : Node D) (params : List (Node D)) : List Exprtk.Name :=
  params.filterMap fun param => match param with
    | .varRef x => if callsParamFunction body [.varRef x] then some x else none
    | _ => none

theorem matchParams_spec {body : Node D} : ∀ {params : List (Node D)} {args : List (Node D × Nat)}
    {i : Nat} {r : List FuncAlias × List Nat}, matchParams c body i params args = some r →
    r.1.map FuncAlias.targetName = functionArgNames body params args ∧
      r.1.map FuncAlias.paramName = functionParams body params ∧
      ∀ a ∈ r.1, ∃ f, c.find a.targetName = some f := by
  intro params args i r h
  induction params generalizing args i r with
  | nil =>
    cases h
    exact ⟨by cases args <;> rfl, rfl, fun a ha => nomatch ha⟩
  | cons param params ih =>
    obtain ⟨x, arg, rest, rfl, rfl, ⟨hcalls, target, r', htarget, -, hr', rfl⟩ |
      ⟨hcalls, r', hr', rfl⟩⟩ := matchParams_cons h
    · obtain ⟨htargets, hparams, hfound⟩ := ih hr'
      obtain ⟨rfl, hf⟩ := resolveFunctionArg_cases htarget
      refine ⟨?_, ?_, ?_⟩
      · simp [functionArgNames, hcalls, htargets]
      · simpa [functionParams, hcalls] using hparams
      · intro a ha
        rcases List.mem_cons.1 ha with rfl | ha
        · exact hf
        · exact hfound a ha
    · obtain ⟨htargets, hparams, hfound⟩ := ih hr'
      refine ⟨?_, ?_, hfound⟩
      · simp [functionArgNames, hcalls, htargets]
      · simpa [functionParams, hcalls] using hparams

variable {site : CallSite D} {p : Specialization D}

theorem specialize_cases (h : specialize c site = some p) : c.findCallee site.name = some p.callee ∧
      matchParams c p.callee.body 0 p.callee.params site.args = some (p.aliases, p.numericArgs) ∧
      buildHofSpecializationKey site.name (p.aliases.map FuncAlias.targetName) = some p.key := by
  obtain ⟨callee, hcallee, h⟩ := Option.bind_eq_some_iff.1 h
  split at h
  · cases h
  · obtain ⟨r, hr, h⟩ := Option.bind_eq_some_iff.1 h
    obtain ⟨key, hkey, rfl⟩ := Option.map_eq_some_iff.1 h
    exact ⟨hcallee, hr, hkey⟩

theorem siteNames_of_specialize (h : specialize c site = some p) :
    siteNames c site = site.name :: p.aliases.map FuncAlias.targetName := by
  obtain ⟨hcallee, hmatch, -⟩ := specialize_cases h
  rw [(matchParams_spec hmatch).1, siteNames, hcallee]

theorem siteNames_extend (more : List (CompiledFunc D)) (site : CallSite D) :
    siteNames (c.extend more) site = siteNames c site := rfl

theorem key_eq_iff_words {site' : CallSite D} {p' : Specialization D}
    {more : List (CompiledFunc D)} (h : specialize c site = some p)
    (h' : specialize (c.extend more) site' = some p') :
    p.key = p'.key ↔ keyWords (siteNames c site) = keyWords (siteNames c site') := by
  rw [← siteNames_extend more site', siteNames_of_specialize h, siteNames_of_specialize h']
  exact key_eq_iff (specialize_cases h).2.2 (specialize_cases h').2.2

theorem same_iff_names {site' : CallSite D} {p' : Specialization D} {more : List (CompiledFunc D)}
    (h : specialize c site = some p) (h' : specialize (c.extend more) site' = some p') :
    (p.callee = p'.callee ∧ p.targets c = p'.targets (c.extend more)) ↔
      siteNames c site = siteNames c site' := by
  obtain ⟨hcallee, hmatch, -⟩ := specialize_cases h
  obtain ⟨hcallee', hmatch', -⟩ := specialize_cases h'
  have hfound := (matchParams_spec hmatch).2.2
  have hfound' := (matchParams_spec hmatch').2.2
  rw [← siteNames_extend more site', siteNames_of_specialize h, siteNames_of_specialize h',
    List.cons_eq_cons]
  -- a function that was found carries the name it was looked up by
  have hnames : ∀ {c : Compiler D} {aliases : List FuncAlias},
      (∀ a ∈ aliases, ∃ f, c.find a.targetName = some f) →
      (aliases.map fun a => c.find a.targetName).map (fun f => f.map CompiledFunc.name) =
        (aliases.map FuncAlias.targetName).map some := by
    intro c aliases hall
    rw [List.map_map, List.map_map]
    apply List.map_congr_left
    intro a ha
    obtain ⟨f, hf⟩ := hall a ha
    show (c.find a.targetName).map CompiledFunc.name = some a.targetName
    rw [hf, Option.map_some, name_of_find hf]
  constructor
  · rintro ⟨hc, ht⟩
    constructor
    · rw [← name_of_findCallee hcallee, ← name_of_findCallee hcallee', hc]
    · apply List.map_injective_iff.2 (Option.some_injective Exprtk.Name)
      rw [← hnames hfound, ← hnames hfound']
      exact congrArg _ ht
  · rintro ⟨hname, hargs⟩
    constructor
    · rw [findCallee_extend, ← hname, hcallee] at hcallee'
      exact Option.some.inj hcallee'
    · have hkeep : p.targets c = (p.aliases.map FuncAlias.targetName).map (c.extend more).find := by
        rw [List.map_map]
        apply List.map_congr_left
        intro a ha
        obtain ⟨f, hf⟩ := hfound a ha
        show c.find a.targetName = (c.extend more).find a.targetName
        rw [hf, find_extend hf more]
      rw [hkeep, hargs, List.map_map]
      rfl

/-- **When a shared key means shared functions.** Of two call sites that are specialised, at any
    two moments of one compilation, a common key implies the same callee and the same compiled
    functions for the arguments exactly when the names of the calls are the same or differ in
    their words. -/
theorem shared_key_iff (c : Compiler D) (more : List (CompiledFunc D)) (site site' : CallSite D)
    (p p' : Specialization D) (h : specialize c site = some p)
    (h' : specialize (c.extend more) site' = some p') :
    (p.key = p'.key → p.callee = p'.callee ∧ p.targets c = p'.targets (c.extend more)) ↔
      (siteNames c site = siteNames c site' ∨
        keyWords (siteNames c site) ≠ keyWords (siteNames c site')) := by
  rw [key_eq_iff_words h h', same_iff_names h h']
  constructor
  · intro himp
    by_cases hw : keyWords (siteNames c site) = keyWords (siteNames c site')
    · exact .inl (himp hw)
    · exact .inr hw
  · rintro (hsame | hne) hw
    · exact hsame
    · exact absurd hw hne

end Pairs

section Collision

/-- The body of `function (x) { return x + offset; }`. -/
def plusConstant (offset : Int) : Node ℚ :=
  .flowReturn (some (.binary .plus (some (.varRef "x")) (.integer offset)))

/-- The body of `function h(f, g, x) { return f(x) + g(x); }`. -/
def sumOfCalls : Node ℚ :=
  .flowReturn (some (.binary .plus (some (.functionCall "f" [.varRef "x"]))
    (.functionCall "g" [.varRef "x"])))

def sumOfCallsParams : List (Node ℚ) := [.varRef "f", .varRef "g", .varRef "x"]

/-- The call `h(first, second, 1)`. -/
def callOfH (first second : Exprtk.Name) : CallSite ℚ :=
  ⟨"h", [(.varRef first, 1), (.varRef second, 2), (.integer 1, 3)]⟩

/-- A module that defines `h` and the functions `a`, `b_c`, `a_b` and `c`, after the functions
    that are not higher-order were compiled. -/
def moduleOfH : Compiler ℚ where
  astRoot := .block [
    .functionDefinition "a" [.varRef "x"] (plusConstant 1),
    .functionDefinition "b_c" [.varRef "x"] (plusConstant 2),
    .functionDefinition "a_b" [.varRef "x"] (plusConstant 3),
    .functionDefinition "c" [.varRef "x"] (plusConstant 4),
    .functionDefinition "h" sumOfCallsParams sumOfCalls]
  scriptFuncs := []
  isClass := fun _ => false
  envHas := fun _ => false
  compiledFuncs := [
    ⟨"a", 1, [.varRef "x"], plusConstant 1, []⟩, ⟨"b_c", 1, [.varRef "x"], plusConstant 2, []⟩,
    ⟨"a_b", 1, [.varRef "x"], plusConstant 3, []⟩, ⟨"c", 1, [.varRef "x"], plusConstant 4, []⟩]

/-- What `h(first, second, 1)` is specialised to. -/
def callOfHSpecialized (first second key : Exprtk.Name) : Specialization ℚ :=
  ⟨.node "h" sumOfCallsParams sumOfCalls, [⟨"f", first⟩, ⟨"g", second⟩], [2], key⟩

/-- `h(a, b_c, 1)` and `h(a_b, c, 1)` have one key. -/
theorem ambiguous_key : ¬ ∀ (c : Compiler ℚ) (more : List (CompiledFunc ℚ)) (site site' : CallSite ℚ)
      (p p' : Specialization ℚ), specialize c site = some p →
      specialize (c.extend more) site' = some p' → p.key = p'.key →
      p.callee = p'.callee ∧ p.targets c = p'.targets (c.extend more) := by
  intro h
  have hsame := (h moduleOfH [] (callOfH "a" "b_c") (callOfH "a_b" "c")
    (callOfHSpecialized "a" "b_c" "__hof_h_a_b_c") (callOfHSpecialized "a_b" "c" "__hof_h_a_b_c")
    rfl rfl rfl).2
  have hnames := congrArg (fun fs => fs.map fun f => f.map CompiledFunc.name) hsame
  exact absurd hnames (by decide)

/-- `h(a, c, 1)` and `h(a_b, c, 1)` do not share a key. -/
theorem shared_key_distinct :
    let p := callOfHSpecialized "a" "c" "__hof_h_a_c"
    let p' := callOfHSpecialized "a_b" "c" "__hof_h_a_b_c"
    p.key = p'.key → p.callee = p'.callee ∧ p.targets moduleOfH = p'.targets (moduleOfH.extend []) :=
  (shared_key_iff moduleOfH [] (callOfH "a" "c") (callOfH "a_b" "c")
    (callOfHSpecialized "a" "c" "__hof_h_a_c") (callOfHSpecialized "a_b" "c" "__hof_h_a_b_c")
    rfl rfl).2 (.inr (by decide))

end Collision

end TurboScript.Mir.Specialize
