import BuildGraph.Proofs.Steps

/-!
# The two phases of a target

A run of the tool is resolved before it is lowered. As long as no project that it was resolved in has
its environment, it stays as it was declared. The first project that has it settles the environment
for good, and from then on neither projects that lack it nor projects that define it differently make
a difference (`Objcopy.conversation`). Lowering for an environment given outright is the same in
both phases.
-/

namespace BuildGraph

/-! ## Asking a target -/

namespace Target

/-- What can be asked of a target. -/
inductive Call where
  /-- Its environment, to be found in a project. -/
  | resolve (project : Project)
  /-- The products for the environment that it kept. -/
  | products
  /-- The products for an environment. -/
  | lower (environment : Environment)

/-- What a target answers. -/
inductive Answer where
  | environment (result : Except TargetError Environment)
  | products (result : Except TargetError Products)

/-- The answer to a call, and the target as it is afterwards. -/
def ask (target : Target) : Call → Answer × Target
  | .resolve project => (.environment (target.resolve project).1, (target.resolve project).2)
  | .products => (.products target.products, target)
  | .lower environment => (.products (target.blame (target.lower environment)), target)

/-- The answers to calls one after another, and the target as it is in the end. -/
def askAll (target : Target) : List Call → List Answer × Target
  | [] => ([], target)
  | call :: rest =>
    let (answer, next) := target.ask call
    let (answers, last) := next.askAll rest
    (answer :: answers, last)

variable {target : Target}

theorem askAll_cons (target : Target) (call : Call) (rest : List Call) :
    target.askAll (call :: rest) =
      ((target.ask call).1 :: ((target.ask call).2.askAll rest).1,
        ((target.ask call).2.askAll rest).2) :=
  rfl

theorem askAll_append (target : Target) (before after : List Call) :
    target.askAll (before ++ after) =
      ((target.askAll before).1 ++ ((target.askAll before).2.askAll after).1,
        ((target.askAll before).2.askAll after).2) := by
  induction before generalizing target with
  | nil => rfl
  | cons call before ih =>
    rw [List.cons_append, askAll_cons, ih, askAll_cons]
    rfl

/-- Calls that leave the target as it is are answered one by one. -/
theorem askAll_of_forall_ask {calls : List Call} {reply : Call → Answer}
    (h : ∀ call ∈ calls, target.ask call = (reply call, target)) :
    target.askAll calls = (calls.map reply, target) := by
  induction calls with
  | nil => rfl
  | cons call calls ih =>
    obtain ⟨hcall, hcalls⟩ := List.forall_mem_cons.mp h
    rw [askAll_cons, hcall, ih hcalls]
    rfl

end Target

/-! ## Runs of the tool -/

namespace Objcopy

open Target (Call Answer)

variable {run : Objcopy} {project : Project} {environment : Environment}

/-- The environment that a project gives to the name that the run refers to. -/
def environmentIn? (run : Objcopy) (project : Project) : Option Environment :=
  project.environments.get? run.environment

/-- The products of the run for an environment. -/
def productsFor (run : Objcopy) (environment : Environment) : Except TargetError Products :=
  match environment.get? toolKey with
  | none => .error ⟨run.label, .missingToolBinding toolKey⟩
  | some tool => .ok { exports := announcement run.label, edges := [run.edge tool] }

/-- The answer to a call once an environment is settled, or before any is. -/
def reply (run : Objcopy) (settled : Option Environment) : Call → Answer
  | .resolve _ => .environment <| match settled with
    | none => .error ⟨run.label, .unknownEnvironment run.environment⟩
    | some environment => .ok environment
  | .products => .products <| match settled with
    | none => .error ⟨run.label, .notResolved⟩
    | some environment => run.productsFor environment
  | .lower environment => .products (run.productsFor environment)

/-- The target of a run that is settled. -/
def settled (run : Objcopy) (environment : Environment) : Target :=
  { run.target with resolved := some environment }

/-- No project in which the calls resolve the run has its environment. -/
def Misses (run : Objcopy) (calls : List Call) : Prop :=
  ∀ project, .resolve project ∈ calls → run.environmentIn? project = none

/-- What a run answers to a sequence of calls, and the target as it is in the end. -/
inductive Conversation (run : Objcopy) : List Call → List Answer → Target → Prop
  /-- The environment is never found. -/
  | unsettled {calls : List Call} : run.Misses calls →
    Conversation run calls (calls.map (run.reply none)) run.target
  /-- The first project that has the environment settles it. -/
  | settled {before after : List Call} {project : Project} {environment : Environment} :
    run.Misses before → run.environmentIn? project = some environment →
    Conversation run (before ++ .resolve project :: after)
      (before.map (run.reply none) ++
        (.resolve project :: after).map (run.reply (some environment)))
      (run.settled environment)

/-! ## What one call does -/

theorem misses_nil : run.Misses [] := fun _ h => absurd h List.not_mem_nil

theorem misses_cons {call : Call} {calls : List Call} :
    run.Misses (call :: calls) ↔ run.Misses [call] ∧ run.Misses calls := by
  simp only [Misses, List.mem_cons, List.not_mem_nil, or_false, or_imp, forall_and]

theorem blame_lower (run : Objcopy) (environment : Environment) :
    run.target.blame (run.lower environment) = run.productsFor environment := by
  rw [lower, productsFor]
  cases environment.get? toolKey <;> rfl

/-- Before an environment is settled, a call leaves the run as it is, unless a project has it. -/
theorem ask_target {call : Call} (h : run.Misses [call]) :
    run.target.ask call = (run.reply none call, run.target) := by
  cases call with
  | resolve project =>
    have hres := (Step.objcopy run).resolve_eq project
    have hnone : project.environments.get? run.environment = none :=
      h project (List.mem_singleton_self _)
    simp only [Step.environment, findEnvironment_eq, hnone] at hres
    exact congrArg (fun r => (Answer.environment r.1, r.2)) hres
  | products => rfl
  | lower environment =>
    exact congrArg (fun r => (Answer.products r, run.target)) (run.blame_lower environment)

/-- The first project that has the environment settles it. -/
theorem ask_resolve (h : run.environmentIn? project = some environment) :
    run.target.ask (.resolve project) =
      (.environment (.ok environment), run.settled environment) := by
  have hres := (Step.objcopy run).resolve_eq project
  have hsome : project.environments.get? run.environment = some environment := h
  simp only [Step.environment, findEnvironment_eq, hsome] at hres
  exact congrArg (fun r => (Answer.environment r.1, r.2)) hres

/-- A settled run stays so, whatever project it is resolved in. -/
theorem ask_settled (run : Objcopy) (environment : Environment) (call : Call) :
    (run.settled environment).ask call =
      (run.reply (some environment) call, run.settled environment) := by
  cases call with
  | resolve project => rfl
  | products =>
    exact congrArg (fun r => (Answer.products r, run.settled environment))
      ((Step.objcopy run).products_eq environment)
  | lower other =>
    exact congrArg (fun r => (Answer.products r, run.settled environment)) (run.blame_lower other)

/-! ## What a sequence of calls does -/

theorem askAll_target {calls : List Call} (h : run.Misses calls) :
    run.target.askAll calls = (calls.map (run.reply none), run.target) := by
  refine Target.askAll_of_forall_ask fun call hcall => ask_target fun project hproject => ?_
  exact h project (List.mem_singleton.mp hproject ▸ hcall)

theorem askAll_settled (run : Objcopy) (environment : Environment) (calls : List Call) :
    (run.settled environment).askAll calls =
      (calls.map (run.reply (some environment)), run.settled environment) :=
  Target.askAll_of_forall_ask fun call _ => run.ask_settled environment call

/-- Either the environment is never found, or there is a first project that has it. -/
theorem misses_or_exists_first (run : Objcopy) (calls : List Call) :
    run.Misses calls ∨ ∃ before project after environment,
      calls = before ++ .resolve project :: after ∧ run.Misses before ∧
        run.environmentIn? project = some environment := by
  induction calls with
  | nil => exact .inl misses_nil
  | cons call rest ih =>
    by_cases hcall : run.Misses [call]
    · rcases ih with hrest | ⟨before, project, after, environment, rfl, hbefore, hfirst⟩
      · exact .inl (misses_cons.mpr ⟨hcall, hrest⟩)
      · exact .inr ⟨call :: before, project, after, environment, rfl,
          misses_cons.mpr ⟨hcall, hbefore⟩, hfirst⟩
    · simp only [Misses, List.mem_singleton, not_forall] at hcall
      obtain ⟨project, rfl, hfirst⟩ := hcall
      obtain ⟨environment, hfirst⟩ := Option.ne_none_iff_exists'.mp hfirst
      exact .inr ⟨[], project, rest, environment, rfl, misses_nil, hfirst⟩

/-- Every conversation with a run has two phases, of which the second may be missing. -/
theorem conversation (run : Objcopy) (calls : List Call) :
    run.Conversation calls (run.target.askAll calls).1 (run.target.askAll calls).2 := by
  rcases run.misses_or_exists_first calls with
    h | ⟨before, project, after, environment, rfl, hbefore, hfirst⟩
  · rw [askAll_target h]
    exact .unsettled h
  · rw [Target.askAll_append, askAll_target hbefore, Target.askAll_cons, ask_resolve hfirst,
      askAll_settled]
    exact .settled hbefore hfirst

end Objcopy

end BuildGraph
