import ScopedNames.Proofs.Import.Evolution
import ScopedNames.Proofs.Project.Session

set_option autoImplicit false

namespace ScopedNames

/-- A step that fails leaves the state as it was, and one that succeeds makes another of it. -/
structure Step.Atomic {σ ε α : Type} (state : σ) (makes : σ → Prop) (step : Step σ ε α) :
    Prop where
  failed : ∀ reason, step.answer = .error reason → step.state = state
  succeeded : ∀ value, step.answer = .ok value → makes step.state

namespace Step

variable {σ τ ε α β : Type} {state : σ} {makes : σ → Prop} {act : Action σ ε α}
  {events : List Event}

theorem atomic_step (whole : act.AllOrNothing state)
    (succeeds : ∀ value next, act.outcome state = .ok (value, next) → makes next) :
    ((act state).step events).Atomic state makes := by
  refine ⟨fun reason failed => ?_, fun value made => ?_⟩
  · have ended : (act state).answer = .error reason := failed
    exact whole.state_eq (by simp [ended])
  · exact succeeds value _ (Action.outcome_eq_ok_iff.mpr ⟨made, rfl⟩)

theorem atomic_reportStep {config : Config} {describe : ε → Option Diagnostic}
    (whole : act.AllOrNothing state)
    (succeeds : ∀ value next, act.outcome state = .ok (value, next) → makes next) :
    (config.reportStep describe (act state) events).Atomic state makes := by
  refine ⟨fun reason failed => whole.state_eq fun value answered => ?_, fun value made => ?_⟩
  · have made : (config.report describe (act state).answer events).value = .ok value :=
      Config.report_eq_ok_iff.mpr answered
    cases made.symm.trans failed
  · have answered := Config.report_eq_ok_iff.mp made
    exact succeeds value _ (Action.outcome_eq_ok_iff.mpr ⟨answered, rfl⟩)

theorem Atomic.lift {step : Step σ ε α} {place : σ → τ} {tell : α → β} {also : τ → Prop}
    (atomic : step.Atomic state makes) (carried : ∀ next, makes next → also (place next)) :
    (step.lift place tell).Atomic (place state) also := by
  refine ⟨fun reason failed => ?_, fun value made => ?_⟩
  · exact congrArg place (atomic.failed reason (Outcome.map_eq_error_iff.mp failed))
  · cases answered : step.answer with
    | ok known => exact carried _ (atomic.succeeded known answered)
    | error reason => simp [Step.lift, answered, Outcome.map] at made
    | stray => simp [Step.lift, answered, Outcome.map] at made

end Step

/-- The call that hands a directive to a project. -/
def Directive.call : Directive → Call
  | .collect step => .collect step
  | .importPath request => .importPath request
  | .importGlob request => .importGlob request

theorem Directive.importing?_of_step? {tree : Tree} {directive : Directive} {step : ImportStep}
    (asked : directive.step? tree = some step) (asks : directive.isSettle = false) :
    ∃ importing, step.importing? = some importing := by
  cases step with
  | importPath importing _ _ _ => exact ⟨importing, rfl⟩
  | importGlob importing _ => exact ⟨importing, rfl⟩
  | importGlobPath importing _ => exact ⟨importing, rfl⟩
  | settle =>
    cases directive with
    | collect known =>
      cases asked
      cases asks
    | importPath request => simp [step?] at asked
    | importGlob request => simp [step?] at asked

namespace Linking

/-- What a directive that succeeds makes of a linking: the imports of one scope evolve, and one glob
may be remembered. -/
structure Advances (linking : Linking) (directive : Directive) (next : Linking) : Prop where
  config : next.config = linking.config
  tree : next.tree = linking.tree
  imports : ∃ step importing, directive.step? linking.tree = some step ∧
    step.importing? = some importing ∧ linking.imports.Evolves (· = importing) next.imports ∧
    (next.imports.globs = linking.imports.globs ∨
      ∃ glob, step.Globs linking.tree glob ∧ next.imports.globs = linking.imports.globs ++ [glob])

/-- What finishing makes of a linking: the imports of scopes that import by globs evolve, but for
those that are explicit. -/
structure Settles (linking : Linking) (project : Project) : Prop where
  config : project.config = linking.config
  tree : project.tree = linking.tree
  imports : linking.imports.Evolves (Glob.Into linking.imports.globs) project.imports
  globs : project.imports.globs = linking.imports.globs
  explicit : ∀ scope name,
    project.imports.explicit? scope name = linking.imports.explicit? scope name

variable {linking next : Linking} {directive : Directive}

theorem advances_of_take (distinct : linking.imports.Distinct)
    (asks : directive.isSettle = false) (taken : linking.take directive = .ok next) :
    linking.Advances directive next := by
  obtain ⟨step, asked, imports, made, rfl⟩ := take_eq_ok_iff.mp taken
  obtain ⟨importing, named⟩ := Directive.importing?_of_step? asked asks
  have evolves : linking.imports.Evolves (· = importing) imports := by
    refine (Imports.evolves_take made).mono fun scope touched => ?_
    rwa [ImportStep.Touches, named] at touched
  exact ⟨rfl, rfl, step, importing, asked, named, evolves, Imports.globs_take distinct made⟩

/-- The three ways to hand a directive to a project differ in what they answer and report. -/
theorem atomic_call (sized : linking.imports.tables.size = linking.tree.scopes.size)
    (directive : Directive) :
    ∃ step, linking.call? directive.call = some step ∧
      step.Atomic (.importing linking) fun session =>
        ∃ next, session = .importing next ∧ linking.take directive = .ok next := by
  have placed (next : Linking) (taken : linking.take directive = .ok next) :
      ∃ other, Session.importing next = .importing other ∧ linking.take directive = .ok other :=
    ⟨next, rfl, taken⟩
  cases directive with
  | collect step =>
    have whole := allOrNothing_collecting (Imports.allOrNothing_act sized step)
    refine ⟨_, rfl, (Step.atomic_step whole fun found next made => ?_).lift placed⟩
    obtain ⟨⟨answer, imports⟩, wrapped, same⟩ :=
      Outcome.bind_eq_ok.mp ((outcome_collecting ..).symm.trans made)
    cases same
    have responded := Outcome.mapError_eq_ok_iff.mp wrapped
    exact take_eq_ok_iff.mpr ⟨step, rfl, imports, (Imports.respond_eq_ok_iff.mp responded).1, rfl⟩
  | importPath request =>
    have whole := allOrNothing_inScope
      (fun scope => Imports.allOrNothing_importPath linking.imports linking.tree scope request.path
        request.asName request.reexport) linking.tree request.scope
    refine ⟨_, rfl, (Step.atomic_reportStep whole fun decl next made => ?_).lift placed⟩
    exact Config.after_reportStep_eq_ok_iff.mpr ⟨decl, made⟩
  | importGlob request =>
    have whole := allOrNothing_inScope
      (fun scope => Imports.allOrNothing_importGlobPath sized scope request.target) linking.tree
        request.scope
    refine ⟨_, rfl, (Step.atomic_reportStep whole fun nothing next made => ?_).lift placed⟩
    exact Config.after_reportStep_eq_ok_iff.mpr ⟨nothing, made⟩

end Linking

namespace Session

/-- Wherever calls have led, a directive fails and changes nothing, or it adds to the imports of the
one scope that it names. Finishing never fails, and adds claims alone. -/
theorem directives_atomic {config : Config} {calls : List Call} {linking : Linking}
    (reached : run config calls = .importing linking) :
    (∀ directive, directive.isSettle = false →
      ∃ step, linking.call? directive.call = some step ∧
        step.Atomic (.importing linking) fun session =>
          ∃ next, session = .importing next ∧ linking.Advances directive next) ∧
    ∃ step project, linking.call? .finish = some step ∧ step.answer = .ok none ∧
      step.state = .finished project ∧ linking.Settles project := by
  have valid : (importing linking).Valid config := reached ▸ valid_run config calls
  have faithful := valid.2.faithful
  refine ⟨fun directive asks => ?_, ?_⟩
  · obtain ⟨step, taken, atomic⟩ := Linking.atomic_call faithful.sized directive
    refine ⟨step, taken, atomic.failed, fun value answered => ?_⟩
    obtain ⟨next, placed, made⟩ := atomic.succeeded value answered
    exact ⟨next, placed, Linking.advances_of_take faithful.distinct asks made⟩
  · obtain ⟨settled, ran⟩ := faithful.exists_settle
    have absorbs := Imports.absorbs_settle faithful.distinct ran
    let project : Project := ⟨linking.config, linking.tree, settled⟩
    have settles : linking.Settles project :=
      ⟨rfl, rfl, Imports.evolves_globs ran, absorbs.globs, absorbs.explicit?⟩
    obtain ⟨told, finished⟩ : ∃ told, linking.finish = some ⟨project, told⟩ :=
      ⟨_, by rw [Linking.finish, ran]; rfl⟩
    have taken : linking.call? .finish = some ⟨.finished project, .ok none, told⟩ := by
      rw [Linking.call?, finished]
    exact ⟨_, project, taken, rfl, rfl, settles⟩

/-- The calls that build the storefront, in which `user` imports all of `facade` too early. -/
def storefrontCalls : List Call :=
  [.declareIn (.declareScope Tree.root "facade" .everyone),
    .declareIn (.declareScope ⟨1⟩ "imp" .insiders),
    .declareIn (.declare ⟨2⟩ "Thing" (.type 0) .everyone),
    .declareIn (.declareScope Tree.root "other" .everyone),
    .declareIn (.declare ⟨3⟩ "Thing" (.value 0) .everyone),
    .declareIn (.declareScope Tree.root "user" .everyone), .complete] ++
      Tree.storefrontSteps.map .collect

/-- `facade` is to import the other `Thing` beside its own. -/
def otherThing : ImportRequest := ⟨["facade"], ⟨.absolute, ["other"], "Thing"⟩, none, false⟩

/-- `user` is to import all of `facade` once more. -/
def facadeAgain : GlobRequest := ⟨["user"], ⟨.absolute, [], "facade"⟩⟩

/-- The one fails and changes nothing. The other puts the `Thing` of `facade` behind the one that
`user` has, and is remembered already. -/
theorem storefront_advances :
    ∃ linking, run .standard storefrontCalls = .importing linking ∧
      (∃ step, linking.call? (.importPath otherThing) = some step ∧
        step.answer = .error (.imports (.conflict "Thing" ⟨1⟩ ⟨2⟩ ⟨4⟩)) ∧
        step.state = .importing linking) ∧
      (∃ step next, linking.call? (.importGlob facadeAgain) = some step ∧
        step.state = .importing next ∧ linking.Advances (.importGlob facadeAgain) next ∧
        next.imports.globs = linking.imports.globs ∧
        linking.imports.binding? ⟨4⟩ "Thing" = some (.globbed ⟨⟨4⟩, ⟨3⟩⟩ []) ∧
        next.imports.binding? ⟨4⟩ "Thing" = some (.globbed ⟨⟨4⟩, ⟨3⟩⟩ [⟨⟨2⟩, ⟨1⟩⟩])) ∧
      ∃ project, linking.Settles project := by
  let linking : Linking :=
    ⟨.standard, .storefront, Tree.storefront.collect Tree.storefrontSteps⟩
  have reached : run .standard storefrontCalls = .importing linking := by decide +kernel
  obtain ⟨single, _, project, _, _, _, settles⟩ := directives_atomic reached
  refine ⟨linking, reached, ?_, ?_, project, settles⟩
  · obtain ⟨step, taken, failed⟩ : ∃ step, linking.call? (.importPath otherThing) = some step ∧
        step.answer = .error (.imports (.conflict "Thing" ⟨1⟩ ⟨2⟩ ⟨4⟩)) := ⟨_, rfl, rfl⟩
    obtain ⟨other, again, atomic⟩ := single (.importPath otherThing) rfl
    cases taken.symm.trans again
    exact ⟨step, taken, failed, atomic.failed _ failed⟩
  · obtain ⟨step, next, taken, answered, left, globs, before, after⟩ : ∃ step next,
        linking.call? (.importGlob facadeAgain) = some step ∧
        step.answer = .ok none ∧ step.state = .importing next ∧
        next.imports.globs = linking.imports.globs ∧
        linking.imports.binding? ⟨4⟩ "Thing" = some (.globbed ⟨⟨4⟩, ⟨3⟩⟩ []) ∧
        next.imports.binding? ⟨4⟩ "Thing" = some (.globbed ⟨⟨4⟩, ⟨3⟩⟩ [⟨⟨2⟩, ⟨1⟩⟩]) :=
      ⟨_, _, rfl, rfl, rfl, rfl, rfl, rfl⟩
    obtain ⟨other, again, atomic⟩ := single (.importGlob facadeAgain) rfl
    cases taken.symm.trans again
    obtain ⟨last, placed, advances⟩ := atomic.succeeded none answered
    cases left.symm.trans placed
    exact ⟨step, next, taken, left, advances, globs, before, after⟩

end Session

end ScopedNames
