import ScopedNames.Project
import ScopedNames.Proofs.Log.Events

set_option autoImplicit false

namespace ScopedNames

section Report

variable {σ ε α : Type}

/-- The report of a failure, if the configuration asks for one. -/
def Config.reports (config : Config) (describe : ε → Option Diagnostic) : Outcome ε α → List Event
  | .error reason => if config.reportsErrors then (describe reason).toList.map .reported else []
  | .ok _ | .stray => []

theorem Config.isReport_of_mem_reports {config : Config} {describe : ε → Option Diagnostic}
    {answer : Outcome ε α} {event : Event} (listed : event ∈ config.reports describe answer) :
    event.isReport = true := by
  cases answer with
  | ok value => cases listed
  | stray => cases listed
  | error reason =>
    rw [reports] at listed
    split at listed
    · obtain ⟨diagnostic, _, rfl⟩ := List.mem_map.mp listed
      rfl
    · cases listed

/-- The answer of an operation, told in other terms. -/
def Outcome.map {β : Type} (tell : α → β) : Outcome ε α → Outcome ε β
  | .ok value => .ok (tell value)
  | .error reason => .error reason
  | .stray => .stray

/-- What an operation does, carried over to other states. -/
def Effect.mapState {τ : Type} (image : σ → τ) (made : Effect σ ε α) : Effect τ ε α :=
  ⟨made.answer, image made.state⟩

/-- The step of an operation that reports nothing. -/
def Effect.step (made : Effect σ ε α) (events : List Event) : Step σ ε α :=
  ⟨made.state, made.answer, events⟩

/-- A step of a phase, seen from outside of it. -/
def Step.lift {τ β : Type} (place : σ → τ) (tell : α → β) (step : Step σ ε α) : Step τ ε β :=
  ⟨place step.state, step.answer.map tell, step.events⟩

@[simp] theorem Outcome.map_eq_error_iff {β : Type} {tell : α → β} {answer : Outcome ε α}
    {reason : ε} : answer.map tell = .error reason ↔ answer = .error reason := by
  cases answer <;> simp [map]

theorem Config.reports_map {β : Type} (config : Config) (describe : ε → Option Diagnostic)
    (answer : Outcome ε α) (tell : α → β) :
    config.reports describe (answer.map tell) = config.reports describe answer := by
  cases answer <;> rfl

variable {config : Config} {describe : ε → Option Diagnostic} {events : List Event}

/-- An error that can be described is given all the same, and reported if it should be. -/
theorem Config.report_eq {answer : Outcome ε α}
    (described : ∀ reason, answer = .error reason → IsError (describe reason)) :
    config.report describe answer events = ⟨answer, events ++ config.reports describe answer⟩ := by
  cases answer with
  | ok value => simp [report, reports]
  | stray => simp [report, reports]
  | error reason =>
    obtain ⟨diagnostic, known, _⟩ := described reason rfl
    by_cases switch : config.reportsErrors = true
    · simp [report, reports, switch, known]
    · simp [report, reports, switch]

theorem Config.reportStep_eq {made : Effect σ ε α}
    (described : ∀ reason, made.answer = .error reason → IsError (describe reason)) :
    config.reportStep describe made events =
      made.step (events ++ config.reports describe made.answer) := by
  rw [reportStep, report_eq described]
  rfl

theorem Config.reports_of_quiet (quiet : config.reportsErrors = false)
    (describe : ε → Option Diagnostic) (answer : Outcome ε α) :
    config.reports describe answer = [] := by
  cases answer <;> simp [reports, quiet]

end Report

namespace Step

section Reports

variable {σ τ ε α β δ : Type} {config : Config} {describe : σ → ε → Option Diagnostic}

/-- The events of a step follow what it does, but for the report of its failure, which comes last.
The failure can be described in the state that the step leaves behind. -/
structure Reports (config : Config) (describe : σ → ε → Option Diagnostic) (step : Step σ ε α) :
    Prop where
  events : ∃ told, (∀ event ∈ told, event.isReport = false) ∧
    step.events = told ++ config.reports (describe step.state) step.answer
  described : ∀ reason, step.answer = .error reason → IsError (describe step.state reason)

/-- By induction along the requests: those that succeed report nothing, and the first that fails is
the last. -/
theorem Reports.all {step : σ → δ → Step σ ε α} {valid : σ → Prop}
    (each : ∀ state request, valid state → (step state request).Reports config describe)
    (kept : ∀ state request, valid state → valid (step state request).state)
    (requests : List δ) {state : σ} (start : valid state) :
    (Step.all step state requests).Reports config describe := by
  induction requests generalizing state with
  | nil => exact ⟨⟨[], by simp, rfl⟩, by simp [Step.all]⟩
  | cons request requests ih =>
    obtain ⟨⟨told, plain, events⟩, described⟩ := each state request start
    obtain ⟨⟨more, simple, later⟩, last⟩ := ih (kept state request start)
    rw [Step.all]
    cases answered : (step state request).answer with
    | ok value =>
      rw [answered, Config.reports, List.append_nil] at events
      refine ⟨⟨told ++ more, ?_, ?_⟩, last⟩
      · exact List.forall_mem_append.mpr ⟨plain, simple⟩
      · simp only [events, later, List.append_assoc]
    | error reason =>
      rw [answered] at events
      refine ⟨⟨told, plain, events⟩, fun other failed => ?_⟩
      cases failed
      exact described reason answered
    | stray =>
      rw [answered] at events
      exact ⟨⟨told, plain, events⟩, by simp⟩

/-- What fails leaves the state as it was, so that the failure can be described as well as before.
-/
theorem reports_reportStep {act : Action σ ε α} {state : σ} {told : List Event}
    (whole : act.AllOrNothing state)
    (described : ∀ reason, (act state).answer = .error reason → IsError (describe state reason))
    (plain : ∀ event ∈ told, event.isReport = false) :
    (config.reportStep (describe state) (act state) told).Reports config describe := by
  rw [Config.reportStep_eq described]
  cases answered : (act state).answer with
  | ok value =>
    exact ⟨⟨told, plain, by simp [Effect.step, answered, Config.reports]⟩,
      by simp [Effect.step, answered]⟩
  | stray =>
    exact ⟨⟨told, plain, by simp [Effect.step, answered, Config.reports]⟩,
      by simp [Effect.step, answered]⟩
  | error reason =>
    have same := whole.state_eq (by simp [answered])
    refine ⟨⟨told, plain, by rw [Effect.step, same, answered]⟩, fun other failed => ?_⟩
    rw [Effect.step, same]
    exact described other failed

theorem Reports.lift {step : Step σ ε α} (reports : step.Reports config describe) {place : σ → τ}
    {described : τ → ε → Option Diagnostic}
    (same : ∀ state, described (place state) = describe state) (tell : α → β) :
    (step.lift place tell).Reports config described := by
  obtain ⟨⟨told, plain, events⟩, known⟩ := reports
  refine ⟨⟨told, plain, ?_⟩, fun reason failed => ?_⟩
  · rw [Step.lift, Config.reports_map, same]
    exact events
  · rw [Step.lift, same]
    exact known reason (Outcome.map_eq_error_iff.mp failed)

end Reports

section Runs

variable {σ τ ε α β δ : Type}

theorem all_keeps {step : σ → δ → Step σ ε α} {valid : σ → Prop}
    (kept : ∀ state request, valid state → valid (step state request).state)
    (requests : List δ) {state : σ} (start : valid state) :
    valid (Step.all step state requests).state := by
  induction requests generalizing state with
  | nil => exact start
  | cons request requests ih =>
    have first := kept state request start
    rw [Step.all]
    cases (step state request).answer with
    | ok value => exact ih first
    | error reason => exact first
    | stray => exact first

/-- A step answers as another does, and they leave states behind that correspond. -/
structure Mirrors (image : σ → τ) (step : Step σ ε α) (other : Step τ ε α) : Prop where
  state : other.state = image step.state
  answer : other.answer = step.answer

theorem mirrors_step (image : σ → τ) (made : Effect σ ε α) (told also : List Event) :
    (made.step told).Mirrors image ((made.mapState image).step also) := ⟨rfl, rfl⟩

/-- Whether failures are reported makes no difference if they can be described. -/
theorem mirrors_reportStep {config other : Config} {describe : ε → Option Diagnostic}
    {made : Effect σ ε α}
    (described : ∀ reason, made.answer = .error reason → IsError (describe reason)) (image : σ → τ)
    (told also : List Event) :
    (config.reportStep describe made told).Mirrors image
      (other.reportStep describe (made.mapState image) also) := by
  have carried : ∀ reason, (made.mapState image).answer = .error reason →
      IsError (describe reason) := described
  rw [Config.reportStep_eq described, Config.reportStep_eq carried]
  exact mirrors_step image made _ _

theorem Mirrors.all {image : σ → σ} {step : σ → δ → Step σ ε α} {valid : σ → Prop}
    (each : ∀ state request, valid state →
      (step state request).Mirrors image (step (image state) request))
    (kept : ∀ state request, valid state → valid (step state request).state)
    (requests : List δ) {state : σ} (start : valid state) :
    (Step.all step state requests).Mirrors image (Step.all step (image state) requests) := by
  induction requests generalizing state with
  | nil => exact ⟨rfl, rfl⟩
  | cons request requests ih =>
    obtain ⟨same, alike⟩ := each state request start
    have rest := ih (kept state request start)
    rw [Step.all, Step.all, alike, same]
    cases (step state request).answer with
    | ok value => exact ⟨rest.state, rest.answer⟩
    | error reason => exact ⟨rfl, rfl⟩
    | stray => exact ⟨rfl, rfl⟩

theorem Mirrors.lift {υ : Type} {image : σ → σ} {step other : Step σ ε α}
    (mirrors : step.Mirrors image other) {place : σ → υ} {also : υ → υ}
    (same : ∀ state, also (place state) = place (image state)) (tell : α → β) :
    (step.lift place tell).Mirrors also (other.lift place tell) := by
  refine ⟨?_, ?_⟩
  · rw [Step.lift, Step.lift, same, mirrors.state]
  · rw [Step.lift, Step.lift, mirrors.answer]

/-- A step answers, and all ids in its answer and in what it tells were issued by the tree that it
leaves behind. -/
structure Safe {σ ε α : Type} [HasIds ε] [HasIds α] (tree : σ → Tree) (step : Step σ ε α) :
    Prop where
  answers : (tree step.state).Answers step.answer
  shown : ∀ event ∈ step.events, ∀ id ∈ event.shown, (tree step.state).HasIssued id

theorem safe_step [HasIds ε] [HasIds α] {tree : σ → Tree} {state : σ} {made : Effect σ ε α}
    {told : List Event} (answers : (tree made.state).Answers made.answer)
    (grows : (tree state).Extends (tree made.state)) (tells : (tree state).Tells [] told) :
    (made.step told).Safe tree :=
  ⟨answers, fun event listed id named =>
    grows.hasIssued (tells.hasIssued (by simp) event listed id named)⟩

/-- Reports show no ids, so that they are safe wherever errors can be described. -/
theorem safe_reportStep [HasIds ε] [HasIds α] {config : Config} {describe : ε → Option Diagnostic}
    {tree : σ → Tree} {made : Effect σ ε α} {told : List Event}
    (described : ∀ reason, made.answer = .error reason → IsError (describe reason))
    (safe : (made.step told).Safe tree) : (config.reportStep describe made told).Safe tree := by
  rw [Config.reportStep_eq described]
  refine ⟨safe.answers, List.forall_mem_append.mpr ⟨safe.shown, fun event listed => ?_⟩⟩
  have report := Config.isReport_of_mem_reports listed
  cases event with
  | reported diagnostic => simp [Event.shown]
  | _ => cases report

theorem Safe.lift [HasIds ε] [HasIds α] [HasIds β] {tree : σ → Tree} {step : Step σ ε α}
    (safe : step.Safe tree) {place : σ → τ} {also : τ → Tree}
    (same : ∀ state, also (place state) = tree state) {tell : α → β}
    (kept : ∀ value, (tree step.state).Issues value → (tree step.state).Issues (tell value)) :
    (step.lift place tell).Safe also := by
  obtain ⟨answers, shown⟩ := safe
  refine ⟨?_, ?_⟩
  · rw [Step.lift, same]
    cases answered : step.answer with
    | ok value =>
      rw [answered] at answers
      exact kept value answers
    | error reason =>
      rw [answered] at answers
      exact answers
    | stray =>
      rw [answered] at answers
      exact answers.elim
  · rw [Step.lift, same]
    exact shown

theorem all_extends {step : σ → δ → Step σ ε α} {tree : σ → Tree} {valid : σ → Prop}
    (kept : ∀ state request, valid state → valid (step state request).state)
    (grows : ∀ state request, valid state → (tree state).Extends (tree (step state request).state))
    (requests : List δ) {state : σ} (start : valid state) :
    (tree state).Extends (tree (Step.all step state requests).state) := by
  have along (middle : σ) (request : δ)
      (before : valid middle ∧ (tree state).Extends (tree middle)) :
      valid (step middle request).state ∧
        (tree state).Extends (tree (step middle request).state) :=
    ⟨kept middle request before.1, before.2.trans (grows middle request before.1)⟩
  exact (all_keeps along requests ⟨start, .refl _⟩).2

theorem Safe.all [HasIds ε] [HasIds α] {step : σ → δ → Step σ ε α} {tree : σ → Tree}
    {valid : σ → Prop} (each : ∀ state request, valid state → (step state request).Safe tree)
    (kept : ∀ state request, valid state → valid (step state request).state)
    (grows : ∀ state request, valid state → (tree state).Extends (tree (step state request).state))
    (requests : List δ) {state : σ} (start : valid state) :
    (Step.all step state requests).Safe tree := by
  induction requests generalizing state with
  | nil => exact ⟨Tree.issues_unit (), by simp [Step.all]⟩
  | cons request requests ih =>
    obtain ⟨answers, shown⟩ := each state request start
    obtain ⟨later, told⟩ := ih (kept state request start)
    rw [Step.all]
    cases answered : (step state request).answer with
    | ok value =>
      -- What the first step shows was issued when it was told, and the others only add to that.
      refine ⟨later, List.forall_mem_append.mpr ⟨fun event listed id named => ?_, told⟩⟩
      have still := all_extends kept grows requests (kept state request start)
      exact still.hasIssued (shown event listed id named)
    | error reason =>
      rw [answered] at answers
      exact ⟨answers, shown⟩
    | stray =>
      rw [answered] at answers
      exact answers.elim

end Runs

end Step

end ScopedNames
