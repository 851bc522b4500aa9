import ScopedNames.Proofs.Project.Session

set_option autoImplicit false

namespace ScopedNames

/-- A step reports its failure, does the same with reports switched on or off, and keeps to issued
ids if it is passed no others. -/
structure Step.Behaves {σ α : Type} [HasIds α] (config : Config) (tree : σ → Tree)
    (switch : Bool → σ → σ) (given : List Id) (state : σ) (step : Step σ ProjectError α)
    (switched : Bool → Step σ ProjectError α) : Prop where
  reports : step.Reports config fun state => ProjectError.describe (tree state)
  mirrors : ∀ on, step.Mirrors (switch on) (switched on)
  safe : (∀ id ∈ given, (tree state).HasIssued id) → step.Safe tree

section Behaves

variable {σ τ α β δ : Type} [HasIds α] [HasIds β] {config : Config} {tree : σ → Tree}
  {switch : Bool → σ → σ} {given : List Id} {state : σ} {valid : σ → Prop}
  {act : Action σ ProjectError α} {told : List Event}
  {switched : Bool → Step σ ProjectError α}

/-- An operation that reports its failures. -/
theorem Operates.behaves (operates : Operates tree valid given state act told)
    (described : ∀ reason, act.outcome state = .error reason →
      IsError (reason.describe (tree state)))
    (same : ∀ on, ∃ also, switched on =
      (config.withReports on).reportStep (ProjectError.describe (tree state))
        ((act state).mapState (switch on)) also) :
    (config.reportStep (ProjectError.describe (tree state)) (act state) told).Behaves config tree
      switch given state switched := by
  have described (reason : ProjectError) (failed : (act state).answer = .error reason) :
      IsError (reason.describe (tree state)) :=
    described reason (Action.outcome_eq_error_iff.mpr failed)
  constructor
  case reports =>
    exact Step.reports_reportStep operates.whole described fun event listed =>
      (operates.tells event listed).1
  case mirrors =>
    intro on
    obtain ⟨also, step⟩ := same on
    rw [step]
    exact Step.mirrors_reportStep described (switch on) told also
  case safe =>
    intro issued
    exact Step.safe_reportStep described (operates.safe issued)

/-- An operation whose failures are not for the log. -/
theorem Operates.behaves_quiet (operates : Operates tree valid given state act told)
    (quiet : config.reportsErrors = false)
    (described : ∀ reason, act.outcome state = .error reason →
      IsError (reason.describe (tree state)))
    (same : ∀ on, ∃ also, switched on = ((act state).mapState (switch on)).step also) :
    ((act state).step told).Behaves config tree switch given state switched := by
  have described (reason : ProjectError) (failed : (act state).answer = .error reason) :
      IsError (reason.describe (tree state)) :=
    described reason (Action.outcome_eq_error_iff.mpr failed)
  constructor
  case reports =>
    have reports : (config.reportStep (ProjectError.describe (tree state)) (act state)
        told).Reports config fun state => ProjectError.describe (tree state) :=
      Step.reports_reportStep operates.whole described fun event listed =>
        (operates.tells event listed).1
    rwa [Config.reportStep_eq described, Config.reports_of_quiet quiet, List.append_nil]
      at reports
  case mirrors =>
    intro on
    obtain ⟨also, step⟩ := same on
    rw [step]
    exact Step.mirrors_step (switch on) (act state) told also
  case safe => exact operates.safe

/-- A step that succeeds and reports nothing. -/
theorem Step.behaves_ok {next : σ} {value : α} (issued : (tree next).Issues value)
    (same : ∀ on, ∃ also, switched on = ⟨switch on next, .ok value, also⟩)
    (tells : (tree next).Tells [] told) :
    (⟨next, .ok value, told⟩ : Step σ ProjectError α).Behaves config tree switch given state
      switched := by
  constructor
  case reports =>
    exact ⟨⟨told, fun event listed => (tells event listed).1, (List.append_nil told).symm⟩,
      fun reason failed => by cases failed⟩
  case mirrors =>
    intro on
    obtain ⟨also, step⟩ := same on
    rw [step]
    exact ⟨rfl, rfl⟩
  case safe => exact fun _ => ⟨issued, tells.hasIssued (by simp)⟩

namespace Step.Behaves

/-- A run of operations up to the first failure. -/
theorem all {step : σ → δ → Step σ ProjectError α}
    (each : ∀ state request, valid state → (step state request).Behaves config tree switch []
      state fun on => step (switch on state) request)
    (kept : ∀ state request, valid state → valid (step state request).state)
    (grows : ∀ state request, valid state → (tree state).Extends (tree (step state request).state))
    (requests : List δ) (start : valid state) :
    (Step.all step state requests).Behaves config tree switch [] state
      fun on => Step.all step (switch on state) requests := by
  constructor
  case reports =>
    exact Reports.all (fun state request start => (each state request start).reports) kept requests
      start
  case mirrors =>
    intro on
    exact Mirrors.all (fun state request start => (each state request start).mirrors on) kept
      requests start
  case safe =>
    intro _
    exact Safe.all (fun state request start => (each state request start).safe (by simp)) kept
      grows requests start

theorem lift {step : Step σ ProjectError α}
    (behaves : step.Behaves config tree switch given state switched) {place : σ → τ} {tell : α → β}
    {also : τ → Tree} {switchAll : Bool → τ → τ} (same : ∀ state, also (place state) = tree state)
    (alike : ∀ on state, switchAll on (place state) = place (switch on state))
    (kept : ∀ state value, (tree state).Issues value → (tree state).Issues (tell value)) :
    (step.lift place tell).Behaves config also switchAll given (place state)
      fun on => (switched on).lift place tell := by
  constructor
  case reports => exact behaves.reports.lift (fun state => by rw [same]) tell
  case mirrors => exact fun on => (behaves.mirrors on).lift (alike on) tell
  case safe =>
    intro issued
    rw [same] at issued
    exact (behaves.safe issued).lift same (kept step.state)

end Step.Behaves

end Behaves

section Calls

variable {config : Config} {call : Call} {step : Step Session ProjectError (Option Id)}

theorem Tree.issues_found {tree : Tree} {decl : DeclId} (issued : tree.Issues decl) :
    tree.Issues (Id.found decl) :=
  Tree.issues_some.mpr (Tree.issues_id.mpr (Tree.issues_decl.mp issued))

/-- How a call behaves that a session takes. -/
def Session.Takes (config : Config) (session : Session) (call : Call)
    (step : Step Session ProjectError (Option Id)) : Prop :=
  ∃ switched, (∀ on, (session.withReports on).call? call = some (switched on)) ∧
    step.Behaves (config.hearing call) tree withReports call.passed session switched

section Takes

variable {σ α : Type} [HasIds α] {tree : σ → Tree} {switch : Bool → σ → σ} {state : σ}
  {made : Step σ ProjectError α} {switched : Bool → Step σ ProjectError α} {place : σ → Session}
  {tell : α → Option Id}

/-- What a phase does is what its session does. -/
theorem Step.Behaves.takes
    (behaves : made.Behaves (config.hearing call) tree switch call.passed state switched)
    (same : ∀ state, (place state).tree = tree state)
    (alike : ∀ on state, (place state).withReports on = place (switch on state))
    (taken : ∀ on, (place (switch on state)).call? call = some ((switched on).lift place tell))
    (kept : ∀ state value, (tree state).Issues value → (tree state).Issues (tell value)) :
    Session.Takes config (place state) call (made.lift place tell) :=
  ⟨_, fun on => by rw [alike, taken], behaves.lift same alike kept⟩

theorem Step.Behaves.takes_heard (heard : call.isHeard config.spelling = true)
    (behaves : made.Behaves config tree switch call.passed state switched)
    (same : ∀ state, (place state).tree = tree state)
    (alike : ∀ on state, (place state).withReports on = place (switch on state))
    (taken : ∀ on, (place (switch on state)).call? call = some ((switched on).lift place tell))
    (kept : ∀ state value, (tree state).Issues value → (tree state).Issues (tell value)) :
    Session.Takes config (place state) call (made.lift place tell) := by
  rw [← Config.hearing_of_isHeard heard] at behaves
  exact behaves.takes same alike taken kept

end Takes

namespace Draft

variable {draft : Draft}

theorem behaves_declare (draft : Draft) (request : DeclareRequest) (valid : draft.Valid config) :
    (draft.declare request).Behaves config Draft.tree Draft.withReports [] draft
      fun on => (draft.withReports on).declare request := by
  obtain rfl := valid.config
  have operates := valid.operates_declare request
  refine operates.behaves (fun reason failed => valid.describe_declared failed) fun on => ?_
  exact ⟨_, by rw [declare, declaring_withReports]; rfl⟩

theorem Valid.behaves_declareIn (valid : draft.Valid config) (asked : DeclareStep)
    {hearing : Config} (quiet : hearing.reportsErrors = false) :
    (draft.declareIn asked).Behaves hearing Draft.tree Draft.withReports [.scope asked.scope] draft
      fun on => (draft.withReports on).declareIn asked := by
  have operates := valid.operates_declareIn asked
  refine operates.behaves_quiet quiet (fun reason failed => valid.describe_declaredIn failed)
    fun on => ?_
  exact ⟨_, by rw [declareIn, declaringIn_withReports]⟩

theorem Valid.takes_call (valid : draft.Valid config) (taken : draft.call? call = some step) :
    Session.Takes config (.drafting draft) call step := by
  have same (draft : Draft) : (Session.drafting draft).tree = draft.tree := rfl
  have alike (on : Bool) (draft : Draft) :
      (Session.drafting draft).withReports on = .drafting (draft.withReports on) := rfl
  cases call with
  | declare request =>
    cases taken
    exact (draft.behaves_declare request valid).takes_heard rfl same alike (fun _ => rfl)
      fun _ _ => Tree.issues_found
  | declareAll requests =>
    cases taken
    exact (Step.Behaves.all behaves_declare valid_declare grows_declare requests
      valid).takes_heard rfl same alike (fun _ => rfl) fun _ _ _ => Tree.issues_none
  | declareIn asked =>
    cases taken
    have quiet : (config.hearing (.declareIn asked)).reportsErrors = false :=
      Config.reportsErrors_hearing rfl
    exact (valid.behaves_declareIn asked quiet).takes same alike (fun _ => rfl)
      fun _ _ => Tree.issues_some.mpr
  | complete =>
    cases taken
    refine ⟨_, fun on => rfl, Step.behaves_ok Tree.issues_none (fun on => ⟨_, rfl⟩) ?_⟩
    simp [Draft.finish, Event.isReport, Event.shown]
  | _ => cases taken

end Draft

namespace Linking

variable {linking : Linking} {tree : Tree} (grown : tree.Grown) (closed : tree.Closed)

include grown closed

theorem behaves_importPath (linking : Linking) (request : ImportRequest)
    (valid : linking.Valid config tree) :
    (linking.importPath request).Behaves config Linking.tree Linking.withReports [] linking
      fun on => (linking.withReports on).importPath request := by
  have operates := valid.operates_importPath grown request
  obtain rfl := valid.tree
  obtain rfl := valid.config
  refine operates.behaves (operates.describes grown.sound closed) fun on => ?_
  exact ⟨_, by rw [importPath, inScope_withReports]; rfl⟩

theorem behaves_importGlob (linking : Linking) (request : GlobRequest)
    (valid : linking.Valid config tree) :
    (linking.importGlob request).Behaves config Linking.tree Linking.withReports [] linking
      fun on => (linking.withReports on).importGlob request := by
  have operates := valid.operates_importGlob grown request
  obtain rfl := valid.tree
  obtain rfl := valid.config
  refine operates.behaves (operates.describes grown.sound closed) fun on => ?_
  exact ⟨_, by rw [importGlob, inScope_withReports]; rfl⟩

theorem Valid.behaves_collect (valid : linking.Valid config tree) (asked : ImportStep)
    {hearing : Config} (quiet : hearing.reportsErrors = false) :
    (linking.collect asked).Behaves hearing Linking.tree Linking.withReports asked.passed linking
      fun on => (linking.withReports on).collect asked := by
  have operates := valid.operates_collect grown asked
  obtain rfl := valid.tree
  refine operates.behaves_quiet quiet (operates.describes grown.sound closed) fun on => ?_
  exact ⟨_, by rw [collect, collecting_withReports]; rfl⟩

theorem Valid.takes_finish (valid : linking.Valid config tree)
    (taken : linking.call? .finish = some step) :
    Session.Takes config (.importing linking) .finish step := by
  obtain ⟨settled, ran, _⟩ := valid.exists_finish
  have tells := (valid.operates_collect grown .settle).tells
  have also (on : Bool) := linking.finish_withReports on
  obtain rfl := valid.tree
  rw [call?, ran] at taken
  cases taken
  refine ⟨fun on => ⟨.finished (settled.value.withReports on), .ok none, settled.events⟩,
    fun on => ?_, Step.behaves_ok Tree.issues_none (fun on => ⟨_, rfl⟩) ?_⟩
  · have other := also on
    rw [ran, Option.map_some] at other
    rw [Session.withReports, Session.call?, call?, other]
  · obtain ⟨imports, _, rfl⟩ := Option.map_eq_some_iff.mp ran
    exact tells

theorem Valid.takes_call (valid : linking.Valid config tree)
    (taken : linking.call? call = some step) :
    Session.Takes config (.importing linking) call step := by
  have same (linking : Linking) : (Session.importing linking).tree = linking.tree := rfl
  have alike (on : Bool) (linking : Linking) :
      (Session.importing linking).withReports on = .importing (linking.withReports on) := rfl
  cases call with
  | importPath request =>
    cases taken
    exact (linking.behaves_importPath grown closed request valid).takes_heard rfl same alike
      (fun _ => rfl) fun _ _ => Tree.issues_found
  | importPaths requests =>
    cases taken
    exact (Step.Behaves.all (behaves_importPath grown closed) (valid_importPath grown)
      (grows_importPath grown) requests valid).takes_heard rfl same alike (fun _ => rfl)
      fun _ _ _ => Tree.issues_none
  | importGlob request =>
    cases taken
    exact (linking.behaves_importGlob grown closed request valid).takes_heard rfl same alike
      (fun _ => rfl) fun _ _ _ => Tree.issues_none
  | importGlobs requests =>
    cases taken
    exact (Step.Behaves.all (behaves_importGlob grown closed) (valid_importGlob grown)
      (grows_importGlob grown) requests valid).takes_heard rfl same alike (fun _ => rfl)
      fun _ _ _ => Tree.issues_none
  | collect asked =>
    cases taken
    have quiet : (config.hearing (.collect asked)).reportsErrors = false :=
      Config.reportsErrors_hearing rfl
    refine (valid.behaves_collect grown closed asked quiet).takes same alike (fun _ => rfl)
      fun linking found known => ?_
    cases found with
    | none => exact Tree.issues_none
    | some decl => exact Tree.issues_found (Tree.issues_some.mp known)
  | finish => exact valid.takes_finish grown closed taken
  | _ => cases taken

end Linking

namespace Project

variable {project : Project} {tree : Tree} (valid : project.resume.Valid config tree)
  (grown : tree.Grown) (closed : tree.Closed)

include valid grown closed

theorem behaves_ask {given : List Id} {found : Outcome LookupError DeclId} {events : List Event}
    (blames : tree.Blames found) (tells : tree.Tells given events)
    (answers : (∀ id ∈ given, tree.HasIssued id) → tree.Answers found) :
    (project.ask (project.config.report (LookupError.describe project.tree) found events)).Behaves
      config Project.tree Project.withReports given project fun on =>
        (project.withReports on).ask ((project.withReports on).config.report
          (LookupError.describe (project.withReports on).tree) found events) := by
  have operates := operates_ask valid blames tells answers
  obtain rfl : project.tree = tree := valid.tree
  obtain rfl : project.config = config := valid.config
  rw [ask_report]
  refine operates.behaves (operates.describes grown.sound closed) fun on => ?_
  exact ⟨events, by rw [ask_report]; rfl⟩

theorem behaves_resolve (path : Path) (origin : ScopeId) :
    (project.ask (project.resolve path origin)).Behaves config Project.tree Project.withReports
      [.scope origin] project
      fun on => (project.withReports on).ask ((project.withReports on).resolve path origin) := by
  have sound := grown.sound
  obtain rfl : project.tree = tree := valid.tree
  refine project.behaves_ask valid grown closed (sound.blames_resolve path origin)
    (sound.tells_resolveEvents path origin) fun issued => ?_
  exact sound.answers_resolve (issued (.scope origin) List.mem_cons_self) path

/-- Text that is a path is resolved, and a failure is heard of; any other text fails unheard. -/
theorem takes_resolveText (text : String) (origin : ScopeId) :
    Session.Takes config (.finished project) (.resolveText text origin)
      ((project.askText text origin).lift .finished Id.found) := by
  have behaves := project.behaves_resolve valid grown closed
  obtain rfl : project.config = config := valid.config
  have spelt (on : Bool) : (project.withReports on).config.spelling = project.config.spelling := rfl
  -- What is heard depends on the text, so it is read before either step is looked at.
  cases parsed : Path.parse project.config.spelling text with
  | ok path =>
    have read (on : Bool) : (project.withReports on).askText text origin =
        (project.withReports on).ask ((project.withReports on).resolve path origin) := by
      rw [askText_eq, spelt, parsed]
    have heard : (Call.resolveText text origin).isHeard project.config.spelling = true := by
      rw [Call.isHeard, parsed]
      rfl
    rw [askText_eq, parsed]
    refine (behaves path origin).takes_heard heard (fun _ => rfl) (fun _ _ => rfl) (fun on => ?_)
      fun _ _ => Tree.issues_found
    rw [← read]
    rfl
  | error reason =>
    have fails (on : Bool) : (project.withReports on).askText text origin =
        ⟨project.withReports on, .error (.badPath reason), []⟩ := by
      rw [askText_eq, spelt, parsed]
    have unheard : (Call.resolveText text origin).isHeard project.config.spelling = false := by
      rw [Call.isHeard, parsed]
      rfl
    let act : Action Project ProjectError DeclId := .give (.error (.badPath reason))
    have operates : Operates Project.tree (fun _ => True) [.scope origin] project act [] :=
      .of_error (.give _) rfl (Tree.issues_badPath reason) Tree.tells_nil
    have described (other : ProjectError) (failed : act.outcome project = .error other) :
        IsError (other.describe project.tree) := by
      cases failed
      exact ⟨_, rfl, rfl⟩
    rw [askText_eq, parsed]
    refine (operates.behaves_quiet (Config.reportsErrors_hearing unheard) described
      fun on => ⟨[], rfl⟩).takes (fun _ => rfl) (fun _ _ => rfl) (fun on => ?_)
      fun _ _ => Tree.issues_found
    exact congrArg (fun made => some (made.lift Session.finished Id.found)) (fails on)

theorem takes_call (taken : project.call? call = some step) :
    Session.Takes config (.finished project) call step := by
  have within := valid.within grown
  have sound := grown.sound
  have same (project : Project) : (Session.finished project).tree = project.tree := rfl
  have alike (on : Bool) (project : Project) :
      (Session.finished project).withReports on = .finished (project.withReports on) := rfl
  have resolves := project.behaves_resolve valid grown closed
  have texts := project.takes_resolveText valid grown closed
  have asks (given : List Id) {found : Outcome LookupError DeclId} {events : List Event} :=
    @behaves_ask config project tree valid grown closed given found events
  obtain rfl : project.tree = tree := valid.tree
  cases call with
  | resume =>
    cases taken
    exact ⟨_, fun on => rfl, Step.behaves_ok Tree.issues_none (fun on => ⟨_, rfl⟩) Tree.tells_nil⟩
  | resolve path origin =>
    cases taken
    exact (resolves path origin).takes_heard rfl same alike (fun _ => rfl)
      fun _ _ => Tree.issues_found
  | resolveText text origin =>
    cases taken
    exact texts text origin
  | lookup name scope =>
    cases taken
    have behaves := asks [.scope scope] (within.blames_lookup name scope)
      (Imports.tells_lookupEvents project.imports project.tree name scope) fun issued =>
        within.answers_lookup sound (issued (.scope scope) List.mem_cons_self) name
    exact behaves.takes_heard rfl same alike (fun _ => rfl) fun _ _ => Tree.issues_found
  | resolveImported path origin =>
    cases taken
    have tells := Imports.tells_resolveEvents sound project.imports path origin
    have behaves := asks [.scope origin] (within.blames_resolve sound path origin)
      (tells.mono (by simp)) fun issued =>
        within.answers_resolve sound path (issued (.scope origin) List.mem_cons_self)
    exact behaves.takes_heard rfl same alike (fun _ => rfl) fun _ _ => Tree.issues_found
  | _ => cases taken

end Project

/-- Whatever the phase, a call that it takes behaves. -/
theorem Session.Valid.takes_call {session : Session} (valid : session.Valid config)
    (describes : session.Describes) (taken : session.call? call = some step) :
    session.Takes config call step := by
  cases session with
  | drafting draft => exact Draft.Valid.takes_call valid taken
  | importing linking =>
    exact valid.2.takes_call valid.1 (describes (by simp [imports?])) taken
  | finished project =>
    exact project.takes_call valid.2 valid.1 (describes (by simp [imports?])) taken

end Calls

end ScopedNames
