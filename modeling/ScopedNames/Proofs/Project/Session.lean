import ScopedNames.Proofs.Project.Operation

set_option autoImplicit false

namespace ScopedNames

/-- A project in one of its phases. -/
inductive Session where
  | drafting (draft : Draft)
  | importing (linking : Linking)
  | finished (project : Project)
  deriving DecidableEq, Repr

/-- What can be asked of a project: to declare, to import, or to look something up. -/
inductive Call where
  | declare (request : DeclareRequest)
  | declareAll (requests : List DeclareRequest)
  /-- Declares in the tree itself. -/
  | declareIn (step : DeclareStep)
  /-- Completes the tree. -/
  | complete
  | importPath (request : ImportRequest)
  | importPaths (requests : List ImportRequest)
  | importGlob (request : GlobRequest)
  | importGlobs (requests : List GlobRequest)
  /-- Takes a step in the imports themselves. -/
  | collect (step : ImportStep)
  /-- Settles the imports. -/
  | finish
  /-- Takes up the imports again. -/
  | resume
  | resolve (path : Path) (origin : ScopeId)
  | resolveText (text : String) (origin : ScopeId)
  | lookup (name : Name) (scope : ScopeId)
  | resolveImported (path : Path) (origin : ScopeId)
  deriving DecidableEq, Repr

/-- The ids that whoever makes a call passes. Scopes to which a visibility restricts what is
declared are not among them. -/
def Call.passed : Call → List Id
  | .declareIn step => [.scope step.scope]
  | .collect step => step.passed
  | .resolve _ origin | .resolveText _ origin | .resolveImported _ origin => [.scope origin]
  | .lookup _ scope => [.scope scope]
  | .declare _ | .declareAll _ | .complete | .importPath _ | .importPaths _ | .importGlob _
  | .importGlobs _ | .finish | .resume => []

/-- The id of a declaration as an answer. -/
def Id.found (decl : DeclId) : Option Id := some (.decl decl)

def Draft.call? (draft : Draft) : Call → Option (Step Session ProjectError (Option Id))
  | .declare request => some ((draft.declare request).lift .drafting Id.found)
  | .declareAll requests => some ((draft.declareAll requests).lift .drafting fun _ => none)
  | .declareIn step => some ((draft.declareIn step).lift .drafting some)
  | .complete => some ⟨.importing draft.finish.value, .ok none, draft.finish.events⟩
  | _ => none

def Linking.call? (linking : Linking) : Call → Option (Step Session ProjectError (Option Id))
  | .importPath request => some ((linking.importPath request).lift .importing Id.found)
  | .importPaths requests => some ((linking.importPaths requests).lift .importing fun _ => none)
  | .importGlob request => some ((linking.importGlob request).lift .importing fun _ => none)
  | .importGlobs requests => some ((linking.importGlobs requests).lift .importing fun _ => none)
  | .collect step => some ((linking.collect step).lift .importing (·.bind Id.found))
  | .finish =>
    match linking.finish with
    | some settled => some ⟨.finished settled.value, .ok none, settled.events⟩
    | none => some ⟨.importing linking, .stray, []⟩
  | _ => none

def Project.call? (project : Project) : Call → Option (Step Session ProjectError (Option Id))
  | .resume => some ⟨.importing project.resume, .ok none, []⟩
  | .resolve path origin =>
    some ((project.ask (project.resolve path origin)).lift .finished Id.found)
  | .resolveText text origin => some ((project.askText text origin).lift .finished Id.found)
  | .lookup name scope => some ((project.ask (project.lookup name scope)).lift .finished Id.found)
  | .resolveImported path origin =>
    some ((project.ask (project.resolveImported path origin)).lift .finished Id.found)
  | _ => none

namespace Session

def tree : Session → Tree
  | .drafting draft => draft.tree
  | .importing linking => linking.tree
  | .finished project => project.tree

/-- The imports, once the tree is complete. -/
def imports? : Session → Option Imports
  | .drafting _ => none
  | .importing linking => some linking.imports
  | .finished project => some project.imports

/-- What comes of a call, if the phase takes it. -/
def call? : Session → Call → Option (Step Session ProjectError (Option Id))
  | .drafting draft, call => draft.call? call
  | .importing linking, call => linking.call? call
  | .finished project, call => project.call? call

/-- Makes a call, and passes over it if the phase does not take it. -/
def make (session : Session) (call : Call) : Session :=
  match session.call? call with
  | some step => step.state
  | none => session

/-- A new project after some calls. -/
def run (config : Config) (calls : List Call) : Session :=
  calls.foldl make (.drafting (.new config))

theorem run_concat (config : Config) (calls : List Call) (call : Call) :
    run config (calls ++ [call]) = (run config calls).make call := by
  simp [run]

/-- A session of this configuration that calls lead to. -/
def Valid (config : Config) : Session → Prop
  | .drafting draft => draft.Valid config
  | .importing linking => linking.tree.Grown ∧ linking.Valid config linking.tree
  | .finished project => project.tree.Grown ∧ project.resume.Valid config project.tree

/-- How a session may go on: the tree only grows, and no longer once it is complete. -/
structure Leads (config : Config) (session next : Session) : Prop where
  valid : next.Valid config
  grows : session.tree.Extends next.tree
  complete : session.imports? ≠ none → next.imports? ≠ none ∧ next.tree = session.tree

variable {config : Config} {session next : Session}

theorem Valid.grown (valid : session.Valid config) : session.tree.Grown := by
  cases session with
  | drafting draft => exact valid.grown
  | importing linking => exact valid.1
  | finished project => exact valid.1

theorem Leads.refl (valid : session.Valid config) : Leads config session session :=
  ⟨valid, .refl _, fun known => ⟨known, rfl⟩⟩

theorem Leads.finish {project : Project}
    (leads : Leads config session (.importing project.resume)) :
    Leads config session (.finished project) :=
  ⟨leads.valid, leads.grows, fun known => ⟨by simp [imports?], (leads.complete known).2⟩⟩

theorem Leads.trans {last : Session} (first : Leads config session next)
    (second : Leads config next last) : Leads config session last := by
  refine ⟨second.valid, first.grows.trans second.grows, fun known => ?_⟩
  obtain ⟨still, same⟩ := first.complete known
  obtain ⟨last, also⟩ := second.complete still
  exact ⟨last, also.trans same⟩

end Session

section Phases

variable {config : Config} {call : Call} {step : Step Session ProjectError (Option Id)}

namespace Draft

variable {draft : Draft}

theorem Valid.leads {after : Draft} (valid : after.Valid config)
    (extension : draft.tree.Extends after.tree) :
    Session.Leads config (.drafting draft) (.drafting after) :=
  ⟨valid, extension, fun known => absurd rfl known⟩

theorem valid_declare (draft : Draft) (request : DeclareRequest) (valid : draft.Valid config) :
    (draft.declare request).state.Valid config :=
  (valid.operates_declare request).keeps valid

theorem grows_declare (draft : Draft) (request : DeclareRequest) (valid : draft.Valid config) :
    draft.tree.Extends (draft.declare request).state.tree :=
  (valid.operates_declare request).grows

theorem Valid.leads_call (valid : draft.Valid config) (taken : draft.call? call = some step) :
    Session.Leads config (.drafting draft) step.state := by
  cases call with
  | declare request =>
    cases taken
    exact (draft.valid_declare request valid).leads (draft.grows_declare request valid)
  | declareAll requests =>
    cases taken
    exact Valid.leads (Step.all_keeps valid_declare requests valid)
      (Step.all_extends valid_declare grows_declare requests valid)
  | declareIn asked =>
    cases taken
    have operates := valid.operates_declareIn asked
    exact Valid.leads (operates.keeps valid) operates.grows
  | complete =>
    cases taken
    exact ⟨⟨valid.grown, valid.config, ⟨[], rfl⟩, rfl⟩, .refl _, fun known => absurd rfl known⟩
  | _ => cases taken

end Draft

namespace Linking

variable {linking : Linking} {tree : Tree}

theorem Valid.extends_of_valid {after : Linking} (valid : linking.Valid config tree)
    (still : after.Valid config tree) : linking.tree.Extends after.tree := by
  rw [valid.tree, still.tree]
  exact .refl _

theorem Valid.leads {after : Linking} (grown : tree.Grown) (valid : linking.Valid config tree)
    (still : after.Valid config tree) :
    Session.Leads config (.importing linking) (.importing after) := by
  have extension := valid.extends_of_valid still
  obtain rfl := still.tree
  exact ⟨⟨grown, still⟩, extension, fun _ => ⟨by simp [Session.imports?], valid.tree.symm⟩⟩

theorem valid_importPath (grown : tree.Grown) (linking : Linking) (request : ImportRequest)
    (valid : linking.Valid config tree) :
    (linking.importPath request).state.Valid config tree := by
  obtain rfl := valid.tree
  exact (valid.operates_importPath grown request).keeps valid

theorem valid_importGlob (grown : tree.Grown) (linking : Linking) (request : GlobRequest)
    (valid : linking.Valid config tree) :
    (linking.importGlob request).state.Valid config tree := by
  obtain rfl := valid.tree
  exact (valid.operates_importGlob grown request).keeps valid

theorem grows_importPath (grown : tree.Grown) (linking : Linking) (request : ImportRequest)
    (valid : linking.Valid config tree) :
    linking.tree.Extends (linking.importPath request).state.tree :=
  valid.extends_of_valid (linking.valid_importPath grown request valid)

theorem grows_importGlob (grown : tree.Grown) (linking : Linking) (request : GlobRequest)
    (valid : linking.Valid config tree) :
    linking.tree.Extends (linking.importGlob request).state.tree :=
  valid.extends_of_valid (linking.valid_importGlob grown request valid)

/-- Settling succeeds, and collects on. -/
theorem Valid.exists_finish (valid : linking.Valid config tree) :
    ∃ settled, linking.finish = some settled ∧ settled.value.resume.Valid config tree := by
  obtain ⟨settled, ran⟩ := valid.faithful.exists_settle
  have taken : linking.imports.take tree .settle = .ok settled := by rw [Imports.take, ran]; rfl
  have taken := valid.take taken
  obtain rfl := valid.tree
  exact ⟨⟨⟨linking.config, linking.tree, settled⟩, _⟩, by rw [finish, ran]; rfl, taken⟩

theorem Valid.leads_call (grown : tree.Grown) (valid : linking.Valid config tree)
    (taken : linking.call? call = some step) :
    Session.Leads config (.importing linking) step.state := by
  cases call with
  | importPath request =>
    cases taken
    exact valid.leads grown (linking.valid_importPath grown request valid)
  | importPaths requests =>
    cases taken
    exact valid.leads grown (Step.all_keeps (valid_importPath grown) requests valid)
  | importGlob request =>
    cases taken
    exact valid.leads grown (linking.valid_importGlob grown request valid)
  | importGlobs requests =>
    cases taken
    exact valid.leads grown (Step.all_keeps (valid_importGlob grown) requests valid)
  | collect asked =>
    cases taken
    exact valid.leads grown ((valid.operates_collect grown asked).keeps valid)
  | finish =>
    obtain ⟨settled, ran, still⟩ := valid.exists_finish
    rw [call?, ran] at taken
    cases taken
    exact (valid.leads grown still).finish
  | _ => cases taken

end Linking

namespace Project

variable {project : Project} {tree : Tree}

theorem leads_call (grown : tree.Grown) (valid : project.resume.Valid config tree)
    (taken : project.call? call = some step) :
    Session.Leads config (.finished project) step.state := by
  obtain rfl : project.tree = tree := valid.tree
  have start : (Session.finished project).Valid config := ⟨grown, valid⟩
  have same := Session.Leads.refl start
  cases call with
  | resume =>
    cases taken
    exact ⟨⟨grown, valid⟩, .refl _, fun known => ⟨by simp [Session.imports?], rfl⟩⟩
  | resolve path origin =>
    cases taken
    exact same
  | resolveText text origin =>
    cases taken
    exact same
  | lookup name scope =>
    cases taken
    exact same
  | resolveImported path origin =>
    cases taken
    exact same
  | _ => cases taken

end Project

end Phases

namespace Session

variable {config : Config} {session : Session} {call : Call}
  {step : Step Session ProjectError (Option Id)}

theorem make_of_call? (taken : session.call? call = some step) :
    session.make call = step.state := by
  rw [make, taken]

theorem Valid.leads_call (valid : session.Valid config) (taken : session.call? call = some step) :
    Leads config session step.state := by
  cases session with
  | drafting draft => exact Draft.Valid.leads_call valid taken
  | importing linking => exact valid.2.leads_call valid.1 taken
  | finished project => exact project.leads_call valid.1 valid.2 taken

theorem Valid.leads_make (valid : session.Valid config) (call : Call) :
    Leads config session (session.make call) := by
  cases taken : session.call? call with
  | none =>
    rw [make, taken]
    exact .refl valid
  | some step =>
    rw [make_of_call? taken]
    exact valid.leads_call taken

/-- By induction along the calls. -/
theorem Valid.leads_calls (valid : session.Valid config) (calls : List Call) :
    Leads config session (calls.foldl make session) := by
  induction calls generalizing session with
  | nil => exact .refl valid
  | cons call calls ih =>
    have first := valid.leads_make call
    exact first.trans (ih first.valid)

theorem valid_new (config : Config) : (drafting (.new config)).Valid config :=
  ⟨rfl, config.externalName, .same _⟩

theorem valid_run (config : Config) (calls : List Call) : (run config calls).Valid config :=
  ((valid_new config).leads_calls calls).valid

/-- A run goes on where it was left. -/
theorem leads_run (config : Config) (before after : List Call) :
    Leads config (run config before) (run config (before ++ after)) := by
  rw [run, run, List.foldl_append]
  exact (valid_run config before).leads_calls after

end Session

/-- The same configuration with failures reported or not. -/
def Config.withReports (on : Bool) (config : Config) : Config := { config with reportsErrors := on }

/-- Whether the failure of a call is one for the log. That of a text which is no path is not. -/
def Call.isHeard (spelling : Spelling) : Call → Bool
  | .resolveText text _ => (Path.parse spelling text).isOk
  | .declare _ | .declareAll _ | .importPath _ | .importPaths _ | .importGlob _ | .importGlobs _
  | .resolve _ _ | .lookup _ _ | .resolveImported _ _ => true
  | .declareIn _ | .complete | .collect _ | .finish | .resume => false

/-- The configuration that reports what a call reports. -/
def Config.hearing (config : Config) (call : Call) : Config :=
  config.withReports (config.reportsErrors && call.isHeard config.spelling)

theorem Config.hearing_of_isHeard {config : Config} {call : Call}
    (heard : call.isHeard config.spelling = true) : config.hearing call = config := by
  rw [hearing, heard, Bool.and_true]
  rfl

theorem Config.reportsErrors_hearing {config : Config} {call : Call}
    (unheard : call.isHeard config.spelling = false) :
    (config.hearing call).reportsErrors = false := by
  rw [hearing, unheard, Bool.and_false]
  rfl

/-- The visibilities of a complete tree name issued scopes only, so that its errors can be
described. -/
def Session.Describes (session : Session) : Prop := session.imports? ≠ none → session.tree.Closed

theorem Session.Leads.describes {config : Config} {session last : Session}
    (leads : Leads config session last) (closed : last.tree.Closed) : session.Describes := by
  intro complete
  rw [← (leads.complete complete).2]
  exact closed

section Described

theorem Tree.describe_of_requireScope {tree : Tree} {names : List Name} {reason : ProjectError}
    (failed : tree.requireScope names = .error reason) : IsError (reason.describe tree) := by
  unfold requireScope at failed
  cases led : tree.scopeAt? names with
  | some scope =>
    rw [led] at failed
    cases failed
  | none =>
    rw [led] at failed
    cases failed
    exact ⟨_, rfl, rfl⟩

theorem Draft.Valid.describe_of_duplicate {config : Config} {draft : Draft}
    (valid : draft.Valid config) {α : Type} {first : Outcome DuplicateName α}
    {reason : ProjectError} (failed : first.mapError .duplicate = .error reason)
    (issued : draft.tree.Issues reason) : IsError (reason.describe draft.tree) := by
  cases first with
  | ok value => cases failed
  | stray => cases failed
  | error duplicate =>
    cases failed
    exact duplicate.describe_isError valid.grown.sound issued

theorem Draft.Valid.describe_declared {config : Config} {draft : Draft}
    (valid : draft.Valid config) {request : DeclareRequest} {reason : ProjectError}
    (failed : (Draft.declaring draft.tree request).outcome draft = .error reason) :
    IsError (reason.describe draft.tree) := by
  have issued := (valid.operates_declare request).blames reason failed
  rw [Draft.declaring, Action.outcome_bind, Action.outcome_lift] at failed
  cases asked : draft.tree.requireScope request.scope with
  | error unknown =>
    rw [asked] at failed
    cases failed
    exact Tree.describe_of_requireScope asked
  | stray => simp [asked] at failed
  | ok scope =>
    rw [asked] at failed
    rcases Outcome.bind_eq_error.mp ((Draft.outcome_onTree ..).symm.trans failed) with
      refused | ⟨pair, _, last⟩
    · exact valid.describe_of_duplicate refused issued
    · cases last

theorem Draft.Valid.describe_declaredIn {config : Config} {draft : Draft}
    (valid : draft.Valid config) {asked : DeclareStep} {reason : ProjectError}
    (failed : (Draft.declaringIn asked).outcome draft = .error reason) :
    IsError (reason.describe draft.tree) := by
  have issued := (valid.operates_declareIn asked).blames reason failed
  rw [Draft.declaringIn, Draft.outcome_onTree] at failed
  rcases Outcome.bind_eq_error.mp failed with refused | ⟨pair, _, last⟩
  · exact valid.describe_of_duplicate refused issued
  · cases last

theorem Operates.describes {σ α : Type} [HasIds α] {tree : σ → Tree} {valid : σ → Prop}
    {given : List Id} {state : σ} {act : Action σ ProjectError α} {told : List Event}
    (operates : Operates tree valid given state act told) (sound : (tree state).Sound)
    (closed : (tree state).Closed) (reason : ProjectError)
    (failed : act.outcome state = .error reason) : IsError (reason.describe (tree state)) :=
  reason.describe_isError sound closed (operates.blames reason failed)

end Described

def Draft.withReports (on : Bool) (draft : Draft) : Draft :=
  { draft with config := draft.config.withReports on }

def Linking.withReports (on : Bool) (linking : Linking) : Linking :=
  { linking with config := linking.config.withReports on }

def Project.withReports (on : Bool) (project : Project) : Project :=
  { project with config := project.config.withReports on }

/-- The same session with failures reported or not. -/
def Session.withReports (on : Bool) : Session → Session
  | .drafting draft => .drafting (draft.withReports on)
  | .importing linking => .importing (linking.withReports on)
  | .finished project => .finished (project.withReports on)

section Switch

variable (on : Bool)

namespace Draft

theorem declaring_withReports (draft : Draft) (tree : Tree) (request : DeclareRequest) :
    declaring tree request (draft.withReports on) =
      (declaring tree request draft).mapState (Draft.withReports on) := by
  unfold declaring
  cases tree.requireScope request.scope <;> rfl

theorem declaringIn_withReports (draft : Draft) (asked : DeclareStep) :
    declaringIn asked (draft.withReports on) =
      (declaringIn asked draft).mapState (Draft.withReports on) := rfl

end Draft

namespace Linking

theorem collecting_withReports {α : Type} (act : Collector α) (linking : Linking) :
    collecting act (linking.withReports on) =
      (collecting act linking).mapState (Linking.withReports on) := rfl

theorem inScope_withReports {α : Type} (tree : Tree) (names : List Name)
    (act : ScopeId → Collector α) (linking : Linking) :
    inScope tree names act (linking.withReports on) =
      (inScope tree names act linking).mapState (Linking.withReports on) := by
  unfold inScope
  cases tree.requireScope names <;> rfl

theorem finish_withReports (linking : Linking) :
    (linking.withReports on).finish =
      linking.finish.map fun settled => { settled with value := settled.value.withReports on } := by
  rw [finish, finish, Option.map_map]
  rfl

end Linking

end Switch

end ScopedNames
