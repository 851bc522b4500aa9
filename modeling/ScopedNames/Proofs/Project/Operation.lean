import ScopedNames.Project
import ScopedNames.Proofs.Import.Answers
import ScopedNames.Proofs.Project.Directive
import ScopedNames.Proofs.Project.Step
import ScopedNames.Proofs.Tree.Run

set_option autoImplicit false

namespace ScopedNames

/-- An operation that fails changes nothing. It blames and tells of no ids but those `given` and
those issued, answers where they were issued, and leaves a valid state behind. -/
structure Operates {σ ε α : Type} [HasIds ε] [HasIds α] (tree : σ → Tree) (valid : σ → Prop)
    (given : List Id) (state : σ) (act : Action σ ε α) (told : List Event) : Prop where
  whole : act.AllOrNothing state
  blames : (tree state).Blames (act.outcome state)
  tells : (tree state).Tells given told
  leaves : ∀ value next, act.outcome state = .ok (value, next) →
    valid next ∧ (tree state).Extends (tree next)
  answers : (∀ id ∈ given, (tree state).HasIssued id) → act.outcome state ≠ .stray ∧
    ∀ value next, act.outcome state = .ok (value, next) → (tree next).Issues value

namespace Operates

variable {σ ε α : Type} [HasIds ε] [HasIds α] {tree : σ → Tree} {valid : σ → Prop}
  {given : List Id} {state : σ} {act : Action σ ε α} {told : List Event}
  (operates : Operates tree valid given state act told)

include operates

theorem keeps (start : valid state) : valid (act state).state := by
  rcases operates.whole with ⟨value, answered⟩ | same
  · exact (operates.leaves value _ (Action.outcome_eq_ok_iff.mpr ⟨answered, rfl⟩)).1
  · rwa [same]

theorem grows : (tree state).Extends (tree (act state).state) := by
  rcases operates.whole with ⟨value, answered⟩ | same
  · exact (operates.leaves value _ (Action.outcome_eq_ok_iff.mpr ⟨answered, rfl⟩)).2
  · rw [same]
    exact .refl _

theorem safe (issued : ∀ id ∈ given, (tree state).HasIssued id) :
    ((act state).step told).Safe tree := by
  obtain ⟨answered, values⟩ := operates.answers issued
  refine Step.safe_step ?_ operates.grows
    (operates.tells.mono fun id passed => .inr (issued id passed))
  cases ended : (act state).answer with
  | ok value => exact values value _ (Action.outcome_eq_ok_iff.mpr ⟨ended, rfl⟩)
  | error reason =>
    rw [operates.whole.state_eq (by simp [ended])]
    exact operates.blames reason (Action.outcome_eq_error_iff.mpr ended)
  | stray => exact absurd (Action.outcome_eq_stray_iff.mpr ended) answered

omit operates

section Ended

variable (whole : act.AllOrNothing state)

include whole

theorem of_stray (ended : act.outcome state = .stray)
    (absent : ∃ id ∈ given, ¬ (tree state).HasIssued id) :
    Operates tree valid given state act [] := by
  obtain ⟨id, passed, unknown⟩ := absent
  exact ⟨whole, by simp [ended], Tree.tells_nil, by simp [ended],
    fun issued => absurd (issued id passed) unknown⟩

theorem of_error {reason : ε} (ended : act.outcome state = .error reason)
    (issued : (tree state).Issues reason) (tells : (tree state).Tells given told) :
    Operates tree valid given state act told :=
  ⟨whole, by simp [ended, issued], tells, by simp [ended], by simp [ended]⟩

end Ended

theorem of_ok {value : α} {next : σ} (ended : act.outcome state = .ok (value, next))
    (leaves : valid next) (extension : (tree state).Extends (tree next))
    (issued : (tree next).Issues value) (tells : (tree state).Tells given told) :
    Operates tree valid given state act told := by
  refine ⟨.of_ok ended, by simp [ended], tells, fun other last made => ?_,
    fun _ => ⟨by simp [ended], fun other last made => ?_⟩⟩
  · cases ended.symm.trans made
    exact ⟨leaves, extension⟩
  · cases ended.symm.trans made
    exact issued

end Operates

section Declaring

namespace Tree

variable {tree : Tree} {scope : ScopeId}

/-- What becomes of a declaration: no such scope, a name declared already, or a new declaration. -/
theorem declare_cases (tree : Tree) (scope : ScopeId) (name : Name) (item : NewItem)
    (visibility : Visibility) :
    (scope ∉ tree.scopeIds ∧ tree.declare scope name item visibility = .stray) ∨
    (scope ∈ tree.scopeIds ∧ tree.declare scope name item visibility = .error ⟨name, scope⟩) ∨
    ∃ next, tree.declare scope name item visibility = .ok (tree.nextDecl, next) ∧
      tree.nextDecl ∈ next.declIds ∧ (item = .module → tree.nextScope ∈ next.scopeIds) := by
  cases issued : tree.scope? scope with
  | none =>
    refine .inl ⟨fun listed => ?_, by simp [declare, issued]⟩
    obtain ⟨here, present⟩ := mem_scopeIds.mp listed
    cases issued.symm.trans present
  | some here =>
    have inside := mem_scopeIds.mpr ⟨here, issued⟩
    cases found : here.items.find? name with
    | some existing =>
      exact .inr (.inl ⟨inside, by simp [declare, issued, Registry.contains, found]⟩)
    | none =>
      obtain ⟨next, _, adds⟩ :=
        @adds_of_absent tree (.declare scope name item visibility) here issued found
      refine .inr (.inr ⟨next, adds.answer, ?_, fun opens => ?_⟩)
      · refine mem_declIds.mpr ⟨⟨name, scope, visibility, item.declared tree.nextScope⟩, ?_⟩
        simp [decl?, adds.decls, nextDecl, DeclareStep.name, DeclareStep.scope,
          DeclareStep.visibility, DeclareStep.item]
      · exact mem_scopeIds.mpr ⟨_, adds.opened opens here issued⟩

/-- What a call to declare something answers, and the tree that it makes. -/
def respond (tree : Tree) : DeclareStep → Outcome DuplicateName (Id × Tree)
  | .declare scope name item visibility => do
    let (decl, next) ← tree.declare scope name item visibility
    return (.decl decl, next)
  | .declareScope scope name visibility => do
    let (opened, next) ← tree.declareScope scope name visibility
    return (.scope opened, next)

theorem respond_cases (tree : Tree) (step : DeclareStep) :
    (step.scope ∉ tree.scopeIds ∧ tree.respond step = .stray) ∨
    (step.scope ∈ tree.scopeIds ∧ tree.respond step = .error ⟨step.name, step.scope⟩) ∨
    ∃ id next, tree.respond step = .ok (id, next) ∧ next.HasIssued id ∧
      tree.declare step.scope step.name step.item step.visibility = .ok (tree.nextDecl, next) := by
  cases step with
  | declare scope name item visibility =>
    rcases tree.declare_cases scope name item visibility with
      ⟨absent, failed⟩ | ⟨inside, failed⟩ | ⟨next, made, known, _⟩
    · exact .inl ⟨absent, by simp [respond, failed]⟩
    · exact .inr (.inl ⟨inside, by simp [respond, failed, DeclareStep.name, DeclareStep.scope]⟩)
    · exact .inr (.inr ⟨.decl tree.nextDecl, next, by simp [respond, made], known, made⟩)
  | declareScope scope name visibility =>
    rcases tree.declare_cases scope name .module visibility with
      ⟨absent, failed⟩ | ⟨inside, failed⟩ | ⟨next, made, _, opened⟩
    · exact .inl ⟨absent, by simp [respond, declareScope, failed]⟩
    · exact .inr (.inl ⟨inside, by
        simp [respond, declareScope, failed, DeclareStep.name, DeclareStep.scope]⟩)
    · exact .inr (.inr ⟨.scope tree.nextScope, next, by simp [respond, declareScope, made],
        opened rfl, made⟩)

theorem Grown.declare {next : Tree} (grown : tree.Grown) {name : Name} {item : NewItem}
    {visibility : Visibility} {decl : DeclId}
    (declared : tree.declare scope name item visibility = .ok (decl, next)) :
    next.Grown ∧ tree.Extends next := by
  obtain ⟨externalName, grows⟩ := grown
  exact ⟨⟨externalName, .declare grows declared⟩, Grows.extends (.declare (.same tree) declared)⟩

end Tree

namespace Draft

theorem allOrNothing_onTree {α : Type} {act : Action Tree DuplicateName α} {draft : Draft}
    (whole : act.AllOrNothing draft.tree) : (onTree act).AllOrNothing draft :=
  .mapError (.onPart (fun _ known => Option.some.inj known ▸ whole)
    fun _ known => by cases known; rfl) _

theorem allOrNothing_declaring (draft : Draft) (request : DeclareRequest) :
    (declaring draft.tree request).AllOrNothing draft :=
  .lift_bind fun _ _ => allOrNothing_onTree (.once _)

/-- Declares something in the tree itself. -/
def declaringIn (step : DeclareStep) : Action Draft ProjectError Id :=
  onTree (.once (·.respond step))

def declareInEvents (draft : Draft) (step : DeclareStep) : List Event :=
  match (declaringIn step).outcome draft with
  | .ok _ => [Event.declared step.visibility step.name step.scope]
  | .error _ | .stray => []

/-- Declares in the tree itself. The failure of it is not reported. -/
def declareIn (draft : Draft) (step : DeclareStep) : Step Draft ProjectError Id :=
  (declaringIn step draft).step (draft.declareInEvents step)

/-- A draft of this configuration whose tree was built. -/
structure Valid (config : Config) (draft : Draft) : Prop where
  config : draft.config = config
  grown : draft.tree.Grown

variable {config : Config} {draft : Draft}

theorem Valid.operates_declareIn (valid : draft.Valid config) (step : DeclareStep) :
    Operates Draft.tree (Draft.Valid config) [.scope step.scope] draft (declaringIn step)
      (draft.declareInEvents step) := by
  have whole : (declaringIn step).AllOrNothing draft := allOrNothing_onTree (.once _)
  rcases draft.tree.respond_cases step with
    ⟨absent, failed⟩ | ⟨inside, failed⟩ | ⟨id, next, made, known, declared⟩
  · have ended : (declaringIn step).outcome draft = .stray := by
      simp [declaringIn, failed, Outcome.mapError]
    rw [declareInEvents, ended]
    exact .of_stray whole ended ⟨.scope step.scope, List.mem_cons_self, absent⟩
  · have ended : (declaringIn step).outcome draft =
        .error (.duplicate ⟨step.name, step.scope⟩) := by
      simp [declaringIn, failed, Outcome.mapError]
    rw [declareInEvents, ended]
    exact .of_error whole ended (Tree.issues_duplicateName.mpr inside) Tree.tells_nil
  · have ended : (declaringIn step).outcome draft = .ok (id, { draft with tree := next }) := by
      simp [declaringIn, made, Outcome.mapError]
    obtain ⟨grown, extension⟩ := valid.grown.declare declared
    rw [declareInEvents, ended]
    refine .of_ok ended ⟨valid.config, grown⟩ extension (Tree.issues_id.mpr known) ?_
    simp [Event.isReport, Event.shown]

theorem Valid.operates_declare (valid : draft.Valid config) (request : DeclareRequest) :
    Operates Draft.tree (Draft.Valid config) [] draft (declaring draft.tree request)
      (draft.declareEvents request) := by
  have whole := draft.allOrNothing_declaring request
  cases led : draft.tree.scopeAt? request.scope with
  | none =>
    obtain ⟨path, ended⟩ : ∃ path,
        (declaring draft.tree request).outcome draft = .error (.unknownScope path) :=
      ⟨_, by simp [declaring, Tree.requireScope, led]; rfl⟩
    rw [declareEvents, ended]
    exact .of_error whole ended (Tree.issues_unknownScope path) Tree.tells_nil
  | some scope =>
    have inside := valid.grown.sound.mem_scopeIds_of_scopeAt? led
    have asked := Tree.requireScope_eq_ok_iff.mpr led
    rcases draft.tree.declare_cases scope request.name request.item request.visibility with
      ⟨absent, _⟩ | ⟨_, failed⟩ | ⟨next, made, known, _⟩
    · exact absurd inside absent
    · have ended : (declaring draft.tree request).outcome draft =
          .error (.duplicate ⟨request.name, scope⟩) := by
        simp [declaring, asked, failed, Outcome.mapError]
      rw [declareEvents, ended]
      exact .of_error whole ended (Tree.issues_duplicateName.mpr inside) Tree.tells_nil
    · have ended : (declaring draft.tree request).outcome draft =
          .ok (draft.tree.nextDecl, { draft with tree := next }) := by
        simp [declaring, asked, made, Outcome.mapError]
      obtain ⟨grown, extension⟩ := valid.grown.declare made
      rw [declareEvents, ended, led]
      refine .of_ok ended ⟨valid.config, grown⟩ extension (Tree.issues_decl.mpr known) ?_
      have issued : draft.tree.HasIssued (.scope scope) := inside
      simp [Event.isReport, Event.shown, issued]

end Draft

end Declaring

section Collecting

namespace Tree

variable {tree : Tree}

theorem blames_requireScope (tree : Tree) (names : List Name) :
    tree.Blames (tree.requireScope names) := by
  unfold requireScope
  cases tree.scopeAt? names <;> simp

theorem requireScope_ne_stray (tree : Tree) (names : List Name) :
    tree.requireScope names ≠ .stray := by
  unfold requireScope
  cases tree.scopeAt? names <;> simp

end Tree

/-- What a step asks the log to be told. -/
def Imports.stepEvents (imports : Imports) (tree : Tree) : ImportStep → List Event
  | .importPath importing path asName reexport =>
    importPathEvents tree importing path asName reexport
  | .importGlob importing target => imports.importGlobEvents tree importing target
  | .importGlobPath importing path => imports.importGlobPathEvents tree importing path
  | .settle => settleEvents tree imports imports.globs

theorem Imports.Within.tells_stepEvents {tree : Tree} {imports : Imports}
    (within : imports.Within tree) (sound : tree.Sound) (step : ImportStep) :
    tree.Tells step.passed (imports.stepEvents tree step) := by
  cases step with
  | importPath importing path asName reexport =>
    exact tells_importPathEvents sound importing path asName reexport
  | importGlob importing target =>
    exact (imports.tells_importGlobEvents tree importing target).mono
      (by simp [ImportStep.passed])
  | importGlobPath importing path => exact tells_importGlobPathEvents sound imports importing path
  | settle =>
    have globs := (issues_iff.mp within.issued).2
    exact imports.tells_settleEvents (Tree.issues_list.mp globs)

namespace Linking

theorem allOrNothing_collecting {α : Type} {act : Collector α} {linking : Linking}
    (whole : act.AllOrNothing linking.imports) : (collecting act).AllOrNothing linking :=
  .mapError (.onPart (fun _ known => Option.some.inj known ▸ whole)
    fun _ known => by cases known; rfl) _

theorem allOrNothing_inScope {α : Type} {act : ScopeId → Collector α} {linking : Linking}
    (whole : ∀ scope, (act scope).AllOrNothing linking.imports) (tree : Tree)
    (names : List Name) : (inScope tree names act).AllOrNothing linking :=
  .lift_bind fun scope _ => allOrNothing_collecting (whole scope)

/-- Takes a step in the imports themselves. The failure of it is not reported. -/
def collect (linking : Linking) (step : ImportStep) :
    Step Linking ProjectError (Option DeclId) :=
  (collecting (step.act linking.tree) linking).step
    (linking.imports.stepEvents linking.tree step)

/-- A linking of this configuration whose imports were collected over this tree. -/
structure Valid (config : Config) (tree : Tree) (linking : Linking) : Prop where
  config : linking.config = config
  collected : ∃ steps, linking.imports = tree.collect steps
  tree : linking.tree = tree

namespace Valid

variable {config : Config} {tree : Tree} {linking : Linking} (valid : linking.Valid config tree)

include valid

theorem faithful : linking.imports.Faithful tree := by
  obtain ⟨steps, same⟩ := valid.collected
  rw [same]
  exact (tree.collect_faithful steps).1

theorem within (grown : tree.Grown) : linking.imports.Within tree := by
  obtain ⟨steps, same⟩ := valid.collected
  rw [same]
  exact Imports.within_collect grown steps

/-- Another step collects on. -/
theorem take {step : ImportStep} {next : Imports}
    (taken : linking.imports.take tree step = .ok next) :
    ({ linking with imports := next } : Linking).Valid config tree := by
  obtain ⟨steps, same⟩ := valid.collected
  refine ⟨valid.config, ⟨steps ++ [step], ?_⟩, valid.tree⟩
  rw [Tree.collect_concat, ← same, Imports.attempt_of_take taken]

variable (grown : tree.Grown)

include grown

theorem operates_collect (step : ImportStep) :
    Operates Linking.tree (Linking.Valid config tree) step.passed linking
      (collecting (step.act linking.tree)) (linking.imports.stepEvents linking.tree step) := by
  have within := valid.within grown
  have whole := Imports.allOrNothing_act within.sized step
  have sound := grown.sound
  obtain rfl := valid.tree
  have outcome : (collecting (step.act linking.tree)).outcome linking =
      (linking.imports.respond linking.tree step).mapError .imports >>= fun made =>
        .ok (made.1, { linking with imports := made.2 }) := outcome_collecting _ _
  have succeeded {found next}
      (made : (collecting (step.act linking.tree)).outcome linking = .ok (found, next)) :
      ∃ imports, linking.imports.respond linking.tree step = .ok (found, imports) ∧
        next = { linking with imports } := by
    obtain ⟨⟨answer, imports⟩, responded, same⟩ := Outcome.bind_eq_ok.mp (outcome.symm.trans made)
    cases same
    exact ⟨imports, Outcome.mapError_eq_ok_iff.mp responded, rfl⟩
  refine ⟨allOrNothing_collecting whole, ?_, within.tells_stepEvents sound step,
    fun found next made => ?_, fun issued => ⟨?_, fun found next made => ?_⟩⟩
  · have blames := within.blames_respond sound step
    rw [outcome]
    exact (blames.mapError ProjectError.imports fun _ => id).bind fun _ _ => Tree.blames_ok _
  · obtain ⟨imports, responded, rfl⟩ := succeeded made
    exact ⟨valid.take (Imports.respond_eq_ok_iff.mp responded).1, .refl _⟩
  · have answered := valid.faithful.respond_ne_stray sound issued
    have wrapped := Outcome.mapError_ne_stray ProjectError.imports answered
    rw [outcome]
    exact Outcome.bind_ne_stray wrapped fun _ _ => by simp
  · obtain ⟨imports, responded, rfl⟩ := succeeded made
    exact Imports.issues_of_respond sound responded

/-- What is done in a scope is some step that finds the scope by its names. -/
theorem operates_inScope {α : Type} [HasIds α] (names : List Name)
    {act : ScopeId → Collector α} {events : ScopeId → List Event}
    (whole : ∀ scope, (act scope).AllOrNothing linking.imports)
    (blames : ∀ scope, tree.Blames ((act scope).outcome linking.imports))
    (tells : ∀ scope, tree.Tells [.scope scope] (events scope))
    (takes : ∀ scope value next, (act scope).outcome linking.imports = .ok (value, next) →
      tree.Issues value ∧ ∃ step, linking.imports.take tree step = .ok next)
    (answers : ∀ scope ∈ tree.scopeIds, (act scope).outcome linking.imports ≠ .stray) :
    Operates Linking.tree (Linking.Valid config tree) [] linking (inScope tree names act)
      (linking.scopeEvents names events) := by
  obtain rfl := valid.tree
  have sound := grown.sound
  refine ⟨allOrNothing_inScope whole linking.tree names, ?_, ?_, fun value next made => ?_,
    fun _ => ⟨?_, fun value next made => ?_⟩⟩
  · rw [outcome_inScope]
    refine (linking.tree.blames_requireScope names).bind fun scope _ => ?_
    have wrapped := (blames scope).mapError ProjectError.imports fun _ => id
    exact wrapped.bind fun _ _ => Tree.blames_ok _
  · -- No id is passed: the scope that is told of was found by its names.
    rw [scopeEvents]
    cases led : linking.tree.scopeAt? names with
    | none => exact Tree.tells_nil
    | some scope =>
      have issued : linking.tree.HasIssued (.scope scope) := sound.mem_scopeIds_of_scopeAt? led
      exact (tells scope).mono (by simp [issued])
  · obtain ⟨scope, _, imports, acted, rfl⟩ := inScope_eq_ok_iff.mp made
    obtain ⟨_, step, taken⟩ := takes scope value imports acted
    exact ⟨valid.take taken, .refl _⟩
  · rw [outcome_inScope]
    refine Outcome.bind_ne_stray (linking.tree.requireScope_ne_stray names) fun scope asked => ?_
    have inside := sound.mem_scopeIds_of_scopeAt? (Tree.requireScope_eq_ok_iff.mp asked)
    have answered := Outcome.mapError_ne_stray ProjectError.imports (answers scope inside)
    exact Outcome.bind_ne_stray answered fun _ _ => by simp
  · obtain ⟨scope, _, imports, acted, rfl⟩ := inScope_eq_ok_iff.mp made
    exact (takes scope value imports acted).1

theorem operates_importPath (request : ImportRequest) :
    Operates Linking.tree (Linking.Valid config tree) [] linking
      (inScope tree request.scope fun scope =>
        .importPath tree scope request.path request.asName request.reexport)
      (linking.scopeEvents request.scope fun scope =>
        Imports.importPathEvents tree scope request.path request.asName request.reexport) := by
  have within := valid.within grown
  have sound := grown.sound
  refine valid.operates_inScope grown request.scope
    (fun scope => Imports.allOrNothing_importPath ..) (fun scope => ?_) (fun scope => ?_)
    (fun scope decl next made => ?_) fun scope inside => ?_
  · exact within.blames_importPath sound scope request.path request.asName request.reexport
  · exact Imports.tells_importPathEvents sound scope request.path request.asName request.reexport
  · have resolved := (Imports.importPath_eq_ok_iff.mp made).1
    refine ⟨Tree.issues_decl.mpr (sound.mem_declIds_of_resolve resolved),
      .importPath scope request.path request.asName request.reexport, ?_⟩
    exact Outcome.bind_eq_ok.mpr ⟨_, made, rfl⟩
  · exact Imports.importPath_ne_stray sound within.sized inside request.path request.asName
      request.reexport

theorem operates_importGlob (request : GlobRequest) :
    Operates Linking.tree (Linking.Valid config tree) [] linking
      (inScope tree request.scope fun scope => .importGlobPath tree scope request.target)
      (linking.scopeEvents request.scope fun scope =>
        linking.imports.importGlobPathEvents tree scope request.target) := by
  have within := valid.within grown
  have sound := grown.sound
  refine valid.operates_inScope grown request.scope
    (fun scope => Imports.allOrNothing_importGlobPath within.sized ..) (fun scope => ?_)
    (fun scope => ?_) (fun scope nothing next made => ?_) fun scope inside => ?_
  · rw [Imports.outcome_importGlobPath]
    exact (Imports.Within.blames_importGlobPath sound scope request.target).bind
      fun _ _ => Tree.blames_ok _
  · exact Imports.tells_importGlobPathEvents sound linking.imports scope request.target
  · refine ⟨Tree.issues_unit (), .importGlobPath scope request.target, ?_⟩
    exact Outcome.bind_eq_ok.mpr ⟨_, made, rfl⟩
  · have answered := Imports.importGlobPath_ne_stray sound within.sized inside request.target
    rw [Imports.outcome_importGlobPath]
    exact Outcome.bind_ne_stray answered fun _ _ => by simp

end Valid

end Linking

end Collecting

section Asking

namespace Project

/-- Takes up the imports of a project again. -/
def resume (project : Project) : Linking := ⟨project.config, project.tree, project.imports⟩

/-- A question, as a step that leaves the project as it is. -/
def ask (project : Project) (found : Logged (Outcome LookupError DeclId)) :
    Step Project ProjectError DeclId :=
  ⟨project, found.value.mapError .resolution, found.events⟩

/-- A question about a path written as text, as a step that leaves the project as it is. -/
def askText (project : Project) (text : String) (origin : ScopeId) :
    Step Project ProjectError DeclId :=
  let found := project.resolveText text origin
  ⟨project, found.value, found.events⟩

/-- Asks a question that changes nothing. -/
def asking (found : Outcome LookupError DeclId) : Action Project ProjectError DeclId :=
  .give (found.mapError .resolution)

variable {project : Project}

theorem ask_report (project : Project) (found : Outcome LookupError DeclId)
    (events : List Event) :
    project.ask (project.config.report (LookupError.describe project.tree) found events) =
      project.config.reportStep (ProjectError.describe project.tree) (asking found project)
        events := by
  cases found with
  | ok decl => rfl
  | stray => rfl
  | error reason =>
    simp only [ask, asking, Action.give, Config.reportStep, Config.report, Outcome.mapError,
      ProjectError.describe]
    cases project.config.reportsErrors with
    | false => rfl
    | true => cases reason.describe project.tree <;> rfl

/-- A text that is a path is resolved; one that is not fails without a report. -/
theorem askText_eq (project : Project) (text : String) (origin : ScopeId) :
    project.askText text origin =
      match Path.parse project.config.spelling text with
      | .ok path => project.ask (project.resolve path origin)
      | .error reason => ⟨project, .error (.badPath reason), []⟩ := by
  rw [askText, resolveText]
  cases Path.parse project.config.spelling text <;> rfl

variable {config : Config} {tree : Tree} (valid : project.resume.Valid config tree)

include valid

theorem operates_ask {given : List Id} {found : Outcome LookupError DeclId} {events : List Event}
    (blames : tree.Blames found) (tells : tree.Tells given events)
    (answers : (∀ id ∈ given, tree.HasIssued id) → tree.Answers found) :
    Operates Project.tree (fun project => project.resume.Valid config tree) given project
      (asking found) events := by
  obtain rfl : project.tree = tree := valid.tree
  have succeeded {decl next} (made : (asking found).outcome project = .ok (decl, next)) :
      found = .ok decl ∧ next = project := by
    obtain ⟨answer, wrapped, same⟩ := Outcome.bind_eq_ok.mp made
    cases same
    exact ⟨Outcome.mapError_eq_ok_iff.mp wrapped, rfl⟩
  refine ⟨.give _, ?_, tells, fun decl next made => ?_,
    fun issued => ⟨?_, fun decl next made => ?_⟩⟩
  · exact (blames.mapError ProjectError.resolution fun _ => id).bind fun _ _ => Tree.blames_ok _
  · obtain ⟨_, rfl⟩ := succeeded made
    exact ⟨valid, .refl _⟩
  · have answered := (Tree.answers_iff.mp (answers issued)).1
    have wrapped := Outcome.mapError_ne_stray ProjectError.resolution answered
    exact Outcome.bind_ne_stray wrapped fun _ _ => by simp
  · obtain ⟨known, rfl⟩ := succeeded made
    exact (Tree.answers_iff.mp (answers issued)).2.2 decl known

end Project

end Asking

end ScopedNames
