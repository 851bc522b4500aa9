import ScopedNames.Config
import ScopedNames.Diagnostic
import ScopedNames.Log
import ScopedNames.Path

set_option autoImplicit false

namespace ScopedNames

inductive ProjectError where
  /-- No declared module has this path. -/
  | unknownScope (path : String)
  | duplicate (reason : DuplicateName)
  | imports (reason : ImportError)
  | resolution (reason : LookupError)
  | badPath (reason : PathError)
  deriving DecidableEq, Repr

namespace ProjectError

def message : ProjectError → String
  | .unknownScope path => s!"unknown scope `{path}`"
  | .duplicate reason => reason.message
  | .imports reason => reason.message
  | .resolution reason => reason.message
  | .badPath reason => reason.message

def describe (tree : Tree) : ProjectError → Option Diagnostic
  | .unknownScope path => some ((Diagnostic.error s!"unknown scope `{path}`").remark
      .hint "declare a module before declaring or importing anything in it")
  | .duplicate reason => reason.describe tree
  | .imports reason => reason.describe tree
  | .resolution reason => reason.describe tree
  | .badPath reason => some (Diagnostic.error reason.message)

end ProjectError

/-- The scope that the names of modules lead to. -/
def Tree.requireScope (tree : Tree) (segments : List Name) : Outcome ProjectError ScopeId :=
  match tree.scopeAt? segments with
  | some scope => .ok scope
  | none => .error (.unknownScope
      (Spelling.standard.separator.intercalate (Spelling.standard.rootWord :: segments)))

/-- What an operation gives, and what it tells the log. -/
structure Logged (α : Type) where
  value : α
  events : List Event

/-- What an operation changes, answers and tells the log. -/
structure Step (σ ε α : Type) where
  state : σ
  answer : Outcome ε α
  events : List Event

/-- Takes requests in order, up to the first that fails. -/
def Step.all {σ ε α δ : Type} (step : σ → δ → Step σ ε α) (state : σ) : List δ → Step σ ε Unit
  | [] => ⟨state, .ok (), []⟩
  | request :: requests =>
    let first := step state request
    match first.answer with
    | .ok _ =>
      let rest := Step.all step first.state requests
      { rest with events := first.events ++ rest.events }
    | .error reason => ⟨first.state, .error reason, first.events⟩
    | .stray => ⟨first.state, .stray, first.events⟩

/-- The answer of an operation after its error, if it is one and the configuration asks for it, has
been reported. An error that speaks of a stray id cannot be. -/
def Config.report {ε α : Type} (config : Config) (describe : ε → Option Diagnostic)
    (answer : Outcome ε α) (events : List Event) : Logged (Outcome ε α) :=
  match answer with
  | .error reason =>
    if config.reportsErrors then
      match describe reason with
      | some diagnostic => ⟨answer, events ++ [.reported diagnostic]⟩
      | none => ⟨.stray, events⟩
    else ⟨answer, events⟩
  | .ok _ | .stray => ⟨answer, events⟩

/-- Reports like `Config.report` for an operation that leaves a state behind. -/
def Config.reportStep {σ ε α : Type} (config : Config) (describe : ε → Option Diagnostic)
    (made : Effect σ ε α) (events : List Event) : Step σ ε α :=
  let reported := config.report describe made.answer events
  ⟨made.state, reported.value, reported.events⟩

/-- Asks for an item in the scope that the names of modules lead to. -/
structure DeclareRequest where
  scope : List Name
  name : Name
  item : NewItem
  visibility : Visibility
  deriving DecidableEq, Repr

structure Draft where
  config : Config
  tree : Tree
  deriving DecidableEq, Repr

namespace Draft

def new (config : Config) : Draft := ⟨config, .empty config.externalName⟩

/-- Works on the tree of a draft. -/
def onTree {α : Type} (act : Action Tree DuplicateName α) : Action Draft ProjectError α :=
  (act.onPart (fun draft => some draft.tree) fun draft tree => { draft with tree }).mapError
    .duplicate

@[simp] theorem outcome_onTree {α : Type} (act : Action Tree DuplicateName α) (draft : Draft) :
    (onTree act).outcome draft = do
      let (value, tree) ← (act.outcome draft.tree).mapError .duplicate
      return (value, { draft with tree }) := by
  simp [onTree, Outcome.mapError_bind]

/-- Declares an item in the scope that names lead to. -/
def declaring (tree : Tree) (request : DeclareRequest) : Action Draft ProjectError DeclId := do
  let scope ← tree.requireScope request.scope
  onTree (.once (·.declare scope request.name request.item request.visibility))

def declareEvents (draft : Draft) (request : DeclareRequest) : List Event :=
  match (declaring draft.tree request).outcome draft, draft.tree.scopeAt? request.scope with
  | .ok _, some scope => [Event.declared request.visibility request.name scope]
  | _, _ => []

def declare (draft : Draft) (request : DeclareRequest) : Step Draft ProjectError DeclId :=
  draft.config.reportStep (ProjectError.describe draft.tree) (declaring draft.tree request draft)
    (draft.declareEvents request)

/-- Declares in order, up to the first failure. -/
def declareAll (draft : Draft) (requests : List DeclareRequest) : Step Draft ProjectError Unit :=
  Step.all declare draft requests

end Draft

/-- Asks for an import in the scope that the names of modules lead to. -/
structure ImportRequest where
  scope : List Name
  path : Path
  asName : Option Name
  reexport : Bool
  deriving DecidableEq, Repr

/-- Asks for an import of everything the module of a path has to offer. -/
structure GlobRequest where
  scope : List Name
  target : Path
  deriving DecidableEq, Repr

structure Linking where
  config : Config
  tree : Tree
  imports : Imports
  deriving DecidableEq, Repr

/-- Completes the tree. -/
def Draft.finish (draft : Draft) : Logged Linking :=
  ⟨⟨draft.config, draft.tree, .empty draft.tree⟩,
    [.completed draft.tree.scopes.size draft.tree.decls.size]⟩

namespace Linking

/-- Collects into the imports of a linking, and keeps what is left of them, whatever the answer. -/
def collecting {α : Type} (act : Collector α) : Action Linking ProjectError α :=
  (act.onPart (fun linking => some linking.imports)
    fun linking imports => { linking with imports }).mapError .imports

@[simp] theorem outcome_collecting {α : Type} (act : Collector α) (linking : Linking) :
    (collecting act).outcome linking = do
      let (value, imports) ← (act.outcome linking.imports).mapError .imports
      return (value, { linking with imports }) := by
  simp [collecting, Outcome.mapError_bind]

/-- Collects into the imports of the scope that names lead to. -/
def inScope {α : Type} (tree : Tree) (names : List Name) (act : ScopeId → Collector α) :
    Action Linking ProjectError α := do
  let scope ← tree.requireScope names
  collecting (act scope)

theorem outcome_inScope {α : Type} (tree : Tree) (names : List Name) (act : ScopeId → Collector α)
    (linking : Linking) : (inScope tree names act).outcome linking = do
      let scope ← tree.requireScope names
      let (value, imports) ← ((act scope).outcome linking.imports).mapError .imports
      return (value, { linking with imports }) := by
  cases asked : tree.requireScope names <;> simp [inScope, asked]

/-- What is told of something done in the scope that names lead to. -/
def scopeEvents (linking : Linking) (names : List Name) (events : ScopeId → List Event) :
    List Event :=
  match linking.tree.scopeAt? names with
  | some scope => events scope
  | none => []

def importPath (linking : Linking) (request : ImportRequest) : Step Linking ProjectError DeclId :=
  linking.config.reportStep (ProjectError.describe linking.tree)
    (inScope linking.tree request.scope (fun scope =>
      .importPath linking.tree scope request.path request.asName request.reexport) linking)
    (linking.scopeEvents request.scope fun scope =>
      Imports.importPathEvents linking.tree scope request.path request.asName request.reexport)

def importGlob (linking : Linking) (request : GlobRequest) : Step Linking ProjectError Unit :=
  linking.config.reportStep (ProjectError.describe linking.tree)
    (inScope linking.tree request.scope
      (fun scope => .importGlobPath linking.tree scope request.target) linking)
    (linking.scopeEvents request.scope fun scope =>
      linking.imports.importGlobPathEvents linking.tree scope request.target)

/-- Imports in order, up to the first failure. -/
def importPaths (linking : Linking) (requests : List ImportRequest) :
    Step Linking ProjectError Unit :=
  Step.all importPath linking requests

/-- Imports by globs in order, up to the first failure. -/
def importGlobs (linking : Linking) (requests : List GlobRequest) :
    Step Linking ProjectError Unit :=
  Step.all importGlob linking requests

end Linking

structure Project where
  config : Config
  tree : Tree
  imports : Imports
  deriving DecidableEq, Repr

/-- Settles the imports. -/
def Linking.finish (linking : Linking) : Option (Logged Project) :=
  (linking.imports.settle linking.tree).map fun imports =>
    ⟨⟨linking.config, linking.tree, imports⟩,
      Imports.settleEvents linking.tree linking.imports linking.imports.globs⟩

namespace Project

def resolve (project : Project) (path : Path) (origin : ScopeId) :
    Logged (Outcome LookupError DeclId) :=
  project.config.report (LookupError.describe project.tree) (project.tree.resolve path origin)
    (project.tree.resolveEvents path origin)

/-- Resolves a path written as the configuration says. A text that is no path is not reported. -/
def resolveText (project : Project) (text : String) (origin : ScopeId) :
    Logged (Outcome ProjectError DeclId) :=
  match Path.parse project.config.spelling text with
  | .error reason => ⟨.error (.badPath reason), []⟩
  | .ok path =>
    let resolved := project.resolve path origin
    ⟨resolved.value.mapError .resolution, resolved.events⟩

/-- What a name written in a scope stands for, imports included. -/
def lookup (project : Project) (name : Name) (scope : ScopeId) :
    Logged (Outcome LookupError DeclId) :=
  project.config.report (LookupError.describe project.tree)
    (project.imports.lookup project.tree name scope)
    (project.imports.lookupEvents project.tree name scope)

/-- What a path names, where its last segment may be a re-export. -/
def resolveImported (project : Project) (path : Path) (origin : ScopeId) :
    Logged (Outcome LookupError DeclId) :=
  project.config.report (LookupError.describe project.tree)
    (project.imports.resolve project.tree path origin)
    (project.imports.resolveEvents project.tree path origin)

end Project

end ScopedNames
