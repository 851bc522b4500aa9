import ScopedNames.Diagnostic
import ScopedNames.Import

set_option autoImplicit false

namespace ScopedNames

inductive Event where
  | declared (visibility : Visibility) (name : Name) (scope : ScopeId)
  /-- The tree is complete, with so many scopes and declarations. -/
  | completed (scopes decls : Nat)
  /-- A path led into a module. -/
  | entered (name : Name) (scope : ScopeId)
  | resolved (path : Path) (origin : ScopeId) (decl : DeclId)
  | unresolved (path : Path) (origin : ScopeId) (reason : LookupError)
  /-- A path led to a re-export of a scope. -/
  | resolvedReexport (path : Path) (scope : ScopeId)
  /-- An explicit import was asked for. -/
  | imported (path : Path) (name : Name) (scope : ScopeId) (reexport : Bool)
  /-- A scope was to import from itself. -/
  | ignoredGlob (scope : ScopeId)
  /-- A glob cannot see a name. -/
  | skipped (name : Name) (scope : ScopeId)
  /-- A name that a glob claims is explicitly imported. -/
  | shadowed (name : Name) (scope : ScopeId)
  /-- A name became ambiguous, or more so, by a glob import from `source`. -/
  | disputed (name : Name) (scope source : ScopeId)
  /-- An ambiguous name was looked up. -/
  | ambiguous (name : Name) (scope : ScopeId)
  | reported (diagnostic : Diagnostic)
  deriving DecidableEq, Repr

/-- A line of the log. -/
structure Record where
  level : Level
  text : String
  deriving DecidableEq, Repr

namespace Event

def level : Event → Level
  | .completed _ _ | .unresolved _ _ _ | .ignoredGlob _ | .disputed _ _ _ | .ambiguous _ _ => .debug
  | .reported diagnostic => diagnostic.severity.level
  | .declared _ _ _ | .entered _ _ | .resolved _ _ _ | .resolvedReexport _ _ | .imported _ _ _ _
  | .skipped _ _ | .shadowed _ _ => .trace

def text (tree : Tree) : Event → Option String
  | .declared visibility name scope => do
    let place ← tree.scopeText scope
    return s!"declared {visibility.text} {name} in {place}"
  | .completed scopes decls =>
    return s!"module tree done: {scopes} scope(s), {decls} declaration(s)"
  | .entered name scope => do
    let place ← tree.scopeText scope
    return s!"  {name} -> {place}"
  | .resolved path origin decl => do
    let place ← tree.scopeText origin
    let found ← tree.declText decl
    return s!"resolved {path.text} from {place} to {found}"
  | .unresolved path origin reason => do
    let place ← tree.scopeText origin
    return s!"failed to resolve {path.text} from {place}: {reason.message}"
  | .resolvedReexport path scope => do
    let place ← tree.scopeText scope
    return s!"{path.text} resolved through re-export in {place}"
  | .imported path name scope reexport => do
    let place ← tree.scopeText scope
    let passing := if reexport then "pub " else ""
    return s!"{passing}use {path.text} as {name} in {place}"
  | .ignoredGlob scope => do
    let place ← tree.scopeText scope
    return s!"ignoring glob import of {place} into itself"
  | .skipped name scope => do
    let place ← tree.scopeText scope
    return s!"glob skips {name} (not visible from {place})"
  | .shadowed name scope => do
    let place ← tree.scopeText scope
    return s!"glob import of {name} shadowed by explicit import in {place}"
  | .disputed name scope source => do
    let place ← tree.scopeText scope
    let origin ← tree.scopeText source
    return s!"`{name}` is now ambiguous in {place} (also glob-imported from {origin})"
  | .ambiguous name scope => do
    let place ← tree.scopeText scope
    return s!"`{name}` is ambiguous in {place}"
  | .reported diagnostic => return diagnostic.body

def record? (tree : Tree) (event : Event) : Option Record :=
  (event.text tree).map fun text => ⟨event.level, text⟩

/-- The lines of a log that goes down to `finest`, none if one of them speaks of a stray id. -/
def records? (tree : Tree) (finest : Level) (events : List Event) : Option (List Record) :=
  (events.filter (·.level.isShownAt finest)).mapM (record? tree)

end Event

namespace Tree

/-- The modules entered by a walk, up to where it ends. -/
def walkEvents (tree : Tree) (origin : ScopeId) : ScopeId → List Name → List Event
  | _, [] => []
  | scope, name :: names =>
    match tree.enter origin scope name with
    | .ok child => .entered name child :: tree.walkEvents origin child names
    | .error _ | .stray => []

def reachEvents (tree : Tree) (path : Path) (origin : ScopeId) : List Event :=
  match tree.start path.root origin with
  | .ok scope => tree.walkEvents origin scope path.modules
  | .error _ | .stray => []

/-- The modules entered, and then the declaration found or the reason why there is none. -/
def resolveEvents (tree : Tree) (path : Path) (origin : ScopeId) : List Event :=
  tree.reachEvents path origin ++
    match tree.resolve path origin with
    | .ok decl => [.resolved path origin decl]
    | .error reason => [.unresolved path origin reason]
    | .stray => []

end Tree

/-- What becomes of a glob's claims, one after the other. -/
def BindingTable.claimEvents (importing source : ScopeId) :
    BindingTable → List (Name × DeclId) → List Event
  | _, [] => []
  | table, (name, target) :: offers =>
    let rest := claimEvents importing source (table.claim name ⟨target, source⟩) offers
    match Binding.reception (table.find? name) ⟨target, source⟩ with
    | .taken | .repeated => rest
    | .shadowed => .shadowed name importing :: rest
    | .disputed => .disputed name importing source :: rest

/-- The items of `target` that `importing` cannot see. -/
def Tree.skipEvents (tree : Tree) (importing target : ScopeId) : List Event :=
  match tree.scope? target, tree.visibleItems importing target with
  | some here, some visible =>
    (here.items.entries.filter (· ∉ visible)).map fun (name, _) => .skipped name importing
  | _, _ => []

namespace Imports

def importPathEvents (tree : Tree) (importing : ScopeId) (path : Path) (asName : Option Name)
    (reexport : Bool) : List Event :=
  tree.resolveEvents path importing ++
    match tree.resolve path importing with
    | .ok _ => [.imported path (asName.getD path.name) importing reexport]
    | .error _ | .stray => []

def claimEvents (imports : Imports) (importing target : ScopeId)
    (offers : List (Name × DeclId)) : List Event :=
  match imports.table? importing with
  | some table => table.claimEvents importing target offers
  | none => []

def claimReexportsEvents (imports : Imports) (tree : Tree) (glob : Glob) : List Event :=
  match imports.openReexports tree glob.target with
  | some offers => imports.claimEvents glob.importing glob.target offers
  | none => []

def importGlobEvents (imports : Imports) (tree : Tree) (importing target : ScopeId) : List Event :=
  match tree.barrier target importing with
  | some none =>
    if importing = target then [.ignoredGlob target]
    else
      let items := (tree.visibleItems importing target).getD []
      let claimed := (imports.claimAll importing target items).getD imports
      tree.skipEvents importing target ++ imports.claimEvents importing target items ++
        claimed.claimReexportsEvents tree ⟨importing, target⟩
  | _ => []

def importGlobPathEvents (imports : Imports) (tree : Tree) (importing : ScopeId)
    (path : Path) : List Event :=
  tree.resolveEvents path importing ++
    match tree.scopeNamed path importing with
    | .ok target => imports.importGlobEvents tree importing target
    | .error _ | .stray => []

/-- What becomes of the claims that globs make when the imports are settled. -/
def settleEvents (tree : Tree) : Imports → List Glob → List Event
  | _, [] => []
  | imports, glob :: globs =>
    imports.claimReexportsEvents tree glob ++
      settleEvents tree ((imports.claimReexports tree glob).getD imports) globs

def lookupEvents (imports : Imports) (tree : Tree) (name : Name) (scope : ScopeId) : List Event :=
  match imports.lookup tree name scope with
  | .error (.ambiguous _ _) => [.ambiguous name scope]
  | _ => []

/-- The modules entered, and whether the last step was to a re-export. -/
def resolveEvents (imports : Imports) (tree : Tree) (path : Path) (origin : ScopeId) :
    List Event :=
  tree.reachEvents path origin ++
    match tree.reach path origin with
    | .ok scope =>
      match tree.local? scope path.name, imports.findReexport scope path.name with
      | some none, .ok _ => [.resolvedReexport path scope]
      | _, _ => []
    | .error _ | .stray => []

end Imports

end ScopedNames
