import ScopedNames.Outcome
import ScopedNames.Path
import ScopedNames.Tree

set_option autoImplicit false

/- Following a path. The walk starts where the root of the path says and steps from module to
module. Each step asks of one declaration that it exists, is a module and admits the scope that
wrote the path, in this order; the modules above the start are never asked. -/
namespace ScopedNames

inductive LookupError where
  /-- The scope declares nothing of that name. -/
  | missing (name : Name) (scope : ScopeId)
  /-- The path goes on behind an item that is no module. -/
  | notModule (name : Name) (decl : DeclId)
  /-- The item does not let whoever asks see it. -/
  | hidden (name : Name) (decl : DeclId) (owner : ScopeId)
  /-- The path starts above the root. -/
  | tooManySupers (requested available : Nat)
  /-- The path starts in a tree of another name. -/
  | unknownRoot (name : Name)
  /-- Several globs import the name, for different declarations. -/
  | ambiguous (name : Name) (candidates : List DeclId)
  deriving DecidableEq, Repr

def LookupError.message : LookupError → String
  | .missing name scope => s!"cannot find `{name}` in {scope.text}"
  | .notModule name decl => s!"`{name}` ({decl.text}) is not a module"
  | .hidden name decl owner => s!"`{name}` ({decl.text}) is private to {owner.text}"
  | .tooManySupers requested available =>
    s!"too many `super`s: {requested} requested but only {available} parent(s) above"
  | .unknownRoot name => s!"unknown root `{name}`"
  | .ambiguous name candidates =>
    s!"`{name}` is ambiguous: glob-imported from {candidates.length} places"

namespace Tree

/-- Whether an item of that visibility in `declaring` lets `requester` see it, with no regard to
the modules around it. -/
def permits (tree : Tree) (visibility : Visibility) (declaring requester : ScopeId) :
    Option Bool :=
  match visibility with
  | .everyone => some true
  | .insiders => tree.isInside requester declaring
  | .restricted scope => do
    return (← tree.isInside requester scope) || (← tree.isInside requester declaring)

/-- Whether a declaration itself lets `requester` see it. -/
def admits (tree : Tree) (decl : DeclId) (requester : ScopeId) : Option Bool := do
  let declaration ← tree.decl? decl
  tree.permits declaration.visibility declaration.owner requester

/-- The outermost of some modules that does not admit `requester`. They are given from the inside
out. -/
def outermostClosed (tree : Tree) (requester : ScopeId) : List Site → Option (Option DeclId)
  | [] => some none
  | site :: outer => do
    match ← tree.outermostClosed requester outer with
    | some decl => return some decl
    | none => return if ← tree.admits site.decl requester then none else some site.decl

/-- The outermost module declaration on the way from the root to `scope` that hides `scope` from
`requester`. -/
def barrier (tree : Tree) (scope requester : ScopeId) : Option (Option DeclId) := do
  let here ← tree.scope? scope
  tree.outermostClosed requester here.sites

/-- Whether every module on the way to `scope` admits `requester`. -/
def isReachable (tree : Tree) (scope requester : ScopeId) : Option Bool :=
  (tree.barrier scope requester).map (·.isNone)

/-- Whether `requester` may name a declaration. -/
def mayName (tree : Tree) (decl : DeclId) (requester : ScopeId) : Option Bool := do
  let declaration ← tree.decl? decl
  if ← tree.admits decl requester then
    tree.isReachable declaration.owner requester
  else return false

/-- The scopes from which a declaration may be named. -/
def audience (tree : Tree) (decl : DeclId) : Option (List ScopeId) :=
  sieve (tree.mayName decl) tree.scopeIds

/-- The scope in which the first segment is looked up. -/
def start (tree : Tree) (root : Root) (origin : ScopeId) : Outcome LookupError ScopeId := do
  match root with
  | .absolute => return Tree.root
  | .here => return origin
  | .up levels _ =>
    match ← tree.above origin levels with
    | some scope => return scope
    | none => .error (.tooManySupers levels (← tree.depth origin))
  | .external name =>
    if tree.externalName = some name then return Tree.root else .error (.unknownRoot name)

/-- The declaration of a name in a scope. -/
def find (tree : Tree) (scope : ScopeId) (name : Name) : Outcome LookupError DeclId := do
  match ← tree.local? scope name with
  | some decl => return decl
  | none => .error (.missing name scope)

/-- The error that a declaration is hidden. -/
def hiddenError (tree : Tree) (decl : DeclId) : Option LookupError :=
  (tree.decl? decl).map fun declaration => .hidden declaration.name decl declaration.owner

/-- Asks a declaration to admit `origin`. -/
def checkAdmits (tree : Tree) (decl : DeclId) (origin : ScopeId) : Outcome LookupError Unit := do
  if ← tree.admits decl origin then return () else .error (← tree.hiddenError decl)

/-- Steps from a scope into the module of that name. -/
def enter (tree : Tree) (origin scope : ScopeId) (name : Name) : Outcome LookupError ScopeId := do
  let decl ← tree.find scope name
  match (← tree.decl? decl).child? with
  | none => .error (.notModule name decl)
  | some child =>
    tree.checkAdmits decl origin
    return child

/-- Steps through modules, one after the other. -/
def walk (tree : Tree) (origin start : ScopeId) (modules : List Name) :
    Outcome LookupError ScopeId :=
  modules.foldlM (tree.enter origin) start

@[simp] theorem walk_nil (tree : Tree) (origin start : ScopeId) :
    tree.walk origin start [] = .ok start := rfl

theorem walk_cons (tree : Tree) (origin start : ScopeId) (name : Name) (modules : List Name) :
    tree.walk origin start (name :: modules) =
      tree.enter origin start name >>= fun child => tree.walk origin child modules := rfl

theorem walk_append (tree : Tree) (origin start : ScopeId) (first second : List Name) :
    tree.walk origin start (first ++ second) =
      tree.walk origin start first >>= fun scope => tree.walk origin scope second :=
  List.foldlM_append

/-- The scope in which the last segment of a path is looked up. -/
def reach (tree : Tree) (path : Path) (origin : ScopeId) : Outcome LookupError ScopeId := do
  tree.walk origin (← tree.start path.root origin) path.modules

/-- The item of that name in a scope, of whatever kind, if it admits `origin`. -/
def findAdmitted (tree : Tree) (scope : ScopeId) (name : Name) (origin : ScopeId) :
    Outcome LookupError DeclId := do
  let decl ← tree.find scope name
  tree.checkAdmits decl origin
  return decl

/-- The declaration that a path written in `origin` names. -/
def resolve (tree : Tree) (path : Path) (origin : ScopeId) : Outcome LookupError DeclId := do
  tree.findAdmitted (← tree.reach path origin) path.name origin

/-- The scope of the module that a path written in `origin` names. -/
def scopeNamed (tree : Tree) (path : Path) (origin : ScopeId) : Outcome LookupError ScopeId := do
  let decl ← tree.resolve path origin
  match (← tree.decl? decl).child? with
  | some child => return child
  | none => .error (.notModule path.name decl)

end Tree

end ScopedNames
