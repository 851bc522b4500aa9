import ScopedNames.Tree
import ScopedNames.Walk

set_option autoImplicit false

/- Collecting the imports of a tree that no longer changes. An import by path binds one name; a glob
claims every name it can see in another scope, re-exports included. A re-export made after a glob
of its scope reaches the importing scope when the imports are settled. Globs pass nothing on, so
that settling takes one pass. -/
namespace ScopedNames

/-- A glob's claim on a name: the declaration, and the scope the glob imports from. -/
structure Claim where
  target : DeclId
  source : ScopeId
  deriving DecidableEq, Repr

inductive Binding where
  /-- Imported by name, and passed on to whoever can see the importing scope if `reexport`. -/
  | explicit (target : DeclId) (reexport : Bool)
  /-- Claimed by globs, first come first. Each claim is to another declaration. -/
  | globbed (first : Claim) (others : List Claim)
  deriving DecidableEq, Repr

/-- What becomes of a claim. -/
inductive Reception where
  | taken
  /-- The name is explicitly imported. -/
  | shadowed
  /-- The declaration is claimed already. -/
  | repeated
  /-- Several declarations are claimed now. -/
  | disputed
  deriving DecidableEq, Repr

namespace Binding

/-- The declaration the name stands for, unless it is ambiguous. -/
def target? : Binding → Option DeclId
  | .explicit target _ => some target
  | .globbed first [] => some first.target
  | .globbed _ (_ :: _) => none

/-- The declaration passed on to others under this name. -/
def reexported? : Binding → Option DeclId
  | .explicit target true => some target
  | .explicit _ false | .globbed _ _ => none

def isReexport (binding : Binding) : Bool := binding.reexported?.isSome

/-- The claims of globs on the name. -/
def claims : Binding → List Claim
  | .explicit _ _ => []
  | .globbed first others => first :: others

/-- Whether a glob claims `target` under this name. -/
def isClaimed (binding : Binding) (target : DeclId) : Bool :=
  binding.claims.any (·.target = target)

/-- The binding of a name after one more claim. -/
def afterClaim (binding : Option Binding) (claim : Claim) : Binding :=
  match binding with
  | none => .globbed claim []
  | some (.explicit target reexport) => .explicit target reexport
  | some (.globbed first others) =>
    if isClaimed (.globbed first others) claim.target then .globbed first others
    else .globbed first (others ++ [claim])

def reception (binding : Option Binding) (claim : Claim) : Reception :=
  match binding with
  | none => .taken
  | some (.explicit _ _) => .shadowed
  | some (.globbed first others) =>
    if isClaimed (.globbed first others) claim.target then .repeated else .disputed

end Binding

/-- The imported names of a scope, in the order in which they were first imported. -/
abbrev BindingTable := Registry Binding

namespace BindingTable

/-- The names passed on to others and what they stand for. -/
def reexports (table : BindingTable) : List (Name × DeclId) :=
  table.entries.filterMap fun (name, binding) => binding.reexported?.map (name, ·)

/-- Imports a declaration by name, in place of any claims. A name keeps its declaration once it is
explicitly imported: importing another one fails with the first, and importing the same one again
can only turn the import into a re-export. -/
def importExplicit (name : Name) (target : DeclId) (reexport : Bool) :
    Action BindingTable DeclId Unit := fun table =>
  match table.find? name with
  | some (.explicit existing already) =>
    if existing = target then
      ⟨.ok (), table.bind name (.explicit target (already || reexport))⟩
    else ⟨.error existing, table⟩
  | some (.globbed _ _) | none => ⟨.ok (), table.bind name (.explicit target reexport)⟩

/-- Claims a name for a glob. -/
def claim (table : BindingTable) (name : Name) (claim : Claim) : BindingTable :=
  table.bind name (Binding.afterClaim (table.find? name) claim)

/-- Claims names, one after the other, for a glob that imports from `source`. -/
def claimAll (table : BindingTable) (source : ScopeId) (offers : List (Name × DeclId)) :
    BindingTable :=
  offers.foldl (fun table (name, target) => claim table name ⟨target, source⟩) table

end BindingTable

/-- A glob import: the scope that imports and the scope whose names it imports. -/
structure Glob where
  importing : ScopeId
  target : ScopeId
  deriving DecidableEq, Repr

/-- The tables of all scopes, and the globs in the order in which they were first made. -/
structure Imports where
  tables : Array BindingTable
  globs : List Glob
  deriving DecidableEq, Repr

namespace Imports

/-- One empty table for each scope. -/
def empty (tree : Tree) : Imports := ⟨Array.replicate tree.scopes.size .empty, []⟩

def table? (imports : Imports) (scope : ScopeId) : Option BindingTable :=
  imports.tables[scope.index]?

def setTable (imports : Imports) (scope : ScopeId) (table : BindingTable) : Imports :=
  { imports with tables := imports.tables.setIfInBounds scope.index table }

/-- Remembers a glob, once. -/
def record (imports : Imports) (glob : Glob) : Imports :=
  if glob ∈ imports.globs then imports else { imports with globs := imports.globs ++ [glob] }

theorem table?_setTable (imports : Imports) (scope other : ScopeId) (table : BindingTable) :
    (imports.setTable scope table).table? other =
      if other = scope ∧ scope.index < imports.tables.size then some table
      else imports.table? other := by
  obtain ⟨index⟩ := scope
  obtain ⟨position⟩ := other
  simp only [setTable, table?, Array.getElem?_setIfInBounds, ScopeId.mk.injEq]
  grind

theorem setTable_of_present {imports : Imports} {scope : ScopeId} {table : BindingTable}
    (present : imports.table? scope = some table) : imports.setTable scope table = imports := by
  obtain ⟨inside, rfl⟩ := Array.getElem?_eq_some_iff.mp present
  simp [setTable, Array.setIfInBounds, inside]

@[simp] theorem globs_setTable (imports : Imports) (scope : ScopeId) (table : BindingTable) :
    (imports.setTable scope table).globs = imports.globs := rfl

@[simp] theorem tables_record (imports : Imports) (glob : Glob) :
    (imports.record glob).tables = imports.tables := by
  unfold record
  split <;> rfl

theorem record_of_mem {imports : Imports} {glob : Glob} (known : glob ∈ imports.globs) :
    imports.record glob = imports := if_pos known

theorem mem_globs_record (imports : Imports) (glob other : Glob) :
    other ∈ (imports.record glob).globs ↔ other ∈ imports.globs ∨ other = glob := by
  unfold record
  split <;> grind

end Imports

inductive ImportError where
  /-- The path leads to no declaration. -/
  | unresolved (reason : LookupError)
  /-- The name is explicitly imported for another declaration. -/
  | conflict (name : Name) (scope : ScopeId) (existing incoming : DeclId)
  deriving DecidableEq, Repr

def ImportError.message : ImportError → String
  | .unresolved reason => s!"unresolved import: {reason.message}"
  | .conflict name scope existing incoming =>
    s!"`{name}` is already imported in {scope.text} from a different item " ++
      s!"({existing.text}, not {incoming.text})"

/-- The items of `target` that `importing` can see. -/
def Tree.visibleItems (tree : Tree) (importing target : ScopeId) :
    Option (List (Name × DeclId)) := do
  let here ← tree.scope? target
  let sees (item : Name × DeclId) : Option Bool := do
    tree.permits (← tree.decl? item.2).visibility target importing
  sieve sees here.items.entries

namespace Imports

/-- The re-exports of `target`, but for names it declares itself. -/
def openReexports (imports : Imports) (tree : Tree) (target : ScopeId) :
    Option (List (Name × DeclId)) := do
  let here ← tree.scope? target
  let table ← imports.table? target
  return table.reexports.filter fun (name, _) => !here.items.contains name

/-- Claims names of `target` in `importing`. -/
def claimAll (imports : Imports) (importing target : ScopeId)
    (offers : List (Name × DeclId)) : Option Imports := do
  let table ← imports.table? importing
  return imports.setTable importing (table.claimAll target offers)

/-- Claims the re-exports of a glob's target. -/
def claimReexports (imports : Imports) (tree : Tree) (glob : Glob) : Option Imports := do
  imports.claimAll glob.importing glob.target (← imports.openReexports tree glob.target)

/-- Lets every glob claim the re-exports made after it. -/
def settle (imports : Imports) (tree : Tree) : Option Imports :=
  imports.globs.foldlM (fun imports glob => imports.claimReexports tree glob) imports

end Imports

/-- What is done with the imports of a tree while they are collected. -/
abbrev Collector := Action Imports ImportError

namespace Collector

/-- Imports what a path names into `importing`, as `asName` or under its own name. -/
def importPath (tree : Tree) (importing : ScopeId) (path : Path) (asName : Option Name)
    (reexport : Bool) : Collector DeclId := do
  let target ← (tree.resolve path importing).mapError ImportError.unresolved
  let name := asName.getD path.name
  let bound := BindingTable.importExplicit name target reexport
  (bound.onPart (·.table? importing) (·.setTable importing)).mapError fun existing =>
    ImportError.conflict name importing existing target
  return target

/-- Changes the imports where all that is looked up for it is there. -/
def change (next? : Imports → Option Imports) : Collector Unit :=
  .once fun imports => do return ((), ← next? imports)

@[simp] theorem outcome_change (next? : Imports → Option Imports) (imports : Imports) :
    (change next?).outcome imports = liftM (next? imports) >>= fun next => .ok ((), next) := by
  simp [change]

/-- Imports every name of `target` that `importing` can see. A scope imports nothing from itself. -/
def importGlob (tree : Tree) (importing target : ScopeId) : Collector Unit := do
  match ← tree.barrier target importing with
  | some decl => Action.give (.error (.unresolved (← tree.hiddenError decl)))
  | none =>
    if importing = target then return
    else
      let items ← tree.visibleItems importing target
      change (·.claimAll importing target items)
      change (·.claimReexports tree ⟨importing, target⟩)
      change fun imports => some (imports.record ⟨importing, target⟩)

/-- Imports every name of the module that a path names. -/
def importGlobPath (tree : Tree) (importing : ScopeId) (path : Path) : Collector Unit := do
  let target ← (tree.scopeNamed path importing).mapError ImportError.unresolved
  importGlob tree importing target

end Collector

namespace Imports

section Collect

variable (imports : Imports) (tree : Tree) (importing : ScopeId) (path : Path)

/-- What an import by path answers, and the imports after it. -/
def importPath (asName : Option Name) (reexport : Bool) :
    Outcome ImportError (DeclId × Imports) :=
  (Collector.importPath tree importing path asName reexport).outcome imports

/-- The imports after a glob import. -/
def importGlob (target : ScopeId) : Outcome ImportError Imports := do
  let (_, next) ← (Collector.importGlob tree importing target).outcome imports
  return next

/-- The imports after a glob import of the module that a path names. -/
def importGlobPath : Outcome ImportError Imports := do
  let (_, next) ← (Collector.importGlobPath tree importing path).outcome imports
  return next

theorem outcome_importGlobPath :
    (Collector.importGlobPath tree importing path).outcome imports = do
      return ((), ← imports.importGlobPath tree importing path) := by
  unfold importGlobPath
  cases (Collector.importGlobPath tree importing path).outcome imports <;> rfl

end Collect

/-- An import by path with the path, the table and the entry looked at in this order. -/
theorem importPath_eq (imports : Imports) (tree : Tree) (importing : ScopeId) (path : Path)
    (asName : Option Name) (reexport : Bool) :
    imports.importPath tree importing path asName reexport = (do
      let target ← (tree.resolve path importing).mapError .unresolved
      let name := asName.getD path.name
      let table ← imports.table? importing
      let bound := (BindingTable.importExplicit name target reexport).outcome table
      let (_, next) ← bound.mapError (.conflict name importing · target)
      return (target, imports.setTable importing next)) := by
  simp [importPath, Collector.importPath, Outcome.mapError_bind]

theorem importGlob_eq (imports : Imports) (tree : Tree) (importing target : ScopeId) :
    imports.importGlob tree importing target = (do
      match ← tree.barrier target importing with
      | some decl => .error (.unresolved (← tree.hiddenError decl))
      | none =>
        if importing = target then return imports
        else
          let items ← tree.visibleItems importing target
          let claimed ← imports.claimAll importing target items
          let claimed ← claimed.claimReexports tree ⟨importing, target⟩
          return claimed.record ⟨importing, target⟩) := by
  cases barred : tree.barrier target importing with
  | none => simp [importGlob, Collector.importGlob, barred]
  | some verdict =>
    cases verdict with
    | some decl =>
      cases hidden : tree.hiddenError decl <;>
        simp [importGlob, Collector.importGlob, barred, hidden]
    | none =>
      by_cases same : importing = target
      · subst same
        simp [importGlob, Collector.importGlob, barred]
      · simp [importGlob, Collector.importGlob, barred, same]

theorem importGlobPath_eq (imports : Imports) (tree : Tree) (importing : ScopeId) (path : Path) :
    imports.importGlobPath tree importing path = (do
      let target ← (tree.scopeNamed path importing).mapError .unresolved
      imports.importGlob tree importing target) := by
  simp [importGlobPath, importGlob, Collector.importGlobPath]

/-- What a name written in a scope stands for: its imports come first, its own items second, and an
ambiguous name is an error even where it is declared. -/
def lookup (imports : Imports) (tree : Tree) (name : Name) (scope : ScopeId) :
    Outcome LookupError DeclId := do
  match (← imports.table? scope).find? name with
  | none => tree.find scope name
  | some binding =>
    match binding.target? with
    | some target => return target
    | none => .error (.ambiguous name (binding.claims.map (·.target)))

/-- The declaration that a scope passes on under a name. -/
def findReexport (imports : Imports) (scope : ScopeId) (name : Name) :
    Outcome LookupError DeclId := do
  match ((← imports.table? scope).find? name).bind Binding.reexported? with
  | some target => return target
  | none => .error (.missing name scope)

/-- What a scope passes on under a name to `requester`, who must be able to reach the scope. -/
def findReexportFor (imports : Imports) (tree : Tree) (scope : ScopeId) (name : Name)
    (requester : ScopeId) : Outcome LookupError DeclId := do
  match ← tree.barrier scope requester with
  | some decl => .error (← tree.hiddenError decl)
  | none => imports.findReexport scope name

/-- What a path written in `origin` names, where its last segment may also be a re-export of a
scope that declares no such item. -/
def resolve (imports : Imports) (tree : Tree) (path : Path) (origin : ScopeId) :
    Outcome LookupError DeclId := do
  let scope ← tree.reach path origin
  if (← tree.local? scope path.name).isSome then tree.findAdmitted scope path.name origin
  else imports.findReexport scope path.name

end Imports

end ScopedNames
