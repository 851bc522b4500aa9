import ScopedNames.Proofs.Import.Entries
import ScopedNames.Proofs.Tree.Nesting

set_option autoImplicit false

/- Runs of import steps. What a step asks for is said by the tree alone, and what a step that
succeeds leaves behind is said by what it asked for: this is the only place where the four kinds of
steps are told apart. -/
namespace ScopedNames

/-- What can be done while imports are collected. They may be settled at any time, not only last. -/
inductive ImportStep where
  | importPath (importing : ScopeId) (path : Path) (asName : Option Name) (reexport : Bool)
  | importGlob (importing target : ScopeId)
  | importGlobPath (importing : ScopeId) (path : Path)
  | settle
  deriving DecidableEq, Repr

/-- Does what a step asks for, and answers with what an import by path has imported. -/
def ImportStep.act (tree : Tree) : ImportStep → Collector (Option DeclId)
  | .importPath importing path asName reexport => do
    let target ← Collector.importPath tree importing path asName reexport
    return some target
  | .importGlob importing target => do
    Collector.importGlob tree importing target
    return none
  | .importGlobPath importing path => do
    Collector.importGlobPath tree importing path
    return none
  | .settle => do
    Collector.change (·.settle tree)
    return none

namespace Imports

/-- The imports after a step that succeeds. -/
def take (imports : Imports) (tree : Tree) : ImportStep → Outcome ImportError Imports
  | .importPath importing path asName reexport => do
    let (_, next) ← imports.importPath tree importing path asName reexport
    return next
  | .importGlob importing target => imports.importGlob tree importing target
  | .importGlobPath importing path => imports.importGlobPath tree importing path
  | .settle => imports.settle tree

/-- What a step answers and the imports after it. -/
def respond (imports : Imports) (tree : Tree) (step : ImportStep) :
    Outcome ImportError (Option DeclId × Imports) :=
  (step.act tree).outcome imports

/-- The imports that a step leaves behind, whether it succeeds or fails. -/
def attempt (imports : Imports) (tree : Tree) (step : ImportStep) : Imports :=
  (step.act tree imports).state

section Respond

variable (imports : Imports) (tree : Tree) (importing : ScopeId) (path : Path)

theorem respond_importPath (asName : Option Name) (reexport : Bool) :
    imports.respond tree (.importPath importing path asName reexport) = (do
      let (decl, next) ← imports.importPath tree importing path asName reexport
      return (some decl, next)) := by
  simp [respond, importPath, ImportStep.act]

theorem respond_importGlob (target : ScopeId) :
    imports.respond tree (.importGlob importing target) = (do
      return (none, ← imports.importGlob tree importing target)) := by
  simp [respond, importGlob, ImportStep.act]

theorem respond_importGlobPath :
    imports.respond tree (.importGlobPath importing path) = (do
      return (none, ← imports.importGlobPath tree importing path)) := by
  simp [respond, importGlobPath, ImportStep.act]

theorem respond_settle :
    imports.respond tree .settle = (do return (none, ← imports.settle tree)) := by
  simp [respond, ImportStep.act]

end Respond

variable {imports next : Imports} {tree : Tree} {step : ImportStep}

theorem take_eq_ok_iff_respond :
    imports.take tree step = .ok next ↔
      ∃ answer, imports.respond tree step = .ok (answer, next) := by
  cases step with
  | importPath importing path asName reexport =>
    simp [take, respond_importPath, Outcome.bind_eq_ok, exists_comm]
  | importGlob importing target => simp [take, respond_importGlob, Outcome.bind_eq_ok]
  | importGlobPath importing path => simp [take, respond_importGlobPath, Outcome.bind_eq_ok]
  | settle => simp [take, respond_settle, Outcome.bind_eq_ok, Outcome.lift_eq_ok_iff]

theorem attempt_of_take (taken : imports.take tree step = .ok next) :
    imports.attempt tree step = next := by
  obtain ⟨answer, made⟩ := take_eq_ok_iff_respond.mp taken
  exact (Action.outcome_eq_ok_iff.mp made).2

end Imports

/-- The imports collected by steps of which any may fail. -/
def Tree.collect (tree : Tree) (steps : List ImportStep) : Imports :=
  steps.foldl (fun imports step => imports.attempt tree step) (.empty tree)

theorem Tree.collect_concat (tree : Tree) (steps : List ImportStep) (step : ImportStep) :
    tree.collect (steps ++ [step]) = (tree.collect steps).attempt tree step := by
  simp [collect]

namespace ImportStep

/-- The step asks for a declaration to be imported by name. -/
def Binds (tree : Tree) (step : ImportStep) (scope : ScopeId) (name : Name) (decl : DeclId)
    (reexport : Bool) : Prop :=
  ∃ path asName, step = .importPath scope path asName reexport ∧ asName.getD path.name = name ∧
    tree.resolve path scope = .ok decl

/-- The step asks for a glob import from one scope into another. -/
def Globs (tree : Tree) (step : ImportStep) (glob : Glob) : Prop :=
  glob.importing ≠ glob.target ∧
    (step = .importGlob glob.importing glob.target ∨
      ∃ path, step = .importGlobPath glob.importing path ∧
        tree.scopeNamed path glob.importing = .ok glob.target)

section Asks

variable {tree : Tree} {importing scope : ScopeId} {path : Path} {asName : Option Name}
  {reexport passed : Bool} {name : Name} {decl : DeclId} {glob : Glob}

@[simp] theorem binds_importPath :
    Binds tree (.importPath importing path asName reexport) scope name decl passed ↔
      scope = importing ∧ asName.getD path.name = name ∧ tree.resolve path importing = .ok decl ∧
        passed = reexport := by
  constructor
  · rintro ⟨_, _, same, named, resolved⟩
    cases same
    exact ⟨rfl, named, resolved, rfl⟩
  · rintro ⟨rfl, named, resolved, rfl⟩
    exact ⟨path, asName, rfl, named, resolved⟩

@[simp] theorem not_binds_importGlob {target : ScopeId} :
    ¬ Binds tree (.importGlob importing target) scope name decl passed := by
  simp [Binds]

@[simp] theorem not_binds_importGlobPath :
    ¬ Binds tree (.importGlobPath importing path) scope name decl passed := by
  simp [Binds]

@[simp] theorem not_binds_settle : ¬ Binds tree .settle scope name decl passed := by
  simp [Binds]

@[simp] theorem not_globs_importPath :
    ¬ Globs tree (.importPath importing path asName reexport) glob := by
  simp [Globs]

@[simp] theorem not_globs_settle : ¬ Globs tree .settle glob := by
  simp [Globs]

@[simp] theorem globs_importGlob {target : ScopeId} :
    Globs tree (.importGlob importing target) glob ↔
      importing ≠ target ∧ glob = ⟨importing, target⟩ := by
  obtain ⟨scope, source⟩ := glob
  simp only [Globs, importGlob.injEq, reduceCtorEq, false_and, exists_false, or_false,
    Glob.mk.injEq]
  grind

theorem globs_importGlobPath {target : ScopeId}
    (leads : tree.scopeNamed path importing = .ok target) :
    Globs tree (.importGlobPath importing path) glob ↔
      Globs tree (.importGlob importing target) glob := by
  obtain ⟨scope, source⟩ := glob
  rw [globs_importGlob]
  simp only [Globs, importGlobPath.injEq, reduceCtorEq, false_or, Glob.mk.injEq]
  grind

end Asks

end ImportStep

/-- A scope can be imported from by a glob, or it imports from itself. -/
def Tree.Opens (tree : Tree) (importing target : ScopeId) : Prop :=
  tree.barrier target importing = some none ∧
    (importing ≠ target → importing ∈ tree.scopeIds ∧
      ∃ items, tree.visibleItems importing target = some items)

/-- The tree gives the step no reason to fail. -/
def ImportStep.Feasible (tree : Tree) : ImportStep → Prop
  | .importPath importing path _ _ =>
    importing ∈ tree.scopeIds ∧ ∃ decl, tree.resolve path importing = .ok decl
  | .importGlob importing target => tree.Opens importing target
  | .importGlobPath importing path =>
    ∃ target, tree.scopeNamed path importing = .ok target ∧ tree.Opens importing target
  | .settle => True

namespace Imports

/-- A declaration that a glob import from `target` into `importing` would claim. -/
def Offered (imports : Imports) (tree : Tree) (importing target : ScopeId) (name : Name)
    (decl : DeclId) : Prop :=
  tree.Shows importing target name decl ∨ imports.PassesOn tree target name decl

/-- The step claims a declaration for a glob: one that it makes, or, to settle the imports, one that
was made before it. -/
def Claims (imports : Imports) (tree : Tree) (step : ImportStep) (scope : ScopeId) (name : Name)
    (decl : DeclId) : Prop :=
  ∃ target, step.Globs tree ⟨scope, target⟩ ∧ imports.Offered tree scope target name decl ∨
    step = .settle ∧ ⟨scope, target⟩ ∈ imports.globs ∧ imports.PassesOn tree target name decl

/-- What a step makes of imports. -/
structure StepsTo (tree : Tree) (imports : Imports) (step : ImportStep) (next : Imports) :
    Prop where
  sized : next.tables.size = imports.tables.size
  distinct : next.Distinct
  globs : ∀ glob, glob ∈ next.globs ↔ glob ∈ imports.globs ∨ step.Globs tree glob
  imported : ∀ scope name decl, (∃ reexport, next.explicit? scope name = some (decl, reexport)) ↔
    (∃ reexport, imports.explicit? scope name = some (decl, reexport)) ∨
      ∃ reexport, step.Binds tree scope name decl reexport
  reexported : ∀ scope name decl, next.explicit? scope name = some (decl, true) ↔
    imports.explicit? scope name = some (decl, true) ∨ step.Binds tree scope name decl true
  nodup : ∀ scope name, (imports.targets scope name).Nodup → (next.targets scope name).Nodup
  mem_targets : ∀ scope name, next.explicit? scope name = none → ∀ decl,
    decl ∈ next.targets scope name ↔
      decl ∈ imports.targets scope name ∨ imports.Claims tree step scope name decl

section ImportPath

variable {tree : Tree} {imports next : Imports} {importing : ScopeId} {path : Path}
  {asName : Option Name} {reexport : Bool} {target : DeclId}

theorem importPath_eq_ok_iff :
    imports.importPath tree importing path asName reexport = .ok (target, next) ↔
      tree.resolve path importing = .ok target ∧ ∃ old table,
        imports.table? importing = some old ∧
        (BindingTable.importExplicit (asName.getD path.name) target reexport).outcome old =
          .ok ((), table) ∧
        next = imports.setTable importing table := by
  simp only [importPath_eq, Outcome.bind_eq_ok, Outcome.mapError_eq_ok_iff,
    Outcome.lift_eq_ok_iff, Outcome.pure_eq, Outcome.ok.injEq, Prod.mk.injEq]
  constructor
  · rintro ⟨decl, resolved, old, present, ⟨nothing, table⟩, bound, rfl, rfl⟩
    exact ⟨resolved, old, table, present, bound, rfl⟩
  · rintro ⟨resolved, old, table, present, bound, rfl⟩
    exact ⟨target, resolved, old, present, ((), table), bound, rfl, rfl⟩

/-- An explicit import replaces one entry, in which it keeps that the name is passed on. -/
theorem binding?_importExplicit {old table : BindingTable} {name : Name}
    (present : imports.table? importing = some old)
    (bound : (BindingTable.importExplicit name target reexport).outcome old = .ok ((), table))
    (scope : ScopeId) (other : Name) :
    (imports.setTable importing table).binding? scope other =
      if scope = importing ∧ other = name then
        some (.explicit target ((imports.explicit? importing name).any (·.2) || reexport))
      else imports.binding? scope other := by
  obtain ⟨free, rfl⟩ := BindingTable.importExplicit_eq_ok_iff.mp bound
  rw [binding?_setTable present, Registry.find?_bind, explicit?, binding?_of_table present]
  by_cases here : scope = importing
  · subst here
    simp [binding?_of_table present]
  · simp [here]

section Merge

variable {before : Option (DeclId × Bool)}

/-- An entry imported again stands for what it stood for. -/
theorem imported_merge_iff (free : ∀ pair, before = some pair → pair.1 = target) (decl : DeclId) :
    target = decl ↔ (∃ passed, before = some (decl, passed)) ∨ target = decl := by
  constructor
  · exact .inr
  · rintro (⟨passed, existing⟩ | same)
    · exact (free _ existing).symm
    · exact same

/-- An entry imported again is passed on if either import passes it on. -/
theorem reexported_merge_iff (free : ∀ pair, before = some pair → pair.1 = target)
    (decl : DeclId) (reexport : Bool) :
    target = decl ∧ (before.any (·.2) || reexport) = true ↔
      before = some (decl, true) ∨ target = decl ∧ true = reexport := by
  match before with
  | none => simp [eq_comm]
  | some (existing, already) =>
    have same : existing = target := free _ rfl
    subst same
    simp only [Option.any_some, Bool.or_eq_true, Option.some.injEq, Prod.mk.injEq]
    grind

end Merge

theorem stepsTo_importPath (distinct : imports.Distinct)
    (made : imports.importPath tree importing path asName reexport = .ok (target, next)) :
    StepsTo tree imports (.importPath importing path asName reexport) next := by
  obtain ⟨resolved, old, table, present, bound, rfl⟩ := importPath_eq_ok_iff.mp made
  have entries := binding?_importExplicit present bound
  obtain ⟨free, rfl⟩ := BindingTable.importExplicit_eq_ok_iff.mp bound
  rw [← binding?_of_table present, ← explicit?] at free
  refine ⟨size_setTable _ _ _, ?_, ?_, ?_, ?_, ?_, ?_⟩
  · exact distinct_setTable distinct (Registry.nodup_bind (distinct _ _ present) _ _)
  · intro glob
    simp
  · intro scope name decl
    simp only [explicit?, entries, ImportStep.binds_importPath, resolved]
    by_cases here : scope = importing ∧ name = asName.getD path.name
    · obtain ⟨rfl, rfl⟩ := here
      have merged := imported_merge_iff free decl
      rw [if_pos ⟨rfl, rfl⟩]
      simpa [Binding.explicit?, explicit?, -exists_eq_left'] using merged
    · rw [if_neg here]
      grind
  · intro scope name decl
    simp only [explicit?, entries, ImportStep.binds_importPath, resolved]
    by_cases here : scope = importing ∧ name = asName.getD path.name
    · obtain ⟨rfl, rfl⟩ := here
      have merged := reexported_merge_iff free decl reexport
      rw [if_pos ⟨rfl, rfl⟩]
      simpa [Binding.explicit?, explicit?] using merged
    · rw [if_neg here]
      grind
  · intro scope name before
    rw [targets, entries]
    split
    · exact List.nodup_nil
    · exact before
  · intro scope name absent decl
    rw [explicit?, entries] at absent
    rw [targets, entries]
    split
    · next here =>
      rw [if_pos here] at absent
      cases absent
    · simp [targets, Claims]

end ImportPath

section Steps

variable {tree : Tree} {imports next : Imports} {step : ImportStep}

/-- A step that binds nothing by name only makes claims and remembers globs. -/
theorem stepsTo_of_absorbs {claimed : Imports} (distinct : imports.Distinct)
    (absorbs : Absorbs imports claimed (imports.Claims tree step))
    (unbound : ∀ scope name decl reexport, ¬ step.Binds tree scope name decl reexport)
    (tables : next.tables = claimed.tables)
    (globs : ∀ glob, glob ∈ next.globs ↔ glob ∈ imports.globs ∨ step.Globs tree glob) :
    StepsTo tree imports step next := by
  have bindings (scope : ScopeId) (name : Name) :
      next.binding? scope name = claimed.binding? scope name := by
    rw [binding?, binding?, table?, table?, tables]
  have explicit (scope : ScopeId) (name : Name) :
      next.explicit? scope name = imports.explicit? scope name := by
    rw [← absorbs.explicit?, explicit?, bindings, explicit?]
  have claims (scope : ScopeId) (name : Name) :
      next.targets scope name = claimed.targets scope name := by
    rw [targets, bindings, targets]
  refine ⟨?_, ?_, globs, ?_, ?_, ?_, ?_⟩
  · rw [tables]
    exact absorbs.sized
  · intro scope table present
    rw [table?, tables] at present
    exact absorbs.distinct distinct scope table present
  · intro scope name decl
    simp [explicit, unbound]
  · intro scope name decl
    simp [explicit, unbound]
  · intro scope name before
    rw [claims]
    exact (absorbs.entries scope name).nodup before
  · intro scope name absent decl
    rw [explicit] at absent
    rw [claims, absorbs.mem_targets absent]

theorem stepsTo_importGlob (distinct : imports.Distinct) {importing target : ScopeId}
    (made : imports.importGlob tree importing target = .ok next) :
    StepsTo tree imports (.importGlob importing target) next := by
  obtain ⟨_, ⟨rfl, rfl⟩ | ⟨apart, items, shown, claimed, seen, first, second, rfl⟩⟩ :=
    importGlob_eq_ok_iff.mp made
  · refine stepsTo_of_absorbs distinct ((Absorbs.refl _).congr ?_) (by simp) rfl (by simp)
    intro scope name decl
    simp [Claims]
  · have absorbs := absorbs_globbed distinct seen first second
    refine stepsTo_of_absorbs distinct (absorbs.congr ?_) (by simp) (tables_record _ _) ?_
    · intro scope name decl
      simp only [Claims, ImportStep.globs_importGlob, Offered, reduceCtorEq, false_and, or_false]
      grind
    · intro glob
      rw [mem_globs_record, absorbs.globs]
      simp [apart]

theorem stepsTo_settle (distinct : imports.Distinct) (settled : imports.settle tree = some next) :
    StepsTo tree imports .settle next := by
  have absorbs := absorbs_settle distinct settled
  refine stepsTo_of_absorbs distinct (absorbs.congr ?_) (by simp) rfl ?_
  · intro scope name decl
    simp [Claims]
  · intro glob
    simp [absorbs.globs]

theorem importGlobPath_eq_ok_iff {importing : ScopeId} {path : Path} :
    imports.importGlobPath tree importing path = .ok next ↔
      ∃ target, tree.scopeNamed path importing = .ok target ∧
        imports.importGlob tree importing target = .ok next := by
  simp [importGlobPath_eq, Outcome.bind_eq_ok, Outcome.mapError_eq_ok_iff]

/-- A glob import by path is the glob import of the scope that the path leads to. -/
theorem StepsTo.of_leads {importing target : ScopeId} {path : Path}
    (made : StepsTo tree imports (.importGlob importing target) next)
    (leads : tree.scopeNamed path importing = .ok target) :
    StepsTo tree imports (.importGlobPath importing path) next := by
  have globs (glob : Glob) : ImportStep.Globs tree (.importGlobPath importing path) glob ↔
      ImportStep.Globs tree (.importGlob importing target) glob :=
    ImportStep.globs_importGlobPath leads
  obtain ⟨sized, distinct, recorded, imported, reexported, nodup, claimed⟩ := made
  refine ⟨sized, distinct, ?_, ?_, ?_, nodup, ?_⟩
  · intro glob
    rw [recorded, globs]
  · simpa using imported
  · simpa using reexported
  · intro scope name absent decl
    rw [claimed scope name absent]
    simp [Claims, globs]

/-- What a step that succeeds has done. -/
theorem stepsTo_of_take (distinct : imports.Distinct) (taken : imports.take tree step = .ok next) :
    StepsTo tree imports step next := by
  cases step with
  | importPath importing path asName reexport =>
    obtain ⟨⟨target, bound⟩, made, same⟩ := Outcome.bind_eq_ok.mp taken
    cases same
    exact stepsTo_importPath distinct made
  | importGlob importing target => exact stepsTo_importGlob distinct taken
  | importGlobPath importing path =>
    obtain ⟨target, leads, made⟩ := importGlobPath_eq_ok_iff.mp taken
    exact (stepsTo_importGlob distinct made).of_leads leads
  | settle =>
    cases settled : imports.settle tree with
    | none => simp [take, settled] at taken
    | some claimed =>
      rw [take, settled] at taken
      cases taken
      exact stepsTo_settle distinct settled

end Steps

end Imports

end ScopedNames
