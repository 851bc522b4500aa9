import ScopedNames.Proofs.Import.Justified
import ScopedNames.Proofs.Import.Replay
import ScopedNames.Proofs.Walk.Answers

set_option autoImplicit false

namespace ScopedNames

variable {tree : Tree}

namespace Imports

/-- Imports that a tree has a use for: a table for each scope, and no ids but those issued. -/
structure Within (tree : Tree) (imports : Imports) : Prop where
  sized : imports.tables.size = tree.scopes.size
  issued : tree.Issues imports

theorem issues_iff {imports : Imports} :
    tree.Issues imports ↔ (∀ scope table, imports.table? scope = some table → tree.Issues table) ∧
      tree.Issues imports.globs := by
  change tree.Issues (imports.tables.toList, imports.globs) ↔ _
  rw [Tree.issues_pair, Tree.issues_list]
  refine and_congr_left' ⟨fun all scope table present => ?_, fun all table listed => ?_⟩
  · exact all table (Array.mem_toList_iff.mpr (Array.mem_of_getElem? present))
  · obtain ⟨index, inside, rfl⟩ := List.mem_iff_getElem.mp listed
    exact all ⟨index⟩ _ (by simp_all [table?])

section Collected

variable (grown : tree.Grown) (steps : List ImportStep)

include grown

theorem issues_claim_collect {scope : ScopeId} {name : Name} {claim : Claim}
    (justified : (tree.collect steps).Justified tree scope name claim) : tree.Issues claim := by
  obtain ⟨clear, barred, _⟩ := Option.map_eq_some_iff.mp justified.reachable
  have inside : claim.source ∈ tree.scopeIds := Tree.mem_scopeIds_of_barrier barred
  refine Tree.issues_claim.mpr ⟨?_, inside⟩
  rcases justified.offered with ⟨_, allowed⟩ | ⟨_, passed⟩
  · exact Tree.mem_declIds_of_mayName allowed
  · have records := (tree.collect_faithful steps).2
    exact Tree.mem_declIds_of_mayName (mayName_of_explicit grown.sound records inside passed)

/-- Whatever is imported was found in the tree. -/
theorem within_collect : (tree.collect steps).Within tree := by
  obtain ⟨faithful, _⟩ := tree.collect_faithful steps
  refine ⟨faithful.sized, issues_iff.mpr ⟨fun scope table present => ?_, ?_⟩⟩
  · obtain ⟨_, entries⟩ := Tree.collected_entries_justified grown steps present
    refine Tree.issues_registry.mpr fun ⟨name, binding⟩ listed => ?_
    obtain ⟨explicit, claimed, _⟩ := entries name binding listed
    cases binding with
    | explicit target reexport =>
      exact Tree.issues_explicit.mpr (Tree.mem_declIds_of_mayName (explicit target reexport rfl))
    | globbed first others =>
      exact Tree.issues_globbed.mpr fun claim made =>
        issues_claim_collect grown steps (claimed claim made)
  · refine Tree.issues_list.mpr fun glob recorded => Tree.issues_glob.mpr ?_
    obtain ⟨apart, opens⟩ := faithful.opened glob recorded
    exact issued_of_opens apart opens

end Collected

namespace Within

variable {imports : Imports} (within : imports.Within tree)

include within

theorem mem_scopeIds_of_table {scope : ScopeId} {table : BindingTable}
    (present : imports.table? scope = some table) : scope ∈ tree.scopeIds :=
  (exists_table_iff within.sized).mp ⟨table, present⟩

theorem issues_of_find? {scope : ScopeId} {table : BindingTable} {name : Name} {binding : Binding}
    (present : imports.table? scope = some table) (bound : table.find? name = some binding) :
    tree.Issues binding := by
  have entries := (issues_iff.mp within.issued).1 scope table present
  exact Tree.issues_registry.mp entries (name, binding) (Registry.mem_of_find? bound)

theorem blames_findReexport (scope : ScopeId) (name : Name) :
    tree.Blames (imports.findReexport scope name) := by
  refine (Tree.blames_lift _).bind fun table looked => ?_
  cases present : imports.table? scope with
  | none => simp [present] at looked
  | some found =>
    have inside := within.mem_scopeIds_of_table present
    cases (table.find? name).bind Binding.reexported? with
    | none => exact Tree.blames_error.mpr (Tree.issues_missing.mpr inside)
    | some target => exact Tree.blames_ok target

theorem blames_lookup (name : Name) (scope : ScopeId) :
    tree.Blames (imports.lookup tree name scope) := by
  refine (Tree.blames_lift _).bind fun table looked => ?_
  have present : imports.table? scope = some table := Outcome.lift_eq_ok_iff.mp looked
  cases bound : table.find? name with
  | none => exact Tree.blames_find scope name
  | some binding =>
    have issued := within.issues_of_find? present bound
    dsimp only
    cases binding.target? with
    | some target => exact Tree.blames_ok target
    | none =>
      exact Tree.blames_error.mpr (Tree.issues_ambiguous.mpr (Tree.issues_candidates issued))

variable (sound : tree.Sound)

include sound

section Collecting

variable (importing : ScopeId) (path : Path)

theorem blames_importPath (asName : Option Name) (reexport : Bool) :
    tree.Blames (imports.importPath tree importing path asName reexport) := by
  have resolved := sound.blames_resolve path importing
  rw [importPath_eq]
  refine (resolved.mapError ImportError.unresolved fun _ => id).bind fun target found => ?_
  refine (Tree.blames_lift _).bind fun table looked => ?_
  have known := sound.mem_declIds_of_resolve (Outcome.mapError_eq_ok_iff.mp found)
  have present : imports.table? importing = some table := Outcome.lift_eq_ok_iff.mp looked
  cases bound :
      (BindingTable.importExplicit (asName.getD path.name) target reexport).outcome table with
  | ok made => exact Tree.blames_ok _
  | error existing =>
    obtain ⟨_, already, held⟩ := BindingTable.importExplicit_eq_error_iff.mp bound
    have first := Tree.issues_explicit.mp (within.issues_of_find? present held)
    exact Tree.blames_error.mpr
      (Tree.issues_conflict.mpr ⟨within.mem_scopeIds_of_table present, first, known⟩)
  | stray => exact absurd bound (table.importExplicit_ne_stray _ target reexport)

omit within in
theorem blames_importGlob (target : ScopeId) :
    tree.Blames (imports.importGlob tree importing target) := by
  rw [importGlob_eq]
  refine (Tree.blames_lift _).bind fun verdict _ => ?_
  cases verdict with
  | some decl =>
    refine (Tree.blames_lift _).bind fun reason hidden => ?_
    exact Tree.blames_error.mpr (sound.issues_hiddenError (Outcome.lift_eq_ok_iff.mp hidden))
  | none =>
    by_cases same : importing = target
    · simp [same]
    · simp only [same, ↓reduceIte]
      refine (Tree.blames_lift _).bind fun items _ => ?_
      refine (Tree.blames_lift _).bind fun shown _ => ?_
      exact (Tree.blames_lift _).bind fun claimed _ => Tree.blames_ok _

omit within in
theorem blames_importGlobPath : tree.Blames (imports.importGlobPath tree importing path) := by
  have leads := sound.blames_scopeNamed path importing
  rw [importGlobPath_eq]
  refine (leads.mapError ImportError.unresolved fun _ => id).bind fun target _ => ?_
  exact blames_importGlob sound importing target

end Collecting

section Lookups

theorem blames_resolve (path : Path) (origin : ScopeId) :
    tree.Blames (imports.resolve tree path origin) := by
  refine (sound.blames_reach path origin).bind fun scope _ => ?_
  refine (Tree.blames_lift _).bind fun found _ => ?_
  cases found with
  | some decl => exact sound.blames_findAdmitted scope path.name origin
  | none => exact within.blames_findReexport scope path.name

end Lookups

end Within

end Imports

/-- The ids that whoever takes a step has to pass. -/
def ImportStep.passed : ImportStep → List Id
  | .importPath importing _ _ _ | .importGlobPath importing _ => [.scope importing]
  | .importGlob importing target => [.scope importing, .scope target]
  | .settle => []

namespace Imports

variable {imports : Imports} {scope importing : ScopeId}

section Collecting

variable (sound : tree.Sound) (sized : imports.tables.size = tree.scopes.size)
  (asking : importing ∈ tree.scopeIds)

include sound sized asking

theorem importPath_ne_stray (path : Path) (asName : Option Name) (reexport : Bool) :
    imports.importPath tree importing path asName reexport ≠ .stray := by
  obtain ⟨table, present⟩ := (exists_table_iff sized).mpr asking
  have resolved := sound.resolve_ne_stray asking path
  rw [importPath_eq]
  refine Outcome.bind_ne_stray (Outcome.mapError_ne_stray _ resolved) fun target _ => ?_
  rw [present, Outcome.lift_some, Outcome.ok_bind]
  have bound := table.importExplicit_ne_stray (asName.getD path.name) target reexport
  exact Outcome.bind_ne_stray (Outcome.mapError_ne_stray _ bound) fun _ _ => by simp

/-- Nothing but a barrier keeps a scope from importing all of another. -/
theorem exists_importGlob_of_clear {target : ScopeId}
    (clear : tree.barrier target importing = some none) :
    ∃ next, imports.importGlob tree importing target = .ok next := by
  obtain ⟨here, found⟩ := Tree.mem_scopeIds.mp (Tree.mem_scopeIds_of_barrier clear)
  exact exists_importGlob sized ⟨clear, fun _ => ⟨asking, _, sound.visibleItems_eq asking found⟩⟩

theorem importGlob_ne_stray {target : ScopeId} (issued : target ∈ tree.scopeIds) :
    imports.importGlob tree importing target ≠ .stray := by
  obtain ⟨verdict, barred⟩ := sound.exists_barrier asking issued
  cases verdict with
  | some closed =>
    obtain ⟨known, _⟩ := sound.admits_barrier asking issued barred
    obtain ⟨reason, hidden⟩ := Tree.Sound.exists_hiddenError known
    simp [importGlob_eq, barred, hidden]
  | none =>
    obtain ⟨next, made⟩ := exists_importGlob_of_clear sound sized asking barred
    rw [made]
    simp

theorem importGlobPath_ne_stray (path : Path) :
    imports.importGlobPath tree importing path ≠ .stray := by
  have leads := (Tree.answers_iff.mp (sound.answers_scopeNamed asking path)).1
  rw [importGlobPath_eq]
  refine Outcome.bind_ne_stray (Outcome.mapError_ne_stray _ leads) fun target found => ?_
  have issued := sound.mem_scopeIds_of_scopeNamed (Outcome.mapError_eq_ok_iff.mp found)
  exact importGlob_ne_stray sound sized asking issued

end Collecting

theorem Faithful.respond_ne_stray (faithful : imports.Faithful tree) (sound : tree.Sound)
    {step : ImportStep} (issued : ∀ id ∈ step.passed, tree.HasIssued id) :
    imports.respond tree step ≠ .stray := by
  have sized := faithful.sized
  cases step with
  | importPath importing path asName reexport =>
    have asking : importing ∈ tree.scopeIds := issued (.scope importing) List.mem_cons_self
    have made := importPath_ne_stray sound sized asking path asName reexport
    rw [respond_importPath]
    exact Outcome.bind_ne_stray made fun _ _ => by simp
  | importGlob importing target =>
    have asking : importing ∈ tree.scopeIds := issued (.scope importing) List.mem_cons_self
    have known : target ∈ tree.scopeIds :=
      issued (.scope target) (by simp [ImportStep.passed])
    have made := importGlob_ne_stray sound sized asking known
    rw [respond_importGlob]
    exact Outcome.bind_ne_stray made fun _ _ => by simp
  | importGlobPath importing path =>
    have asking : importing ∈ tree.scopeIds := issued (.scope importing) List.mem_cons_self
    have made := importGlobPath_ne_stray sound sized asking path
    rw [respond_importGlobPath]
    exact Outcome.bind_ne_stray made fun _ _ => by simp
  | settle =>
    obtain ⟨settled, ran⟩ := faithful.exists_settle
    simp [respond_settle, ran]

/-- A step that succeeds answers with what its path names. -/
theorem issues_of_respond (sound : tree.Sound) {step : ImportStep} {answer : Option DeclId}
    {next : Imports} (responded : imports.respond tree step = .ok (answer, next)) :
    tree.Issues answer := by
  obtain ⟨_, answers⟩ := respond_eq_ok_iff.mp responded
  cases step with
  | importPath importing path asName reexport =>
    obtain ⟨decl, resolved, rfl⟩ := answers
    exact Tree.issues_some.mpr (Tree.issues_decl.mpr (sound.mem_declIds_of_resolve resolved))
  | importGlob importing target =>
    cases answers
    exact Tree.issues_none
  | importGlobPath importing path =>
    cases answers
    exact Tree.issues_none
  | settle =>
    cases answers
    exact Tree.issues_none

namespace Within

variable (within : imports.Within tree)

include within

theorem blames_respond (sound : tree.Sound) (step : ImportStep) :
    tree.Blames (imports.respond tree step) := by
  cases step with
  | importPath importing path asName reexport =>
    have made := within.blames_importPath sound importing path asName reexport
    rw [respond_importPath]
    exact made.bind fun _ _ => Tree.blames_ok _
  | importGlob importing target =>
    rw [respond_importGlob]
    exact (blames_importGlob sound importing target).bind fun _ _ => Tree.blames_ok _
  | importGlobPath importing path =>
    rw [respond_importGlobPath]
    exact (blames_importGlobPath sound importing path).bind fun _ _ => Tree.blames_ok _
  | settle =>
    rw [respond_settle]
    exact (Tree.blames_lift _).bind fun _ _ => Tree.blames_ok _

theorem answers_findReexport (issued : scope ∈ tree.scopeIds) (name : Name) :
    tree.Answers (imports.findReexport scope name) := by
  obtain ⟨table, present⟩ := (exists_table_iff within.sized).mpr issued
  refine Tree.answers_iff.mpr ⟨?_, within.blames_findReexport scope name, fun decl found => ?_⟩
  · rw [findReexport, present, Outcome.lift_some, Outcome.ok_bind]
    cases (table.find? name).bind Binding.reexported? <;> simp
  · have bound := (findReexport_eq_ok_iff present).mp found
    rw [explicit?, binding?_of_table present, Binding.explicit?_eq_some_iff] at bound
    have known := Tree.issues_explicit.mp (within.issues_of_find? present bound)
    exact Tree.issues_decl.mpr known

variable (sound : tree.Sound)

include sound

theorem answers_lookup (issued : scope ∈ tree.scopeIds) (name : Name) :
    tree.Answers (imports.lookup tree name scope) := by
  obtain ⟨table, present⟩ := (exists_table_iff within.sized).mpr issued
  rw [lookup, present, Outcome.lift_some, Outcome.ok_bind]
  cases bound : table.find? name with
  | none => exact sound.answers_find issued name
  | some binding =>
    have known := within.issues_of_find? present bound
    dsimp only
    cases chosen : binding.target? with
    | some target => exact Tree.issues_decl.mpr (Tree.issues_of_target? known chosen)
    | none => exact Tree.issues_ambiguous.mpr (Tree.issues_candidates known)

theorem answers_findReexportFor (issued : scope ∈ tree.scopeIds) (name : Name)
    {requester : ScopeId} (asking : requester ∈ tree.scopeIds) :
    tree.Answers (imports.findReexportFor tree scope name requester) := by
  obtain ⟨verdict, barred⟩ := sound.exists_barrier asking issued
  rw [findReexportFor, barred, Outcome.lift_some, Outcome.ok_bind]
  cases verdict with
  | some closed =>
    exact sound.answers_hiddenError (sound.admits_barrier asking issued barred).1
  | none => exact within.answers_findReexport issued name

theorem answers_resolve (path : Path) {origin : ScopeId} (asking : origin ∈ tree.scopeIds) :
    tree.Answers (imports.resolve tree path origin) := by
  refine Tree.Answers.of_bind (sound.reach_ne_stray asking path) (sound.blames_reach path origin)
    fun scope reached => ?_
  have issued := sound.reach_mem_scopeIds asking reached
  obtain ⟨here, found⟩ := Tree.mem_scopeIds.mp issued
  rw [Tree.local?_of_issued found, Outcome.lift_some, Outcome.ok_bind]
  cases here.items.find? path.name with
  | some decl => exact sound.answers_findAdmitted asking issued path.name
  | none => exact within.answers_findReexport issued path.name

end Within

/-- The imports hold issued ids, with one table for each scope, and no question about issued ids
goes astray. -/
structure Answering (tree : Tree) (imports : Imports) : Prop where
  sized : imports.tables.size = tree.scopes.size
  issued : tree.Issues imports
  tables : ∀ scope ∈ tree.scopeIds, ∃ table, imports.table? scope = some table ∧
    tree.Issues table ∧ tree.Issues table.reexports
  lookups : ∀ scope ∈ tree.scopeIds, ∀ name, tree.Answers (imports.lookup tree name scope) ∧
    ∀ requester ∈ tree.scopeIds, tree.Answers (imports.findReexportFor tree scope name requester)
  paths : ∀ origin ∈ tree.scopeIds, ∀ path, tree.Answers (imports.resolve tree path origin)

theorem Within.answering (within : imports.Within tree) (sound : tree.Sound) :
    imports.Answering tree := by
  refine ⟨within.sized, within.issued, fun scope issued => ?_, fun scope issued name => ?_,
    fun origin asking path => within.answers_resolve sound path asking⟩
  · obtain ⟨table, present⟩ := (exists_table_iff within.sized).mpr issued
    have known := (issues_iff.mp within.issued).1 scope table present
    refine ⟨table, present, known, Tree.issues_list.mpr fun pair listed => ?_⟩
    obtain ⟨⟨name, binding⟩, entry, passed⟩ := List.mem_filterMap.mp listed
    obtain ⟨target, reexported, rfl⟩ := Option.map_eq_some_iff.mp passed
    have bound := Tree.issues_registry.mp known (name, binding) entry
    exact Tree.issues_pair.mpr ⟨Tree.issues_string name,
      Tree.issues_decl.mpr (Tree.issues_of_reexported? bound reexported)⟩
  · exact ⟨within.answers_lookup sound issued name,
      fun requester asking => within.answers_findReexportFor sound issued name asking⟩

end Imports

namespace Tree

/-- A glob import by a path fails where the path does and for the same reason. Where the path leads
to a module nothing bars the way, not even above the scope in which the path starts. -/
theorem globs_fail_as_their_paths (grown : tree.Grown) (steps : List ImportStep)
    {importing : ScopeId} (asking : importing ∈ tree.scopeIds) (path : Path) :
    let imports := tree.collect steps
    tree.scopeNamed path importing ≠ .stray ∧
      (∀ reason, imports.importGlobPath tree importing path = .error reason ↔
        ∃ cause, tree.scopeNamed path importing = .error cause ∧ reason = .unresolved cause) ∧
      ∀ target, tree.scopeNamed path importing = .ok target →
        tree.barrier target importing = some none ∧
        ∃ next, imports.importGlob tree importing target = .ok next ∧
          imports.importGlobPath tree importing path = .ok next := by
  intro imports
  have sound := grown.sound
  have sized : imports.tables.size = tree.scopes.size := (tree.collect_faithful steps).1.sized
  have succeeds {target : ScopeId} (leads : tree.scopeNamed path importing = .ok target) :
      tree.barrier target importing = some none ∧
        ∃ next, imports.importGlob tree importing target = .ok next ∧
          imports.importGlobPath tree importing path = .ok next := by
    have clear := sound.barrier_of_scopeNamed asking leads
    obtain ⟨next, made⟩ := Imports.exists_importGlob_of_clear sound sized asking clear
    exact ⟨clear, next, made, Imports.importGlobPath_eq_ok_iff.mpr ⟨target, leads, made⟩⟩
  refine ⟨(answers_iff.mp (sound.answers_scopeNamed asking path)).1, fun reason => ?_,
    fun target leads => succeeds leads⟩
  constructor
  · intro failed
    rw [Imports.importGlobPath_eq] at failed
    obtain early | ⟨target, wrapped, late⟩ := Outcome.bind_eq_error.mp failed
    · obtain ⟨cause, stopped, same⟩ := Outcome.mapError_eq_error_iff.mp early
      exact ⟨cause, stopped, same.symm⟩
    · -- The path leads to a module, so that the glob import of it does not fail.
      obtain ⟨_, next, made, _⟩ := succeeds (Outcome.mapError_eq_ok_iff.mp wrapped)
      cases made.symm.trans late
  · rintro ⟨cause, stopped, rfl⟩
    simp [Imports.importGlobPath_eq, stopped, Outcome.mapError]

/-- The way to `hidden` is barred for `sibling`. Within `deeper` a path climbs to it past the
private modules. -/
theorem hidden_imported_inside_only :
    nested.Grown ∧ ⟨4⟩ ∈ nested.scopeIds ∧ ⟨3⟩ ∈ nested.scopeIds ∧
      (nested.collect []).importGlobPath nested ⟨4⟩ ⟨.up 1 (by decide), ["outer"], "hidden"⟩ =
        .error (.unresolved (.hidden "hidden" ⟨1⟩ ⟨1⟩)) ∧
      nested.barrier ⟨2⟩ ⟨3⟩ = some none ∧
      ∃ next, (nested.collect []).importGlobPath nested ⟨3⟩ ⟨.up 2 (by decide), [], "hidden"⟩ =
        .ok next := by
  have grown : nested.Grown := grown_build _ _
  have sibling : ⟨4⟩ ∈ nested.scopeIds := by decide +kernel
  have deeper : ⟨3⟩ ∈ nested.scopeIds := by decide +kernel
  obtain ⟨_, fails, _⟩ := globs_fail_as_their_paths grown [] sibling
    ⟨.up 1 (by decide), ["outer"], "hidden"⟩
  obtain ⟨_, _, succeeds⟩ := globs_fail_as_their_paths grown [] deeper
    ⟨.up 2 (by decide), [], "hidden"⟩
  obtain ⟨clear, next, _, made⟩ := succeeds ⟨2⟩ rfl
  exact ⟨grown, sibling, deeper, (fails _).mpr ⟨_, rfl, rfl⟩, clear, next, made⟩

end Tree

end ScopedNames
