import ScopedNames.Proofs.Barrier
import ScopedNames.Proofs.Import.Entries
import ScopedNames.Proofs.Import.Run

set_option autoImplicit false

namespace ScopedNames

namespace Imports

variable {tree : Tree} {imports next : Imports} {step : ImportStep}

/-- Globs claim all that they can see and nothing that no glob offers. Only what is passed on by
their targets may be missing, until the imports are settled. -/
structure Faithful (tree : Tree) (imports : Imports) : Prop where
  sized : imports.tables.size = tree.scopes.size
  distinct : imports.Distinct
  opened : ∀ glob ∈ imports.globs, glob.importing ≠ glob.target ∧
    tree.Opens glob.importing glob.target
  nodup : ∀ scope name, (imports.targets scope name).Nodup
  backed : ∀ scope name, ∀ decl ∈ imports.targets scope name, ∃ target,
    ⟨scope, target⟩ ∈ imports.globs ∧ imports.Offered tree scope target name decl
  shown : ∀ scope name, imports.explicit? scope name = none → ∀ target decl,
    ⟨scope, target⟩ ∈ imports.globs → tree.Shows scope target name decl →
      decl ∈ imports.targets scope name

/-- Explicit imports and globs are those that some steps asked for. -/
structure Records (tree : Tree) (taken : ImportStep → Prop) (imports : Imports) : Prop where
  globs : ∀ glob, glob ∈ imports.globs ↔ ∃ step, taken step ∧ step.Globs tree glob
  imported : ∀ scope name decl,
    (∃ reexport, imports.explicit? scope name = some (decl, reexport)) ↔
      ∃ step, taken step ∧ ∃ reexport, step.Binds tree scope name decl reexport
  reexported : ∀ scope name decl, imports.explicit? scope name = some (decl, true) ↔
    ∃ step, taken step ∧ step.Binds tree scope name decl true

/-- Settling asks for nothing. -/
theorem Records.congr {taken also : ImportStep → Prop} (records : Records tree taken imports)
    (same : ∀ step, step ≠ .settle → (taken step ↔ also step)) : Records tree also imports := by
  have only {asks : ImportStep → Prop} (settles : ¬ asks .settle) :
      (∃ step, taken step ∧ asks step) ↔ ∃ step, also step ∧ asks step := by
    constructor
    · rintro ⟨step, was, asked⟩
      exact ⟨step, (same step (fun equal => settles (equal ▸ asked))).mp was, asked⟩
    · rintro ⟨step, was, asked⟩
      exact ⟨step, (same step (fun equal => settles (equal ▸ asked))).mpr was, asked⟩
  refine ⟨?_, ?_, ?_⟩
  · intro glob
    rw [records.globs, only ImportStep.not_globs_settle]
  · intro scope name decl
    rw [records.imported, only (by simp)]
  · intro scope name decl
    rw [records.reexported, only ImportStep.not_binds_settle]

theorem explicit_none_of_mem {scope : ScopeId} {name : Name} {decl : DeclId}
    (claimed : decl ∈ imports.targets scope name) : imports.explicit? scope name = none := by
  cases found : imports.explicit? scope name with
  | none => rfl
  | some pair =>
    rw [targets, Binding.targets_of_explicit? found] at claimed
    cases claimed

section Empty

theorem binding?_empty (tree : Tree) (scope : ScopeId) (name : Name) :
    (empty tree).binding? scope name = none := by
  simp only [binding?, table?, empty, Array.getElem?_replicate]
  split <;> rfl

theorem faithful_empty (tree : Tree) : Faithful tree (empty tree) := by
  have free (scope : ScopeId) (name : Name) : (empty tree).targets scope name = [] := by
    rw [targets, binding?_empty]
    rfl
  refine ⟨by simp [empty], ?_, by simp [empty], ?_, ?_, by simp [empty]⟩
  · intro scope table present
    simp only [table?, empty, Array.getElem?_replicate] at present
    split at present
    · cases present
      exact List.nodup_nil
    · cases present
  · simp [free]
  · simp [free]

theorem records_empty (tree : Tree) : Records tree (fun _ => False) (empty tree) := by
  have free (scope : ScopeId) (name : Name) : (empty tree).explicit? scope name = none := by
    rw [explicit?, binding?_empty]
    rfl
  exact ⟨by simp [empty], by simp [free], by simp [free]⟩

end Empty

section Feasible

theorem exists_table_iff (sized : imports.tables.size = tree.scopes.size) {scope : ScopeId} :
    (∃ table, imports.table? scope = some table) ↔ scope ∈ tree.scopeIds := by
  rw [exists_table, sized]
  obtain ⟨index⟩ := scope
  simp [Tree.scopeIds]

/-- A step that succeeds was not to fail by the tree. -/
theorem feasible_of_take (sized : imports.tables.size = tree.scopes.size)
    (taken : imports.take tree step = .ok next) : step.Feasible tree := by
  have opens {importing target : ScopeId}
      (made : imports.importGlob tree importing target = .ok next) :
      tree.Opens importing target := by
    obtain ⟨barred, ⟨same, _⟩ | ⟨_, items, shown, _, seen, first, _⟩⟩ :=
      importGlob_eq_ok_iff.mp made
    · exact ⟨barred, fun apart => absurd same apart⟩
    · obtain ⟨table, present, _⟩ := Option.bind_eq_some_iff.mp first
      exact ⟨barred, fun _ => ⟨(exists_table_iff sized).mp ⟨table, present⟩, items, seen⟩⟩
  cases step with
  | importPath importing path asName reexport =>
    obtain ⟨⟨target, bound⟩, made, _⟩ := Outcome.bind_eq_ok.mp taken
    obtain ⟨resolved, old, _, present, _⟩ := importPath_eq_ok_iff.mp made
    exact ⟨(exists_table_iff sized).mp ⟨old, present⟩, target, resolved⟩
  | importGlob importing target => exact opens taken
  | importGlobPath importing path =>
    obtain ⟨target, leads, made⟩ := importGlobPath_eq_ok_iff.mp taken
    exact ⟨target, leads, opens made⟩
  | settle => trivial

theorem opens_of_globs (feasible : step.Feasible tree) {glob : Glob}
    (globs : step.Globs tree glob) : tree.Opens glob.importing glob.target := by
  obtain ⟨_, rfl | ⟨path, rfl, leads⟩⟩ := globs
  · exact feasible
  · obtain ⟨target, leading, opens⟩ := feasible
    cases leads.symm.trans leading
    exact opens

end Feasible

namespace StepsTo

theorem explicit_none (made : StepsTo tree imports step next) {scope : ScopeId} {name : Name}
    (absent : next.explicit? scope name = none) : imports.explicit? scope name = none := by
  cases found : imports.explicit? scope name with
  | none => rfl
  | some pair =>
    obtain ⟨passed, kept⟩ := (made.imported scope name pair.1).mpr (.inl ⟨pair.2, found⟩)
    rw [absent] at kept
    cases kept

/-- What is passed on once is passed on for good. -/
theorem offered (made : StepsTo tree imports step next) {importing target : ScopeId} {name : Name}
    {decl : DeclId} (before : imports.Offered tree importing target name decl) :
    next.Offered tree importing target name decl := by
  rcases before with shows | ⟨undeclared, passed⟩
  · exact .inl shows
  · exact .inr ⟨undeclared, (made.reexported target name decl).mpr (.inl passed)⟩

theorem records {taken : ImportStep → Prop} (made : StepsTo tree imports step next)
    (before : Records tree taken imports) :
    Records tree (fun other => taken other ∨ other = step) next := by
  refine ⟨?_, ?_, ?_⟩
  · intro glob
    rw [made.globs, before.globs]
    grind
  · intro scope name decl
    rw [made.imported, before.imported]
    grind
  · intro scope name decl
    rw [made.reexported, before.reexported]
    grind

end StepsTo

namespace Faithful

/-- A step that succeeds keeps the claims of globs faithful. -/
theorem take (faithful : Faithful tree imports) (taken : imports.take tree step = .ok next) :
    Faithful tree next := by
  have made := stepsTo_of_take faithful.distinct taken
  have feasible := feasible_of_take faithful.sized taken
  refine ⟨made.sized.trans faithful.sized, made.distinct, ?_, ?_, ?_, ?_⟩
  · intro glob recorded
    rcases (made.globs glob).mp recorded with old | new
    · exact faithful.opened glob old
    · exact ⟨new.1, opens_of_globs feasible new⟩
  · intro scope name
    exact made.nodup scope name (faithful.nodup scope name)
  · intro scope name decl claimed
    have absent := explicit_none_of_mem claimed
    rcases (made.mem_targets scope name absent decl).mp claimed with old | ⟨target, new⟩
    · obtain ⟨target, recorded, offered⟩ := faithful.backed scope name decl old
      exact ⟨target, (made.globs _).mpr (.inl recorded), made.offered offered⟩
    · rcases new with ⟨globs, offered⟩ | ⟨_, recorded, passed⟩
      · exact ⟨target, (made.globs _).mpr (.inr globs), made.offered offered⟩
      · exact ⟨target, (made.globs _).mpr (.inl recorded), made.offered (.inr passed)⟩
  · intro scope name absent target decl recorded shows
    rw [made.mem_targets scope name absent]
    rcases (made.globs _).mp recorded with old | new
    · exact .inl (faithful.shown scope name (made.explicit_none absent) target decl old shows)
    · exact .inr ⟨target, .inl ⟨new, .inl shows⟩⟩

theorem of_settle (faithful : Faithful tree imports) (settled : imports.settle tree = some next) :
    Faithful tree next := by
  have taken : imports.take tree .settle = .ok next := by
    rw [Imports.take, settled]
    rfl
  exact faithful.take taken

/-- Once the imports are settled, globs claim exactly what their targets offer. -/
theorem settled (faithful : Faithful tree imports) (settled : imports.settle tree = some next)
    {scope : ScopeId} {name : Name} (absent : next.explicit? scope name = none) (decl : DeclId) :
    decl ∈ next.targets scope name ↔
      ∃ target, ⟨scope, target⟩ ∈ next.globs ∧ next.Offered tree scope target name decl := by
  have made := stepsTo_settle faithful.distinct settled
  have after := faithful.of_settle settled
  constructor
  · exact after.backed scope name decl
  · rintro ⟨target, recorded, shows | ⟨undeclared, passed⟩⟩
    · exact after.shown scope name absent target decl recorded shows
    · have before : imports.explicit? target name = some (decl, true) := by
        simpa using (made.reexported target name decl).mp passed
      have known : ⟨scope, target⟩ ∈ imports.globs := by
        simpa using (made.globs ⟨scope, target⟩).mp recorded
      refine (made.mem_targets scope name absent decl).mpr (.inr ⟨target, .inr ?_⟩)
      exact ⟨rfl, known, undeclared, before⟩

end Faithful

theorem Records.of_settle {taken : ImportStep → Prop} (records : Records tree taken imports)
    (distinct : imports.Distinct) (settled : imports.settle tree = some next) :
    Records tree taken next :=
  ((stepsTo_settle distinct settled).records records).congr fun step asks => by simp [asks]

section Success

theorem exists_claimAll (sized : imports.tables.size = tree.scopes.size) {importing : ScopeId}
    (issued : importing ∈ tree.scopeIds) (target : ScopeId) (offers : List (Name × DeclId)) :
    ∃ next, imports.claimAll importing target offers = some next := by
  obtain ⟨table, present⟩ := (exists_table_iff sized).mpr issued
  exact ⟨_, Option.bind_eq_some_iff.mpr ⟨table, present, rfl⟩⟩

theorem exists_claimReexports (sized : imports.tables.size = tree.scopes.size) (glob : Glob)
    (importing : glob.importing ∈ tree.scopeIds) (target : glob.target ∈ tree.scopeIds) :
    ∃ next, imports.claimReexports tree glob = some next := by
  obtain ⟨here, found⟩ := Tree.mem_scopeIds.mp target
  obtain ⟨table, present⟩ := (exists_table_iff sized).mpr target
  obtain ⟨offers, opened⟩ : ∃ offers, imports.openReexports tree glob.target = some offers := by
    simp [openReexports, found, present]
  obtain ⟨next, claimed⟩ := exists_claimAll sized importing glob.target offers
  exact ⟨next, Option.bind_eq_some_iff.mpr ⟨offers, opened, claimed⟩⟩

theorem exists_globs (sized : imports.tables.size = tree.scopes.size) (globs : List Glob)
    (issued : ∀ glob ∈ globs, glob.importing ∈ tree.scopeIds ∧ glob.target ∈ tree.scopeIds) :
    ∃ next, globs.foldlM (fun imports glob => imports.claimReexports tree glob) imports =
      some next := by
  induction globs generalizing imports with
  | nil => exact ⟨imports, rfl⟩
  | cons glob globs ih =>
    obtain ⟨importing, target⟩ := issued glob List.mem_cons_self
    obtain ⟨middle, first⟩ := exists_claimReexports sized glob importing target
    have middling : middle.tables.size = tree.scopes.size := by
      obtain ⟨offers, _, claims⟩ := Option.bind_eq_some_iff.mp first
      exact (absorbs_claimAll claims).sized.trans sized
    obtain ⟨next, rest⟩ :=
      ih middling fun other later => issued other (List.mem_cons_of_mem _ later)
    exact ⟨next, Option.bind_eq_some_iff.mpr ⟨middle, first, rest⟩⟩

theorem issued_of_opens {importing target : ScopeId} (apart : importing ≠ target)
    (opens : tree.Opens importing target) :
    importing ∈ tree.scopeIds ∧ target ∈ tree.scopeIds :=
  ⟨(opens.2 apart).1, Tree.mem_scopeIds_of_barrier opens.1⟩

theorem exists_importGlob (sized : imports.tables.size = tree.scopes.size)
    {importing target : ScopeId} (opens : tree.Opens importing target) :
    ∃ next, imports.importGlob tree importing target = .ok next := by
  by_cases same : importing = target
  · exact ⟨imports, importGlob_eq_ok_iff.mpr ⟨opens.1, .inl ⟨same, rfl⟩⟩⟩
  · obtain ⟨issued, reached⟩ := issued_of_opens same opens
    obtain ⟨_, items, seen⟩ := opens.2 same
    obtain ⟨shown, first⟩ := exists_claimAll sized issued target items
    have showing : shown.tables.size = tree.scopes.size :=
      (absorbs_claimAll first).sized.trans sized
    obtain ⟨claimed, second⟩ :=
      exists_claimReexports showing ⟨importing, target⟩ issued reached
    exact ⟨_, importGlob_eq_ok_iff.mpr
      ⟨opens.1, .inr ⟨same, items, shown, claimed, seen, first, second, rfl⟩⟩⟩

/-- Settling never fails. -/
theorem Faithful.exists_settle (faithful : Faithful tree imports) :
    ∃ next, imports.settle tree = some next :=
  exists_globs faithful.sized imports.globs fun glob recorded =>
    issued_of_opens (faithful.opened glob recorded).1 (faithful.opened glob recorded).2

/-- A step that the tree lets succeed can only fail for a name imported for something else. -/
theorem Faithful.exists_take (faithful : Faithful tree imports) (feasible : step.Feasible tree)
    (free : ∀ scope name decl other reexport passed, step.Binds tree scope name decl reexport →
      imports.explicit? scope name = some (other, passed) → other = decl) :
    ∃ next, imports.take tree step = .ok next := by
  cases step with
  | importPath importing path asName reexport =>
    obtain ⟨issued, decl, resolved⟩ := feasible
    obtain ⟨old, present⟩ := (exists_table_iff faithful.sized).mpr issued
    have same : ∀ pair, Binding.explicit? (old.find? (asName.getD path.name)) = some pair →
        pair.1 = decl := by
      intro pair found
      rw [← binding?_of_table present, ← explicit?] at found
      exact free importing _ decl pair.1 reexport pair.2 (by simp [resolved]) found
    obtain ⟨table, ready⟩ : ∃ table,
        (BindingTable.importExplicit (asName.getD path.name) decl reexport).outcome old =
          .ok ((), table) :=
      ⟨_, BindingTable.importExplicit_eq_ok_iff.mpr ⟨same, rfl⟩⟩
    have made := importPath_eq_ok_iff.mpr ⟨resolved, old, table, present, ready, rfl⟩
    exact ⟨_, Outcome.bind_eq_ok.mpr ⟨_, made, rfl⟩⟩
  | importGlob importing target => exact exists_importGlob faithful.sized feasible
  | importGlobPath importing path =>
    obtain ⟨target, leads, opens⟩ := feasible
    obtain ⟨next, made⟩ := exists_importGlob faithful.sized opens
    exact ⟨next, importGlobPath_eq_ok_iff.mpr ⟨target, leads, made⟩⟩
  | settle =>
    obtain ⟨next, settled⟩ := faithful.exists_settle
    refine ⟨next, ?_⟩
    rw [Imports.take, settled]
    rfl

end Success

section Failure

/-- An import that cannot be made leaves the table as it was. -/
theorem allOrNothing_importExplicit (table : BindingTable) (name : Name) (target : DeclId)
    (reexport : Bool) :
    (BindingTable.importExplicit name target reexport).AllOrNothing table := by
  unfold Action.AllOrNothing BindingTable.importExplicit
  split
  · next existing already found =>
    by_cases same : existing = target
    · exact .inl ⟨(), by rw [if_pos same]⟩
    · exact .inr (by rw [if_neg same])
  · exact .inl ⟨(), rfl⟩
  · exact .inl ⟨(), rfl⟩

theorem allOrNothing_importPath (imports : Imports) (tree : Tree) (importing : ScopeId)
    (path : Path) (asName : Option Name) (reexport : Bool) :
    (Collector.importPath tree importing path asName reexport).AllOrNothing imports := by
  refine .lift_bind fun target _ => ?_
  have bound : ((BindingTable.importExplicit (asName.getD path.name) target reexport).onPart
      (·.table? importing) (·.setTable importing)).AllOrNothing imports :=
    .onPart (fun table _ => allOrNothing_importExplicit table _ target reexport)
      fun table present => setTable_of_present present
  exact .bind (bound.mapError _) fun _ _ _ => ⟨_, rfl⟩

/-- Once the names of the target have been claimed, nothing is left to fail. -/
theorem allOrNothing_importGlob (sized : imports.tables.size = tree.scopes.size)
    (importing target : ScopeId) :
    (Collector.importGlob tree importing target).AllOrNothing imports := by
  refine .liftOption_bind fun verdict barred => ?_
  cases verdict with
  | some decl => exact .liftOption_bind fun reason _ => .give _
  | none =>
    by_cases itself : importing = target
    · simp only [if_pos itself]
      exact .pure ()
    · simp only [if_neg itself]
      refine .liftOption_bind fun items _ => .bind (.once _) fun _ shown made => ?_
      have first : imports.claimAll importing target items = some shown := by
        simpa [Outcome.bind_eq_ok, Outcome.lift_eq_ok_iff] using made
      obtain ⟨table, present, _⟩ := Option.bind_eq_some_iff.mp first
      have asking : importing ∈ tree.scopeIds := (exists_table_iff sized).mp ⟨table, present⟩
      have showing := (absorbs_claimAll first).sized.trans sized
      obtain ⟨next, second⟩ := exists_claimReexports showing ⟨importing, target⟩ asking
        (Tree.mem_scopeIds_of_barrier barred)
      exact ⟨((), next.record ⟨importing, target⟩), by simp [second]⟩

theorem allOrNothing_importGlobPath (sized : imports.tables.size = tree.scopes.size)
    (importing : ScopeId) (path : Path) :
    (Collector.importGlobPath tree importing path).AllOrNothing imports :=
  .lift_bind fun target _ => allOrNothing_importGlob sized importing target

/-- A step that fails leaves the imports as they were. -/
theorem allOrNothing_act (sized : imports.tables.size = tree.scopes.size) (step : ImportStep) :
    (step.act tree).AllOrNothing imports := by
  cases step with
  | importPath importing path asName reexport =>
    exact .bind (allOrNothing_importPath imports tree importing path asName reexport)
      fun _ _ _ => ⟨_, rfl⟩
  | importGlob importing target =>
    exact .bind (allOrNothing_importGlob sized importing target) fun _ _ _ => ⟨_, rfl⟩
  | importGlobPath importing path =>
    exact .bind (allOrNothing_importGlobPath sized importing path) fun _ _ _ => ⟨_, rfl⟩
  | settle => exact .bind (.once _) fun _ _ _ => ⟨_, rfl⟩

theorem attempt_of_failed (sized : imports.tables.size = tree.scopes.size)
    (failed : ∀ next, imports.take tree step ≠ .ok next) : imports.attempt tree step = imports := by
  refine (allOrNothing_act sized step).state_eq fun answer succeeds => ?_
  exact failed _ (take_eq_ok_iff_respond.mpr ⟨answer, Action.outcome_eq_ok_iff.mpr ⟨succeeds, rfl⟩⟩)

/-- A step succeeds and leaves what it makes of the imports, or it leaves them as they were. -/
theorem take_or_attempt_eq (sized : imports.tables.size = tree.scopes.size) (step : ImportStep) :
    imports.take tree step = .ok (imports.attempt tree step) ∨
      imports.attempt tree step = imports := by
  cases taken : imports.take tree step with
  | ok next => exact .inl (by rw [attempt_of_take taken])
  | error reason => exact .inr (attempt_of_failed sized (by simp [taken]))
  | stray => exact .inr (attempt_of_failed sized (by simp [taken]))

end Failure

end Imports

/-- The same answer, but for the order in which the candidates of an ambiguous name are listed. -/
inductive SameButForOrder : Outcome LookupError DeclId → Outcome LookupError DeclId → Prop where
  | same (answer : Outcome LookupError DeclId) : SameButForOrder answer answer
  | ambiguous (name : Name) {left right : List DeclId} (reordered : left.Perm right) :
    SameButForOrder (.error (.ambiguous name left)) (.error (.ambiguous name right))

namespace Imports

variable {tree : Tree} {left right : Imports}

/-- Nothing but the order of candidates and globs tells two settled imports apart. -/
structure Agree (tree : Tree) (left right : Imports) : Prop where
  explicit : ∀ scope name target reexport,
    left.binding? scope name = some (.explicit target reexport) ↔
      right.binding? scope name = some (.explicit target reexport)
  bound : ∀ scope name, left.binding? scope name = none ↔ right.binding? scope name = none
  globs : ∀ glob, glob ∈ left.globs ↔ glob ∈ right.globs
  lookup : ∀ name scope,
    SameButForOrder (left.lookup tree name scope) (right.lookup tree name scope)
  findReexportFor : ∀ scope name requester,
    left.findReexportFor tree scope name requester =
      right.findReexportFor tree scope name requester
  resolve : ∀ path origin, left.resolve tree path origin = right.resolve tree path origin

section Tables

theorem table?_eq_none_iff {imports : Imports} (sized : imports.tables.size = tree.scopes.size)
    {scope : ScopeId} : imports.table? scope = none ↔ scope ∉ tree.scopeIds := by
  rw [← exists_table_iff sized]
  cases imports.table? scope <;> simp

/-- Scopes that one of them has no table for, the other has no table for. -/
theorem tables_of_sized (sizedLeft : left.tables.size = tree.scopes.size)
    (sizedRight : right.tables.size = tree.scopes.size) (scope : ScopeId) :
    left.table? scope = none ∧ right.table? scope = none ∨
      ∃ one other, left.table? scope = some one ∧ right.table? scope = some other := by
  by_cases issued : scope ∈ tree.scopeIds
  · obtain ⟨one, first⟩ := (exists_table_iff sizedLeft).mpr issued
    obtain ⟨other, second⟩ := (exists_table_iff sizedRight).mpr issued
    exact .inr ⟨one, other, first, second⟩
  · exact .inl ⟨(table?_eq_none_iff sizedLeft).mpr issued,
      (table?_eq_none_iff sizedRight).mpr issued⟩

end Tables

section Alike

variable (sizedLeft : left.tables.size = tree.scopes.size)
  (sizedRight : right.tables.size = tree.scopes.size)
  (explicit : ∀ scope name, left.explicit? scope name = right.explicit? scope name)

include sizedLeft sizedRight explicit

theorem findReexport_congr (scope : ScopeId) (name : Name) :
    left.findReexport scope name = right.findReexport scope name := by
  rcases tables_of_sized sizedLeft sizedRight scope with ⟨one, other⟩ | ⟨_, _, one, other⟩
  · simp [findReexport, one, other]
  · rw [findReexport_eq one, findReexport_eq other, explicit]

theorem lookup_congr
    (reordered : ∀ scope name, (left.targets scope name).Perm (right.targets scope name))
    (name : Name) (scope : ScopeId) :
    SameButForOrder (left.lookup tree name scope) (right.lookup tree name scope) := by
  rcases tables_of_sized sizedLeft sizedRight scope with ⟨one, other⟩ | ⟨_, _, one, other⟩
  · have alike : left.lookup tree name scope = right.lookup tree name scope := by
      simp [lookup, one, other]
    exact alike ▸ .same _
  · have permuted := reordered scope name
    rw [lookup_eq one, lookup_eq other, explicit]
    generalize left.targets scope name = first at permuted
    generalize right.targets scope name = second at permuted
    cases right.explicit? scope name with
    | some pair => exact .same _
    | none =>
      rcases first with _ | ⟨target, _ | ⟨more, others⟩⟩
      · cases permuted.nil_eq
        exact .same _
      · cases permuted.singleton_eq
        exact .same _
      · rcases second with _ | ⟨_, _ | ⟨_, _⟩⟩
        · cases permuted.length_eq
        · cases permuted.length_eq
        · exact .ambiguous name permuted

/-- The same explicit imports, globs and claims are enough to agree. -/
theorem agree_of_alike (globs : ∀ glob, glob ∈ left.globs ↔ glob ∈ right.globs)
    (reordered : ∀ scope name, (left.targets scope name).Perm (right.targets scope name)) :
    left.Agree tree right := by
  have passed := findReexport_congr sizedLeft sizedRight explicit
  refine ⟨?_, ?_, globs, lookup_congr sizedLeft sizedRight explicit reordered, ?_, ?_⟩
  · intro scope name target reexport
    rw [← Binding.explicit?_eq_some_iff, ← Binding.explicit?_eq_some_iff]
    exact iff_of_eq (congrArg (· = some (target, reexport)) (explicit scope name))
  · intro scope name
    rw [binding?_eq_none_iff, binding?_eq_none_iff, explicit]
    have none : left.targets scope name = [] ↔ right.targets scope name = [] := by
      rw [← List.length_eq_zero_iff, (reordered scope name).length_eq, List.length_eq_zero_iff]
    rw [none]
  · intro scope name requester
    simp only [findReexportFor, passed]
  · intro path origin
    simp only [resolve, passed]

end Alike

section Recorded

variable {taken : ImportStep → Prop} {one other : Imports}

/-- The steps taken determine the explicit imports, whatever their order. -/
theorem Records.explicit?_eq (first : left.Records tree taken) (second : right.Records tree taken)
    (scope : ScopeId) (name : Name) : left.explicit? scope name = right.explicit? scope name := by
  have imported (decl : DeclId) :
      (∃ reexport, left.explicit? scope name = some (decl, reexport)) ↔
        ∃ reexport, right.explicit? scope name = some (decl, reexport) := by
    rw [first.imported, second.imported]
  have reexported (decl : DeclId) : left.explicit? scope name = some (decl, true) ↔
      right.explicit? scope name = some (decl, true) := by
    rw [first.reexported, second.reexported]
  cases found : left.explicit? scope name with
  | none =>
    cases present : right.explicit? scope name with
    | none => rfl
    | some pair =>
      obtain ⟨reexport, missing⟩ := (imported pair.1).mpr ⟨pair.2, present⟩
      rw [found] at missing
      cases missing
  | some pair =>
    obtain ⟨decl, passed⟩ := pair
    obtain ⟨reexport, present⟩ := (imported decl).mp ⟨passed, found⟩
    have flags := reexported decl
    rw [found, present] at flags
    rw [present]
    cases passed <;> cases reexport <;> simp_all

/-- Imports that record the same steps agree once they are settled. -/
theorem agree_of_records (faithfulOne : one.Faithful tree) (faithfulOther : other.Faithful tree)
    (recordsOne : one.Records tree taken) (recordsOther : other.Records tree taken)
    (settledOne : one.settle tree = some left) (settledOther : other.settle tree = some right) :
    left.Agree tree right := by
  have afterOne := faithfulOne.of_settle settledOne
  have afterOther := faithfulOther.of_settle settledOther
  have recordsLeft := recordsOne.of_settle faithfulOne.distinct settledOne
  have recordsRight := recordsOther.of_settle faithfulOther.distinct settledOther
  have explicit := recordsLeft.explicit?_eq recordsRight
  have globs (glob : Glob) : glob ∈ left.globs ↔ glob ∈ right.globs := by
    rw [recordsLeft.globs, recordsRight.globs]
  refine agree_of_alike afterOne.sized afterOther.sized explicit globs fun scope name => ?_
  cases found : left.explicit? scope name with
  | some pair =>
    have known := (explicit scope name).symm.trans found
    rw [targets, targets, Binding.targets_of_explicit? found, Binding.targets_of_explicit? known]
  | none =>
    have known := (explicit scope name).symm.trans found
    refine (List.perm_ext_iff_of_nodup
      (afterOne.nodup scope name) (afterOther.nodup scope name)).mpr
      fun decl => ?_
    rw [faithfulOne.settled settledOne found, faithfulOther.settled settledOther known]
    simp only [globs, Offered, PassesOn, explicit]

end Recorded

end Imports

end ScopedNames
