import ScopedNames.Proofs.Import.Settled

set_option autoImplicit false

namespace ScopedNames

/-- The step asks for one name to be imported by a path. -/
def ImportStep.isByPath : ImportStep → Bool
  | .importPath _ _ _ _ => true
  | .importGlob _ _ | .importGlobPath _ _ | .settle => false

namespace Imports

/-- What a step imports by a path under a name of a scope, if it succeeds, and whether the name is
to be passed on. -/
def named (imports : Imports) (tree : Tree) (scope : ScopeId) (name : Name) :
    ImportStep → List (DeclId × Bool)
  | .importPath importing path asName reexport =>
    match imports.importPath tree importing path asName reexport with
    | .ok (target, _) =>
      if scope = importing ∧ name = asName.getD path.name then [(target, reexport)] else []
    | .error _ | .stray => []
  | .importGlob _ _ | .importGlobPath _ _ | .settle => []

/-- What the steps of a run import by paths under a name of a scope, in their order. -/
def history (imports : Imports) (tree : Tree) (scope : ScopeId) (name : Name) :
    List ImportStep → List (DeclId × Bool)
  | [] => []
  | step :: steps =>
    imports.named tree scope name step ++ (imports.attempt tree step).history tree scope name steps

theorem history_concat (imports : Imports) (tree : Tree) (scope : ScopeId) (name : Name)
    (steps : List ImportStep) (last : ImportStep) :
    imports.history tree scope name (steps ++ [last]) =
      imports.history tree scope name steps ++
        (steps.foldl (·.attempt tree) imports).named tree scope name last := by
  induction steps generalizing imports with
  | nil => simp [history]
  | cons step steps ih => simp [history, ih]

/-- The explicit import that a history comes down to: its declaration is passed on if any of the
imports was to pass it on. -/
def summary : List (DeclId × Bool) → Option (DeclId × Bool)
  | [] => none
  | first :: others => some (first.1, (first :: others).any (·.2))

theorem exists_mem_of_summary {past : List (DeclId × Bool)} {pair : DeclId × Bool}
    (told : summary past = some pair) : ∃ entry ∈ past, entry.1 = pair.1 := by
  cases past with
  | nil => cases told
  | cons first others =>
    cases told
    exact ⟨first, List.mem_cons_self, rfl⟩

theorem summary_any (past : List (DeclId × Bool)) : (summary past).any (·.2) = past.any (·.2) := by
  cases past with
  | nil => rfl
  | cons first others => rfl

theorem summary_concat {past : List (DeclId × Bool)} {target : DeclId}
    (free : ∀ pair, summary past = some pair → pair.1 = target) (reexport : Bool) :
    summary (past ++ [(target, reexport)]) =
      some (target, (summary past).any (·.2) || reexport) := by
  cases past with
  | nil => simp [summary]
  | cons first others =>
    have same : first.1 = target := free (first.1, (first :: others).any (·.2)) rfl
    rw [summary_any]
    simp [summary, same, Bool.or_assoc]

/-- A history tells of one declaration, and that is what its name is imported for. -/
structure Recounted (imports : Imports) (scope : ScopeId) (name : Name)
    (past : List (DeclId × Bool)) : Prop where
  explicit : imports.explicit? scope name = summary past
  agreed : ∀ entry ∈ past, ∀ pair, summary past = some pair → entry.1 = pair.1

section Steps

variable {tree : Tree} {imports next : Imports} {importing scope : ScopeId} {path : Path}
  {asName : Option Name} {reexport : Bool} {target : DeclId} {name : Name}

/-- An import by path that succeeds is of what its name is imported for already, and changes the
explicit import of no other name. -/
theorem explicit?_importPath
    (made : imports.importPath tree importing path asName reexport = .ok (target, next)) :
    (∀ pair, imports.explicit? importing (asName.getD path.name) = some pair → pair.1 = target) ∧
      ∀ scope name, next.explicit? scope name =
        if scope = importing ∧ name = asName.getD path.name then
          some (target, (imports.explicit? importing (asName.getD path.name)).any (·.2) || reexport)
        else imports.explicit? scope name := by
  obtain ⟨_, old, table, present, bound, rfl⟩ := importPath_eq_ok_iff.mp made
  constructor
  · rw [explicit?, binding?_of_table present]
    exact (BindingTable.importExplicit_eq_ok_iff.mp bound).1
  · intro scope name
    rw [explicit?, binding?_importExplicit present bound]
    split
    · rfl
    · rfl

/-- Whoever imports a name for something else than it is imported for is told of both. -/
theorem importPath_of_conflict {table : BindingTable} {existing : DeclId} {passed : Bool}
    (present : imports.table? scope = some table) (resolved : tree.resolve path scope = .ok target)
    (known : imports.explicit? scope (asName.getD path.name) = some (existing, passed))
    (apart : existing ≠ target) :
    imports.importPath tree scope path asName reexport =
      .error (.conflict (asName.getD path.name) scope existing target) := by
  rw [explicit?, binding?_of_table present, Binding.explicit?_eq_some_iff] at known
  have barred :
      (BindingTable.importExplicit (asName.getD path.name) target reexport).outcome table =
      .error existing :=
    BindingTable.importExplicit_eq_error_iff.mpr ⟨apart, passed, known⟩
  simp [importPath_eq, resolved, Outcome.mapError, present, barred]

theorem exists_importPath {table : BindingTable} (present : imports.table? scope = some table)
    (resolved : tree.resolve path scope = .ok target)
    (free : ∀ pair, imports.explicit? scope (asName.getD path.name) = some pair → pair.1 = target)
    (reexport : Bool) :
    ∃ next, imports.importPath tree scope path asName reexport = .ok (target, next) := by
  rw [explicit?, binding?_of_table present] at free
  exact ⟨_, importPath_eq_ok_iff.mpr ⟨resolved, table, _, present,
    BindingTable.importExplicit_eq_ok_iff.mpr ⟨free, rfl⟩, rfl⟩⟩

theorem attempt_of_importPath
    (made : imports.importPath tree importing path asName reexport = .ok (target, next)) :
    imports.attempt tree (.importPath importing path asName reexport) = next :=
  attempt_of_take (Outcome.bind_eq_ok.mpr ⟨_, made, rfl⟩)

/-- A step changes the explicit import of a name only if it asks for the name to be imported. -/
theorem StepsTo.explicit?_of_unbound {step : ImportStep} (made : StepsTo tree imports step next)
    (unbound : ∀ decl passed, ¬ step.Binds tree scope name decl passed) :
    next.explicit? scope name = imports.explicit? scope name := by
  refine Option.ext fun ⟨decl, passed⟩ => ?_
  have imported := made.imported scope name decl
  have reexported := made.reexported scope name decl
  simp only [unbound, exists_false, or_false, Bool.exists_bool] at imported reexported
  cases passed with
  | true => exact reexported
  | false => grind

/-- Nothing but an import by path changes what is imported explicitly. -/
theorem explicit?_attempt {step : ImportStep} (faithful : imports.Faithful tree)
    (other : step.isByPath = false) (scope : ScopeId) (name : Name) :
    (imports.attempt tree step).explicit? scope name = imports.explicit? scope name := by
  rcases take_or_attempt_eq faithful.sized step with taken | same
  · have made := stepsTo_of_take faithful.distinct taken
    refine made.explicit?_of_unbound fun decl passed binds => ?_
    obtain ⟨_, _, rfl, _⟩ := binds
    cases other
  · rw [same]

end Steps

namespace Recounted

variable {tree : Tree} {imports : Imports} {scope : ScopeId} {name : Name}
  {past : List (DeclId × Bool)}

theorem summary_eq_some {entry : DeclId × Bool} (recounted : imports.Recounted scope name past)
    (known : entry ∈ past) : summary past = some (entry.1, past.any (·.2)) := by
  cases past with
  | nil => cases known
  | cons first others =>
    rw [recounted.agreed entry known _ rfl]
    rfl

theorem empty (tree : Tree) : (Imports.empty tree).Recounted scope name [] := by
  refine ⟨?_, by simp⟩
  rw [explicit?, binding?_empty]
  rfl

/-- A history goes on with an import of the declaration it tells of. -/
theorem concat {next : Imports} {target : DeclId} {reexport : Bool}
    (recounted : imports.Recounted scope name past)
    (free : ∀ pair, imports.explicit? scope name = some pair → pair.1 = target)
    (bound : next.explicit? scope name =
      some (target, (imports.explicit? scope name).any (·.2) || reexport)) :
    next.Recounted scope name (past ++ [(target, reexport)]) := by
  rw [recounted.explicit] at free bound
  have added := summary_concat free reexport
  refine ⟨bound.trans added.symm, fun entry known pair told => ?_⟩
  cases added.symm.trans told
  rcases List.mem_append.mp known with before | last
  · exact free (entry.1, past.any (·.2)) (recounted.summary_eq_some before)
  · cases List.mem_singleton.mp last
    rfl

/-- What a step imports by a path is added to the history, and nothing else is. -/
theorem attempt (recounted : imports.Recounted scope name past) (faithful : imports.Faithful tree)
    (step : ImportStep) :
    (imports.attempt tree step).Recounted scope name
      (past ++ imports.named tree scope name step) := by
  have unchanged {next : Imports}
      (same : next.explicit? scope name = imports.explicit? scope name) :
      next.Recounted scope name (past ++ []) := by
    rw [List.append_nil]
    exact ⟨same.trans recounted.explicit, recounted.agreed⟩
  -- Only an import by a path that succeeds under this very name adds to the history.
  cases step with
  | importPath importing path asName reexport =>
    cases made : imports.importPath tree importing path asName reexport with
    | ok result =>
      obtain ⟨target, next⟩ := result
      obtain ⟨free, entries⟩ := explicit?_importPath made
      rw [attempt_of_importPath made]
      simp only [named, made]
      split
      · next here =>
        obtain ⟨rfl, rfl⟩ := here
        exact recounted.concat free (by rw [entries, if_pos ⟨rfl, rfl⟩])
      · next elsewhere => exact unchanged (by rw [entries, if_neg elsewhere])
    | error reason =>
      have same : imports.attempt tree (.importPath importing path asName reexport) = imports :=
        attempt_of_failed faithful.sized (by simp [take, made])
      simp only [named, made, same]
      exact unchanged rfl
    | stray =>
      have same : imports.attempt tree (.importPath importing path asName reexport) = imports :=
        attempt_of_failed faithful.sized (by simp [take, made])
      simp only [named, made, same]
      exact unchanged rfl
  | importGlob importing target => exact unchanged (explicit?_attempt faithful rfl scope name)
  | importGlobPath importing path => exact unchanged (explicit?_attempt faithful rfl scope name)
  | settle => exact unchanged (explicit?_attempt faithful rfl scope name)

end Recounted

end Imports

section Run

variable {tree : Tree} {scope : ScopeId} {path : Path} {asName : Option Name} {target : DeclId}
  {reexport : Bool}

/-- What a run has imported by paths under a name of a scope. -/
def Tree.history (tree : Tree) (steps : List ImportStep) (scope : ScopeId) (name : Name) :
    List (DeclId × Bool) :=
  (Imports.empty tree).history tree scope name steps

theorem Tree.collect_recounted (tree : Tree) (steps : List ImportStep) (scope : ScopeId)
    (name : Name) :
    (tree.collect steps).Recounted scope name (tree.history steps scope name) := by
  induction steps using List.reverseRecOn with
  | nil => exact .empty tree
  | append_singleton steps last ih =>
    rw [collect_concat, history, Imports.history_concat]
    exact ih.attempt (tree.collect_faithful steps).1 last

/-- An import by a path is answered by the history of its name alone, whatever globs and settling
have made of the entry meanwhile: it succeeds if all imports under the name were of the same
declaration, and then any of them that is to be passed on makes the entry so. Otherwise there was
one other declaration, and the error tells of both. -/
theorem Tree.explicit_imports_follow_history (issued : scope ∈ tree.scopeIds)
    (resolved : tree.resolve path scope = .ok target) (steps : List ImportStep) :
    let name := asName.getD path.name
    let past := tree.history steps scope name
    ((∀ entry ∈ past, entry.1 = target) →
      let next := tree.collect (steps ++ [.importPath scope path asName reexport])
      (tree.collect steps).importPath tree scope path asName reexport = .ok (target, next) ∧
        next.binding? scope name = some (.explicit target (past.any (·.2) || reexport))) ∧
    ((∃ entry ∈ past, entry.1 ≠ target) →
      ∃ existing, existing ≠ target ∧ (∀ entry ∈ past, entry.1 = existing) ∧
        (tree.collect steps).importPath tree scope path asName reexport =
          .error (.conflict name scope existing target)) ∧
    ∀ step, step.isByPath = false → ∀ importing word decl passed,
      (tree.collect (steps ++ [step])).binding? importing word = some (.explicit decl passed) ↔
        (tree.collect steps).binding? importing word = some (.explicit decl passed) := by
  intro name past
  have recounted := tree.collect_recounted steps scope name
  obtain ⟨faithful, _⟩ := tree.collect_faithful steps
  obtain ⟨table, present⟩ := (Imports.exists_table_iff faithful.sized).mpr issued
  refine ⟨fun same => ?_, ?_, ?_⟩
  · have free : ∀ pair, (tree.collect steps).explicit? scope name = some pair →
        pair.1 = target := by
      intro pair found
      obtain ⟨entry, known, told⟩ :=
        Imports.exists_mem_of_summary (recounted.explicit.symm.trans found)
      exact told.symm.trans (same entry known)
    obtain ⟨next, made⟩ := Imports.exists_importPath present resolved free reexport
    have entries := (Imports.explicit?_importPath made).2 scope name
    rw [if_pos ⟨rfl, rfl⟩, recounted.explicit, Imports.summary_any] at entries
    rw [collect_concat, Imports.attempt_of_importPath made]
    exact ⟨made, Binding.explicit?_eq_some_iff.mp entries⟩
  · rintro ⟨entry, known, apart⟩
    have told := recounted.explicit.trans (recounted.summary_eq_some known)
    refine ⟨entry.1, apart, fun other listed => ?_,
      Imports.importPath_of_conflict present resolved told apart⟩
    exact recounted.agreed other listed (entry.1, past.any (·.2)) (recounted.summary_eq_some known)
  · intro step other importing word decl passed
    rw [← Binding.explicit?_eq_some_iff, ← Binding.explicit?_eq_some_iff, collect_concat]
    exact Iff.of_eq (congrArg (· = _) (Imports.explicit?_attempt faithful other _ _))

/-- `user` has two claims on `Thing`, chooses one of them and imports from `facade` once more. -/
def chosenSteps : List ImportStep :=
  Tree.storefrontSteps ++
    [.settle, .importPath ⟨4⟩ ⟨.absolute, ["other"], "Thing"⟩ none false, .importGlob ⟨4⟩ ⟨1⟩]

/-- The choice can be turned into a re-export, but not into a choice of something else. -/
theorem Tree.chosen_thing_stays :
    (∃ next, (storefront.collect chosenSteps).importPath storefront ⟨4⟩
        ⟨.absolute, ["other"], "Thing"⟩ none true = .ok (⟨4⟩, next) ∧
      next.binding? ⟨4⟩ "Thing" = some (.explicit ⟨4⟩ true)) ∧
    (storefront.collect chosenSteps).importPath storefront ⟨4⟩ ⟨.absolute, [], "other"⟩
        (some "Thing") false = .error (.conflict "Thing" ⟨4⟩ ⟨4⟩ ⟨3⟩) ∧
    ∀ decl passed, (storefront.collect (chosenSteps ++ [.settle])).binding? ⟨4⟩ "Thing" =
        some (.explicit decl passed) ↔ decl = ⟨4⟩ ∧ passed = false := by
  have issued : ⟨4⟩ ∈ storefront.scopeIds := by decide +kernel
  have past : storefront.history chosenSteps ⟨4⟩ "Thing" = [(⟨4⟩, false)] := by decide +kernel
  have thing : storefront.resolve ⟨.absolute, ["other"], "Thing"⟩ ⟨4⟩ = .ok ⟨4⟩ := rfl
  have other : storefront.resolve ⟨.absolute, [], "other"⟩ ⟨4⟩ = .ok ⟨3⟩ := rfl
  obtain ⟨again, _, frame⟩ :=
    @explicit_imports_follow_history _ _ _ none _ true issued thing chosenSteps
  obtain ⟨_, conflict, _⟩ :=
    @explicit_imports_follow_history _ _ _ (some "Thing") _ false issued other chosenSteps
  simp only [Option.getD_none, Option.getD_some, past] at again conflict
  refine ⟨?_, ?_, fun decl passed => ?_⟩
  · exact ⟨_, again (by simp)⟩
  · obtain ⟨existing, _, same, failed⟩ := conflict ⟨(⟨4⟩, false), by simp, by decide⟩
    rwa [← same (⟨4⟩, false) (by simp)] at failed
  · have entry : (storefront.collect chosenSteps).binding? ⟨4⟩ "Thing" =
        some (.explicit ⟨4⟩ false) := by decide +kernel
    rw [frame .settle rfl, entry]
    grind

end Run

end ScopedNames
