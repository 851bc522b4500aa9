import ScopedNames.Proofs.Import.Settled

set_option autoImplicit false

namespace ScopedNames

variable {tree : Tree}

namespace Binding

/-- An entry has no use for a claim on a declaration: it is an explicit import, or the declaration
is claimed. -/
def Holds (entry : Option Binding) (target : DeclId) : Prop :=
  explicit? entry ≠ none ∨ target ∈ targets entry

theorem afterClaim_of_holds {entry : Option Binding} {claim : Claim}
    (holds : Holds entry claim.target) : some (afterClaim entry claim) = entry := by
  match entry with
  | none => rcases holds with explicit | claimed <;> contradiction
  | some (.explicit _ _) => rfl
  | some (.globbed first others) =>
    rcases holds with explicit | claimed
    · exact absurd rfl explicit
    · rw [afterClaim, if_pos (Absorbs.of_isClaimed.mpr claimed)]

end Binding

namespace BindingTable

variable {table : BindingTable}

theorem claim_of_holds {name : Name} {claim : Claim}
    (holds : Binding.Holds (table.find? name) claim.target) : table.claim name claim = table :=
  Registry.bind_of_find? (Binding.afterClaim_of_holds holds).symm

theorem claimAll_of_holds {source : ScopeId} {offers : List (Name × DeclId)}
    (holds : ∀ name target, (name, target) ∈ offers → Binding.Holds (table.find? name) target) :
    table.claimAll source offers = table := by
  induction offers with
  | nil => rfl
  | cons offer offers ih =>
    obtain ⟨name, target⟩ := offer
    rw [claimAll_cons, claim_of_holds (holds name target List.mem_cons_self)]
    exact ih fun other decl listed => holds other decl (List.mem_cons_of_mem _ listed)

/-- A name imported again for the same declaration changes nothing, unless it is to be passed on and
was not. -/
theorem importExplicit_of_find? {name : Name} {target : DeclId} {reexport passed : Bool}
    (found : table.find? name = some (.explicit target passed))
    (covered : reexport = true → passed = true) :
    (importExplicit name target reexport).outcome table = .ok ((), table) := by
  have same : (passed || reexport) = passed := by cases reexport <;> simp_all
  refine importExplicit_eq_ok_iff.mpr ⟨?_, ?_⟩
  · simp [found, Binding.explicit?]
  · simp [found, Binding.explicit?, same, Registry.bind_of_find? found]

end BindingTable

/-- The answer that the tree has for a step. Only an import by path has something to answer: the
declaration that the path leads to. -/
def ImportStep.Answers (tree : Tree) : ImportStep → Option DeclId → Prop
  | .importPath importing path _ _, answer =>
    ∃ decl, tree.resolve path importing = .ok decl ∧ answer = some decl
  | .importGlob _ _, answer | .importGlobPath _ _, answer | .settle, answer => answer = none

namespace Imports

variable {imports next : Imports}

/-- The entry of a name in a scope has no use for a claim on a declaration. -/
def Holds (imports : Imports) (scope : ScopeId) (name : Name) (decl : DeclId) : Prop :=
  Binding.Holds (imports.binding? scope name) decl

/-- Nothing that is offered to a glob on record is new. -/
def Complete (tree : Tree) (imports : Imports) : Prop :=
  ∀ scope target, ⟨scope, target⟩ ∈ imports.globs → ∀ name decl,
    imports.Offered tree scope target name decl → imports.Holds scope name decl

theorem Faithful.complete_of_settle (faithful : Faithful tree imports)
    (settled : imports.settle tree = some next) : Complete tree next := by
  intro scope target recorded name decl offered
  by_cases absent : next.explicit? scope name = none
  · exact .inr ((faithful.settled settled absent decl).mpr ⟨target, recorded, offered⟩)
  · exact .inl absent

section Claims

theorem claimAll_eq_self {importing target : ScopeId} {offers : List (Name × DeclId)}
    (holds : ∀ name decl, (name, decl) ∈ offers → imports.Holds importing name decl)
    (claimed : imports.claimAll importing target offers = some next) : next = imports := by
  obtain ⟨table, present, same⟩ := Option.bind_eq_some_iff.mp claimed
  cases same
  have kept : table.claimAll target offers = table := by
    refine BindingTable.claimAll_of_holds fun name decl listed => ?_
    rw [← binding?_of_table present]
    exact holds name decl listed
  rw [kept, setTable_of_present present]

theorem claimReexports_eq_self (distinct : imports.Distinct) {glob : Glob}
    (holds : ∀ name decl, imports.PassesOn tree glob.target name decl →
      imports.Holds glob.importing name decl)
    (claimed : imports.claimReexports tree glob = some next) : next = imports := by
  obtain ⟨offers, opened, claims⟩ := Option.bind_eq_some_iff.mp claimed
  refine claimAll_eq_self (fun name decl listed => ?_) claims
  exact holds name decl ((mem_openReexports distinct opened).mp listed)

variable (distinct : imports.Distinct) (complete : Complete tree imports)

include distinct complete

theorem importGlob_eq_self {importing target : ScopeId}
    (recorded : importing ≠ target → ⟨importing, target⟩ ∈ imports.globs)
    (made : imports.importGlob tree importing target = .ok next) : next = imports := by
  obtain ⟨_, ⟨_, rfl⟩ | ⟨apart, items, shown, claimed, seen, first, second, rfl⟩⟩ :=
    importGlob_eq_ok_iff.mp made
  · rfl
  · have known := recorded apart
    have unchanged : shown = imports :=
      claimAll_eq_self (fun name decl listed =>
        complete importing target known name decl (.inl ⟨items, seen, listed⟩)) first
    subst unchanged
    have still : claimed = shown :=
      claimReexports_eq_self distinct (fun name decl passed =>
        complete importing target known name decl (.inr passed)) second
    rw [still, record_of_mem known]

/-- By induction along the globs: each leaves the imports to the next as they were. -/
theorem globs_eq_self {globs : List Glob} (recorded : ∀ glob ∈ globs, glob ∈ imports.globs)
    (ran : globs.foldlM (fun imports glob => imports.claimReexports tree glob) imports =
      some next) : next = imports := by
  induction globs with
  | nil => exact (Option.some.inj ran).symm
  | cons glob globs ih =>
    obtain ⟨middle, first, rest⟩ := Option.bind_eq_some_iff.mp ran
    have unchanged : middle = imports :=
      claimReexports_eq_self distinct (fun name decl passed =>
        complete glob.importing glob.target (recorded glob List.mem_cons_self) name decl
          (.inr passed)) first
    rw [unchanged] at rest
    exact ih (fun other later => recorded other (List.mem_cons_of_mem _ later)) rest

theorem settle_eq_self (settled : imports.settle tree = some next) : next = imports :=
  globs_eq_self distinct complete (fun _ recorded => recorded) settled

end Claims

theorem importPath_eq_self {importing : ScopeId} {path : Path} {asName : Option Name}
    {reexport passed : Bool} {target : DeclId}
    (known : imports.explicit? importing (asName.getD path.name) = some (target, passed))
    (covered : reexport = true → passed = true)
    (made : imports.importPath tree importing path asName reexport = .ok (target, next)) :
    next = imports := by
  obtain ⟨_, old, table, present, bound, rfl⟩ := importPath_eq_ok_iff.mp made
  rw [explicit?, binding?_of_table present, Binding.explicit?_eq_some_iff] at known
  cases (BindingTable.importExplicit_of_find? known covered).symm.trans bound
  exact setTable_of_present present

/-- What a step asks for is there: its globs are on record and its names are imported. -/
structure Grants (tree : Tree) (imports : Imports) (step : ImportStep) : Prop where
  globs : ∀ glob, step.Globs tree glob → glob ∈ imports.globs
  bound : ∀ scope name decl reexport, step.Binds tree scope name decl reexport →
    ∃ passed, imports.explicit? scope name = some (decl, passed) ∧
      (reexport = true → passed = true)

section Granted

variable {step : ImportStep}

theorem Records.grants {taken : ImportStep → Prop} (records : Records tree taken imports)
    (was : taken step) : Grants tree imports step := by
  refine ⟨fun glob globs => (records.globs glob).mpr ⟨step, was, globs⟩, ?_⟩
  intro scope name decl reexport binds
  cases reexport with
  | true => exact ⟨true, (records.reexported scope name decl).mpr ⟨step, was, binds⟩, fun _ => rfl⟩
  | false =>
    obtain ⟨passed, known⟩ := (records.imported scope name decl).mpr ⟨step, was, false, binds⟩
    exact ⟨passed, known, by simp⟩

/-- A step that asks for nothing new leaves complete imports alone. -/
theorem take_eq_self (distinct : imports.Distinct) (complete : Complete tree imports)
    (grants : Grants tree imports step) (taken : imports.take tree step = .ok next) :
    next = imports := by
  cases step with
  | importPath importing path asName reexport =>
    obtain ⟨⟨target, bound⟩, made, same⟩ := Outcome.bind_eq_ok.mp taken
    cases same
    have resolved := (importPath_eq_ok_iff.mp made).1
    obtain ⟨passed, known, covered⟩ :=
      grants.bound importing (asName.getD path.name) target reexport (by simp [resolved])
    exact importPath_eq_self known covered made
  | importGlob importing target =>
    refine importGlob_eq_self distinct complete (fun apart => ?_) taken
    exact grants.globs _ (ImportStep.globs_importGlob.mpr ⟨apart, rfl⟩)
  | importGlobPath importing path =>
    obtain ⟨target, leads, made⟩ := importGlobPath_eq_ok_iff.mp taken
    refine importGlob_eq_self distinct complete (fun apart => ?_) made
    exact grants.globs _ ((ImportStep.globs_importGlobPath leads).mpr
      (ImportStep.globs_importGlob.mpr ⟨apart, rfl⟩))
  | settle =>
    cases settled : imports.settle tree with
    | none => simp [take, settled] at taken
    | some claimed =>
      rw [take, settled] at taken
      cases taken
      exact settle_eq_self distinct complete settled

/-- It does not fail either, where the tree gives it no reason to. -/
theorem Faithful.take_of_grants (faithful : Faithful tree imports)
    (complete : Complete tree imports) (grants : Grants tree imports step)
    (feasible : step.Feasible tree) : imports.take tree step = .ok imports := by
  have free : ∀ scope name decl other reexport passed, step.Binds tree scope name decl reexport →
      imports.explicit? scope name = some (other, passed) → other = decl := by
    intro scope name decl other reexport passed binds found
    obtain ⟨_, known, _⟩ := grants.bound scope name decl reexport binds
    cases found.symm.trans known
    rfl
  obtain ⟨next, taken⟩ := faithful.exists_take feasible free
  rw [taken, take_eq_self faithful.distinct complete grants taken]

end Granted

section Respond

/-- Takes steps one after the other, up to the first that fails, and gathers their answers. -/
def respondAll (imports : Imports) (tree : Tree) :
    List ImportStep → Outcome ImportError (List (Option DeclId) × Imports)
  | [] => return ([], imports)
  | step :: steps => do
    let (answer, next) ← imports.respond tree step
    let (answers, last) ← next.respondAll tree steps
    return (answer :: answers, last)

theorem respondAll_eq_self {entries : List (ImportStep × Option DeclId)}
    (same : ∀ entry ∈ entries, imports.respond tree entry.1 = .ok (entry.2, imports)) :
    imports.respondAll tree (entries.map (·.1)) = .ok (entries.map (·.2), imports) := by
  induction entries with
  | nil => rfl
  | cons entry entries ih =>
    have rest := ih fun other later => same other (List.mem_cons_of_mem _ later)
    simp only [List.map_cons, respondAll, same entry List.mem_cons_self, rest, Outcome.ok_bind,
      Outcome.pure_eq]

/-- The tree alone decides what a step that succeeds has to answer. -/
theorem respond_eq_ok_iff {step : ImportStep} {answer : Option DeclId} :
    imports.respond tree step = .ok (answer, next) ↔
      imports.take tree step = .ok next ∧ step.Answers tree answer := by
  cases step with
  | importPath importing path asName reexport =>
    rw [respond_importPath, take, Outcome.bind_eq_ok, Outcome.bind_eq_ok]
    constructor
    · rintro ⟨⟨decl, bound⟩, made, same⟩
      cases same
      exact ⟨⟨_, made, rfl⟩, decl, (importPath_eq_ok_iff.mp made).1, rfl⟩
    · rintro ⟨⟨⟨decl, bound⟩, made, same⟩, other, resolved, rfl⟩
      cases same
      cases resolved.symm.trans (importPath_eq_ok_iff.mp made).1
      exact ⟨_, made, rfl⟩
  | importGlob importing target =>
    cases made : imports.importGlob tree importing target <;>
      simp [respond_importGlob, take, made, ImportStep.Answers, and_comm, eq_comm]
  | importGlobPath importing path =>
    cases made : imports.importGlobPath tree importing path <;>
      simp [respond_importGlobPath, take, made, ImportStep.Answers, and_comm, eq_comm]
  | settle =>
    cases settled : imports.settle tree <;>
      simp [respond_settle, take, settled, ImportStep.Answers, and_comm, eq_comm]

end Respond

end Imports

namespace Tree

/-- A step of a run that did not fail, with its answer. -/
def Responded (tree : Tree) (steps : List ImportStep) (step : ImportStep)
    (answer : Option DeclId) : Prop :=
  ∃ before after next, steps = before ++ step :: after ∧
    (tree.collect before).respond tree step = .ok (answer, next)

theorem responded_iff_taken {steps : List ImportStep} {step : ImportStep}
    {answer : Option DeclId} :
    tree.Responded steps step answer ↔ tree.Taken steps step ∧ step.Answers tree answer := by
  constructor
  · rintro ⟨before, after, next, split, responded⟩
    obtain ⟨taken, answers⟩ := Imports.respond_eq_ok_iff.mp responded
    exact ⟨⟨before, after, next, split, taken⟩, answers⟩
  · rintro ⟨⟨before, after, next, split, taken⟩, answers⟩
    exact ⟨before, after, next, split, Imports.respond_eq_ok_iff.mpr ⟨taken, answers⟩⟩

theorem feasible_of_taken {steps : List ImportStep} {step : ImportStep}
    (was : tree.Taken steps step) : step.Feasible tree := by
  obtain ⟨before, _, _, _, taken⟩ := was
  exact Imports.feasible_of_take (tree.collect_faithful before).1.sized taken

theorem collect_settle {steps : List ImportStep} {settled : Imports}
    (ran : (tree.collect steps).settle tree = some settled) :
    tree.collect (steps ++ [.settle]) = settled := by
  rw [collect_concat]
  exact Imports.attempt_of_take (Outcome.lift_eq_ok_iff.mpr ran)

/-- A run that ends with the imports being settled can be resumed to no effect: the imports settle
as they are, and whatever steps of the run are taken again, in whatever order and however often,
they give their answers of the first time and leave the imports as they are. -/
theorem settled_imports_fixed (tree : Tree) (steps : List ImportStep) :
    ∃ settled, (tree.collect steps).settle tree = some settled ∧
      settled.settle tree = some settled ∧
      ∀ replayed : List (ImportStep × Option DeclId),
        (∀ entry ∈ replayed, tree.Responded (steps ++ [.settle]) entry.1 entry.2) →
          settled.respondAll tree (replayed.map (·.1)) = .ok (replayed.map (·.2), settled) := by
  obtain ⟨before, _⟩ := tree.collect_faithful steps
  obtain ⟨settled, ran⟩ := before.exists_settle
  have complete := before.complete_of_settle ran
  obtain ⟨faithful, records⟩ := tree.collect_faithful (steps ++ [.settle])
  rw [collect_settle ran] at faithful records
  refine ⟨settled, ran, ?_, fun replayed responded => ?_⟩
  · obtain ⟨again, rerun⟩ := faithful.exists_settle
    rw [rerun, Imports.settle_eq_self faithful.distinct complete rerun]
  · refine Imports.respondAll_eq_self fun entry listed => ?_
    obtain ⟨was, answers⟩ := responded_iff_taken.mp (responded entry listed)
    have still := faithful.take_of_grants complete (records.grants was) (feasible_of_taken was)
    exact Imports.respond_eq_ok_iff.mpr ⟨still, answers⟩

/-- The steps of `storefrontSteps` in another order, one of them twice, with the imports settled in
between. -/
def storefrontReplay : List (ImportStep × Option DeclId) :=
  [(.importPath ⟨1⟩ ⟨.here, ["imp"], "Thing"⟩ none true, some ⟨2⟩), (.importGlob ⟨4⟩ ⟨3⟩, none),
    (.settle, none), (.importGlob ⟨4⟩ ⟨1⟩, none), (.importGlob ⟨4⟩ ⟨3⟩, none)]

/-- `user` claims `Thing` from `other` first and keeps it so, although its glob of `facade` is now
taken while `facade` passes a `Thing` on. -/
theorem storefront_replayed :
    ∃ settled, (storefront.collect storefrontSteps).settle storefront = some settled ∧
      (∀ entry ∈ storefrontReplay,
        storefront.Responded (storefrontSteps ++ [.settle]) entry.1 entry.2) ∧
      settled.respondAll storefront (storefrontReplay.map (·.1)) =
        .ok ([some ⟨2⟩, none, none, none, none], settled) ∧
      settled.binding? ⟨4⟩ "Thing" = some (.globbed ⟨⟨4⟩, ⟨3⟩⟩ [⟨⟨2⟩, ⟨1⟩⟩]) := by
  obtain ⟨settled, ran, _, replays⟩ := settled_imports_fixed storefront storefrontSteps
  have imported : storefront.Responded (storefrontSteps ++ [.settle])
      (.importPath ⟨1⟩ ⟨.here, ["imp"], "Thing"⟩ none true) (some ⟨2⟩) :=
    ⟨storefrontSteps.take 2, [.settle], _, rfl, rfl⟩
  have facade : storefront.Responded (storefrontSteps ++ [.settle]) (.importGlob ⟨4⟩ ⟨1⟩) none :=
    ⟨[], storefrontSteps.drop 1 ++ [.settle], _, rfl, rfl⟩
  have other : storefront.Responded (storefrontSteps ++ [.settle]) (.importGlob ⟨4⟩ ⟨3⟩) none :=
    ⟨storefrontSteps.take 1, storefrontSteps.drop 2 ++ [.settle], _, rfl, rfl⟩
  have finished : storefront.Responded (storefrontSteps ++ [.settle]) .settle none :=
    ⟨storefrontSteps, [], _, rfl, rfl⟩
  have responded : ∀ entry ∈ storefrontReplay,
      storefront.Responded (storefrontSteps ++ [.settle]) entry.1 entry.2 := by
    simp [storefrontReplay, imported, facade, other, finished]
  refine ⟨settled, ran, responded, replays storefrontReplay responded, ?_⟩
  have entry : ((storefront.collect storefrontSteps).settle storefront).bind
      (·.binding? ⟨4⟩ "Thing") = some (.globbed ⟨⟨4⟩, ⟨3⟩⟩ [⟨⟨2⟩, ⟨1⟩⟩]) := by decide +kernel
  rwa [ran] at entry

end Tree

end ScopedNames
