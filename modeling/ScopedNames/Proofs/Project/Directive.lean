import ScopedNames.Project
import ScopedNames.Proofs.Import.Faithful
import ScopedNames.Proofs.Import.Settled

set_option autoImplicit false

namespace ScopedNames

/-- A request for imports in one of its forms, or the settling of the imports so far. -/
inductive Directive where
  | collect (step : ImportStep)
  | importPath (request : ImportRequest)
  | importGlob (request : GlobRequest)
  deriving DecidableEq, Repr

def Directive.isSettle : Directive → Bool
  | .collect .settle => true
  | .collect (.importPath ..) | .collect (.importGlob ..) | .collect (.importGlobPath ..)
  | .importPath _ | .importGlob _ => false

/-- The step of collecting imports that a directive comes down to, if it names a scope. -/
def Directive.step? (tree : Tree) : Directive → Option ImportStep
  | .collect step => some step
  | .importPath request => (tree.scopeAt? request.scope).map fun scope =>
    .importPath scope request.path request.asName request.reexport
  | .importGlob request => (tree.scopeAt? request.scope).map fun scope =>
    .importGlobPath scope request.target

theorem Directive.step?_of_isSettle {tree : Tree} {directive : Directive}
    (settles : directive.isSettle = true) : directive.step? tree = some .settle := by
  cases directive with
  | collect step => cases step <;> first | rfl | cases settles
  | importPath request => cases settles
  | importGlob request => cases settles

theorem Directive.isSettle_of_step? {tree : Tree} {directive : Directive} {step : ImportStep}
    (asked : directive.step? tree = some step) (asks : step ≠ .settle) :
    directive.isSettle = false := by
  cases directive with
  | collect known =>
    cases asked
    cases step with
    | importPath _ _ _ _ => rfl
    | importGlob _ _ => rfl
    | importGlobPath _ _ => rfl
    | settle => exact absurd rfl asks
  | importPath request => rfl
  | importGlob request => rfl

/-- What a step leaves behind if it succeeds. -/
def Step.after {σ ε α : Type} (step : Step σ ε α) : Outcome ε σ := do
  let _ ← step.answer
  return step.state

namespace Linking

def take (linking : Linking) : Directive → Outcome ProjectError Linking
  | .collect step => do
    let imports ← (linking.imports.take linking.tree step).mapError .imports
    return { linking with imports }
  | .importPath request => (linking.importPath request).after
  | .importGlob request => (linking.importGlob request).after

/-- Takes directives in order, up to the first that fails. -/
def takeAll (linking : Linking) (directives : List Directive) : Outcome ProjectError Linking :=
  directives.foldlM take linking

end Linking

theorem Config.report_eq_ok_iff {ε α : Type} {config : Config} {describe : ε → Option Diagnostic}
    {answer : Outcome ε α} {events : List Event} {value : α} :
    (config.report describe answer events).value = .ok value ↔ answer = .ok value := by
  cases answer with
  | ok known => simp [report]
  | error reason =>
    cases switch : config.reportsErrors <;> cases described : describe reason <;>
      simp [report, switch, described]
  | stray => simp [report]

theorem Config.after_reportStep_eq_ok_iff {σ ε α : Type} {config : Config}
    {describe : ε → Option Diagnostic} {act : Action σ ε α} {state next : σ}
    {events : List Event} :
    (config.reportStep describe (act state) events).after = .ok next ↔
      ∃ value, act.outcome state = .ok (value, next) := by
  simp only [Step.after, Outcome.bind_eq_ok, reportStep, report_eq_ok_iff, Outcome.pure_eq,
    Outcome.ok.injEq, Action.outcome_eq_ok_iff]

theorem Tree.requireScope_eq_ok_iff {tree : Tree} {segments : List Name} {scope : ScopeId} :
    tree.requireScope segments = .ok scope ↔ tree.scopeAt? segments = some scope := by
  rw [requireScope]
  cases tree.scopeAt? segments <;> simp

namespace Linking

variable {linking next : Linking} {directive : Directive}

theorem inScope_eq_ok_iff {α : Type} {tree : Tree} {names : List Name}
    {act : ScopeId → Collector α} {value : α} :
    (inScope tree names act).outcome linking = .ok (value, next) ↔
      ∃ scope, tree.scopeAt? names = some scope ∧ ∃ imports,
        (act scope).outcome linking.imports = .ok (value, imports) ∧
          next = { linking with imports } := by
  simp only [outcome_inScope, Outcome.bind_eq_ok, Outcome.mapError_eq_ok_iff,
    Tree.requireScope_eq_ok_iff, Outcome.pure_eq, Outcome.ok.injEq, Prod.mk.injEq]
  constructor
  · rintro ⟨scope, named, ⟨found, imports⟩, made, rfl, rfl⟩
    exact ⟨scope, named, imports, made, rfl⟩
  · rintro ⟨scope, named, imports, made, rfl⟩
    exact ⟨scope, named, _, made, rfl, rfl⟩

/-- A directive succeeds where the step does that it comes to, and changes the imports alone. -/
theorem take_eq_ok_iff : linking.take directive = .ok next ↔
    ∃ step, directive.step? linking.tree = some step ∧ ∃ imports,
      linking.imports.take linking.tree step = .ok imports ∧ next = { linking with imports } := by
  cases directive with
  | collect step =>
    rw [take, Outcome.bind_eq_ok]
    simp [Directive.step?, Outcome.mapError_eq_ok_iff, eq_comm]
  | importPath request =>
    rw [take, importPath, Config.after_reportStep_eq_ok_iff]
    simp only [inScope_eq_ok_iff]
    constructor
    · rintro ⟨_, scope, named, imports, made, rfl⟩
      exact ⟨_, Option.map_eq_some_iff.mpr ⟨scope, named, rfl⟩, imports,
        Outcome.bind_eq_ok.mpr ⟨_, made, rfl⟩, rfl⟩
    · rintro ⟨step, asked, imports, taken, rfl⟩
      obtain ⟨scope, named, rfl⟩ := Option.map_eq_some_iff.mp asked
      obtain ⟨⟨decl, bound⟩, made, same⟩ := Outcome.bind_eq_ok.mp taken
      cases same
      exact ⟨decl, scope, named, imports, made, rfl⟩
  | importGlob request =>
    rw [take, importGlob, Config.after_reportStep_eq_ok_iff]
    simp only [inScope_eq_ok_iff]
    constructor
    · rintro ⟨_, scope, named, imports, made, rfl⟩
      exact ⟨_, Option.map_eq_some_iff.mpr ⟨scope, named, rfl⟩, imports,
        Outcome.bind_eq_ok.mpr ⟨_, made, rfl⟩, rfl⟩
    · rintro ⟨step, asked, imports, taken, rfl⟩
      obtain ⟨scope, named, rfl⟩ := Option.map_eq_some_iff.mp asked
      obtain ⟨⟨_, bound⟩, made, same⟩ := Outcome.bind_eq_ok.mp taken
      cases same
      exact ⟨(), scope, named, imports, made, rfl⟩

/-- No name of a scope is asked to be imported for two declarations. -/
def Consistent (tree : Tree) (asked : ImportStep → Prop) : Prop :=
  ∀ step other, asked step → asked other → ∀ scope name decl another reexport passed,
    step.Binds tree scope name decl reexport → other.Binds tree scope name another passed →
      decl = another

theorem Consistent.mono {tree : Tree} {asked also : ImportStep → Prop}
    (consistent : Consistent tree also) (less : ∀ step, asked step → also step) :
    Consistent tree asked :=
  fun step other first second => consistent step other (less step first) (less other second)

/-- What imports have recorded was consistent. -/
theorem consistent_of_records {tree : Tree} {imports : Imports} {taken : ImportStep → Prop}
    (records : imports.Records tree taken) : Consistent tree taken := by
  intro step other first second scope name decl another reexport passed binds bound
  obtain ⟨_, found⟩ := (records.imported scope name decl).mpr ⟨step, first, reexport, binds⟩
  obtain ⟨_, present⟩ := (records.imported scope name another).mpr ⟨other, second, passed, bound⟩
  cases found.symm.trans present
  rfl

/-- The steps that some directives ask for. -/
def Asked (tree : Tree) (directives : List Directive) (step : ImportStep) : Prop :=
  ∃ directive ∈ directives, directive.step? tree = some step

section Runs

variable {tree : Tree} {directives : List Directive}

theorem asked_cons {step : ImportStep} : Asked tree (directive :: directives) step ↔
    directive.step? tree = some step ∨ Asked tree directives step := by
  simp [Asked]

/-- A run that succeeds has taken all that was asked for, and none of it was to fail by the tree. -/
theorem takeAll_sound {taken : ImportStep → Prop} (faithful : linking.imports.Faithful linking.tree)
    (records : linking.imports.Records linking.tree taken)
    (ran : linking.takeAll directives = .ok next) :
    next.tree = linking.tree ∧ next.imports.Faithful linking.tree ∧
      next.imports.Records linking.tree
        (fun step => taken step ∨ Asked linking.tree directives step) ∧
      ∀ directive ∈ directives, ∃ step, directive.step? linking.tree = some step ∧
        step.Feasible linking.tree := by
  induction directives generalizing linking taken with
  | nil =>
    cases ran
    exact ⟨rfl, faithful, records.congr fun step _ => by simp [Asked], by simp⟩
  | cons directive directives ih =>
    obtain ⟨middle, first, rest⟩ := Outcome.bind_eq_ok.mp ran
    obtain ⟨step, asked, imports, made, rfl⟩ := take_eq_ok_iff.mp first
    have steps := Imports.stepsTo_of_take faithful.distinct made
    have feasible := Imports.feasible_of_take faithful.sized made
    obtain ⟨same, after, recorded, others⟩ :=
      @ih { linking with imports } _ (faithful.take made) (steps.records records) rest
    refine ⟨same, after, recorded.congr fun other _ => ?_, ?_⟩
    · rw [asked_cons, asked, Option.some.injEq, eq_comm, or_assoc]
    · intro other listed
      rcases List.mem_cons.mp listed with rfl | later
      · exact ⟨step, asked, feasible⟩
      · exact others other later

/-- Directives that the tree lets succeed do so one after the other if none imports a name for
something else than another does. -/
theorem exists_takeAll {taken : ImportStep → Prop}
    (faithful : linking.imports.Faithful linking.tree)
    (records : linking.imports.Records linking.tree taken)
    (possible : ∀ directive ∈ directives, ∃ step, directive.step? linking.tree = some step ∧
      step.Feasible linking.tree)
    (consistent : Consistent linking.tree
      fun step => taken step ∨ Asked linking.tree directives step) :
    ∃ next, linking.takeAll directives = .ok next := by
  induction directives generalizing linking taken with
  | nil => exact ⟨linking, rfl⟩
  | cons directive directives ih =>
    obtain ⟨step, asked, feasible⟩ := possible directive List.mem_cons_self
    have free : ∀ scope name decl other reexport passed,
        step.Binds linking.tree scope name decl reexport →
          linking.imports.explicit? scope name = some (other, passed) → other = decl := by
      intro scope name decl other reexport passed binds found
      obtain ⟨earlier, was, _, bound⟩ := (records.imported scope name other).mp ⟨passed, found⟩
      have now : Asked linking.tree (directive :: directives) step :=
        asked_cons.mpr (.inl asked)
      exact consistent earlier step (.inl was) (.inr now) _ _ _ _ _ _ bound binds
    obtain ⟨imports, made⟩ := faithful.exists_take feasible free
    have steps := Imports.stepsTo_of_take faithful.distinct made
    have later : Consistent linking.tree
        fun other => (taken other ∨ other = step) ∨ Asked linking.tree directives other := by
      refine consistent.mono fun other known => ?_
      rw [asked_cons, asked, Option.some.injEq, eq_comm, ← or_assoc]
      exact known
    obtain ⟨next, rest⟩ := @ih { linking with imports } _ (faithful.take made)
      (steps.records records)
      (fun other listed => possible other (List.mem_cons_of_mem _ listed)) later
    have first := take_eq_ok_iff.mpr ⟨step, asked, imports, made, rfl⟩
    exact ⟨next, Outcome.bind_eq_ok.mpr ⟨_, first, rest⟩⟩

theorem asked_of_perm {first second : List Directive}
    (reordered : (first.filter (!·.isSettle)).Perm (second.filter (!·.isSettle)))
    (step : ImportStep) (asks : step ≠ .settle) :
    Asked tree first step ↔ Asked tree second step := by
  have kept {directives : List Directive} {directive : Directive}
      (asked : directive.step? tree = some step) :
      directive ∈ directives ↔ directive ∈ directives.filter (!·.isSettle) := by
    simp [Directive.isSettle_of_step? asked asks]
  constructor
  · rintro ⟨directive, listed, asked⟩
    exact ⟨directive, (kept asked).mpr (reordered.mem_iff.mp ((kept asked).mp listed)), asked⟩
  · rintro ⟨directive, listed, asked⟩
    exact ⟨directive, (kept asked).mpr (reordered.mem_iff.mpr ((kept asked).mp listed)), asked⟩

/-- Directives that all succeed in one order do so in every order, however often the imports are
settled in between, and they end in imports that agree. -/
theorem reordered_runs_agree {draft : Draft} {first second : List Directive} {one : Linking}
    (reordered : (first.filter (!·.isSettle)).Perm (second.filter (!·.isSettle)))
    (ran : draft.finish.value.takeAll first = .ok one) :
    ∃ other left right, draft.finish.value.takeAll second = .ok other ∧
      one.imports.settle draft.tree = some left ∧ other.imports.settle draft.tree = some right ∧
        left.Agree draft.tree right := by
  let start := draft.finish.value
  have faithful : start.imports.Faithful start.tree := Imports.faithful_empty draft.tree
  have records : start.imports.Records start.tree fun _ => False :=
    Imports.records_empty draft.tree
  obtain ⟨_, faithfulOne, recordsOne, succeeded⟩ := takeAll_sound faithful records ran
  have recorded : one.imports.Records start.tree
      fun step => False ∨ Asked start.tree second step :=
    recordsOne.congr fun step asks => by rw [asked_of_perm reordered step asks]
  have possible : ∀ directive ∈ second, ∃ step, directive.step? start.tree = some step ∧
      step.Feasible start.tree := by
    intro directive listed
    cases settles : directive.isSettle with
    | true => exact ⟨.settle, Directive.step?_of_isSettle settles, trivial⟩
    | false =>
      have kept : directive ∈ second.filter (!·.isSettle) := by simp [listed, settles]
      exact succeeded directive (List.mem_filter.mp (reordered.mem_iff.mpr kept)).1
  obtain ⟨other, rerun⟩ :=
    exists_takeAll faithful records possible (consistent_of_records recorded)
  obtain ⟨_, faithfulOther, recordsOther, _⟩ := takeAll_sound faithful records rerun
  obtain ⟨left, settledOne⟩ := faithfulOne.exists_settle
  obtain ⟨right, settledOther⟩ := faithfulOther.exists_settle
  exact ⟨other, left, right, rerun, settledOne, settledOther,
    Imports.agree_of_records faithfulOne faithfulOther recorded recordsOther settledOne
      settledOther⟩

/-- `facade` passes on what it keeps after `user` has imported all of it. -/
def lateReexport : List Directive :=
  [.importGlob ⟨["user"], ⟨.absolute, [], "facade"⟩⟩,
    .importPath ⟨["facade"], ⟨.here, ["imp"], "Thing"⟩, none, true⟩,
    .collect (.importGlob ⟨4⟩ ⟨3⟩)]

/-- The same with `facade` first, and the imports settled in between. -/
def earlyReexport : List Directive :=
  [.importPath ⟨["facade"], ⟨.here, ["imp"], "Thing"⟩, none, true⟩, .collect .settle,
    .importGlob ⟨["user"], ⟨.absolute, [], "facade"⟩⟩, .collect (.importGlob ⟨4⟩ ⟨3⟩)]

/-- Either way `user` has the `Thing` of `other` and the one that `facade` passes on, and they stand
in the order in which it got them. -/
theorem late_and_early_agree :
    (lateReexport.filter (!·.isSettle)).Perm (earlyReexport.filter (!·.isSettle)) ∧
      ∃ late early left right,
        (Draft.mk .standard .storefront).finish.value.takeAll lateReexport = .ok late ∧
        (Draft.mk .standard .storefront).finish.value.takeAll earlyReexport = .ok early ∧
        late.imports.settle .storefront = some left ∧
        early.imports.settle .storefront = some right ∧ left.Agree .storefront right ∧
        left.binding? ⟨4⟩ "Thing" = some (.globbed ⟨⟨4⟩, ⟨3⟩⟩ [⟨⟨2⟩, ⟨1⟩⟩]) ∧
        right.binding? ⟨4⟩ "Thing" = some (.globbed ⟨⟨2⟩, ⟨1⟩⟩ [⟨⟨4⟩, ⟨3⟩⟩]) ∧
        left.lookup .storefront "Thing" ⟨4⟩ = .error (.ambiguous "Thing" [⟨4⟩, ⟨2⟩]) ∧
        right.lookup .storefront "Thing" ⟨4⟩ = .error (.ambiguous "Thing" [⟨2⟩, ⟨4⟩]) := by
  have reordered : (lateReexport.filter (!·.isSettle)).Perm
      (earlyReexport.filter (!·.isSettle)) := by decide +kernel
  obtain ⟨late, ran, seen⟩ : ∃ late,
      (Draft.mk .standard .storefront).finish.value.takeAll lateReexport = .ok late ∧
      (late.imports.settle .storefront).map (fun settled =>
          (settled.binding? ⟨4⟩ "Thing", settled.lookup .storefront "Thing" ⟨4⟩)) =
        some (some (.globbed ⟨⟨4⟩, ⟨3⟩⟩ [⟨⟨2⟩, ⟨1⟩⟩]), .error (.ambiguous "Thing" [⟨4⟩, ⟨2⟩])) :=
    ⟨_, rfl, by decide +kernel⟩
  obtain ⟨again, rerun, reseen⟩ : ∃ early,
      (Draft.mk .standard .storefront).finish.value.takeAll earlyReexport = .ok early ∧
      (early.imports.settle .storefront).map (fun settled =>
          (settled.binding? ⟨4⟩ "Thing", settled.lookup .storefront "Thing" ⟨4⟩)) =
        some (some (.globbed ⟨⟨2⟩, ⟨1⟩⟩ [⟨⟨4⟩, ⟨3⟩⟩]), .error (.ambiguous "Thing" [⟨2⟩, ⟨4⟩])) :=
    ⟨_, rfl, by decide +kernel⟩
  obtain ⟨early, left, right, reran, settled, resettled, agree⟩ :=
    reordered_runs_agree reordered ran
  cases rerun.symm.trans reran
  rw [settled, Option.map_some, Option.some.injEq, Prod.mk.injEq] at seen
  rw [resettled, Option.map_some, Option.some.injEq, Prod.mk.injEq] at reseen
  exact ⟨reordered, late, again, left, right, ran, reran, settled, resettled, agree, seen.1,
    reseen.1, seen.2, reseen.2⟩

end Runs

end Linking

namespace Imports

variable {tree : Tree} {scope : ScopeId} {name : Name} {decl : DeclId}

/-- What more directives may make of a name that globs claim. -/
structure Keeps (tree : Tree) (before after : Imports) (scope : ScopeId) (name : Name) : Prop where
  single : ∀ decl source, before.binding? scope name = some (.globbed ⟨decl, source⟩ []) →
    after.lookup tree name scope = .ok decl ∨
      ∃ candidates, after.lookup tree name scope = .error (.ambiguous name candidates) ∧
        decl ∈ candidates
  disputed : ∀ first second others,
    before.binding? scope name = some (.globbed first (second :: others)) →
      ∃ one more rest, after.binding? scope name = some (.globbed one (more :: rest)) ∧
        after.lookup tree name scope =
          .error (.ambiguous name ((one :: more :: rest).map (·.target))) ∧
        ∀ claim ∈ first :: second :: others,
          claim.target ∈ (one :: more :: rest).map (·.target)

section Records

variable {left right : Imports} {taken also : ImportStep → Prop}
  (first : Records tree taken left) (second : Records tree also right)
  (less : ∀ step, taken step → also step)

include first second less

theorem Records.mem_globs_mono {glob : Glob} (recorded : glob ∈ left.globs) :
    glob ∈ right.globs := by
  obtain ⟨step, was, globs⟩ := (first.globs glob).mp recorded
  exact (second.globs glob).mpr ⟨step, less step was, globs⟩

/-- Whatever else is imported, a glob is offered what it was offered before. -/
theorem Records.offered_mono {target : ScopeId}
    (offered : left.Offered tree scope target name decl) :
    right.Offered tree scope target name decl := by
  rcases offered with shows | ⟨undeclared, passed⟩
  · exact .inl shows
  · obtain ⟨step, was, binds⟩ := (first.reexported target name decl).mp passed
    exact .inr ⟨undeclared, (second.reexported target name decl).mpr ⟨step, less step was, binds⟩⟩

end Records

/-- Once the imports are settled, what fewer steps claim is claimed by more steps too, unless the
name is imported explicitly. -/
theorem mem_targets_mono {one other left right : Imports} {taken also : ImportStep → Prop}
    (faithful : one.Faithful tree) (faithfulOther : other.Faithful tree)
    (records : one.Records tree taken) (recordsOther : other.Records tree also)
    (settled : one.settle tree = some left) (settledOther : other.settle tree = some right)
    (less : ∀ step, taken step → also step) (absent : right.explicit? scope name = none)
    (claimed : decl ∈ left.targets scope name) : decl ∈ right.targets scope name := by
  have recordsLeft := records.of_settle faithful.distinct settled
  have recordsRight := recordsOther.of_settle faithfulOther.distinct settledOther
  have free := explicit_none_of_mem claimed
  obtain ⟨target, recorded, offered⟩ := (faithful.settled settled free decl).mp claimed
  exact (faithfulOther.settled settledOther absent decl).mpr
    ⟨target, recordsLeft.mem_globs_mono recordsRight less recorded,
      recordsLeft.offered_mono recordsRight less offered⟩

section Lookup

variable {before after : Imports}

theorem exists_table_of_mem_targets (claimed : decl ∈ after.targets scope name) :
    ∃ table, after.table? scope = some table := by
  cases present : after.table? scope with
  | some table => exact ⟨table, rfl⟩
  | none =>
    rw [targets, binding?, present] at claimed
    cases claimed

/-- A name that has claims is answered with the only one or with all of them. -/
theorem lookup_of_mem_targets (claimed : decl ∈ after.targets scope name) :
    after.lookup tree name scope = .ok decl ∨
      ∃ candidates, after.lookup tree name scope = .error (.ambiguous name candidates) ∧
        decl ∈ candidates := by
  obtain ⟨table, present⟩ := exists_table_of_mem_targets claimed
  rw [lookup_eq present, explicit_none_of_mem claimed]
  match held : after.targets scope name with
  | [] =>
    rw [held] at claimed
    cases claimed
  | [only] =>
    rw [held] at claimed
    exact .inl (List.mem_singleton.mp claimed ▸ rfl)
  | first :: second :: others => exact .inr ⟨_, rfl, held ▸ claimed⟩

/-- Claims that are only added to keep what they say of a name. -/
theorem keeps_of_targets_mono (nodupBefore : (before.targets scope name).Nodup)
    (nodupAfter : (after.targets scope name).Nodup)
    (mono : ∀ decl ∈ before.targets scope name, decl ∈ after.targets scope name) :
    before.Keeps tree after scope name := by
  refine ⟨fun decl source entry => ?_, fun first second others entry => ?_⟩
  · have only : before.targets scope name = [decl] :=
      targets_eq_singleton_iff.mpr ⟨source, entry⟩
    exact lookup_of_mem_targets (mono decl (by simp [only]))
  · have many : before.targets scope name = (first :: second :: others).map (·.target) := by
      rw [targets, entry]
      rfl
    have apart : first.target ≠ second.target := by
      rw [many] at nodupBefore
      simp_all
    have kept : ∀ claim ∈ first :: second :: others,
        claim.target ∈ after.targets scope name := fun claim listed =>
      mono _ (many ▸ List.mem_map_of_mem listed)
    have disputed := (exists_two_iff nodupAfter fun decl => Iff.rfl).mpr
      ⟨first.target, second.target, apart, kept first (by simp), kept second (by simp)⟩
    obtain ⟨one, more, rest, held⟩ := targets_eq_cons_cons_iff.mp disputed
    have all : after.targets scope name = (one :: more :: rest).map (·.target) := by
      rw [targets, held]
      rfl
    refine ⟨one, more, rest, held, ?_, fun claim listed => all ▸ kept claim listed⟩
    obtain ⟨table, present⟩ := exists_table_of_mem_targets (kept first (by simp))
    rw [lookup_eq present, explicit_none_of_mem (kept first (by simp)), all]
    rfl

end Lookup

end Imports

namespace Linking

variable {tree : Tree} {short long : List Directive}

/-- Some directive imports a declaration under a name by its path. -/
def ImportsByName (tree : Tree) (directives : List Directive) (scope : ScopeId) (name : Name) :
    Prop :=
  ∃ step, Asked tree directives step ∧ ∃ decl reexport, step.Binds tree scope name decl reexport

theorem asked_of_sublist (inserted : short.Sublist long) {step : ImportStep}
    (asked : Asked tree short step) : Asked tree long step := by
  obtain ⟨directive, listed, same⟩ := asked
  exact ⟨directive, inserted.subset listed, same⟩

/-- A run that succeeds from the start has taken what its directives ask for and nothing else. -/
theorem records_of_takeAll {draft : Draft} {directives : List Directive} {last : Linking}
    (ran : draft.finish.value.takeAll directives = .ok last) :
    last.imports.Faithful draft.tree ∧
      last.imports.Records draft.tree (Asked draft.tree directives) := by
  have faithful : draft.finish.value.imports.Faithful draft.tree :=
    Imports.faithful_empty draft.tree
  have records : draft.finish.value.imports.Records draft.tree fun _ => False :=
    Imports.records_empty draft.tree
  obtain ⟨_, after, recorded, _⟩ := takeAll_sound faithful records ran
  exact ⟨after, recorded.congr fun step _ => (false_or _).to_iff⟩

theorem explicit_none_of_not_importsByName {imports : Imports}
    (records : imports.Records tree (Asked tree long)) {scope : ScopeId} {name : Name}
    (unnamed : ¬ ImportsByName tree long scope name) : imports.explicit? scope name = none := by
  cases found : imports.explicit? scope name with
  | none => rfl
  | some pair =>
    obtain ⟨step, asked, reexport, binds⟩ :=
      (records.imported scope name pair.1).mp ⟨pair.2, found⟩
    exact absurd ⟨step, asked, pair.1, reexport, binds⟩ unnamed

/-- Directives inserted anywhere among others keep what globs have imported, as long as all of them
succeed and none imports the name by its path. -/
theorem inserted_directives_keep_targets {draft : Draft} {one other : Linking}
    (inserted : short.Sublist long) (ran : draft.finish.value.takeAll short = .ok one)
    (reran : draft.finish.value.takeAll long = .ok other) :
    ∃ left right, one.imports.settle draft.tree = some left ∧
      other.imports.settle draft.tree = some right ∧
      ∀ scope name, ¬ ImportsByName draft.tree long scope name →
        left.Keeps draft.tree right scope name := by
  obtain ⟨faithful, records⟩ := records_of_takeAll ran
  obtain ⟨faithfulOther, recordsOther⟩ := records_of_takeAll reran
  obtain ⟨left, settled⟩ := faithful.exists_settle
  obtain ⟨right, settledOther⟩ := faithfulOther.exists_settle
  refine ⟨left, right, settled, settledOther, fun scope name unnamed => ?_⟩
  have absent := explicit_none_of_not_importsByName
    (recordsOther.of_settle faithfulOther.distinct settledOther) unnamed
  refine Imports.keeps_of_targets_mono ((faithful.of_settle settled).nodup scope name)
    ((faithfulOther.of_settle settledOther).nodup scope name) fun decl claimed => ?_
  exact Imports.mem_targets_mono faithful faithfulOther records recordsOther settled settledOther
    (fun step asked => asked_of_sublist inserted asked) absent claimed

/-- `user` imports all from `other` alone, so that its `Thing` is the one declared there. -/
def otherOnly : List Directive := [.collect (.importGlob ⟨4⟩ ⟨3⟩)]

/-- With the directives of `lateReexport` in front of that one, `facade` has another `Thing` to pass
on, and `user` keeps the first as one of two. -/
theorem thing_kept_as_candidate :
    otherOnly.Sublist lateReexport ∧
      ¬ ImportsByName .storefront lateReexport ⟨4⟩ "Thing" ∧
      ∃ fewer more left right,
        (Draft.mk .standard .storefront).finish.value.takeAll otherOnly = .ok fewer ∧
        (Draft.mk .standard .storefront).finish.value.takeAll lateReexport = .ok more ∧
        fewer.imports.settle .storefront = some left ∧
        more.imports.settle .storefront = some right ∧
        left.lookup .storefront "Thing" ⟨4⟩ = .ok ⟨4⟩ ∧
        left.Keeps .storefront right ⟨4⟩ "Thing" ∧
        right.lookup .storefront "Thing" ⟨4⟩ = .error (.ambiguous "Thing" [⟨4⟩, ⟨2⟩]) := by
  have inserted : otherOnly.Sublist lateReexport := by decide +kernel
  have unnamed : ¬ ImportsByName .storefront lateReexport ⟨4⟩ "Thing" := by
    rintro ⟨step, ⟨directive, listed, asked⟩, decl, reexport, path, asName, rfl, _⟩
    simp only [lateReexport, List.mem_cons, List.not_mem_nil, or_false] at listed
    rcases listed with rfl | rfl | rfl <;> cases asked
  obtain ⟨fewer, ran, seen⟩ : ∃ fewer,
      (Draft.mk .standard .storefront).finish.value.takeAll otherOnly = .ok fewer ∧
      (fewer.imports.settle .storefront).map (·.lookup .storefront "Thing" ⟨4⟩) =
        some (.ok ⟨4⟩) := ⟨_, rfl, by decide +kernel⟩
  obtain ⟨more, reran, reseen⟩ : ∃ more,
      (Draft.mk .standard .storefront).finish.value.takeAll lateReexport = .ok more ∧
      (more.imports.settle .storefront).map (·.lookup .storefront "Thing" ⟨4⟩) =
        some (.error (.ambiguous "Thing" [⟨4⟩, ⟨2⟩])) := ⟨_, rfl, by decide +kernel⟩
  obtain ⟨left, right, settled, resettled, keeps⟩ :=
    inserted_directives_keep_targets inserted ran reran
  rw [settled, Option.map_some] at seen
  rw [resettled, Option.map_some] at reseen
  exact ⟨inserted, unnamed, fewer, more, left, right, ran, reran, settled, resettled,
    Option.some.inj seen, keeps ⟨4⟩ "Thing" unnamed, Option.some.inj reseen⟩

end Linking

end ScopedNames
