import ScopedNames.Proofs.Import.Settled

set_option autoImplicit false

namespace ScopedNames

/-- How the binding of a name may go on. -/
inductive Binding.Evolves : Binding → Binding → Prop
  /-- It can come to be passed on. -/
  | explicit (target : DeclId) {before after : Bool} (still : before = true → after = true) :
    Evolves (.explicit target before) (.explicit target after)
  /-- More declarations are claimed behind the others. -/
  | claimed (first : Claim) {others more : List Claim} (kept : others <+: more) :
    Evolves (.globbed first others) (.globbed first more)
  /-- An explicit import takes the place of all claims. -/
  | chosen (first : Claim) (others : List Claim) (target : DeclId) (reexport : Bool) :
    Evolves (.globbed first others) (.explicit target reexport)

namespace Binding.Evolves

theorem refl (binding : Binding) : Evolves binding binding := by
  cases binding with
  | explicit target reexport => exact .explicit target id
  | globbed first others => exact .claimed first List.prefix_rfl

theorem trans {first second third : Binding} (left : Evolves first second)
    (right : Evolves second third) : Evolves first third := by
  cases left with
  | explicit target still =>
    cases right with
    | explicit _ also => exact .explicit target fun passed => also (still passed)
  | claimed claim kept =>
    cases right with
    | claimed _ also => exact .claimed claim (kept.trans also)
    | chosen _ _ target reexport => exact .chosen claim _ target reexport
  | chosen claim others target reexport =>
    cases right with
    | explicit _ _ => exact .chosen claim others target _

theorem afterClaim (binding : Binding) (claim : Claim) :
    Evolves binding (Binding.afterClaim (some binding) claim) := by
  cases binding with
  | explicit target reexport => exact refl _
  | globbed first others =>
    rw [Binding.afterClaim]
    split
    · exact refl _
    · exact .claimed first (List.prefix_append others [claim])

end Binding.Evolves

namespace BindingTable

/-- How a table may go on: new names come behind the old ones, whose bindings evolve. -/
structure Evolves (before after : BindingTable) : Prop where
  names : before.names <+: after.names
  bindings : ∀ name old, before.find? name = some old →
    ∃ new, after.find? name = some new ∧ old.Evolves new

namespace Evolves

theorem refl (table : BindingTable) : Evolves table table :=
  ⟨List.prefix_rfl, fun _ old found => ⟨old, found, .refl old⟩⟩

theorem trans {first second third : BindingTable} (left : Evolves first second)
    (right : Evolves second third) : Evolves first third := by
  refine ⟨left.names.trans right.names, fun name old found => ?_⟩
  obtain ⟨middle, present, evolved⟩ := left.bindings name old found
  obtain ⟨new, bound, further⟩ := right.bindings name middle present
  exact ⟨new, bound, evolved.trans further⟩

theorem bind {table : BindingTable} {name : Name} {value : Binding}
    (kept : ∀ old, table.find? name = some old → old.Evolves value) :
    Evolves table (table.bind name value) := by
  refine ⟨?_, fun other old found => ?_⟩
  · rw [Registry.names_bind]
    split
    · exact List.prefix_rfl
    · exact List.prefix_append table.names [name]
  · rw [Registry.find?_bind]
    split
    · next same =>
      subst same
      exact ⟨value, rfl, kept old found⟩
    · exact ⟨old, found, .refl old⟩

end Evolves

theorem evolves_claim (table : BindingTable) (name : Name) (claim : Claim) :
    table.Evolves (table.claim name claim) := by
  refine .bind fun old found => ?_
  rw [found]
  exact .afterClaim old claim

/-- By induction along the offers. -/
theorem evolves_claimAll (table : BindingTable) (source : ScopeId)
    (offers : List (Name × DeclId)) : table.Evolves (table.claimAll source offers) := by
  induction offers generalizing table with
  | nil => exact .refl table
  | cons offer offers ih => exact (table.evolves_claim offer.1 _).trans (ih _)

theorem evolves_importExplicit {table next : BindingTable} {name : Name} {target : DeclId}
    {reexport : Bool}
    (made : (importExplicit name target reexport).outcome table = .ok ((), next)) :
    table.Evolves next := by
  obtain ⟨free, rfl⟩ := importExplicit_eq_ok_iff.mp made
  refine .bind fun old found => ?_
  rw [found] at free ⊢
  cases old with
  | globbed first others => exact .chosen first others target _
  | explicit existing already =>
    obtain rfl : existing = target := free _ rfl
    refine .explicit existing fun passed => ?_
    simp [Binding.explicit?, passed]

end BindingTable

/-- One of the globs imports into the scope. -/
def Glob.Into (globs : List Glob) (scope : ScopeId) : Prop :=
  ∃ glob ∈ globs, glob.importing = scope

namespace Imports

variable {tree : Tree} {imports next : Imports}

/-- How imports may go on if steps touch the tables of some scopes only. -/
structure Evolves (touched : ScopeId → Prop) (before after : Imports) : Prop where
  sized : after.tables.size = before.tables.size
  untouched : ∀ scope, ¬ touched scope → after.table? scope = before.table? scope
  tables : ∀ scope old, before.table? scope = some old →
    ∃ new, after.table? scope = some new ∧ old.Evolves new

namespace Evolves

variable {touched also : ScopeId → Prop}

theorem of_tables (same : next.tables = imports.tables) : Evolves touched imports next := by
  have alike (scope : ScopeId) : next.table? scope = imports.table? scope := by
    rw [table?, same, table?]
  refine ⟨congrArg Array.size same, fun scope _ => alike scope, fun scope old present => ?_⟩
  exact ⟨old, (alike scope).trans present, .refl old⟩

theorem refl (imports : Imports) : Evolves touched imports imports := of_tables rfl

theorem trans {first second third : Imports} (left : Evolves touched first second)
    (right : Evolves touched second third) : Evolves touched first third := by
  refine ⟨right.sized.trans left.sized, fun scope apart => ?_, fun scope old present => ?_⟩
  · rw [right.untouched scope apart, left.untouched scope apart]
  · obtain ⟨middle, there, evolved⟩ := left.tables scope old present
    obtain ⟨new, after, further⟩ := right.tables scope middle there
    exact ⟨new, after, evolved.trans further⟩

theorem mono (evolves : Evolves touched imports next)
    (more : ∀ scope, touched scope → also scope) : Evolves also imports next :=
  ⟨evolves.sized, fun scope apart => evolves.untouched scope fun known => apart (more scope known),
    evolves.tables⟩

theorem setTable {scope : ScopeId} {old new : BindingTable}
    (present : imports.table? scope = some old) (evolved : old.Evolves new) :
    Evolves (· = scope) imports (imports.setTable scope new) := by
  have inside := exists_table.mp ⟨old, present⟩
  refine ⟨size_setTable _ _ _, fun other apart => ?_, fun other known there => ?_⟩
  · rw [table?_setTable, if_neg fun both => apart both.1]
  · rw [table?_setTable]
    split
    · next here =>
      cases here.1
      cases present.symm.trans there
      exact ⟨new, rfl, evolved⟩
    · exact ⟨known, there, .refl known⟩

end Evolves

section Steps

variable {importing target : ScopeId} {glob : Glob}

theorem evolves_claimAll {offers : List (Name × DeclId)}
    (claimed : imports.claimAll importing target offers = some next) :
    imports.Evolves (· = importing) next := by
  obtain ⟨table, present, same⟩ := Option.bind_eq_some_iff.mp claimed
  cases same
  exact .setTable present (table.evolves_claimAll target offers)

theorem evolves_claimReexports (claimed : imports.claimReexports tree glob = some next) :
    imports.Evolves (· = glob.importing) next := by
  obtain ⟨offers, _, made⟩ := Option.bind_eq_some_iff.mp claimed
  exact evolves_claimAll made

theorem globs_claimAll {offers : List (Name × DeclId)}
    (claimed : imports.claimAll importing target offers = some next) :
    next.globs = imports.globs := (absorbs_claimAll claimed).globs

theorem globs_claimReexports (claimed : imports.claimReexports tree glob = some next) :
    next.globs = imports.globs := by
  obtain ⟨offers, _, made⟩ := Option.bind_eq_some_iff.mp claimed
  exact globs_claimAll made

theorem evolves_importPath {path : Path} {asName : Option Name} {reexport : Bool} {decl : DeclId}
    (made : imports.importPath tree importing path asName reexport = .ok (decl, next)) :
    imports.Evolves (· = importing) next := by
  obtain ⟨_, old, table, present, bound, rfl⟩ := importPath_eq_ok_iff.mp made
  exact .setTable present (BindingTable.evolves_importExplicit bound)

theorem evolves_importGlob (made : imports.importGlob tree importing target = .ok next) :
    imports.Evolves (· = importing) next := by
  obtain ⟨_, ⟨_, rfl⟩ | ⟨_, items, shown, claimed, _, first, second, rfl⟩⟩ :=
    importGlob_eq_ok_iff.mp made
  · exact .refl _
  · exact ((evolves_claimAll first).trans (evolves_claimReexports second)).trans
      (.of_tables (tables_record claimed _))

/-- By induction along the globs: each touches the table of its importing scope. -/
theorem evolves_globs {globs : List Glob}
    (ran : globs.foldlM (fun imports glob => imports.claimReexports tree glob) imports =
      some next) : imports.Evolves (Glob.Into globs) next := by
  induction globs generalizing imports with
  | nil =>
    cases ran
    exact .refl _
  | cons glob globs ih =>
    obtain ⟨middle, first, rest⟩ := Option.bind_eq_some_iff.mp ran
    have one : imports.Evolves (Glob.Into (glob :: globs)) middle :=
      (evolves_claimReexports first).mono fun scope here => ⟨glob, List.mem_cons_self, here.symm⟩
    have others : middle.Evolves (Glob.Into (glob :: globs)) next := by
      refine (ih rest).mono fun scope found => ?_
      obtain ⟨later, listed, here⟩ := found
      exact ⟨later, List.mem_cons_of_mem glob listed, here⟩
    exact one.trans others

theorem globs_importGlob (made : imports.importGlob tree importing target = .ok next) :
    next.globs = imports.globs ∨
      importing ≠ target ∧ next.globs = imports.globs ++ [⟨importing, target⟩] := by
  obtain ⟨_, ⟨_, rfl⟩ | ⟨apart, items, shown, claimed, _, first, second, rfl⟩⟩ :=
    importGlob_eq_ok_iff.mp made
  · exact .inl rfl
  · have kept := (globs_claimReexports second).trans (globs_claimAll first)
    rw [record]
    split
    · exact .inl kept
    · exact .inr ⟨apart, congrArg (· ++ [_]) kept⟩

end Steps

end Imports

/-- The scope that a step imports into. Settling imports into many. -/
def ImportStep.importing? : ImportStep → Option ScopeId
  | .importPath importing _ _ _ | .importGlob importing _ | .importGlobPath importing _ =>
    some importing
  | .settle => none

/-- The scopes whose tables a step may touch. -/
def ImportStep.Touches (imports : Imports) (step : ImportStep) (scope : ScopeId) : Prop :=
  match step.importing? with
  | some importing => scope = importing
  | none => Glob.Into imports.globs scope

namespace Imports

variable {tree : Tree} {imports next : Imports} {step : ImportStep}

theorem evolves_take (taken : imports.take tree step = .ok next) :
    imports.Evolves (step.Touches imports) next := by
  cases step with
  | importPath importing path asName reexport =>
    obtain ⟨⟨target, bound⟩, made, same⟩ := Outcome.bind_eq_ok.mp taken
    cases same
    exact evolves_importPath made
  | importGlob importing target => exact evolves_importGlob taken
  | importGlobPath importing path =>
    obtain ⟨target, _, made⟩ := importGlobPath_eq_ok_iff.mp taken
    exact evolves_importGlob made
  | settle => exact evolves_globs (Outcome.lift_eq_ok_iff.mp taken)

/-- A step remembers at most the glob that it asks for, behind those before it. -/
theorem globs_take (distinct : imports.Distinct) (taken : imports.take tree step = .ok next) :
    next.globs = imports.globs ∨
      ∃ glob, step.Globs tree glob ∧ next.globs = imports.globs ++ [glob] := by
  cases step with
  | importPath importing path asName reexport =>
    obtain ⟨⟨target, bound⟩, made, same⟩ := Outcome.bind_eq_ok.mp taken
    cases same
    obtain ⟨_, old, table, _, _, rfl⟩ := importPath_eq_ok_iff.mp made
    exact .inl rfl
  | importGlob importing target =>
    refine (globs_importGlob taken).imp_right fun found => ⟨⟨importing, target⟩, ?_, found.2⟩
    rw [ImportStep.globs_importGlob]
    exact ⟨found.1, rfl⟩
  | importGlobPath importing path =>
    obtain ⟨target, leads, made⟩ := importGlobPath_eq_ok_iff.mp taken
    refine (globs_importGlob made).imp_right fun found => ⟨⟨importing, target⟩, ?_, found.2⟩
    rw [ImportStep.globs_importGlobPath leads, ImportStep.globs_importGlob]
    exact ⟨found.1, rfl⟩
  | settle => exact .inl (absorbs_settle distinct (Outcome.lift_eq_ok_iff.mp taken)).globs

/-- A step that fails touches nothing. -/
theorem evolves_attempt (sized : imports.tables.size = tree.scopes.size) (step : ImportStep) :
    imports.Evolves (step.Touches imports) (imports.attempt tree step) := by
  rcases take_or_attempt_eq sized step with taken | same
  · exact evolves_take taken
  · rw [same]
    exact .refl imports

end Imports

/-- Whatever is collected later, a table keeps its names, and their bindings evolve. By induction
along the later steps. -/
theorem Tree.collect_evolves (tree : Tree) (steps more : List ImportStep) {scope : ScopeId}
    {table : BindingTable} (present : (tree.collect steps).table? scope = some table) :
    ∃ later, (tree.collect (steps ++ more)).table? scope = some later ∧ table.Evolves later := by
  induction more generalizing steps table with
  | nil =>
    rw [List.append_nil]
    exact ⟨table, present, .refl table⟩
  | cons step more ih =>
    have one := Imports.evolves_attempt (tree.collect_faithful steps).1.sized step
    rw [← collect_concat] at one
    obtain ⟨middle, there, evolved⟩ := one.tables scope table present
    obtain ⟨later, after, further⟩ := ih (steps ++ [step]) there
    rw [List.append_assoc, List.singleton_append] at after
    exact ⟨later, after, evolved.trans further⟩

end ScopedNames
