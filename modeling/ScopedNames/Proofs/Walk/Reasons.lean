import ScopedNames.Import
import ScopedNames.Proofs.Walk.Accessibility

set_option autoImplicit false

namespace ScopedNames

theorem Imports.eq_of_findReexport_error {imports : Imports} {scope : ScopeId} {name : Name}
    {reason : LookupError} (failed : imports.findReexport scope name = .error reason) :
    reason = .missing name scope := by
  obtain ⟨table, _, last⟩ := Outcome.lift_bind_eq_error.mp failed
  cases passed : (table.find? name).bind Binding.reexported? with
  | some target => simp [passed] at last
  | none =>
    rw [passed, Outcome.error.injEq] at last
    exact last.symm

namespace Tree

/-- The names are those of modules, each declared in the scope of the one before and open to
`origin`. -/
inductive OpenWay (tree : Tree) (origin : ScopeId) : ScopeId → List Name → ScopeId → Prop
  | stay (scope : ScopeId) : OpenWay tree origin scope [] scope
  | enter {scope child last : ScopeId} {name : Name} {names : List Name} {decl : DeclId}
    {declaration : Declaration} (bound : tree.local? scope name = some (some decl))
    (declared : tree.decl? decl = some declaration) (opens : declaration.child? = some child)
    (allowed : tree.permits declaration.visibility declaration.owner origin = some true)
    (rest : OpenWay tree origin child names last) : OpenWay tree origin scope (name :: names) last

/-- The path can be followed up to one of its names: those before it are an open way from its start
to `scope`, which is within reach. -/
def StopsAt (tree : Tree) (path : Path) (origin : ScopeId) (name : Name) (scope : ScopeId) : Prop :=
  ∃ start before after, tree.start path.root origin = .ok start ∧
    path.segments = before ++ name :: after ∧ tree.OpenWay origin start before scope ∧
      tree.isReachable scope origin = some true

/-- What an error says of a path. No path fails for an ambiguous name. -/
def Warrants (tree : Tree) (path : Path) (origin : ScopeId) : LookupError → Prop
  | .missing name scope =>
    tree.StopsAt path origin name scope ∧ tree.local? scope name = some none
  | .notModule name decl => ∃ scope declaration, tree.StopsAt path origin name scope ∧
    tree.local? scope name = some (some decl) ∧ tree.decl? decl = some declaration ∧
      declaration.child? = none
  | .hidden name decl owner => ∃ declaration, tree.StopsAt path origin name owner ∧
    tree.local? owner name = some (some decl) ∧ tree.decl? decl = some declaration ∧
      declaration.owner = owner ∧ tree.permits declaration.visibility owner origin = some false
  | .tooManySupers requested available => (∃ positive, path.root = .up requested positive) ∧
    tree.depth origin = some available ∧ available < requested
  | .unknownRoot name => path.root = .external name ∧ tree.externalName ≠ some name
  | .ambiguous _ _ => False

/-- The errors that a path comes to, whatever it is followed for. -/
inductive Raises (tree : Tree) (imports : Imports) (path : Path) (origin : ScopeId)
    (reason : LookupError) : Prop
  | reach (failed : tree.reach path origin = .error reason)
  | resolve (failed : tree.resolve path origin = .error reason)
  | scopeNamed (failed : tree.scopeNamed path origin = .error reason)
  | imported (failed : imports.resolve tree path origin = .error reason)
  | importPath (asName : Option Name) (reexport : Bool)
    (failed : imports.importPath tree origin path asName reexport = .error (.unresolved reason))
  | importGlobPath
    (failed : imports.importGlobPath tree origin path = .error (.unresolved reason))

section Steps

variable {tree : Tree} {origin scope : ScopeId} {name : Name} {reason : LookupError}

theorem find_eq_error_iff : tree.find scope name = .error reason ↔
    tree.local? scope name = some none ∧ reason = .missing name scope := by
  cases looked : tree.local? scope name with
  | none => simp [find, looked]
  | some bound => cases bound <;> simp [find, looked, eq_comm]

/-- A walk that fails does so at its first step that fails. -/
theorem exists_enter_of_walk_error {modules : List Name} {start : ScopeId}
    (failed : tree.walk origin start modules = .error reason) :
    ∃ before name after scope, modules = before ++ name :: after ∧
      tree.walk origin start before = .ok scope ∧
        tree.enter origin scope name = .error reason := by
  induction modules generalizing start with
  | nil => cases failed
  | cons name modules ih =>
    rw [walk_cons] at failed
    rcases Outcome.bind_eq_error.mp failed with here | ⟨child, entered, later⟩
    · exact ⟨[], name, modules, start, rfl, rfl, here⟩
    · obtain ⟨before, last, after, scope, rfl, walked, stopped⟩ := ih later
      refine ⟨name :: before, last, after, scope, rfl, ?_, stopped⟩
      rw [walk_cons, entered, Outcome.ok_bind, walked]

theorem start_warranted {path : Path} (asking : origin ∈ tree.scopeIds)
    (failed : tree.start path.root origin = .error reason) : tree.Warrants path origin reason := by
  cases root : path.root with
  | absolute => simp [root, start] at failed
  | here => simp [root, start] at failed
  | up levels positive =>
    obtain ⟨here, issued⟩ := mem_scopeIds.mp asking
    rw [root, start_up_eq_error_iff issued] at failed
    obtain ⟨beyond, rfl⟩ := failed
    exact ⟨⟨positive, root⟩, depth_of_issued issued, beyond⟩
  | external name =>
    rw [root, start] at failed
    split at failed
    · cases failed
    · next apart =>
      cases failed
      exact ⟨root, apart⟩

theorem find_warranted {path : Path} (stops : tree.StopsAt path origin name scope)
    (failed : tree.find scope name = .error reason) : tree.Warrants path origin reason := by
  obtain ⟨absent, rfl⟩ := find_eq_error_iff.mp failed
  exact ⟨stops, absent⟩

/-- A glob import of a scope within reach does not fail. -/
theorem importGlob_ne_error_of_clear (imports : Imports) {target : ScopeId}
    (clear : tree.barrier target origin = some none) (reason : ImportError) :
    imports.importGlob tree origin target ≠ .error reason := by
  intro failed
  simp only [Imports.importGlob_eq, clear, Outcome.lift_some, Outcome.ok_bind] at failed
  split at failed
  · cases failed
  · obtain ⟨items, _, rest⟩ := Outcome.lift_bind_eq_error.mp failed
    obtain ⟨claimed, _, rest⟩ := Outcome.lift_bind_eq_error.mp rest
    obtain ⟨claimed, _, last⟩ := Outcome.lift_bind_eq_error.mp rest
    cases last

end Steps

variable {tree : Tree} {origin : ScopeId}

namespace Sound

variable {scope : ScopeId} {path : Path} {name : Name} {reason : LookupError}
  (sound : tree.Sound)

include sound

/-- A walk leads where the way is open, and only there. -/
theorem walk_eq_ok_iff_openWay {start : ScopeId} {names : List Name} :
    tree.walk origin start names = .ok scope ↔ tree.OpenWay origin start names scope := by
  constructor
  · intro walked
    induction names generalizing start with
    | nil =>
      cases walked
      exact .stay _
    | cons name names ih =>
      obtain ⟨child, entered, rest⟩ := Outcome.bind_eq_ok.mp walked
      obtain ⟨decl, declaration, declared, owner, named, opens, admitted⟩ :=
        sound.enter_eq_ok_iff.mp entered
      have bound := sound.local?_eq_some_iff.mpr ⟨declaration, declared, owner, named⟩
      rw [admits_of_declared declared] at admitted
      exact .enter bound declared opens admitted (ih rest)
  · intro way
    induction way with
    | stay => rfl
    | @enter scope child last name names decl declaration bound declared opens allowed rest ih =>
      obtain ⟨again, same, owner, named⟩ := sound.local?_eq_some_iff.mp bound
      cases declared.symm.trans same
      rw [← admits_of_declared declared] at allowed
      rw [walk_cons, sound.enter_eq_ok_iff.mpr
        ⟨decl, declaration, declared, owner, named, opens, allowed⟩, Outcome.ok_bind, ih]

section Stops

variable (stops : tree.StopsAt path origin name scope)

include stops

theorem checkAdmits_warranted (asking : origin ∈ tree.scopeIds) {decl : DeclId}
    (found : tree.find scope name = .ok decl)
    (failed : tree.checkAdmits decl origin = .error reason) : tree.Warrants path origin reason := by
  obtain ⟨declaration, declared, rfl, rfl⟩ := sound.find_eq_ok_iff.mp found
  obtain ⟨allowed, admitted⟩ := exists_admits declared asking
  rw [checkAdmits_of_admits declared admitted] at failed
  cases allowed with
  | true => cases failed
  | false =>
    cases failed
    have bound := sound.local?_eq_some_iff.mpr ⟨declaration, declared, rfl, rfl⟩
    rw [admits_of_declared declared] at admitted
    exact ⟨declaration, stops, bound, declared, rfl, admitted⟩

theorem findAdmitted_warranted (asking : origin ∈ tree.scopeIds)
    (failed : tree.findAdmitted scope name origin = .error reason) :
    tree.Warrants path origin reason := by
  rcases Outcome.bind_eq_error.mp failed with absent | ⟨decl, found, rest⟩
  · exact find_warranted stops absent
  · rcases Outcome.bind_eq_error.mp rest with closed | ⟨_, _, last⟩
    · exact sound.checkAdmits_warranted stops asking found closed
    · cases last

theorem enter_warranted (asking : origin ∈ tree.scopeIds)
    (failed : tree.enter origin scope name = .error reason) : tree.Warrants path origin reason := by
  rcases Outcome.bind_eq_error.mp failed with absent | ⟨decl, found, rest⟩
  · exact find_warranted stops absent
  · have named := sound.find_eq_ok_iff.mp found
    have bound := sound.local?_eq_some_iff.mpr named
    obtain ⟨declaration, declared, _⟩ := named
    rw [declared, Outcome.lift_some, Outcome.ok_bind] at rest
    cases opens : declaration.child? with
    | none =>
      rw [opens] at rest
      cases rest
      exact ⟨scope, declaration, stops, bound, declared, opens⟩
    | some child =>
      rw [opens] at rest
      rcases Outcome.bind_eq_error.mp rest with closed | ⟨_, _, last⟩
      · exact sound.checkAdmits_warranted stops asking found closed
      · cases last

end Stops

variable (asking : origin ∈ tree.scopeIds)

include asking

theorem stopsAt_of_walk {start : ScopeId} {before after : List Name}
    (begun : tree.start path.root origin = .ok start)
    (spelt : path.segments = before ++ name :: after)
    (walked : tree.walk origin start before = .ok scope) :
    tree.StopsAt path origin name scope := by
  have clear := sound.barrier_of_walk (sound.barrier_of_start asking begun) walked
  exact ⟨start, before, after, begun, spelt, sound.walk_eq_ok_iff_openWay.mp walked,
    isReachable_eq_true_iff.mpr clear⟩

/-- Where the last name of a path is looked up, it can be followed up to that name. -/
theorem stopsAt_of_reach (reached : tree.reach path origin = .ok scope) :
    tree.StopsAt path origin path.name scope := by
  obtain ⟨start, begun, walked⟩ := Outcome.bind_eq_ok.mp reached
  exact sound.stopsAt_of_walk asking begun rfl walked

theorem reach_warranted (failed : tree.reach path origin = .error reason) :
    tree.Warrants path origin reason := by
  rcases Outcome.bind_eq_error.mp failed with nowhere | ⟨start, begun, stopped⟩
  · exact start_warranted asking nowhere
  · obtain ⟨before, name, after, scope, modules, walked, entered⟩ :=
      exists_enter_of_walk_error stopped
    have spelt : path.segments = before ++ name :: (after ++ [path.name]) := by
      rw [Path.segments, modules, List.append_assoc, List.cons_append]
    exact sound.enter_warranted (sound.stopsAt_of_walk asking begun spelt walked) asking entered

theorem resolve_warranted (failed : tree.resolve path origin = .error reason) :
    tree.Warrants path origin reason := by
  rcases Outcome.bind_eq_error.mp failed with stopped | ⟨scope, reached, last⟩
  · exact sound.reach_warranted asking stopped
  · exact sound.findAdmitted_warranted (sound.stopsAt_of_reach asking reached) asking last

theorem scopeNamed_warranted (failed : tree.scopeNamed path origin = .error reason) :
    tree.Warrants path origin reason := by
  rcases Outcome.bind_eq_error.mp failed with stopped | ⟨decl, resolved, rest⟩
  · exact sound.resolve_warranted asking stopped
  · obtain ⟨scope, reached, last⟩ := Outcome.bind_eq_ok.mp resolved
    obtain ⟨declaration, declared, owner, named, _⟩ := sound.findAdmitted_eq_ok_iff.mp last
    rw [declared, Outcome.lift_some, Outcome.ok_bind] at rest
    cases opens : declaration.child? with
    | some child => simp [opens] at rest
    | none =>
      rw [opens, Outcome.error.injEq] at rest
      subst rest
      have bound := sound.local?_eq_some_iff.mpr ⟨declaration, declared, owner, named⟩
      exact ⟨scope, declaration, sound.stopsAt_of_reach asking reached, bound, declared, opens⟩

variable {imports : Imports}

theorem imported_warranted (failed : imports.resolve tree path origin = .error reason) :
    tree.Warrants path origin reason := by
  rcases Outcome.bind_eq_error.mp failed with stopped | ⟨scope, reached, rest⟩
  · exact sound.reach_warranted asking stopped
  · have stops := sound.stopsAt_of_reach asking reached
    obtain ⟨bound, looked, last⟩ := Outcome.lift_bind_eq_error.mp rest
    cases bound with
    | some decl => exact sound.findAdmitted_warranted stops asking last
    | none =>
      cases Imports.eq_of_findReexport_error last
      exact ⟨stops, looked⟩

theorem importPath_warranted {asName : Option Name} {reexport : Bool}
    (failed : imports.importPath tree origin path asName reexport = .error (.unresolved reason)) :
    tree.Warrants path origin reason := by
  rw [Imports.importPath_eq] at failed
  rcases Outcome.bind_eq_error.mp failed with stopped | ⟨target, _, rest⟩
  · obtain ⟨cause, unresolved, same⟩ := Outcome.mapError_eq_error_iff.mp stopped
    cases same
    exact sound.resolve_warranted asking unresolved
  · obtain ⟨table, _, last⟩ := Outcome.lift_bind_eq_error.mp rest
    rcases Outcome.bind_eq_error.mp last with barred | ⟨made, _, last⟩
    · obtain ⟨existing, _, same⟩ := Outcome.mapError_eq_error_iff.mp barred
      cases same
    · cases last

theorem importGlobPath_warranted
    (failed : imports.importGlobPath tree origin path = .error (.unresolved reason)) :
    tree.Warrants path origin reason := by
  rw [Imports.importGlobPath_eq] at failed
  rcases Outcome.bind_eq_error.mp failed with stopped | ⟨target, leads, rest⟩
  · obtain ⟨cause, unnamed, same⟩ := Outcome.mapError_eq_error_iff.mp stopped
    cases same
    exact sound.scopeNamed_warranted asking unnamed
  · have clear := sound.barrier_of_scopeNamed asking (Outcome.mapError_eq_ok_iff.mp leads)
    exact absurd rest (importGlob_ne_error_of_clear imports clear _)

end Sound

/-- Whatever a path is followed for, the error it comes to holds of the path. -/
theorem raised_errors_warranted (grown : tree.Grown) (asking : origin ∈ tree.scopeIds)
    {imports : Imports} {path : Path} {reason : LookupError}
    (raised : tree.Raises imports path origin reason) : tree.Warrants path origin reason := by
  have sound := grown.sound
  cases raised with
  | reach failed => exact sound.reach_warranted asking failed
  | resolve failed => exact sound.resolve_warranted asking failed
  | scopeNamed failed => exact sound.scopeNamed_warranted asking failed
  | imported failed => exact sound.imported_warranted asking failed
  | importPath asName reexport failed => exact sound.importPath_warranted asking failed
  | importGlobPath failed => exact sound.importGlobPath_warranted asking failed

/-- From `sibling` the glob import of `super::outer::hidden` is told that `hidden` is private: the
way there is open through `outer`, and `hidden` does not admit `sibling`. -/
theorem hidden_closed_behind_outer :
    ∃ start before after, nested.start (.up 1 (by decide)) ⟨4⟩ = .ok start ∧
      ["outer", "hidden"] = before ++ "hidden" :: after ∧
      nested.OpenWay ⟨4⟩ start before ⟨1⟩ ∧ nested.isReachable ⟨1⟩ ⟨4⟩ = some true ∧
      nested.permits .insiders ⟨1⟩ ⟨4⟩ = some false := by
  have grown : nested.Grown := grown_build _ _
  have asking : ⟨4⟩ ∈ nested.scopeIds := by decide +kernel
  have failed : (Imports.empty nested).importGlobPath nested ⟨4⟩
      ⟨.up 1 (by decide), ["outer"], "hidden"⟩ =
        .error (.unresolved (.hidden "hidden" ⟨1⟩ ⟨1⟩)) := rfl
  obtain ⟨declaration, ⟨start, before, after, begun, spelt, way, within⟩, _, declared, _, closed⟩ :=
    raised_errors_warranted grown asking (.importGlobPath failed)
  cases (show nested.decl? ⟨1⟩ = some ⟨"hidden", ⟨1⟩, .insiders, .module ⟨2⟩⟩ from rfl).symm.trans
    declared
  exact ⟨start, before, after, begun, spelt, way, within, closed⟩

end Tree

end ScopedNames
