import ScopedNames.Proofs.Ids
import ScopedNames.Proofs.Text.Edits

set_option autoImplicit false

namespace ScopedNames

theorem exists_mapM {α β : Type} {made : α → Option β} {members : List α}
    (each : ∀ member ∈ members, ∃ result, made member = some result) :
    ∃ results, members.mapM made = some results := by
  induction members with
  | nil => exact ⟨[], rfl⟩
  | cons first rest ih =>
    obtain ⟨result, present⟩ := each first List.mem_cons_self
    obtain ⟨results, others⟩ := ih fun member listed =>
      each member (List.mem_cons_of_mem first listed)
    exact ⟨result :: results, by simp [List.mapM_cons, present, others]⟩

/-- Of the names in a scope, the first one is meant that is probably a slip for the name. -/
theorem Tree.likelyMeant_of_issued {tree : Tree} {scope : ScopeId} {here : Scope}
    (issued : tree.scope? scope = some here) (name : Name) :
    tree.likelyMeant scope name = some (here.items.names.find? fun declared =>
      Text.isSlip declared.toList name.toList == some true) := by
  have decided (declared : Name) : Text.isSlip declared.toList name.toList =
      some (Text.isSlip declared.toList name.toList == some true) := by
    obtain ⟨likely, known⟩ := Text.exists_isSlip declared.toList name.toList
    rw [known]
    cases likely <;> rfl
  rw [likelyMeant, issued, Option.bind_eq_bind, Option.bind_some, funext decided]
  exact List.findM?_pure _ _

namespace Tree.Sound

variable {tree : Tree}

theorem exists_scopeText (sound : tree.Sound) {scope : ScopeId} (issued : scope ∈ tree.scopeIds) :
    ∃ text, tree.scopeText scope = some text := by
  obtain ⟨names, named⟩ := sound.exists_segments issued
  exact ⟨_, by rw [scopeText, named, Option.map_some]⟩

theorem exists_declText (sound : tree.Sound) {decl : DeclId} (issued : decl ∈ tree.declIds) :
    ∃ text, tree.declText decl = some text := by
  obtain ⟨declaration, declared⟩ := mem_declIds.mp issued
  obtain ⟨names, named⟩ := sound.exists_segments (sound.owner_mem_scopeIds declared)
  simp [declText, declPath, declared, itemPath, named]

end Tree.Sound

/-- A description that says something went wrong. -/
def IsError (described : Option Diagnostic) : Prop :=
  ∃ diagnostic, described = some diagnostic ∧ diagnostic.severity = .error

@[simp] theorem isError_some {diagnostic : Diagnostic} :
    IsError (some diagnostic) ↔ diagnostic.severity = .error := by
  simp [IsError]

@[simp] theorem Diagnostic.severity_error (message : String) :
    (Diagnostic.error message).severity = .error := rfl

@[simp] theorem Diagnostic.severity_remark (diagnostic : Diagnostic) (kind : RemarkKind)
    (message : String) : (diagnostic.remark kind message).severity = diagnostic.severity := rfl

section Describe

variable {tree : Tree}

theorem DuplicateName.describe_isError (sound : tree.Sound) {reason : DuplicateName}
    (issued : tree.Issues reason) : IsError (reason.describe tree) := by
  obtain ⟨name, scope⟩ := reason
  have inside : scope ∈ tree.scopeIds := Tree.issues_duplicateName.mp issued
  obtain ⟨place, shown⟩ := sound.exists_scopeText inside
  obtain ⟨here, found⟩ := Tree.mem_scopeIds.mp inside
  have looked := Tree.local?_of_issued found name
  cases bound : here.items.find? name with
  | none => simp [describe, shown, looked, bound]
  | some first =>
    obtain ⟨declaration, declared, _⟩ := (sound.bound found).mp bound
    simp [describe, shown, looked, bound, declared]

/-- The scope to whose inside an item is kept was issued, if its visibility names no other. -/
theorem Visibility.boundary_mem_scopeIds {visibility : Visibility} {owner scope : ScopeId}
    (issued : tree.Issues visibility) (inside : owner ∈ tree.scopeIds)
    (kept : visibility.boundary? owner = some scope) : scope ∈ tree.scopeIds := by
  cases visibility with
  | insiders =>
    cases kept
    exact inside
  | everyone => cases kept
  | restricted boundary =>
    cases kept
    exact Tree.issues_visibility.mp issued scope rfl

theorem Visibility.exists_boundary_of_unissued {visibility : Visibility}
    (unissued : ¬ tree.Issues visibility) (owner : ScopeId) :
    ∃ scope, visibility.boundary? owner = some scope ∧ scope ∉ tree.scopeIds := by
  obtain ⟨scope, rfl, absent⟩ : ∃ scope, visibility = .restricted scope ∧
      scope ∉ tree.scopeIds := by
    simpa [Tree.issues_visibility] using unissued
  exact ⟨scope, rfl, absent⟩

theorem Tree.scopeText_of_unissued {scope : ScopeId} (unissued : scope ∉ tree.scopeIds) :
    tree.scopeText scope = none := by
  have absent : tree.scope? scope = none :=
    Option.eq_none_iff_forall_ne_some.mpr fun here found =>
      unissued (Tree.mem_scopeIds.mpr ⟨here, found⟩)
  rw [scopeText, segments, absent]
  rfl

namespace LookupError

theorem describe_missing_isError (sound : tree.Sound) {scope : ScopeId}
    (issued : scope ∈ tree.scopeIds) (name : Name) :
    IsError ((LookupError.missing name scope).describe tree) := by
  obtain ⟨place, shown⟩ := sound.exists_scopeText issued
  obtain ⟨here, found⟩ := Tree.mem_scopeIds.mp issued
  obtain ⟨similar, likely⟩ : ∃ similar, tree.likelyMeant scope name = some similar :=
    ⟨_, Tree.likelyMeant_of_issued found name⟩
  cases similar with
  | none => simp [describe, shown, likely]
  | some meant => simp [describe, shown, likely]

theorem describe_notModule_isError (sound : tree.Sound) {decl : DeclId}
    (issued : decl ∈ tree.declIds) (name : Name) :
    IsError ((LookupError.notModule name decl).describe tree) := by
  obtain ⟨declaration, declared⟩ := Tree.mem_declIds.mp issued
  obtain ⟨place, shown⟩ := sound.exists_declText issued
  simp [describe, declared, shown]

/-- A hidden item is described if the scope that it is kept to can be named, or if there is none. -/
theorem describe_hidden_isError (sound : tree.Sound) {decl : DeclId} {declaration : Declaration}
    {owner : ScopeId} (declared : tree.decl? decl = some declaration)
    (inside : owner ∈ tree.scopeIds) (issued : tree.Issues declaration.visibility)
    (name : Name) : IsError ((LookupError.hidden name decl owner).describe tree) := by
  obtain ⟨place, shown⟩ := sound.exists_scopeText inside
  cases boundary : declaration.visibility.boundary? owner with
  | none => simp [describe, declared, shown, boundary]
  | some scope =>
    obtain ⟨within, named⟩ :=
      sound.exists_scopeText (Visibility.boundary_mem_scopeIds issued inside boundary)
    simp [describe, declared, shown, boundary, named]

/-- A scope that was never issued has no name by which to say who may name the item. -/
theorem describe_hidden_of_unissued {decl : DeclId} {declaration : Declaration}
    (declared : tree.decl? decl = some declaration)
    (unissued : ¬ tree.Issues declaration.visibility) (name : Name) (owner : ScopeId) :
    (LookupError.hidden name decl owner).describe tree = none := by
  obtain ⟨scope, kept, absent⟩ := Visibility.exists_boundary_of_unissued unissued owner
  cases shown : tree.scopeText owner with
  | none => simp [describe, declared, shown]
  | some place => simp [describe, declared, shown, kept, Tree.scopeText_of_unissued absent]

theorem describe_ambiguous_isError (sound : tree.Sound) {candidates : List DeclId}
    (issued : ∀ candidate ∈ candidates, candidate ∈ tree.declIds) (name : Name) :
    IsError ((LookupError.ambiguous name candidates).describe tree) := by
  obtain ⟨places, shown⟩ := exists_mapM fun candidate listed =>
    sound.exists_declText (issued candidate listed)
  simp [describe, shown]

theorem describe_isError (sound : tree.Sound) (closed : tree.Closed) {reason : LookupError}
    (issued : tree.Issues reason) : IsError (reason.describe tree) := by
  cases reason with
  | missing name scope =>
    exact describe_missing_isError sound (Tree.issues_missing.mp issued) name
  | notModule name decl =>
    exact describe_notModule_isError sound (Tree.issues_notModule.mp issued) name
  | hidden name decl owner =>
    obtain ⟨known, inside⟩ := Tree.issues_hidden.mp issued
    obtain ⟨declaration, declared⟩ := Tree.mem_declIds.mp known
    exact describe_hidden_isError sound declared inside (closed decl declaration declared) name
  | tooManySupers requested available => exact ⟨_, rfl, rfl⟩
  | unknownRoot name =>
    cases known : tree.externalName with
    | none => simp [describe, known]
    | some other => simp [describe, known]
  | ambiguous name candidates =>
    exact describe_ambiguous_isError sound (Tree.issues_ambiguous.mp issued) name

end LookupError

theorem ImportError.describe_isError (sound : tree.Sound) (closed : tree.Closed)
    {reason : ImportError} (issued : tree.Issues reason) : IsError (reason.describe tree) := by
  cases reason with
  | unresolved reason =>
    obtain ⟨diagnostic, described, severe⟩ := reason.describe_isError sound closed issued
    rw [describe, described]
    exact isError_some.mpr severe
  | conflict name scope existing incoming =>
    obtain ⟨inside, first, second⟩ := Tree.issues_conflict.mp issued
    obtain ⟨place, shown⟩ := sound.exists_scopeText inside
    obtain ⟨one, showsOne⟩ := sound.exists_declText first
    obtain ⟨other, showsOther⟩ := sound.exists_declText second
    simp [describe, shown, showsOne, showsOther]

theorem ProjectError.describe_isError (sound : tree.Sound) (closed : tree.Closed)
    {reason : ProjectError} (issued : tree.Issues reason) : IsError (reason.describe tree) := by
  cases reason with
  | unknownScope path => exact ⟨_, rfl, rfl⟩
  | duplicate reason => exact reason.describe_isError sound issued
  | imports reason => exact reason.describe_isError sound closed issued
  | resolution reason => exact reason.describe_isError sound closed issued
  | badPath reason => exact ⟨_, rfl, rfl⟩

end Describe

end ScopedNames
