import ScopedNames.Project
import ScopedNames.Proofs.Barrier

set_option autoImplicit false

namespace ScopedNames

inductive Id where
  | scope (scope : ScopeId)
  | decl (decl : DeclId)
  deriving DecidableEq, Repr

/-- Things that may hold ids. -/
class HasIds (α : Type) where
  ids : α → List Id

open HasIds (ids)

section Instances

variable {α β : Type} [HasIds α] [HasIds β]

instance : HasIds Id := ⟨fun id => [id]⟩

instance : HasIds ScopeId := ⟨fun scope => [.scope scope]⟩

instance : HasIds DeclId := ⟨fun decl => [.decl decl]⟩

instance : HasIds Unit := ⟨fun _ => []⟩

instance : HasIds Bool := ⟨fun _ => []⟩

instance : HasIds Nat := ⟨fun _ => []⟩

instance : HasIds String := ⟨fun _ => []⟩

instance : HasIds (Option α) := ⟨fun found => found.toList.flatMap ids⟩

instance : HasIds (List α) := ⟨fun members => members.flatMap ids⟩

instance : HasIds (α × β) := ⟨fun pair => ids pair.1 ++ ids pair.2⟩

instance : HasIds (Registry α) := ⟨fun registry => ids registry.entries⟩

instance : HasIds Visibility where
  ids
    | .restricted scope => ids scope
    | .insiders | .everyone => []

instance : HasIds Item where
  ids
    | .module scope => ids scope
    | .value _ | .type _ => []

instance : HasIds Declaration where
  ids declaration := ids declaration.owner ++ ids declaration.visibility ++ ids declaration.item

instance : HasIds Site := ⟨fun site => ids site.scope ++ ids site.decl⟩

instance : HasIds Scope := ⟨fun scope => ids scope.sites ++ ids scope.items ++ ids scope.children⟩

instance : HasIds LookupError where
  ids
    | .missing _ scope => ids scope
    | .notModule _ decl => ids decl
    | .hidden _ decl owner => ids decl ++ ids owner
    | .tooManySupers _ _ | .unknownRoot _ => []
    | .ambiguous _ candidates => ids candidates

instance : HasIds DuplicateName := ⟨fun error => ids error.scope⟩

instance : HasIds ImportError where
  ids
    | .unresolved reason => ids reason
    | .conflict _ scope existing incoming => ids scope ++ ids existing ++ ids incoming

instance : HasIds ProjectError where
  ids
    | .unknownScope _ | .badPath _ => []
    | .duplicate reason => ids reason
    | .imports reason => ids reason
    | .resolution reason => ids reason

instance : HasIds Claim := ⟨fun claim => ids claim.target ++ ids claim.source⟩

instance : HasIds Binding where
  ids
    | .explicit target _ => ids target
    | .globbed first others => ids (first :: others)

instance : HasIds Glob := ⟨fun glob => ids glob.importing ++ ids glob.target⟩

instance : HasIds Imports := ⟨fun imports => ids imports.tables.toList ++ ids imports.globs⟩

end Instances

namespace Tree

def HasIssued (tree : Tree) : Id → Prop
  | .scope scope => scope ∈ tree.scopeIds
  | .decl decl => decl ∈ tree.declIds

/-- All ids in a thing were issued by the tree. -/
def Issues {α : Type} [HasIds α] (tree : Tree) (thing : α) : Prop :=
  ∀ id ∈ ids thing, tree.HasIssued id

instance (tree : Tree) : DecidablePred tree.HasIssued
  | .scope scope => inferInstanceAs (Decidable (scope ∈ tree.scopeIds))
  | .decl decl => inferInstanceAs (Decidable (decl ∈ tree.declIds))

instance {α : Type} [HasIds α] (tree : Tree) (thing : α) : Decidable (tree.Issues thing) :=
  inferInstanceAs (Decidable (∀ id ∈ ids thing, tree.HasIssued id))

section Parts

variable {α β : Type} [HasIds α] [HasIds β] {tree : Tree}

@[simp] theorem issues_scope {scope : ScopeId} : tree.Issues scope ↔ scope ∈ tree.scopeIds := by
  simp [Issues, ids, HasIssued]

@[simp] theorem issues_decl {decl : DeclId} : tree.Issues decl ↔ decl ∈ tree.declIds := by
  simp [Issues, ids, HasIssued]

@[simp] theorem issues_id {id : Id} : tree.Issues id ↔ tree.HasIssued id := by
  simp [Issues, ids]

@[simp] theorem issues_unit (nothing : Unit) : tree.Issues nothing := by simp [Issues, ids]

@[simp] theorem issues_bool (flag : Bool) : tree.Issues flag := by simp [Issues, ids]

@[simp] theorem issues_nat (number : Nat) : tree.Issues number := by simp [Issues, ids]

@[simp] theorem issues_string (text : String) : tree.Issues text := by simp [Issues, ids]

@[simp] theorem issues_none : tree.Issues (none : Option α) := by simp [Issues, ids]

@[simp] theorem issues_some {thing : α} : tree.Issues (some thing) ↔ tree.Issues thing := by
  simp [Issues, ids]

@[simp] theorem issues_list {members : List α} :
    tree.Issues members ↔ ∀ member ∈ members, tree.Issues member := by
  simp only [Issues, ids, List.mem_flatMap]
  grind

@[simp] theorem issues_pair {pair : α × β} :
    tree.Issues pair ↔ tree.Issues pair.1 ∧ tree.Issues pair.2 := by
  simp only [Issues, ids, List.mem_append]
  grind

@[simp] theorem issues_registry {registry : Registry α} :
    tree.Issues registry ↔ ∀ entry ∈ registry.entries, tree.Issues entry.2 := by
  change tree.Issues registry.entries ↔ _
  simp

theorem issues_visibility {visibility : Visibility} :
    tree.Issues visibility ↔ ∀ scope, visibility = .restricted scope → scope ∈ tree.scopeIds := by
  cases visibility <;> simp [Issues, ids, HasIssued]

theorem issues_site {site : Site} :
    tree.Issues site ↔ site.scope ∈ tree.scopeIds ∧ site.decl ∈ tree.declIds := by
  simp [Issues, ids, HasIssued]

theorem issues_here {here : Scope} : tree.Issues here ↔
    tree.Issues here.sites ∧ tree.Issues here.items ∧ tree.Issues here.children := by
  change tree.Issues (((here.sites, here.items), here.children) : (_ × _) × _) ↔ _
  rw [issues_pair, issues_pair, and_assoc]

theorem issues_declaration {declaration : Declaration} :
    tree.Issues declaration ↔ declaration.owner ∈ tree.scopeIds ∧
      tree.Issues declaration.visibility ∧
      ∀ child, declaration.child? = some child → child ∈ tree.scopeIds := by
  obtain ⟨name, owner, visibility, item⟩ := declaration
  cases item <;> simp [Issues, ids, HasIssued, Declaration.child?, or_imp, forall_and]

end Parts

section Errors

variable {tree : Tree} {name : Name} {scope owner : ScopeId} {decl existing : DeclId}

@[simp] theorem issues_missing :
    tree.Issues (LookupError.missing name scope) ↔ scope ∈ tree.scopeIds := issues_scope

@[simp] theorem issues_notModule :
    tree.Issues (LookupError.notModule name decl) ↔ decl ∈ tree.declIds := issues_decl

@[simp] theorem issues_hidden :
    tree.Issues (LookupError.hidden name decl owner) ↔
      decl ∈ tree.declIds ∧ owner ∈ tree.scopeIds := by
  simp [Issues, ids, HasIssued]

@[simp] theorem issues_tooManySupers (requested available : Nat) :
    tree.Issues (LookupError.tooManySupers requested available) := by
  simp [Issues, ids]

@[simp] theorem issues_unknownRoot : tree.Issues (LookupError.unknownRoot name) := by
  simp [Issues, ids]

@[simp] theorem issues_ambiguous {candidates : List DeclId} :
    tree.Issues (LookupError.ambiguous name candidates) ↔
      ∀ candidate ∈ candidates, candidate ∈ tree.declIds := by
  change tree.Issues candidates ↔ _
  simp

@[simp] theorem issues_duplicateName {reason : DuplicateName} :
    tree.Issues reason ↔ reason.scope ∈ tree.scopeIds := issues_scope

@[simp] theorem issues_unresolved {reason : LookupError} :
    tree.Issues (ImportError.unresolved reason) ↔ tree.Issues reason := Iff.rfl

@[simp] theorem issues_conflict :
    tree.Issues (ImportError.conflict name scope existing decl) ↔
      scope ∈ tree.scopeIds ∧ existing ∈ tree.declIds ∧ decl ∈ tree.declIds := by
  simp [Issues, ids, HasIssued]

@[simp] theorem issues_unknownScope (path : String) :
    tree.Issues (ProjectError.unknownScope path) := by
  simp [Issues, ids]

@[simp] theorem issues_badPath (reason : PathError) :
    tree.Issues (ProjectError.badPath reason) := by
  simp [Issues, ids]

@[simp] theorem issues_duplicate {reason : DuplicateName} :
    tree.Issues (ProjectError.duplicate reason) ↔ tree.Issues reason := Iff.rfl

@[simp] theorem issues_imports {reason : ImportError} :
    tree.Issues (ProjectError.imports reason) ↔ tree.Issues reason := Iff.rfl

@[simp] theorem issues_resolution {reason : LookupError} :
    tree.Issues (ProjectError.resolution reason) ↔ tree.Issues reason := Iff.rfl

end Errors

section Imported

variable {tree : Tree}

@[simp] theorem issues_claim {claim : Claim} :
    tree.Issues claim ↔ claim.target ∈ tree.declIds ∧ claim.source ∈ tree.scopeIds := by
  simp [Issues, ids, HasIssued]

@[simp] theorem issues_explicit {target : DeclId} {reexport : Bool} :
    tree.Issues (Binding.explicit target reexport) ↔ target ∈ tree.declIds := issues_decl

@[simp] theorem issues_globbed {first : Claim} {others : List Claim} :
    tree.Issues (Binding.globbed first others) ↔
      ∀ claim ∈ first :: others, tree.Issues claim := issues_list

/-- What globs make of a name are declarations of the tree. -/
theorem issues_candidates {binding : Binding} (issued : tree.Issues binding) :
    ∀ candidate ∈ binding.claims.map (·.target), candidate ∈ tree.declIds := by
  cases binding with
  | explicit target reexport => simp [Binding.claims]
  | globbed first others =>
    intro candidate listed
    obtain ⟨claim, made, rfl⟩ := List.mem_map.mp listed
    exact (issues_claim.mp (issues_globbed.mp issued claim made)).1

theorem issues_of_target? {binding : Binding} {target : DeclId} (issued : tree.Issues binding)
    (chosen : binding.target? = some target) : target ∈ tree.declIds := by
  cases binding with
  | explicit bound reexport =>
    cases chosen
    exact issues_explicit.mp issued
  | globbed first others =>
    cases others with
    | nil =>
      cases chosen
      exact (issues_claim.mp (issues_globbed.mp issued first List.mem_cons_self)).1
    | cons second rest => cases chosen

theorem issues_of_reexported? {binding : Binding} {target : DeclId} (issued : tree.Issues binding)
    (passed : binding.reexported? = some target) : target ∈ tree.declIds := by
  cases binding with
  | globbed first others => cases passed
  | explicit bound reexport =>
    cases reexport with
    | false => cases passed
    | true =>
      cases passed
      exact issues_explicit.mp issued

@[simp] theorem issues_glob {glob : Glob} :
    tree.Issues glob ↔ glob.importing ∈ tree.scopeIds ∧ glob.target ∈ tree.scopeIds := by
  simp [Issues, ids, HasIssued]

end Imported

section Growth

variable {tree later : Tree}

theorem Extends.hasIssued (extension : tree.Extends later) {id : Id}
    (issued : tree.HasIssued id) : later.HasIssued id := by
  cases id with
  | scope scope =>
    obtain ⟨here, found⟩ := mem_scopeIds.mp issued
    obtain ⟨kept, present, _⟩ := extension.scope found
    exact mem_scopeIds.mpr ⟨kept, present⟩
  | decl decl =>
    obtain ⟨declaration, declared⟩ := mem_declIds.mp issued
    exact mem_declIds.mpr ⟨declaration, extension.decl declared⟩

/-- What is issued stays issued. -/
theorem Extends.issues {α : Type} [HasIds α] {thing : α} (extension : tree.Extends later)
    (issued : tree.Issues thing) : later.Issues thing :=
  fun id listed => extension.hasIssued (issued id listed)

end Growth

/-- Every scope that a visibility names has been issued. -/
def Closed (tree : Tree) : Prop :=
  ∀ decl declaration, tree.decl? decl = some declaration → tree.Issues declaration.visibility

instance (tree : Tree) : Decidable tree.Closed := decidable_of_iff _ forall_declared.symm

theorem Sound.issues_declaration {tree : Tree} (sound : tree.Sound) (closed : tree.Closed)
    {decl : DeclId} {declaration : Declaration} (declared : tree.decl? decl = some declaration) :
    tree.Issues declaration :=
  Tree.issues_declaration.mpr ⟨sound.owner_mem_scopeIds declared, closed decl declaration declared,
    fun _ opens => sound.child_mem_scopeIds declared opens⟩

end Tree

end ScopedNames
