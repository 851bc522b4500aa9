import ScopedNames.Proofs.Audience
import ScopedNames.Proofs.Diagnostic
import ScopedNames.Proofs.Walk.Climbing
import ScopedNames.Proofs.Walk.Reasons

set_option autoImplicit false

/- What is said of hidden declarations. Whoever meets one is told within which scope it can be
named. That is the whole truth of a private declaration, and of one that is restricted to a scope
around its owner. Any other restricted declaration can be named inside its owner as well, of which
the hint says nothing. -/
namespace ScopedNames

/-- A hint says that something can only be named within a place. -/
def Diagnostic.Confines (diagnostic : Diagnostic) (place : String) : Prop :=
  Remark.mk .hint s!"it can only be named from within `{place}`" ∈ diagnostic.remarks

namespace Tree

/-- An error says that a declaration is hidden, which indeed does not admit `origin`. -/
def Refuses (tree : Tree) (origin : ScopeId) (reason : LookupError) : Prop :=
  ∃ decl, tree.admits decl origin = some false ∧ tree.hiddenError decl = some reason

/-- Following a path, a glob import or a look-up of a re-export fails with the error, which is
described to whoever asked. -/
inductive Explains (tree : Tree) (imports : Imports) (reason : LookupError) :
    Option Diagnostic → Prop
  | resolve {path : Path} {origin : ScopeId} (failed : tree.resolve path origin = .error reason) :
    Explains tree imports reason (reason.describe tree)
  | importGlob {importing target : ScopeId}
    (failed : imports.importGlob tree importing target = .error (.unresolved reason)) :
    Explains tree imports reason ((ImportError.unresolved reason).describe tree)
  | findReexportFor {scope requester : ScopeId} {name : Name}
    (failed : imports.findReexportFor tree scope name requester = .error reason) :
    Explains tree imports reason (reason.describe tree)

variable {tree : Tree} {imports : Imports} {origin scope owner boundary : ScopeId}
  {name : Name} {decl : DeclId} {declaration : Declaration} {reason : LookupError}

section Refusals

theorem checkAdmits_refuses (failed : tree.checkAdmits decl origin = .error reason) :
    tree.Refuses origin reason := by
  obtain ⟨allowed, known, rest⟩ := Outcome.lift_bind_eq_error.mp failed
  cases allowed with
  | true => cases rest
  | false =>
    obtain ⟨same, hidden, last⟩ := Outcome.lift_bind_eq_error.mp rest
    cases last
    exact ⟨decl, known, hidden⟩

/-- Of modules given from the inside out, the outermost that is closed does not admit `origin`. -/
theorem admits_outermostClosed {sites : List Site}
    (found : tree.outermostClosed origin sites = some (some decl)) :
    tree.admits decl origin = some false := by
  induction sites with
  | nil => cases found
  | cons site outer ih =>
    obtain ⟨verdict, above, rest⟩ := Option.bind_eq_some_iff.mp found
    cases verdict with
    | some closed =>
      cases rest
      exact ih above
    | none =>
      obtain ⟨allowed, admitted, last⟩ := Option.bind_eq_some_iff.mp rest
      cases allowed with
      | true => cases last
      | false =>
        cases last
        exact admitted

theorem barrier_refuses (barred : tree.barrier scope origin = some (some decl))
    (hidden : tree.hiddenError decl = some reason) : tree.Refuses origin reason := by
  obtain ⟨here, _, found⟩ := Option.bind_eq_some_iff.mp barred
  exact ⟨decl, admits_outermostClosed found, hidden⟩

theorem importGlob_refuses
    (failed : imports.importGlob tree origin scope = .error (.unresolved reason)) :
    tree.Refuses origin reason := by
  have stopped := failed
  rw [Imports.importGlob_eq] at stopped
  obtain ⟨verdict, barred, rest⟩ := Outcome.lift_bind_eq_error.mp stopped
  cases verdict with
  | none => exact absurd failed (importGlob_ne_error_of_clear imports barred _)
  | some closed =>
    obtain ⟨same, hidden, last⟩ := Outcome.lift_bind_eq_error.mp rest
    cases last
    exact barrier_refuses barred hidden

section Hidden

variable (hidden : reason.IsHidden)

include hidden

theorem start_ne_hidden (start : Root) : tree.start start origin ≠ .error reason := by
  obtain ⟨_, _, _, rfl⟩ := hidden
  intro failed
  cases start with
  | absolute => cases failed
  | here => cases failed
  | up levels positive =>
    obtain ⟨above, _, rest⟩ := Outcome.lift_bind_eq_error.mp failed
    cases above with
    | some scope => cases rest
    | none =>
      obtain ⟨depth, _, last⟩ := Outcome.lift_bind_eq_error.mp rest
      cases last
  | external name =>
    rw [start] at failed
    split at failed <;> cases failed

theorem find_ne_hidden : tree.find scope name ≠ .error reason := by
  obtain ⟨_, _, _, rfl⟩ := hidden
  intro failed
  cases (find_eq_error_iff.mp failed).2

theorem findAdmitted_refuses (failed : tree.findAdmitted scope name origin = .error reason) :
    tree.Refuses origin reason := by
  rcases Outcome.bind_eq_error.mp failed with absent | ⟨decl, _, rest⟩
  · exact absurd absent (find_ne_hidden hidden)
  · rcases Outcome.bind_eq_error.mp rest with closed | ⟨_, _, last⟩
    · exact checkAdmits_refuses closed
    · cases last

theorem enter_refuses (failed : tree.enter origin scope name = .error reason) :
    tree.Refuses origin reason := by
  rcases Outcome.bind_eq_error.mp failed with absent | ⟨decl, _, rest⟩
  · exact absurd absent (find_ne_hidden hidden)
  · obtain ⟨declaration, _, last⟩ := Outcome.lift_bind_eq_error.mp rest
    cases opens : declaration.child? with
    | none =>
      obtain ⟨_, _, _, rfl⟩ := hidden
      rw [opens] at last
      cases last
    | some child =>
      rw [opens] at last
      rcases Outcome.bind_eq_error.mp last with closed | ⟨_, _, done⟩
      · exact checkAdmits_refuses closed
      · cases done

theorem resolve_refuses {path : Path} (failed : tree.resolve path origin = .error reason) :
    tree.Refuses origin reason := by
  rcases Outcome.bind_eq_error.mp failed with stopped | ⟨scope, _, last⟩
  · rcases Outcome.bind_eq_error.mp stopped with nowhere | ⟨start, _, walked⟩
    · exact absurd nowhere (start_ne_hidden hidden path.root)
    · obtain ⟨_, _, _, _, _, _, entered⟩ := exists_enter_of_walk_error walked
      exact enter_refuses hidden entered
  · exact findAdmitted_refuses hidden last

theorem findReexportFor_refuses
    (failed : imports.findReexportFor tree scope name origin = .error reason) :
    tree.Refuses origin reason := by
  obtain ⟨verdict, barred, rest⟩ := Outcome.lift_bind_eq_error.mp failed
  cases verdict with
  | none =>
    obtain ⟨_, _, _, rfl⟩ := hidden
    cases Imports.eq_of_findReexport_error rest
  | some closed =>
    obtain ⟨same, found, last⟩ := Outcome.lift_bind_eq_error.mp rest
    cases last
    exact barrier_refuses barred found

end Hidden

/-- The error of a refusal tells of the declaration as it was declared. -/
theorem Refuses.exists_declared (refuses : tree.Refuses origin (.hidden name decl owner)) :
    ∃ declaration, tree.decl? decl = some declaration ∧ declaration.name = name ∧
      declaration.owner = owner ∧
      tree.permits declaration.visibility owner origin = some false := by
  obtain ⟨refusing, closed, hidden⟩ := refuses
  obtain ⟨declaration, declared, same⟩ := Option.map_eq_some_iff.mp hidden
  cases same
  rw [admits_of_declared declared] at closed
  exact ⟨declaration, declared, rfl, rfl, closed⟩

end Refusals

section Boundary

variable {visibility : Visibility} {requester : ScopeId}

theorem exists_boundary_of_closed (closed : tree.permits visibility owner requester = some false) :
    ∃ boundary, visibility.boundary? owner = some boundary := by
  cases visibility with
  | everyone => cases closed
  | insiders => exact ⟨owner, rfl⟩
  | restricted scope => exact ⟨scope, rfl⟩

variable (kept : visibility.boundary? owner = some boundary)

include kept

/-- Besides those inside the boundary, whoever stands inside the owner is permitted. -/
theorem permits_iff_of_boundary (asking : requester ∈ tree.scopeIds) :
    tree.permits visibility owner requester = some true ↔
      tree.isInside requester boundary = some true ∨
        tree.isInside requester owner = some true := by
  cases visibility with
  | everyone => cases kept
  | insiders =>
    cases kept
    exact (or_self_iff).symm
  | restricted scope =>
    cases kept
    exact permits_restricted_iff asking

/-- The owner itself is permitted, so that the boundary decides alone only if it lies around it. -/
theorem permits_as_boundary_iff (sound : tree.Sound) (inside : owner ∈ tree.scopeIds) :
    (∀ requester ∈ tree.scopeIds, tree.permits visibility owner requester = some true ↔
      tree.isInside requester boundary = some true) ↔ tree.isInside owner boundary = some true := by
  constructor
  · intro exact
    exact (exact owner inside).mp (permits_of_isInside inside (isInside_self inside) visibility)
  · intro around requester asking
    rw [permits_iff_of_boundary kept asking]
    exact or_iff_left_of_imp fun within => sound.isInside_trans within around

end Boundary

end Tree

section Described

variable {tree : Tree} {imports : Imports} {owner boundary : ScopeId} {name : Name} {decl : DeclId}
  {declaration : Declaration} {diagnostic : Diagnostic}

theorem LookupError.confines_iff (declared : tree.decl? decl = some declaration)
    (kept : declaration.visibility.boundary? owner = some boundary)
    (described : (hidden name decl owner).describe tree = some diagnostic) (place : String) :
    diagnostic.Confines place ↔ tree.scopeText boundary = some place := by
  obtain ⟨found, same, rest⟩ := Option.bind_eq_some_iff.mp described
  cases declared.symm.trans same
  obtain ⟨home, _, rest⟩ := Option.bind_eq_some_iff.mp rest
  rw [kept] at rest
  obtain ⟨limit, shown, last⟩ := Option.bind_eq_some_iff.mp rest
  cases last
  rw [shown]
  simp [Diagnostic.Confines, Diagnostic.error, Diagnostic.remark, toString, eq_comm]

theorem Tree.Explains.exists_confines {described : Option Diagnostic} (sound : tree.Sound)
    (closed : tree.Closed) (explains : tree.Explains imports (.hidden name decl owner) described)
    (declared : tree.decl? decl = some declaration) (inside : owner ∈ tree.scopeIds)
    (kept : declaration.visibility.boundary? owner = some boundary) :
    ∃ diagnostic, described = some diagnostic ∧
      ∀ place, diagnostic.Confines place ↔ tree.scopeText boundary = some place := by
  obtain ⟨diagnostic, known, _⟩ := LookupError.describe_hidden_isError sound declared inside
    (closed decl declaration declared) name
  have confines := LookupError.confines_iff declared kept known
  cases explains with
  | resolve => exact ⟨diagnostic, known, confines⟩
  | findReexportFor => exact ⟨diagnostic, known, confines⟩
  | importGlob =>
    -- The description of a failed glob import says so in front and keeps the remarks.
    refine ⟨{ diagnostic with message := s!"unresolved import: {diagnostic.message}" }, ?_,
      confines⟩
    rw [ImportError.describe, known, Option.map_some]

end Described

namespace Tree

variable {tree : Tree} {imports : Imports}

theorem Explains.refused {reason : LookupError} {described : Option Diagnostic}
    (explains : tree.Explains imports reason described) (hidden : reason.IsHidden) :
    ∃ requester, tree.Refuses requester reason := by
  cases explains with
  | resolve failed => exact ⟨_, resolve_refuses hidden failed⟩
  | importGlob failed => exact ⟨_, importGlob_refuses failed⟩
  | findReexportFor failed => exact ⟨_, findReexportFor_refuses hidden failed⟩

/-- The hint about a hidden declaration names one scope. The declaration permits whoever stands
inside that scope or inside the owner, and nobody else. So the hint is right exactly if the owner
lies inside the scope that it names. -/
theorem hint_right_iff_owner_inside (grown : tree.Grown) (closed : tree.Closed) {name : Name}
    {decl : DeclId} {owner : ScopeId} {described : Option Diagnostic}
    (explains : tree.Explains imports (.hidden name decl owner) described) :
    ∃ declaration boundary place diagnostic, tree.decl? decl = some declaration ∧
      declaration.name = name ∧ declaration.owner = owner ∧
      declaration.visibility.boundary? owner = some boundary ∧ boundary ∈ tree.scopeIds ∧
      tree.scopeText boundary = some place ∧ described = some diagnostic ∧
      (∀ other, diagnostic.Confines other ↔ other = place) ∧
      (∀ requester ∈ tree.scopeIds, ∃ allowed,
        tree.permits declaration.visibility owner requester = some allowed ∧
        (allowed = true ↔ tree.isInside requester boundary = some true ∨
          tree.isInside requester owner = some true)) ∧
      ((∀ requester ∈ tree.scopeIds,
        tree.permits declaration.visibility owner requester = some true ↔
          tree.isInside requester boundary = some true) ↔
        tree.isInside owner boundary = some true) := by
  have sound := grown.sound
  obtain ⟨asking, refuses⟩ := explains.refused ⟨name, decl, owner, rfl⟩
  obtain ⟨declaration, declared, named, rfl, refused⟩ := refuses.exists_declared
  obtain ⟨boundary, kept⟩ := exists_boundary_of_closed refused
  have inside := sound.owner_mem_scopeIds declared
  have issued := Visibility.boundary_mem_scopeIds (closed decl declaration declared) inside kept
  obtain ⟨place, shown⟩ := sound.exists_scopeText issued
  obtain ⟨diagnostic, known, confines⟩ :=
    explains.exists_confines sound closed declared inside kept
  refine ⟨declaration, boundary, place, diagnostic, declared, named, rfl, kept, issued, shown,
    known, fun other => ?_, fun requester present => ?_, permits_as_boundary_iff kept sound inside⟩
  · rw [confines, shown, Option.some.injEq, eq_comm]
  · obtain ⟨allowed, answer⟩ := exists_permits present declaration.visibility declaration.owner
    have meaning := permits_iff_of_boundary kept present
    rw [answer, Option.some.injEq] at meaning
    exact ⟨allowed, answer, meaning⟩

/-- `crate::house::key` is restricted to the attic, which lies inside the house beside it. -/
def house : Tree :=
  build none [(root, "house", .module, .everyone), (⟨1⟩, "attic", .module, .everyone),
    (⟨1⟩, "key", .value 0, .restricted ⟨2⟩)]

/-- Whoever asks for the key from the root is told of the attic alone, though the whole house may
name the key. -/
theorem key_hint_too_narrow :
    house.Grown ∧ house.Closed ∧
      house.resolve ⟨.absolute, ["house"], "key"⟩ root = .error (.hidden "key" ⟨2⟩ ⟨1⟩) ∧
      (∃ diagnostic, (LookupError.hidden "key" ⟨2⟩ ⟨1⟩).describe house = some diagnostic ∧
        ∀ place, diagnostic.Confines place ↔ place = "crate::house::attic") ∧
      house.permits (.restricted ⟨2⟩) ⟨1⟩ ⟨1⟩ = some true ∧
      house.isInside ⟨1⟩ ⟨2⟩ = some false := by
  have grown : house.Grown := grown_build _ _
  have closed : house.Closed := by decide +kernel
  have failed : house.resolve ⟨.absolute, ["house"], "key"⟩ root =
      .error (.hidden "key" ⟨2⟩ ⟨1⟩) := rfl
  have explains : house.Explains (.empty house) (.hidden "key" ⟨2⟩ ⟨1⟩) _ := .resolve failed
  obtain ⟨declaration, boundary, place, diagnostic, declared, _, _, kept, _, shown, described,
    confines, permits, _⟩ := hint_right_iff_owner_inside grown closed explains
  cases (show house.decl? ⟨2⟩ = some ⟨"key", ⟨1⟩, .restricted ⟨2⟩, .value 0⟩ from rfl).symm.trans
    declared
  cases kept
  have attic : house.scopeText ⟨2⟩ = some "crate::house::attic" := by decide +kernel
  cases attic.symm.trans shown
  obtain ⟨allowed, answer, meaning⟩ := permits ⟨1⟩ (by decide +kernel)
  rw [meaning.mpr (.inr rfl)] at answer
  exact ⟨grown, closed, failed, ⟨diagnostic, described, confines⟩, answer, rfl⟩

end Tree

end ScopedNames
