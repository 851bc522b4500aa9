import ScopedNames.Proofs.Tree.Nesting
import ScopedNames.Walk

set_option autoImplicit false

namespace ScopedNames.Tree

/-- The declarations on the way to one: those of the modules around it, from the root inwards, and
the declaration itself. -/
def wayTo (tree : Tree) (decl : DeclId) : Option (List DeclId) := do
  let declaration ← tree.decl? decl
  let here ← tree.scope? declaration.owner
  return (here.sites.map (·.decl)).reverse ++ [decl]

variable {tree : Tree}

theorem exists_permits {requester : ScopeId} (issued : requester ∈ tree.scopeIds)
    (visibility : Visibility) (declaring : ScopeId) :
    ∃ allowed, tree.permits visibility declaring requester = some allowed := by
  obtain ⟨within, inside⟩ := exists_isInside issued declaring
  cases visibility with
  | everyone => exact ⟨true, rfl⟩
  | insiders => exact ⟨within, inside⟩
  | restricted scope =>
    obtain ⟨also, alike⟩ := exists_isInside issued scope
    exact ⟨also || within, by simp [permits, inside, alike]⟩

/-- Whoever stands inside the declaring scope is permitted, however the item is restricted. -/
theorem permits_of_isInside {requester declaring : ScopeId} (issued : requester ∈ tree.scopeIds)
    (inside : tree.isInside requester declaring = some true) (visibility : Visibility) :
    tree.permits visibility declaring requester = some true := by
  cases visibility with
  | everyone => rfl
  | insiders => exact inside
  | restricted scope =>
    obtain ⟨also, alike⟩ := exists_isInside issued scope
    simp [permits, inside, alike]

theorem permits_restricted_iff {requester declaring scope : ScopeId}
    (issued : requester ∈ tree.scopeIds) :
    tree.permits (.restricted scope) declaring requester = some true ↔
      tree.isInside requester scope = some true ∨
        tree.isInside requester declaring = some true := by
  obtain ⟨also, alike⟩ := exists_isInside issued scope
  obtain ⟨within, inside⟩ := exists_isInside issued declaring
  simp [permits, alike, inside]

theorem admits_of_declared {decl : DeclId} {declaration : Declaration}
    (declared : tree.decl? decl = some declaration) (requester : ScopeId) :
    tree.admits decl requester =
      tree.permits declaration.visibility declaration.owner requester := by
  rw [admits, declared]
  rfl

theorem exists_admits {decl : DeclId} {declaration : Declaration} {requester : ScopeId}
    (declared : tree.decl? decl = some declaration) (issued : requester ∈ tree.scopeIds) :
    ∃ allowed, tree.admits decl requester = some allowed := by
  rw [admits_of_declared declared]
  exact exists_permits issued _ _

theorem mem_scopeIds_of_barrier {scope requester : ScopeId} {verdict : Option DeclId}
    (known : tree.barrier scope requester = some verdict) : scope ∈ tree.scopeIds := by
  obtain ⟨here, issued, _⟩ := Option.bind_eq_some_iff.mp known
  exact mem_scopeIds.mpr ⟨here, issued⟩

theorem mem_declIds_of_mayName {decl : DeclId} {requester : ScopeId} {allowed : Bool}
    (known : tree.mayName decl requester = some allowed) : decl ∈ tree.declIds := by
  obtain ⟨declaration, declared, _⟩ := Option.bind_eq_some_iff.mp known
  exact mem_declIds.mpr ⟨declaration, declared⟩

theorem isReachable_eq_true_iff {scope requester : ScopeId} :
    tree.isReachable scope requester = some true ↔ tree.barrier scope requester = some none := by
  simp [isReachable, Option.map_eq_some_iff]

theorem mayName_eq_true_iff {decl : DeclId} {declaration : Declaration} {requester : ScopeId}
    (declared : tree.decl? decl = some declaration) :
    tree.mayName decl requester = some true ↔
      tree.barrier declaration.owner requester = some none ∧
        tree.admits decl requester = some true := by
  rw [mayName, declared]
  cases admitted : tree.admits decl requester with
  | none => simp
  | some allowed =>
    cases closed : tree.barrier declaration.owner requester <;>
      cases allowed <;> simp [isReachable, closed]

namespace Sound

theorem barrier_root (sound : tree.Sound) (requester : ScopeId) :
    tree.barrier Tree.root requester = some none := by
  obtain ⟨here, found, bare⟩ := sound.root
  simp [barrier, found, bare, outermostClosed]

section Module

variable {decl : DeclId} {declaration : Declaration} {child requester : ScopeId}

/-- Whatever bars the way to a module bars the way to its scope. -/
theorem barrier_child_of_barred (sound : tree.Sound) {closed : DeclId}
    (declared : tree.decl? decl = some declaration) (opens : declaration.child? = some child)
    (barred : tree.barrier declaration.owner requester = some (some closed)) :
    tree.barrier child requester = some (some closed) := by
  obtain ⟨outer, inner, around, within, sites⟩ := sound.opened declared opens
  simp only [barrier, around, Option.bind_eq_bind, Option.bind_some] at barred
  simp [barrier, within, sites, outermostClosed, barred]

/-- Where nothing bars the way to a module, at most the module bars the way to its scope. -/
theorem barrier_child_of_clear (sound : tree.Sound) {allowed : Bool}
    (declared : tree.decl? decl = some declaration) (opens : declaration.child? = some child)
    (clear : tree.barrier declaration.owner requester = some none)
    (admitted : tree.admits decl requester = some allowed) :
    tree.barrier child requester = some (if allowed then none else some decl) := by
  obtain ⟨outer, inner, around, within, sites⟩ := sound.opened declared opens
  simp only [barrier, around, Option.bind_eq_bind, Option.bind_some] at clear
  simp [barrier, within, sites, outermostClosed, clear, admitted]

end Module

theorem exists_barrier (sound : tree.Sound) {requester scope : ScopeId}
    (asking : requester ∈ tree.scopeIds) (issued : scope ∈ tree.scopeIds) :
    ∃ verdict, tree.barrier scope requester = some verdict := by
  induction issued using sound.scope_induction with
  | root => exact ⟨none, sound.barrier_root requester⟩
  | module declared opens ih =>
    obtain ⟨allowed, admitted⟩ := exists_admits declared asking
    obtain ⟨_ | closed, above⟩ := ih
    · exact ⟨_, sound.barrier_child_of_clear declared opens above admitted⟩
    · exact ⟨_, sound.barrier_child_of_barred declared opens above⟩

section Way

variable {decl : DeclId} {declaration : Declaration} {child requester : ScopeId}

/-- The way to the scope of a module is clear if the way to the module is, and the module opens. -/
theorem barrier_child_eq_none_iff (sound : tree.Sound) (asking : requester ∈ tree.scopeIds)
    (declared : tree.decl? decl = some declaration) (opens : declaration.child? = some child) :
    tree.barrier child requester = some none ↔
      tree.barrier declaration.owner requester = some none ∧
        tree.admits decl requester = some true := by
  obtain ⟨allowed, admitted⟩ := exists_admits declared asking
  obtain ⟨_ | closed, above⟩ := sound.exists_barrier asking (sound.owner_mem_scopeIds declared)
  · rw [sound.barrier_child_of_clear declared opens above admitted, above, admitted]
    cases allowed <;> simp
  · rw [sound.barrier_child_of_barred declared opens above, above]
    simp

/-- What bars the way to the scope of a module bars the way to the module, or is the module. -/
theorem barrier_child_eq_some_iff (sound : tree.Sound) (asking : requester ∈ tree.scopeIds)
    (declared : tree.decl? decl = some declaration) (opens : declaration.child? = some child)
    {closed : DeclId} :
    tree.barrier child requester = some (some closed) ↔
      tree.barrier declaration.owner requester = some (some closed) ∨
        tree.barrier declaration.owner requester = some none ∧
          tree.admits decl requester = some false ∧ decl = closed := by
  obtain ⟨allowed, admitted⟩ := exists_admits declared asking
  obtain ⟨_ | first, above⟩ := sound.exists_barrier asking (sound.owner_mem_scopeIds declared)
  · rw [sound.barrier_child_of_clear declared opens above admitted, above, admitted]
    cases allowed <;> simp
  · rw [sound.barrier_child_of_barred declared opens above, above]
    simp

end Way

/-- What stands in the way of a scope is a declaration that does not admit it. -/
theorem admits_barrier (sound : tree.Sound) {requester scope : ScopeId} {closed : DeclId}
    (asking : requester ∈ tree.scopeIds) (issued : scope ∈ tree.scopeIds)
    (barred : tree.barrier scope requester = some (some closed)) :
    closed ∈ tree.declIds ∧ tree.admits closed requester = some false := by
  induction issued using sound.scope_induction with
  | root =>
    rw [sound.barrier_root] at barred
    cases barred
  | module declared opens ih =>
    rcases (sound.barrier_child_eq_some_iff asking declared opens).mp barred with
      above | ⟨_, refused, rfl⟩
    · exact ih above
    · exact ⟨mem_declIds.mpr ⟨_, declared⟩, refused⟩

/-- Nothing bars a scope from the scopes it lies in: it stands inside each module on the way. -/
theorem barrier_of_isInside (sound : tree.Sound) {requester scope : ScopeId}
    (asking : requester ∈ tree.scopeIds) (issued : scope ∈ tree.scopeIds)
    (inside : tree.isInside requester scope = some true) :
    tree.barrier scope requester = some none := by
  induction issued using sound.scope_induction with
  | root => exact sound.barrier_root requester
  | @module decl _ _ declared opens ih =>
    have within := sound.isInside_owner declared opens asking inside
    have admitted : tree.admits decl requester = some true := by
      rw [admits_of_declared declared]
      exact permits_of_isInside asking within _
    exact sound.barrier_child_of_clear declared opens (ih within) admitted

theorem exists_mayName (sound : tree.Sound) {decl : DeclId} {requester : ScopeId}
    (issued : decl ∈ tree.declIds) (asking : requester ∈ tree.scopeIds) :
    ∃ allowed, tree.mayName decl requester = some allowed := by
  obtain ⟨declaration, declared⟩ := mem_declIds.mp issued
  obtain ⟨allowed, admitted⟩ := exists_admits declared asking
  obtain ⟨verdict, barred⟩ := sound.exists_barrier asking (sound.owner_mem_scopeIds declared)
  cases allowed with
  | false => exact ⟨false, by simp [mayName, declared, admitted]⟩
  | true => exact ⟨verdict.isNone, by simp [mayName, declared, admitted, isReachable, barred]⟩

end Sound

/-- What was issued by the first tree is in the second as it was, but for names added to tables. -/
structure Extends (tree later : Tree) : Prop where
  scope : ∀ {scope here}, tree.scope? scope = some here → ∃ kept, later.scope? scope = some kept ∧
    kept.sites = here.sites ∧
      ∀ name decl, here.items.find? name = some decl → kept.items.find? name = some decl
  decl : ∀ {decl declaration}, tree.decl? decl = some declaration →
    later.decl? decl = some declaration
  externalName : later.externalName = tree.externalName

theorem Extends.refl (tree : Tree) : tree.Extends tree :=
  ⟨fun issued => ⟨_, issued, rfl, fun _ _ bound => bound⟩, id, rfl⟩

theorem Extends.trans {first second third : Tree} (left : first.Extends second)
    (right : second.Extends third) : first.Extends third := by
  refine ⟨fun issued => ?_, fun declared => right.decl (left.decl declared),
    right.externalName.trans left.externalName⟩
  obtain ⟨middle, present, sites, bound⟩ := left.scope issued
  obtain ⟨last, found, same, kept⟩ := right.scope present
  exact ⟨last, found, same.trans sites,
    fun name decl first => kept name decl (bound name decl first)⟩

theorem extends_insert {tree : Tree} {scope : ScopeId} {here : Scope} {name : Name}
    (item : NewItem) (visibility : Visibility) (issued : tree.scope? scope = some here)
    (fresh : here.items.find? name = none) :
    tree.Extends (tree.insert scope here name item visibility) := by
  refine ⟨?_, decl?_insert_of_issued, rfl⟩
  intro other found present
  obtain ⟨kept, there, sites⟩ := scope?_insert_of_issued issued present
  refine ⟨kept, there, sites, fun bound decl known => ?_⟩
  rcases scope?_insert_cases issued there with ⟨rfl, _, items⟩ | ⟨rfl, _⟩ | ⟨_, old⟩
  · cases issued.symm.trans present
    have apart : bound ≠ name := by
      rintro rfl
      cases fresh.symm.trans known
    rw [items, Registry.find?_bind, if_neg apart]
    exact known
  · rw [scope?_nextScope] at present
    cases present
  · cases old.symm.trans present
    exact known

theorem Grows.extends {tree later : Tree} (grows : Grows tree later) : tree.Extends later := by
  induction grows with
  | same => exact .refl _
  | declare _ declared ih =>
    obtain ⟨here, issued, fresh, _, rfl⟩ := declare_eq_ok_iff.mp declared
    exact ih.trans (extends_insert _ _ issued fresh)

namespace Extends

variable {later : Tree} {scope requester : ScopeId}

section Navigation

theorem ancestors_eq (extension : tree.Extends later) (issued : scope ∈ tree.scopeIds) :
    later.ancestors scope = tree.ancestors scope := by
  obtain ⟨here, found⟩ := Tree.mem_scopeIds.mp issued
  obtain ⟨kept, present, sites, _⟩ := extension.scope found
  rw [ancestors_of_issued found, ancestors_of_issued present, sites]

theorem isInside_eq (extension : tree.Extends later) (issued : scope ∈ tree.scopeIds)
    (ancestor : ScopeId) : later.isInside scope ancestor = tree.isInside scope ancestor := by
  rw [isInside, isInside, extension.ancestors_eq issued]

theorem above_eq (extension : tree.Extends later) (issued : scope ∈ tree.scopeIds)
    (levels : Nat) : later.above scope levels = tree.above scope levels := by
  rw [above, above, extension.ancestors_eq issued]

theorem depth_eq (extension : tree.Extends later) (issued : scope ∈ tree.scopeIds) :
    later.depth scope = tree.depth scope := by
  obtain ⟨here, found⟩ := Tree.mem_scopeIds.mp issued
  obtain ⟨kept, present, sites, _⟩ := extension.scope found
  rw [depth, depth, found, present, Option.map_some, Option.map_some, sites]

theorem segments_eq (extension : tree.Extends later) (sound : tree.Sound) (still : later.Sound)
    (issued : scope ∈ tree.scopeIds) : later.segments scope = tree.segments scope := by
  induction issued using sound.scope_induction with
  | root => rw [sound.segments_root, still.segments_root]
  | module declared opens ih =>
    rw [sound.segments_child declared opens, still.segments_child (extension.decl declared) opens,
      ih]

theorem childNamed?_of_some (extension : tree.Extends later) {name : Name} {child : ScopeId}
    (named : tree.childNamed? scope name = some child) :
    later.childNamed? scope name = some child := by
  obtain ⟨here, found, rest⟩ := Option.bind_eq_some_iff.mp named
  obtain ⟨decl, bound, opened⟩ := Option.bind_eq_some_iff.mp rest
  obtain ⟨declaration, declared, opens⟩ := Option.bind_eq_some_iff.mp opened
  obtain ⟨kept, present, _, items⟩ := extension.scope found
  simp [childNamed?, present, items name decl bound, extension.decl declared, opens]

/-- Names of modules that lead somewhere lead there still. -/
theorem scopeAt?_of_some (extension : tree.Extends later) {names : List Name}
    (led : tree.scopeAt? names = some scope) : later.scopeAt? names = some scope := by
  rw [scopeAt?] at led ⊢
  generalize root = start at led ⊢
  induction names generalizing start with
  | nil => exact led
  | cons name names ih =>
    obtain ⟨child, named, rest⟩ := Option.bind_eq_some_iff.mp led
    exact Option.bind_eq_some_iff.mpr
      ⟨child, extension.childNamed?_of_some named, ih child rest⟩

end Navigation

section Access

/-- Whoever stands inside a scope does so by scopes that were issued before it. -/
theorem permits_eq (extension : tree.Extends later) (asking : requester ∈ tree.scopeIds)
    (visibility : Visibility) (declaring : ScopeId) :
    later.permits visibility declaring requester =
      tree.permits visibility declaring requester := by
  cases visibility with
  | everyone => rfl
  | insiders => exact extension.isInside_eq asking declaring
  | restricted scope =>
    rw [permits, permits, extension.isInside_eq asking, extension.isInside_eq asking]

theorem admits_eq (extension : tree.Extends later) (asking : requester ∈ tree.scopeIds)
    {decl : DeclId} {declaration : Declaration} (declared : tree.decl? decl = some declaration) :
    later.admits decl requester = tree.admits decl requester := by
  rw [admits_of_declared declared, admits_of_declared (extension.decl declared),
    extension.permits_eq asking]

theorem barrier_eq (extension : tree.Extends later) (sound : tree.Sound) (still : later.Sound)
    (asking : requester ∈ tree.scopeIds) (issued : scope ∈ tree.scopeIds) :
    later.barrier scope requester = tree.barrier scope requester := by
  induction issued using sound.scope_induction with
  | root => rw [sound.barrier_root, still.barrier_root]
  | @module decl declaration child declared opens ih =>
    have kept := extension.decl declared
    have alike := extension.admits_eq asking declared
    obtain ⟨allowed, admitted⟩ := exists_admits declared asking
    obtain ⟨_ | closed, above⟩ :=
      sound.exists_barrier asking (sound.owner_mem_scopeIds declared)
    · rw [sound.barrier_child_of_clear declared opens above admitted,
        still.barrier_child_of_clear kept opens (ih.trans above) (alike.trans admitted)]
    · rw [sound.barrier_child_of_barred declared opens above,
        still.barrier_child_of_barred kept opens (ih.trans above)]

theorem mayName_eq (extension : tree.Extends later) (sound : tree.Sound) (still : later.Sound)
    (asking : requester ∈ tree.scopeIds) {decl : DeclId} (issued : decl ∈ tree.declIds) :
    later.mayName decl requester = tree.mayName decl requester := by
  obtain ⟨declaration, declared⟩ := mem_declIds.mp issued
  have outside := sound.owner_mem_scopeIds declared
  simp only [mayName, declared, extension.decl declared, Option.bind_eq_bind, Option.bind_some,
    extension.admits_eq asking declared, isReachable,
    extension.barrier_eq sound still asking outside]

end Access

end Extends

end ScopedNames.Tree
