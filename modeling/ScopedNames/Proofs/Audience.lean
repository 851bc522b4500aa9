import ScopedNames.Diagnostic
import ScopedNames.Proofs.Barrier
import ScopedNames.Proofs.Tree.Containment

set_option autoImplicit false

/- Who may name a declaration. Each declaration on the way to it may keep its users to the inside of
a scope. Where all these scopes lie around the declaration, they lie in one another, so that the
deepest of them decides alone: whoever stands inside it may name the declaration, and nobody else.
-/
namespace ScopedNames.Tree

/-- Restricted declarations are restricted to scopes that they lie in. -/
def Confined (tree : Tree) : Prop :=
  ∀ decl declaration, tree.decl? decl = some declaration →
    ∀ scope, declaration.visibility = .restricted scope →
      tree.isInside declaration.owner scope = some true

instance (visibility : Visibility) (property : ScopeId → Prop) [DecidablePred property] :
    Decidable (∀ scope, visibility = .restricted scope → property scope) :=
  match visibility with
  | .insiders => .isTrue (by simp)
  | .everyone => .isTrue (by simp)
  | .restricted scope => decidable_of_iff (property scope) (by simp)

instance (tree : Tree) : Decidable tree.Confined := decidable_of_iff _ forall_declared.symm

/-- The root, and the scopes to which some declarations keep their users: the owners of private
declarations and the scopes that others are restricted to. -/
def Bounds (tree : Tree) (way : List DeclId) (scope : ScopeId) : Prop :=
  scope = root ∨ ∃ decl ∈ way, ∃ declaration, tree.decl? decl = some declaration ∧
    declaration.visibility.boundary? declaration.owner = some scope

/-- Exactly those who stand inside the scope may name the declaration. -/
def NamedWithin (tree : Tree) (decl : DeclId) (scope : ScopeId) : Prop :=
  ∀ requester ∈ tree.scopeIds, ∃ allowed, tree.mayName decl requester = some allowed ∧
    tree.isInside requester scope = some allowed

/-- Among the bounds set on the way to `scope`, the deepest one: it alone decides who is allowed to
go that way. -/
structure Decides (tree : Tree) (scope : ScopeId) (way : List DeclId)
    (allowed : ScopeId → Prop) (bound : ScopeId) : Prop where
  around : tree.isInside scope bound = some true
  allows : ∀ requester ∈ tree.scopeIds,
    (allowed requester ↔ tree.isInside requester bound = some true)
  bounds : tree.Bounds way bound
  deepest : ∀ other, tree.Bounds way other → tree.isInside bound other = some true

variable {tree : Tree} {decl : DeclId} {declaration : Declaration} {way : List DeclId}
  {scope bound : ScopeId}

theorem bounds_concat_iff (declared : tree.decl? decl = some declaration) :
    tree.Bounds (way ++ [decl]) scope ↔ tree.Bounds way scope ∨
      declaration.visibility.boundary? declaration.owner = some scope := by
  simp [Bounds, or_and_right, exists_or, declared, or_assoc]

section Boundary

theorem admits_of_boundary_none (declared : tree.decl? decl = some declaration)
    (free : declaration.visibility.boundary? declaration.owner = none) (requester : ScopeId) :
    tree.admits decl requester = some true := by
  rw [admits_of_declared declared]
  cases seen : declaration.visibility with
  | everyone => rfl
  | insiders => simp [seen, Visibility.boundary?] at free
  | restricted scope => simp [seen, Visibility.boundary?] at free

variable (sound : tree.Sound) (confined : tree.Confined)
  (declared : tree.decl? decl = some declaration)
  (kept : declaration.visibility.boundary? declaration.owner = some bound)

include sound confined declared kept

theorem isInside_boundary : tree.isInside declaration.owner bound = some true := by
  cases seen : declaration.visibility with
  | everyone => simp [seen, Visibility.boundary?] at kept
  | insiders =>
    rw [seen, Visibility.boundary?, Option.some.injEq] at kept
    exact kept ▸ isInside_self (sound.owner_mem_scopeIds declared)
  | restricted scope =>
    rw [seen, Visibility.boundary?, Option.some.injEq] at kept
    exact confined decl declaration declared bound (kept ▸ seen)

/-- A declaration admits whoever stands inside its boundary: where that is not the owner itself, the
owner lies inside it. -/
theorem admits_iff_isInside_boundary {requester : ScopeId} (asking : requester ∈ tree.scopeIds) :
    tree.admits decl requester = some true ↔ tree.isInside requester bound = some true := by
  have around := isInside_boundary sound confined declared kept
  rw [admits_of_declared declared]
  cases seen : declaration.visibility with
  | everyone => simp [seen, Visibility.boundary?] at kept
  | insiders =>
    rw [seen, Visibility.boundary?, Option.some.injEq] at kept
    rw [kept, permits]
  | restricted scope =>
    rw [seen, Visibility.boundary?, Option.some.injEq] at kept
    rw [permits_restricted_iff asking, kept]
    exact or_iff_left_of_imp fun inside => sound.isInside_trans inside around

end Boundary

namespace Decides

variable {allowed : ScopeId → Prop}

theorem congr {also : ScopeId → Prop} (decides : tree.Decides scope way allowed bound)
    (same : ∀ requester ∈ tree.scopeIds, also requester ↔ allowed requester) :
    tree.Decides scope way also bound :=
  { decides with
    allows := fun requester asking =>
      (same requester asking).trans (decides.allows requester asking) }

/-- One more declaration on the way: of its boundary and the deepest bound so far, one lies inside
the other. -/
theorem narrow (sound : tree.Sound) (confined : tree.Confined)
    (declared : tree.decl? decl = some declaration)
    (decides : tree.Decides declaration.owner way allowed bound) :
    ∃ deeper, tree.Decides declaration.owner (way ++ [decl])
      (fun requester => allowed requester ∧ tree.admits decl requester = some true) deeper := by
  cases kept : declaration.visibility.boundary? declaration.owner with
  | none =>
    refine ⟨bound, decides.around, fun requester asking => ?_, ?_, fun other bounds => ?_⟩
    · rw [decides.allows requester asking]
      exact and_iff_left (admits_of_boundary_none declared kept requester)
    · exact (bounds_concat_iff declared).mpr (.inl decides.bounds)
    · rw [bounds_concat_iff declared, kept] at bounds
      exact decides.deepest other (bounds.resolve_right (by simp))
  | some limit =>
    have around := isInside_boundary sound confined declared kept
    have admits (requester : ScopeId) (asking : requester ∈ tree.scopeIds) :=
      admits_iff_isInside_boundary sound confined declared kept asking
    rcases sound.isInside_or_isInside decides.around around with inside | inside
    · refine ⟨bound, decides.around, fun requester asking => ?_, ?_, fun other bounds => ?_⟩
      · rw [decides.allows requester asking, admits requester asking]
        exact and_iff_left_of_imp fun within => sound.isInside_trans within inside
      · exact (bounds_concat_iff declared).mpr (.inl decides.bounds)
      · rw [bounds_concat_iff declared, kept] at bounds
        rcases bounds with earlier | last
        · exact decides.deepest other earlier
        · exact Option.some.inj last ▸ inside
    · refine ⟨limit, around, fun requester asking => ?_, ?_, fun other bounds => ?_⟩
      · rw [decides.allows requester asking, admits requester asking]
        exact and_iff_right_of_imp fun within => sound.isInside_trans within inside
      · exact (bounds_concat_iff declared).mpr (.inr kept)
      · rw [bounds_concat_iff declared, kept] at bounds
        rcases bounds with earlier | last
        · exact sound.isInside_trans inside (decides.deepest other earlier)
        · exact Option.some.inj last ▸ isInside_self (sound.ancestor_mem_scopeIds
            (sound.owner_mem_scopeIds declared) around)

end Decides

namespace Sound

variable (sound : tree.Sound)

include sound

/-- By induction along the tree: the way to a module's scope is the way to the module. -/
theorem exists_decides_barrier (confined : tree.Confined) (issued : scope ∈ tree.scopeIds) :
    ∀ here, tree.scope? scope = some here → ∃ bound,
      tree.Decides scope (here.sites.map (·.decl)).reverse
        (fun requester => tree.barrier scope requester = some none) bound := by
  induction issued using sound.scope_induction with
  | root =>
    intro here found
    obtain ⟨again, same, bare⟩ := sound.root
    cases found.symm.trans same
    refine ⟨Tree.root, isInside_self sound.root_mem_scopeIds, fun requester asking => ?_,
      .inl rfl, ?_⟩
    · exact iff_of_true (sound.barrier_root requester) (sound.isInside_root asking)
    · rintro other (rfl | ⟨_, listed, _⟩)
      · exact isInside_self sound.root_mem_scopeIds
      · simp [bare] at listed
  | module declared opens ih =>
    intro here found
    obtain ⟨outer, inner, around, within, sites⟩ := sound.opened declared opens
    cases found.symm.trans within
    obtain ⟨_, decides⟩ := ih outer around
    obtain ⟨bound, deeper⟩ := decides.narrow sound confined declared
    rw [sites, List.map_cons, List.reverse_cons]
    refine ⟨bound, { deeper.congr fun requester asking => ?_ with around := ?_ }⟩
    · exact sound.barrier_child_eq_none_iff asking declared opens
    · exact (sound.isInside_child_iff declared opens).mpr (.inr deeper.around)

theorem exists_decides_mayName (confined : tree.Confined)
    (declared : tree.decl? decl = some declaration) :
    ∃ way bound, tree.wayTo decl = some way ∧ tree.Decides declaration.owner way
      (fun requester => tree.mayName decl requester = some true) bound := by
  obtain ⟨here, issued⟩ := sound.owned declared
  obtain ⟨_, decides⟩ :=
    sound.exists_decides_barrier confined (sound.owner_mem_scopeIds declared) here issued
  obtain ⟨bound, deeper⟩ := decides.narrow sound confined declared
  refine ⟨_, bound, ?_, deeper.congr fun requester _ => mayName_eq_true_iff declared⟩
  simp [wayTo, declared, issued]

theorem namedWithin_of_decides (declared : tree.decl? decl = some declaration)
    (decides : tree.Decides declaration.owner way
      (fun requester => tree.mayName decl requester = some true) bound) :
    tree.NamedWithin decl bound := by
  intro requester asking
  obtain ⟨allowed, known⟩ := sound.exists_mayName (mem_declIds.mpr ⟨_, declared⟩) asking
  obtain ⟨within, inside⟩ := exists_isInside asking bound
  have same := decides.allows requester asking
  rw [known, inside, Option.some.injEq, Option.some.injEq, Bool.eq_iff_iff.symm] at same
  exact ⟨allowed, known, same ▸ inside⟩

/-- No two scopes hold exactly those who may name a declaration: its owner is one of them, so that
each of the two was issued and lies inside the other. -/
theorem namedWithin_unique (declared : tree.decl? decl = some declaration)
    (named : tree.NamedWithin decl bound) (also : tree.NamedWithin decl scope)
    (around : tree.isInside declaration.owner bound = some true) : scope = bound := by
  have allows {holder requester : ScopeId} (within : tree.NamedWithin decl holder)
      (asking : requester ∈ tree.scopeIds) :
      tree.mayName decl requester = some true ↔ tree.isInside requester holder = some true := by
    obtain ⟨allowed, known, inside⟩ := within requester asking
    rw [known, inside]
  have outside := sound.owner_mem_scopeIds declared
  have allowed := (allows named outside).mpr around
  have issued := sound.ancestor_mem_scopeIds outside around
  have other := sound.ancestor_mem_scopeIds outside ((allows also outside).mp allowed)
  refine sound.isInside_antisymm ?_ ?_
  · exact (allows named other).mp ((allows also other).mpr (isInside_self other))
  · exact (allows also issued).mp ((allows named issued).mpr (isInside_self issued))

end Sound

/-- Where restricted declarations are restricted to scopes around them, the audience of a
declaration is the inside of one scope around it: of the deepest bound that is set on the way. -/
theorem audience_is_inside_deepest (grown : tree.Grown) (confined : tree.Confined)
    (declared : tree.decl? decl = some declaration) :
    ∃ way bound, tree.wayTo decl = some way ∧
      tree.isInside declaration.owner bound = some true ∧ tree.NamedWithin decl bound ∧
      (∀ other, tree.NamedWithin decl other → other = bound) ∧ tree.Bounds way bound ∧
      ∀ other, tree.Bounds way other → tree.isInside bound other = some true ∧
        ∃ shallow deep, tree.depth other = some shallow ∧ tree.depth bound = some deep ∧
          shallow ≤ deep := by
  have sound := grown.sound
  obtain ⟨way, bound, led, decides⟩ := sound.exists_decides_mayName confined declared
  have named := sound.namedWithin_of_decides declared decides
  refine ⟨way, bound, led, decides.around, named, fun other also => ?_, decides.bounds,
    fun other bounds => ?_⟩
  · exact sound.namedWithin_unique declared named also decides.around
  · have inside := decides.deepest other bounds
    exact ⟨inside, sound.depth_le_of_isInside inside⟩

/-- `crate::outer::hidden::shared::item`: `hidden` is private, `shared` is restricted to `outer` and
the item to `hidden`. -/
def shared : Tree :=
  build none [(root, "outer", .module, .everyone), (⟨1⟩, "hidden", .module, .insiders),
    (⟨2⟩, "shared", .module, .restricted ⟨1⟩), (⟨3⟩, "item", .value 0, .restricted ⟨2⟩)]

/-- Of the bounds on the way to the item `hidden` is the deepest, so that its inside is the audience
of the item, which `outer` is no part of. -/
theorem item_shared_within_hidden :
    shared.Grown ∧ shared.Confined ∧
      shared.decl? ⟨3⟩ = some ⟨"item", ⟨3⟩, .restricted ⟨2⟩, .value 0⟩ ∧
      shared.NamedWithin ⟨3⟩ ⟨2⟩ ∧ (∀ other, shared.NamedWithin ⟨3⟩ other → other = ⟨2⟩) ∧
      shared.mayName ⟨3⟩ ⟨1⟩ = some false := by
  have grown : shared.Grown := grown_build _ _
  have confined : shared.Confined := by decide +kernel
  have item : shared.decl? ⟨3⟩ = some ⟨"item", ⟨3⟩, .restricted ⟨2⟩, .value 0⟩ := rfl
  obtain ⟨way, bound, led, _, named, unique, _, deepest⟩ :=
    audience_is_inside_deepest grown confined item
  have within : shared.isInside bound ⟨2⟩ = some true := by
    cases (show shared.wayTo ⟨3⟩ = some [⟨0⟩, ⟨1⟩, ⟨2⟩, ⟨3⟩] from rfl).symm.trans led
    exact (deepest ⟨2⟩ (.inr ⟨⟨3⟩, by simp, _, item, rfl⟩)).1
  -- `hidden` may name the item, so that it stands inside the bound as well.
  have back : shared.isInside ⟨2⟩ bound = some true := by
    obtain ⟨allowed, known, inside⟩ := named ⟨2⟩ (by decide +kernel)
    cases (show shared.mayName ⟨3⟩ ⟨2⟩ = some true from rfl).symm.trans known
    exact inside
  cases grown.sound.isInside_antisymm within back
  exact ⟨grown, confined, item, named, unique, rfl⟩

end ScopedNames.Tree
