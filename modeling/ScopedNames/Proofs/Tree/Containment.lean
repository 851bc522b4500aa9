import ScopedNames.Proofs.Tree.Nesting
import ScopedNames.Tree

set_option autoImplicit false

namespace ScopedNames.Tree

namespace Sound

variable {tree : Tree} (sound : tree.Sound) {scope other : ScopeId} {names outer : List Name}

include sound

/-- By induction along the names: each adds itself to the segments of the scope before. -/
theorem segments_of_childNamed? {first : ScopeId} (named : tree.segments first = some outer)
    (led : names.foldlM tree.childNamed? first = some scope) :
    tree.segments scope = some (outer ++ names) := by
  induction names generalizing first outer with
  | nil =>
    cases led
    rw [named, List.append_nil]
  | cons name names ih =>
    obtain ⟨child, step, rest⟩ := Option.bind_eq_some_iff.mp led
    obtain ⟨decl, declaration, declared, rfl, rfl, opens⟩ :=
      sound.childNamed?_eq_some_iff.mp step
    have inner := (sound.segments_child_eq_some_iff declared opens).mpr ⟨outer, named, rfl⟩
    rw [ih inner rest, List.append_assoc, List.singleton_append]

theorem scopeAt?_eq_some_iff :
    tree.scopeAt? names = some scope ↔
      scope ∈ tree.scopeIds ∧ tree.segments scope = some names := by
  constructor
  · intro led
    exact ⟨sound.mem_scopeIds_of_scopeAt? led,
      sound.segments_of_childNamed? sound.segments_root led⟩
  · rintro ⟨issued, named⟩
    exact sound.scopeAt?_of_segments issued named

theorem depth_of_segments (issued : scope ∈ tree.scopeIds)
    (named : tree.segments scope = some names) : tree.depth scope = some names.length := by
  induction issued using sound.scope_induction generalizing names with
  | root =>
    obtain ⟨here, found, bare⟩ := sound.root
    cases sound.segments_root.symm.trans named
    rw [depth_of_issued found, bare, List.length_nil, List.length_nil]
  | module declared opens ih =>
    obtain ⟨outer, above, rfl⟩ := (sound.segments_child_eq_some_iff declared opens).mp named
    rw [sound.depth_child declared opens, ih above, Option.map_some, List.length_append,
      List.length_singleton]

theorem eq_iff_segments (issued : scope ∈ tree.scopeIds) (also : other ∈ tree.scopeIds)
    (named : tree.segments scope = some names) (alike : tree.segments other = some outer) :
    scope = other ↔ names = outer := by
  constructor
  · rintro rfl
    exact Option.some.inj (named.symm.trans alike)
  · rintro rfl
    exact sound.segments_injective issued also named alike

/-- By induction along the tree: the segments of a module's scope begin as those of the scope around
it do, or else are all its own. -/
theorem isInside_iff_isPrefix (issued : scope ∈ tree.scopeIds) (also : other ∈ tree.scopeIds)
    (named : tree.segments scope = some names) (above : tree.segments other = some outer) :
    tree.isInside scope other = some true ↔ outer <+: names := by
  induction issued using sound.scope_induction generalizing names with
  | root =>
    cases sound.segments_root.symm.trans named
    rw [sound.isInside_root_iff, List.prefix_nil]
    exact sound.eq_iff_segments also sound.root_mem_scopeIds above sound.segments_root
  | @module decl declaration child declared opens ih =>
    obtain ⟨around, there, rfl⟩ := (sound.segments_child_eq_some_iff declared opens).mp named
    rw [sound.isInside_child_iff declared opens, List.prefix_concat_iff, ih there]
    have own := sound.eq_iff_segments also (sound.child_mem_scopeIds declared opens) above named
    exact or_congr_left own

theorem isInside_root (issued : scope ∈ tree.scopeIds) :
    tree.isInside scope Tree.root = some true := by
  obtain ⟨names, named⟩ := sound.exists_segments issued
  exact (sound.isInside_iff_isPrefix issued sound.root_mem_scopeIds named
    sound.segments_root).mpr List.nil_prefix

section Order

variable {inner middle : ScopeId}

theorem isInside_trans (first : tree.isInside inner middle = some true)
    (second : tree.isInside middle other = some true) : tree.isInside inner other = some true := by
  have issued := mem_scopeIds_of_isInside first
  have between := mem_scopeIds_of_isInside second
  have around := sound.ancestor_mem_scopeIds between second
  obtain ⟨names, named⟩ := sound.exists_segments issued
  obtain ⟨shorter, halfway⟩ := sound.exists_segments between
  obtain ⟨outer, above⟩ := sound.exists_segments around
  rw [sound.isInside_iff_isPrefix issued between named halfway] at first
  rw [sound.isInside_iff_isPrefix between around halfway above] at second
  exact (sound.isInside_iff_isPrefix issued around named above).mpr (second.trans first)

theorem isInside_antisymm (inside : tree.isInside inner other = some true)
    (back : tree.isInside other inner = some true) : inner = other := by
  have issued := mem_scopeIds_of_isInside inside
  have around := mem_scopeIds_of_isInside back
  obtain ⟨names, named⟩ := sound.exists_segments issued
  obtain ⟨outer, above⟩ := sound.exists_segments around
  rw [sound.isInside_iff_isPrefix issued around named above] at inside
  rw [sound.isInside_iff_isPrefix around issued above named] at back
  exact (sound.eq_iff_segments issued around named above).mpr
    (back.eq_of_length_le inside.length_le)

/-- Of two scopes around a third one, one lies inside the other. -/
theorem isInside_or_isInside (first : tree.isInside inner middle = some true)
    (second : tree.isInside inner other = some true) :
    tree.isInside middle other = some true ∨ tree.isInside other middle = some true := by
  have issued := mem_scopeIds_of_isInside first
  have here := sound.ancestor_mem_scopeIds issued first
  have there := sound.ancestor_mem_scopeIds issued second
  obtain ⟨names, named⟩ := sound.exists_segments issued
  obtain ⟨left, leftNamed⟩ := sound.exists_segments here
  obtain ⟨right, rightNamed⟩ := sound.exists_segments there
  rw [sound.isInside_iff_isPrefix issued here named leftNamed] at first
  rw [sound.isInside_iff_isPrefix issued there named rightNamed] at second
  rw [sound.isInside_iff_isPrefix here there leftNamed rightNamed,
    sound.isInside_iff_isPrefix there here rightNamed leftNamed]
  exact (List.prefix_or_prefix_of_prefix first second).symm

theorem depth_le_of_isInside (inside : tree.isInside inner other = some true) :
    ∃ shallow deep, tree.depth other = some shallow ∧ tree.depth inner = some deep ∧
      shallow ≤ deep := by
  have issued := mem_scopeIds_of_isInside inside
  have around := sound.ancestor_mem_scopeIds issued inside
  obtain ⟨names, named⟩ := sound.exists_segments issued
  obtain ⟨outer, above⟩ := sound.exists_segments around
  rw [sound.isInside_iff_isPrefix issued around named above] at inside
  exact ⟨_, _, sound.depth_of_segments around above, sound.depth_of_segments issued named,
    inside.length_le⟩

end Order

end Sound

/-- Scopes are found by their segments, and lie in one another as their segments begin one
another. -/
structure OrderedBySegments (tree : Tree) : Prop where
  /-- Names lead to the scope that has them as its segments, and nowhere else. -/
  found : ∀ names scope, tree.scopeAt? names = some scope ↔
    scope ∈ tree.scopeIds ∧ tree.segments scope = some names
  deep : ∀ scope ∈ tree.scopeIds, ∃ names, tree.segments scope = some names ∧
    tree.depth scope = some names.length
  inside : ∀ scope ∈ tree.scopeIds, ∀ other ∈ tree.scopeIds, ∃ names outer within,
    tree.segments scope = some names ∧ tree.segments other = some outer ∧
      tree.isInside scope other = some within ∧ (within = true ↔ outer <+: names)
  refl : ∀ scope ∈ tree.scopeIds, tree.isInside scope scope = some true
  antisymm : ∀ scope ∈ tree.scopeIds, ∀ other ∈ tree.scopeIds,
    tree.isInside scope other = some true → tree.isInside other scope = some true → scope = other
  trans : ∀ inner ∈ tree.scopeIds, ∀ middle ∈ tree.scopeIds, ∀ outer ∈ tree.scopeIds,
    tree.isInside inner middle = some true → tree.isInside middle outer = some true →
      tree.isInside inner outer = some true
  greatest : root ∈ tree.scopeIds ∧
    ∀ scope ∈ tree.scopeIds, tree.isInside scope root = some true

/-- In a tree that was built, whatever the names are, the segments of a scope identify it, are as
many as it lies deep, and begin with the segments of the scopes around it and of no others. -/
theorem segments_order_scopes {tree : Tree} (grown : tree.Grown) : tree.OrderedBySegments := by
  have sound := grown.sound
  constructor
  case found => exact fun names scope => sound.scopeAt?_eq_some_iff
  case deep =>
    intro scope issued
    obtain ⟨names, named⟩ := sound.exists_segments issued
    exact ⟨names, named, sound.depth_of_segments issued named⟩
  case inside =>
    intro scope issued other also
    obtain ⟨names, named⟩ := sound.exists_segments issued
    obtain ⟨outer, above⟩ := sound.exists_segments also
    obtain ⟨within, known⟩ := exists_isInside issued other
    refine ⟨names, outer, within, named, above, known, ?_⟩
    rw [← sound.isInside_iff_isPrefix issued also named above, known, Option.some.injEq]
  case refl => exact fun scope issued => isInside_self issued
  case antisymm => exact fun _ _ _ _ => sound.isInside_antisymm
  case trans => exact fun _ _ _ _ _ _ => sound.isInside_trans
  case greatest => exact ⟨sound.root_mem_scopeIds, fun scope => sound.isInside_root⟩

/-- Modules without a name, and one whose name looks like a path: `crate::` with `crate::::` in it,
and `crate::::` beside them, whose text is the same. -/
def unnamed : Tree :=
  build none [(root, "", .module, .everyone), (⟨1⟩, "", .module, .insiders),
    (root, "::", .module, .everyone)]

/-- However alike their texts are, the two scopes have other segments, are led to by those alone,
and do not lie in one another. -/
theorem unnamed_told_apart :
    unnamed.Grown ∧ unnamed.scopeText ⟨2⟩ = unnamed.scopeText ⟨3⟩ ∧
      (∀ scope, unnamed.scopeAt? ["", ""] = some scope ↔ scope = ⟨2⟩) ∧
      unnamed.isInside ⟨2⟩ ⟨1⟩ = some true ∧ unnamed.isInside ⟨3⟩ ⟨1⟩ = some false := by
  have grown : unnamed.Grown := grown_build _ _
  have ordered := segments_order_scopes grown
  have first : ⟨1⟩ ∈ unnamed.scopeIds := by decide +kernel
  have second : ⟨2⟩ ∈ unnamed.scopeIds := by decide +kernel
  have third : ⟨3⟩ ∈ unnamed.scopeIds := by decide +kernel
  refine ⟨grown, by decide +kernel, fun scope => ?_, ?_, ?_⟩
  · rw [(ordered.found ["", ""] ⟨2⟩).mpr ⟨second, rfl⟩, Option.some.injEq, eq_comm]
  · obtain ⟨names, outer, within, named, above, known, begins⟩ :=
      ordered.inside ⟨2⟩ second ⟨1⟩ first
    cases (show unnamed.segments ⟨2⟩ = some ["", ""] from rfl).symm.trans named
    cases (show unnamed.segments ⟨1⟩ = some [""] from rfl).symm.trans above
    rw [known, begins.mpr (List.prefix_append [""] [""])]
  · obtain ⟨names, outer, within, named, above, known, begins⟩ :=
      ordered.inside ⟨3⟩ third ⟨1⟩ first
    cases (show unnamed.segments ⟨3⟩ = some ["::"] from rfl).symm.trans named
    cases (show unnamed.segments ⟨1⟩ = some [""] from rfl).symm.trans above
    have apart : within ≠ true := fun inside => by simpa using begins.mp inside
    rw [known, Bool.eq_false_iff.mpr apart]

end ScopedNames.Tree
