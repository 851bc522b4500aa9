import ScopedNames.Proofs.Tree.Growth

set_option autoImplicit false

namespace ScopedNames.Tree

theorem mem_scopeIds {tree : Tree} {scope : ScopeId} :
    scope ∈ tree.scopeIds ↔ ∃ here, tree.scope? scope = some here := by
  obtain ⟨index⟩ := scope
  simp [scopeIds, scope?, ← Option.isSome_iff_exists]

theorem mem_declIds {tree : Tree} {decl : DeclId} :
    decl ∈ tree.declIds ↔ ∃ declaration, tree.decl? decl = some declaration := by
  obtain ⟨index⟩ := decl
  simp [declIds, decl?, ← Option.isSome_iff_exists]

/-- What holds of all declarations can be checked one after the other. -/
theorem forall_declared {tree : Tree} {property : Declaration → Prop} :
    (∀ decl declaration, tree.decl? decl = some declaration → property declaration) ↔
      ∀ declaration ∈ tree.decls.toList, property declaration := by
  constructor
  · intro all declaration listed
    obtain ⟨index, inside, rfl⟩ := List.mem_iff_getElem.mp listed
    exact all ⟨index⟩ _ (by simp_all [decl?])
  · intro all decl declaration declared
    exact all declaration (Array.mem_toList_iff.mpr (Array.mem_of_getElem? declared))

theorem ancestors_of_issued {tree : Tree} {scope : ScopeId} {here : Scope}
    (issued : tree.scope? scope = some here) :
    tree.ancestors scope = some (scope :: here.sites.map (·.scope)) := by
  simp only [ancestors, issued, Option.map_some]

theorem isInside_eq_true_iff {tree : Tree} {scope ancestor : ScopeId} {chain : List ScopeId}
    (around : tree.ancestors scope = some chain) :
    tree.isInside scope ancestor = some true ↔ ancestor ∈ chain := by
  simp [isInside, around]

theorem mem_scopeIds_of_isInside {tree : Tree} {scope ancestor : ScopeId} {within : Bool}
    (known : tree.isInside scope ancestor = some within) : scope ∈ tree.scopeIds := by
  obtain ⟨chain, around, _⟩ := Option.map_eq_some_iff.mp known
  obtain ⟨here, issued, _⟩ := Option.map_eq_some_iff.mp around
  exact mem_scopeIds.mpr ⟨here, issued⟩

theorem isInside_self {tree : Tree} {scope : ScopeId} (issued : scope ∈ tree.scopeIds) :
    tree.isInside scope scope = some true := by
  obtain ⟨here, found⟩ := mem_scopeIds.mp issued
  exact (isInside_eq_true_iff (ancestors_of_issued found)).mpr List.mem_cons_self

theorem exists_isInside {tree : Tree} {scope : ScopeId} (issued : scope ∈ tree.scopeIds)
    (ancestor : ScopeId) : ∃ inside, tree.isInside scope ancestor = some inside := by
  obtain ⟨here, found⟩ := mem_scopeIds.mp issued
  exact ⟨_, by rw [isInside, ancestors_of_issued found, Option.map_some]⟩

theorem depth_of_issued {tree : Tree} {scope : ScopeId} {here : Scope}
    (issued : tree.scope? scope = some here) :
    tree.depth scope = some here.sites.length := by
  rw [depth, issued, Option.map_some]

namespace Sound

variable {tree : Tree}

theorem root_mem_scopeIds (sound : tree.Sound) : Tree.root ∈ tree.scopeIds := by
  obtain ⟨here, found, _⟩ := sound.root
  exact mem_scopeIds.mpr ⟨here, found⟩

theorem owner_mem_scopeIds (sound : tree.Sound) {decl : DeclId} {declaration : Declaration}
    (declared : tree.decl? decl = some declaration) : declaration.owner ∈ tree.scopeIds :=
  mem_scopeIds.mpr (sound.owned declared)

theorem child_mem_scopeIds (sound : tree.Sound) {decl : DeclId} {declaration : Declaration}
    {child : ScopeId} (declared : tree.decl? decl = some declaration)
    (module : declaration.child? = some child) : child ∈ tree.scopeIds := by
  obtain ⟨_, inner, _, within, _⟩ := sound.opened declared module
  exact mem_scopeIds.mpr ⟨inner, within⟩

/-- Induction along the sites of a scope, that is, from the root downwards. -/
@[elab_as_elim]
theorem scope_induction (sound : tree.Sound)
    {motive : (scope : ScopeId) → scope ∈ tree.scopeIds → Prop}
    (root : motive Tree.root sound.root_mem_scopeIds)
    (module : ∀ {decl declaration child} (declared : tree.decl? decl = some declaration)
      (opens : declaration.child? = some child),
      motive declaration.owner (sound.owner_mem_scopeIds declared) →
        motive child (sound.child_mem_scopeIds declared opens))
    {scope : ScopeId} (issued : scope ∈ tree.scopeIds) : motive scope issued := by
  obtain ⟨here, found⟩ := mem_scopeIds.mp issued
  generalize enclosed : here.sites = sites
  induction sites generalizing scope here with
  | nil =>
    cases sound.outermost found enclosed
    exact root
  | cons site outer ih =>
    obtain ⟨declaration, declared, _, opens⟩ := sound.inside found enclosed
    obtain ⟨around, inner, there, within, sites⟩ := sound.opened declared opens
    have same : inner = here := Option.some.inj (within.symm.trans found)
    rw [same, enclosed] at sites
    exact module declared opens
      (ih (sound.owner_mem_scopeIds declared) around there (List.cons.inj sites).2.symm)

/-- A scope other than the root is opened by a declaration. -/
theorem exists_opener (sound : tree.Sound) {scope : ScopeId} (issued : scope ∈ tree.scopeIds)
    (below : scope ≠ Tree.root) :
    ∃ decl declaration, tree.decl? decl = some declaration ∧
      declaration.child? = some scope := by
  induction issued using sound.scope_induction with
  | root => exact absurd rfl below
  | module declared opens => exact ⟨_, _, declared, opens⟩

theorem ancestors_root (sound : tree.Sound) : tree.ancestors Tree.root = some [Tree.root] := by
  obtain ⟨here, found, bare⟩ := sound.root
  rw [ancestors_of_issued found, bare, List.map_nil]

theorem isInside_root_iff (sound : tree.Sound) {ancestor : ScopeId} :
    tree.isInside Tree.root ancestor = some true ↔ ancestor = Tree.root := by
  rw [isInside_eq_true_iff sound.ancestors_root, List.mem_singleton]

section Module

variable {decl : DeclId} {declaration : Declaration} {child : ScopeId}

theorem ancestors_child (sound : tree.Sound) (declared : tree.decl? decl = some declaration)
    (opens : declaration.child? = some child) :
    tree.ancestors child = (tree.ancestors declaration.owner).map (child :: ·) := by
  obtain ⟨outer, inner, around, within, sites⟩ := sound.opened declared opens
  rw [ancestors_of_issued around, ancestors_of_issued within, sites, List.map_cons,
    Option.map_some]

theorem depth_child (sound : tree.Sound) (declared : tree.decl? decl = some declaration)
    (opens : declaration.child? = some child) :
    tree.depth child = (tree.depth declaration.owner).map (· + 1) := by
  obtain ⟨outer, inner, around, within, sites⟩ := sound.opened declared opens
  rw [depth_of_issued around, depth_of_issued within, sites, List.length_cons, Option.map_some]

/-- What the scope of a module lies in: itself, and whatever the module is declared in. -/
theorem isInside_child_iff (sound : tree.Sound) (declared : tree.decl? decl = some declaration)
    (opens : declaration.child? = some child) {ancestor : ScopeId} :
    tree.isInside child ancestor = some true ↔
      ancestor = child ∨ tree.isInside declaration.owner ancestor = some true := by
  obtain ⟨outer, around⟩ := sound.owned declared
  have above := ancestors_of_issued around
  have chain := sound.ancestors_child declared opens
  rw [above, Option.map_some] at chain
  rw [isInside_eq_true_iff chain, isInside_eq_true_iff above, List.mem_cons]

theorem segments_child (sound : tree.Sound) (declared : tree.decl? decl = some declaration)
    (opens : declaration.child? = some child) :
    tree.segments child = (tree.segments declaration.owner).map (· ++ [declaration.name]) := by
  obtain ⟨outer, inner, around, within, sites⟩ := sound.opened declared opens
  simp only [segments, around, within, sites, declared, List.mapM_cons, Option.map_some,
    Option.bind_eq_bind, Option.bind_some]
  cases outer.sites.mapM fun site => (tree.decl? site.decl).map (·.name) <;> simp

theorem segments_child_eq_some_iff (sound : tree.Sound)
    (declared : tree.decl? decl = some declaration) (opens : declaration.child? = some child)
    {names : List Name} :
    tree.segments child = some names ↔ ∃ outer,
      tree.segments declaration.owner = some outer ∧ outer ++ [declaration.name] = names := by
  rw [sound.segments_child declared opens, Option.map_eq_some_iff]

/-- No two modules open the same scope. -/
theorem opener_unique (sound : tree.Sound) (declared : tree.decl? decl = some declaration)
    (opens : declaration.child? = some child) {other : DeclId} {rival : Declaration}
    (rivalDeclared : tree.decl? other = some rival) (rivalOpens : rival.child? = some child) :
    other = decl := by
  obtain ⟨_, inner, _, within, sites⟩ := sound.opened declared opens
  obtain ⟨_, again, _, withinAgain, sitesAgain⟩ := sound.opened rivalDeclared rivalOpens
  have same : again = inner := Option.some.inj (withinAgain.symm.trans within)
  rw [same, sites] at sitesAgain
  exact (congrArg Site.decl (List.cons.inj sitesAgain).1).symm

end Module

theorem segments_root (sound : tree.Sound) : tree.segments Tree.root = some [] := by
  obtain ⟨here, found, bare⟩ := sound.root
  simp [segments, found, bare]

theorem exists_ancestors (sound : tree.Sound) {scope : ScopeId}
    (issued : scope ∈ tree.scopeIds) :
    ∃ outer, tree.ancestors scope = some (scope :: outer) ∧
      ∀ ancestor ∈ outer, ancestor ∈ tree.scopeIds := by
  induction issued using sound.scope_induction with
  | root => exact ⟨[], sound.ancestors_root, by simp⟩
  | @module _ declaration _ declared opens ih =>
    obtain ⟨outer, around, inside⟩ := ih
    refine ⟨declaration.owner :: outer, ?_, ?_⟩
    · rw [sound.ancestors_child declared opens, around, Option.map_some]
    · intro ancestor member
      rcases List.mem_cons.mp member with rfl | above
      · exact sound.owner_mem_scopeIds declared
      · exact inside ancestor above

theorem exists_segments (sound : tree.Sound) {scope : ScopeId}
    (issued : scope ∈ tree.scopeIds) : ∃ names, tree.segments scope = some names := by
  induction issued using sound.scope_induction with
  | root => exact ⟨[], sound.segments_root⟩
  | @module _ declaration _ declared opens ih =>
    obtain ⟨names, outer⟩ := ih
    exact ⟨_, (sound.segments_child_eq_some_iff declared opens).mpr ⟨names, outer, rfl⟩⟩

theorem ancestor_mem_scopeIds (sound : tree.Sound) {scope ancestor : ScopeId}
    (issued : scope ∈ tree.scopeIds) (inside : tree.isInside scope ancestor = some true) :
    ancestor ∈ tree.scopeIds := by
  obtain ⟨outer, around, all⟩ := sound.exists_ancestors issued
  rcases List.mem_cons.mp ((isInside_eq_true_iff around).mp inside) with rfl | above
  · exact issued
  · exact all ancestor above

/-- A name leads on where a module of that name is declared. -/
theorem childNamed?_eq_some_iff (sound : tree.Sound) {scope child : ScopeId} {name : Name} :
    tree.childNamed? scope name = some child ↔ ∃ decl declaration,
      tree.decl? decl = some declaration ∧ declaration.owner = scope ∧
        declaration.name = name ∧ declaration.child? = some child := by
  constructor
  · intro named
    obtain ⟨here, found, inside⟩ := Option.bind_eq_some_iff.mp named
    obtain ⟨decl, bound, opened⟩ := Option.bind_eq_some_iff.mp inside
    obtain ⟨declaration, declared, opens⟩ := Option.bind_eq_some_iff.mp opened
    obtain ⟨again, same, owner, called⟩ := (sound.bound found).mp bound
    cases declared.symm.trans same
    exact ⟨decl, declaration, declared, owner, called, opens⟩
  · rintro ⟨decl, declaration, declared, rfl, rfl, opens⟩
    obtain ⟨outer, issued⟩ := sound.owned declared
    have bound := (sound.bound issued).mpr ⟨declaration, declared, rfl, rfl⟩
    simp [childNamed?, issued, bound, declared, opens]

/-- By induction along the names: each is that of a module in the scope before. -/
theorem mem_scopeIds_of_childNamed? (sound : tree.Sound) {names : List Name}
    {first scope : ScopeId} (start : first ∈ tree.scopeIds)
    (led : names.foldlM tree.childNamed? first = some scope) : scope ∈ tree.scopeIds := by
  induction names generalizing first with
  | nil =>
    cases led
    exact start
  | cons name names ih =>
    obtain ⟨child, named, rest⟩ := Option.bind_eq_some_iff.mp led
    obtain ⟨decl, declaration, declared, _, _, opens⟩ := sound.childNamed?_eq_some_iff.mp named
    exact ih (sound.child_mem_scopeIds declared opens) rest

theorem mem_scopeIds_of_scopeAt? (sound : tree.Sound) {names : List Name} {scope : ScopeId}
    (led : tree.scopeAt? names = some scope) : scope ∈ tree.scopeIds :=
  sound.mem_scopeIds_of_childNamed? sound.root_mem_scopeIds led

/-- The segments of a scope lead to it. -/
theorem scopeAt?_of_segments (sound : tree.Sound) {scope : ScopeId} {names : List Name}
    (issued : scope ∈ tree.scopeIds) (named : tree.segments scope = some names) :
    tree.scopeAt? names = some scope := by
  induction issued using sound.scope_induction generalizing names with
  | root =>
    cases sound.segments_root.symm.trans named
    rfl
  | module declared opens ih =>
    obtain ⟨outer, above, rfl⟩ := (sound.segments_child_eq_some_iff declared opens).mp named
    have led := ih above
    rw [scopeAt?] at led ⊢
    have last := sound.childNamed?_eq_some_iff.mpr ⟨_, _, declared, rfl, rfl, opens⟩
    simp [List.foldlM_append, led, last]

/-- No two scopes have the same segments. -/
theorem segments_injective (sound : tree.Sound) {scope other : ScopeId} {names : List Name}
    (issued : scope ∈ tree.scopeIds) (also : other ∈ tree.scopeIds)
    (named : tree.segments scope = some names) (alike : tree.segments other = some names) :
    scope = other :=
  Option.some.inj ((sound.scopeAt?_of_segments issued named).symm.trans
    (sound.scopeAt?_of_segments also alike))

/-- What lies inside the scope of a module lies inside the scope that declares the module. -/
theorem isInside_owner (sound : tree.Sound) {decl : DeclId} {declaration : Declaration}
    {child scope : ScopeId} (declared : tree.decl? decl = some declaration)
    (opens : declaration.child? = some child) (issued : scope ∈ tree.scopeIds)
    (inside : tree.isInside scope child = some true) :
    tree.isInside scope declaration.owner = some true := by
  induction issued using sound.scope_induction with
  | root =>
    cases sound.isInside_root_iff.mp inside
    obtain ⟨root, found, bare⟩ := sound.root
    obtain ⟨_, inner, _, within, sites⟩ := sound.opened declared opens
    rw [found] at within
    rw [← Option.some.inj within, bare] at sites
    cases sites
  | module rivalDeclared rivalOpens ih =>
    refine (sound.isInside_child_iff rivalDeclared rivalOpens).mpr (.inr ?_)
    rcases (sound.isInside_child_iff rivalDeclared rivalOpens).mp inside with rfl | above
    · cases sound.opener_unique declared opens rivalDeclared rivalOpens
      cases declared.symm.trans rivalDeclared
      exact isInside_self (sound.owner_mem_scopeIds declared)
    · exact ih above

end Sound

end ScopedNames.Tree
