import ScopedNames.Proofs.Tree.Nesting

set_option autoImplicit false

namespace ScopedNames

/-- A call to declare an item, or a module whose scope is asked for. -/
inductive DeclareStep where
  | declare (scope : ScopeId) (name : Name) (item : NewItem) (visibility : Visibility)
  | declareScope (scope : ScopeId) (name : Name) (visibility : Visibility)
  deriving DecidableEq, Repr

namespace DeclareStep

def scope : DeclareStep → ScopeId
  | .declare scope _ _ _ | .declareScope scope _ _ => scope

def name : DeclareStep → Name
  | .declare _ name _ _ | .declareScope _ name _ => name

def item : DeclareStep → NewItem
  | .declare _ _ item _ => item
  | .declareScope _ _ _ => .module

def visibility : DeclareStep → Visibility
  | .declare _ _ _ visibility | .declareScope _ _ visibility => visibility

end DeclareStep

namespace Tree

def take (tree : Tree) : DeclareStep → Outcome DuplicateName Tree
  | .declare scope name item visibility => do
    let (_, next) ← tree.declare scope name item visibility
    return next
  | .declareScope scope name visibility => do
    let (_, next) ← tree.declareScope scope name visibility
    return next

/-- Takes a step and leaves the tree as it is if it fails. -/
def attempt (tree : Tree) (step : DeclareStep) : Tree :=
  match tree.take step with
  | .ok next => next
  | .error _ | .stray => tree

/-- The tree made by steps of which any may fail. -/
def grow (externalName : Option Name) (steps : List DeclareStep) : Tree :=
  steps.foldl attempt (empty externalName)

theorem grow_concat (externalName : Option Name) (steps : List DeclareStep) (step : DeclareStep) :
    grow externalName (steps ++ [step]) = (grow externalName steps).attempt step := by
  simp [grow]

/-- Both calls declare an item; they only differ in the id they answer. -/
theorem take_eq (tree : Tree) (step : DeclareStep) :
    tree.take step = do
      let (_, next) ← tree.declare step.scope step.name step.item step.visibility
      return next := by
  cases step with
  | declare scope name item visibility => rfl
  | declareScope scope name visibility => exact bind_assoc _ _ _

theorem take_eq_ok_iff {tree next : Tree} {step : DeclareStep} :
    tree.take step = .ok next ↔
      ∃ decl, tree.declare step.scope step.name step.item step.visibility = .ok (decl, next) := by
  rw [take_eq, Outcome.bind_eq_ok]
  simp

theorem Grows.attempt {first tree : Tree} (grows : Grows first tree) (step : DeclareStep) :
    Grows first (tree.attempt step) := by
  rw [Tree.attempt]
  cases taken : tree.take step with
  | ok next =>
    obtain ⟨decl, declared⟩ := take_eq_ok_iff.mp taken
    exact .declare grows declared
  | error reason => exact grows
  | stray => exact grows

/-- The trees that can be built are those that steps make of an empty one. -/
theorem grown_iff_grow {tree : Tree} :
    tree.Grown ↔ ∃ externalName steps, grow externalName steps = tree := by
  constructor
  · rintro ⟨externalName, grows⟩
    refine ⟨externalName, ?_⟩
    induction grows with
    | same => exact ⟨[], rfl⟩
    | @declare tree next scope name item visibility decl _ declared ih =>
      obtain ⟨steps, rfl⟩ := ih
      refine ⟨steps ++ [.declare scope name item visibility], ?_⟩
      rw [grow_concat, attempt, take_eq_ok_iff.mpr ⟨decl, declared⟩]
  · rintro ⟨externalName, steps, rfl⟩
    refine ⟨externalName, ?_⟩
    exact List.foldlRecOn steps _ (.same _) fun _ grows step _ => grows.attempt step

/-- What a step that succeeds adds to a tree. All else stays as it was. -/
structure Adds (tree : Tree) (step : DeclareStep) (next : Tree) : Prop where
  answer : tree.declare step.scope step.name step.item step.visibility =
    .ok (tree.nextDecl, next)
  answerScope : step.item = .module →
    tree.declareScope step.scope step.name step.visibility = .ok (tree.nextScope, next)
  decls : next.decls =
    tree.decls.push ⟨step.name, step.scope, step.visibility, step.item.declared tree.nextScope⟩
  size : next.scopes.size = tree.scopes.size + if step.item = .module then 1 else 0
  externalName : next.externalName = tree.externalName
  holder : ∀ here, tree.scope? step.scope = some here → next.scope? step.scope = some
    ⟨here.sites, ⟨here.items.entries ++ [(step.name, tree.nextDecl)]⟩,
      here.children ++ if step.item = .module then [tree.nextScope] else []⟩
  opened : step.item = .module → ∀ here, tree.scope? step.scope = some here →
    next.scope? tree.nextScope = some ⟨⟨step.scope, tree.nextDecl⟩ :: here.sites, .empty, []⟩
  others : ∀ other ∈ tree.scopeIds, other ≠ step.scope → next.scope? other = tree.scope? other

/-- What becomes of a tree by a step: the next tree is the same one unless the step succeeds. -/
inductive Takes (tree : Tree) (step : DeclareStep) : Tree → Prop
  | stray (absent : step.scope ∉ tree.scopeIds) (failed : tree.take step = .stray) :
    Takes tree step tree
  | refused {decl : DeclId} (bound : tree.local? step.scope step.name = some (some decl))
    (failed : tree.take step = .error ⟨step.name, step.scope⟩) : Takes tree step tree
  | added {next : Tree} (free : tree.local? step.scope step.name = some none)
    (taken : tree.take step = .ok next) (adds : tree.Adds step next) : Takes tree step next

theorem ne_nextScope_of_issued {tree : Tree} {other : ScopeId} {found : Scope}
    (present : tree.scope? other = some found) : other ≠ tree.nextScope := by
  intro same
  rw [same, scope?_nextScope] at present
  cases present

theorem size_insert (tree : Tree) (scope : ScopeId) (here : Scope) (name : Name) (item : NewItem)
    (visibility : Visibility) :
    (tree.insert scope here name item visibility).scopes.size =
      tree.scopes.size + if item = .module then 1 else 0 := by
  cases item <;> simp [Tree.insert, NewItem.declared, Declaration.child?]

/-- A step at a scope of the tree adds an item unless the scope declares the name already. -/
theorem adds_of_absent {tree : Tree} {step : DeclareStep} {here : Scope}
    (issued : tree.scope? step.scope = some here)
    (fresh : here.items.find? step.name = none) :
    ∃ next, tree.take step = .ok next ∧ tree.Adds step next := by
  let next := tree.insert step.scope here step.name step.item step.visibility
  have declared : tree.declare step.scope step.name step.item step.visibility =
      .ok (tree.nextDecl, next) := declare_eq_ok_iff.mpr ⟨here, issued, fresh, rfl, rfl⟩
  have found (other : ScopeId) :=
    scope?_insert tree step.scope here step.name step.item step.visibility other issued
  refine ⟨next, take_eq_ok_iff.mpr ⟨_, declared⟩, declared, ?_, rfl, ?_, rfl, ?_, ?_, ?_⟩
  · intro opens
    rw [opens] at declared
    rw [declareScope, declared]
    rfl
  · exact size_insert tree step.scope here step.name step.item step.visibility
  · intro again same
    cases issued.symm.trans same
    rw [found, if_pos rfl, Registry.bind_of_absent fresh]
  · intro opens again same
    cases issued.symm.trans same
    rw [found, if_neg (ne_nextScope_of_issued issued).symm, if_pos ⟨rfl, opens⟩]
  · intro other listed apart
    obtain ⟨kept, present⟩ := mem_scopeIds.mp listed
    rw [found, if_neg apart, if_neg fun opened => ne_nextScope_of_issued present opened.1]

theorem take_of_present {tree : Tree} {step : DeclareStep} {here : Scope} {decl : DeclId}
    (issued : tree.scope? step.scope = some here)
    (bound : here.items.find? step.name = some decl) :
    tree.take step = .error ⟨step.name, step.scope⟩ := by
  rw [take_eq, declare, issued]
  simp [Registry.contains, bound]

theorem take_of_stray {tree : Tree} {step : DeclareStep}
    (stray : tree.scope? step.scope = none) : tree.take step = .stray := by
  rw [take_eq, declare, stray]
  rfl

theorem takes_attempt (tree : Tree) (step : DeclareStep) : tree.Takes step (tree.attempt step) := by
  rw [attempt]
  cases issued : tree.scope? step.scope with
  | none =>
    have absent : step.scope ∉ tree.scopeIds := by
      intro listed
      obtain ⟨here, present⟩ := mem_scopeIds.mp listed
      cases issued.symm.trans present
    rw [take_of_stray issued]
    exact .stray absent (take_of_stray issued)
  | some here =>
    have looked := local?_of_issued issued step.name
    cases bound : here.items.find? step.name with
    | some decl =>
      rw [take_of_present issued bound]
      exact .refused (looked.trans (congrArg some bound)) (take_of_present issued bound)
    | none =>
      obtain ⟨next, taken, adds⟩ := adds_of_absent issued bound
      rw [taken]
      exact .added (looked.trans (congrArg some bound)) taken adds

/-- Everything links to what links back to it, and is listed in the order of its ids. -/
structure Linked (tree : Tree) : Prop where
  root : tree.parent? root = some none ∧ tree.namingDecl? root = some none
  /-- Any other scope is that of a module, declared in a scope that is older. -/
  nested : ∀ scope ∈ tree.scopeIds, scope ≠ Tree.root → ∃ outer decl declaration,
    tree.parent? scope = some (some outer) ∧ outer.index < scope.index ∧
      tree.namingDecl? scope = some (some decl) ∧ tree.decl? decl = some declaration ∧
      declaration.item = .module scope ∧ declaration.owner = outer
  children : ∀ scope here, tree.scope? scope = some here →
    here.children.Pairwise (·.index < ·.index) ∧
      ∀ child, child ∈ here.children ↔ tree.parent? child = some (some scope)
  owned : ∀ decl declaration, tree.decl? decl = some declaration →
    declaration.owner ∈ tree.scopeIds
  /-- A table binds the declarations that its scope owns, each to its name, and nothing else. -/
  bound : ∀ scope here, tree.scope? scope = some here →
    here.items.names.Nodup ∧ here.items.values.Pairwise (·.index < ·.index) ∧
      ∀ name decl, (name, decl) ∈ here.items.entries ↔ ∃ declaration,
        tree.decl? decl = some declaration ∧ declaration.owner = scope ∧ declaration.name = name
  opener : ∀ decl declaration other rival child, tree.decl? decl = some declaration →
    tree.decl? other = some rival → declaration.item = .module child →
      rival.item = .module child → other = decl

section Insert

variable {tree : Tree} {scope : ScopeId} {here : Scope} {name : Name} {item : NewItem}
  {visibility : Visibility}

/-- A declaration gives a parent to the scope it opens, and to no other. -/
theorem parent?_insert (issued : tree.scope? scope = some here) (other : ScopeId) :
    (tree.insert scope here name item visibility).parent? other =
      if other = tree.nextScope ∧ item = .module then some (some scope)
      else tree.parent? other := by
  have apart := ne_nextScope_of_issued issued
  rw [parent?, scope?_insert tree scope here name item visibility other issued]
  by_cases same : other = scope
  · subst same
    simp [parent?, issued, apart]
  · rw [if_neg same]
    split
    · rfl
    · rfl

/-- What a declaration makes of the children of a scope. -/
theorem children_insert_cases {other : ScopeId} {found : Scope}
    (issued : tree.scope? scope = some here)
    (present : (tree.insert scope here name item visibility).scope? other = some found) :
    (other = scope ∧ found.children =
        here.children ++ if item = .module then [tree.nextScope] else []) ∨
      (other = tree.nextScope ∧ found.children = []) ∨
      (other ≠ scope ∧ tree.scope? other = some found) := by
  rw [scope?_insert tree scope here name item visibility other issued] at present
  split at present
  · rename_i same
    cases present
    exact .inl ⟨same, rfl⟩
  · rename_i apart
    split at present
    · rename_i opened
      cases present
      exact .inr (.inl ⟨opened.1, rfl⟩)
    · exact .inr (.inr ⟨apart, present⟩)

end Insert

theorem parent?_nextScope (tree : Tree) : tree.parent? tree.nextScope = none := by
  rw [parent?, scope?_nextScope, Option.map_none]

/-- A tree lists things in the order of their ids. -/
structure Ordered (tree : Tree) : Prop where
  outer : ∀ {scope outer}, tree.parent? scope = some (some outer) → outer.index < scope.index
  children : ∀ {scope here}, tree.scope? scope = some here →
    here.children.Pairwise (·.index < ·.index)
  mem_children : ∀ {scope here}, tree.scope? scope = some here →
    ∀ child, child ∈ here.children ↔ tree.parent? child = some (some scope)
  decls : ∀ {scope here}, tree.scope? scope = some here →
    here.items.values.Pairwise (·.index < ·.index)

theorem index_lt_of_parent? {tree : Tree} {scope : ScopeId} {outer : Option ScopeId}
    (around : tree.parent? scope = some outer) : scope.index < tree.scopes.size := by
  obtain ⟨here, issued, _⟩ := Option.map_eq_some_iff.mp around
  exact index_lt_of_scope? issued

theorem empty_ordered (externalName : Option Name) : (empty externalName).Ordered := by
  have bare (scope outer : ScopeId) : (empty externalName).parent? scope ≠ some (some outer) := by
    intro around
    obtain ⟨here, issued, nested⟩ := Option.map_eq_some_iff.mp around
    simp [(scope?_empty_only issued).2] at nested
  refine ⟨fun around => absurd around (bare _ _), fun issued => ?_, fun issued child => ?_,
    fun issued => ?_⟩
  · simp [(scope?_empty_only issued).2]
  · simp [(scope?_empty_only issued).2, bare]
  · simp [(scope?_empty_only issued).2, Registry.empty, Registry.values]

namespace Ordered

variable {tree : Tree} {scope : ScopeId} {here : Scope} {name : Name}

/-- The children of a scope after a declaration in it: a new one has the largest id. -/
theorem children_append (ordered : tree.Ordered) (issued : tree.scope? scope = some here)
    (item : NewItem) :
    (here.children ++ if item = .module then [tree.nextScope] else []).Pairwise
      (·.index < ·.index) := by
  by_cases opens : item = .module
  · rw [if_pos opens]
    refine List.pairwise_append.mpr
      ⟨ordered.children issued, List.pairwise_singleton _ _, fun child listed opened same => ?_⟩
    rw [List.mem_singleton.mp same]
    exact index_lt_of_parent? ((ordered.mem_children issued child).mp listed)
  · rw [if_neg opens, List.append_nil]
    exact ordered.children issued

theorem values_bind (ordered : tree.Ordered) (sound : tree.Sound)
    (issued : tree.scope? scope = some here) (fresh : here.items.find? name = none) :
    (here.items.bind name tree.nextDecl).values.Pairwise (·.index < ·.index) := by
  rw [Registry.bind_of_absent fresh, Registry.values, List.map_append]
  refine List.pairwise_append.mpr
    ⟨ordered.decls issued, List.pairwise_singleton _ _, fun decl listed new same => ?_⟩
  obtain ⟨⟨known, _⟩, bound, rfl⟩ := List.mem_map.mp listed
  have found := Registry.find?_of_mem (sound.distinct issued) bound
  obtain ⟨declaration, declared, _⟩ := (sound.bound issued).mp found
  rw [List.mem_singleton.mp same]
  exact index_lt_of_decl? declared

theorem insert (ordered : tree.Ordered) (sound : tree.Sound) (item : NewItem)
    (visibility : Visibility) (issued : tree.scope? scope = some here)
    (fresh : here.items.find? name = none) :
    (tree.insert scope here name item visibility).Ordered := by
  have apart := ne_nextScope_of_issued issued
  constructor
  case outer =>
    intro other outer around
    rw [parent?_insert issued] at around
    split at around
    · rename_i opened
      cases around
      rw [opened.1]
      exact index_lt_of_scope? issued
    · exact ordered.outer around
  case children =>
    intro other found present
    rcases children_insert_cases issued present with ⟨_, listed⟩ | ⟨_, listed⟩ | ⟨_, old⟩
    · rw [listed]
      exact ordered.children_append issued item
    · rw [listed]
      exact .nil
    · exact ordered.children old
  case mem_children =>
    intro other found present child
    rw [parent?_insert issued]
    have unborn : tree.parent? tree.nextScope = none := parent?_nextScope tree
    rcases children_insert_cases issued present with ⟨rfl, listed⟩ | ⟨rfl, listed⟩ | ⟨_, old⟩
    · have before := ordered.mem_children issued child
      rw [listed, List.mem_append, before]
      grind
    · have childless : tree.parent? child ≠ some (some tree.nextScope) := by
        intro around
        have younger := ordered.outer around
        have older := index_lt_of_parent? around
        have last : tree.nextScope.index = tree.scopes.size := rfl
        omega
      rw [listed]
      grind
    · have before := ordered.mem_children old child
      grind
  case decls =>
    intro other found present
    rcases scope?_insert_cases issued present with ⟨_, _, items⟩ | ⟨_, _, items, _⟩ | ⟨_, old⟩
    · rw [items]
      exact ordered.values_bind sound issued fresh
    · rw [items]
      exact .nil
    · exact ordered.decls old

end Ordered

theorem Grows.ordered {first tree : Tree} (grows : Grows first tree) (sound : first.Sound)
    (ordered : first.Ordered) : tree.Ordered := by
  induction grows with
  | same => exact ordered
  | declare before declared ih =>
    obtain ⟨here, issued, fresh, _, rfl⟩ := declare_eq_ok_iff.mp declared
    exact ih.insert (before.sound sound) _ _ issued fresh

theorem Grown.ordered {tree : Tree} (grown : tree.Grown) : tree.Ordered := by
  obtain ⟨externalName, grows⟩ := grown
  exact grows.ordered (empty_sound externalName) (empty_ordered externalName)

theorem child?_eq_some_iff {declaration : Declaration} {child : ScopeId} :
    declaration.child? = some child ↔ declaration.item = .module child := by
  obtain ⟨name, owner, visibility, item⟩ := declaration
  cases item <;> simp [Declaration.child?]

/-- What links the parts of a tree follows from what the parts say of one another and from the order
in which ids are given out. -/
theorem linked_of_ordered {tree : Tree} (sound : tree.Sound) (ordered : tree.Ordered) :
    tree.Linked := by
  constructor
  case root =>
    obtain ⟨here, issued, bare⟩ := sound.root
    constructor
    · rw [parent?, issued, Option.map_some, bare, List.head?_nil, Option.map_none]
    · rw [namingDecl?, issued, Option.map_some, bare, List.head?_nil, Option.map_none]
  case nested =>
    intro scope listed below
    obtain ⟨here, issued⟩ := mem_scopeIds.mp listed
    cases enclosed : here.sites with
    | nil => exact absurd (sound.outermost issued enclosed) below
    | cons site outer =>
      obtain ⟨declaration, declared, owner, opens⟩ := sound.inside issued enclosed
      have around : tree.parent? scope = some (some site.scope) := by
        rw [parent?, issued, Option.map_some, enclosed, List.head?_cons, Option.map_some]
      have naming : tree.namingDecl? scope = some (some site.decl) := by
        rw [namingDecl?, issued, Option.map_some, enclosed, List.head?_cons, Option.map_some]
      exact ⟨site.scope, site.decl, declaration, around, ordered.outer around, naming, declared,
        child?_eq_some_iff.mp opens, owner⟩
  case children =>
    intro scope here issued
    exact ⟨ordered.children issued, ordered.mem_children issued⟩
  case owned =>
    intro decl declaration declared
    exact sound.owner_mem_scopeIds declared
  case bound =>
    intro scope here issued
    refine ⟨sound.distinct issued, ordered.decls issued, fun name decl => ?_⟩
    rw [← sound.bound issued]
    exact ⟨Registry.find?_of_mem (sound.distinct issued), Registry.mem_of_find?⟩
  case opener =>
    intro decl declaration other rival child declared rivalDeclared opens rivalOpens
    exact sound.opener_unique declared (child?_eq_some_iff.mpr opens) rivalDeclared
      (child?_eq_some_iff.mpr rivalOpens)

/-- Whatever was declared before, refused or asked for in a scope that does not exist, the tree is
linked. One more step changes nothing if it fails, as it does where the name is declared already;
otherwise it adds one declaration, and one scope if that is a module. -/
theorem grown_trees_linked (externalName : Option Name) (steps : List DeclareStep) :
    (grow externalName steps).Linked ∧
      ∀ step, (grow externalName steps).Takes step (grow externalName (steps ++ [step])) := by
  have grown : (grow externalName steps).Grown := grown_iff_grow.mpr ⟨externalName, steps, rfl⟩
  refine ⟨linked_of_ordered grown.sound grown.ordered, fun step => ?_⟩
  rw [grow_concat]
  exact takes_attempt _ step

/-- A module and an item cannot share a name, and the refused one leaves no trace. -/
example : grow none [.declareScope root "a" .everyone, .declare root "a" (.type 0) .insiders] =
    grow none [.declareScope root "a" .everyone] := by decide +kernel

end Tree

end ScopedNames
