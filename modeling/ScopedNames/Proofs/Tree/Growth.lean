import ScopedNames.Tree

set_option autoImplicit false

namespace ScopedNames.Tree

/-- The second tree is made of the first by declaring items. A refused declaration makes none. -/
inductive Grows : Tree → Tree → Prop
  | same (tree : Tree) : Grows tree tree
  | declare {first tree next : Tree} {scope : ScopeId} {name : Name} {item : NewItem}
      {visibility : Visibility} {decl : DeclId} (before : Grows first tree)
      (declared : tree.declare scope name item visibility = .ok (decl, next)) : Grows first next

/-- A tree that can be built. -/
def Grown (tree : Tree) : Prop := ∃ externalName, Grows (empty externalName) tree

/-- The tree made by declaring items one after the other. Refused ones are passed over. -/
def build (externalName : Option Name) (items : List (ScopeId × Name × NewItem × Visibility)) :
    Tree :=
  items.foldl (fun tree (scope, name, item, visibility) =>
    match tree.declare scope name item visibility with
    | .ok (_, next) => next
    | .error _ | .stray => tree) (empty externalName)

theorem grown_build (externalName : Option Name)
    (items : List (ScopeId × Name × NewItem × Visibility)) : (build externalName items).Grown := by
  refine List.foldlRecOn (motive := Grown) items _ ⟨externalName, .same _⟩ ?_
  rintro tree ⟨first, grows⟩ ⟨scope, name, item, visibility⟩ _
  refine ⟨first, ?_⟩
  dsimp only
  split
  · rename_i declared
    exact .declare grows declared
  · exact grows
  · exact grows

theorem declare_eq_ok_iff {tree next : Tree} {scope : ScopeId} {name : Name} {item : NewItem}
    {visibility : Visibility} {decl : DeclId} :
    tree.declare scope name item visibility = .ok (decl, next) ↔
      ∃ here, tree.scope? scope = some here ∧ here.items.find? name = none ∧
        tree.nextDecl = decl ∧ tree.insert scope here name item visibility = next := by
  cases issued : tree.scope? scope with
  | none => simp [declare, issued]
  | some here =>
    cases found : here.items.find? name with
    | none => simp [declare, issued, Registry.contains, found]
    | some existing => simp [declare, issued, Registry.contains, found]

/-- What the parts of a tree say of one another. -/
structure Sound (tree : Tree) : Prop where
  root : ∃ here, tree.scope? Tree.root = some here ∧ here.sites = []
  outermost : ∀ {scope here}, tree.scope? scope = some here → here.sites = [] →
    scope = Tree.root
  distinct : ∀ {scope here}, tree.scope? scope = some here → here.items.names.Nodup
  /-- A scope binds the declarations it owns to their names, and nothing else. -/
  bound : ∀ {scope here name decl}, tree.scope? scope = some here →
    (here.items.find? name = some decl ↔ ∃ declaration, tree.decl? decl = some declaration ∧
      declaration.owner = scope ∧ declaration.name = name)
  owned : ∀ {decl declaration}, tree.decl? decl = some declaration →
    ∃ outer, tree.scope? declaration.owner = some outer
  /-- The scope of a module lies in the scope that declares it. -/
  opened : ∀ {decl declaration child}, tree.decl? decl = some declaration →
    declaration.child? = some child → ∃ outer inner, tree.scope? declaration.owner = some outer ∧
      tree.scope? child = some inner ∧ inner.sites = ⟨declaration.owner, decl⟩ :: outer.sites
  /-- A scope that lies in another is the scope of a module declared there. -/
  inside : ∀ {scope here site outer}, tree.scope? scope = some here →
    here.sites = site :: outer → ∃ declaration, tree.decl? site.decl = some declaration ∧
      declaration.owner = site.scope ∧ declaration.child? = some scope

/-- The root is the only scope of an empty tree. -/
theorem scope?_empty_only {externalName : Option Name} {scope : ScopeId} {here : Scope}
    (issued : (empty externalName).scope? scope = some here) :
    scope = root ∧ here = ⟨[], .empty, []⟩ := by
  obtain ⟨index⟩ := scope
  cases index with
  | zero => exact ⟨rfl, (Option.some.inj issued).symm⟩
  | succ index => simp [empty, scope?] at issued

theorem empty_sound (externalName : Option Name) : (empty externalName).Sound := by
  have only {scope : ScopeId} {here : Scope}
      (issued : (empty externalName).scope? scope = some here) := scope?_empty_only issued
  refine ⟨⟨_, scope?_empty_root externalName, rfl⟩, fun issued _ => (only issued).1, ?_, ?_,
    by simp, by simp, ?_⟩
  · intro scope here issued
    simp [(only issued).2, Registry.empty, Registry.names]
  · intro scope here name decl issued
    simp [(only issued).2]
  · intro scope here site outer issued enclosed
    simp [(only issued).2] at enclosed

theorem scope?_nextScope (tree : Tree) : tree.scope? tree.nextScope = none := by
  simp [scope?, nextScope]

theorem decl?_nextDecl (tree : Tree) : tree.decl? tree.nextDecl = none := by
  simp [decl?, nextDecl]

theorem child?_declared {item : NewItem} {name : Name} {owner opened child : ScopeId}
    {visibility : Visibility} :
    (Declaration.mk name owner visibility (item.declared opened)).child? = some child ↔
      item = .module ∧ opened = child := by
  cases item <;> simp [NewItem.declared, Declaration.child?]

section Insert

variable {tree : Tree} {scope : ScopeId} {here : Scope} {name : Name} {item : NewItem}
  {visibility : Visibility}

/-- The scopes after a declaration: the one that holds it, the one it opens, and the others. -/
theorem scope?_insert_cases {other : ScopeId} {found : Scope}
    (issued : tree.scope? scope = some here)
    (present : (tree.insert scope here name item visibility).scope? other = some found) :
    (other = scope ∧ found.sites = here.sites ∧
        found.items = here.items.bind name tree.nextDecl) ∨
      (other = tree.nextScope ∧ found.sites = ⟨scope, tree.nextDecl⟩ :: here.sites ∧
        found.items = .empty ∧ item = .module) ∨
      (other ≠ scope ∧ tree.scope? other = some found) := by
  rw [scope?_insert tree scope here name item visibility other issued] at present
  split at present
  · rename_i same
    cases present
    exact .inl ⟨same, rfl, rfl⟩
  · rename_i apart
    split at present
    · rename_i opened
      cases present
      exact .inr (.inl ⟨opened.1, rfl, rfl, opened.2⟩)
    · exact .inr (.inr ⟨apart, present⟩)

theorem decl?_insert_cases {decl : DeclId} {declaration : Declaration}
    (present : (tree.insert scope here name item visibility).decl? decl = some declaration) :
    (decl = tree.nextDecl ∧
        declaration = ⟨name, scope, visibility, item.declared tree.nextScope⟩) ∨
      tree.decl? decl = some declaration := by
  rw [decl?_insert] at present
  split at present
  · rename_i same
    exact .inl ⟨same, (Option.some.inj present).symm⟩
  · exact .inr present

/-- A scope that was there keeps its sites. -/
theorem scope?_insert_of_issued {other : ScopeId} {found : Scope}
    (issued : tree.scope? scope = some here) (present : tree.scope? other = some found) :
    ∃ kept, (tree.insert scope here name item visibility).scope? other = some kept ∧
      kept.sites = found.sites := by
  have old : other ≠ tree.nextScope := by
    intro same
    rw [same, scope?_nextScope] at present
    cases present
  rw [scope?_insert tree scope here name item visibility other issued]
  by_cases same : other = scope
  · rw [if_pos same]
    rw [same, issued] at present
    cases present
    exact ⟨_, rfl, rfl⟩
  · rw [if_neg same, if_neg (fun opened => old opened.1)]
    exact ⟨found, present, rfl⟩

theorem decl?_insert_of_issued {decl : DeclId} {declaration : Declaration}
    (present : tree.decl? decl = some declaration) :
    (tree.insert scope here name item visibility).decl? decl = some declaration := by
  have old : decl ≠ tree.nextDecl := by
    intro same
    rw [same, decl?_nextDecl] at present
    cases present
  rw [decl?_insert, if_neg old]
  exact present

theorem Sound.insert (sound : tree.Sound) (item : NewItem) (visibility : Visibility)
    (issued : tree.scope? scope = some here) (fresh : here.items.find? name = none) :
    (tree.insert scope here name item visibility).Sound := by
  have added : (tree.insert scope here name item visibility).decl? tree.nextDecl =
      some ⟨name, scope, visibility, item.declared tree.nextScope⟩ := by
    rw [decl?_insert, if_pos rfl]
  constructor
  case root =>
    obtain ⟨root, found, bare⟩ := sound.root
    obtain ⟨kept, present, same⟩ := scope?_insert_of_issued issued found
    exact ⟨kept, present, same.trans bare⟩
  case outermost =>
    intro other found present bare
    rcases scope?_insert_cases issued present with ⟨rfl, sites, _⟩ | ⟨_, sites, _, _⟩ | ⟨_, old⟩
    · exact sound.outermost issued (sites.symm.trans bare)
    · rw [sites] at bare
      cases bare
    · exact sound.outermost old bare
  case distinct =>
    intro other found present
    rcases scope?_insert_cases issued present with ⟨_, _, items⟩ | ⟨_, _, items, _⟩ | ⟨_, old⟩
    · have absent := Registry.find?_eq_none_iff.mp fresh
      rw [items, Registry.names_bind, if_neg absent]
      exact List.nodup_append.mpr ⟨sound.distinct issued, by simp, by grind⟩
    · simp [items, Registry.empty, Registry.names]
    · exact sound.distinct old
  case bound =>
    intro other found bound decl present
    have declared := decl?_insert tree scope here name item visibility decl
    have stray := decl?_nextDecl tree
    have unissued := scope?_nextScope tree
    rcases scope?_insert_cases issued present
      with ⟨rfl, _, items⟩ | ⟨rfl, _, items, _⟩ | ⟨apart, old⟩
    · have before := @sound.bound _ _ bound decl issued
      rw [items, Registry.find?_bind, declared]
      grind
    · have empty : found.items.find? bound = none := by rw [items, Registry.find?_empty]
      have unowned : ∀ declaration, tree.decl? decl = some declaration →
          declaration.owner ≠ tree.nextScope := by
        intro declaration owned same
        obtain ⟨outer, exists_⟩ := sound.owned owned
        rw [same, unissued] at exists_
        cases exists_
      grind
    · rw [sound.bound old, declared]
      grind
  case owned =>
    intro decl declaration present
    rcases decl?_insert_cases present with ⟨_, rfl⟩ | old
    · obtain ⟨kept, there, _⟩ := scope?_insert_of_issued issued issued
      exact ⟨kept, there⟩
    · obtain ⟨outer, found⟩ := sound.owned old
      obtain ⟨kept, there, _⟩ := scope?_insert_of_issued issued found
      exact ⟨kept, there⟩
  case opened =>
    intro decl declaration child present module
    rcases decl?_insert_cases present with ⟨rfl, rfl⟩ | old
    · obtain ⟨rfl, rfl⟩ := child?_declared.mp module
      obtain ⟨kept, there, same⟩ := scope?_insert_of_issued issued issued
      refine ⟨kept, ⟨⟨scope, tree.nextDecl⟩ :: here.sites, .empty, []⟩, there, ?_, ?_⟩
      · have apart : tree.nextScope ≠ scope := by
          intro same
          rw [← same, scope?_nextScope] at issued
          cases issued
        rw [scope?_insert tree scope here name .module visibility _ issued, if_neg apart,
          if_pos ⟨rfl, rfl⟩]
      · rw [same]
    · obtain ⟨outer, inner, around, within, sites⟩ := sound.opened old module
      obtain ⟨keptOuter, thereOuter, sameOuter⟩ := scope?_insert_of_issued issued around
      obtain ⟨keptInner, thereInner, sameInner⟩ := scope?_insert_of_issued issued within
      exact ⟨keptOuter, keptInner, thereOuter, thereInner, by rw [sameInner, sameOuter, sites]⟩
  case inside =>
    intro other found site outer present enclosed
    rcases scope?_insert_cases issued present with
      ⟨rfl, sites, _⟩ | ⟨rfl, sites, _, rfl⟩ | ⟨_, old⟩
    · obtain ⟨declaration, declared, within⟩ := sound.inside issued (sites.symm.trans enclosed)
      exact ⟨declaration, decl?_insert_of_issued declared, within⟩
    · cases sites.symm.trans enclosed
      exact ⟨_, added, rfl, rfl⟩
    · obtain ⟨declaration, declared, within⟩ := sound.inside old enclosed
      exact ⟨declaration, decl?_insert_of_issued declared, within⟩

end Insert

theorem Grows.sound {first tree : Tree} (grows : Grows first tree) (start : first.Sound) :
    tree.Sound := by
  induction grows with
  | same => exact start
  | declare before declared ih =>
    obtain ⟨here, issued, fresh, _, rfl⟩ := declare_eq_ok_iff.mp declared
    exact ih.insert _ _ issued fresh

theorem Grown.sound {tree : Tree} (grown : tree.Grown) : tree.Sound := by
  obtain ⟨externalName, grows⟩ := grown
  exact grows.sound (empty_sound externalName)

end ScopedNames.Tree
