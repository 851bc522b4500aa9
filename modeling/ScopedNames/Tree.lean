import ScopedNames.Outcome
import ScopedNames.Path
import ScopedNames.Registry

set_option autoImplicit false

/- The tree of scopes. Every scope holds the items declared in it, and each module among them has a
scope of its own. Scopes and declarations are numbered in the order in which they are made; a
number the tree has not issued finds nothing. Declaring is the only way to change a tree. -/
namespace ScopedNames

/-- The number of a scope. In use the numbers of scopes and of declarations have 32 bits: what is
said of trees here holds of the program as long as a tree has issued fewer than `2 ^ 32` of each. -/
structure ScopeId where
  index : Nat
  deriving DecidableEq, Repr

/-- The number of a declaration, within the same bound. -/
structure DeclId where
  index : Nat
  deriving DecidableEq, Repr

def ScopeId.text (scope : ScopeId) : String := s!"scope#{scope.index}"

def DeclId.text (decl : DeclId) : String := s!"decl#{decl.index}"

/-- Who may name a declaration, besides whoever stands inside the scope that holds it. -/
inductive Visibility where
  /-- Nobody else. -/
  | insiders
  | everyone
  /-- Whoever stands inside the given scope. -/
  | restricted (scope : ScopeId)
  deriving DecidableEq, Repr

def Visibility.text : Visibility → String
  | .insiders => "private"
  | .everyone => "public"
  | .restricted _ => "restricted"

/-- What is to be declared. The payload is the business of whoever declares it. -/
inductive NewItem where
  | value (payload : UInt32)
  | type (payload : UInt32)
  | module
  deriving DecidableEq, Repr

/-- What was declared: a module now has its scope. -/
inductive Item where
  | value (payload : UInt32)
  | type (payload : UInt32)
  | module (scope : ScopeId)
  deriving DecidableEq, Repr

/-- What an item is once it is declared, where `scope` is the scope to be opened for a module. -/
def NewItem.declared (item : NewItem) (scope : ScopeId) : Item :=
  match item with
  | .value payload => .value payload
  | .type payload => .type payload
  | .module => .module scope

def Item.text : Item → String
  | .value _ => "value"
  | .type _ => "type"
  | .module _ => "module"

structure Declaration where
  name : Name
  /-- The scope that holds the declaration. -/
  owner : ScopeId
  visibility : Visibility
  item : Item
  deriving DecidableEq, Repr

/-- The scope of a declared module. -/
def Declaration.child? (declaration : Declaration) : Option ScopeId :=
  match declaration.item with
  | .module scope => some scope
  | .value _ | .type _ => none

/-- Where a module is declared: the scope that holds it and its declaration there. -/
structure Site where
  scope : ScopeId
  decl : DeclId
  deriving DecidableEq, Repr

structure Scope where
  /-- Where the module of this scope is declared, where the module around that one is, and so on
  up to the root, which is declared nowhere. -/
  sites : List Site
  /-- The items declared here, in the order of their declarations. -/
  items : Registry DeclId
  /-- The scopes of the modules declared here. -/
  children : List ScopeId
  deriving DecidableEq, Repr

structure Tree where
  scopes : Array Scope
  decls : Array Declaration
  /-- The name by which other trees call this one. -/
  externalName : Option Name
  deriving DecidableEq, Repr

/-- A name was to be declared where it is declared already. -/
structure DuplicateName where
  name : Name
  scope : ScopeId
  deriving DecidableEq, Repr

def DuplicateName.message (error : DuplicateName) : String :=
  s!"`{error.name}` is declared more than once in {error.scope.text}"

namespace Tree

def root : ScopeId := ⟨0⟩

/-- A tree with an empty root. -/
def empty (externalName : Option Name) : Tree := ⟨#[⟨[], .empty, []⟩], #[], externalName⟩

def scope? (tree : Tree) (scope : ScopeId) : Option Scope := tree.scopes[scope.index]?

def decl? (tree : Tree) (decl : DeclId) : Option Declaration := tree.decls[decl.index]?

/-- The ids issued to scopes, in the order of issue. -/
def scopeIds (tree : Tree) : List ScopeId := (List.range tree.scopes.size).map ScopeId.mk

def declIds (tree : Tree) : List DeclId := (List.range tree.decls.size).map DeclId.mk

/-- The next ids to be issued. -/
def nextScope (tree : Tree) : ScopeId := ⟨tree.scopes.size⟩

def nextDecl (tree : Tree) : DeclId := ⟨tree.decls.size⟩

/-- The tree with one more declaration, in a scope that has no item of that name yet. -/
def insert (tree : Tree) (scope : ScopeId) (here : Scope) (name : Name) (item : NewItem)
    (visibility : Visibility) : Tree :=
  let decl := tree.nextDecl
  let declaration : Declaration := ⟨name, scope, visibility, item.declared tree.nextScope⟩
  let opened := declaration.child?.toList
  let grown : Scope :=
    { here with
      items := here.items.bind name decl
      children := here.children ++ opened }
  { tree with
    scopes := tree.scopes.setIfInBounds scope.index grown ++
      (opened.map fun _ => ⟨⟨scope, decl⟩ :: here.sites, .empty, []⟩).toArray
    decls := tree.decls.push declaration }

/-- Declares an item. A module also gets an empty scope. -/
def declare (tree : Tree) (scope : ScopeId) (name : Name) (item : NewItem)
    (visibility : Visibility) : Outcome DuplicateName (DeclId × Tree) := do
  let here ← tree.scope? scope
  if here.items.contains name then .error ⟨name, scope⟩
  else return (tree.nextDecl, tree.insert scope here name item visibility)

/-- Declares a module and gives its scope. -/
def declareScope (tree : Tree) (scope : ScopeId) (name : Name) (visibility : Visibility) :
    Outcome DuplicateName (ScopeId × Tree) := do
  let (_, grown) ← tree.declare scope name .module visibility
  return (tree.nextScope, grown)

@[simp] theorem scope?_empty_root (externalName : Option Name) :
    (empty externalName).scope? root = some ⟨[], .empty, []⟩ := rfl

@[simp] theorem decl?_empty (externalName : Option Name) (decl : DeclId) :
    (empty externalName).decl? decl = none := by
  simp [empty, decl?]

theorem index_lt_of_scope? {tree : Tree} {scope : ScopeId} {here : Scope}
    (issued : tree.scope? scope = some here) : scope.index < tree.scopes.size :=
  (Array.getElem?_eq_some_iff.mp issued).1

theorem index_lt_of_decl? {tree : Tree} {decl : DeclId} {declaration : Declaration}
    (issued : tree.decl? decl = some declaration) : decl.index < tree.decls.size :=
  (Array.getElem?_eq_some_iff.mp issued).1

theorem decl?_insert (tree : Tree) (scope : ScopeId) (here : Scope) (name : Name) (item : NewItem)
    (visibility : Visibility) (decl : DeclId) :
    (tree.insert scope here name item visibility).decl? decl =
      if decl = tree.nextDecl then some ⟨name, scope, visibility, item.declared tree.nextScope⟩
      else tree.decl? decl := by
  obtain ⟨index⟩ := decl
  simp [insert, decl?, nextDecl, Array.getElem?_push]

theorem scope?_insert (tree : Tree) (scope : ScopeId) (here : Scope) (name : Name) (item : NewItem)
    (visibility : Visibility) (other : ScopeId) (issued : tree.scope? scope = some here) :
    (tree.insert scope here name item visibility).scope? other =
      if other = scope then
        some ⟨here.sites, here.items.bind name tree.nextDecl,
          here.children ++ if item = .module then [tree.nextScope] else []⟩
      else if other = tree.nextScope ∧ item = .module then
        some ⟨⟨scope, tree.nextDecl⟩ :: here.sites, .empty, []⟩
      else tree.scope? other := by
  have inside := index_lt_of_scope? issued
  obtain ⟨index⟩ := scope
  obtain ⟨position⟩ := other
  cases item <;>
    simp [insert, scope?, NewItem.declared, Declaration.child?, nextScope, nextDecl] at * <;> grind

def parent? (tree : Tree) (scope : ScopeId) : Option (Option ScopeId) :=
  (tree.scope? scope).map fun here => here.sites.head?.map (·.scope)

/-- The declaration of the module whose scope this is. The root has none. -/
def namingDecl? (tree : Tree) (scope : ScopeId) : Option (Option DeclId) :=
  (tree.scope? scope).map fun here => here.sites.head?.map (·.decl)

/-- A scope, the scope around it, and so on up to the root. -/
def ancestors (tree : Tree) (scope : ScopeId) : Option (List ScopeId) :=
  (tree.scope? scope).map fun here => scope :: here.sites.map (·.scope)

def above (tree : Tree) (scope : ScopeId) (levels : Nat) : Option (Option ScopeId) :=
  (tree.ancestors scope).map (·[levels]?)

/-- How many scopes are around a scope. -/
def depth (tree : Tree) (scope : ScopeId) : Option Nat :=
  (tree.scope? scope).map (·.sites.length)

/-- Whether a scope is another one or lies inside it. -/
def isInside (tree : Tree) (scope ancestor : ScopeId) : Option Bool :=
  (tree.ancestors scope).map fun chain => decide (ancestor ∈ chain)

/-- The names of the modules from the root down to a scope. -/
def segments (tree : Tree) (scope : ScopeId) : Option (List Name) := do
  let here ← tree.scope? scope
  let names ← here.sites.mapM fun site => (tree.decl? site.decl).map (·.name)
  return names.reverse

/-- The declaration of a name in a scope. -/
def local? (tree : Tree) (scope : ScopeId) (name : Name) : Option (Option DeclId) :=
  (tree.scope? scope).map (·.items.find? name)

theorem local?_of_issued {tree : Tree} {scope : ScopeId} {here : Scope}
    (issued : tree.scope? scope = some here) (name : Name) :
    tree.local? scope name = some (here.items.find? name) := by
  rw [local?, issued, Option.map_some]

/-- The scope of the module of that name. -/
def childNamed? (tree : Tree) (scope : ScopeId) (name : Name) : Option ScopeId := do
  let here ← tree.scope? scope
  let decl ← here.items.find? name
  (← tree.decl? decl).child?

/-- The scope that the names of modules lead to from the root, whoever may see them. -/
def scopeAt? (tree : Tree) (segments : List Name) : Option ScopeId :=
  segments.foldlM tree.childNamed? root

/-- The absolute path to the item of a name in a scope. -/
def itemPath (tree : Tree) (scope : ScopeId) (name : Name) : Option Path :=
  (tree.segments scope).map fun segments => ⟨.absolute, segments, name⟩

/-- The absolute path to a declaration. -/
def declPath (tree : Tree) (decl : DeclId) : Option Path := do
  let declaration ← tree.decl? decl
  tree.itemPath declaration.owner declaration.name

def scopeText (tree : Tree) (scope : ScopeId) : Option String :=
  (tree.segments scope).map fun segments =>
    Spelling.standard.separator.intercalate (Spelling.standard.rootWord :: segments)

def declText (tree : Tree) (decl : DeclId) : Option String := (tree.declPath decl).map (·.text)

end Tree

end ScopedNames
