import ScopedNames.Proofs.Walk.Answers
import ScopedNames.Proofs.Walk.Reasons

set_option autoImplicit false

/- Passing through a module and naming it. A path that goes on by one more name passes through what
the path itself names. Both look it up in the same scope and ask the same of it, but in a different
order: one who passes asks first whether it is a module, one who names it whether it is open. The
order only matters to what is neither. -/
namespace ScopedNames

/-- The path to a name within the module that a path names. -/
def Path.beyond (path : Path) (name : Name) : Path := ⟨path.root, path.segments, name⟩

namespace Tree

variable {tree : Tree} {origin scope owner : ScopeId} {name : Name} {decl : DeclId} {path : Path}

/-- Names the module of that name in a scope. -/
def openNamed (tree : Tree) (origin scope : ScopeId) (name : Name) :
    Outcome LookupError ScopeId := do
  let decl ← tree.findAdmitted scope name origin
  match (← tree.decl? decl).child? with
  | some child => return child
  | none => .error (.notModule name decl)

theorem reach_beyond (path : Path) (extra : Name) :
    tree.reach (path.beyond extra) origin =
      tree.reach path origin >>= fun scope => tree.enter origin scope path.name := by
  cases begun : tree.start path.root origin with
  | error reason => simp [reach, Path.beyond, begun]
  | stray => simp [reach, Path.beyond, begun]
  | ok start => simp [reach, Path.beyond, begun, Path.segments, Sound.walk_concat]

theorem scopeNamed_eq (path : Path) :
    tree.scopeNamed path origin =
      tree.reach path origin >>= fun scope => tree.openNamed origin scope path.name := by
  rw [scopeNamed, resolve, bind_assoc]
  rfl

/-- In `scope` the name is that of a declaration that is no module and does not admit `origin`. -/
structure ClosedItem (tree : Tree) (origin scope : ScopeId) (name : Name) (decl : DeclId) :
    Prop where
  bound : tree.local? scope name = some (some decl)
  refused : ∃ declaration, tree.decl? decl = some declaration ∧ declaration.child? = none ∧
    tree.permits declaration.visibility declaration.owner origin = some false

/-- The path leads through open modules to `owner`, where its last name is that of a declaration
that is no module and does not admit `origin`. -/
def EndsClosed (tree : Tree) (path : Path) (origin owner : ScopeId) (decl : DeclId) : Prop :=
  ∃ start, tree.start path.root origin = .ok start ∧
    tree.OpenWay origin start path.modules owner ∧ tree.ClosedItem origin owner path.name decl

namespace Sound

variable (sound : tree.Sound)

include sound

theorem enter_of_closedItem (closed : tree.ClosedItem origin scope name decl) :
    tree.enter origin scope name = .error (.notModule name decl) := by
  obtain ⟨bound, declaration, declared, plain, _⟩ := closed
  have found := sound.find_eq_ok_iff.mpr (sound.local?_eq_some_iff.mp bound)
  rw [enter, found, Outcome.ok_bind, declared, Outcome.lift_some, Outcome.ok_bind, plain]

theorem openNamed_of_closedItem (closed : tree.ClosedItem origin scope name decl) :
    tree.openNamed origin scope name = .error (.hidden name decl scope) := by
  obtain ⟨bound, declaration, declared, _, refused⟩ := closed
  obtain ⟨again, same, rfl, rfl⟩ := sound.local?_eq_some_iff.mp bound
  cases declared.symm.trans same
  have admitted := (admits_of_declared declared origin).trans refused
  rw [openNamed, sound.findAdmitted_declared declared admitted]
  rfl

/-- What is no closed item answers alike to one who passes and to one who names it. -/
theorem enter_eq_openNamed (asking : origin ∈ tree.scopeIds)
    (free : ∀ decl, ¬ tree.ClosedItem origin scope name decl) :
    tree.enter origin scope name = tree.openNamed origin scope name := by
  cases found : tree.find scope name with
  | error reason => simp [enter, openNamed, findAdmitted, found]
  | stray => simp [enter, openNamed, findAdmitted, found]
  | ok decl =>
    have bound := sound.local?_eq_some_iff.mpr (sound.find_eq_ok_iff.mp found)
    obtain ⟨declaration, declared, rfl, rfl⟩ := sound.find_eq_ok_iff.mp found
    obtain ⟨allowed, admitted⟩ := exists_admits declared asking
    have checked := checkAdmits_of_admits declared admitted
    cases opens : declaration.child? with
    | some child =>
      cases allowed <;>
        simp [enter, openNamed, findAdmitted, found, declared, opens, checked]
    | none =>
      cases allowed with
      | true => simp [enter, openNamed, findAdmitted, found, declared, opens, checked]
      | false =>
        rw [admits_of_declared declared] at admitted
        exact absurd ⟨bound, declaration, declared, opens, admitted⟩ (free decl)

theorem endsClosed_iff : tree.EndsClosed path origin owner decl ↔
    tree.reach path origin = .ok owner ∧ tree.ClosedItem origin owner path.name decl := by
  constructor
  · rintro ⟨start, begun, way, closed⟩
    exact ⟨Outcome.bind_eq_ok.mpr ⟨start, begun, sound.walk_eq_ok_iff_openWay.mpr way⟩, closed⟩
  · rintro ⟨reached, closed⟩
    obtain ⟨start, begun, walked⟩ := Outcome.bind_eq_ok.mp reached
    exact ⟨start, begun, sound.walk_eq_ok_iff_openWay.mp walked, closed⟩

end Sound

/-- A path leads through the module that it would name and fails as it would, for whatever name it
goes on by. Only where it ends at an item that is neither open nor a module is the one told that it
is no module, and the other that it is hidden. -/
theorem passed_as_named (grown : tree.Grown) (asking : origin ∈ tree.scopeIds) (path : Path)
    (extra : Name) :
    tree.reach (path.beyond extra) origin ≠ .stray ∧ tree.scopeNamed path origin ≠ .stray ∧
      (∀ scope, tree.reach (path.beyond extra) origin = .ok scope ↔
        tree.scopeNamed path origin = .ok scope) ∧
      ((∀ owner decl, ¬ tree.EndsClosed path origin owner decl) →
        tree.reach (path.beyond extra) origin = tree.scopeNamed path origin) ∧
      ∀ owner decl, tree.EndsClosed path origin owner decl →
        tree.reach (path.beyond extra) origin = .error (.notModule path.name decl) ∧
        tree.scopeNamed path origin = .error (.hidden path.name decl owner) := by
  have sound := grown.sound
  have apart {owner : ScopeId} {decl : DeclId} (ends : tree.EndsClosed path origin owner decl) :
      tree.reach (path.beyond extra) origin = .error (.notModule path.name decl) ∧
        tree.scopeNamed path origin = .error (.hidden path.name decl owner) := by
    obtain ⟨reached, closed⟩ := sound.endsClosed_iff.mp ends
    constructor
    · rw [reach_beyond, reached, Outcome.ok_bind, sound.enter_of_closedItem closed]
    · rw [scopeNamed_eq, reached, Outcome.ok_bind, sound.openNamed_of_closedItem closed]
  have alike (free : ∀ owner decl, ¬ tree.EndsClosed path origin owner decl) :
      tree.reach (path.beyond extra) origin = tree.scopeNamed path origin := by
    rw [reach_beyond, scopeNamed_eq]
    cases reached : tree.reach path origin with
    | error reason => rfl
    | stray => rfl
    | ok owner =>
      exact sound.enter_eq_openNamed asking fun decl closed =>
        free owner decl (sound.endsClosed_iff.mpr ⟨reached, closed⟩)
  refine ⟨sound.reach_ne_stray asking _, ?_, fun scope => ?_, alike, fun _ _ => apart⟩
  · exact (answers_iff.mp (sound.answers_scopeNamed asking path)).1
  · by_cases ends : ∃ owner decl, tree.EndsClosed path origin owner decl
    · obtain ⟨owner, decl, ends⟩ := ends
      obtain ⟨passed, named⟩ := apart ends
      simp [passed, named]
    · rw [alike fun owner decl found => ends ⟨owner, decl, found⟩]

/-- `crate::chest`, which keeps `key` to itself. -/
def chest : Tree :=
  build none [(root, "chest", .module, .everyone), (⟨1⟩, "key", .value 0, .insiders)]

/-- From the root `key` is no module to one who passes and hidden from one who names it. Within the
chest it is no module to either. -/
theorem key_passed_and_named :
    chest.Grown ∧ root ∈ chest.scopeIds ∧ ⟨1⟩ ∈ chest.scopeIds ∧
      chest.reach ⟨.absolute, ["chest", "key"], "tooth"⟩ root = .error (.notModule "key" ⟨1⟩) ∧
      chest.scopeNamed ⟨.absolute, ["chest"], "key"⟩ root = .error (.hidden "key" ⟨1⟩ ⟨1⟩) ∧
      chest.reach ⟨.here, ["key"], "tooth"⟩ ⟨1⟩ = .error (.notModule "key" ⟨1⟩) ∧
      chest.scopeNamed ⟨.here, [], "key"⟩ ⟨1⟩ = .error (.notModule "key" ⟨1⟩) := by
  have grown : chest.Grown := grown_build _ _
  have outside : root ∈ chest.scopeIds := by decide +kernel
  have inside : ⟨1⟩ ∈ chest.scopeIds := by decide +kernel
  have closed : chest.EndsClosed ⟨.absolute, ["chest"], "key"⟩ root ⟨1⟩ ⟨1⟩ :=
    grown.sound.endsClosed_iff.mpr ⟨rfl, rfl, _, rfl, rfl, rfl⟩
  have plain : chest.scopeNamed ⟨.here, [], "key"⟩ ⟨1⟩ = .error (.notModule "key" ⟨1⟩) := rfl
  obtain ⟨_, _, _, _, apart⟩ :=
    passed_as_named grown outside ⟨.absolute, ["chest"], "key"⟩ "tooth"
  obtain ⟨passed, named⟩ := apart ⟨1⟩ ⟨1⟩ closed
  obtain ⟨_, _, _, alike, otherwise⟩ := passed_as_named grown inside ⟨.here, [], "key"⟩ "tooth"
  have free (owner : ScopeId) (decl : DeclId) :
      ¬ chest.EndsClosed ⟨.here, [], "key"⟩ ⟨1⟩ owner decl := by
    intro ends
    cases plain.symm.trans (otherwise owner decl ends).2
  exact ⟨grown, outside, inside, passed, named, (alike free).trans plain, plain⟩

end Tree

end ScopedNames
