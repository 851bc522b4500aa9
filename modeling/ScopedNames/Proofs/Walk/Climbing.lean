import ScopedNames.Outcome
import ScopedNames.Proofs.Tree.Containment
import ScopedNames.Proofs.Walk.Accessibility

set_option autoImplicit false

namespace ScopedNames

namespace Tree

variable {tree : Tree} {origin scope : ScopeId} {names : List Name} {levels : Nat}

namespace Sound

variable (sound : tree.Sound)

include sound

/-- By induction along the tree: the scope around a module's scope lacks the name of the module, and
every scope further up lacks it too. -/
theorem segments_of_ancestor (issued : origin ∈ tree.scopeIds) {chain : List ScopeId}
    (around : tree.ancestors origin = some chain) (named : tree.segments origin = some names)
    (reached : chain[levels]? = some scope) :
    tree.segments scope = some (names.take (names.length - levels)) := by
  induction issued using sound.scope_induction generalizing chain names levels with
  | root =>
    cases sound.ancestors_root.symm.trans around
    cases sound.segments_root.symm.trans named
    cases List.mem_singleton.mp (List.mem_of_getElem? reached)
    rw [List.take_nil, sound.segments_root]
  | @module _ declaration child declared opens ih =>
    obtain ⟨outer, above, rfl⟩ := (sound.segments_child_eq_some_iff declared opens).mp named
    rw [sound.ancestors_child declared opens] at around
    obtain ⟨beyond, enclosing, rfl⟩ := Option.map_eq_some_iff.mp around
    cases levels with
    | zero =>
      cases reached
      rw [Nat.sub_zero, List.take_length, named]
    | succ levels =>
      have kept : (outer ++ [declaration.name]).length - (levels + 1) = outer.length - levels := by
        simp
      rw [ih enclosing above reached, kept, List.take_append_of_le_length (Nat.sub_le _ _)]

section Levels

variable (issued : origin ∈ tree.scopeIds) (named : tree.segments origin = some names)

include issued named

theorem length_sites {here : Scope} (found : tree.scope? origin = some here) :
    here.sites.length = names.length :=
  Option.some.inj ((depth_of_issued found).symm.trans (sound.depth_of_segments issued named))

variable (positive : 0 < levels)

theorem start_up_of_le (within : levels ≤ names.length) :
    ∃ scope ∈ tree.scopeIds, tree.start (.up levels positive) origin = .ok scope ∧
      tree.segments scope = some (names.take (names.length - levels)) := by
  obtain ⟨here, found⟩ := mem_scopeIds.mp issued
  have around := ancestors_of_issued found
  have deep := sound.length_sites issued named found
  have inside : levels < (origin :: here.sites.map (·.scope)).length := by
    rw [List.length_cons, List.length_map, deep]
    omega
  have reached := List.getElem?_eq_getElem inside
  have begun : tree.start (.up levels positive) origin = .ok _ :=
    (start_up_eq_ok_iff found).mpr reached
  exact ⟨_, sound.start_mem_scopeIds issued begun, begun,
    sound.segments_of_ancestor issued around named reached⟩

theorem start_up_of_lt (beyond : names.length < levels) :
    tree.start (.up levels positive) origin = .error (.tooManySupers levels names.length) := by
  obtain ⟨here, found⟩ := mem_scopeIds.mp issued
  have deep := sound.length_sites issued named found
  exact (start_up_eq_error_iff found).mpr ⟨deep ▸ beyond, by rw [deep]⟩

theorem start_up_eq_ok_iff_segments :
    tree.start (.up levels positive) origin = .ok scope ↔ levels ≤ names.length ∧
      scope ∈ tree.scopeIds ∧ tree.segments scope = some (names.take (names.length - levels)) := by
  rcases Nat.lt_or_ge names.length levels with beyond | within
  · rw [sound.start_up_of_lt issued named positive beyond]
    simp [Nat.not_le_of_lt beyond]
  · obtain ⟨reached, inside, begun, above⟩ := sound.start_up_of_le issued named positive within
    rw [begun, Outcome.ok.injEq]
    constructor
    · rintro rfl
      exact ⟨within, inside, above⟩
    · rintro ⟨_, also, alike⟩
      exact sound.segments_injective inside also above alike

/-- Having gone up some levels, one comes to where more levels at once would have led. -/
theorem start_up_add {more : Nat} (further : 0 < more) (both : 0 < levels + more)
    (begun : tree.start (.up levels positive) origin = .ok scope) :
    (∃ last, tree.start (.up (levels + more) both) origin = .ok last ∧
      tree.start (.up more further) scope = .ok last) ∨
    ∃ available, tree.start (.up (levels + more) both) origin =
        .error (.tooManySupers (levels + more) (available + levels)) ∧
      tree.start (.up more further) scope = .error (.tooManySupers more available) := by
  obtain ⟨within, inside, above⟩ :=
    (sound.start_up_eq_ok_iff_segments issued named positive).mp begun
  have remaining : (names.take (names.length - levels)).length = names.length - levels :=
    List.length_take_of_le (Nat.sub_le _ _)
  by_cases fits : levels + more ≤ names.length
  · left
    obtain ⟨last, known, direct, reached⟩ := sound.start_up_of_le issued named both fits
    refine ⟨last, direct, (sound.start_up_eq_ok_iff_segments inside above further).mpr ?_⟩
    refine ⟨by omega, known, ?_⟩
    rw [reached, remaining, List.take_take, Nat.sub_sub, Nat.min_eq_left (by omega)]
  · right
    refine ⟨names.length - levels, ?_, ?_⟩
    · rw [Nat.sub_add_cancel within]
      exact sound.start_up_of_lt issued named both (by omega)
    · rw [← remaining]
      exact sound.start_up_of_lt inside above further (by omega)

end Levels

end Sound

/-- So many levels up from a scope, as long as there are so many scopes around it, is the scope that
has all but as many of its segments. Whoever goes on from there comes to where the sum of the levels
leads, or fails by as many scopes as are missing from it. -/
theorem super_climbs_exactly (grown : tree.Grown) (asking : origin ∈ tree.scopeIds) :
    ∃ names, tree.segments origin = some names ∧ tree.depth origin = some names.length ∧
      (∀ levels positive,
        ((∃ scope, tree.start (.up levels positive) origin = .ok scope) ↔
          levels ≤ names.length) ∧
        (∀ scope, tree.start (.up levels positive) origin = .ok scope →
          tree.segments scope = some (names.take (names.length - levels))) ∧
        (¬ levels ≤ names.length → tree.start (.up levels positive) origin =
          .error (.tooManySupers levels names.length))) ∧
      ∀ levels more positive further scope,
        tree.start (.up levels positive) origin = .ok scope →
        (∃ last,
          tree.start (.up (levels + more) (Nat.add_pos_left positive more)) origin = .ok last ∧
          tree.start (.up more further) scope = .ok last) ∨
        ∃ available,
          tree.start (.up (levels + more) (Nat.add_pos_left positive more)) origin =
            .error (.tooManySupers (levels + more) (available + levels)) ∧
          tree.start (.up more further) scope = .error (.tooManySupers more available) := by
  have sound := grown.sound
  obtain ⟨names, named⟩ := sound.exists_segments asking
  refine ⟨names, named, sound.depth_of_segments asking named, fun levels positive => ⟨⟨?_, ?_⟩,
    fun scope begun => ?_, fun beyond => ?_⟩, fun levels more positive further scope begun => ?_⟩
  · rintro ⟨scope, begun⟩
    exact ((sound.start_up_eq_ok_iff_segments asking named positive).mp begun).1
  · intro within
    obtain ⟨scope, _, begun, _⟩ := sound.start_up_of_le asking named positive within
    exact ⟨scope, begun⟩
  · exact ((sound.start_up_eq_ok_iff_segments asking named positive).mp begun).2.2
  · exact sound.start_up_of_lt asking named positive (Nat.lt_of_not_le beyond)
  · exact sound.start_up_add asking named positive further _ begun

/-- Two levels up from `deeper` is `outer`, from where one level leads to the root and no second one
leads on, just as four levels are one too many for `deeper`. -/
theorem deeper_climbs_to_root :
    nested.Grown ∧ ⟨3⟩ ∈ nested.scopeIds ∧
      nested.start (.up 2 (by decide)) ⟨3⟩ = .ok ⟨1⟩ ∧ nested.segments ⟨1⟩ = some ["outer"] ∧
      nested.start (.up 3 (by decide)) ⟨3⟩ = nested.start (.up 1 (by decide)) ⟨1⟩ ∧
      nested.start (.up 4 (by decide)) ⟨3⟩ = .error (.tooManySupers 4 3) ∧
      nested.start (.up 2 (by decide)) ⟨1⟩ = .error (.tooManySupers 2 1) := by
  have grown : nested.Grown := grown_build _ _
  have asking : ⟨3⟩ ∈ nested.scopeIds := by decide +kernel
  have outer : nested.start (.up 2 (by decide)) ⟨3⟩ = .ok ⟨1⟩ := rfl
  obtain ⟨names, named, _, exact, adds⟩ := super_climbs_exactly grown asking
  cases (show nested.segments ⟨3⟩ = some ["outer", "hidden", "deeper"] from rfl).symm.trans named
  refine ⟨grown, asking, outer, (exact 2 (by decide)).2.1 _ outer, ?_,
    (exact 4 (by decide)).2.2 (by decide), ?_⟩
  · rcases adds 2 1 (by decide) (by decide) _ outer with ⟨last, direct, parts⟩ | ⟨_, failed, _⟩
    · exact direct.trans parts.symm
    · cases failed
  · rcases adds 2 2 (by decide) (by decide) _ outer with ⟨_, direct, _⟩ | ⟨available, failed, parts⟩
    · cases direct
    · cases failed
      exact parts

end Tree

/-- The error that a declaration is hidden. -/
def LookupError.IsHidden (reason : LookupError) : Prop :=
  ∃ name decl owner, reason = .hidden name decl owner

namespace Tree.Sound

open Outcome (AlikeUnless)

variable {tree : Tree} {requester deeper : ScopeId} (sound : tree.Sound)
  (inside : tree.isInside deeper requester = some true)

include sound inside

section Access

theorem requester_mem_scopeIds : requester ∈ tree.scopeIds :=
  sound.ancestor_mem_scopeIds (mem_scopeIds_of_isInside inside) inside

theorem permits_deeper {visibility : Visibility} {declaring : ScopeId}
    (allowed : tree.permits visibility declaring requester = some true) :
    tree.permits visibility declaring deeper = some true := by
  cases visibility with
  | everyone => rfl
  | insiders => exact sound.isInside_trans inside allowed
  | restricted scope =>
    rw [permits_restricted_iff (sound.requester_mem_scopeIds inside)] at allowed
    rw [permits_restricted_iff (mem_scopeIds_of_isInside inside)]
    exact allowed.imp (sound.isInside_trans inside) (sound.isInside_trans inside)

theorem admits_deeper {decl : DeclId} (admitted : tree.admits decl requester = some true) :
    tree.admits decl deeper = some true := by
  obtain ⟨declaration, declared, allowed⟩ := Option.bind_eq_some_iff.mp admitted
  rw [admits_of_declared declared]
  exact sound.permits_deeper inside allowed

/-- By induction along the tree: each module on a clear way still opens. -/
theorem barrier_deeper {scope : ScopeId} (clear : tree.barrier scope requester = some none) :
    tree.barrier scope deeper = some none := by
  have issued := mem_scopeIds_of_barrier clear
  induction issued using sound.scope_induction with
  | root => exact sound.barrier_root deeper
  | module declared opens ih =>
    rw [sound.barrier_child_eq_none_iff (sound.requester_mem_scopeIds inside) declared opens]
      at clear
    rw [sound.barrier_child_eq_none_iff (mem_scopeIds_of_isInside inside) declared opens]
    exact ⟨ih clear.1, sound.admits_deeper inside clear.2⟩

theorem mayName_deeper {decl : DeclId} (allowed : tree.mayName decl requester = some true) :
    tree.mayName decl deeper = some true := by
  obtain ⟨declaration, declared⟩ := mem_declIds.mp (mem_declIds_of_mayName allowed)
  rw [mayName_eq_true_iff declared] at allowed ⊢
  exact ⟨sound.barrier_deeper inside allowed.1, sound.admits_deeper inside allowed.2⟩

end Access

section Walk

theorem checkAdmits_deeper {decl : DeclId} {declaration : Declaration}
    (declared : tree.decl? decl = some declaration) :
    AlikeUnless LookupError.IsHidden (tree.checkAdmits decl requester)
      (tree.checkAdmits decl deeper) := by
  obtain ⟨allowed, admitted⟩ := exists_admits declared (sound.requester_mem_scopeIds inside)
  rw [checkAdmits_of_admits declared admitted]
  cases allowed with
  | false => exact .of_excused ⟨_, _, _, rfl⟩ _
  | true => exact .of_eq (checkAdmits_eq_ok_iff.mpr (sound.admits_deeper inside admitted))

theorem findAdmitted_deeper (scope : ScopeId) (name : Name) :
    AlikeUnless LookupError.IsHidden (tree.findAdmitted scope name requester)
      (tree.findAdmitted scope name deeper) := by
  refine AlikeUnless.bind (.of_eq rfl) fun decl found => ?_
  obtain ⟨declaration, declared, _⟩ := sound.find_eq_ok_iff.mp found
  exact (sound.checkAdmits_deeper inside declared).bind fun _ _ => .of_eq rfl

theorem enter_deeper (scope : ScopeId) (name : Name) :
    AlikeUnless LookupError.IsHidden (tree.enter requester scope name)
      (tree.enter deeper scope name) := by
  refine AlikeUnless.bind (.of_eq rfl) fun decl found => ?_
  obtain ⟨declaration, declared, _⟩ := sound.find_eq_ok_iff.mp found
  rw [declared, Outcome.lift_some, Outcome.ok_bind, Outcome.ok_bind]
  cases declaration.child? with
  | none => exact .of_eq rfl
  | some child => exact (sound.checkAdmits_deeper inside declared).bind fun _ _ => .of_eq rfl

theorem walk_deeper (start : ScopeId) (modules : List Name) :
    AlikeUnless LookupError.IsHidden (tree.walk requester start modules)
      (tree.walk deeper start modules) := by
  induction modules generalizing start with
  | nil => exact .of_eq rfl
  | cons name modules ih =>
    rw [walk_cons, walk_cons]
    exact (sound.enter_deeper inside start name).bind fun child _ => ih child

/-- Where a path starts alike for both, it leads on alike. -/
theorem resolve_deeper {path : Path}
    (begun : tree.start path.root deeper = tree.start path.root requester) :
    AlikeUnless LookupError.IsHidden (tree.resolve path requester) (tree.resolve path deeper) := by
  have reached : AlikeUnless LookupError.IsHidden (tree.reach path requester)
      (tree.reach path deeper) :=
    AlikeUnless.bind (.of_eq begun) fun start _ => sound.walk_deeper inside start path.modules
  exact reached.bind fun scope _ => sound.findAdmitted_deeper inside scope path.name

end Walk

end Tree.Sound

namespace Tree

variable {tree : Tree}

/-- What a scope may see, whoever stands inside it may see too. A path from the root that was not
stopped by something hidden has the same answer there, whether it led on or failed. -/
theorem insiders_see_no_less (grown : tree.Grown) {requester deeper : ScopeId}
    (inside : tree.isInside deeper requester = some true) :
    (∀ visibility declaring, tree.permits visibility declaring requester = some true →
      tree.permits visibility declaring deeper = some true) ∧
    (∀ scope, tree.isReachable scope requester = some true →
      tree.isReachable scope deeper = some true) ∧
    (∀ decl, tree.mayName decl requester = some true → tree.mayName decl deeper = some true) ∧
    ∀ path, (path.root = .absolute ∨ ∃ name, path.root = .external name) →
      (∀ name decl owner, tree.resolve path requester ≠ .error (.hidden name decl owner)) →
        tree.resolve path deeper = tree.resolve path requester := by
  have sound := grown.sound
  refine ⟨fun visibility declaring => sound.permits_deeper inside, fun scope reachable => ?_,
    fun decl => sound.mayName_deeper inside, fun path rooted seen => ?_⟩
  · rw [isReachable_eq_true_iff] at reachable ⊢
    exact sound.barrier_deeper inside reachable
  · have begun : tree.start path.root deeper = tree.start path.root requester := by
      rcases rooted with absolute | ⟨name, external⟩
      · rw [absolute, start, start]
      · rw [external, start, start]
    refine (sound.resolve_deeper inside begun).eq_of_unexcused fun reason failed => ?_
    rintro ⟨name, decl, owner, rfl⟩
    exact seen name decl owner failed

/-- What `hidden` may name, `deeper` inside it may name as well, and both miss the same name. The
item is hidden from `outer` around them, and no longer is from inside. -/
theorem deeper_sees_item :
    nested.Grown ∧ nested.isInside ⟨3⟩ ⟨2⟩ = some true ∧ nested.isInside ⟨3⟩ ⟨1⟩ = some true ∧
      nested.permits .insiders ⟨2⟩ ⟨3⟩ = some true ∧ nested.isReachable ⟨3⟩ ⟨3⟩ = some true ∧
      nested.mayName ⟨4⟩ ⟨3⟩ = some true ∧
      nested.resolve ⟨.absolute, ["outer", "hidden"], "nothing"⟩ ⟨3⟩ =
        .error (.missing "nothing" ⟨2⟩) ∧
      nested.resolve ⟨.absolute, ["outer", "hidden", "deeper"], "item"⟩ ⟨1⟩ =
        .error (.hidden "deeper" ⟨2⟩ ⟨2⟩) ∧
      nested.resolve ⟨.absolute, ["outer", "hidden", "deeper"], "item"⟩ ⟨3⟩ = .ok ⟨4⟩ := by
  have grown : nested.Grown := grown_build _ _
  have inside : nested.isInside ⟨3⟩ ⟨2⟩ = some true := rfl
  obtain ⟨permits, reachable, named, paths⟩ := insiders_see_no_less grown inside
  have missing : nested.resolve ⟨.absolute, ["outer", "hidden"], "nothing"⟩ ⟨2⟩ =
      .error (.missing "nothing" ⟨2⟩) := rfl
  have found : nested.resolve ⟨.absolute, ["outer", "hidden", "deeper"], "item"⟩ ⟨2⟩ =
      .ok ⟨4⟩ := rfl
  refine ⟨grown, inside, rfl, permits .insiders ⟨2⟩ rfl, reachable ⟨3⟩ rfl, named ⟨4⟩ rfl,
    ?_, rfl, ?_⟩
  · rw [paths _ (.inl rfl) (by simp [missing]), missing]
  · rw [paths _ (.inl rfl) (by simp [found]), found]

end Tree

end ScopedNames
