import ScopedNames.Import
import ScopedNames.Proofs.Barrier
import ScopedNames.Tree
import ScopedNames.Walk

set_option autoImplicit false

namespace ScopedNames

namespace Tree

variable {tree : Tree} {origin : ScopeId}

theorem checkAdmits_of_admits {decl : DeclId} {declaration : Declaration} {allowed : Bool}
    (declared : tree.decl? decl = some declaration)
    (admitted : tree.admits decl origin = some allowed) :
    tree.checkAdmits decl origin =
      if allowed then .ok () else .error (.hidden declaration.name decl declaration.owner) := by
  cases allowed <;> simp [checkAdmits, admitted, hiddenError, declared]

theorem checkAdmits_eq_ok_iff {decl : DeclId} :
    tree.checkAdmits decl origin = .ok () ↔ tree.admits decl origin = some true := by
  cases admitted : tree.admits decl origin with
  | none => simp [checkAdmits, admitted]
  | some allowed =>
    cases allowed with
    | true => simp [checkAdmits, admitted]
    | false => cases hidden : tree.hiddenError decl <;> simp [checkAdmits, admitted, hidden]

namespace Sound

theorem local?_eq_some_iff (sound : tree.Sound) {scope : ScopeId} {name : Name} {decl : DeclId} :
    tree.local? scope name = some (some decl) ↔ ∃ declaration,
      tree.decl? decl = some declaration ∧ declaration.owner = scope ∧
        declaration.name = name := by
  constructor
  · intro found
    obtain ⟨here, issued, bound⟩ := Option.map_eq_some_iff.mp found
    exact (sound.bound issued).mp bound
  · rintro ⟨declaration, declared, rfl, rfl⟩
    obtain ⟨outer, issued⟩ := sound.owned declared
    rw [local?, issued, Option.map_some,
      (sound.bound issued).mpr ⟨declaration, declared, rfl, rfl⟩]

theorem find_eq_ok_iff (sound : tree.Sound) {scope : ScopeId} {name : Name} {decl : DeclId} :
    tree.find scope name = .ok decl ↔ ∃ declaration,
      tree.decl? decl = some declaration ∧ declaration.owner = scope ∧
        declaration.name = name := by
  rw [← sound.local?_eq_some_iff]
  cases found : tree.local? scope name with
  | none => simp [find, found]
  | some bound => cases bound <;> simp [find, found]

theorem findAdmitted_eq_ok_iff (sound : tree.Sound) {scope : ScopeId} {name : Name}
    {decl : DeclId} :
    tree.findAdmitted scope name origin = .ok decl ↔ ∃ declaration,
      tree.decl? decl = some declaration ∧ declaration.owner = scope ∧
        declaration.name = name ∧ tree.admits decl origin = some true := by
  constructor
  · intro found
    obtain ⟨other, bound, checked⟩ := Outcome.bind_eq_ok.mp found
    obtain ⟨_, admitted, same⟩ := Outcome.bind_eq_ok.mp checked
    cases same
    obtain ⟨declaration, declared, owner, named⟩ := sound.find_eq_ok_iff.mp bound
    exact ⟨declaration, declared, owner, named, checkAdmits_eq_ok_iff.mp admitted⟩
  · rintro ⟨declaration, declared, owner, named, admitted⟩
    rw [findAdmitted, sound.find_eq_ok_iff.mpr ⟨declaration, declared, owner, named⟩,
      Outcome.ok_bind, checkAdmits_eq_ok_iff.mpr admitted]
    rfl

theorem enter_eq_ok_iff (sound : tree.Sound) {scope child : ScopeId} {name : Name} :
    tree.enter origin scope name = .ok child ↔ ∃ decl declaration,
      tree.decl? decl = some declaration ∧ declaration.owner = scope ∧
        declaration.name = name ∧ declaration.child? = some child ∧
        tree.admits decl origin = some true := by
  constructor
  · intro entered
    obtain ⟨decl, bound, rest⟩ := Outcome.bind_eq_ok.mp entered
    obtain ⟨declaration, declared, owner, named⟩ := sound.find_eq_ok_iff.mp bound
    rw [declared, Outcome.lift_some, Outcome.ok_bind] at rest
    cases opens : declaration.child? with
    | none => simp [opens] at rest
    | some inner =>
      rw [opens] at rest
      obtain ⟨_, admitted, same⟩ := Outcome.bind_eq_ok.mp rest
      cases same
      exact ⟨decl, declaration, declared, owner, named, opens,
        checkAdmits_eq_ok_iff.mp admitted⟩
  · rintro ⟨decl, declaration, declared, owner, named, opens, admitted⟩
    simp [enter, sound.find_eq_ok_iff.mpr ⟨declaration, declared, owner, named⟩, declared, opens,
      checkAdmits_eq_ok_iff.mpr admitted]

section Declared

variable {decl : DeclId} {declaration : Declaration} {allowed : Bool}

/-- Looking a declaration up where it is declared only depends on whether it admits the origin. -/
theorem findAdmitted_declared (sound : tree.Sound) (declared : tree.decl? decl = some declaration)
    (admitted : tree.admits decl origin = some allowed) :
    tree.findAdmitted declaration.owner declaration.name origin =
      if allowed then .ok decl
      else .error (.hidden declaration.name decl declaration.owner) := by
  rw [findAdmitted, sound.find_eq_ok_iff.mpr ⟨declaration, declared, rfl, rfl⟩, Outcome.ok_bind,
    checkAdmits_of_admits declared admitted]
  cases allowed <;> rfl

theorem enter_declared (sound : tree.Sound) {child : ScopeId}
    (declared : tree.decl? decl = some declaration) (opens : declaration.child? = some child)
    (admitted : tree.admits decl origin = some allowed) :
    tree.enter origin declaration.owner declaration.name =
      if allowed then .ok child
      else .error (.hidden declaration.name decl declaration.owner) := by
  rw [enter, sound.find_eq_ok_iff.mpr ⟨declaration, declared, rfl, rfl⟩, Outcome.ok_bind, declared,
    Outcome.lift_some, Outcome.ok_bind, opens, checkAdmits_of_admits declared admitted]
  cases allowed <;> rfl

end Declared

theorem walk_concat (start : ScopeId) (names : List Name) (name : Name) :
    tree.walk origin start (names ++ [name]) =
      tree.walk origin start names >>= fun scope => tree.enter origin scope name := by
  rw [walk_append]
  exact bind_congr fun scope => bind_pure (tree.enter origin scope name)

/-- The walk along the segments of a scope ends there if nothing bars the way. -/
theorem walk_segments_of_clear (sound : tree.Sound) (asking : origin ∈ tree.scopeIds)
    {scope : ScopeId} {names : List Name} (issued : scope ∈ tree.scopeIds)
    (named : tree.segments scope = some names)
    (clear : tree.barrier scope origin = some none) :
    tree.walk origin Tree.root names = .ok scope := by
  induction issued using sound.scope_induction generalizing names with
  | root =>
    cases sound.segments_root.symm.trans named
    rfl
  | @module decl declaration child declared opens ih =>
    obtain ⟨outer, above, rfl⟩ := (sound.segments_child_eq_some_iff declared opens).mp named
    obtain ⟨before, admitted⟩ := (sound.barrier_child_eq_none_iff asking declared opens).mp clear
    rw [walk_concat, ih above before, Outcome.ok_bind,
      sound.enter_declared declared opens admitted, if_pos rfl]

/-- It ends at the outermost module that bars the way, whatever others come after it. -/
theorem walk_segments_of_barred (sound : tree.Sound) (asking : origin ∈ tree.scopeIds)
    {scope : ScopeId} {names : List Name} {closed : DeclId} {blamed : Declaration}
    (issued : scope ∈ tree.scopeIds) (named : tree.segments scope = some names)
    (barred : tree.barrier scope origin = some (some closed))
    (present : tree.decl? closed = some blamed) :
    tree.walk origin Tree.root names = .error (.hidden blamed.name closed blamed.owner) := by
  induction issued using sound.scope_induction generalizing names with
  | root =>
    rw [sound.barrier_root] at barred
    cases barred
  | @module decl declaration child declared opens ih =>
    have outside := sound.owner_mem_scopeIds declared
    obtain ⟨outer, above, rfl⟩ := (sound.segments_child_eq_some_iff declared opens).mp named
    rcases (sound.barrier_child_eq_some_iff asking declared opens).mp barred with
      before | ⟨before, refused, rfl⟩
    · rw [walk_concat, ih above before, Outcome.error_bind]
    · cases declared.symm.trans present
      rw [walk_concat, sound.walk_segments_of_clear asking outside above before,
        Outcome.ok_bind, sound.enter_declared declared opens refused]
      rfl

end Sound

theorem resolve_absolute (names : List Name) (name : Name) :
    tree.resolve ⟨.absolute, names, name⟩ origin =
      tree.walk origin root names >>= fun scope => tree.findAdmitted scope name origin := rfl

theorem declPath_of_segments {decl : DeclId} {declaration : Declaration} {names : List Name}
    (declared : tree.decl? decl = some declaration)
    (named : tree.segments declaration.owner = some names) :
    tree.declPath decl = some ⟨.absolute, names, declaration.name⟩ := by
  simp [declPath, itemPath, declared, named]

namespace Sound

section Declared

variable {decl : DeclId} {declaration : Declaration} {names : List Name}

/-- With nothing in the way to its scope, a declaration alone decides about the path to it. -/
theorem resolve_declared_of_clear (sound : tree.Sound) (asking : origin ∈ tree.scopeIds)
    {allowed : Bool} (declared : tree.decl? decl = some declaration)
    (named : tree.segments declaration.owner = some names)
    (clear : tree.barrier declaration.owner origin = some none)
    (admitted : tree.admits decl origin = some allowed) :
    tree.resolve ⟨.absolute, names, declaration.name⟩ origin =
      if allowed then .ok decl
      else .error (.hidden declaration.name decl declaration.owner) := by
  have outside := sound.owner_mem_scopeIds declared
  rw [resolve_absolute, sound.walk_segments_of_clear asking outside named clear, Outcome.ok_bind,
    sound.findAdmitted_declared declared admitted]

theorem resolve_declared_of_barred (sound : tree.Sound) (asking : origin ∈ tree.scopeIds)
    {closed : DeclId} {blamed : Declaration} (declared : tree.decl? decl = some declaration)
    (named : tree.segments declaration.owner = some names)
    (barred : tree.barrier declaration.owner origin = some (some closed))
    (present : tree.decl? closed = some blamed) :
    tree.resolve ⟨.absolute, names, declaration.name⟩ origin =
      .error (.hidden blamed.name closed blamed.owner) := by
  have outside := sound.owner_mem_scopeIds declared
  rw [resolve_absolute, sound.walk_segments_of_barred asking outside named barred present,
    Outcome.error_bind]

end Declared

section Module

variable {scope : ScopeId} {names : List Name} {path : Path}

/-- The path along the segments of a scope is the path to the declaration that opens it. -/
theorem opener_of_ofSegments? (sound : tree.Sound) (issued : scope ∈ tree.scopeIds)
    (named : tree.segments scope = some names)
    (spelt : Path.ofSegments? .absolute names = some path) :
    ∃ decl declaration outer, tree.decl? decl = some declaration ∧
      declaration.child? = some scope ∧ tree.segments declaration.owner = some outer ∧
      path = ⟨.absolute, outer, declaration.name⟩ := by
  have below : scope ≠ Tree.root := by
    rintro rfl
    rw [sound.segments_root] at named
    cases named
    cases spelt
  obtain ⟨decl, declaration, declared, opens⟩ := sound.exists_opener issued below
  obtain ⟨outer, above, rfl⟩ := (sound.segments_child_eq_some_iff declared opens).mp named
  rw [Path.ofSegments?_concat] at spelt
  exact ⟨decl, declaration, outer, declared, opens, above, (Option.some.inj spelt).symm⟩

theorem scopeNamed_segments_of_clear (sound : tree.Sound) (asking : origin ∈ tree.scopeIds)
    (issued : scope ∈ tree.scopeIds) (named : tree.segments scope = some names)
    (spelt : Path.ofSegments? .absolute names = some path)
    (clear : tree.barrier scope origin = some none) :
    tree.scopeNamed path origin = .ok scope := by
  obtain ⟨decl, declaration, outer, declared, opens, above, rfl⟩ :=
    sound.opener_of_ofSegments? issued named spelt
  obtain ⟨before, admitted⟩ := (sound.barrier_child_eq_none_iff asking declared opens).mp clear
  have found := sound.resolve_declared_of_clear asking declared above before admitted
  rw [if_pos rfl] at found
  simp [scopeNamed, found, declared, opens]

theorem scopeNamed_segments_of_barred (sound : tree.Sound) (asking : origin ∈ tree.scopeIds)
    {closed : DeclId} {blamed : Declaration} (issued : scope ∈ tree.scopeIds)
    (named : tree.segments scope = some names)
    (spelt : Path.ofSegments? .absolute names = some path)
    (barred : tree.barrier scope origin = some (some closed))
    (present : tree.decl? closed = some blamed) :
    tree.scopeNamed path origin = .error (.hidden blamed.name closed blamed.owner) := by
  obtain ⟨decl, declaration, outer, declared, opens, above, rfl⟩ :=
    sound.opener_of_ofSegments? issued named spelt
  have failed : tree.resolve ⟨.absolute, outer, declaration.name⟩ origin =
      .error (.hidden blamed.name closed blamed.owner) := by
    rcases (sound.barrier_child_eq_some_iff asking declared opens).mp barred with
      before | ⟨before, refused, rfl⟩
    · exact sound.resolve_declared_of_barred asking declared above before present
    · cases declared.symm.trans present
      exact sound.resolve_declared_of_clear asking declared above before refused
  rw [scopeNamed, failed, Outcome.error_bind]

end Module

end Sound

theorem importGlob_of_barred {scope : ScopeId} {closed : DeclId} {blamed : Declaration}
    (imports : Imports) (barred : tree.barrier scope origin = some (some closed))
    (present : tree.decl? closed = some blamed) :
    imports.importGlob tree origin scope =
      .error (.unresolved (.hidden blamed.name closed blamed.owner)) := by
  simp [Imports.importGlob_eq, barred, hiddenError, present]

theorem findReexportFor_of_barred {scope : ScopeId} {closed : DeclId} {blamed : Declaration}
    (imports : Imports) (name : Name) (barred : tree.barrier scope origin = some (some closed))
    (present : tree.decl? closed = some blamed) :
    imports.findReexportFor tree scope name origin =
      .error (.hidden blamed.name closed blamed.owner) := by
  simp [Imports.findReexportFor, barred, hiddenError, present]

/-- The barrier to a scope is the declaration at which the absolute path to the scope, a glob import
of it and a look-up of what it passes on all fail. The path to a declaration fails at the barrier to
its scope, or else at the declaration itself. -/
theorem absolute_paths_fail_at_barrier (grown : tree.Grown) {requester : ScopeId}
    (asking : requester ∈ tree.scopeIds) :
    (∀ scope ∈ tree.scopeIds, scope ≠ Tree.root → ∃ names path verdict,
      tree.segments scope = some names ∧ Path.ofSegments? .absolute names = some path ∧
      tree.barrier scope requester = some verdict ∧
      (verdict = none → tree.scopeNamed path requester = .ok scope) ∧
      ∀ closed, verdict = some closed → ∃ blamed, tree.decl? closed = some blamed ∧
        tree.scopeNamed path requester = .error (.hidden blamed.name closed blamed.owner) ∧
        ∀ imports : Imports,
          imports.importGlob tree requester scope =
            .error (.unresolved (.hidden blamed.name closed blamed.owner)) ∧
          ∀ name, imports.findReexportFor tree scope name requester =
            .error (.hidden blamed.name closed blamed.owner)) ∧
    ∀ decl declaration, tree.decl? decl = some declaration → ∃ path verdict allowed,
      tree.declPath decl = some path ∧
      tree.barrier declaration.owner requester = some verdict ∧
      tree.permits declaration.visibility declaration.owner requester = some allowed ∧
      (∀ closed, verdict = some closed → ∃ blamed, tree.decl? closed = some blamed ∧
        tree.resolve path requester = .error (.hidden blamed.name closed blamed.owner)) ∧
      (verdict = none → tree.resolve path requester =
        if allowed then .ok decl
        else .error (.hidden declaration.name decl declaration.owner)) := by
  have sound := grown.sound
  constructor
  · intro scope issued below
    obtain ⟨decl, declaration, declared, opens⟩ := sound.exists_opener issued below
    obtain ⟨outer, above⟩ := sound.exists_segments (sound.owner_mem_scopeIds declared)
    obtain ⟨verdict, barred⟩ := sound.exists_barrier asking issued
    have named : tree.segments scope = some (outer ++ [declaration.name]) := by
      rw [sound.segments_child declared opens, above, Option.map_some]
    have spelt := Path.ofSegments?_concat .absolute outer declaration.name
    refine ⟨_, _, verdict, named, spelt, barred, ?_, ?_⟩
    · rintro rfl
      exact sound.scopeNamed_segments_of_clear asking issued named spelt barred
    · rintro closed rfl
      obtain ⟨blamed, present⟩ := mem_declIds.mp (sound.admits_barrier asking issued barred).1
      exact ⟨blamed, present,
        sound.scopeNamed_segments_of_barred asking issued named spelt barred present,
        fun imports => ⟨importGlob_of_barred imports barred present,
          fun name => findReexportFor_of_barred imports name barred present⟩⟩
  · intro decl declaration declared
    have outside := sound.owner_mem_scopeIds declared
    obtain ⟨outer, above⟩ := sound.exists_segments outside
    obtain ⟨verdict, barred⟩ := sound.exists_barrier asking outside
    obtain ⟨allowed, admitted⟩ := exists_admits declared asking
    refine ⟨_, verdict, allowed, declPath_of_segments declared above, barred,
      (admits_of_declared declared requester).symm.trans admitted, ?_, ?_⟩
    · rintro closed rfl
      obtain ⟨blamed, present⟩ := mem_declIds.mp (sound.admits_barrier asking outside barred).1
      exact ⟨blamed, present,
        sound.resolve_declared_of_barred asking declared above barred present⟩
    · rintro rfl
      exact sound.resolve_declared_of_clear asking declared above barred admitted

/-- `crate::outer::hidden::deeper::item`, where `hidden` and `deeper` are private, and a module
`crate::sibling` beside them. -/
def nested : Tree :=
  build none [(root, "outer", .module, .everyone), (⟨1⟩, "hidden", .module, .insiders),
    (⟨2⟩, "deeper", .module, .insiders), (root, "sibling", .module, .everyone),
    (⟨3⟩, "item", .type 0, .everyone)]

/-- Of the two private modules on the way from `sibling` the outer one is blamed. -/
theorem nested_fails_at_hidden :
    nested.Grown ∧ ⟨4⟩ ∈ nested.scopeIds ∧
      nested.scopeNamed ⟨.absolute, ["outer", "hidden"], "deeper"⟩ ⟨4⟩ =
        .error (.hidden "hidden" ⟨1⟩ ⟨1⟩) ∧
      nested.resolve ⟨.absolute, ["outer", "hidden", "deeper"], "item"⟩ ⟨4⟩ =
        .error (.hidden "hidden" ⟨1⟩ ⟨1⟩) := by
  have grown : nested.Grown := grown_build _ _
  have asking : ⟨4⟩ ∈ nested.scopeIds := by decide +kernel
  have blamed : nested.decl? ⟨1⟩ = some ⟨"hidden", ⟨1⟩, .insiders, .module ⟨2⟩⟩ := rfl
  obtain ⟨scopes, decls⟩ := absolute_paths_fail_at_barrier grown asking
  refine ⟨grown, asking, ?_, ?_⟩
  · obtain ⟨names, path, verdict, named, spelt, barred, _, fails⟩ :=
      scopes ⟨3⟩ (by decide +kernel) (by decide)
    cases (show nested.segments ⟨3⟩ = some ["outer", "hidden", "deeper"] from rfl).symm.trans named
    cases (show nested.barrier ⟨3⟩ ⟨4⟩ = some (some ⟨1⟩) from rfl).symm.trans barred
    cases spelt
    obtain ⟨declaration, present, failed, _⟩ := fails ⟨1⟩ rfl
    cases blamed.symm.trans present
    exact failed
  · obtain ⟨path, verdict, allowed, spelt, barred, _, fails, _⟩ := decls ⟨4⟩ _ rfl
    cases (show nested.declPath ⟨4⟩ =
      some ⟨.absolute, ["outer", "hidden", "deeper"], "item"⟩ from rfl).symm.trans spelt
    cases (show nested.barrier ⟨3⟩ ⟨4⟩ = some (some ⟨1⟩) from rfl).symm.trans barred
    obtain ⟨declaration, present, failed⟩ := fails ⟨1⟩ rfl
    cases blamed.symm.trans present
    exact failed

end Tree

end ScopedNames
