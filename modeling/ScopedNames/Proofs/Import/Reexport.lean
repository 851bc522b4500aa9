import ScopedNames.Proofs.Diagnostic
import ScopedNames.Proofs.Import.Settled
import ScopedNames.Proofs.Walk.Answers
import ScopedNames.Proofs.Walk.Reasons

set_option autoImplicit false

namespace ScopedNames

section Widening

variable {tree : Tree} {imports : Imports} {origin : ScopeId}

namespace Imports

/-- What re-exports make of the answer to a path: they only stand in for a name that is missing
where the path ends. -/
inductive Widens (imports : Imports) (tree : Tree) (path : Path) (origin : ScopeId) :
    Outcome LookupError DeclId → Outcome LookupError DeclId → Prop where
  | found (decl : DeclId) : Widens imports tree path origin (.ok decl) (.ok decl)
  | passedOn {scope : ScopeId} {target : DeclId} (reached : tree.reach path origin = .ok scope)
    (passed : imports.binding? scope path.name = some (.explicit target true)) :
    Widens imports tree path origin (.error (.missing path.name scope)) (.ok target)
  | failed {reason : LookupError}
    (unpassed : ∀ scope target, tree.reach path origin = .ok scope →
      reason = .missing path.name scope →
        imports.binding? scope path.name ≠ some (.explicit target true)) :
    Widens imports tree path origin (.error reason) (.error reason)

section Last

variable {path : Path} {scope : ScopeId}

/-- A name that is declared where a path ends is not looked for among re-exports. -/
theorem resolve_of_declared {decl : DeclId} (reached : tree.reach path origin = .ok scope)
    (bound : tree.local? scope path.name = some (some decl)) :
    imports.resolve tree path origin = tree.resolve path origin := by
  simp [resolve, Tree.resolve, reached, bound]

theorem resolve_of_undeclared (reached : tree.reach path origin = .ok scope)
    (undeclared : tree.local? scope path.name = some none) :
    imports.resolve tree path origin = imports.findReexport scope path.name := by
  simp [resolve, reached, undeclared]

theorem resolve_of_reach_error {reason : LookupError}
    (failed : tree.reach path origin = .error reason) :
    imports.resolve tree path origin = tree.resolve path origin := by
  rw [resolve, Tree.resolve, failed, Outcome.error_bind, Outcome.error_bind]

end Last

end Imports

namespace Tree

variable {path : Path} {scope : ScopeId}

theorem resolve_of_undeclared (reached : tree.reach path origin = .ok scope)
    (undeclared : tree.local? scope path.name = some none) :
    tree.resolve path origin = .error (.missing path.name scope) := by
  simp [resolve, findAdmitted, find, reached, undeclared]

/-- An item that is declared where a path ends is found or hidden, but not missing. -/
theorem Sound.resolve_of_declared (sound : tree.Sound) (asking : origin ∈ tree.scopeIds)
    {decl : DeclId} (reached : tree.reach path origin = .ok scope)
    (bound : tree.local? scope path.name = some (some decl)) :
    tree.resolve path origin = .ok decl ∨
      tree.resolve path origin = .error (.hidden path.name decl scope) := by
  obtain ⟨declaration, declared, rfl, named⟩ := sound.local?_eq_some_iff.mp bound
  obtain ⟨allowed, admitted⟩ := exists_admits declared asking
  have answer := sound.findAdmitted_declared declared admitted
  rw [resolve, reached, Outcome.ok_bind, ← named, answer]
  cases allowed <;> simp

end Tree

namespace Imports

variable (sound : tree.Sound) (asking : origin ∈ tree.scopeIds)

include sound asking

/-- A scope is asked for what it passes on as the absolute path to the name in it is followed: both
stop at the barrier to the scope. -/
theorem resolve_eq_findReexportFor {scope : ScopeId} {names : List Name} {name : Name}
    (issued : scope ∈ tree.scopeIds) (named : tree.segments scope = some names)
    (undeclared : tree.local? scope name = some none) :
    imports.resolve tree ⟨.absolute, names, name⟩ origin =
      imports.findReexportFor tree scope name origin := by
  obtain ⟨_ | closed, barred⟩ := sound.exists_barrier asking issued
  · have reached : tree.reach ⟨.absolute, names, name⟩ origin = .ok scope :=
      sound.walk_segments_of_clear asking issued named barred
    calc imports.resolve tree ⟨.absolute, names, name⟩ origin
      _ = imports.findReexport scope name := resolve_of_undeclared reached undeclared
      _ = imports.findReexportFor tree scope name origin := by
        rw [findReexportFor, barred, Outcome.lift_some, Outcome.ok_bind]
  · obtain ⟨blamed, present⟩ :=
      Tree.mem_declIds.mp (sound.admits_barrier asking issued barred).1
    have failed : tree.reach ⟨.absolute, names, name⟩ origin =
        .error (.hidden blamed.name closed blamed.owner) :=
      sound.walk_segments_of_barred asking issued named barred present
    rw [resolve, failed, Outcome.error_bind,
      Tree.findReexportFor_of_barred imports name barred present]

variable (sized : imports.tables.size = tree.scopes.size)

include sized

/-- Where the last name is missing, everything depends on whether the scope passes it on. -/
theorem widens_of_undeclared {path : Path} {scope : ScopeId}
    (reached : tree.reach path origin = .ok scope)
    (undeclared : tree.local? scope path.name = some none) :
    imports.Widens tree path origin (tree.resolve path origin)
      (imports.resolve tree path origin) := by
  obtain ⟨table, present⟩ :=
    (exists_table_iff sized).mpr (sound.reach_mem_scopeIds asking reached)
  rw [Tree.resolve_of_undeclared reached undeclared, resolve_of_undeclared reached undeclared]
  by_cases passed : ∃ target, imports.binding? scope path.name = some (.explicit target true)
  · obtain ⟨target, passed⟩ := passed
    have exported := Binding.explicit?_eq_some_iff.mpr passed
    rw [(findReexport_eq_ok_iff present).mpr exported]
    exact .passedOn reached passed
  · have missing : imports.findReexport scope path.name = .error (.missing path.name scope) := by
      rw [findReexport_eq present]
      split
      · next target exported =>
        exact absurd ⟨target, Binding.explicit?_eq_some_iff.mp exported⟩ passed
      · rfl
      · rfl
    rw [missing]
    refine .failed fun other target led _ exported => passed ⟨target, ?_⟩
    cases reached.symm.trans led
    exact exported

theorem widens_resolve (path : Path) :
    imports.Widens tree path origin (tree.resolve path origin)
      (imports.resolve tree path origin) := by
  cases reached : tree.reach path origin with
  | stray => exact absurd reached (sound.reach_ne_stray asking path)
  | error reason =>
    have failed : tree.resolve path origin = .error reason := by
      rw [Tree.resolve, reached, Outcome.error_bind]
    rw [resolve_of_reach_error reached, failed]
    exact .failed fun scope _ led => by cases reached.symm.trans led
  | ok scope =>
    obtain ⟨here, issued⟩ :=
      Tree.mem_scopeIds.mp (sound.reach_mem_scopeIds asking reached)
    have looked := Tree.local?_of_issued issued path.name
    cases bound : here.items.find? path.name with
    | none => exact widens_of_undeclared sound asking sized reached (looked.trans (bound ▸ rfl))
    | some decl =>
      have declared := looked.trans (congrArg some bound)
      rw [resolve_of_declared reached declared]
      rcases sound.resolve_of_declared asking reached declared with found | hidden
      · rw [found]
        exact .found decl
      · rw [hidden]
        exact .failed fun _ _ _ missing => by cases missing

end Imports

/-- Every path has the answer of plain resolution, but for a last name that is missing and passed
on. What a scope passes on under a name that it does not declare is what the absolute path to the
name leads to, or fails for the same reason. -/
theorem Tree.reexports_widen_resolution (grown : tree.Grown)
    (sized : imports.tables.size = tree.scopes.size) (asking : origin ∈ tree.scopeIds) :
    (∀ path, imports.Widens tree path origin (tree.resolve path origin)
      (imports.resolve tree path origin)) ∧
    ∀ scope ∈ tree.scopeIds, ∀ name, tree.local? scope name = some none → ∃ outer spelt,
      tree.segments scope = some outer ∧
      Path.ofSegments? .absolute (outer ++ [name]) = some spelt ∧
      imports.resolve tree spelt origin = imports.findReexportFor tree scope name origin := by
  have sound := grown.sound
  refine ⟨Imports.widens_resolve sound asking sized, fun scope issued name undeclared => ?_⟩
  obtain ⟨outer, named⟩ := sound.exists_segments issued
  exact ⟨outer, _, named, Path.ofSegments?_concat .absolute outer name,
    Imports.resolve_eq_findReexportFor sound asking issued named undeclared⟩

/-- To `user` the path `crate::facade::Thing` has a missing name, which `facade` passes on. What
`facade::imp` passes on is out of its reach, whether it is asked for by a path or not. -/
theorem Tree.storefront_passes_on :
    storefront.Grown ∧
      (storefront.collect storefrontSteps).tables.size = storefront.scopes.size ∧
      ⟨4⟩ ∈ storefront.scopeIds ∧
      (storefront.collect storefrontSteps).Widens storefront ⟨.absolute, ["facade"], "Thing"⟩ ⟨4⟩
        (.error (.missing "Thing" ⟨1⟩)) (.ok ⟨2⟩) ∧
      (storefront.collect storefrontSteps).resolve storefront
          ⟨.absolute, ["facade", "imp"], "helper"⟩ ⟨4⟩ =
        (storefront.collect storefrontSteps).findReexportFor storefront ⟨2⟩ "helper" ⟨4⟩ ∧
      (storefront.collect storefrontSteps).findReexportFor storefront ⟨2⟩ "helper" ⟨4⟩ =
        .error (.hidden "imp" ⟨1⟩ ⟨1⟩) := by
  have grown : storefront.Grown := grown_build _ _
  have sized := (storefront.collect_faithful storefrontSteps).1.sized
  have asking : ⟨4⟩ ∈ storefront.scopeIds := by decide +kernel
  obtain ⟨paths, scopes⟩ := reexports_widen_resolution grown sized asking
  obtain ⟨outer, spelt, named, written, same⟩ := scopes ⟨2⟩ (by decide +kernel) "helper" rfl
  cases (show storefront.segments ⟨2⟩ = some ["facade", "imp"] from rfl).symm.trans named
  cases written
  refine ⟨grown, sized, asking, ?_, same, by decide +kernel⟩
  have plain : storefront.resolve ⟨.absolute, ["facade"], "Thing"⟩ ⟨4⟩ =
      .error (.missing "Thing" ⟨1⟩) := rfl
  have widened : (storefront.collect storefrontSteps).resolve storefront
      ⟨.absolute, ["facade"], "Thing"⟩ ⟨4⟩ = .ok ⟨2⟩ := by decide +kernel
  have widens := paths ⟨.absolute, ["facade"], "Thing"⟩
  rwa [plain, widened] at widens

end Widening

/-- A hint points to a name as a similar one. -/
def Diagnostic.Suggests (diagnostic : Diagnostic) (name : Name) : Prop :=
  Remark.mk .hint s!"a similar name exists: `{name}`" ∈ diagnostic.remarks

variable {tree : Tree} {scope : ScopeId} {name : Name}

/-- What a hint points to is declared where the name is missing. -/
theorem Tree.declared_of_likelyMeant {similar : Name}
    (likely : tree.likelyMeant scope name = some (some similar)) :
    ∃ decl, tree.local? scope similar = some (some decl) := by
  obtain ⟨here, issued, _⟩ := Option.bind_eq_some_iff.mp likely
  rw [likelyMeant_of_issued issued, Option.some.injEq] at likely
  have listed : similar ∈ here.items.names := List.mem_of_find?_eq_some likely
  rw [local?_of_issued issued]
  cases bound : here.items.find? similar with
  | some decl => exact ⟨decl, rfl⟩
  | none => exact absurd listed (Registry.find?_eq_none_iff.mp bound)

theorem LookupError.suggests_iff {diagnostic : Diagnostic} {other : Name}
    (described : (missing name scope).describe tree = some diagnostic) :
    diagnostic.Suggests other ↔ tree.likelyMeant scope name = some (some other) := by
  obtain ⟨place, _, rest⟩ := Option.bind_eq_some_iff.mp described
  obtain ⟨likely, meant, last⟩ := Option.bind_eq_some_iff.mp rest
  rw [meant]
  cases likely with
  | none =>
    cases last
    simp [Diagnostic.Suggests, Diagnostic.error]
  | some similar =>
    cases last
    simp [Diagnostic.Suggests, Diagnostic.error, Diagnostic.remark, toString, eq_comm]

/-- The name that is missing from a scope which does not declare it is not suggested. -/
theorem LookupError.exists_describe_of_undeclared (sound : tree.Sound)
    (undeclared : tree.local? scope name = some none) :
    ∃ diagnostic, (missing name scope).describe tree = some diagnostic ∧
      ¬ diagnostic.Suggests name := by
  obtain ⟨here, issued, _⟩ := Option.map_eq_some_iff.mp undeclared
  obtain ⟨diagnostic, described, _⟩ :=
    describe_missing_isError sound (Tree.mem_scopeIds.mpr ⟨here, issued⟩) name
  refine ⟨diagnostic, described, fun suggests => ?_⟩
  obtain ⟨decl, declared⟩ :=
    Tree.declared_of_likelyMeant ((suggests_iff described).mp suggests)
  cases undeclared.symm.trans declared

namespace Imports

variable {imports : Imports} {place : ScopeId} {word : Name}

theorem lookup_undeclared (failed : imports.lookup tree word place = .error (.missing name scope)) :
    tree.local? scope name = some none := by
  obtain ⟨table, _, rest⟩ := Outcome.lift_bind_eq_error.mp failed
  cases bound : table.find? word with
  | none =>
    rw [bound] at rest
    obtain ⟨undeclared, same⟩ := Tree.find_eq_error_iff.mp rest
    cases same
    exact undeclared
  | some binding =>
    rw [bound] at rest
    cases chosen : binding.target? <;> simp [chosen] at rest

theorem findReexport_eq_missing_iff :
    imports.findReexport place word = .error (.missing name scope) ↔
      scope = place ∧ name = word ∧ ∃ table, imports.table? place = some table ∧
        (table.find? word).bind Binding.reexported? = none := by
  cases present : imports.table? place with
  | none => simp [findReexport, present]
  | some table =>
    cases passed : (table.find? word).bind Binding.reexported? <;>
      simp [findReexport, present, passed, eq_comm, and_comm]

/-- A name is missing from what a scope passes on exactly if it is not passed on. -/
theorem findReexportFor_eq_missing_iff {requester : ScopeId} :
    imports.findReexportFor tree place word requester = .error (.missing name scope) ↔
      scope = place ∧ name = word ∧ tree.barrier place requester = some none ∧
        ∃ table, imports.table? place = some table ∧
          (table.find? word).bind Binding.reexported? = none := by
  cases barred : tree.barrier place requester with
  | none => simp [findReexportFor, barred]
  | some verdict =>
    cases verdict with
    | none => simp [findReexportFor, barred, findReexport_eq_missing_iff]
    | some closed =>
      cases present : tree.decl? closed <;>
        simp [findReexportFor, barred, Tree.hiddenError, present]

end Imports

namespace Tree

/-- A look-up of anything but a re-export fails because a name is missing from a scope. -/
inductive Misses (tree : Tree) (imports : Imports) (name : Name) (scope : ScopeId) : Prop
  | reach {path : Path} {origin : ScopeId} (asking : origin ∈ tree.scopeIds)
    (failed : tree.reach path origin = .error (.missing name scope))
  | resolve {path : Path} {origin : ScopeId} (asking : origin ∈ tree.scopeIds)
    (failed : tree.resolve path origin = .error (.missing name scope))
  | scopeNamed {path : Path} {origin : ScopeId} (asking : origin ∈ tree.scopeIds)
    (failed : tree.scopeNamed path origin = .error (.missing name scope))
  | imported {path : Path} {origin : ScopeId} (asking : origin ∈ tree.scopeIds)
    (failed : imports.resolve tree path origin = .error (.missing name scope))
  | lookup {word : Name} {place : ScopeId}
    (failed : imports.lookup tree word place = .error (.missing name scope))

/-- A name is only missing where it is not declared, and is then not suggested instead of itself.
What a scope passes on is looked for among its re-exports alone, whether it declares the name or
not. -/
theorem missing_names_undeclared (grown : tree.Grown) (imports : Imports) (name : Name)
    (scope : ScopeId) :
    (tree.Misses imports name scope → tree.local? scope name = some none) ∧
      (tree.local? scope name = some none → ∃ diagnostic,
        (LookupError.missing name scope).describe tree = some diagnostic ∧
          ¬ diagnostic.Suggests name) ∧
      ∀ place word requester,
        imports.findReexportFor tree place word requester = .error (.missing name scope) ↔
          scope = place ∧ name = word ∧ tree.barrier place requester = some none ∧
            ∃ table, imports.table? place = some table ∧
              (table.find? word).bind Binding.reexported? = none := by
  have sound := grown.sound
  refine ⟨fun misses => ?_, LookupError.exists_describe_of_undeclared sound,
    fun place word requester => Imports.findReexportFor_eq_missing_iff⟩
  cases misses with
  | reach asking failed => exact (sound.reach_warranted asking failed).2
  | resolve asking failed => exact (sound.resolve_warranted asking failed).2
  | scopeNamed asking failed => exact (sound.scopeNamed_warranted asking failed).2
  | imported asking failed => exact (sound.imported_warranted asking failed).2
  | lookup failed => exact Imports.lookup_undeclared failed

/-- `user` finds no `thing` in `other` and is pointed to `Thing`. -/
theorem thing_not_suggested :
    storefront.Grown ∧ ⟨4⟩ ∈ storefront.scopeIds ∧
      storefront.resolve ⟨.absolute, ["other"], "thing"⟩ ⟨4⟩ = .error (.missing "thing" ⟨3⟩) ∧
      storefront.local? ⟨3⟩ "thing" = some none ∧ ∃ diagnostic,
        (LookupError.missing "thing" ⟨3⟩).describe storefront = some diagnostic ∧
          ¬ diagnostic.Suggests "thing" ∧ diagnostic.Suggests "Thing" := by
  have grown : storefront.Grown := grown_build _ _
  have asking : ⟨4⟩ ∈ storefront.scopeIds := by decide +kernel
  have failed : storefront.resolve ⟨.absolute, ["other"], "thing"⟩ ⟨4⟩ =
      .error (.missing "thing" ⟨3⟩) := rfl
  obtain ⟨undeclared, describes, _⟩ :=
    missing_names_undeclared grown (.empty storefront) "thing" ⟨3⟩
  have absent := undeclared (.resolve asking failed)
  obtain ⟨diagnostic, described, plain⟩ := describes absent
  have likely : storefront.likelyMeant ⟨3⟩ "thing" = some (some "Thing") := by decide +kernel
  exact ⟨grown, asking, failed, absent, diagnostic, described, plain,
    (LookupError.suggests_iff described).mpr likely⟩

/-- The root declares `other` and does not pass it on. To one who asks for it as a re-export it is
missing, with a hint that it exists. -/
theorem declared_name_missing :
    storefront.Grown ∧ root ∈ storefront.scopeIds ∧ ⟨4⟩ ∈ storefront.scopeIds ∧
      (Imports.empty storefront).findReexportFor storefront root "other" ⟨4⟩ =
        .error (.missing "other" root) ∧
      storefront.local? root "other" = some (some ⟨3⟩) ∧ ∃ diagnostic,
        (LookupError.missing "other" root).describe storefront = some diagnostic ∧
          diagnostic.Suggests "other" := by
  have grown : storefront.Grown := grown_build _ _
  have listed : root ∈ storefront.scopeIds := by decide +kernel
  obtain ⟨diagnostic, described, _⟩ :=
    LookupError.describe_missing_isError grown.sound listed "other"
  have likely : storefront.likelyMeant root "other" = some (some "other") := by decide +kernel
  exact ⟨grown, listed, by decide +kernel, by decide +kernel, by decide +kernel, diagnostic,
    described, (LookupError.suggests_iff described).mpr likely⟩

end Tree

end ScopedNames
