import ScopedNames.Proofs.Walk.Descent

set_option autoImplicit false

namespace ScopedNames.Tree

variable {tree : Tree} {origin : ScopeId}

section Climbing

variable {here : Scope} {levels : Nat} {positive : 0 < levels}

theorem start_up_eq_ok_iff (issued : tree.scope? origin = some here) {scope : ScopeId} :
    tree.start (.up levels positive) origin = .ok scope ↔
      (origin :: here.sites.map (·.scope))[levels]? = some scope := by
  have around := ancestors_of_issued issued
  have deep := depth_of_issued issued
  cases reached : (origin :: here.sites.map (·.scope))[levels]? <;>
    simp [start, above, around, reached, deep]

theorem start_up_eq_error_iff (issued : tree.scope? origin = some here) {reason : LookupError} :
    tree.start (.up levels positive) origin = .error reason ↔
      here.sites.length < levels ∧ reason = .tooManySupers levels here.sites.length := by
  have around := ancestors_of_issued issued
  have deep := depth_of_issued issued
  have beyond : (origin :: here.sites.map (·.scope))[levels]? = none ↔
      here.sites.length < levels := by
    rw [List.getElem?_eq_none_iff, List.length_cons, List.length_map, Nat.succ_le_iff]
  rw [← beyond]
  cases reached : (origin :: here.sites.map (·.scope))[levels]? <;>
    simp [start, above, around, reached, deep, eq_comm]

end Climbing

/-- Every path starts at the root or in a scope that its origin lies in. -/
theorem start_encloses {start : Root} {scope : ScopeId} (asking : origin ∈ tree.scopeIds)
    (begun : tree.start start origin = .ok scope) :
    scope = Tree.root ∨ tree.isInside origin scope = some true := by
  cases start with
  | absolute =>
    cases begun
    exact .inl rfl
  | here =>
    cases begun
    exact .inr (isInside_self asking)
  | up levels positive =>
    obtain ⟨here, issued⟩ := mem_scopeIds.mp asking
    rw [start_up_eq_ok_iff issued] at begun
    right
    rw [isInside_eq_true_iff (ancestors_of_issued issued)]
    exact List.mem_of_getElem? begun
  | external name =>
    left
    simp only [Tree.start] at begun
    split at begun
    · cases begun
      rfl
    · cases begun

namespace Sound

theorem start_mem_scopeIds (sound : tree.Sound) {start : Root} {scope : ScopeId}
    (asking : origin ∈ tree.scopeIds) (begun : tree.start start origin = .ok scope) :
    scope ∈ tree.scopeIds := by
  rcases start_encloses asking begun with rfl | inside
  · exact sound.root_mem_scopeIds
  · exact sound.ancestor_mem_scopeIds asking inside

/-- Nothing bars the way from the root to where a path starts. -/
theorem barrier_of_start (sound : tree.Sound) {start : Root} {scope : ScopeId}
    (asking : origin ∈ tree.scopeIds) (begun : tree.start start origin = .ok scope) :
    tree.barrier scope origin = some none := by
  rcases start_encloses asking begun with rfl | inside
  · exact sound.barrier_root origin
  · exact sound.barrier_of_isInside asking (sound.ancestor_mem_scopeIds asking inside) inside

/-- One step of a walk keeps the way clear. -/
theorem barrier_of_enter (sound : tree.Sound) {scope child : ScopeId} {name : Name}
    (clear : tree.barrier scope origin = some none)
    (entered : tree.enter origin scope name = .ok child) :
    tree.barrier child origin = some none := by
  obtain ⟨decl, declaration, declared, rfl, _, opens, admitted⟩ :=
    sound.enter_eq_ok_iff.mp entered
  exact sound.barrier_child_of_clear declared opens clear admitted

theorem barrier_of_walk (sound : tree.Sound) {start scope : ScopeId} {names : List Name}
    (clear : tree.barrier start origin = some none)
    (walked : tree.walk origin start names = .ok scope) :
    tree.barrier scope origin = some none := by
  induction names generalizing start with
  | nil =>
    cases walked
    exact clear
  | cons name names ih =>
    obtain ⟨child, entered, rest⟩ := Outcome.bind_eq_ok.mp walked
    exact ih (sound.barrier_of_enter clear entered) rest

theorem barrier_of_reach (sound : tree.Sound) {path : Path} {scope : ScopeId}
    (asking : origin ∈ tree.scopeIds) (reached : tree.reach path origin = .ok scope) :
    tree.barrier scope origin = some none := by
  obtain ⟨start, begun, walked⟩ := Outcome.bind_eq_ok.mp reached
  exact sound.barrier_of_walk (sound.barrier_of_start asking begun) walked

theorem reach_mem_scopeIds (sound : tree.Sound) {path : Path} {scope : ScopeId}
    (asking : origin ∈ tree.scopeIds) (reached : tree.reach path origin = .ok scope) :
    scope ∈ tree.scopeIds :=
  mem_scopeIds_of_barrier (sound.barrier_of_reach asking reached)

/-- No path leads to a declaration that may not be named where the path is written. -/
theorem mayName_of_resolve (sound : tree.Sound) {path : Path} {decl : DeclId}
    (asking : origin ∈ tree.scopeIds) (found : tree.resolve path origin = .ok decl) :
    tree.mayName decl origin = some true := by
  obtain ⟨scope, reached, last⟩ := Outcome.bind_eq_ok.mp found
  obtain ⟨declaration, declared, rfl, _, admitted⟩ := sound.findAdmitted_eq_ok_iff.mp last
  exact (mayName_eq_true_iff declared).mpr ⟨sound.barrier_of_reach asking reached, admitted⟩

/-- Nothing bars the way to a module that a path names. -/
theorem barrier_of_scopeNamed (sound : tree.Sound) {path : Path} {scope : ScopeId}
    (asking : origin ∈ tree.scopeIds) (leads : tree.scopeNamed path origin = .ok scope) :
    tree.barrier scope origin = some none := by
  obtain ⟨decl, found, rest⟩ := Outcome.bind_eq_ok.mp leads
  have allowed := sound.mayName_of_resolve asking found
  obtain ⟨declaration, declared⟩ := mem_declIds.mp (mem_declIds_of_mayName allowed)
  rw [declared, Outcome.lift_some, Outcome.ok_bind] at rest
  cases opens : declaration.child? with
  | none => simp [opens] at rest
  | some child =>
    rw [opens] at rest
    cases rest
    exact (sound.barrier_child_eq_none_iff asking declared opens).mpr
      ((mayName_eq_true_iff declared).mp allowed)

theorem resolve_of_mayName (sound : tree.Sound) {decl : DeclId} {declaration : Declaration}
    {names : List Name} (asking : origin ∈ tree.scopeIds)
    (declared : tree.decl? decl = some declaration)
    (named : tree.segments declaration.owner = some names)
    (allowed : tree.mayName decl origin = some true) :
    tree.resolve ⟨.absolute, names, declaration.name⟩ origin = .ok decl := by
  obtain ⟨clear, admitted⟩ := (mayName_eq_true_iff declared).mp allowed
  exact sound.resolve_declared_of_clear asking declared named clear admitted

end Sound

/-- A declaration may be named from a scope exactly if some path written there leads to it, and then
its absolute path does. -/
theorem mayName_iff_exists_path (grown : tree.Grown) {decl : DeclId} {declaration : Declaration}
    (asking : origin ∈ tree.scopeIds) (declared : tree.decl? decl = some declaration) :
    (∃ allowed, tree.mayName decl origin = some allowed) ∧
      (tree.mayName decl origin = some true ↔ ∃ path, tree.resolve path origin = .ok decl) ∧
      ∃ names, tree.segments declaration.owner = some names ∧
        (tree.mayName decl origin = some true →
          tree.resolve ⟨.absolute, names, declaration.name⟩ origin = .ok decl) := by
  have sound := grown.sound
  obtain ⟨names, named⟩ := sound.exists_segments (sound.owner_mem_scopeIds declared)
  refine ⟨sound.exists_mayName (mem_declIds.mpr ⟨declaration, declared⟩) asking, ⟨?_, ?_⟩,
    names, named, sound.resolve_of_mayName asking declared named⟩
  · intro allowed
    exact ⟨_, sound.resolve_of_mayName asking declared named allowed⟩
  · rintro ⟨path, found⟩
    exact sound.mayName_of_resolve asking found

/-- From `deeper` the path `super::super::hidden::deeper::item` leads to `item`, so that `deeper`
may name it; `sibling` may not, and so has no path to it. -/
theorem item_named_inside_only :
    nested.Grown ∧ ⟨3⟩ ∈ nested.scopeIds ∧ ⟨4⟩ ∈ nested.scopeIds ∧
      nested.mayName ⟨4⟩ ⟨3⟩ = some true ∧
      ∀ path, nested.resolve path ⟨4⟩ ≠ .ok ⟨4⟩ := by
  have grown : nested.Grown := grown_build _ _
  have deeper : ⟨3⟩ ∈ nested.scopeIds := by decide +kernel
  have sibling : ⟨4⟩ ∈ nested.scopeIds := by decide +kernel
  have item : nested.decl? ⟨4⟩ = some ⟨"item", ⟨3⟩, .everyone, .type 0⟩ := rfl
  have climbing : nested.resolve ⟨.up 2 (by decide), ["hidden", "deeper"], "item"⟩ ⟨3⟩ =
      .ok ⟨4⟩ := rfl
  refine ⟨grown, deeper, sibling,
    (mayName_iff_exists_path grown deeper item).2.1.mpr ⟨_, climbing⟩, ?_⟩
  intro path found
  have allowed := (mayName_iff_exists_path grown sibling item).2.1.mpr ⟨path, found⟩
  cases (show nested.mayName ⟨4⟩ ⟨4⟩ = some false from rfl).symm.trans allowed

variable {imports : Imports}

/-- Two paths written in `origin` have the same answer, whatever they are followed for. -/
structure AnswersAlike (tree : Tree) (imports : Imports) (origin : ScopeId) (path other : Path) :
    Prop where
  reach : tree.reach path origin = tree.reach other origin
  resolve : tree.resolve path origin = tree.resolve other origin
  scopeNamed : tree.scopeNamed path origin = tree.scopeNamed other origin
  imported : imports.resolve tree path origin = imports.resolve tree other origin

/-- A path written in `origin` fails for the same reason, whatever it is followed for. -/
structure FailsFor (tree : Tree) (imports : Imports) (origin : ScopeId) (path : Path)
    (reason : LookupError) : Prop where
  reach : tree.reach path origin = .error reason
  resolve : tree.resolve path origin = .error reason
  scopeNamed : tree.scopeNamed path origin = .error reason
  imported : imports.resolve tree path origin = .error reason

/-- Paths to one name in one scope have the same answer. -/
theorem AnswersAlike.of_reach {path other : Path}
    (reached : tree.reach path origin = tree.reach other origin)
    (named : path.name = other.name) : tree.AnswersAlike imports origin path other := by
  have resolved : tree.resolve path origin = tree.resolve other origin := by
    rw [Tree.resolve, Tree.resolve, reached, named]
  refine ⟨reached, resolved, ?_, ?_⟩
  · rw [Tree.scopeNamed, Tree.scopeNamed, resolved, named]
  · rw [Imports.resolve, Imports.resolve, reached, named]

theorem FailsFor.of_reach {path : Path} {reason : LookupError}
    (failed : tree.reach path origin = .error reason) :
    tree.FailsFor imports origin path reason := by
  have unresolved : tree.resolve path origin = .error reason := by
    rw [Tree.resolve, failed, Outcome.error_bind]
  refine ⟨failed, unresolved, ?_, ?_⟩
  · rw [Tree.scopeNamed, unresolved, Outcome.error_bind]
  · rw [Imports.resolve, failed, Outcome.error_bind]

theorem reach_of_start {path : Path} {start : ScopeId}
    (begun : tree.start path.root origin = .ok start) :
    tree.reach path origin = tree.walk origin start path.modules := by
  rw [reach, begun, Outcome.ok_bind]

theorem reach_of_start_error {path : Path} {reason : LookupError}
    (failed : tree.start path.root origin = .error reason) :
    tree.reach path origin = .error reason := by
  rw [reach, failed, Outcome.error_bind]

/-- A path written in a scope of the tree starts somewhere in the tree or fails to. -/
theorem exists_start (asking : origin ∈ tree.scopeIds) (start : Root) :
    (∃ scope, tree.start start origin = .ok scope) ∨
      ∃ reason, tree.start start origin = .error reason := by
  cases start with
  | absolute => exact .inl ⟨root, rfl⟩
  | here => exact .inl ⟨origin, rfl⟩
  | up levels positive =>
    obtain ⟨here, issued⟩ := mem_scopeIds.mp asking
    rcases Nat.lt_or_ge here.sites.length levels with beyond | within
    · right
      exact ⟨_, (start_up_eq_error_iff issued).mpr ⟨beyond, rfl⟩⟩
    · left
      have short : levels < (origin :: here.sites.map (·.scope)).length := by
        rw [List.length_cons, List.length_map]
        exact Nat.lt_succ_of_le within
      exact ⟨_, (start_up_eq_ok_iff issued).mpr (List.getElem?_eq_getElem short)⟩
  | external name =>
    by_cases own : tree.externalName = some name
    · left
      exact ⟨root, by simp [Tree.start, own]⟩
    · right
      exact ⟨.unknownRoot name, by simp [Tree.start, own]⟩

namespace Sound

/-- The walk along the modules around its start brings a path to its start. -/
theorem walk_to_start (sound : tree.Sound) {start : Root} {scope : ScopeId} {outer : List Name}
    (asking : origin ∈ tree.scopeIds) (begun : tree.start start origin = .ok scope)
    (named : tree.segments scope = some outer) : tree.walk origin Tree.root outer = .ok scope :=
  sound.walk_segments_of_clear asking (sound.start_mem_scopeIds asking begun) named
    (sound.barrier_of_start asking begun)

/-- From its start on, the path spelt out goes the way of the path. -/
theorem reach_spelt (sound : tree.Sound) {path : Path} {start : ScopeId} {outer : List Name}
    (asking : origin ∈ tree.scopeIds) (begun : tree.start path.root origin = .ok start)
    (named : tree.segments start = some outer) :
    tree.reach path origin = tree.reach ⟨.absolute, outer ++ path.modules, path.name⟩ origin := by
  calc tree.reach path origin
    _ = tree.walk origin start path.modules := reach_of_start begun
    _ = tree.walk origin Tree.root outer >>= fun scope => tree.walk origin scope path.modules := by
      rw [sound.walk_to_start asking begun named, Outcome.ok_bind]
    _ = tree.reach ⟨.absolute, outer ++ path.modules, path.name⟩ origin :=
      (walk_append tree origin Tree.root outer path.modules).symm

end Sound

/-- A path that starts somewhere is answered as its absolute spelling is, errors included. One that
starts nowhere fails for the same reason whatever it is followed for. -/
theorem paths_answered_as_spelt_out (grown : tree.Grown) (asking : origin ∈ tree.scopeIds)
    (imports : Imports) (path : Path) :
    (∃ start outer spelt, tree.start path.root origin = .ok start ∧
        tree.segments start = some outer ∧ tree.walk origin Tree.root outer = .ok start ∧
        Path.ofSegments? .absolute (outer ++ path.segments) = some spelt ∧
        tree.AnswersAlike imports origin path spelt) ∨
      ∃ reason, tree.start path.root origin = .error reason ∧
        tree.FailsFor imports origin path reason := by
  have sound := grown.sound
  rcases exists_start asking path.root with ⟨start, begun⟩ | ⟨reason, failed⟩
  · left
    obtain ⟨outer, named⟩ := sound.exists_segments (sound.start_mem_scopeIds asking begun)
    have spelt : Path.ofSegments? .absolute (outer ++ path.segments) =
        some ⟨.absolute, outer ++ path.modules, path.name⟩ := by
      rw [Path.segments, ← List.append_assoc, Path.ofSegments?_concat]
    exact ⟨start, outer, _, begun, named, sound.walk_to_start asking begun named, spelt,
      .of_reach (sound.reach_spelt asking begun named) rfl⟩
  · right
    exact ⟨reason, failed, .of_reach (reach_of_start_error failed)⟩

/-- From `sibling`, `super::outer::hidden::deeper` is answered as `crate::outer::hidden::deeper` is,
and `super::super::outer` starts nowhere. -/
theorem nested_paths_spelt_out :
    nested.Grown ∧ ⟨4⟩ ∈ nested.scopeIds ∧
      nested.AnswersAlike (.empty nested) ⟨4⟩
        ⟨.up 1 (by decide), ["outer", "hidden"], "deeper"⟩
        ⟨.absolute, ["outer", "hidden"], "deeper"⟩ ∧
      nested.FailsFor (.empty nested) ⟨4⟩ ⟨.up 2 (by decide), [], "outer"⟩
        (.tooManySupers 2 1) := by
  have grown : nested.Grown := grown_build _ _
  have asking : ⟨4⟩ ∈ nested.scopeIds := by decide +kernel
  refine ⟨grown, asking, ?_, ?_⟩
  · obtain ⟨start, outer, spelt, begun, named, _, written, alike⟩ | ⟨_, failed, _⟩ :=
      paths_answered_as_spelt_out grown asking (.empty nested)
        ⟨.up 1 (by decide), ["outer", "hidden"], "deeper"⟩
    · cases (show nested.start (.up 1 (by decide)) ⟨4⟩ = .ok root from rfl).symm.trans begun
      cases (show nested.segments root = some [] from rfl).symm.trans named
      cases written
      exact alike
    · cases failed
  · obtain ⟨_, _, _, begun, _⟩ | ⟨reason, failed, fails⟩ :=
      paths_answered_as_spelt_out grown asking (.empty nested)
        ⟨.up 2 (by decide), [], "outer"⟩
    · cases begun
    · cases failed
      exact fails

end ScopedNames.Tree
