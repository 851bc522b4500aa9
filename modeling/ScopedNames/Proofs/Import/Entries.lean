import ScopedNames.Import

set_option autoImplicit false

namespace ScopedNames

namespace Binding

/-- The declaration a name is explicitly imported for, and whether it is passed on. -/
def explicit? : Option Binding → Option (DeclId × Bool)
  | some (.explicit target reexport) => some (target, reexport)
  | some (.globbed _ _) | none => none

/-- The declarations that globs claim under a name. -/
def targets : Option Binding → List DeclId
  | some binding => binding.claims.map (·.target)
  | none => []

theorem explicit?_eq_some_iff {entry : Option Binding} {target : DeclId} {reexport : Bool} :
    explicit? entry = some (target, reexport) ↔ entry = some (.explicit target reexport) := by
  match entry with
  | none => simp [explicit?]
  | some (.explicit _ _) => simp [explicit?]
  | some (.globbed _ _) => simp [explicit?]

theorem targets_of_explicit? {entry : Option Binding} {pair : DeclId × Bool}
    (found : explicit? entry = some pair) : targets entry = [] := by
  rw [explicit?_eq_some_iff.mp found]
  rfl

/-- The entry of a name after some declarations have been offered for it. -/
structure Absorbs (before after : Option Binding) (offered : DeclId → Prop) : Prop where
  explicit : explicit? after = explicit? before
  mem_targets : explicit? before = none → ∀ target,
    target ∈ targets after ↔ target ∈ targets before ∨ offered target
  nodup : (targets before).Nodup → (targets after).Nodup

namespace Absorbs

theorem refl (entry : Option Binding) : Absorbs entry entry fun _ => False :=
  ⟨rfl, fun _ _ => (or_false _).symm.to_iff, id⟩

theorem congr {before after : Option Binding} {offered also : DeclId → Prop}
    (absorbs : Absorbs before after offered) (same : ∀ target, offered target ↔ also target) :
    Absorbs before after also :=
  ⟨absorbs.explicit, fun free target => by rw [absorbs.mem_targets free, same], absorbs.nodup⟩

theorem trans {first second third : Option Binding} {offered also : DeclId → Prop}
    (left : Absorbs first second offered) (right : Absorbs second third also) :
    Absorbs first third fun target => offered target ∨ also target := by
  refine ⟨right.explicit.trans left.explicit, ?_, fun distinct => right.nodup (left.nodup distinct)⟩
  intro free target
  rw [right.mem_targets (left.explicit.trans free), left.mem_targets free, or_assoc]

theorem of_isClaimed {first : Claim} {others : List Claim} {target : DeclId} :
    isClaimed (.globbed first others) target = true ↔
      target ∈ targets (some (.globbed first others)) := by
  simp [isClaimed, targets]

/-- One claim is absorbed: taken if nothing is claimed yet or all claims differ, else dropped. -/
theorem afterClaim (before : Option Binding) (claim : Claim) :
    Absorbs before (some (Binding.afterClaim before claim)) (· = claim.target) := by
  match before with
  | none =>
    refine ⟨rfl, fun _ target => ?_, fun _ => ?_⟩
    · simp [Binding.afterClaim, targets, claims]
    · simp [Binding.afterClaim, targets, claims]
  | some (.explicit target reexport) =>
    refine ⟨rfl, fun free => ?_, fun _ => List.nodup_nil⟩
    cases free
  | some (.globbed first others) =>
    by_cases repeated : isClaimed (.globbed first others) claim.target = true
    · have present := of_isClaimed.mp repeated
      rw [Binding.afterClaim, if_pos repeated]
      refine ⟨rfl, fun _ target => ?_, id⟩
      constructor
      · exact .inl
      · rintro (old | rfl)
        · exact old
        · exact present
    · have absent : claim.target ∉ targets (some (.globbed first others)) :=
        fun present => repeated (of_isClaimed.mpr present)
      have grown : targets (some (.globbed first (others ++ [claim]))) =
          targets (some (.globbed first others)) ++ [claim.target] := by
        simp [targets, claims]
      rw [Binding.afterClaim, if_neg repeated]
      refine ⟨rfl, fun _ target => ?_, fun distinct => ?_⟩
      · rw [grown, List.mem_append, List.mem_singleton]
      · rw [grown]
        exact List.nodup_append.mpr ⟨distinct, by simp, by grind⟩

end Absorbs

end Binding

theorem Registry.nodup_bind {α : Type} {registry : Registry α} (distinct : registry.names.Nodup)
    (name : Name) (value : α) : (registry.bind name value).names.Nodup := by
  rw [names_bind]
  split
  · exact distinct
  · exact List.nodup_append.mpr ⟨distinct, by simp, by grind⟩

namespace BindingTable

theorem claimAll_cons (table : BindingTable) (source : ScopeId) (name : Name) (target : DeclId)
    (offers : List (Name × DeclId)) :
    table.claimAll source ((name, target) :: offers) =
      (table.claim name ⟨target, source⟩).claimAll source offers := rfl

theorem absorbs_claimAll (table : BindingTable) (source : ScopeId)
    (offers : List (Name × DeclId)) (name : Name) :
    Binding.Absorbs (table.find? name) ((table.claimAll source offers).find? name)
      fun target => (name, target) ∈ offers := by
  induction offers generalizing table with
  | nil => exact (Binding.Absorbs.refl _).congr fun target => by simp
  | cons offer offers ih =>
    obtain ⟨offered, target⟩ := offer
    have rest := ih (table.claim offered ⟨target, source⟩)
    rw [claimAll_cons]
    by_cases same : name = offered
    · subst same
      rw [claim, Registry.find?_bind_self] at rest
      exact ((Binding.Absorbs.afterClaim _ _).trans rest).congr fun other => by simp
    · rw [claim, Registry.find?_bind, if_neg same] at rest
      exact rest.congr fun other => by simp [same]

theorem nodup_claimAll {table : BindingTable} (distinct : table.names.Nodup) (source : ScopeId)
    (offers : List (Name × DeclId)) : (table.claimAll source offers).names.Nodup := by
  induction offers generalizing table with
  | nil => exact distinct
  | cons offer offers ih => exact ih (Registry.nodup_bind distinct _ _)

/-- Where no name is bound twice, the re-exports are the names explicitly imported as such. -/
theorem mem_reexports {table : BindingTable} (distinct : table.names.Nodup) {name : Name}
    {target : DeclId} :
    (name, target) ∈ table.reexports ↔
      Binding.explicit? (table.find? name) = some (target, true) := by
  rw [Binding.explicit?_eq_some_iff]
  constructor
  · intro passed
    obtain ⟨⟨known, binding⟩, bound, same⟩ := List.mem_filterMap.mp passed
    obtain ⟨found, reexported, pair⟩ := Option.map_eq_some_iff.mp same
    cases pair
    match binding, reexported with
    | .explicit _ true, rfl => exact Registry.find?_of_mem distinct bound
  · intro found
    exact List.mem_filterMap.mpr ⟨_, Registry.mem_of_find? found, rfl⟩

/-- An explicit import fails only where the name is explicitly imported for something else. -/
theorem importExplicit_eq_ok_iff {table next : BindingTable} {name : Name} {target : DeclId}
    {reexport : Bool} :
    (importExplicit name target reexport).outcome table = .ok ((), next) ↔
      (∀ pair, Binding.explicit? (table.find? name) = some pair → pair.1 = target) ∧
        next = table.bind name (.explicit target
          ((Binding.explicit? (table.find? name)).any (·.2) || reexport)) := by
  rw [Action.outcome_eq_ok_iff, importExplicit]
  match table.find? name with
  | none => simp [Binding.explicit?, eq_comm]
  | some (.globbed _ _) => simp [Binding.explicit?, eq_comm]
  | some (.explicit existing already) =>
    by_cases same : existing = target
    · simp [Binding.explicit?, same, eq_comm]
    · simp [Binding.explicit?, same]

/-- A failing import is told what its name is explicitly imported for. -/
theorem importExplicit_eq_error_iff {table : BindingTable} {name : Name} {target : DeclId}
    {reexport : Bool} {existing : DeclId} :
    (importExplicit name target reexport).outcome table = .error existing ↔
      existing ≠ target ∧ ∃ already, table.find? name = some (.explicit existing already) := by
  rw [Action.outcome_eq_error_iff, importExplicit]
  match table.find? name with
  | none => simp
  | some (.globbed _ _) => simp
  | some (.explicit other already) =>
    by_cases same : other = target
    · subst same
      simp +contextual [eq_comm]
    · simp only [same, if_false, Outcome.error.injEq, Option.some.injEq, Binding.explicit.injEq]
      constructor
      · rintro rfl
        exact ⟨same, already, rfl, rfl⟩
      · rintro ⟨_, _, found, _⟩
        exact found

theorem importExplicit_ne_stray (table : BindingTable) (name : Name) (target : DeclId)
    (reexport : Bool) : (importExplicit name target reexport).outcome table ≠ .stray := by
  unfold Action.outcome importExplicit
  split
  · split <;> simp
  · simp
  · simp

end BindingTable

/-- A glob import of `target` into `importing` sees the item. -/
def Tree.Shows (tree : Tree) (importing target : ScopeId) (name : Name) (decl : DeclId) : Prop :=
  ∃ items, tree.visibleItems importing target = some items ∧ (name, decl) ∈ items

namespace Imports

/-- The entry of a name in the table of a scope. -/
def binding? (imports : Imports) (scope : ScopeId) (name : Name) : Option Binding :=
  (imports.table? scope).bind (·.find? name)

/-- No table binds a name twice. -/
def Distinct (imports : Imports) : Prop :=
  ∀ scope table, imports.table? scope = some table → table.names.Nodup

/-- The declaration a name is explicitly imported for, and whether it is passed on. -/
def explicit? (imports : Imports) (scope : ScopeId) (name : Name) : Option (DeclId × Bool) :=
  Binding.explicit? (imports.binding? scope name)

/-- A scope passes a declaration on under a name that it declares nothing by. -/
def PassesOn (imports : Imports) (tree : Tree) (scope : ScopeId) (name : Name) (decl : DeclId) :
    Prop :=
  tree.local? scope name = some none ∧ imports.explicit? scope name = some (decl, true)

/-- The declarations that globs claim under a name of a scope. -/
def targets (imports : Imports) (scope : ScopeId) (name : Name) : List DeclId :=
  Binding.targets (imports.binding? scope name)

theorem exists_table {imports : Imports} {scope : ScopeId} :
    (∃ table, imports.table? scope = some table) ↔ scope.index < imports.tables.size := by
  simp [table?, ← Option.isSome_iff_exists]

theorem binding?_of_table {imports : Imports} {scope : ScopeId} {table : BindingTable}
    (present : imports.table? scope = some table) (name : Name) :
    imports.binding? scope name = table.find? name := by
  rw [binding?, present, Option.bind_some]

section SetTable

variable {imports : Imports} {scope : ScopeId} {old : BindingTable}

theorem size_setTable (imports : Imports) (scope : ScopeId) (table : BindingTable) :
    (imports.setTable scope table).tables.size = imports.tables.size := by
  simp [setTable]

theorem binding?_setTable (present : imports.table? scope = some old) (table : BindingTable)
    (other : ScopeId) (name : Name) :
    (imports.setTable scope table).binding? other name =
      if other = scope then table.find? name else imports.binding? other name := by
  have inside := exists_table.mp ⟨old, present⟩
  by_cases same : other = scope
  · rw [binding?, table?_setTable, if_pos ⟨same, inside⟩, if_pos same, Option.bind_some]
  · rw [binding?, table?_setTable, if_neg (fun both => same both.1), if_neg same, binding?]

theorem distinct_setTable (distinct : imports.Distinct) {table : BindingTable}
    (fresh : table.names.Nodup) : (imports.setTable scope table).Distinct := by
  intro other found present
  rw [table?_setTable] at present
  split at present
  · cases present
    exact fresh
  · exact distinct other found present

end SetTable

/-- Imports after declarations have been offered to their entries. -/
structure Absorbs (before after : Imports) (offered : ScopeId → Name → DeclId → Prop) : Prop where
  sized : after.tables.size = before.tables.size
  globs : after.globs = before.globs
  distinct : before.Distinct → after.Distinct
  entries : ∀ scope name, Binding.Absorbs (before.binding? scope name) (after.binding? scope name)
    (offered scope name)

namespace Absorbs

variable {first second third : Imports} {offered also : ScopeId → Name → DeclId → Prop}

theorem refl (imports : Imports) : Absorbs imports imports fun _ _ _ => False :=
  ⟨rfl, rfl, id, fun _ _ => .refl _⟩

theorem congr (absorbs : Absorbs first second offered)
    (same : ∀ scope name decl, offered scope name decl ↔ also scope name decl) :
    Absorbs first second also :=
  ⟨absorbs.sized, absorbs.globs, absorbs.distinct,
    fun scope name => (absorbs.entries scope name).congr (same scope name)⟩

theorem trans (left : Absorbs first second offered) (right : Absorbs second third also) :
    Absorbs first third fun scope name decl => offered scope name decl ∨ also scope name decl :=
  ⟨right.sized.trans left.sized, right.globs.trans left.globs,
    fun distinct => right.distinct (left.distinct distinct),
    fun scope name => (left.entries scope name).trans (right.entries scope name)⟩

theorem explicit? (absorbs : Absorbs first second offered) (scope : ScopeId) (name : Name) :
    second.explicit? scope name = first.explicit? scope name :=
  (absorbs.entries scope name).explicit

theorem mem_targets (absorbs : Absorbs first second offered) {scope : ScopeId} {name : Name}
    (free : first.explicit? scope name = none) (decl : DeclId) :
    decl ∈ second.targets scope name ↔
      decl ∈ first.targets scope name ∨ offered scope name decl :=
  (absorbs.entries scope name).mem_targets free decl

/-- Offers change no explicit import, and so they change nothing that is passed on. -/
theorem passesOn_iff (absorbs : Absorbs first second offered) (tree : Tree) {scope : ScopeId}
    {name : Name} {decl : DeclId} :
    second.PassesOn tree scope name decl ↔ first.PassesOn tree scope name decl := by
  rw [PassesOn, PassesOn, absorbs.explicit?]

end Absorbs

section Claims

variable {imports next : Imports} {tree : Tree}

theorem absorbs_claimAll {importing target : ScopeId} {offers : List (Name × DeclId)}
    (claimed : imports.claimAll importing target offers = some next) :
    Absorbs imports next fun scope name decl => scope = importing ∧ (name, decl) ∈ offers := by
  obtain ⟨table, present, same⟩ := Option.bind_eq_some_iff.mp claimed
  cases same
  refine ⟨size_setTable _ _ _, rfl, fun distinct => ?_, fun scope name => ?_⟩
  · exact distinct_setTable distinct (BindingTable.nodup_claimAll (distinct _ _ present) _ _)
  · rw [binding?_setTable present]
    by_cases here : scope = importing
    · subst here
      rw [if_pos rfl, binding?_of_table present]
      exact (BindingTable.absorbs_claimAll table target offers name).congr fun decl => by simp
    · rw [if_neg here]
      exact (Binding.Absorbs.refl _).congr fun decl => by simp [here]

theorem mem_openReexports (distinct : imports.Distinct) {target : ScopeId}
    {offers : List (Name × DeclId)} (opened : imports.openReexports tree target = some offers)
    {name : Name} {decl : DeclId} :
    (name, decl) ∈ offers ↔ imports.PassesOn tree target name decl := by
  obtain ⟨here, issued, rest⟩ := Option.bind_eq_some_iff.mp opened
  obtain ⟨table, present, same⟩ := Option.bind_eq_some_iff.mp rest
  cases same
  rw [PassesOn, explicit?, binding?_of_table present, Tree.local?, issued, List.mem_filter,
    BindingTable.mem_reexports (distinct _ _ present), and_comm]
  simp [Registry.contains]

theorem absorbs_claimReexports (distinct : imports.Distinct) {glob : Glob}
    (claimed : imports.claimReexports tree glob = some next) :
    Absorbs imports next fun scope name decl =>
      scope = glob.importing ∧ imports.PassesOn tree glob.target name decl := by
  obtain ⟨offers, opened, claims⟩ := Option.bind_eq_some_iff.mp claimed
  exact (absorbs_claimAll claims).congr fun scope name decl => by
    rw [mem_openReexports distinct opened]

/-- A glob import that succeeds, taken apart. -/
theorem importGlob_eq_ok_iff {importing target : ScopeId} :
    imports.importGlob tree importing target = .ok next ↔
      tree.barrier target importing = some none ∧
        (importing = target ∧ next = imports ∨
          importing ≠ target ∧ ∃ items shown claimed,
            tree.visibleItems importing target = some items ∧
            imports.claimAll importing target items = some shown ∧
            shown.claimReexports tree ⟨importing, target⟩ = some claimed ∧
            next = claimed.record ⟨importing, target⟩) := by
  cases barred : tree.barrier target importing with
  | none => simp [importGlob_eq, barred]
  | some verdict =>
    cases verdict with
    | some closed => cases hidden : tree.hiddenError closed <;> simp [importGlob_eq, barred, hidden]
    | none =>
      by_cases same : importing = target
      · subst same
        simp [importGlob_eq, barred, eq_comm]
      · simp only [importGlob_eq, barred, same, Outcome.lift_some, Outcome.ok_bind, if_false,
          Outcome.bind_eq_ok, Outcome.lift_eq_ok_iff, Outcome.pure_eq, Outcome.ok.injEq, true_and,
          false_and, false_or, ne_eq, not_false_eq_true]
        constructor
        · rintro ⟨items, seen, shown, first, claimed, second, rfl⟩
          exact ⟨items, shown, claimed, seen, first, second, rfl⟩
        · rintro ⟨items, shown, claimed, seen, first, second, rfl⟩
          exact ⟨items, seen, shown, first, claimed, second, rfl⟩

/-- A glob offers what it sees in its target and what its target passes on. -/
theorem absorbs_globbed (distinct : imports.Distinct) {importing target : ScopeId}
    {items : List (Name × DeclId)} {shown claimed : Imports}
    (seen : tree.visibleItems importing target = some items)
    (first : imports.claimAll importing target items = some shown)
    (second : shown.claimReexports tree ⟨importing, target⟩ = some claimed) :
    Absorbs imports claimed fun scope name decl => scope = importing ∧
      (tree.Shows importing target name decl ∨ imports.PassesOn tree target name decl) := by
  have items := absorbs_claimAll first
  have reexports := absorbs_claimReexports (items.distinct distinct) second
  refine (items.trans reexports).congr fun scope name decl => ?_
  rw [items.passesOn_iff]
  simp [Tree.Shows, seen, and_or_left]

theorem absorbs_globs (distinct : imports.Distinct) (globs : List Glob)
    (ran : globs.foldlM (fun imports glob => imports.claimReexports tree glob) imports =
      some next) :
    Absorbs imports next fun scope name decl =>
      ∃ target, ⟨scope, target⟩ ∈ globs ∧ imports.PassesOn tree target name decl := by
  induction globs generalizing imports with
  | nil =>
    cases ran
    exact (Absorbs.refl _).congr fun scope name decl => by simp
  | cons glob globs ih =>
    obtain ⟨middle, first, rest⟩ := Option.bind_eq_some_iff.mp ran
    have step := absorbs_claimReexports distinct first
    refine (step.trans (ih (step.distinct distinct) rest)).congr ?_
    intro scope name decl
    obtain ⟨importing, source⟩ := glob
    simp only [step.passesOn_iff, List.mem_cons, Glob.mk.injEq]
    grind

/-- Settling offers every glob what its target passes on. One pass is enough, for no offer changes
what is passed on. -/
theorem absorbs_settle (distinct : imports.Distinct) (settled : imports.settle tree = some next) :
    Absorbs imports next fun scope name decl =>
      ∃ target, ⟨scope, target⟩ ∈ imports.globs ∧ imports.PassesOn tree target name decl :=
  absorbs_globs distinct imports.globs settled

end Claims

variable {imports : Imports} {tree : Tree} {scope : ScopeId} {table : BindingTable}

theorem binding?_eq_none_iff {name : Name} :
    imports.binding? scope name = none ↔
      imports.explicit? scope name = none ∧ imports.targets scope name = [] := by
  rw [explicit?, targets]
  cases imports.binding? scope name with
  | none => simp [Binding.explicit?, Binding.targets]
  | some binding =>
    cases binding with
    | explicit target reexport => simp [Binding.explicit?]
    | globbed first others => simp [Binding.explicit?, Binding.targets, Binding.claims]

theorem targets_eq_singleton_iff {name : Name} {decl : DeclId} :
    imports.targets scope name = [decl] ↔
      ∃ source, imports.binding? scope name = some (.globbed ⟨decl, source⟩ []) := by
  rw [targets]
  cases imports.binding? scope name with
  | none => simp [Binding.targets]
  | some binding =>
    cases binding with
    | explicit target reexport => simp [Binding.targets, Binding.claims]
    | globbed first others =>
      obtain ⟨target, source⟩ := first
      simp [Binding.targets, Binding.claims]

theorem targets_eq_cons_cons_iff {name : Name} :
    (∃ first second others, imports.targets scope name = first :: second :: others) ↔
      ∃ first second others,
        imports.binding? scope name = some (.globbed first (second :: others)) := by
  rw [targets]
  cases imports.binding? scope name with
  | none => simp [Binding.targets]
  | some binding =>
    cases binding with
    | explicit target reexport => simp [Binding.targets, Binding.claims]
    | globbed first others => cases others <;> simp [Binding.targets, Binding.claims]

theorem lookup_eq (present : imports.table? scope = some table) (name : Name) :
    imports.lookup tree name scope =
      match imports.explicit? scope name, imports.targets scope name with
      | some (target, _), _ => .ok target
      | none, [] => tree.find scope name
      | none, [target] => .ok target
      | none, first :: second :: others =>
        .error (.ambiguous name (first :: second :: others)) := by
  rw [lookup, present, explicit?, targets, binding?_of_table present, Outcome.lift_some,
    Outcome.ok_bind]
  cases table.find? name with
  | none => rfl
  | some binding =>
    cases binding with
    | explicit target reexport => rfl
    | globbed first others => cases others <;> rfl

theorem findReexport_eq (present : imports.table? scope = some table) (name : Name) :
    imports.findReexport scope name =
      match imports.explicit? scope name with
      | some (target, true) => .ok target
      | some (_, false) | none => .error (.missing name scope) := by
  rw [findReexport, present, explicit?, binding?_of_table present, Outcome.lift_some,
    Outcome.ok_bind]
  cases table.find? name with
  | none => rfl
  | some binding =>
    cases binding with
    | explicit target reexport => cases reexport <;> rfl
    | globbed first others => rfl

theorem findReexport_eq_ok_iff (present : imports.table? scope = some table) {name : Name}
    {decl : DeclId} :
    imports.findReexport scope name = .ok decl ↔
      imports.explicit? scope name = some (decl, true) := by
  rw [findReexport_eq present]
  cases imports.explicit? scope name with
  | none => simp
  | some pair =>
    obtain ⟨target, reexport⟩ := pair
    cases reexport <;> simp

end Imports

end ScopedNames
