import Mathlib.Data.List.Induction
import ScopedNames.Proofs.Import.Entries
import ScopedNames.Proofs.Import.Faithful
import ScopedNames.Proofs.Walk.Descent

set_option autoImplicit false

namespace ScopedNames

variable {tree : Tree}

section Run

/-- A step of a run that did not fail. -/
def Tree.Taken (tree : Tree) (steps : List ImportStep) (step : ImportStep) : Prop :=
  ∃ before after next, steps = before ++ step :: after ∧
    (tree.collect before).take tree step = .ok next

theorem Tree.not_taken_nil (tree : Tree) (step : ImportStep) : ¬ tree.Taken [] step := by
  rintro ⟨before, after, _, split, _⟩
  cases before <;> cases split

theorem Tree.taken_concat {steps : List ImportStep} {last step : ImportStep} :
    tree.Taken (steps ++ [last]) step ↔
      tree.Taken steps step ∨
        step = last ∧ ∃ next, (tree.collect steps).take tree last = .ok next := by
  constructor
  · rintro ⟨before, after, next, split, taken⟩
    rcases List.eq_nil_or_concat after with rfl | ⟨rest, other, rfl⟩
    · obtain ⟨rfl, same⟩ := List.append_inj' split rfl
      cases same
      exact .inr ⟨rfl, next, taken⟩
    · rw [List.concat_eq_append, ← List.cons_append, ← List.append_assoc] at split
      obtain ⟨rfl, _⟩ := List.append_inj' split rfl
      exact .inl ⟨before, rest, next, rfl, taken⟩
  · rintro (⟨before, after, next, rfl, taken⟩ | ⟨rfl, next, taken⟩)
    · exact ⟨before, after ++ [last], next, by simp, taken⟩
    · exact ⟨steps, [], next, rfl, taken⟩

/-- After any run, claims are faithful and the imports record the steps that did not fail. -/
theorem Tree.collect_faithful (tree : Tree) (steps : List ImportStep) :
    (tree.collect steps).Faithful tree ∧
      (tree.collect steps).Records tree (tree.Taken steps) := by
  induction steps using List.reverseRecOn with
  | nil =>
    refine ⟨Imports.faithful_empty tree, ?_⟩
    refine (Imports.records_empty tree).congr fun step _ => ?_
    simp [not_taken_nil]
  | append_singleton steps last ih =>
    obtain ⟨faithful, records⟩ := ih
    rw [collect_concat]
    cases taken : (tree.collect steps).take tree last with
    | ok next =>
      rw [Imports.attempt_of_take taken]
      have made := Imports.stepsTo_of_take faithful.distinct taken
      refine ⟨faithful.take taken, (made.records records).congr fun step _ => ?_⟩
      simp [taken_concat, taken]
    | error reason =>
      rw [Imports.attempt_of_failed faithful.sized (by simp [taken])]
      refine ⟨faithful, records.congr fun step _ => ?_⟩
      simp [taken_concat, taken]
    | stray =>
      rw [Imports.attempt_of_failed faithful.sized (by simp [taken])]
      refine ⟨faithful, records.congr fun step _ => ?_⟩
      simp [taken_concat, taken]

end Run

section Reached

variable {scope target : ScopeId} {name : Name} {decl : DeclId}

theorem Tree.Sound.visibleItems_eq (sound : tree.Sound) (asking : scope ∈ tree.scopeIds)
    {here : Scope} (found : tree.scope? target = some here) :
    tree.visibleItems scope target =
      some (here.items.entries.filter fun item => tree.admits item.2 scope = some true) := by
  rw [Tree.visibleItems, found]
  refine sieve_eq_filter _ _ _ fun item bound => ?_
  have kept := Registry.find?_of_mem (sound.distinct found) bound
  obtain ⟨declaration, declared, rfl, _⟩ := (sound.bound found).mp kept
  obtain ⟨allowed, admitted⟩ := Tree.exists_admits declared asking
  rw [admitted, declared]
  change tree.permits declaration.visibility declaration.owner scope = _
  rw [← Tree.admits_of_declared declared, admitted]
  simp

/-- A glob shows the items of its target that admit the importing scope. -/
theorem Tree.Sound.shows_iff (sound : tree.Sound) (asking : scope ∈ tree.scopeIds)
    (issued : target ∈ tree.scopeIds) :
    tree.Shows scope target name decl ↔ ∃ declaration, tree.decl? decl = some declaration ∧
      declaration.owner = target ∧ declaration.name = name ∧
        tree.admits decl scope = some true := by
  obtain ⟨here, found⟩ := Tree.mem_scopeIds.mp issued
  have visible := sound.visibleItems_eq asking found
  constructor
  · rintro ⟨items, seen, shown⟩
    cases visible.symm.trans seen
    obtain ⟨bound, admitted⟩ := List.mem_filter.mp shown
    have kept := Registry.find?_of_mem (sound.distinct found) bound
    obtain ⟨declaration, declared, owner, named⟩ := (sound.bound found).mp kept
    exact ⟨declaration, declared, owner, named, of_decide_eq_true admitted⟩
  · rintro ⟨declaration, declared, owner, named, admitted⟩
    have kept := (sound.bound found).mpr ⟨declaration, declared, owner, named⟩
    refine ⟨_, visible, List.mem_filter.mpr ⟨Registry.mem_of_find? kept, ?_⟩⟩
    exact decide_eq_true admitted

/-- A glob leads to what the absolute path to the name in its target leads to. -/
theorem Imports.offered_iff_resolve (sound : tree.Sound) {imports : Imports} {path : Path}
    (sized : imports.tables.size = tree.scopes.size) (apart : scope ≠ target)
    (opens : tree.Opens scope target) (spelt : tree.itemPath target name = some path) :
    imports.Offered tree scope target name decl ↔
      imports.resolve tree path scope = .ok decl := by
  obtain ⟨asking, issued⟩ := issued_of_opens apart opens
  obtain ⟨names, named, same⟩ := Option.map_eq_some_iff.mp spelt
  cases same
  have reached : tree.reach ⟨.absolute, names, name⟩ scope = .ok target :=
    sound.walk_segments_of_clear asking issued named opens.1
  obtain ⟨here, found⟩ := Tree.mem_scopeIds.mp issued
  obtain ⟨table, present⟩ := (exists_table_iff sized).mpr issued
  rw [Offered, sound.shows_iff asking issued, ← sound.findAdmitted_eq_ok_iff, PassesOn, resolve,
    reached, Outcome.ok_bind, Tree.local?, found, Option.map_some, Outcome.lift_some,
    Outcome.ok_bind, ← findReexport_eq_ok_iff present]
  cases declared : here.items.find? name with
  | none =>
    have missing : tree.findAdmitted target name scope ≠ .ok decl := by
      simp [Tree.findAdmitted, Tree.find, Tree.local?, found, declared]
    simp [missing]
  | some other => simp

end Reached

/-- Some step of a run imported a declaration under a name by a path. -/
def Tree.Imported (tree : Tree) (steps : List ImportStep) (scope : ScopeId) (name : Name)
    (decl : DeclId) : Prop :=
  ∃ before path asName reexport after next,
    steps = before ++ .importPath scope path asName reexport :: after ∧
    asName.getD path.name = name ∧
    (tree.collect before).importPath tree scope path asName reexport = .ok (decl, next)

/-- The absolute path to a name in a scope that a glob imports from leads to a declaration. -/
def Imports.Reaches (imports : Imports) (tree : Tree) (scope : ScopeId) (name : Name)
    (decl : DeclId) : Prop :=
  ∃ target path, ⟨scope, target⟩ ∈ imports.globs ∧ tree.itemPath target name = some path ∧
    imports.resolve tree path scope = .ok decl

namespace Imports

section Meaning

variable (imports : Imports) (tree : Tree) (scope : ScopeId) (name : Name)
  (imported reached : DeclId → Prop)

/-- The entry of a name, told by what was imported under it and by what the globs reach. -/
structure EntryMeans : Prop where
  explicit : ∀ target,
    (∃ reexport, imports.binding? scope name = some (.explicit target reexport)) ↔
    imported target
  absent : (∀ target, ¬ imported target) →
    (imports.binding? scope name = none ↔ ∀ decl, ¬ reached decl)
  single : (∀ target, ¬ imported target) → ∀ decl,
    (∃ source, imports.binding? scope name = some (.globbed ⟨decl, source⟩ [])) ↔
      ∀ other, reached other ↔ other = decl
  disputed : (∀ target, ¬ imported target) →
    ((∃ first second others,
        imports.binding? scope name = some (.globbed first (second :: others))) ↔
      ∃ one other, one ≠ other ∧ reached one ∧ reached other)
  candidates : (∀ target, ¬ imported target) → ∀ first others,
    imports.binding? scope name = some (.globbed first others) →
      ((first :: others).map (·.target)).Nodup ∧
        ∀ decl, decl ∈ (first :: others).map (·.target) ↔ reached decl

/-- The answer of a look-up, by what was imported under the name and by what the globs reach. -/
structure LookupMeans : Prop where
  explicit : ∀ target, imported target → imports.lookup tree name scope = .ok target
  single : (∀ target, ¬ imported target) → ∀ decl, (∀ other, reached other ↔ other = decl) →
    imports.lookup tree name scope = .ok decl
  disputed : (∀ target, ¬ imported target) → ∀ one other, one ≠ other → reached one →
    reached other → ∃ candidates,
      imports.lookup tree name scope = .error (.ambiguous name candidates) ∧
        candidates.Nodup ∧ ∀ decl, decl ∈ candidates ↔ reached decl
  own : (∀ target, ¬ imported target) → (∀ decl, ¬ reached decl) → ∀ decl,
    tree.local? scope name = some (some decl) → imports.lookup tree name scope = .ok decl
  missing : (∀ target, ¬ imported target) → (∀ decl, ¬ reached decl) →
    tree.local? scope name = some none →
      imports.lookup tree name scope = .error (.missing name scope)

/-- What entries and look-ups are told by, in terms of the explicit import and the claims. -/
structure EntryFacts : Prop where
  explicit : ∀ target, (∃ reexport, imports.explicit? scope name = some (target, reexport)) ↔
    imported target
  claimed : imports.explicit? scope name = none → ∀ decl,
    decl ∈ imports.targets scope name ↔ reached decl
  distinct : (imports.targets scope name).Nodup

variable {imports tree scope name imported reached}

theorem eq_singleton_iff {members : List DeclId} (distinct : members.Nodup)
    (same : ∀ decl, decl ∈ members ↔ reached decl) (decl : DeclId) :
    members = [decl] ↔ ∀ other, reached other ↔ other = decl := by
  rw [← List.perm_singleton, List.perm_ext_iff_of_nodup distinct (by simp)]
  simp [same]

theorem exists_two_iff {members : List DeclId} (distinct : members.Nodup)
    (same : ∀ decl, decl ∈ members ↔ reached decl) :
    (∃ first second others, members = first :: second :: others) ↔
      ∃ one other, one ≠ other ∧ reached one ∧ reached other := by
  constructor
  · rintro ⟨first, second, others, rfl⟩
    exact ⟨first, second, by grind, (same first).mp (by simp), (same second).mp (by simp)⟩
  · rintro ⟨one, other, apart, left, right⟩
    match members with
    | [] => cases (same one).mpr left
    | [only] =>
      have first := List.mem_singleton.mp ((same one).mpr left)
      have second := List.mem_singleton.mp ((same other).mpr right)
      exact absurd (first.trans second.symm) apart
    | first :: second :: others => exact ⟨first, second, others, rfl⟩

namespace EntryFacts

variable (facts : imports.EntryFacts scope name imported reached)

include facts

theorem explicit_none (free : ∀ target, ¬ imported target) :
    imports.explicit? scope name = none := by
  cases found : imports.explicit? scope name with
  | none => rfl
  | some pair => exact absurd ((facts.explicit pair.1).mp ⟨pair.2, found⟩) (free pair.1)

theorem mem_targets (free : ∀ target, ¬ imported target) (decl : DeclId) :
    decl ∈ imports.targets scope name ↔ reached decl :=
  facts.claimed (facts.explicit_none free) decl

theorem targets_nil_iff (free : ∀ target, ¬ imported target) :
    imports.targets scope name = [] ↔ ∀ decl, ¬ reached decl := by
  rw [List.eq_nil_iff_forall_not_mem]
  exact forall_congr' fun decl => not_congr (facts.mem_targets free decl)

theorem entryMeans : imports.EntryMeans scope name imported reached := by
  have members (free : ∀ target, ¬ imported target) := facts.mem_targets free
  refine ⟨?_, ?_, ?_, ?_, ?_⟩
  · simpa only [explicit?, Binding.explicit?_eq_some_iff] using facts.explicit
  · intro free
    rw [binding?_eq_none_iff, facts.targets_nil_iff free, and_iff_right (facts.explicit_none free)]
  · intro free decl
    rw [← targets_eq_singleton_iff, eq_singleton_iff facts.distinct (members free)]
  · intro free
    rw [← targets_eq_cons_cons_iff, exists_two_iff facts.distinct (members free)]
  · intro free first others entry
    have same : imports.targets scope name = (first :: others).map (·.target) := by
      rw [targets, entry]
      rfl
    exact same ▸ ⟨facts.distinct, members free⟩

theorem lookupMeans {table : BindingTable} (present : imports.table? scope = some table) :
    imports.LookupMeans tree scope name imported reached := by
  have members (free : ∀ target, ¬ imported target) := facts.mem_targets free
  have unclaimed (free : ∀ target, ¬ imported target) (nothing : ∀ decl, ¬ reached decl) :
      imports.lookup tree name scope = tree.find scope name := by
    have empty := (facts.targets_nil_iff free).mpr nothing
    rw [lookup_eq present, facts.explicit_none free, empty]
  refine ⟨?_, ?_, ?_, ?_, ?_⟩
  · intro target chosen
    obtain ⟨reexport, found⟩ := (facts.explicit target).mpr chosen
    rw [lookup_eq present, found]
  · intro free decl only
    have single := (eq_singleton_iff facts.distinct (members free) decl).mpr only
    rw [lookup_eq present, facts.explicit_none free, single]
  · intro free one other apart left right
    obtain ⟨first, second, others, many⟩ :=
      (exists_two_iff facts.distinct (members free)).mpr ⟨one, other, apart, left, right⟩
    refine ⟨imports.targets scope name, ?_, facts.distinct, members free⟩
    rw [lookup_eq present, facts.explicit_none free, many]
  · intro free nothing decl declared
    rw [unclaimed free nothing, Tree.find, declared]
    rfl
  · intro free nothing undeclared
    rw [unclaimed free nothing, Tree.find, undeclared]
    rfl

end EntryFacts

end Meaning

end Imports

namespace Tree

theorem imported_iff_taken {steps : List ImportStep} {scope : ScopeId} {name : Name}
    {decl : DeclId} :
    tree.Imported steps scope name decl ↔
      ∃ step, tree.Taken steps step ∧ ∃ reexport, step.Binds tree scope name decl reexport := by
  constructor
  · rintro ⟨before, path, asName, reexport, after, next, split, named, made⟩
    have resolved := (Imports.importPath_eq_ok_iff.mp made).1
    exact ⟨_, ⟨before, after, next, split, Outcome.bind_eq_ok.mpr ⟨_, made, rfl⟩⟩, reexport,
      path, asName, rfl, named, resolved⟩
  · rintro ⟨_, ⟨before, after, next, split, taken⟩, reexport, path, asName, rfl, named, resolved⟩
    obtain ⟨⟨target, bound⟩, made, _⟩ := Outcome.bind_eq_ok.mp taken
    cases resolved.symm.trans (Imports.importPath_eq_ok_iff.mp made).1
    exact ⟨before, path, asName, reexport, after, bound, split, named, made⟩

/-- The claims of settled globs are what the absolute paths through their targets lead to. -/
theorem Sound.mem_targets_iff_reaches (sound : tree.Sound) {imports settled : Imports}
    (faithful : imports.Faithful tree) (ran : imports.settle tree = some settled) {scope : ScopeId}
    {name : Name} (absent : settled.explicit? scope name = none) (decl : DeclId) :
    decl ∈ settled.targets scope name ↔ settled.Reaches tree scope name decl := by
  have after := faithful.of_settle ran
  rw [faithful.settled ran absent]
  constructor
  · rintro ⟨target, recorded, offered⟩
    obtain ⟨apart, opens⟩ := after.opened _ recorded
    obtain ⟨names, named⟩ := sound.exists_segments (Imports.issued_of_opens apart opens).2
    have spelt : tree.itemPath target name = some ⟨.absolute, names, name⟩ := by
      rw [itemPath, named, Option.map_some]
    exact ⟨target, _, recorded, spelt,
      (Imports.offered_iff_resolve sound after.sized apart opens spelt).mp offered⟩
  · rintro ⟨target, path, recorded, spelt, resolved⟩
    obtain ⟨apart, opens⟩ := after.opened _ recorded
    exact ⟨target, recorded,
      (Imports.offered_iff_resolve sound after.sized apart opens spelt).mpr resolved⟩

/-- However imports were collected, they can be settled. An entry then stands for what its name was
explicitly imported for, or else for all that the globs of its scope lead to. -/
theorem settled_imports_mean (grown : tree.Grown) (steps : List ImportStep) :
    ∃ settled, (tree.collect steps).settle tree = some settled ∧ ∀ scope name,
      settled.EntryMeans scope name (tree.Imported steps scope name)
        (settled.Reaches tree scope name) ∧
      (scope ∈ tree.scopeIds → settled.LookupMeans tree scope name
        (tree.Imported steps scope name) (settled.Reaches tree scope name)) := by
  obtain ⟨faithful, records⟩ := tree.collect_faithful steps
  obtain ⟨settled, ran⟩ := faithful.exists_settle
  have after := faithful.of_settle ran
  have recorded := records.of_settle faithful.distinct ran
  refine ⟨settled, ran, fun scope name => ?_⟩
  have facts : settled.EntryFacts scope name (tree.Imported steps scope name)
      (settled.Reaches tree scope name) := by
    refine ⟨fun target => ?_, ?_, after.nodup scope name⟩
    · rw [imported_iff_taken, recorded.imported]
    · exact grown.sound.mem_targets_iff_reaches faithful ran
  refine ⟨facts.entryMeans, fun issued => ?_⟩
  obtain ⟨table, present⟩ := (Imports.exists_table_iff after.sized).mpr issued
  exact facts.lookupMeans present

/-- `facade` keeps `imp::Thing` to itself, `other` declares another `Thing`, and `user` declares
nothing. -/
def storefront : Tree :=
  build none [(root, "facade", .module, .everyone), (⟨1⟩, "imp", .module, .insiders),
    (⟨2⟩, "Thing", .type 0, .everyone), (root, "other", .module, .everyone),
    (⟨3⟩, "Thing", .value 0, .everyone), (root, "user", .module, .everyone)]

/-- `user` imports all from both, and only then does `facade` pass on what it keeps. -/
def storefrontSteps : List ImportStep :=
  [.importGlob ⟨4⟩ ⟨1⟩, .importGlob ⟨4⟩ ⟨3⟩,
    .importPath ⟨1⟩ ⟨.here, ["imp"], "Thing"⟩ none true]

/-- What is passed on late still makes the name ambiguous. -/
theorem storefront_name_disputed :
    storefront.Grown ∧ ∃ settled, (storefront.collect storefrontSteps).settle storefront =
        some settled ∧
      settled.lookup storefront "Thing" ⟨4⟩ = .error (.ambiguous "Thing" [⟨4⟩, ⟨2⟩]) ∧
      ∀ decl, settled.Reaches storefront ⟨4⟩ "Thing" decl ↔ decl = ⟨4⟩ ∨ decl = ⟨2⟩ := by
  have grown : storefront.Grown := grown_build _ _
  obtain ⟨settled, ran, means⟩ := settled_imports_mean grown storefrontSteps
  have entry : settled.binding? ⟨4⟩ "Thing" = some (.globbed ⟨⟨4⟩, ⟨3⟩⟩ [⟨⟨2⟩, ⟨1⟩⟩]) := by
    have found : ((storefront.collect storefrontSteps).settle storefront).bind
        (·.binding? ⟨4⟩ "Thing") = some (.globbed ⟨⟨4⟩, ⟨3⟩⟩ [⟨⟨2⟩, ⟨1⟩⟩]) := by decide +kernel
    rwa [ran] at found
  have answer : settled.lookup storefront "Thing" ⟨4⟩ =
      .error (.ambiguous "Thing" [⟨4⟩, ⟨2⟩]) := by
    have found : ((storefront.collect storefrontSteps).settle storefront).map
        (·.lookup storefront "Thing" ⟨4⟩) =
          some (.error (.ambiguous "Thing" [⟨4⟩, ⟨2⟩])) := by decide +kernel
    rw [ran, Option.map_some] at found
    exact Option.some.inj found
  obtain ⟨entries, _⟩ := means ⟨4⟩ "Thing"
  have free (target : DeclId) : ¬ storefront.Imported storefrontSteps ⟨4⟩ "Thing" target := by
    intro imported
    obtain ⟨reexport, explicit⟩ := (entries.explicit target).mpr imported
    cases entry.symm.trans explicit
  refine ⟨grown, settled, ran, answer, fun decl => ?_⟩
  rw [← (entries.candidates free _ _ entry).2 decl]
  simp

end Tree

end ScopedNames
