import Mathlib.Data.List.Nodup
import ScopedNames.Proofs.Import.Settled
import ScopedNames.Proofs.Walk.Accessibility

set_option autoImplicit false

namespace ScopedNames

variable {tree : Tree}

namespace Binding

/-- The claims of globs on a name that may have no entry. -/
def claimsOf : Option Binding → List Claim
  | some binding => binding.claims
  | none => []

theorem targets_eq (entry : Option Binding) : targets entry = (claimsOf entry).map (·.target) := by
  cases entry <;> rfl

theorem mem_claimsOf_afterClaim {entry : Option Binding} {claim known : Claim}
    (present : known ∈ claimsOf (some (afterClaim entry claim))) :
    known ∈ claimsOf entry ∨ known = claim := by
  match entry with
  | none => exact .inr (List.mem_singleton.mp present)
  | some (.explicit _ _) => exact .inl present
  | some (.globbed first others) =>
    rw [afterClaim] at present
    split at present
    · exact .inl present
    · rw [claimsOf, claims, ← List.cons_append, List.mem_append, List.mem_singleton] at present
      exact present

end Binding

theorem BindingTable.mem_claimsOf_claimAll {table : BindingTable} {source : ScopeId}
    {offers : List (Name × DeclId)} {name : Name} {claim : Claim}
    (present : claim ∈ Binding.claimsOf ((table.claimAll source offers).find? name)) :
    claim ∈ Binding.claimsOf (table.find? name) ∨
      claim.source = source ∧ (name, claim.target) ∈ offers := by
  induction offers generalizing table with
  | nil => exact .inl present
  | cons offer offers ih =>
    obtain ⟨offered, target⟩ := offer
    rw [claimAll_cons] at present
    rcases ih present with before | ⟨made, listed⟩
    · rw [BindingTable.claim, Registry.find?_bind] at before
      split at before
      · rename_i same
        subst same
        rcases Binding.mem_claimsOf_afterClaim before with old | rfl
        · exact .inl old
        · exact .inr ⟨rfl, List.mem_cons_self⟩
      · exact .inl before
    · exact .inr ⟨made, List.mem_cons_of_mem _ listed⟩

namespace Imports

variable {imports next : Imports}

/-- The claims of globs on a name of a scope. -/
def claims (imports : Imports) (scope : ScopeId) (name : Name) : List Claim :=
  Binding.claimsOf (imports.binding? scope name)

theorem targets_eq_map (imports : Imports) (scope : ScopeId) (name : Name) :
    imports.targets scope name = (imports.claims scope name).map (·.target) :=
  Binding.targets_eq _

/-- A step makes a claim for a glob: one that it asks for itself or, to settle the imports, one that
was made before it. -/
def Makes (imports : Imports) (tree : Tree) (step : ImportStep) (scope : ScopeId) (name : Name)
    (claim : Claim) : Prop :=
  step.Globs tree ⟨scope, claim.source⟩ ∧
      imports.Offered tree scope claim.source name claim.target ∨
    step = .settle ∧ ⟨scope, claim.source⟩ ∈ imports.globs ∧
      imports.PassesOn tree claim.source name claim.target

section Made

variable {scope : ScopeId} {name : Name} {claim : Claim}

theorem mem_claims_claimAll {importing target : ScopeId} {offers : List (Name × DeclId)}
    (claimed : imports.claimAll importing target offers = some next)
    (present : claim ∈ next.claims scope name) :
    claim ∈ imports.claims scope name ∨
      scope = importing ∧ claim.source = target ∧ (name, claim.target) ∈ offers := by
  obtain ⟨table, issued, same⟩ := Option.bind_eq_some_iff.mp claimed
  cases same
  rw [claims, binding?_setTable issued] at present
  split at present
  · rename_i here
    subst here
    rw [claims, binding?_of_table issued]
    rcases BindingTable.mem_claimsOf_claimAll present with old | made
    · exact .inl old
    · exact .inr ⟨rfl, made⟩
  · exact .inl present

theorem mem_claims_claimReexports (distinct : imports.Distinct) {glob : Glob}
    (claimed : imports.claimReexports tree glob = some next)
    (present : claim ∈ next.claims scope name) :
    claim ∈ imports.claims scope name ∨
      glob = ⟨scope, claim.source⟩ ∧ imports.PassesOn tree claim.source name claim.target := by
  obtain ⟨offers, opened, made⟩ := Option.bind_eq_some_iff.mp claimed
  rcases mem_claims_claimAll made present with old | ⟨rfl, source, listed⟩
  · exact .inl old
  · right
    rw [source]
    exact ⟨rfl, (mem_openReexports distinct opened).mp listed⟩

theorem mem_claims_importGlob (distinct : imports.Distinct) {importing target : ScopeId}
    (made : imports.importGlob tree importing target = .ok next)
    (present : claim ∈ next.claims scope name) :
    claim ∈ imports.claims scope name ∨
      imports.Makes tree (.importGlob importing target) scope name claim := by
  obtain ⟨_, ⟨_, rfl⟩ | ⟨apart, items, shown, claimed, seen, first, second, rfl⟩⟩ :=
    importGlob_eq_ok_iff.mp made
  · exact .inl present
  · have absorbs := absorbs_claimAll first
    have recorded : (claimed.record ⟨importing, target⟩).claims scope name =
        claimed.claims scope name := by
      rw [claims, claims, binding?, binding?, table?, table?, tables_record]
    rw [recorded] at present
    rcases mem_claims_claimReexports (absorbs.distinct distinct) second present with
      before | ⟨same, passed⟩
    · rcases mem_claims_claimAll first before with old | ⟨rfl, rfl, listed⟩
      · exact .inl old
      · right
        exact .inl ⟨ImportStep.globs_importGlob.mpr ⟨apart, rfl⟩, .inl ⟨items, seen, listed⟩⟩
    · cases same
      right
      exact .inl ⟨ImportStep.globs_importGlob.mpr ⟨apart, rfl⟩,
        .inr ((absorbs.passesOn_iff tree).mp passed)⟩

/-- By induction along the globs: what is passed on does not change while they are settled. -/
theorem mem_claims_globs (distinct : imports.Distinct) (globs : List Glob)
    (ran : globs.foldlM (fun imports glob => imports.claimReexports tree glob) imports = some next)
    (present : claim ∈ next.claims scope name) :
    claim ∈ imports.claims scope name ∨
      ⟨scope, claim.source⟩ ∈ globs ∧ imports.PassesOn tree claim.source name claim.target := by
  induction globs generalizing imports with
  | nil =>
    cases ran
    exact .inl present
  | cons glob globs ih =>
    obtain ⟨middle, first, rest⟩ := Option.bind_eq_some_iff.mp ran
    have absorbs := absorbs_claimReexports distinct first
    rcases ih (absorbs.distinct distinct) rest with before | ⟨listed, passed⟩
    · rcases mem_claims_claimReexports distinct first before with old | ⟨rfl, passed⟩
      · exact .inl old
      · exact .inr ⟨List.mem_cons_self, passed⟩
    · exact .inr ⟨List.mem_cons_of_mem _ listed, (absorbs.passesOn_iff tree).mp passed⟩

theorem mem_claims_importPath {importing : ScopeId} {path : Path} {asName : Option Name}
    {reexport : Bool} {target : DeclId}
    (made : imports.importPath tree importing path asName reexport = .ok (target, next))
    (present : claim ∈ next.claims scope name) : claim ∈ imports.claims scope name := by
  obtain ⟨_, old, table, issued, bound, rfl⟩ := importPath_eq_ok_iff.mp made
  rw [claims, binding?_importExplicit issued bound] at present
  split at present
  · cases present
  · exact present

/-- The claims after a step are those before it and those the step makes. -/
theorem mem_claims_take (distinct : imports.Distinct) {step : ImportStep}
    (taken : imports.take tree step = .ok next) (present : claim ∈ next.claims scope name) :
    claim ∈ imports.claims scope name ∨ imports.Makes tree step scope name claim := by
  cases step with
  | importPath importing path asName reexport =>
    obtain ⟨⟨target, bound⟩, made, same⟩ := Outcome.bind_eq_ok.mp taken
    cases same
    exact .inl (mem_claims_importPath made present)
  | importGlob importing target => exact mem_claims_importGlob distinct taken present
  | importGlobPath importing path =>
    obtain ⟨target, leads, made⟩ := importGlobPath_eq_ok_iff.mp taken
    rcases mem_claims_importGlob distinct made present with old | ⟨globs, offered⟩ | ⟨settles, _⟩
    · exact .inl old
    · exact .inr (.inl ⟨(ImportStep.globs_importGlobPath leads).mpr globs, offered⟩)
    · cases settles
  | settle =>
    cases settled : imports.settle tree with
    | none => simp [take, settled] at taken
    | some claimed =>
      rw [take, settled] at taken
      cases taken
      rcases mem_claims_globs distinct imports.globs settled present with old | made
      · exact .inl old
      · exact .inr (.inr ⟨rfl, made⟩)

end Made

/-- Every claim is made for a glob on record, and its source offers it. -/
def Sourced (tree : Tree) (imports : Imports) : Prop :=
  ∀ scope name, ∀ claim ∈ imports.claims scope name, ⟨scope, claim.source⟩ ∈ imports.globs ∧
    imports.Offered tree scope claim.source name claim.target

theorem sourced_empty (tree : Tree) : Sourced tree (empty tree) := by
  intro scope name claim present
  rw [claims, binding?_empty] at present
  cases present

/-- A step keeps what old claims rest on, and what its own rest on it puts on record. -/
theorem Sourced.take (sourced : Sourced tree imports) (distinct : imports.Distinct)
    {step : ImportStep} (taken : imports.take tree step = .ok next) : Sourced tree next := by
  have made := stepsTo_of_take distinct taken
  intro scope name claim present
  rcases mem_claims_take distinct taken present with old | ⟨globs, offered⟩ | ⟨_, listed, passed⟩
  · obtain ⟨recorded, offered⟩ := sourced scope name claim old
    exact ⟨(made.globs _).mpr (.inl recorded), made.offered offered⟩
  · exact ⟨(made.globs _).mpr (.inr globs), made.offered offered⟩
  · exact ⟨(made.globs _).mpr (.inl listed), made.offered (.inr passed)⟩

theorem collect_sourced (tree : Tree) (steps : List ImportStep) :
    Sourced tree (tree.collect steps) := by
  induction steps using List.reverseRecOn with
  | nil => exact sourced_empty tree
  | append_singleton steps last ih =>
    have faithful := (tree.collect_faithful steps).1
    rw [Tree.collect_concat]
    rcases take_or_attempt_eq faithful.sized last with taken | same
    · exact ih.take faithful.distinct taken
    · rw [same]
      exact ih

/-- What a glob's claim rests on: the glob is on record, its target can be reached, and the target
declares the name or, declaring nothing by it, passes it on. -/
structure Justified (imports : Imports) (tree : Tree) (scope : ScopeId) (name : Name)
    (claim : Claim) : Prop where
  recorded : ⟨scope, claim.source⟩ ∈ imports.globs
  apart : claim.source ≠ scope
  reachable : tree.isReachable claim.source scope = some true
  offered : (tree.local? claim.source name = some (some claim.target) ∧
      tree.mayName claim.target scope = some true) ∨
    (tree.local? claim.source name = some none ∧
      imports.binding? claim.source name = some (.explicit claim.target true))

section Rests

variable {scope target : ScopeId} {name : Name}

/-- What a glob sees in its target is declared there and may be named where the glob is. -/
theorem declared_of_shows (sound : tree.Sound) (apart : scope ≠ target)
    (opens : tree.Opens scope target) {decl : DeclId} (shows : tree.Shows scope target name decl) :
    tree.local? target name = some (some decl) ∧ tree.mayName decl scope = some true := by
  obtain ⟨asking, issued⟩ := issued_of_opens apart opens
  obtain ⟨declaration, declared, rfl, named, admitted⟩ := (sound.shows_iff asking issued).mp shows
  exact ⟨sound.local?_eq_some_iff.mpr ⟨declaration, declared, rfl, named⟩,
    (Tree.mayName_eq_true_iff declared).mpr ⟨opens.1, admitted⟩⟩

/-- A target offers one declaration under a name: its own item, or else its explicit import. -/
theorem offered_unique (sound : tree.Sound) (apart : scope ≠ target)
    (opens : tree.Opens scope target) {one other : DeclId}
    (first : imports.Offered tree scope target name one)
    (second : imports.Offered tree scope target name other) : one = other := by
  rcases first with shows | ⟨undeclared, passed⟩
  · have own := (declared_of_shows sound apart opens shows).1
    rcases second with also | ⟨undeclared, _⟩
    · have same := own.symm.trans (declared_of_shows sound apart opens also).1
      simpa using same
    · cases own.symm.trans undeclared
  · rcases second with also | ⟨_, alike⟩
    · cases undeclared.symm.trans (declared_of_shows sound apart opens also).1
    · cases passed.symm.trans alike
      rfl

theorem justified_of_sourced (sound : tree.Sound) (faithful : Faithful tree imports)
    (sourced : Sourced tree imports) {claim : Claim} (present : claim ∈ imports.claims scope name) :
    imports.Justified tree scope name claim := by
  obtain ⟨recorded, offered⟩ := sourced scope name claim present
  obtain ⟨apart, opens⟩ := faithful.opened _ recorded
  refine ⟨recorded, Ne.symm apart, ?_, ?_⟩
  · rw [Tree.isReachable, opens.1]
    rfl
  · rcases offered with shows | ⟨undeclared, passed⟩
    · exact .inl (declared_of_shows sound apart opens shows)
    · exact .inr ⟨undeclared, Binding.explicit?_eq_some_iff.mp passed⟩

/-- Claims to different declarations come from different scopes. -/
theorem nodup_sources (sound : tree.Sound) (faithful : Faithful tree imports)
    (sourced : Sourced tree imports) (scope : ScopeId) (name : Name) :
    ((imports.claims scope name).map (·.source)).Nodup := by
  have distinct : ((imports.claims scope name).map (·.target)).Nodup := by
    rw [← targets_eq_map]
    exact faithful.nodup scope name
  refine List.Nodup.map_on ?_ (List.Nodup.of_map _ distinct)
  intro one first other second same
  obtain ⟨recorded, offered⟩ := sourced scope name one first
  obtain ⟨_, also⟩ := sourced scope name other second
  obtain ⟨apart, opens⟩ := faithful.opened _ recorded
  have agreed : one.target = other.target :=
    offered_unique sound apart opens offered (same ▸ also)
  exact List.inj_on_of_nodup_map distinct first second agreed

end Rests

/-- What is imported by name may be named where it is imported. -/
theorem mayName_of_explicit (sound : tree.Sound) {taken : ImportStep → Prop}
    (records : Records tree taken imports) {scope : ScopeId} (issued : scope ∈ tree.scopeIds)
    {name : Name} {target : DeclId} {reexport : Bool}
    (bound : imports.binding? scope name = some (.explicit target reexport)) :
    tree.mayName target scope = some true := by
  have imported := Binding.explicit?_eq_some_iff.mpr bound
  obtain ⟨_, _, _, path, _, _, _, resolved⟩ :=
    (records.imported scope name target).mp ⟨reexport, imported⟩
  exact sound.mayName_of_resolve issued resolved

theorem two_le_of_ambiguous {binding : Binding} (ambiguous : binding.target? = none) :
    2 ≤ binding.claims.length := by
  match binding with
  | .explicit _ _ => cases ambiguous
  | .globbed _ [] => cases ambiguous
  | .globbed _ (_ :: others) => simp [Binding.claims]

end Imports

/-- After any steps of collecting imports, settling them included, every table binds a name once, an
explicit import may be named by its scope, and each claim of a glob is justified by the glob and by
what its source offers. An ambiguous name has several claims, each to another declaration and from
another scope. -/
theorem Tree.collected_entries_justified (grown : tree.Grown) (steps : List ImportStep)
    {scope : ScopeId} {table : BindingTable}
    (present : (tree.collect steps).table? scope = some table) :
    table.names.Nodup ∧ ∀ name binding, (name, binding) ∈ table.entries →
      (∀ target reexport, binding = .explicit target reexport →
        tree.mayName target scope = some true) ∧
      (∀ claim ∈ binding.claims, (tree.collect steps).Justified tree scope name claim) ∧
      (binding.claims.map (·.target)).Nodup ∧ (binding.claims.map (·.source)).Nodup ∧
      (binding.target? = none → 2 ≤ binding.claims.length) := by
  obtain ⟨faithful, records⟩ := tree.collect_faithful steps
  have sourced := Imports.collect_sourced tree steps
  have sound := grown.sound
  have issued := (Imports.exists_table_iff faithful.sized).mp ⟨table, present⟩
  refine ⟨faithful.distinct scope table present, fun name binding listed => ?_⟩
  have bound : (tree.collect steps).binding? scope name = some binding := by
    rw [Imports.binding?_of_table present]
    exact Registry.find?_of_mem (faithful.distinct scope table present) listed
  have claims : (tree.collect steps).claims scope name = binding.claims := by
    rw [Imports.claims, bound]
    rfl
  refine ⟨?_, ?_, ?_, ?_, Imports.two_le_of_ambiguous⟩
  · rintro target reexport rfl
    exact Imports.mayName_of_explicit sound records issued bound
  · intro claim made
    exact Imports.justified_of_sourced sound faithful sourced (claims ▸ made)
  · rw [← claims, ← Imports.targets_eq_map]
    exact faithful.nodup scope name
  · rw [← claims]
    exact Imports.nodup_sources sound faithful sourced scope name

/-- The two claims on `Thing` in `user`: one on an item of its source, the other, made when the
imports are settled, on what its source keeps to itself and passes on. -/
theorem Tree.storefront_claims_justified :
    storefront.Grown ∧ ∃ table,
      (storefront.collect (storefrontSteps ++ [.settle])).table? ⟨4⟩ = some table ∧
      ("Thing", .globbed ⟨⟨4⟩, ⟨3⟩⟩ [⟨⟨2⟩, ⟨1⟩⟩]) ∈ table.entries ∧
      ∀ claim ∈ ([⟨⟨4⟩, ⟨3⟩⟩, ⟨⟨2⟩, ⟨1⟩⟩] : List Claim),
        (storefront.collect (storefrontSteps ++ [.settle])).Justified storefront ⟨4⟩ "Thing"
          claim := by
  have grown : storefront.Grown := grown_build _ _
  have present : (storefront.collect (storefrontSteps ++ [.settle])).table? ⟨4⟩ =
      some ⟨[("Thing", .globbed ⟨⟨4⟩, ⟨3⟩⟩ [⟨⟨2⟩, ⟨1⟩⟩])]⟩ := by decide +kernel
  obtain ⟨_, entries⟩ := collected_entries_justified grown _ present
  obtain ⟨_, claims, _⟩ := entries _ _ (List.mem_singleton.mpr rfl)
  exact ⟨grown, _, present, List.mem_singleton.mpr rfl, claims⟩

end ScopedNames
