import ScopedNames.Outcome
import ScopedNames.Proofs.Barrier
import ScopedNames.Proofs.Diagnostic
import ScopedNames.Proofs.Tree.Run
import ScopedNames.Proofs.Walk.Accessibility
import ScopedNames.Proofs.Walk.Answers

set_option autoImplicit false

namespace ScopedNames.Tree

/-- The later of two answers is the earlier one, unless that was a missing name and the name has
been declared since. -/
def Lasts (tree later : Tree) {α : Type} (before after : Outcome LookupError α) : Prop :=
  after = before ∨ ∃ name scope decl, before = .error (.missing name scope) ∧
    tree.local? scope name = some none ∧ later.local? scope name = some (some decl)

/-- The error that a name is missing which has been declared since. -/
def DeclaredSince (tree later : Tree) (reason : LookupError) : Prop :=
  ∃ name scope decl, reason = .missing name scope ∧
    tree.local? scope name = some none ∧ later.local? scope name = some (some decl)

namespace Lasts

variable {tree later : Tree} {α β : Type} {before after : Outcome LookupError α}

theorem iff_alikeUnless :
    tree.Lasts later before after ↔
      Outcome.AlikeUnless (tree.DeclaredSince later) before after := by
  refine or_congr_right ⟨?_, ?_⟩
  · rintro ⟨name, scope, decl, failed, since⟩
    exact ⟨_, failed, name, scope, decl, rfl, since⟩
  · rintro ⟨_, failed, name, scope, decl, rfl, since⟩
    exact ⟨name, scope, decl, failed, since⟩

theorem of_eq (same : after = before) : tree.Lasts later before after := .inl same

/-- Answers last through a computation if they do through its first step and, where that had a
value, through what is made of the value. -/
theorem bind {next also : α → Outcome LookupError β} (first : tree.Lasts later before after)
    (rest : ∀ value, before = .ok value → tree.Lasts later (next value) (also value)) :
    tree.Lasts later (before >>= next) (after >>= also) :=
  iff_alikeUnless.mpr ((iff_alikeUnless.mp first).bind fun value found =>
    iff_alikeUnless.mp (rest value found))

theorem eq_of_found (lasts : tree.Lasts later before after)
    (found : ∀ name scope, before ≠ .error (.missing name scope)) : after = before := by
  refine (iff_alikeUnless.mp lasts).eq_of_unexcused fun reason failed => ?_
  rintro ⟨name, scope, _, rfl, _⟩
  exact found name scope failed

end Lasts

section Growth

variable {tree later : Tree} {origin : ScopeId}

namespace Extends

theorem start_eq (extension : tree.Extends later) (asking : origin ∈ tree.scopeIds)
    (start : Root) : later.start start origin = tree.start start origin := by
  cases start with
  | absolute => rfl
  | here => rfl
  | up levels positive =>
    simp only [start, extension.above_eq asking, extension.depth_eq asking]
  | external name => simp only [start, extension.externalName]

theorem find_lasts (extension : tree.Extends later) {scope : ScopeId}
    (issued : scope ∈ tree.scopeIds) (name : Name) :
    tree.Lasts later (tree.find scope name) (later.find scope name) := by
  obtain ⟨here, found⟩ := Tree.mem_scopeIds.mp issued
  obtain ⟨kept, present, _, items⟩ := extension.scope found
  have before := local?_of_issued found name
  have after := local?_of_issued present name
  cases bound : here.items.find? name with
  | some decl =>
    left
    simp [find, before, after, bound, items name decl bound]
  | none =>
    cases since : kept.items.find? name with
    | none =>
      left
      simp [find, before, after, bound, since]
    | some decl =>
      right
      refine ⟨name, scope, decl, ?_, ?_, ?_⟩
      · simp [find, before, bound]
      · rw [before, bound]
      · rw [after, since]

theorem checkAdmits_eq (extension : tree.Extends later) (asking : origin ∈ tree.scopeIds)
    {decl : DeclId} {declaration : Declaration} (declared : tree.decl? decl = some declaration) :
    later.checkAdmits decl origin = tree.checkAdmits decl origin := by
  obtain ⟨allowed, admitted⟩ := exists_admits declared asking
  rw [checkAdmits_of_admits declared admitted, checkAdmits_of_admits (extension.decl declared)
    ((extension.admits_eq asking declared).trans admitted)]

section Walk

variable (extension : tree.Extends later) (sound : tree.Sound) (asking : origin ∈ tree.scopeIds)

include extension sound asking

theorem findAdmitted_lasts {scope : ScopeId} (issued : scope ∈ tree.scopeIds) (name : Name) :
    tree.Lasts later (tree.findAdmitted scope name origin)
      (later.findAdmitted scope name origin) := by
  refine (extension.find_lasts issued name).bind fun decl found => .of_eq ?_
  obtain ⟨declaration, declared, _⟩ := sound.find_eq_ok_iff.mp found
  rw [extension.checkAdmits_eq asking declared]

theorem enter_lasts {scope : ScopeId} (issued : scope ∈ tree.scopeIds) (name : Name) :
    tree.Lasts later (tree.enter origin scope name) (later.enter origin scope name) := by
  refine (extension.find_lasts issued name).bind fun decl found => .of_eq ?_
  obtain ⟨declaration, declared, _⟩ := sound.find_eq_ok_iff.mp found
  rw [declared, extension.decl declared, extension.checkAdmits_eq asking declared]

/-- By induction along the modules: a step that succeeds leads to a scope that was issued before. -/
theorem walk_lasts {start : ScopeId} (issued : start ∈ tree.scopeIds) (modules : List Name) :
    tree.Lasts later (tree.walk origin start modules) (later.walk origin start modules) := by
  induction modules generalizing start with
  | nil => exact .of_eq rfl
  | cons name modules ih =>
    rw [walk_cons, walk_cons]
    refine (extension.enter_lasts sound asking issued name).bind fun child entered => ih ?_
    obtain ⟨decl, declaration, declared, _, _, opens, _⟩ := sound.enter_eq_ok_iff.mp entered
    exact sound.child_mem_scopeIds declared opens

theorem reach_lasts (path : Path) :
    tree.Lasts later (tree.reach path origin) (later.reach path origin) := by
  rw [reach, reach, extension.start_eq asking]
  refine Lasts.bind (.of_eq rfl) fun start begun => ?_
  exact extension.walk_lasts sound asking (sound.start_mem_scopeIds asking begun) path.modules

theorem resolve_lasts (path : Path) :
    tree.Lasts later (tree.resolve path origin) (later.resolve path origin) := by
  refine (extension.reach_lasts sound asking path).bind fun scope reached => ?_
  exact extension.findAdmitted_lasts sound asking (sound.reach_mem_scopeIds asking reached)
    path.name

theorem scopeNamed_lasts (path : Path) :
    tree.Lasts later (tree.scopeNamed path origin) (later.scopeNamed path origin) := by
  refine (extension.resolve_lasts sound asking path).bind fun decl found => .of_eq ?_
  obtain ⟨scope, _, last⟩ := Outcome.bind_eq_ok.mp found
  obtain ⟨declaration, declared, _⟩ := sound.findAdmitted_eq_ok_iff.mp last
  rw [declared, extension.decl declared]

end Walk

end Extends

/-- However a tree grows, what its scopes and declarations were asked before has the same answer,
unless a path was missing a name that is declared now. -/
theorem answers_last (grown : tree.Grown) (grows : Grows tree later)
    (asking : origin ∈ tree.scopeIds) :
    (∀ path, tree.Lasts later (tree.reach path origin) (later.reach path origin) ∧
      tree.Lasts later (tree.resolve path origin) (later.resolve path origin) ∧
      tree.Lasts later (tree.scopeNamed path origin) (later.scopeNamed path origin)) ∧
    (∀ ancestor, later.isInside origin ancestor = tree.isInside origin ancestor) ∧
    (∀ scope ∈ tree.scopeIds, later.barrier scope origin = tree.barrier scope origin) ∧
    (∀ decl ∈ tree.declIds, later.mayName decl origin = tree.mayName decl origin) ∧
    later.segments origin = tree.segments origin ∧
    ∀ names scope, tree.scopeAt? names = some scope → later.scopeAt? names = some scope := by
  have sound := grown.sound
  have still := grows.sound sound
  have extension := grows.extends
  refine ⟨fun path => ⟨?_, ?_, ?_⟩, ?_, ?_, ?_, ?_, ?_⟩
  · exact extension.reach_lasts sound asking path
  · exact extension.resolve_lasts sound asking path
  · exact extension.scopeNamed_lasts sound asking path
  · exact extension.isInside_eq asking
  · exact fun scope issued => extension.barrier_eq sound still asking issued
  · exact fun decl issued => extension.mayName_eq sound still asking issued
  · exact extension.segments_eq sound still asking
  · exact fun names scope => extension.scopeAt?_of_some

/-- `crate::vault::gold` is kept for the inside of a scope that is not there yet. -/
def vault : Tree :=
  build none [(root, "vault", .module, .everyone), (⟨1⟩, "gold", .value 0, .restricted ⟨2⟩)]

/-- The same with `crate::guild`, which is that scope. -/
def vaultAndGuild : Tree :=
  build none [(root, "vault", .module, .everyone), (⟨1⟩, "gold", .value 0, .restricted ⟨2⟩),
    (root, "guild", .module, .everyone)]

/-- The root is kept from the gold as before, while `crate::guild` has come to lead to a module. -/
theorem gold_hidden_still :
    vault.Grown ∧ Grows vault vaultAndGuild ∧ root ∈ vault.scopeIds ∧ ⟨2⟩ ∉ vault.scopeIds ∧
      vaultAndGuild.resolve ⟨.absolute, ["vault"], "gold"⟩ root =
        .error (.hidden "gold" ⟨1⟩ ⟨1⟩) ∧
      vaultAndGuild.mayName ⟨1⟩ root = some false ∧
      vault.resolve ⟨.absolute, [], "guild"⟩ root = .error (.missing "guild" root) ∧
      ∃ decl, vaultAndGuild.local? root "guild" = some (some decl) := by
  have grown : vault.Grown := grown_build _ _
  have grows : Grows vault vaultAndGuild := by
    have declared : vault.declare root "guild" .module .everyone = .ok (⟨2⟩, vaultAndGuild) := by
      decide +kernel
    exact .declare (.same vault) declared
  have asking : root ∈ vault.scopeIds := by decide +kernel
  have hidden : vault.resolve ⟨.absolute, ["vault"], "gold"⟩ root =
      .error (.hidden "gold" ⟨1⟩ ⟨1⟩) := rfl
  have missing : vault.resolve ⟨.absolute, [], "guild"⟩ root =
      .error (.missing "guild" root) := rfl
  have leads : vaultAndGuild.resolve ⟨.absolute, [], "guild"⟩ root = .ok ⟨2⟩ := rfl
  obtain ⟨paths, _, _, named, _⟩ := answers_last grown grows asking
  refine ⟨grown, grows, asking, by decide +kernel, ?_, ?_, missing, ?_⟩
  · rw [(paths _).2.1.eq_of_found (by simp [hidden]), hidden]
  · rw [named ⟨1⟩ (by decide +kernel)]
    rfl
  · rcases (paths ⟨.absolute, [], "guild"⟩).2.1 with same | ⟨name, scope, decl, before, _, bound⟩
    · rw [leads, missing] at same
      cases same
    · cases missing.symm.trans before
      exact ⟨decl, bound⟩

end Growth

/-- No question about issued ids goes astray, and no answer holds an id that was not issued. -/
structure Answering (tree : Tree) : Prop where
  decls : ∀ decl ∈ tree.declIds, tree.Finds (tree.decl? decl) ∧ tree.Finds (tree.declText decl) ∧
    tree.Finds (tree.audience decl)
  scopes : ∀ scope ∈ tree.scopeIds, tree.Finds (tree.scope? scope) ∧
    tree.Finds (tree.scopeText scope) ∧ ∀ name, tree.Finds (tree.local? scope name)
  around : ∀ scope ∈ tree.scopeIds, tree.Finds (tree.parent? scope) ∧
    tree.Finds (tree.namingDecl? scope) ∧ tree.Finds (tree.ancestors scope) ∧
    tree.Finds (tree.depth scope) ∧ tree.Finds (tree.segments scope) ∧
    ∀ levels, tree.Finds (tree.above scope levels)
  scopeAt : ∀ names, tree.Issues (tree.scopeAt? names)
  access : ∀ requester ∈ tree.scopeIds, ∀ scope ∈ tree.scopeIds,
    tree.Finds (tree.isInside requester scope) ∧ tree.Finds (tree.barrier scope requester) ∧
    tree.Finds (tree.isReachable scope requester) ∧
    ∀ visibility, tree.Finds (tree.permits visibility scope requester)
  naming : ∀ requester ∈ tree.scopeIds, ∀ decl ∈ tree.declIds,
    tree.Finds (tree.admits decl requester) ∧ tree.Finds (tree.mayName decl requester)
  paths : ∀ origin ∈ tree.scopeIds, (∀ root, tree.Answers (tree.start root origin)) ∧
    ∀ path, tree.Answers (tree.reach path origin) ∧ tree.Answers (tree.resolve path origin) ∧
      tree.Answers (tree.scopeNamed path origin)

section Found

variable {α : Type} [HasIds α] {tree : Tree} {found : Option α}

/-- What holds no ids is found if there is something to be found. -/
theorem finds_of_exists (plain : ∀ thing : α, tree.Issues thing)
    (known : ∃ thing, found = some thing) : tree.Finds found := by
  obtain ⟨thing, same⟩ := known
  exact ⟨thing, same, plain thing⟩

theorem Finds.map {β : Type} [HasIds β] (finds : tree.Finds found) {tell : α → β}
    (kept : ∀ thing, tree.Issues thing → tree.Issues (tell thing)) :
    tree.Finds (found.map tell) := by
  obtain ⟨thing, rfl, issued⟩ := finds
  exact ⟨tell thing, rfl, kept thing issued⟩

end Found

namespace Sound

variable {tree : Tree} (sound : tree.Sound)

include sound

/-- By induction along the tree: the sites of a module's scope are its own and those of the scope
around it. -/
theorem issues_sites {scope : ScopeId} (issued : scope ∈ tree.scopeIds) :
    ∀ here, tree.scope? scope = some here → tree.Issues here.sites := by
  induction issued using sound.scope_induction with
  | root =>
    intro here found
    obtain ⟨again, same, bare⟩ := sound.root
    cases found.symm.trans same
    simp [bare]
  | @module decl declaration child declared opens ih =>
    intro here found
    obtain ⟨outer, inner, around, within, sites⟩ := sound.opened declared opens
    cases found.symm.trans within
    have issuedSite : tree.Issues (Site.mk declaration.owner decl) :=
      issues_site.mpr ⟨sound.owner_mem_scopeIds declared, mem_declIds.mpr ⟨_, declared⟩⟩
    rw [sites]
    exact issues_list.mpr (List.forall_mem_cons.mpr ⟨issuedSite, issues_list.mp (ih outer around)⟩)

theorem issues_items {scope : ScopeId} {here : Scope} (found : tree.scope? scope = some here) :
    tree.Issues here.items := by
  refine issues_registry.mpr fun entry listed => ?_
  have kept := Registry.find?_of_mem (sound.distinct found) listed
  obtain ⟨declaration, declared, _⟩ := (sound.bound found).mp kept
  exact issues_decl.mpr (mem_declIds.mpr ⟨declaration, declared⟩)

end Sound

theorem Ordered.issues_children {tree : Tree} (ordered : tree.Ordered) {scope : ScopeId}
    {here : Scope} (found : tree.scope? scope = some here) : tree.Issues here.children := by
  refine issues_list.mpr fun child listed => issues_scope.mpr ?_
  have around := (ordered.mem_children found child).mp listed
  obtain ⟨inner, present, _⟩ := Option.map_eq_some_iff.mp around
  exact mem_scopeIds.mpr ⟨inner, present⟩

theorem Grown.finds_scope {tree : Tree} (grown : tree.Grown) {scope : ScopeId}
    (issued : scope ∈ tree.scopeIds) : tree.Finds (tree.scope? scope) := by
  obtain ⟨here, found⟩ := mem_scopeIds.mp issued
  refine ⟨here, found, issues_here.mpr ⟨?_, ?_, ?_⟩⟩
  · exact grown.sound.issues_sites issued here found
  · exact grown.sound.issues_items found
  · exact grown.ordered.issues_children found

section Answering

variable {tree : Tree} {scope : ScopeId}

theorem issues_head_site {here : Scope} (issued : tree.Issues here) {site : Site}
    (first : here.sites.head? = some site) : tree.Issues site := by
  have sites := issues_list.mp (issues_here.mp issued).1
  exact sites site (List.mem_of_mem_head? first)

theorem Grown.finds_parent (grown : tree.Grown) (issued : scope ∈ tree.scopeIds) :
    tree.Finds (tree.parent? scope) ∧ tree.Finds (tree.namingDecl? scope) := by
  have here := grown.finds_scope issued
  refine ⟨here.map fun here known => ?_, here.map fun here known => ?_⟩
  · cases first : here.sites.head? with
    | none => exact issues_none
    | some site =>
      exact issues_some.mpr (issues_scope.mpr (issues_site.mp (issues_head_site known first)).1)
  · cases first : here.sites.head? with
    | none => exact issues_none
    | some site =>
      exact issues_some.mpr (issues_decl.mpr (issues_site.mp (issues_head_site known first)).2)

theorem Grown.finds_ancestors (grown : tree.Grown) (issued : scope ∈ tree.scopeIds) :
    tree.Finds (tree.ancestors scope) := by
  obtain ⟨outer, chain, inside⟩ := grown.sound.exists_ancestors issued
  refine ⟨_, chain, issues_list.mpr fun ancestor listed => issues_scope.mpr ?_⟩
  rcases List.mem_cons.mp listed with rfl | above
  · exact issued
  · exact inside ancestor above

theorem Grown.finds_above (grown : tree.Grown) (issued : scope ∈ tree.scopeIds) (levels : Nat) :
    tree.Finds (tree.above scope levels) := by
  refine (grown.finds_ancestors issued).map fun chain known => ?_
  cases reached : chain[levels]? with
  | none => exact issues_none
  | some ancestor =>
    exact issues_some.mpr (issues_list.mp known ancestor (List.mem_of_getElem? reached))

theorem Grown.finds_local (grown : tree.Grown) (issued : scope ∈ tree.scopeIds) (name : Name) :
    tree.Finds (tree.local? scope name) := by
  refine (grown.finds_scope issued).map fun here known => ?_
  cases bound : here.items.find? name with
  | none => exact issues_none
  | some decl =>
    have items := issues_registry.mp (issues_here.mp known).2.1
    exact issues_some.mpr (items (name, decl) (Registry.mem_of_find? bound))

theorem Sound.finds_barrier (sound : tree.Sound) {requester : ScopeId}
    (asking : requester ∈ tree.scopeIds) (issued : scope ∈ tree.scopeIds) :
    tree.Finds (tree.barrier scope requester) := by
  obtain ⟨verdict, barred⟩ := sound.exists_barrier asking issued
  refine ⟨verdict, barred, ?_⟩
  cases verdict with
  | none => exact issues_none
  | some closed =>
    have known := (sound.admits_barrier asking issued barred).1
    exact issues_some.mpr (issues_decl.mpr known)

/-- Whoever may name a declaration is a scope of the tree. -/
theorem Sound.finds_audience (sound : tree.Sound) {decl : DeclId}
    (issued : decl ∈ tree.declIds) : tree.Finds (tree.audience decl) := by
  have kept : tree.audience decl =
      some (tree.scopeIds.filter fun scope => tree.mayName decl scope = some true) := by
    refine sieve_eq_filter _ _ _ fun scope listed => ?_
    obtain ⟨allowed, known⟩ := sound.exists_mayName issued listed
    simp [known]
  refine ⟨_, kept, issues_list.mpr fun scope listed => issues_scope.mpr ?_⟩
  exact (List.mem_filter.mp listed).1

/-- A tree that was built answers, if its visibilities name issued scopes. -/
theorem Grown.answering (grown : tree.Grown) (closed : tree.Closed) : tree.Answering := by
  have sound := grown.sound
  constructor
  case decls =>
    intro decl issued
    obtain ⟨declaration, declared⟩ := mem_declIds.mp issued
    exact ⟨⟨declaration, declared, sound.issues_declaration closed declared⟩,
      finds_of_exists issues_string (sound.exists_declText issued), sound.finds_audience issued⟩
  case scopes =>
    intro scope issued
    exact ⟨grown.finds_scope issued,
      finds_of_exists issues_string (sound.exists_scopeText issued), grown.finds_local issued⟩
  case around =>
    intro scope issued
    obtain ⟨parent, naming⟩ := grown.finds_parent issued
    obtain ⟨here, found⟩ := mem_scopeIds.mp issued
    refine ⟨parent, naming, grown.finds_ancestors issued, ?_, ?_, grown.finds_above issued⟩
    · exact finds_of_exists issues_nat ⟨_, depth_of_issued found⟩
    · exact finds_of_exists (by simp) (sound.exists_segments issued)
  case scopeAt =>
    intro names
    cases led : tree.scopeAt? names with
    | none => exact issues_none
    | some scope =>
      exact issues_some.mpr (issues_scope.mpr (sound.mem_scopeIds_of_scopeAt? led))
  case access =>
    intro requester asking scope issued
    have barrier := sound.finds_barrier asking issued
    exact ⟨finds_of_exists issues_bool (exists_isInside asking scope), barrier,
      barrier.map fun _ _ => issues_bool _,
      fun visibility => finds_of_exists issues_bool (exists_permits asking visibility scope)⟩
  case naming =>
    intro requester asking decl issued
    obtain ⟨declaration, declared⟩ := mem_declIds.mp issued
    exact ⟨finds_of_exists issues_bool (exists_admits declared asking),
      finds_of_exists issues_bool (sound.exists_mayName issued asking)⟩
  case paths =>
    intro origin asking
    exact ⟨sound.answers_start asking, fun path => ⟨sound.answers_reach asking path,
      sound.answers_resolve asking path, sound.answers_scopeNamed asking path⟩⟩

end Answering

end ScopedNames.Tree
