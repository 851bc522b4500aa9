import ScopedNames.Log
import ScopedNames.Proofs.Diagnostic
import ScopedNames.Proofs.Import.Answers

set_option autoImplicit false

namespace ScopedNames

namespace Event

/-- The event reports an error. -/
def isReport : Event → Bool
  | .reported _ => true
  | .declared _ _ _ | .completed _ _ | .entered _ _ | .resolved _ _ _ | .unresolved _ _ _
  | .resolvedReexport _ _ | .imported _ _ _ _ | .ignoredGlob _ | .skipped _ _ | .shadowed _ _
  | .disputed _ _ _ | .ambiguous _ _ => false

/-- The ids that the text of an event spells out as paths. -/
def shown : Event → List Id
  | .resolved _ origin decl => [.scope origin, .decl decl]
  | .disputed _ scope source => [.scope scope, .scope source]
  | .declared _ _ scope | .entered _ scope | .unresolved _ scope _ | .resolvedReexport _ scope
  | .imported _ _ scope _ | .ignoredGlob scope | .skipped _ scope | .shadowed _ scope
  | .ambiguous _ scope => [.scope scope]
  | .completed _ _ | .reported _ => []

theorem level_ne_error {event : Event} (plain : event.isReport = false) : event.level ≠ .error := by
  cases event with
  | reported diagnostic => cases plain
  | _ => simp [level]

/-- A line can be written of an event that shows issued ids. -/
theorem exists_text {tree : Tree} (sound : tree.Sound) {event : Event}
    (issued : ∀ id ∈ event.shown, tree.HasIssued id) : ∃ text, event.text tree = some text := by
  have scopes (scope : ScopeId) (listed : .scope scope ∈ event.shown) :
      ∃ text, tree.scopeText scope = some text :=
    sound.exists_scopeText (issued (.scope scope) listed)
  have decls (decl : DeclId) (listed : .decl decl ∈ event.shown) :
      ∃ text, tree.declText decl = some text := sound.exists_declText (issued (.decl decl) listed)
  cases event with
  | completed scopes decls => exact ⟨_, rfl⟩
  | reported diagnostic => exact ⟨_, rfl⟩
  | resolved path origin decl =>
    obtain ⟨place, shown⟩ := scopes origin (by simp [Event.shown])
    obtain ⟨found, named⟩ := decls decl (by simp [Event.shown])
    simp [text, shown, named]
  | disputed name scope source =>
    obtain ⟨place, shown⟩ := scopes scope (by simp [Event.shown])
    obtain ⟨origin, named⟩ := scopes source (by simp [Event.shown])
    simp [text, shown, named]
  | _ =>
    obtain ⟨place, shown⟩ := scopes _ List.mem_cons_self
    simp [text, shown]

theorem exists_records {tree : Tree} (sound : tree.Sound) {events : List Event}
    (issued : ∀ event ∈ events, ∀ id ∈ event.shown, tree.HasIssued id) (finest : Level) :
    ∃ records, records? tree finest events = some records := by
  refine exists_mapM fun event listed => ?_
  obtain ⟨text, told⟩ := exists_text sound (issued event (List.mem_filter.mp listed).1)
  exact ⟨_, by rw [record?, told, Option.map_some]⟩

end Event

namespace Tree

/-- The events report nothing, and they show no ids but those given and those issued. -/
def Tells (tree : Tree) (given : List Id) (events : List Event) : Prop :=
  ∀ event ∈ events, event.isReport = false ∧ ∀ id ∈ event.shown, id ∈ given ∨ tree.HasIssued id

section Lists

variable {tree : Tree} {given : List Id} {event : Event} {events others : List Event}

@[simp] theorem tells_nil : tree.Tells given [] := by simp [Tells]

@[simp] theorem tells_cons : tree.Tells given (event :: events) ↔
    (event.isReport = false ∧ ∀ id ∈ event.shown, id ∈ given ∨ tree.HasIssued id) ∧
      tree.Tells given events :=
  List.forall_mem_cons

@[simp] theorem tells_append : tree.Tells given (events ++ others) ↔
    tree.Tells given events ∧ tree.Tells given others :=
  List.forall_mem_append

theorem Tells.mono {more : List Id} (tells : tree.Tells given events)
    (also : ∀ id ∈ given, id ∈ more ∨ tree.HasIssued id) : tree.Tells more events := by
  intro event listed
  obtain ⟨plain, shown⟩ := tells event listed
  refine ⟨plain, fun id named => ?_⟩
  rcases shown id named with passed | issued
  · exact also id passed
  · exact .inr issued

/-- Events that show what is given show issued ids if those are issued. -/
theorem Tells.hasIssued (tells : tree.Tells given events)
    (issued : ∀ id ∈ given, tree.HasIssued id) :
    ∀ event ∈ events, ∀ id ∈ event.shown, tree.HasIssued id := by
  intro event listed id named
  rcases (tells event listed).2 id named with passed | known
  · exact issued id passed
  · exact known

end Lists

namespace Sound

variable {tree : Tree} (sound : tree.Sound)

include sound

section Walk

variable (path : Path) (origin : ScopeId)

/-- By induction along the modules: each step that is told of has found a scope of the tree. -/
theorem tells_walkEvents (start : ScopeId) (names : List Name) :
    tree.Tells [] (tree.walkEvents origin start names) := by
  induction names generalizing start with
  | nil => exact tells_nil
  | cons name names ih =>
    cases entered : tree.enter origin start name with
    | ok child =>
      obtain ⟨decl, declaration, declared, _, _, opens, _⟩ := sound.enter_eq_ok_iff.mp entered
      have issued : tree.HasIssued (.scope child) := sound.child_mem_scopeIds declared opens
      simp [walkEvents, entered, Event.isReport, Event.shown, issued, ih child]
    | error reason => simp [walkEvents, entered]
    | stray => simp [walkEvents, entered]

theorem tells_reachEvents : tree.Tells [] (tree.reachEvents path origin) := by
  rw [reachEvents]
  split
  · exact sound.tells_walkEvents origin _ path.modules
  · exact tells_nil
  · exact tells_nil

theorem tells_resolveEvents : tree.Tells [.scope origin] (tree.resolveEvents path origin) := by
  have reached := sound.tells_reachEvents path origin
  refine tells_append.mpr ⟨reached.mono (by simp), ?_⟩
  cases found : tree.resolve path origin with
  | ok decl =>
    have issued : tree.HasIssued (.decl decl) := sound.mem_declIds_of_resolve found
    simp [Event.isReport, Event.shown, issued]
  | error reason => simp [Event.isReport, Event.shown]
  | stray => exact tells_nil

end Walk

end Sound

end Tree

section Claims

variable {tree : Tree} {imports : Imports} {importing target : ScopeId}

/-- By induction along the offers, of which each may be told of once. -/
theorem BindingTable.tells_claimEvents (table : BindingTable) (importing source : ScopeId)
    (offers : List (Name × DeclId)) :
    tree.Tells [.scope importing, .scope source] (table.claimEvents importing source offers) := by
  induction offers generalizing table with
  | nil => exact Tree.tells_nil
  | cons offer offers ih =>
    obtain ⟨name, decl⟩ := offer
    have rest := ih (table.claim name ⟨decl, source⟩)
    rw [claimEvents]
    cases Binding.reception (table.find? name) ⟨decl, source⟩ with
    | taken => exact rest
    | repeated => exact rest
    | shadowed => simp [Event.isReport, Event.shown, rest]
    | disputed => simp [Event.isReport, Event.shown, rest]

theorem Tree.tells_skipEvents (tree : Tree) (importing target : ScopeId) :
    tree.Tells [.scope importing] (tree.skipEvents importing target) := by
  rw [skipEvents]
  split
  · intro event listed
    obtain ⟨item, _, rfl⟩ := List.mem_map.mp listed
    simp [Event.isReport, Event.shown]
  · exact tells_nil

namespace Imports

theorem tells_claimEvents (imports : Imports) (importing target : ScopeId)
    (offers : List (Name × DeclId)) :
    tree.Tells [.scope importing, .scope target] (imports.claimEvents importing target offers) := by
  rw [claimEvents]
  split
  · exact BindingTable.tells_claimEvents _ importing target offers
  · exact Tree.tells_nil

theorem tells_claimReexportsEvents (imports : Imports) (tree : Tree) (glob : Glob) :
    tree.Tells [.scope glob.importing, .scope glob.target]
      (imports.claimReexportsEvents tree glob) := by
  rw [claimReexportsEvents]
  split
  · exact imports.tells_claimEvents glob.importing glob.target _
  · exact Tree.tells_nil

theorem tells_importGlobEvents (imports : Imports) (tree : Tree) (importing target : ScopeId) :
    tree.Tells [.scope importing] (imports.importGlobEvents tree importing target) := by
  rw [importGlobEvents]
  split
  · next barred =>
    have inside : tree.HasIssued (.scope target) := Tree.mem_scopeIds_of_barrier barred
    have known : ∀ id ∈ [Id.scope importing, Id.scope target],
        id ∈ [Id.scope importing] ∨ tree.HasIssued id := by simp [inside]
    split
    · simp [Event.isReport, Event.shown, inside]
    · have skipped := tree.tells_skipEvents importing target
      have items := (imports.tells_claimEvents importing target
        ((tree.visibleItems importing target).getD [])).mono known
      have reexports := (tells_claimReexportsEvents ((imports.claimAll importing target
        ((tree.visibleItems importing target).getD [])).getD imports) tree
        ⟨importing, target⟩).mono known
      exact Tree.tells_append.mpr ⟨Tree.tells_append.mpr ⟨skipped, items⟩, reexports⟩
  · exact Tree.tells_nil

/-- By induction along the globs: each tells of its own two scopes. -/
theorem tells_settleEvents (imports : Imports) {globs : List Glob}
    (issued : ∀ glob ∈ globs, tree.Issues glob) :
    tree.Tells [] (settleEvents tree imports globs) := by
  induction globs generalizing imports with
  | nil => exact Tree.tells_nil
  | cons glob globs ih =>
    obtain ⟨importing, target⟩ := Tree.issues_glob.mp (issued glob List.mem_cons_self)
    have known : ∀ id ∈ [Id.scope glob.importing, Id.scope glob.target],
        id ∈ ([] : List Id) ∨ tree.HasIssued id := by
      simp [Tree.HasIssued, importing, target]
    rw [settleEvents]
    refine Tree.tells_append.mpr ⟨(imports.tells_claimReexportsEvents tree glob).mono known, ?_⟩
    exact ih _ fun other later => issued other (List.mem_cons_of_mem glob later)

theorem tells_lookupEvents (imports : Imports) (tree : Tree) (name : Name) (scope : ScopeId) :
    tree.Tells [.scope scope] (imports.lookupEvents tree name scope) := by
  rw [lookupEvents]
  split
  · simp [Event.isReport, Event.shown]
  · exact Tree.tells_nil

end Imports

end Claims

namespace Imports

variable {tree : Tree} (sound : tree.Sound)

include sound

theorem tells_importPathEvents (importing : ScopeId) (path : Path) (asName : Option Name)
    (reexport : Bool) :
    tree.Tells [.scope importing] (importPathEvents tree importing path asName reexport) := by
  refine Tree.tells_append.mpr ⟨sound.tells_resolveEvents path importing, ?_⟩
  split
  · simp [Event.isReport, Event.shown]
  · exact Tree.tells_nil
  · exact Tree.tells_nil

theorem tells_importGlobPathEvents (imports : Imports) (importing : ScopeId) (path : Path) :
    tree.Tells [.scope importing] (imports.importGlobPathEvents tree importing path) := by
  refine Tree.tells_append.mpr ⟨sound.tells_resolveEvents path importing, ?_⟩
  split
  · exact imports.tells_importGlobEvents tree importing _
  · exact Tree.tells_nil
  · exact Tree.tells_nil

theorem tells_resolveEvents (imports : Imports) (path : Path) (origin : ScopeId) :
    tree.Tells [] (imports.resolveEvents tree path origin) := by
  refine Tree.tells_append.mpr ⟨sound.tells_reachEvents path origin, ?_⟩
  split
  · next scope _ =>
    split
    · next undeclared _ =>
      obtain ⟨here, found, _⟩ := Option.map_eq_some_iff.mp undeclared
      have inside : tree.HasIssued (.scope scope) := Tree.mem_scopeIds.mpr ⟨here, found⟩
      simp [Event.isReport, Event.shown, inside]
    · exact Tree.tells_nil
  · exact Tree.tells_nil
  · exact Tree.tells_nil

end Imports

end ScopedNames
