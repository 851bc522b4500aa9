import ScopedNames.Project
import ScopedNames.Proofs.Path.RoundTrip
import ScopedNames.Proofs.Project.Step
import ScopedNames.Proofs.Walk.Queries

set_option autoImplicit false

namespace ScopedNames

/-- A name that cannot be taken for anything else in a path as it is usually written. -/
structure Name.IsPlain (name : Name) : Prop where
  present : name ≠ ""
  unseparated : ':' ∉ name.toList
  trimmed : Text.IsTrimmed name.toList
  free : name ∉ ["crate", "self", "super"]

namespace Name

instance (name : Name) : Decidable name.IsPlain :=
  decidable_of_iff (name ≠ "" ∧ ':' ∉ name.toList ∧ Text.IsTrimmed name.toList ∧
      name ∉ ["crate", "self", "super"])
    ⟨fun ⟨present, unseparated, trimmed, free⟩ => ⟨present, unseparated, trimmed, free⟩,
      fun plain => ⟨plain.present, plain.unseparated, plain.trimmed, plain.free⟩⟩

variable {name : Name}

theorem IsPlain.writes (plain : name.IsPlain) : Spelling.standard.Writes name := by
  refine ⟨plain.present, plain.trimmed, fun character listed separating => ?_⟩
  have colon : character = ':' := by simpa [Spelling.standard] using separating
  exact plain.unseparated (colon ▸ listed)

theorem IsPlain.not_isKeyword (plain : name.IsPlain) :
    Spelling.standard.isKeyword name = false := by
  obtain ⟨crate, self, super⟩ : name ≠ "crate" ∧ name ≠ "self" ∧ name ≠ "super" := by
    simpa using plain.free
  simp [Spelling.isKeyword, Spelling.standard, crate, self, super]

end Name

/-- An absolute path along plain names can be read back. -/
theorem Path.writable_of_plain {modules : List Name} {name : Name}
    (plain : ∀ segment ∈ modules ++ [name], segment.IsPlain) :
    (Path.mk .absolute modules name).Writable .standard :=
  ⟨by decide, by decide, by decide, by decide +kernel, by decide +kernel,
    fun segment listed => ⟨(plain segment listed).writes, (plain segment listed).not_isKeyword⟩⟩

namespace Tree

/-- Every declared name is plain. -/
def IsPlain (tree : Tree) : Prop :=
  ∀ decl declaration, tree.decl? decl = some declaration → declaration.name.IsPlain

instance (tree : Tree) : Decidable tree.IsPlain := decidable_of_iff _ forall_declared.symm

/-- The outermost declaration on the way to one that does not admit `origin`. -/
def closedOnWay (tree : Tree) (decl : DeclId) (origin : ScopeId) : Option (Option DeclId) :=
  (tree.wayTo decl).map (·.find? fun other => tree.admits other origin ≠ some true)

section Way

variable {tree : Tree} {decl : DeclId} {declaration : Declaration} {origin : ScopeId}
  {verdict : Option DeclId}

/-- By induction from the outermost module inwards: once one is closed, those inside it do not
matter. -/
theorem find?_of_outermostClosed {sites : List Site}
    (known : tree.outermostClosed origin sites = some verdict) :
    (sites.map (·.decl)).reverse.find? (fun other => tree.admits other origin ≠ some true) =
      verdict := by
  induction sites generalizing verdict with
  | nil =>
    cases known
    rfl
  | cons site outer ih =>
    obtain ⟨above, outside, rest⟩ := Option.bind_eq_some_iff.mp known
    rw [List.map_cons, List.reverse_cons, List.find?_append, ih outside]
    cases above with
    | some closed =>
      cases rest
      rfl
    | none =>
      obtain ⟨allowed, admitted, decided⟩ := Option.bind_eq_some_iff.mp rest
      cases decided
      cases allowed <;> simp [admitted]

/-- What bars the way to where a declaration stands is the outermost closed one on the way to it. If
there is no such thing, at most the declaration itself is closed. -/
theorem closedOnWay_of_barrier {allowed : Bool} (declared : tree.decl? decl = some declaration)
    (barred : tree.barrier declaration.owner origin = some verdict)
    (admitted : tree.admits decl origin = some allowed) :
    tree.closedOnWay decl origin = some (verdict.or (if allowed then none else some decl)) := by
  obtain ⟨here, around, within⟩ := Option.bind_eq_some_iff.mp barred
  have way : tree.wayTo decl = some ((here.sites.map (·.decl)).reverse ++ [decl]) := by
    simp [wayTo, declared, around]
  rw [closedOnWay, way, Option.map_some, List.find?_append, find?_of_outermostClosed within]
  cases allowed <;> simp [admitted]

end Way

namespace Sound

variable {tree : Tree} {decl other : DeclId} {declaration : Declaration} {origin : ScopeId}

theorem exists_declPath (sound : tree.Sound) (declared : tree.decl? decl = some declaration) :
    ∃ names, tree.segments declaration.owner = some names ∧
      tree.declPath decl = some ⟨.absolute, names, declaration.name⟩ := by
  obtain ⟨names, named⟩ := sound.exists_segments (sound.owner_mem_scopeIds declared)
  exact ⟨names, named, declPath_of_segments declared named⟩

/-- The path to a declaration that may not be named fails at the outermost closed one on the way. -/
theorem exists_closed_of_mayName (sound : tree.Sound) {names : List Name}
    (asking : origin ∈ tree.scopeIds) (declared : tree.decl? decl = some declaration)
    (named : tree.segments declaration.owner = some names)
    (refused : tree.mayName decl origin = some false) :
    ∃ closed blamed, tree.closedOnWay decl origin = some (some closed) ∧
      tree.decl? closed = some blamed ∧
      tree.resolve ⟨.absolute, names, declaration.name⟩ origin =
        .error (.hidden blamed.name closed blamed.owner) := by
  have outside := sound.owner_mem_scopeIds declared
  obtain ⟨allowed, admitted⟩ := exists_admits declared asking
  -- Only where nothing bars the way to its scope is the declaration itself to blame.
  obtain ⟨_ | closed, barred⟩ := sound.exists_barrier asking outside
  · have outermost := closedOnWay_of_barrier declared barred admitted
    cases allowed with
    | true =>
      have clear := (mayName_eq_true_iff declared).mpr ⟨barred, admitted⟩
      cases clear.symm.trans refused
    | false =>
      exact ⟨decl, declaration, outermost, declared,
        sound.resolve_declared_of_clear asking declared named barred admitted⟩
  · have outermost := closedOnWay_of_barrier declared barred admitted
    obtain ⟨blamed, present⟩ := mem_declIds.mp (sound.admits_barrier asking outside barred).1
    exact ⟨closed, blamed, outermost, present,
      sound.resolve_declared_of_barred asking declared named barred present⟩

/-- No two declarations have the same path: it says where they are, and names are unique there. -/
theorem declPath_injective (sound : tree.Sound) (issued : decl ∈ tree.declIds)
    (also : other ∈ tree.declIds) (same : tree.declPath decl = tree.declPath other) :
    decl = other := by
  obtain ⟨declaration, declared⟩ := mem_declIds.mp issued
  obtain ⟨rival, present⟩ := mem_declIds.mp also
  obtain ⟨names, named, path⟩ := sound.exists_declPath declared
  obtain ⟨_, alike, rivalPath⟩ := sound.exists_declPath present
  rw [path, rivalPath, Option.some.injEq, Path.mk.injEq] at same
  obtain ⟨_, rfl, name⟩ := same
  -- Equal segments lead to one scope, and a scope binds a name once.
  have owner : declaration.owner = rival.owner :=
    sound.segments_injective (sound.owner_mem_scopeIds declared)
      (sound.owner_mem_scopeIds present) named alike
  have here := sound.local?_eq_some_iff.mpr ⟨declaration, declared, owner, name⟩
  have there := sound.local?_eq_some_iff.mpr ⟨rival, present, rfl, rfl⟩
  exact Option.some.inj (Option.some.inj (here.symm.trans there))

theorem plain_segments (sound : tree.Sound) (plain : tree.IsPlain) {scope : ScopeId}
    {names : List Name} (issued : scope ∈ tree.scopeIds)
    (named : tree.segments scope = some names) : ∀ name ∈ names, name.IsPlain := by
  induction issued using sound.scope_induction generalizing names with
  | root =>
    cases sound.segments_root.symm.trans named
    simp
  | module declared opens ih =>
    obtain ⟨outer, above, rfl⟩ := (sound.segments_child_eq_some_iff declared opens).mp named
    simpa [or_imp, forall_and] using ⟨ih above, plain _ _ declared⟩

/-- What shows a declaration is read back as the path to it. -/
theorem exists_shown (sound : tree.Sound) (plain : tree.IsPlain)
    (declared : tree.decl? decl = some declaration) :
    ∃ names text, tree.segments declaration.owner = some names ∧ tree.declText decl = some text ∧
      Path.parse .standard text = .ok ⟨.absolute, names, declaration.name⟩ := by
  obtain ⟨names, named, path⟩ := sound.exists_declPath declared
  have around := sound.plain_segments plain (sound.owner_mem_scopeIds declared) named
  have own := plain decl declaration declared
  have writable : (Path.mk .absolute names declaration.name).Writable .standard :=
    Path.writable_of_plain (by simpa [or_imp, forall_and] using ⟨around, own⟩)
  have shown : tree.declText decl =
      some ((Path.mk .absolute names declaration.name).print .standard) := by
    rw [declText, path, Option.map_some, Path.text]
  exact ⟨names, _, named, shown, Path.parse_print writable⟩

theorem declText_injective (sound : tree.Sound) (plain : tree.IsPlain)
    (issued : decl ∈ tree.declIds) (also : other ∈ tree.declIds)
    (same : tree.declText decl = tree.declText other) : decl = other := by
  obtain ⟨declaration, declared⟩ := mem_declIds.mp issued
  obtain ⟨rival, present⟩ := mem_declIds.mp also
  obtain ⟨names, text, named, shown, read⟩ := sound.exists_shown plain declared
  obtain ⟨others, _, alike, rivalShown, again⟩ := sound.exists_shown plain present
  refine sound.declPath_injective issued also ?_
  rw [shown, rivalShown, Option.some.injEq] at same
  subst same
  rw [declPath_of_segments declared named, declPath_of_segments present alike]
  exact congrArg some (Except.ok.inj (read.symm.trans again))

end Sound

end Tree

namespace Project

variable {project : Project} {path : Path} {origin : ScopeId}

theorem resolveText_of_read {text : String}
    (read : Path.parse project.config.spelling text = .ok path) :
    (project.resolveText text origin).value =
      (project.resolve path origin).value.mapError .resolution := by
  simp [resolveText, read]

theorem resolve_of_found {decl : DeclId} (found : project.tree.resolve path origin = .ok decl) :
    (project.resolve path origin).value = .ok decl := by
  rw [resolve, found]
  rfl

/-- That something is hidden can be answered, unless the log is to tell of a scope that was never
issued. -/
theorem resolve_of_hidden (sound : project.tree.Sound) {closed : DeclId} {blamed : Declaration}
    (present : project.tree.decl? closed = some blamed)
    (failed : project.tree.resolve path origin =
      .error (.hidden blamed.name closed blamed.owner)) :
    (project.resolve path origin).value =
      if project.config.reportsErrors ∧ ¬ project.tree.Issues blamed.visibility then .stray
      else .error (.hidden blamed.name closed blamed.owner) := by
  by_cases issued : project.tree.Issues blamed.visibility
  · have described := LookupError.describe_hidden_isError sound present
      (sound.owner_mem_scopeIds present) issued blamed.name
    rw [resolve, failed, Config.report_eq (by rintro _ ⟨⟩; exact described)]
    simp [issued]
  · have undescribed := LookupError.describe_hidden_of_unissued present issued blamed.name
      blamed.owner
    by_cases switch : project.config.reportsErrors = true
    · simp [resolve, failed, Config.report, switch, undescribed, issued]
    · simp [resolve, failed, Config.report, switch]

/-- If all names are plain, what shows a declaration resolves to it from wherever it may be named.
From elsewhere it is answered that the outermost closed declaration on the way is hidden, unless the
log is to tell that this is restricted to a scope that was never issued. No two declarations are
shown alike. -/
theorem shown_declarations_resolve_back (grown : project.tree.Grown)
    (usual : project.config.spelling = .standard) (plain : project.tree.IsPlain) :
    (∀ decl ∈ project.tree.declIds, ∃ text, project.tree.declText decl = some text ∧
      ∀ origin ∈ project.tree.scopeIds,
        (project.tree.mayName decl origin = some true ∧
          (project.resolveText text origin).value = .ok decl) ∨
        (project.tree.mayName decl origin = some false ∧ ∃ closed blamed,
          project.tree.closedOnWay decl origin = some (some closed) ∧
          project.tree.decl? closed = some blamed ∧
          (project.resolveText text origin).value =
            if project.config.reportsErrors ∧ ¬ project.tree.Issues blamed.visibility then .stray
            else .error (.resolution (.hidden blamed.name closed blamed.owner)))) ∧
    ∀ decl ∈ project.tree.declIds, ∀ other ∈ project.tree.declIds,
      project.tree.declText decl = project.tree.declText other → decl = other := by
  have sound := grown.sound
  refine ⟨fun decl issued => ?_,
    fun decl issued other also => sound.declText_injective plain issued also⟩
  obtain ⟨declaration, declared⟩ := Tree.mem_declIds.mp issued
  obtain ⟨names, text, named, shown, read⟩ := sound.exists_shown plain declared
  rw [← usual] at read
  refine ⟨text, shown, fun origin asking => ?_⟩
  obtain ⟨allowed, known⟩ := sound.exists_mayName issued asking
  cases allowed with
  | true =>
    have found := sound.resolve_of_mayName asking declared named known
    exact .inl ⟨known, by rw [resolveText_of_read read, resolve_of_found found]; rfl⟩
  | false =>
    obtain ⟨closed, blamed, outermost, present, failed⟩ :=
      sound.exists_closed_of_mayName asking declared named known
    refine .inr ⟨known, closed, blamed, outermost, present, ?_⟩
    rw [resolveText_of_read read, resolve_of_hidden sound present failed]
    split <;> rfl

/-- A project of nested modules that reports no failures. -/
def nested : Project := ⟨.standard, Tree.nested, .empty Tree.nested⟩

/-- `crate::outer::hidden::deeper::item` leads from `deeper` to the item, and from `sibling` only to
the outer one of the two private modules on the way. -/
theorem nested_item_shown :
    nested.tree.Grown ∧ nested.config.spelling = .standard ∧ nested.tree.IsPlain ∧
      nested.tree.declText ⟨4⟩ = some "crate::outer::hidden::deeper::item" ∧
      (nested.resolveText "crate::outer::hidden::deeper::item" ⟨3⟩).value = .ok ⟨4⟩ ∧
      nested.tree.closedOnWay ⟨4⟩ ⟨4⟩ = some (some ⟨1⟩) ∧
      (nested.resolveText "crate::outer::hidden::deeper::item" ⟨4⟩).value =
        .error (.resolution (.hidden "hidden" ⟨1⟩ ⟨1⟩)) := by
  have grown : nested.tree.Grown := Tree.grown_build _ _
  have plain : nested.tree.IsPlain := by decide +kernel
  have text : nested.tree.declText ⟨4⟩ = some "crate::outer::hidden::deeper::item" := by
    decide +kernel
  obtain ⟨shown, _⟩ := shown_declarations_resolve_back grown rfl plain
  obtain ⟨_, same, answered⟩ := shown ⟨4⟩ (by decide +kernel)
  cases text.symm.trans same
  refine ⟨grown, rfl, plain, text, ?_, by decide +kernel, ?_⟩
  · rcases answered ⟨3⟩ (by decide +kernel) with ⟨_, found⟩ | ⟨refused, _⟩
    · exact found
    · cases (show nested.tree.mayName ⟨4⟩ ⟨3⟩ = some true from rfl).symm.trans refused
  · rcases answered ⟨4⟩ (by decide +kernel) with ⟨allowed, _⟩ | ⟨_, closed, blamed, first, rest⟩
    · cases (show nested.tree.mayName ⟨4⟩ ⟨4⟩ = some false from rfl).symm.trans allowed
    · cases (show nested.tree.closedOnWay ⟨4⟩ ⟨4⟩ = some (some ⟨1⟩) from rfl).symm.trans first
      obtain ⟨present, failed⟩ := rest
      cases (show nested.tree.decl? ⟨1⟩ = some ⟨"hidden", ⟨1⟩, .insiders, .module ⟨2⟩⟩
        from rfl).symm.trans present
      exact failed

/-- A project that reports failures and in which `crate::vault::gold` is restricted to a scope that
was never issued. -/
def vault : Project := ⟨⟨none, .standard, true⟩, Tree.vault, .empty Tree.vault⟩

/-- Asked for what shows the gold, the root is not told that it is hidden, for the log cannot be
told to whom it is restricted. -/
theorem gold_hidden_untold :
    vault.tree.Grown ∧ vault.config.spelling = .standard ∧ vault.tree.IsPlain ∧
      ⟨1⟩ ∈ vault.tree.declIds ∧ Tree.root ∈ vault.tree.scopeIds ∧
      vault.tree.declText ⟨1⟩ = some "crate::vault::gold" ∧
      vault.tree.mayName ⟨1⟩ Tree.root = some false ∧
      vault.tree.closedOnWay ⟨1⟩ Tree.root = some (some ⟨1⟩) ∧
      vault.tree.decl? ⟨1⟩ = some ⟨"gold", ⟨1⟩, .restricted ⟨2⟩, .value 0⟩ ∧
      (vault.resolveText "crate::vault::gold" Tree.root).value = .stray ∧
      (vault.resolveText "crate::vault::gold" Tree.root).value ≠
        .error (.resolution (.hidden "gold" ⟨1⟩ ⟨1⟩)) := by
  have grown : vault.tree.Grown := Tree.grown_build _ _
  have strays : (vault.resolveText "crate::vault::gold" Tree.root).value = .stray := by
    decide +kernel
  refine ⟨grown, rfl, by decide +kernel, by decide +kernel, by decide +kernel, by decide +kernel,
    by decide +kernel, by decide +kernel, rfl, strays, ?_⟩
  rw [strays]
  exact nofun

end Project

end ScopedNames
