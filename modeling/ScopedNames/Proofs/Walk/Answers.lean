import ScopedNames.Proofs.Ids
import ScopedNames.Proofs.Walk.Accessibility

set_option autoImplicit false

namespace ScopedNames

namespace Tree.Sound

variable {tree : Tree} {origin scope : ScopeId}

theorem find_ne_stray (issued : scope ∈ tree.scopeIds) (name : Name) :
    tree.find scope name ≠ .stray := by
  obtain ⟨here, found⟩ := mem_scopeIds.mp issued
  have looked := local?_of_issued found name
  cases bound : here.items.find? name <;> simp [find, looked, bound]

theorem checkAdmits_ne_stray (asking : origin ∈ tree.scopeIds) {decl : DeclId}
    {declaration : Declaration} (declared : tree.decl? decl = some declaration) :
    tree.checkAdmits decl origin ≠ .stray := by
  obtain ⟨allowed, admitted⟩ := exists_admits declared asking
  rw [checkAdmits_of_admits declared admitted]
  cases allowed <;> simp

variable (sound : tree.Sound) (asking : origin ∈ tree.scopeIds)

include sound asking

theorem findAdmitted_ne_stray (issued : scope ∈ tree.scopeIds) (name : Name) :
    tree.findAdmitted scope name origin ≠ .stray := by
  refine Outcome.bind_ne_stray (find_ne_stray issued name) fun decl found => ?_
  obtain ⟨declaration, declared, _⟩ := sound.find_eq_ok_iff.mp found
  exact Outcome.bind_ne_stray (checkAdmits_ne_stray asking declared) fun _ _ => by simp

theorem enter_ne_stray (issued : scope ∈ tree.scopeIds) (name : Name) :
    tree.enter origin scope name ≠ .stray := by
  refine Outcome.bind_ne_stray (find_ne_stray issued name) fun decl found => ?_
  obtain ⟨declaration, declared, _⟩ := sound.find_eq_ok_iff.mp found
  rw [declared, Outcome.lift_some, Outcome.ok_bind]
  cases declaration.child? with
  | none => simp
  | some child =>
    exact Outcome.bind_ne_stray (checkAdmits_ne_stray asking declared) fun _ _ => by simp

/-- By induction along the modules: each step that succeeds leads to a scope of the tree. -/
theorem walk_ne_stray {start : ScopeId} (issued : start ∈ tree.scopeIds) (modules : List Name) :
    tree.walk origin start modules ≠ .stray := by
  induction modules generalizing start with
  | nil => simp
  | cons name modules ih =>
    rw [walk_cons]
    refine Outcome.bind_ne_stray (sound.enter_ne_stray asking issued name)
      fun child entered => ih ?_
    obtain ⟨decl, declaration, declared, _, _, opens, _⟩ := sound.enter_eq_ok_iff.mp entered
    exact sound.child_mem_scopeIds declared opens

theorem reach_ne_stray (path : Path) : tree.reach path origin ≠ .stray := by
  rcases exists_start asking path.root with ⟨start, begun⟩ | ⟨reason, failed⟩
  · rw [reach_of_start begun]
    exact sound.walk_ne_stray asking (sound.start_mem_scopeIds asking begun) path.modules
  · rw [reach_of_start_error failed]
    simp

theorem resolve_ne_stray (path : Path) : tree.resolve path origin ≠ .stray := by
  refine Outcome.bind_ne_stray (sound.reach_ne_stray asking path) fun scope reached => ?_
  exact sound.findAdmitted_ne_stray asking (sound.reach_mem_scopeIds asking reached) path.name

end Tree.Sound

namespace Tree

section Outcomes

variable {ε φ α β : Type} [HasIds ε] [HasIds φ] [HasIds α] {tree : Tree}

/-- Only an error with issued ids is given, if any. -/
def Blames (tree : Tree) (outcome : Outcome ε β) : Prop :=
  ∀ reason, outcome = .error reason → tree.Issues reason

/-- There is an answer, and its ids are issued. -/
def Answers (tree : Tree) : Outcome ε α → Prop
  | .ok value => tree.Issues value
  | .error reason => tree.Issues reason
  | .stray => False

/-- Something is found, and its ids are issued. -/
def Finds (tree : Tree) (found : Option α) : Prop := ∃ thing, found = some thing ∧ tree.Issues thing

@[simp] theorem blames_ok (value : β) : tree.Blames (.ok value : Outcome ε β) := by simp [Blames]

@[simp] theorem blames_error {reason : ε} :
    tree.Blames (.error reason : Outcome ε β) ↔ tree.Issues reason := by
  simp [Blames]

@[simp] theorem blames_stray : tree.Blames (.stray : Outcome ε β) := by simp [Blames]

@[simp] theorem blames_lift (found : Option β) : tree.Blames (liftM found : Outcome ε β) := by
  cases found <;> simp

theorem Blames.bind {γ : Type} {first : Outcome ε β} {next : β → Outcome ε γ}
    (blames : tree.Blames first) (rest : ∀ value, first = .ok value → tree.Blames (next value)) :
    tree.Blames (first >>= next) := by
  intro reason failed
  rcases Outcome.bind_eq_error.mp failed with first | ⟨value, found, last⟩
  · exact blames reason first
  · exact rest value found reason last

theorem Blames.mapError {first : Outcome ε β} (blames : tree.Blames first) (wrap : ε → φ)
    (kept : ∀ reason, tree.Issues reason → tree.Issues (wrap reason)) :
    tree.Blames (first.mapError wrap) := by
  cases first with
  | ok value => exact blames_ok value
  | error reason => exact blames_error.mpr (kept reason (blames reason rfl))
  | stray => exact blames_stray

theorem answers_iff {outcome : Outcome ε α} :
    tree.Answers outcome ↔ outcome ≠ .stray ∧ tree.Blames outcome ∧
      ∀ value, outcome = .ok value → tree.Issues value := by
  cases outcome <;> simp [Answers]

/-- An answer that goes on from what was found. -/
theorem Answers.of_bind {first : Outcome ε β} {next : β → Outcome ε α}
    (answered : first ≠ .stray) (blames : tree.Blames first)
    (rest : ∀ value, first = .ok value → tree.Answers (next value)) :
    tree.Answers (first >>= next) := by
  cases first with
  | ok value => exact rest value rfl
  | error reason => exact blames reason rfl
  | stray => exact absurd rfl answered

end Outcomes

section Errors

variable {tree : Tree} {origin scope : ScopeId}

theorem blames_start (start : Root) (origin : ScopeId) : tree.Blames (tree.start start origin) := by
  cases start with
  | absolute => exact blames_ok _
  | here => exact blames_ok _
  | up levels positive =>
    refine (blames_lift _).bind fun found _ => ?_
    cases found with
    | some scope => exact blames_ok scope
    | none => exact (blames_lift _).bind fun available _ => by simp
  | external name =>
    rw [start]
    split <;> simp

theorem blames_find (scope : ScopeId) (name : Name) : tree.Blames (tree.find scope name) := by
  refine (blames_lift _).bind fun found looked => ?_
  cases found with
  | some decl => exact blames_ok decl
  | none =>
    have issued : scope ∈ tree.scopeIds := by
      cases present : tree.scope? scope with
      | none => simp [local?, present] at looked
      | some here => exact mem_scopeIds.mpr ⟨here, present⟩
    exact blames_error.mpr (issues_missing.mpr issued)

namespace Sound

variable (sound : tree.Sound)

include sound

theorem issues_hiddenError {decl : DeclId} {reason : LookupError}
    (hidden : tree.hiddenError decl = some reason) : tree.Issues reason := by
  obtain ⟨declaration, declared, rfl⟩ := Option.map_eq_some_iff.mp hidden
  exact issues_hidden.mpr
    ⟨mem_declIds.mpr ⟨declaration, declared⟩, sound.owner_mem_scopeIds declared⟩

/-- An error made of what hides a declaration. -/
theorem blames_hiddenError {β : Type} (decl : DeclId) :
    tree.Blames ((liftM (tree.hiddenError decl) : Outcome LookupError LookupError) >>=
      fun reason => (.error reason : Outcome LookupError β)) := by
  cases hidden : tree.hiddenError decl with
  | none => simp
  | some reason => exact blames_error.mpr (sound.issues_hiddenError hidden)

theorem blames_checkAdmits (decl : DeclId) (origin : ScopeId) :
    tree.Blames (tree.checkAdmits decl origin) := by
  refine (blames_lift _).bind fun allowed _ => ?_
  cases allowed with
  | true => exact blames_ok ()
  | false => exact sound.blames_hiddenError decl

/-- An error made of a declaration that is no module. -/
theorem blames_notModule {β : Type} {scope : ScopeId} {name : Name} {decl : DeclId}
    (found : tree.find scope name = .ok decl) (also : Name) :
    tree.Blames (.error (.notModule also decl) : Outcome LookupError β) := by
  obtain ⟨declaration, declared, _⟩ := sound.find_eq_ok_iff.mp found
  exact blames_error.mpr (issues_notModule.mpr (mem_declIds.mpr ⟨declaration, declared⟩))

theorem blames_enter (origin scope : ScopeId) (name : Name) :
    tree.Blames (tree.enter origin scope name) := by
  refine (blames_find scope name).bind fun decl found => ?_
  refine (blames_lift _).bind fun declaration _ => ?_
  cases declaration.child? with
  | none => exact sound.blames_notModule found name
  | some child => exact (sound.blames_checkAdmits decl origin).bind fun _ _ => blames_ok child

theorem blames_walk (origin start : ScopeId) (modules : List Name) :
    tree.Blames (tree.walk origin start modules) := by
  induction modules generalizing start with
  | nil => exact blames_ok start
  | cons name modules ih =>
    rw [walk_cons]
    exact (sound.blames_enter origin start name).bind fun child _ => ih child

theorem blames_reach (path : Path) (origin : ScopeId) : tree.Blames (tree.reach path origin) :=
  (blames_start path.root origin).bind fun start _ => sound.blames_walk origin start path.modules

theorem blames_findAdmitted (scope : ScopeId) (name : Name) (origin : ScopeId) :
    tree.Blames (tree.findAdmitted scope name origin) := by
  refine (blames_find scope name).bind fun decl _ => ?_
  exact (sound.blames_checkAdmits decl origin).bind fun _ _ => blames_ok decl

theorem blames_resolve (path : Path) (origin : ScopeId) : tree.Blames (tree.resolve path origin) :=
  (sound.blames_reach path origin).bind fun scope _ =>
    sound.blames_findAdmitted scope path.name origin

theorem mem_declIds_of_findAdmitted {name : Name} {decl : DeclId}
    (found : tree.findAdmitted scope name origin = .ok decl) : decl ∈ tree.declIds := by
  obtain ⟨declaration, declared, _⟩ := sound.findAdmitted_eq_ok_iff.mp found
  exact mem_declIds.mpr ⟨declaration, declared⟩

theorem mem_declIds_of_resolve {path : Path} {decl : DeclId}
    (found : tree.resolve path origin = .ok decl) : decl ∈ tree.declIds := by
  obtain ⟨scope, _, last⟩ := Outcome.bind_eq_ok.mp found
  exact sound.mem_declIds_of_findAdmitted last

theorem blames_scopeNamed (path : Path) (origin : ScopeId) :
    tree.Blames (tree.scopeNamed path origin) := by
  refine (sound.blames_resolve path origin).bind fun decl found => ?_
  refine (blames_lift _).bind fun declaration _ => ?_
  cases declaration.child? with
  | none => exact blames_error.mpr (issues_notModule.mpr (sound.mem_declIds_of_resolve found))
  | some child => exact blames_ok child

theorem mem_scopeIds_of_scopeNamed {path : Path} {scope : ScopeId}
    (found : tree.scopeNamed path origin = .ok scope) : scope ∈ tree.scopeIds := by
  obtain ⟨decl, _, rest⟩ := Outcome.bind_eq_ok.mp found
  obtain ⟨declaration, looked, last⟩ := Outcome.bind_eq_ok.mp rest
  cases declared : tree.decl? decl with
  | none => simp [declared] at looked
  | some known =>
    rw [declared, Outcome.lift_some, Outcome.ok.injEq] at looked
    subst looked
    cases opens : known.child? with
    | none => simp [opens] at last
    | some child =>
      rw [opens] at last
      cases last
      exact sound.child_mem_scopeIds declared opens

section Asked

variable (asking : origin ∈ tree.scopeIds)

omit sound in
theorem exists_hiddenError {decl : DeclId} (issued : decl ∈ tree.declIds) :
    ∃ reason, tree.hiddenError decl = some reason := by
  obtain ⟨declaration, declared⟩ := mem_declIds.mp issued
  exact ⟨_, by rw [hiddenError, declared, Option.map_some]⟩

theorem answers_hiddenError {decl : DeclId} (issued : decl ∈ tree.declIds) :
    tree.Answers ((liftM (tree.hiddenError decl) : Outcome LookupError LookupError) >>=
      fun reason => (.error reason : Outcome LookupError DeclId)) := by
  obtain ⟨reason, hidden⟩ := exists_hiddenError issued
  rw [hidden]
  exact sound.issues_hiddenError hidden

theorem answers_find (issued : scope ∈ tree.scopeIds) (name : Name) :
    tree.Answers (tree.find scope name) := by
  refine answers_iff.mpr ⟨find_ne_stray issued name, blames_find scope name, fun decl found => ?_⟩
  obtain ⟨declaration, declared, _⟩ := sound.find_eq_ok_iff.mp found
  exact issues_decl.mpr (mem_declIds.mpr ⟨declaration, declared⟩)

include asking

theorem answers_start (start : Root) : tree.Answers (tree.start start origin) := by
  refine answers_iff.mpr ⟨?_, blames_start start origin, fun scope begun => ?_⟩
  · rcases exists_start asking start with ⟨scope, begun⟩ | ⟨reason, failed⟩
    · simp [begun]
    · simp [failed]
  · exact issues_scope.mpr (sound.start_mem_scopeIds asking begun)

theorem answers_reach (path : Path) : tree.Answers (tree.reach path origin) :=
  answers_iff.mpr ⟨sound.reach_ne_stray asking path, sound.blames_reach path origin,
    fun _ reached => issues_scope.mpr (sound.reach_mem_scopeIds asking reached)⟩

theorem answers_findAdmitted (issued : scope ∈ tree.scopeIds) (name : Name) :
    tree.Answers (tree.findAdmitted scope name origin) :=
  answers_iff.mpr ⟨sound.findAdmitted_ne_stray asking issued name,
    sound.blames_findAdmitted scope name origin,
    fun _ found => issues_decl.mpr (sound.mem_declIds_of_findAdmitted found)⟩

theorem answers_resolve (path : Path) : tree.Answers (tree.resolve path origin) :=
  answers_iff.mpr ⟨sound.resolve_ne_stray asking path, sound.blames_resolve path origin,
    fun _ found => issues_decl.mpr (sound.mem_declIds_of_resolve found)⟩

theorem answers_scopeNamed (path : Path) : tree.Answers (tree.scopeNamed path origin) := by
  refine answers_iff.mpr ⟨?_, sound.blames_scopeNamed path origin,
    fun _ leads => issues_scope.mpr (sound.mem_scopeIds_of_scopeNamed leads)⟩
  refine Outcome.bind_ne_stray (sound.resolve_ne_stray asking path) fun decl found => ?_
  obtain ⟨declaration, declared⟩ := mem_declIds.mp (sound.mem_declIds_of_resolve found)
  rw [declared, Outcome.lift_some, Outcome.ok_bind]
  cases declaration.child? <;> simp

end Asked

end Sound

end Errors

end Tree

end ScopedNames
