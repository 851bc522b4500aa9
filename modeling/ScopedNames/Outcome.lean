set_option autoImplicit false

namespace ScopedNames

/-- A value, an error of the domain, or `stray`: an id was used that was never issued. -/
inductive Outcome (ε α : Type) where
  | ok (value : α)
  | error (reason : ε)
  | stray
  deriving DecidableEq, Repr

namespace Outcome

variable {ε φ α β : Type}

protected def bind (first : Outcome ε α) (next : α → Outcome ε β) : Outcome ε β :=
  match first with
  | .ok value => next value
  | .error reason => .error reason
  | .stray => .stray

instance : Monad (Outcome ε) where
  pure := .ok
  bind := Outcome.bind

/-- A missing look-up is a stray id. -/
def ofOption : Option α → Outcome ε α
  | some value => .ok value
  | none => .stray

instance : MonadLift Option (Outcome ε) where
  monadLift := ofOption

def mapError (wrap : ε → φ) : Outcome ε α → Outcome φ α
  | .ok value => .ok value
  | .error reason => .error (wrap reason)
  | .stray => .stray

@[simp] theorem pure_eq (value : α) : (pure value : Outcome ε α) = .ok value := rfl

@[simp] theorem ok_bind (value : α) (next : α → Outcome ε β) :
    (Outcome.ok value >>= next) = next value := rfl

@[simp] theorem error_bind (reason : ε) (next : α → Outcome ε β) :
    (Outcome.error reason >>= next) = .error reason := rfl

@[simp] theorem stray_bind (next : α → Outcome ε β) :
    ((Outcome.stray : Outcome ε α) >>= next) = .stray := rfl

@[simp] theorem lift_some (value : α) :
    (liftM (some value) : Outcome ε α) = .ok value := rfl

@[simp] theorem lift_none : (liftM (none : Option α) : Outcome ε α) = .stray := rfl

theorem lift_eq_ok_iff {found : Option α} {value : α} :
    (liftM found : Outcome ε α) = .ok value ↔ found = some value := by
  cases found <;> simp

instance : LawfulMonad (Outcome ε) :=
  LawfulMonad.mk' _ (fun first => by cases first <;> rfl) (fun _ _ => rfl)
    (fun first _ _ => by cases first <;> rfl)

theorem mapError_eq_ok_iff {wrap : ε → φ} {first : Outcome ε α} {value : α} :
    first.mapError wrap = .ok value ↔ first = .ok value := by
  cases first <;> simp [mapError]

theorem mapError_eq_error_iff {wrap : ε → φ} {first : Outcome ε α} {reason : φ} :
    first.mapError wrap = .error reason ↔ ∃ cause, first = .error cause ∧ wrap cause = reason := by
  cases first <;> simp [mapError]

theorem mapError_ne_stray (wrap : ε → φ) {first : Outcome ε α} (answered : first ≠ .stray) :
    first.mapError wrap ≠ .stray := by
  cases first with
  | ok value => simp [mapError]
  | error reason => simp [mapError]
  | stray => exact absurd rfl answered

@[simp] theorem mapError_ok (wrap : ε → φ) (value : α) :
    (Outcome.ok value : Outcome ε α).mapError wrap = .ok value := rfl

theorem mapError_bind (wrap : ε → φ) (first : Outcome ε α) (next : α → Outcome ε β) :
    (first >>= next).mapError wrap =
      first.mapError wrap >>= fun value => (next value).mapError wrap := by
  cases first <;> rfl

@[simp] theorem mapError_lift (wrap : ε → φ) (found : Option α) :
    (liftM found : Outcome ε α).mapError wrap = liftM found := by
  cases found <;> rfl

theorem bind_eq_ok {first : Outcome ε α} {next : α → Outcome ε β} {result : β} :
    first >>= next = .ok result ↔ ∃ value, first = .ok value ∧ next value = .ok result := by
  cases first <;> simp

theorem bind_eq_error {first : Outcome ε α} {next : α → Outcome ε β} {reason : ε} :
    first >>= next = .error reason ↔
      first = .error reason ∨ ∃ value, first = .ok value ∧ next value = .error reason := by
  cases first <;> simp

/-- Where a look-up comes first, it is what comes next that fails. -/
theorem lift_bind_eq_error {found : Option α} {next : α → Outcome ε β} {reason : ε} :
    (liftM found >>= next : Outcome ε β) = .error reason ↔
      ∃ value, found = some value ∧ next value = .error reason := by
  cases found <;> simp

theorem bind_ne_stray {first : Outcome ε α} {next : α → Outcome ε β} (answered : first ≠ .stray)
    (rest : ∀ value, first = .ok value → next value ≠ .stray) : first >>= next ≠ .stray := by
  cases first with
  | ok value => exact rest value rfl
  | error reason => simp
  | stray => exact absurd rfl answered

end Outcome

/-- What an operation does: its answer, and the state that it leaves behind, whatever the answer. -/
structure Effect (σ ε α : Type) where
  answer : Outcome ε α
  state : σ

/-- An operation on a state. -/
def Action (σ ε α : Type) : Type := σ → Effect σ ε α

namespace Action

variable {σ τ ε φ α β : Type}

/-- Answers and leaves the state as it is. -/
def give (answer : Outcome ε α) : Action σ ε α := fun state => ⟨answer, state⟩

/-- Goes on from the state that was left. A failure leaves the state that it was met in. -/
protected def bind (first : Action σ ε α) (next : α → Action σ ε β) : Action σ ε β := fun state =>
  let made := first state
  match made.answer with
  | .ok value => next value made.state
  | .error reason => ⟨.error reason, made.state⟩
  | .stray => ⟨.stray, made.state⟩

instance : Monad (Action σ ε) where
  pure value := give (.ok value)
  bind := Action.bind

instance : MonadLift (Outcome ε) (Action σ ε) where
  monadLift := give

/-- Changes the state in one go. What can fail about the change fails before it is made. -/
def once (change : σ → Outcome ε (α × σ)) : Action σ ε α := fun state =>
  match change state with
  | .ok (value, next) => ⟨.ok value, next⟩
  | .error reason => ⟨.error reason, state⟩
  | .stray => ⟨.stray, state⟩

def mapError (wrap : ε → φ) (act : Action σ ε α) : Action σ φ α := fun state =>
  let made := act state
  ⟨made.answer.mapError wrap, made.state⟩

/-- Works on a part of the state. What is left of the part is put back, whatever the answer. -/
def onPart (part? : σ → Option τ) (put : σ → τ → σ) (act : Action τ ε α) : Action σ ε α :=
  fun state =>
    match part? state with
    | some part =>
      let made := act part
      ⟨made.answer, put state made.state⟩
    | none => ⟨.stray, state⟩

/-- The answer together with the state left behind, where there is a value. -/
def outcome (act : Action σ ε α) (state : σ) : Outcome ε (α × σ) :=
  let made := act state
  made.answer >>= fun value => .ok (value, made.state)

variable {state : σ}

@[simp] theorem outcome_pure (value : α) :
    (pure value : Action σ ε α).outcome state = .ok (value, state) := rfl

@[simp] theorem outcome_lift (answer : Outcome ε α) :
    (liftM answer : Action σ ε α).outcome state =
      answer >>= fun value => .ok (value, state) := rfl

@[simp] theorem outcome_liftOption (found : Option α) :
    (liftM found : Action σ ε α).outcome state =
      liftM found >>= fun value => .ok (value, state) := rfl

@[simp] theorem outcome_give (answer : Outcome ε α) :
    (give answer : Action σ ε α).outcome state =
      answer >>= fun value => .ok (value, state) := rfl

@[simp] theorem outcome_bind (first : Action σ ε α) (next : α → Action σ ε β) :
    (first >>= next).outcome state =
      first.outcome state >>= fun made => (next made.1).outcome made.2 := by
  change (Action.bind first next).outcome state = _
  cases answered : (first state).answer <;> simp [outcome, Action.bind, answered]

@[simp] theorem outcome_once (change : σ → Outcome ε (α × σ)) :
    (once change).outcome state = change state := by
  cases made : change state <;> simp [outcome, once, made]

@[simp] theorem outcome_mapError (wrap : ε → φ) (act : Action σ ε α) :
    (act.mapError wrap).outcome state = (act.outcome state).mapError wrap := by
  cases answered : (act state).answer <;> simp [outcome, mapError, Outcome.mapError, answered]

@[simp] theorem outcome_onPart (part? : σ → Option τ) (put : σ → τ → σ) (act : Action τ ε α) :
    (act.onPart part? put).outcome state = liftM (part? state) >>= fun part =>
      act.outcome part >>= fun made => .ok (made.1, put state made.2) := by
  cases found : part? state with
  | none => simp [outcome, onPart, found]
  | some part => cases answered : (act part).answer <;> simp [outcome, onPart, found, answered]

theorem outcome_eq_ok_iff {act : Action σ ε α} {value : α} {next : σ} :
    act.outcome state = .ok (value, next) ↔
      (act state).answer = .ok value ∧ (act state).state = next := by
  cases answered : (act state).answer <;> simp [outcome, answered]

theorem outcome_eq_error_iff {act : Action σ ε α} {reason : ε} :
    act.outcome state = .error reason ↔ (act state).answer = .error reason := by
  cases answered : (act state).answer <;> simp [outcome, answered]

theorem outcome_eq_stray_iff {act : Action σ ε α} :
    act.outcome state = .stray ↔ (act state).answer = .stray := by
  cases answered : (act state).answer <;> simp [outcome, answered]

/-- Unless it answers with a value, the action leaves the state as it was. -/
def AllOrNothing (act : Action σ ε α) (state : σ) : Prop :=
  (∃ value, (act state).answer = .ok value) ∨ (act state).state = state

namespace AllOrNothing

theorem state_eq {act : Action σ ε α} (whole : act.AllOrNothing state)
    (failed : ∀ value, (act state).answer ≠ .ok value) : (act state).state = state := by
  rcases whole with ⟨value, succeeds⟩ | same
  · exact absurd succeeds (failed value)
  · exact same

theorem of_ok {act : Action σ ε α} {made : α × σ} (succeeds : act.outcome state = .ok made) :
    act.AllOrNothing state :=
  .inl ⟨made.1, (outcome_eq_ok_iff.mp succeeds).1⟩

theorem once (change : σ → Outcome ε (α × σ)) : (once change).AllOrNothing state := by
  cases made : change state <;> simp [AllOrNothing, Action.once, made]

theorem pure (value : α) : (pure value : Action σ ε α).AllOrNothing state := .inl ⟨value, rfl⟩

theorem give (answer : Outcome ε α) : (give answer : Action σ ε α).AllOrNothing state := .inr rfl

/-- What is asked for first changes nothing, whatever the answer. -/
theorem lift_bind {answer : Outcome ε α} {next : α → Action σ ε β}
    (rest : ∀ value, answer = .ok value → (next value).AllOrNothing state) :
    (liftM answer >>= next : Action σ ε β).AllOrNothing state := by
  cases answer with
  | ok value => exact rest value rfl
  | error reason => exact .inr rfl
  | stray => exact .inr rfl

theorem liftOption_bind {found : Option α} {next : α → Action σ ε β}
    (rest : ∀ value, found = some value → (next value).AllOrNothing state) :
    (liftM found >>= next : Action σ ε β).AllOrNothing state :=
  lift_bind fun value known => rest value (Outcome.lift_eq_ok_iff.mp known)

/-- What comes behind a change must not fail. -/
theorem bind {first : Action σ ε α} {next : α → Action σ ε β} (whole : first.AllOrNothing state)
    (rest : ∀ value after, first.outcome state = .ok (value, after) →
      ∃ last, (next value).outcome after = .ok last) :
    (first >>= next).AllOrNothing state := by
  change (Action.bind first next).AllOrNothing state
  cases answered : (first state).answer with
  | ok value =>
    obtain ⟨last, succeeds⟩ := rest value _ (outcome_eq_ok_iff.mpr ⟨answered, rfl⟩)
    refine .inl ⟨last.1, ?_⟩
    simp only [Action.bind, answered, (outcome_eq_ok_iff.mp succeeds).1]
  | error reason =>
    have same := whole.state_eq (by simp [answered])
    exact .inr (by simp only [Action.bind, answered, same])
  | stray =>
    have same := whole.state_eq (by simp [answered])
    exact .inr (by simp only [Action.bind, answered, same])

theorem mapError {act : Action σ ε α} (whole : act.AllOrNothing state) (wrap : ε → φ) :
    (act.mapError wrap).AllOrNothing state := by
  rcases whole with ⟨value, succeeds⟩ | same
  · exact .inl ⟨value, by simp [Action.mapError, succeeds, Outcome.mapError]⟩
  · exact .inr same

/-- A part that is left as it was is put back as it was. -/
theorem onPart {part? : σ → Option τ} {put : σ → τ → σ} {act : Action τ ε α}
    (whole : ∀ part, part? state = some part → act.AllOrNothing part)
    (back : ∀ part, part? state = some part → put state part = state) :
    (act.onPart part? put).AllOrNothing state := by
  cases found : part? state with
  | none => exact .inr (by simp only [Action.onPart, found])
  | some part =>
    rcases whole part found with ⟨value, succeeds⟩ | same
    · exact .inl ⟨value, by simpa only [Action.onPart, found] using succeeds⟩
    · exact .inr (by simp only [Action.onPart, found, same, back part found])

end AllOrNothing

end Action

/-- The members that pass, if the test is defined for every member. -/
def sieve {α : Type} (test : α → Option Bool) : List α → Option (List α)
  | [] => some []
  | first :: rest => do
    let passes ← test first
    let kept ← sieve test rest
    return if passes then first :: kept else kept

theorem sieve_eq_filter {α : Type} (test : α → Option Bool) (passes : α → Bool) (list : List α)
    (defined : ∀ member ∈ list, test member = some (passes member)) :
    sieve test list = some (list.filter passes) := by
  induction list with
  | nil => rfl
  | cons first rest ih =>
    rw [sieve, defined first List.mem_cons_self,
      ih fun member inside => defined member (List.mem_cons_of_mem first inside)]
    cases passed : passes first <;> simp [passed]

namespace Outcome

variable {ε α β : Type} {excuse : ε → Prop}

/-- The second ending is the first one, unless that was an error with an excuse. -/
def AlikeUnless (excuse : ε → Prop) (first second : Outcome ε α) : Prop :=
  second = first ∨ ∃ reason, first = .error reason ∧ excuse reason

namespace AlikeUnless

theorem of_eq {first second : Outcome ε α} (same : second = first) :
    AlikeUnless excuse first second := .inl same

theorem of_excused {reason : ε} (excused : excuse reason) (second : Outcome ε α) :
    AlikeUnless excuse (.error reason) second := .inr ⟨reason, rfl, excused⟩

/-- Computations end alike if their first steps do and, where those had a value, what is made of the
value does. -/
theorem bind {first second : Outcome ε α} {next also : α → Outcome ε β}
    (alike : AlikeUnless excuse first second)
    (rest : ∀ value, first = .ok value → AlikeUnless excuse (next value) (also value)) :
    AlikeUnless excuse (first >>= next) (second >>= also) := by
  rcases alike with rfl | ⟨reason, rfl, excused⟩
  · cases second with
    | ok value => exact rest value rfl
    | error reason => exact .inl rfl
    | stray => exact .inl rfl
  · exact .inr ⟨reason, rfl, excused⟩

theorem eq_of_unexcused {first second : Outcome ε α} (alike : AlikeUnless excuse first second)
    (unexcused : ∀ reason, first = .error reason → ¬ excuse reason) : second = first := by
  rcases alike with same | ⟨reason, failed, excused⟩
  · exact same
  · exact absurd excused (unexcused reason failed)

end AlikeUnless

end Outcome

end ScopedNames
