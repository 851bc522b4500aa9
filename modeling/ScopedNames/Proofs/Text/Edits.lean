import ScopedNames.Text

set_option autoImplicit false

/- One edit between two texts. An edit can often be placed in several ways: a letter added to a run
of its like may stand anywhere in it. It can always be placed behind the beginning that the two
texts share, so that comparing what follows there decides the matter. -/
namespace ScopedNames.Text

/-- One character inserted, removed or replaced by another leads from one text to the other. -/
inductive OneEdit : List Char → List Char → Prop
  | insert (before after : List Char) (added : Char) :
    OneEdit (before ++ after) (before ++ added :: after)
  | remove (before after : List Char) (gone : Char) :
    OneEdit (before ++ gone :: after) (before ++ after)
  | replace (before after : List Char) (old new : Char) (apart : old ≠ new) :
    OneEdit (before ++ old :: after) (before ++ new :: after)

variable {x y : Char} {first second : List Char}

namespace OneEdit

theorem symm (edit : OneEdit first second) : OneEdit second first := by
  cases edit with
  | insert before after added => exact .remove before after added
  | remove before after gone => exact .insert before after gone
  | replace before after old new apart => exact .replace before after new old apart.symm

theorem ne (edit : OneEdit first second) : first ≠ second := by
  cases edit with
  | insert before after added => simp
  | remove before after gone => simp
  | replace before after old new apart => simp [apart]

theorem cons (edit : OneEdit first second) (x : Char) : OneEdit (x :: first) (x :: second) := by
  cases edit with
  | insert before after added => exact .insert (x :: before) after added
  | remove before after gone => exact .remove (x :: before) after gone
  | replace before after old new apart => exact .replace (x :: before) after old new apart

theorem nil_iff : OneEdit [] second ↔ ∃ added, second = [added] := by
  constructor
  · intro edit
    generalize empty : ([] : List Char) = text at edit
    cases edit with
    | insert before after added =>
      obtain ⟨rfl, rfl⟩ := List.append_eq_nil_iff.mp empty.symm
      exact ⟨added, rfl⟩
    | remove before after gone => simp at empty
    | replace before after old new apart => simp at empty
  · rintro ⟨added, rfl⟩
    exact .insert [] [] added

/-- An edit is made at the first characters or behind them, where these are the same. -/
theorem at_head_or_behind (edit : OneEdit (x :: first) (y :: second)) :
    (first = second ∧ x ≠ y) ∨ x :: first = second ∨ first = y :: second ∨
      (x = y ∧ OneEdit first second) := by
  generalize left : x :: first = old at edit
  generalize right : y :: second = new at edit
  cases edit with
  | insert before after added =>
    cases before with
    | nil =>
      cases right
      exact .inr (.inl rfl)
    | cons head before =>
      cases left
      cases right
      exact .inr (.inr (.inr ⟨rfl, .insert before after added⟩))
  | remove before after gone =>
    cases before with
    | nil =>
      cases left
      exact .inr (.inr (.inl rfl))
    | cons head before =>
      cases left
      cases right
      exact .inr (.inr (.inr ⟨rfl, .remove before after gone⟩))
  | replace before after old new apart =>
    cases before with
    | nil =>
      cases left
      cases right
      exact .inl ⟨rfl, apart⟩
    | cons head before =>
      cases left
      cases right
      exact .inr (.inr (.inr ⟨rfl, .replace before after old new apart⟩))

/-- A character put in front of a text that begins with the same one might as well follow it. -/
theorem cons_self_iff : OneEdit (x :: first) (x :: second) ↔ OneEdit first second := by
  constructor
  · intro edit
    rcases edit.at_head_or_behind with ⟨_, apart⟩ | rfl | rfl | ⟨_, behind⟩
    · exact absurd rfl apart
    · exact .insert [] first x
    · exact .remove [] second x
    · exact behind
  · exact fun edit => edit.cons x

theorem iff_of_apart (apart : x ≠ y) : OneEdit (x :: first) (y :: second) ↔
    first = second ∨ x :: first = second ∨ first = y :: second := by
  constructor
  · intro edit
    rcases edit.at_head_or_behind with ⟨same, _⟩ | added | gone | ⟨same, _⟩
    · exact .inl same
    · exact .inr (.inl added)
    · exact .inr (.inr gone)
    · exact absurd same apart
  · rintro (rfl | rfl | rfl)
    · exact .replace [] first x y apart
    · exact .insert [] (x :: first) y
    · exact .remove [] (y :: second) x

end OneEdit

section Decision

theorem oneEditUp_nil (longer : List Char) :
    oneEditUp [] longer = some (decide (longer.length = 1)) := by
  cases longer with
  | nil => rfl
  | cons head rest =>
    cases rest with
    | nil => rfl
    | cons next rest => simp [oneEditUp]

/-- A shared first character is passed over. -/
theorem oneEditUp_cons_self : oneEditUp (x :: first) (x :: second) = oneEditUp first second := by
  simp [oneEditUp]

theorem oneEditUp_of_apart (apart : x ≠ y) (ordered : first.length ≤ second.length) :
    oneEditUp (x :: first) (y :: second) =
      some (decide (first = second ∨ x :: first = second)) := by
  rw [oneEditUp, sharedLength_of_apart apart]
  by_cases level : first.length = second.length
  · have ungrown : x :: first ≠ second := by
      rintro rfl
      simp at level
    simp [level, ungrown]
  · have unlike : first ≠ second := by
      rintro rfl
      exact level rfl
    by_cases far : second.length - first.length > 1
    · have ungrown : x :: first ≠ second := by
        rintro rfl
        simp at far
      simp [far, unlike, ungrown]
    · simp [far, level, unlike]

/-- By recursion along the shared beginning, each decision being that for the texts behind it. -/
theorem exists_oneEditUp (ordered : first.length ≤ second.length) :
    ∃ decided, oneEditUp first second = some decided ∧ (decided = true ↔ OneEdit first second) := by
  induction first generalizing second with
  | nil =>
    refine ⟨_, oneEditUp_nil second, ?_⟩
    rw [decide_eq_true_iff, OneEdit.nil_iff, List.length_eq_one_iff]
  | cons x first ih =>
    cases second with
    | nil => simp at ordered
    | cons y second =>
      have shorter : first.length ≤ second.length := Nat.le_of_succ_le_succ ordered
      by_cases same : x = y
      · subst same
        rw [oneEditUp_cons_self, OneEdit.cons_self_iff]
        exact ih shorter
      · refine ⟨_, oneEditUp_of_apart same shorter, ?_⟩
        have ungone : first ≠ y :: second := by
          rintro rfl
          exact Nat.not_succ_le_self _ shorter
        rw [decide_eq_true_iff, OneEdit.iff_of_apart same, or_iff_left ungone]

theorem exists_differByOneEdit (first second : List Char) :
    ∃ decided, differByOneEdit first second = some decided ∧
      (decided = true ↔ OneEdit first second) := by
  rw [differByOneEdit]
  split
  · next ordered => exact exists_oneEditUp ordered
  · next disordered =>
    obtain ⟨decided, known, meaning⟩ := exists_oneEditUp (Nat.le_of_not_le disordered)
    exact ⟨decided, known, meaning.trans ⟨.symm, .symm⟩⟩

theorem exists_isSlip (first second : List Char) :
    ∃ likely, isSlip first second = some likely := by
  rw [isSlip]
  split
  · exact ⟨true, rfl⟩
  · obtain ⟨decided, known, _⟩ := exists_differByOneEdit first second
    exact ⟨decided, known⟩

instance (first second : List Char) : Decidable (OneEdit first second) :=
  decidable_of_iff (differByOneEdit first second = some true) <| by
    obtain ⟨decided, known, meaning⟩ := exists_differByOneEdit first second
    rw [known, Option.some.injEq, meaning]

end Decision

/-- No slice on the way is out of range, so that there is always a decision, the same either way
round: whether one edit leads from one text to the other. No edit leads from a text to itself. -/
theorem one_edit_decided (first second : List Char) :
    ∃ decided, differByOneEdit first second = some decided ∧
      (decided = true ↔ OneEdit first second) ∧ differByOneEdit second first = some decided ∧
      differByOneEdit first first = some false := by
  obtain ⟨decided, known, meaning⟩ := exists_differByOneEdit first second
  obtain ⟨reversed, knownToo, back⟩ := exists_differByOneEdit second first
  obtain ⟨alone, knownAlone, changed⟩ := exists_differByOneEdit first first
  have same : reversed = decided := by
    rw [Bool.eq_iff_iff, back, meaning]
    exact ⟨.symm, .symm⟩
  have unchanged : alone = false := by
    rw [Bool.eq_false_iff, ne_eq, changed]
    exact fun edit => edit.ne rfl
  rw [same] at knownToo
  rw [unchanged] at knownAlone
  exact ⟨decided, known, meaning, knownToo, knownAlone⟩

example : OneEdit "bookeeper".toList "bookkeeper".toList := by decide

end ScopedNames.Text
