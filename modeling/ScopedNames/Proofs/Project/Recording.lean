import ScopedNames.Proofs.Project.Behaviour
import ScopedNames.Proofs.Walk.Queries

set_option autoImplicit false

namespace ScopedNames

namespace Session

variable {config : Config} {session : Session} {call : Call} (on : Bool)

/-- The same calls are passed over. -/
theorem call?_withReports_none (passed : session.call? call = none) :
    (session.withReports on).call? call = none := by
  cases session with
  | drafting draft => cases call <;> first | rfl | cases passed
  | importing linking =>
    cases call with
    | finish =>
      rw [call?, Linking.call?] at passed
      split at passed <;> cases passed
    | _ => first | rfl | cases passed
  | finished project => cases call <;> first | rfl | cases passed

theorem Valid.make_withReports (valid : session.Valid config)
    (describes : session.Describes) (call : Call) :
    (session.withReports on).make call = (session.make call).withReports on := by
  cases taken : session.call? call with
  | none => rw [make, make, taken, call?_withReports_none on taken]
  | some step =>
    obtain ⟨switched, also, behaves⟩ := valid.takes_call describes taken
    rw [make_of_call? taken, make_of_call? (also on), (behaves.mirrors on).state]

/-- By induction along the calls: errors can be described in each state, since a complete tree has
no visibilities but those of the last one. -/
theorem Valid.calls_withReports {last : Session} (valid : session.Valid config)
    (calls : List Call) (leads : Leads config (calls.foldl make session) last)
    (closed : last.tree.Closed) :
    calls.foldl make (session.withReports on) = (calls.foldl make session).withReports on := by
  induction calls generalizing session with
  | nil => rfl
  | cons call calls ih =>
    have describes := ((valid.leads_calls (call :: calls)).trans leads).describes closed
    rw [List.foldl_cons, List.foldl_cons, valid.make_withReports on describes call]
    exact ih (valid.leads_make call).valid leads

theorem run_withReports {calls : List Call} {last : Session}
    (leads : Leads config (run config calls) last) (closed : last.tree.Closed) :
    run (config.withReports on) calls = (run config calls).withReports on :=
  (valid_new config).calls_withReports on calls leads closed

end Session

section Recorded

variable {tree : Tree} {event : Event} {events : List Event}

theorem Level.isShownAt_error_iff {level : Level} :
    level.isShownAt .error = true ↔ level = .error := by
  cases level <;> decide

theorem Level.isShownAt_of_error (finest : Level) : Level.error.isShownAt finest = true := by
  cases finest <;> decide

theorem Event.level_of_record? {record : Record} (told : event.record? tree = some record) :
    record.level = event.level := by
  obtain ⟨text, _, rfl⟩ := Option.map_eq_some_iff.mp told
  rfl

/-- The gravest lines of a log are those of one that goes down no further. -/
theorem Event.records?_error {finest : Level} {records : List Record}
    (made : records? tree finest events = some records) :
    records? tree .error events = some (records.filter (·.level = .error)) := by
  unfold records? at made ⊢
  induction events generalizing records with
  | nil =>
    cases made
    rfl
  | cons event events ih =>
    by_cases shown : event.level.isShownAt finest = true
    · rw [List.filter_cons, if_pos shown, List.mapM_cons] at made
      obtain ⟨record, told, rest⟩ := Option.bind_eq_some_iff.mp made
      obtain ⟨others, more, same⟩ := Option.bind_eq_some_iff.mp rest
      cases same
      have level := level_of_record? told
      by_cases grave : event.level = .error
      · have kept := Level.isShownAt_error_iff.mpr grave
        rw [List.filter_cons, if_pos kept, List.mapM_cons, told, ih more]
        simp [level, grave]
      · have left : ¬ event.level.isShownAt .error = true :=
          fun kept => grave (Level.isShownAt_error_iff.mp kept)
        rw [List.filter_cons, if_neg left, ih more]
        simp [level, grave]
    · have left : ¬ event.level.isShownAt .error = true := by
        intro kept
        rw [Level.isShownAt_error_iff.mp kept] at shown
        exact shown (Level.isShownAt_of_error finest)
      rw [List.filter_cons, if_neg shown] at made
      rw [List.filter_cons, if_neg left]
      exact ih made

/-- What is told besides reports does not reach the gravest level. -/
theorem Event.records?_append_of_plain {told : List Event}
    (plain : ∀ event ∈ told, event.isReport = false) (events : List Event) :
    records? tree .error (told ++ events) = records? tree .error events := by
  have left : told.filter (·.level.isShownAt .error) = [] := by
    refine List.filter_eq_nil_iff.mpr fun event listed kept => ?_
    exact level_ne_error (plain event listed) (Level.isShownAt_error_iff.mp kept)
  rw [records?, records?, List.filter_append, left, List.nil_append]

/-- The log of a call holds these lines at the gravest level, however fine it is otherwise. -/
def Step.Gravest (step : Step Session ProjectError (Option Id)) (lines : List Record) : Prop :=
  Event.records? step.state.tree .error step.events = some lines ∧
    ∀ finest records, Event.records? step.state.tree finest step.events = some records →
      records.filter (·.level = .error) = lines

variable {config : Config} {call : Call} {step : Step Session ProjectError (Option Id)}

theorem Step.Reports.gravest {lines : List Record}
    (reports : step.Reports config fun session => ProjectError.describe session.tree)
    (made : Event.records? step.state.tree .error
      (config.reports (ProjectError.describe step.state.tree) step.answer) = some lines) :
    step.Gravest lines := by
  obtain ⟨⟨told, plain, events⟩, _⟩ := reports
  have known : Event.records? step.state.tree .error step.events = some lines := by
    rw [events, Event.records?_append_of_plain plain, made]
  refine ⟨known, fun finest records fine => ?_⟩
  exact Option.some.inj ((Event.records?_error fine).symm.trans known)

namespace Session

/-- In a session whose visibilities name issued scopes, a call that fails is recorded once at the
gravest level, by the message of its error and the remarks on it, if failures are to be reported;
only if a text is no path is nothing recorded. Calls that do not fail are not recorded there, and
reports make no difference to answers and states. -/
theorem failures_recorded_once {calls before after : List Call}
    (closed : (run config calls).tree.Closed) (split : calls = before ++ call :: after)
    (taken : (run config before).call? call = some step) :
    (∀ on, run (config.withReports on) before = (run config before).withReports on ∧
      ∃ other, (run (config.withReports on) before).call? call = some other ∧
        other.answer = step.answer ∧ other.state = step.state.withReports on) ∧
    ((∀ reason, step.answer ≠ .error reason) → step.Gravest []) ∧
    ∀ reason, step.answer = .error reason →
      ∃ diagnostic, reason.describe step.state.tree = some diagnostic ∧ step.Gravest
        (if config.reportsErrors && call.isHeard config.spelling then
          [⟨.error, diagnostic.body⟩] else []) := by
  have valid := valid_run config before
  have leads := leads_run config before (call :: after)
  rw [← split] at leads
  obtain ⟨switched, also, behaves⟩ := valid.takes_call (leads.describes closed) taken
  have reports := behaves.reports
  refine ⟨fun on => ?_, fun succeeded => ?_, fun reason failed => ?_⟩
  · have same := run_withReports on leads closed
    have mirrors := behaves.mirrors on
    rw [same]
    exact ⟨rfl, switched on, also on, mirrors.answer, mirrors.state⟩
  · refine reports.gravest ?_
    cases answered : step.answer with
    | ok value => rfl
    | error reason => exact absurd answered (succeeded reason)
    | stray => rfl
  · obtain ⟨diagnostic, described, severe⟩ := reports.described reason failed
    refine ⟨diagnostic, described, reports.gravest ?_⟩
    -- Of all that the call tells, only the report of its failure is as grave as this.
    have level : (Event.reported diagnostic).level = .error := by
      rw [Event.level, severe]
      rfl
    have switch : (config.hearing call).reportsErrors =
        (config.reportsErrors && call.isHeard config.spelling) := rfl
    rw [failed, Config.reports, described, switch]
    split
    · simp [Event.records?, level, Level.isShownAt_of_error, Event.record?, Event.text]
    · rfl

/-- A project that declares nothing is asked for `gold` and for a text that is no path. -/
def vainCalls : List Call :=
  [.complete, .finish, .resolve ⟨.absolute, [], "gold"⟩ Tree.root, .resolveText "" Tree.root]

/-- Both fail, but only the first is recorded. -/
theorem empty_text_unrecorded :
    ∃ missing empty,
      (run ⟨none, .standard, true⟩ [.complete, .finish]).call?
        (.resolve ⟨.absolute, [], "gold"⟩ Tree.root) = some missing ∧
      missing.answer = .error (.resolution (.missing "gold" Tree.root)) ∧
      missing.Gravest [⟨.error, "cannot find `gold` in `crate`"⟩] ∧
      (run ⟨none, .standard, true⟩
        [.complete, .finish, .resolve ⟨.absolute, [], "gold"⟩ Tree.root]).call?
          (.resolveText "" Tree.root) = some empty ∧
      empty.answer = .error (.badPath .blank) ∧ empty.Gravest [] := by
  have closed : (run ⟨none, .standard, true⟩ vainCalls).tree.Closed := by
    intro decl declaration declared
    cases (Tree.decl?_empty none decl).symm.trans declared
  have one : vainCalls = [.complete, .finish] ++ .resolve ⟨.absolute, [], "gold"⟩ Tree.root ::
      [.resolveText "" Tree.root] := rfl
  have other : vainCalls = [.complete, .finish, .resolve ⟨.absolute, [], "gold"⟩ Tree.root] ++
      .resolveText "" Tree.root :: [] := rfl
  obtain ⟨_, _, first⟩ := failures_recorded_once closed one rfl
  obtain ⟨_, _, second⟩ := failures_recorded_once closed other rfl
  obtain ⟨found, described, heard⟩ := first (.resolution (.missing "gold" Tree.root)) rfl
  obtain ⟨_, _, unheard⟩ := second (.badPath .blank) rfl
  refine ⟨_, _, rfl, rfl, ?_, rfl, rfl, ?_⟩
  · cases described
    exact heard
  · exact unheard

end Session

end Recorded

/-- The ids that calls pass were issued, and so were the scopes to which visibilities restrict what
is declared, at the latest by the call that declares it. -/
def Session.Proper (config : Config) (calls : List Call) : Prop :=
  ∀ before call after, calls = before ++ call :: after →
    (∀ id ∈ call.passed, (run config before).tree.HasIssued id) ∧
      (run config (before ++ [call])).tree.Closed

/-- Nothing asked of a session goes astray, and each error with issued ids can be described. -/
structure Session.Answering (session : Session) : Prop where
  tree : session.tree.Answering
  imports : ∀ imports, session.imports? = some imports → imports.Answering session.tree
  errors : ∀ reason : ProjectError, session.tree.Issues reason →
    IsError (reason.describe session.tree)

namespace Session

variable {config : Config}

theorem Valid.answering {session : Session} (valid : session.Valid config)
    (closed : session.tree.Closed) : session.Answering := by
  have grown := valid.grown
  refine ⟨grown.answering closed, fun imports known => ?_,
    fun reason issued => reason.describe_isError grown.sound closed issued⟩
  cases session with
  | drafting draft => cases known
  | importing linking =>
    cases known
    exact (valid.2.within grown).answering grown.sound
  | finished project =>
    cases known
    exact (Linking.Valid.within valid.2 grown).answering grown.sound

/-- A tree without declarations has no visibilities that could name anything. -/
theorem closed_nil (config : Config) : (run config []).tree.Closed := by
  intro decl declaration declared
  cases (Tree.decl?_empty config.externalName decl).symm.trans declared

theorem Proper.closed {before after : List Call} (proper : Proper config (before ++ after)) :
    (run config before).tree.Closed := by
  rcases List.eq_nil_or_concat before with rfl | ⟨earlier, last, rfl⟩
  · exact closed_nil config
  · rw [List.concat_eq_append] at proper ⊢
    exact (proper earlier last after (by simp)).2

/-- If calls pass issued ids only, every state in between answers all questions about issued ids,
with one table of imports for each scope of the complete tree, and every call is answered. Whatever
ids its answer holds were issued, the lines that it tells can be written however fine the log is,
and its error, if it fails, can be described from then on. -/
theorem proper_sessions_answer {calls : List Call} (proper : Proper config calls) :
    (∀ before after, calls = before ++ after → (run config before).Answering) ∧
      ∀ before call after step, calls = before ++ call :: after →
        (run config before).call? call = some step →
          step.Safe Session.tree ∧
          (∀ finest, ∃ records,
            Event.records? step.state.tree finest step.events = some records) ∧
          ∀ reason, step.answer = .error reason →
            IsError (reason.describe (run config calls).tree) := by
  refine ⟨fun before after split => ?_, fun before call after step split taken => ?_⟩
  · rw [split] at proper
    exact (valid_run config before).answering proper.closed
  · have valid := valid_run config before
    have passed := (proper before call after split).1
    have closed : (run config calls).tree.Closed := by
      rw [← List.append_nil calls] at proper
      exact proper.closed
    have leads := leads_run config before (call :: after)
    rw [← split] at leads
    obtain ⟨_, _, behaves⟩ := valid.takes_call (leads.describes closed) taken
    have safe := behaves.safe passed
    have next := (valid.leads_call taken).valid
    refine ⟨safe, Event.exists_records next.grown.sound safe.shown, fun reason failed => ?_⟩
    have last : (run config calls).Valid config := valid_run config calls
    -- The error holds ids of the tree that the call left, which was only extended since.
    have later : step.state.tree.Extends (run config calls).tree := by
      have rest := leads_run config (before ++ [call]) after
      rw [run_concat, make_of_call? taken, List.append_assoc, List.singleton_append, ← split]
        at rest
      exact rest.grows
    have issued : step.state.tree.Issues reason := by
      have answers := safe.answers
      rwa [failed] at answers
    exact reason.describe_isError last.grown.sound closed (later.issues issued)

theorem proper_iff {calls : List Call} : Proper config calls ↔
    ∀ index (inside : index < calls.length),
      (∀ id ∈ calls[index].passed, (run config (calls.take index)).tree.HasIssued id) ∧
        (run config (calls.take (index + 1))).tree.Closed := by
  constructor
  · intro proper index inside
    have split : calls = calls.take index ++ calls[index] :: calls.drop (index + 1) := by simp
    have whole : calls.take index ++ [calls[index]] = calls.take (index + 1) := by simp
    have known := proper (calls.take index) calls[index] (calls.drop (index + 1)) split
    rwa [whole] at known
  · intro each before call after split
    subst split
    have known := each before.length (by simp)
    have whole : (before ++ call :: after).take (before.length + 1) = before ++ [call] := by
      rw [List.take_length_add_append, List.take_one, List.head?_cons, Option.toList_some]
    rw [whole] at known
    simpa using known

instance (config : Config) (calls : List Call) : Decidable (Proper config calls) :=
  decidable_of_iff _ proper_iff.symm

/-- `gold` is kept to `vault`, which passes it on to a glob of the root as `coin`. -/
def vaultCalls : List Call :=
  [.declareIn (.declareScope Tree.root "vault" .everyone),
    .declare ⟨["vault"], "gold", .value 7, .restricted ⟨1⟩⟩, .complete,
    .importPath ⟨["vault"], ⟨.here, [], "gold"⟩, some "coin", true⟩,
    .collect (.importGlob Tree.root ⟨1⟩), .finish,
    .resolve ⟨.absolute, ["vault"], "gold"⟩ Tree.root, .lookup "coin" Tree.root]

/-- Asked for by its path, `gold` is hidden from the root, which can be told to whom it is kept;
asked for as `coin`, it is found. -/
theorem hidden_gold_described :
    Proper .standard vaultCalls ∧ (run .standard vaultCalls).Answering ∧
      (∃ step, (run .standard (vaultCalls.take 6)).call?
          (.resolve ⟨.absolute, ["vault"], "gold"⟩ Tree.root) = some step ∧
        step.answer = .error (.resolution (.hidden "gold" ⟨1⟩ ⟨1⟩)) ∧
        IsError ((ProjectError.resolution (.hidden "gold" ⟨1⟩ ⟨1⟩)).describe
          (run .standard vaultCalls).tree)) ∧
      ∃ step, (run .standard (vaultCalls.take 7)).call? (.lookup "coin" Tree.root) = some step ∧
        step.answer = .ok (some (.decl ⟨1⟩)) ∧ step.Safe Session.tree := by
  have proper : Proper .standard vaultCalls := by decide +kernel
  obtain ⟨states, calls⟩ := proper_sessions_answer proper
  obtain ⟨hidden, first, failed⟩ : ∃ step, (run .standard (vaultCalls.take 6)).call?
      (.resolve ⟨.absolute, ["vault"], "gold"⟩ Tree.root) = some step ∧
        step.answer = .error (.resolution (.hidden "gold" ⟨1⟩ ⟨1⟩)) := ⟨_, rfl, rfl⟩
  obtain ⟨found, second, answered⟩ : ∃ step, (run .standard (vaultCalls.take 7)).call?
      (.lookup "coin" Tree.root) = some step ∧ step.answer = .ok (some (.decl ⟨1⟩)) :=
    ⟨_, rfl, rfl⟩
  have whole := states vaultCalls [] (List.append_nil vaultCalls).symm
  obtain ⟨_, _, described⟩ := calls (vaultCalls.take 6) _ (vaultCalls.drop 7) hidden rfl first
  obtain ⟨safe, _, _⟩ := calls (vaultCalls.take 7) _ [] found rfl second
  exact ⟨proper, whole, ⟨hidden, first, failed, described _ failed⟩,
    found, second, answered, safe⟩

end Session

end ScopedNames
