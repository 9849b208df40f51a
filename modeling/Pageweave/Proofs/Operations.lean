import Pageweave.Proofs.Failing
import Pageweave.Proofs.History

/-!
# Operations as tasks

An operation of an engine finds the files as they are while it is done, and between two operations
they may change. So a history of operations on one cache is what tasks do over a timeline that has
the files of each operation at the times of its calls (`Event.afterAll_eq_of_covers`), and there is
such a timeline for every history (`Timeline.exists_covers`).

What holds of all tasks therefore holds of the operations of engines: the counters of the cache
agree with the log, and an operation that fails does so cleanly.
-/

namespace Pageweave

open LoadM

namespace Event

/-- Does what the engine is asked to do, after what was done before. -/
def run (event : Event) : LoadM Unit :=
  match event.operation with
  | .setup => discard (event.engine.setup event.source)
  | .preload viewPath => discard (event.engine.loader.preload event.source viewPath)
  | .load context viewPath => discard (event.engine.loadView event.source context viewPath)

/-- What the engine is asked to do, as a task. -/
def task (event : Event) : Task :=
  match event.operation with
  | .setup => .setup event.engine
  | .preload viewPath => .preload event.engine.loader viewPath
  | .load context viewPath =>
      .load event.engine.loader {} context (event.source.versions.length + 1) viewPath

/-- The state after a history, in which each event goes on from what the ones before left. -/
def afterAll (history : List Event) (state : LoadState) : LoadState :=
  history.foldl (fun state event => event.run.after state) state

theorem afterAll_concat (history : List Event) (event : Event) (state : LoadState) :
    afterAll (history ++ [event]) state = event.run.after (afterAll history state) := by
  rw [afterAll, List.foldl_concat, afterAll]

theorem run_task (event : Event) : event.task.run (.still event.source) = event.run := by
  rcases event with ⟨engine, source, _ | viewPath | ⟨context, viewPath⟩⟩
  · exact Task.run_setup engine source
  · exact Task.run_preload engine.loader source viewPath
  · exact Task.run_load engine source context viewPath

theorem loader_task (event : Event) : event.task.loader = event.engine.loader := by
  rcases event with ⟨engine, source, _ | viewPath | ⟨context, viewPath⟩⟩ <;> rfl

theorem calls_le_run (event : Event) (state : LoadState) :
    state.calls ≤ (event.run.after state).calls := by
  rw [← event.run_task]
  exact event.task.timely_run.grows (.still event.source) state

theorem calls_le_afterAll {before history : List Event} (earlier : before <+: history)
    (state : LoadState) : (afterAll before state).calls ≤ (afterAll history state).calls := by
  rcases earlier with ⟨rest, rfl⟩
  induction rest using List.reverseRecOn with
  | nil => rw [List.append_nil]
  | append_singleton rest event ih =>
      rw [← List.append_assoc, afterAll_concat]
      exact Nat.le_trans ih (event.calls_le_run _)

/-- While the files stay as an operation finds them, a task does what the operation does. -/
theorem run_task_eq_of_unchanged {event : Event} {timeline : Timeline} {state : LoadState}
    (unchanged : (Timeline.still event.source).AgreeBetween timeline state
      (event.run.after state)) :
    (event.task.run timeline).run.run state = event.run.run.run state := by
  rw [← event.run_task] at unchanged ⊢
  exact (event.task.run_eq_of_agree unchanged).symm

end Event

/-! ## Histories over time -/

/-- At the times of the calls that an event of the history makes, the files are those that the event
finds. -/
def Timeline.Covers (timeline : Timeline) (history : List Event) : Prop :=
  ∀ before event, before ++ [event] <+: history →
    (Timeline.still event.source).AgreeBetween timeline (Event.afterAll before {})
      (Event.afterAll (before ++ [event]) {})

/-- The files of a timeline up to some time, and from then on those of a source. -/
def Timeline.thenStill (timeline : Timeline) (calls : Nat) (source : FileSource) : Timeline where
  files time := if time < calls then timeline.files time else source

/-- The files of an event may be put at the end of a timeline that covers the events before. -/
theorem Timeline.Covers.concat {timeline : Timeline} {history : List Event}
    (covers : timeline.Covers history) (event : Event) :
    (timeline.thenStill (Event.afterAll history {}).calls event.source).Covers
      (history ++ [event]) := by
  intro before other earlier time started made
  rw [thenStill]
  rcases List.prefix_concat_iff.mp earlier with same | earlier
  · rcases List.append_inj' same rfl with ⟨rfl, event_eq⟩
    cases event_eq
    exact (if_neg (Nat.not_lt.mpr started)).symm
  · have past : time < (Event.afterAll history {}).calls :=
      Nat.lt_of_lt_of_le made (Event.calls_le_afterAll earlier {})
    rw [covers before other earlier time started made]
    exact (if_pos past).symm

theorem Timeline.exists_covers (history : List Event) :
    ∃ timeline : Timeline, timeline.Covers history := by
  induction history using List.reverseRecOn with
  | nil =>
      refine ⟨.still (FlatStore.source {}), ?_⟩
      intro before event earlier
      simp at earlier
  | append_singleton history event ih =>
      rcases ih with ⟨timeline, covers⟩
      exact ⟨_, covers.concat event⟩

namespace Event

variable {timeline : Timeline} {history : List Event}

/-- Over a timeline with its files, a history is what its tasks do. The induction is on the history,
from its end. -/
theorem afterAll_eq_of_covers (covers : timeline.Covers history) :
    Task.afterAll timeline (history.map task) {} = afterAll history {} := by
  induction history using List.reverseRecOn with
  | nil => rfl
  | append_singleton history event ih =>
      have earlier : timeline.Covers history := fun before other initial =>
        covers before other (initial.trans (List.prefix_append _ _))
      have unchanged := covers history event List.prefix_rfl
      rw [afterAll_concat] at unchanged ⊢
      rw [List.map_append, List.map_singleton, Task.afterAll, List.foldl_concat]
      change (event.task.run timeline).after (Task.afterAll timeline (history.map task) {}) = _
      rw [ih earlier]
      exact congrArg Prod.snd (run_task_eq_of_unchanged unchanged)

/-- After any history on a cache that is empty to begin with, the counters agree with the log. -/
theorem accounts_of_covers (covers : timeline.Covers history) :
    timeline.Accounts (afterAll history {}) := by
  rw [← afterAll_eq_of_covers covers]
  exact (Task.books_afterAll timeline (history.map task) {}).accounts

/-- An operation that fails does so cleanly, while the files stay as it finds them. -/
theorem exists_failsCleanly {event : Event} {state : LoadState} {failure : ViewFailure}
    (fails : event.run.result state = .error failure) :
    ∃ made, (Timeline.still event.source).FailsCleanly event.engine.loader.minify failure state
      (event.run.after state) made := by
  have runs := Task.conforms_run
    ((Timeline.still event.source).steps_runs event.task.loader) state
  rw [event.run_task, failure?_of_error fails, event.loader_task] at runs
  exact runs.exists_failsCleanly

end Event

end Pageweave
