import Bindery.Proofs.Dispatch.Pinning
import Bindery.Proofs.Holdings
/-!
# Sessions

In a session operations are performed from outside, one after the other, and each may start whatever
its delegates and callbacks do. `session_accounts`: a registry that was empty at the beginning
accounts at every moment for all changes so far, whoever has made them, and each change is answered
with the delegate that it displaced.
-/

namespace Bindery

/-- Performs operations from outside, one after the other. One that stops leaves what was done until
then. -/
def World.performAll (world : World) (operations : List Operation) : World :=
  operations.foldl (fun world operation => (world.perform operation).2) world

namespace Machine

open Run

/-- The moments that operations come past which are performed from outside one after the other, with
the journal of all that was done. An operation is given up where the next one is performed. -/
inductive Session (world : World) : List Operation → Journal → World → Prop
  | start : Session world [] [] world
  | perform {operations operation journal more between moment}
      (session : Session world operations journal between)
      (runs : Runs ⟨between, 0, .asked operation, []⟩ more moment) :
      Session world (operations ++ [operation]) (journal ++ more) moment.world

variable {world after : World} {operations : List Operation} {journal : Journal}

/-- The registry is at every moment what the changes in the journal make of the first one. -/
theorem Session.registry (session : Session world operations journal after) :
    after.registry = replay world.registry journal := by
  induction session with
  | start => rfl
  | perform _ runs ih => rw [runs.registry, ih, replay_append]

/-- A session comes past every deed in its journal. -/
theorem Session.split (session : Session world operations journal after) {earlier later : Journal}
    {deed : Deed} (h : journal = earlier ++ deed :: later) :
    ∃ before moment next, before <+: operations ∧ Session world before earlier moment.world ∧
      Step moment (some deed) next := by
  induction session generalizing later with
  | start => simp at h
  | @perform operations operation journal more between finish session runs ih =>
    rcases List.append_eq_append_iff.1 h with ⟨middle, rfl, hmore⟩ | ⟨middle, rfl, hmiddle⟩
    · obtain ⟨moment, next, hfirst, hstep, -⟩ := runs.split hmore
      exact ⟨_, moment, next, List.prefix_rfl, session.perform hfirst, hstep⟩
    · cases middle with
      | nil =>
        have hmore : more = [] ++ deed :: later := hmiddle.symm
        obtain ⟨moment, next, hfirst, hstep, -⟩ := runs.split hmore
        refine ⟨_, moment, next, List.prefix_rfl, ?_, hstep⟩
        simpa using session.perform hfirst
      | cons first rest =>
        obtain ⟨rfl, -⟩ := List.cons.inj hmiddle
        obtain ⟨before, moment, next, hbefore, hsession, hstep⟩ := ih rfl
        exact ⟨before, moment, next, hbefore.trans (List.prefix_append _ _), hsession, hstep⟩

/-- A change is answered with the delegate that it displaced. -/
theorem step_answers {moment next : Moment} {change : Change DelegateId}
    (step : Step moment (some (.changed change)) next) :
    next.focus =
      .answered (next.world.naming (moment.world.registry.displaced? change)) := by
  cases step with
  | change asks =>
    rw [← World.change?_registry _ asks]
    rfl

/-- Performing operations from outside is a session. -/
theorem session_performAll (world : World) (operations : List Operation) :
    ∃ journal, Session world operations journal (world.performAll operations) := by
  induction operations using List.reverseRecOn with
  | nil => exact ⟨[], .start⟩
  | append_singleton operations operation ih =>
    obtain ⟨journal, session⟩ := ih
    rw [World.performAll, List.foldl_concat, ← World.performAll]
    rcases houtcome : (world.performAll operations).perform operation with ⟨stop | answer, after⟩
    · obtain ⟨more, moment, hruns, rfl, -⟩ := perform_halts depthLimit houtcome 0 []
      exact ⟨_, session.perform hruns⟩
    · obtain ⟨more, tickets, hruns⟩ := perform_runs depthLimit houtcome 0 []
      exact ⟨_, session.perform hruns⟩

/-- A registry that is empty at the beginning of a session accounts at every moment for the changes
so far, also for those that delegates and callbacks have made. Each change is answered with the
delegate that it displaced. -/
theorem session_accounts (world : World) (fresh : world.registry = Registry.empty) :
    (∀ operations journal after, Session world operations journal after →
      Registry.Accounts (journal.filterMap Deed.change?) after.registry ∧
      ∀ earlier change later, journal = earlier ++ .changed change :: later →
        ∃ before moment next, before <+: operations ∧ Session world before earlier moment.world ∧
          Step moment (some (.changed change)) next ∧
          next.focus =
            .answered (next.world.naming (moment.world.registry.displaced? change))) ∧
    ∀ operations, ∃ journal, Session world operations journal (world.performAll operations) := by
  refine ⟨fun operations journal after session => ⟨?_, fun earlier change later h => ?_⟩,
    session_performAll world⟩
  · rw [session.registry, fresh]
    exact Registry.accounts _
  · obtain ⟨before, moment, next, hbefore, hsession, hstep⟩ := session.split h
    exact ⟨before, moment, next, hbefore, hsession, hstep, step_answers hstep⟩

/-- One delegate is given two names and made the interceptor. When it is invoked by one name, it
takes its other name away and gives the first to another delegate. -/
def aliasing : List Operation :=
  [.define "first"
      (.mk "shared"
        (some [.perform (.remove "second"), .perform (.define "first" (.mk "other" none))])),
    .define "second" (.mk "shared" none), .setInterceptor (.mk "shared" none),
    .dispatch "first" none none none]

/-- Of the four delegates that were put into seats, the other one has the first name, the shared
one is the interceptor, and the shared one has been handed back twice. -/
theorem aliasing_accounts :
    ∃ journal, Session World.empty aliasing journal (World.empty.performAll aliasing) ∧
      (World.empty.performAll aliasing).registry = ⟨[("first", 1)], some 0, 0⟩ ∧
      Registry.Accounts (journal.filterMap Deed.change?)
        (World.empty.performAll aliasing).registry := by
  obtain ⟨haccounts, hsessions⟩ := session_accounts World.empty rfl
  obtain ⟨journal, session⟩ := hsessions aliasing
  exact ⟨journal, session, rfl, (haccounts _ _ _ session).1⟩

end Machine

end Bindery
