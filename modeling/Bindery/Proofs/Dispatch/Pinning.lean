import Bindery.Proofs.Dispatch.Protocol
import Bindery.Proofs.Dispatch.Stopping
/-!
# What is pinned and what is live

An open dispatch holds on to what took it: `Pinned` says that this was settled by the registry at
the moment of its entering, whatever has become of the registry since. The registry itself is at
every moment what all changes so far have made of it, `Runs.registry`, and so every nested dispatch,
every operation of a callback and all that comes later see each change that was made before.
-/

namespace Bindery

namespace World

/-! ## What leaves the registry as it is -/

variable (world : World)

@[simp]
theorem observe_registry (event : Event) : (world.observe event).registry = world.registry := rfl

@[simp]
theorem note_registry (delegate : Delegate) (event : String → Event) :
    (world.note delegate event).registry = world.registry := by
  unfold note
  split <;> rfl

@[simp]
theorem invoked_registry (id : DelegateId) : (world.invoked id).registry = world.registry := rfl

@[simp]
theorem make_registry (delegate : Delegate) : (world.make delegate).1.registry = world.registry :=
  rfl

@[simp]
theorem meant_registry (name : DelegateName) : (world.meant name).1.registry = world.registry := by
  unfold meant
  split
  · rfl
  · split <;> rfl

@[simp]
theorem makeAll_registry (scripts : List (String × List Action)) :
    (world.makeAll scripts).1.registry = world.registry := by
  induction scripts generalizing world with
  | nil => rfl
  | cons script rest ih => exact ih _

@[simp]
theorem makeBindings_registry (bindings : Bindings (List Action)) :
    (world.makeBindings bindings).1.registry = world.registry := by
  obtain ⟨_ | scripts, _ | script⟩ := bindings <;> simp [makeBindings]

/-- The delegates that a change needs are made before the registry is changed. -/
theorem change?_registry {made : World} {operation : Operation} {change : Change DelegateId}
    (h : world.change? operation = some (made, change)) : made.registry = world.registry := by
  cases operation <;> simp only [change?, Option.some.injEq, Prod.mk.injEq, reduceCtorEq] at h <;>
    obtain ⟨rfl, -⟩ := h <;> simp

end World

namespace Machine

open Run

/-! ## The live registry -/

theorem step_registry {moment next : Moment} {deed : Option Deed} (step : Step moment deed next) :
    next.world.registry = replay moment.world.registry deed.toList := by
  cases step with
  | change asks =>
    rw [← World.change?_registry _ asks]
    rfl
  | drop => rfl
  | enter =>
    simp only [entering, World.note_registry, World.invoked_registry]
    rfl
  | look | signal | note | ask | askBack | hear | call | leave | leaveBack => rfl
  | exit =>
    simp only [World.note_registry]
    rfl

/-- The registry is at every moment what the changes in the journal make of the first one. -/
theorem Runs.registry {start moment : Moment} {journal : Journal}
    (run : Runs start journal moment) :
    moment.world.registry = replay start.world.registry journal := by
  induction run with
  | refl => rfl
  | step _ step ih => rw [step_registry step, ih, replay_append]

/-! ## What an open dispatch holds on to -/

/-- What is left to do in a dispatch is from the script of one delegate and from the callback of the
call. -/
def Stage.Keeps (stage : Stage) (call : Call) (delegate : Delegate) : Prop :=
  match stage with
  | .delegate running invocation rest handler =>
    running = delegate ∧ invocation = invocationOf call delegate ∧ rest <:+ delegate.script ∧
      handler.isSome = call.callback.isSome
  | .over handler => handler.isSome = call.callback.isSome
  | .callback rest => ∃ callback, call.callback = some callback ∧ rest <:+ callback

/-- A dispatch in the middle of a run was entered at some moment of it. What the registry held at
that moment took it by its route, and is what runs in it. -/
def Pinned (start : Moment) (journal : Journal) (frame : Frame) : Prop :=
  ∃ earlier later entry delegate,
    Runs start earlier entry ∧
    journal = earlier ++ .entered frame.taken (invocationOf frame.taken.call delegate)
      (handlerOf frame.taken.call) :: later ∧
    Takes entry.world.registry frame.taken.call.method frame.taken.taker frame.taken.route ∧
    (entry.world.invoked frame.taken.taker).delegate frame.taken.taker = delegate ∧
    frame.stage.Keeps frame.taken.call delegate

theorem Pinned.later {start : Moment} {journal : Journal} {frame : Frame}
    (h : Pinned start journal frame) (more : Journal) : Pinned start (journal ++ more) frame := by
  obtain ⟨earlier, later, entry, delegate, hrun, rfl, h⟩ := h
  exact ⟨earlier, later ++ more, entry, delegate, hrun, by simp, h⟩

theorem Pinned.advance {start : Moment} {journal : Journal} {taken : Taken} {stage stage' : Stage}
    (h : Pinned start journal ⟨taken, stage⟩)
    (hstage : ∀ delegate, stage.Keeps taken.call delegate → stage'.Keeps taken.call delegate) :
    Pinned start journal ⟨taken, stage'⟩ := by
  obtain ⟨earlier, later, entry, delegate, hrun, hjournal, htakes, hdelegate, hkeeps⟩ := h
  exact ⟨earlier, later, entry, delegate, hrun, hjournal, htakes, hdelegate, hstage _ hkeeps⟩

/-- Every step leaves what is pinned as it is. -/
theorem pinned_step {start moment next : Moment} {journal : Journal} {deed : Option Deed}
    (run : Runs start journal moment) (h : ∀ frame ∈ moment.frames, Pinned start journal frame)
    (step : Step moment deed next) :
    ∀ frame ∈ next.frames, Pinned start (journal ++ deed.toList) frame := by
  intro frame hf
  cases step with
  | change | look | drop | hear => exact (h frame hf).later _
  | enter asks takes is =>
    rcases List.mem_cons.1 hf with rfl | hf
    · exact ⟨journal, [], _, _, run, rfl, resolve?_eq_some_iff.1 takes, is, rfl, rfl,
        List.suffix_rfl, Option.isSome_map⟩
    · exact (h frame hf).later _
  | signal =>
    rcases List.mem_cons.1 hf with rfl | hf
    · refine ((h _ List.mem_cons_self).advance ?_).later _
      rintro delegate ⟨rfl, rfl, hrest, hsome⟩
      exact ⟨rfl, rfl, (List.suffix_cons _ _).trans hrest, by simpa using hsome⟩
    · exact (h frame (List.mem_cons_of_mem _ hf)).later _
  | note | ask =>
    rcases List.mem_cons.1 hf with rfl | hf
    · refine ((h _ List.mem_cons_self).advance ?_).later _
      rintro delegate ⟨rfl, rfl, hrest, hsome⟩
      exact ⟨rfl, rfl, (List.suffix_cons _ _).trans hrest, hsome⟩
    · exact (h frame (List.mem_cons_of_mem _ hf)).later _
  | askBack =>
    rcases List.mem_cons.1 hf with rfl | hf
    · refine ((h _ List.mem_cons_self).advance ?_).later _
      rintro delegate ⟨callback, hcallback, hrest⟩
      exact ⟨callback, hcallback, (List.suffix_cons _ _).trans hrest⟩
    · exact (h frame (List.mem_cons_of_mem _ hf)).later _
  | exit =>
    rcases List.mem_cons.1 hf with rfl | hf
    · refine ((h _ List.mem_cons_self).advance ?_).later _
      rintro delegate ⟨-, -, -, hsome⟩
      exact hsome
    · exact (h frame (List.mem_cons_of_mem _ hf)).later _
  | @call _ _ _ callback _ _ waits =>
    rcases List.mem_cons.1 hf with rfl | hf
    · refine ((h _ List.mem_cons_self).advance ?_).later _
      exact fun delegate _ => ⟨callback, waits, List.suffix_rfl⟩
    · exact (h frame (List.mem_cons_of_mem _ hf)).later _
  | leave | leaveBack => exact (h frame (List.mem_cons_of_mem _ hf)).later _

theorem Runs.pinned {start moment : Moment} {journal : Journal} (run : Runs start journal moment)
    (idle : start.frames = []) : ∀ frame ∈ moment.frames, Pinned start journal frame := by
  induction run with
  | refl =>
    rw [idle]
    exact fun frame hf => absurd hf List.not_mem_nil
  | step run step ih => exact pinned_step run ih step

/-! ## Every dispatch of a run -/

/-- Whatever takes a dispatch is what the changes made before have left to take it. -/
theorem Runs.takes {start moment : Moment} {journal earlier later : Journal} {taken : Taken}
    {invocation : Invocation} {handler : Option Handler} (run : Runs start journal moment)
    (h : journal = earlier ++ .entered taken invocation handler :: later) :
    Takes (replay start.world.registry earlier) taken.call.method taken.taker taken.route := by
  obtain ⟨entry, next, hearlier, hstep, -⟩ := run.split h
  rw [← hearlier.registry]
  cases hstep with
  | enter _ takes _ => exact resolve?_eq_some_iff.1 takes

/-- What is dropped is what nothing could take after the changes made before. -/
theorem Runs.not_takes {start moment : Moment} {journal earlier later : Journal} {call : Call}
    (run : Runs start journal moment) (h : journal = earlier ++ .dropped call :: later)
    (taker : DelegateId) (route : Route) :
    ¬Takes (replay start.world.registry earlier) call.method taker route := by
  obtain ⟨entry, next, hearlier, hstep, -⟩ := run.split h
  rw [← hearlier.registry, ← resolve?_eq_some_iff]
  cases hstep with
  | drop _ lacks => simp [lacks]

/-- A dispatch that has been entered and is not open any more has left its whole record. -/
theorem Ledger.record_of_entered {journal : Journal} {tickets : Nat} {frames : List Frame}
    {taken : Taken} {invocation : Invocation} {handler : Option Handler}
    (h : Ledger journal tickets frames) (entered : .entered taken invocation handler ∈ journal)
    (closed : ∀ frame ∈ frames, frame.taken.ticket ≠ taken.ticket) :
    ∃ count replies, own taken.ticket journal = taken.record count replies := by
  have hmem : .entered taken invocation handler ∈ own taken.ticket journal :=
    List.mem_filter.2 ⟨entered, by simp [Deed.ticket?]⟩
  have hticket : taken.ticket < tickets := by
    by_contra hnot
    rw [h.fresh _ (Nat.le_of_not_lt hnot)] at hmem
    exact absurd hmem List.not_mem_nil
  obtain ⟨other, count, replies, -, hown⟩ := h.closed _ hticket closed
  -- A record begins with the only entering in it.
  have hsame : taken = other := by
    rw [hown] at hmem
    by_cases hback : other.call.callback.isSome <;>
      simp [Taken.record, Taken.begun, hback] at hmem <;> exact hmem.1
  exact ⟨count, replies, hsame ▸ hown⟩

/-- At every moment of a dispatch, and so also when it ends or stops, the registry is what the
changes made so far have made of it, and what is open was settled by the registry at its beginning:
what takes it, by which route, and what the callback is. -/
theorem dispatch_pinned (world : World) (call : Call) :
    (∀ journal moment, Runs (asking world call) journal moment →
      moment.world.registry = replay world.registry journal ∧
      (∀ frame ∈ moment.frames, Pinned (asking world call) journal frame) ∧
      (∀ earlier other later, journal = earlier ++ .dropped other :: later →
        ∀ taker route, ¬Takes (replay world.registry earlier) other.method taker route) ∧
      ∀ earlier taken invocation handler later,
        journal = earlier ++ .entered taken invocation handler :: later →
        Takes (replay world.registry earlier) taken.call.method taken.taker taken.route ∧
        ((∀ frame ∈ moment.frames, frame.taken.ticket ≠ taken.ticket) →
          ∃ count replies, own taken.ticket journal = taken.record count replies)) ∧
    ∀ depth,
      (∀ route after, Ends (dispatch (perform depth) call) world route after →
        ∃ journal tickets,
          Runs (asking world call) journal ⟨after, tickets, .answered (.route route), []⟩ ∧
          ∀ taker settled, Takes world.registry call.method taker settled →
            route = settled ∧
            ∃ count replies,
              own 0 journal = (⟨0, call, taker, settled⟩ : Taken).record count replies) ∧
      ∀ stop after, Stops (dispatch (perform depth) call) world stop after →
        ∃ journal moment, Runs (asking world call) journal moment ∧ moment.world = after := by
  have asks : (operationOf call).call? = some call := rfl
  refine ⟨fun journal moment run => ?_, fun depth => ⟨fun route after ends => ?_, ?_⟩⟩
  · refine ⟨run.registry, run.pinned rfl, fun earlier other later hjournal => ?_, ?_⟩
    · exact run.not_takes hjournal
    · intro earlier taken invocation handler later hjournal
      have entered : .entered taken invocation handler ∈ journal := by
        rw [hjournal]
        exact List.mem_append_right _ List.mem_cons_self
      exact ⟨run.takes hjournal, (run.ledger ledger_start).record_of_entered entered⟩
  · by_cases htakes : ∃ taker settled, Takes world.registry call.method taker settled
    · obtain ⟨taker, settled, htakes⟩ := htakes
      obtain ⟨rfl, replies, journal, tickets, count, hruns, hown, -, -⟩ :=
        dispatch_served htakes ends
      refine ⟨journal, tickets, hruns, fun other settled hother => ?_⟩
      obtain ⟨rfl, rfl⟩ := htakes.unique hother
      exact ⟨rfl, count, replies, hown⟩
    · obtain ⟨journal, tickets, hruns⟩ := dispatch_runs (perform_runs depth) asks ends 0 []
      exact ⟨journal, tickets, hruns, fun taker settled h => absurd ⟨taker, settled, h⟩ htakes⟩
  · intro stop after stops
    obtain ⟨journal, moment, hruns, hworld, -⟩ :=
      dispatch_halts (perform_runs depth) (perform_halts depth) asks stops 0 []
    exact ⟨journal, moment, hruns, hworld⟩

/-- A delegate that removes itself is done by its own route, and the dispatch to it that is nested
in its own finds nothing. -/
theorem self_removing_pinned :
    ∃ after journal tickets,
      Takes selfRemoving.registry "once" 0 .delegated ∧
      Ends (dispatch (perform 1) ⟨"once", none, none, some []⟩) selfRemoving .delegated after ∧
      Runs (asking selfRemoving ⟨"once", none, none, some []⟩) journal
        ⟨after, tickets, .answered (.route .delegated), []⟩ ∧
      after.registry = replay selfRemoving.registry journal ∧
      after.registry = ⟨[], none, 1⟩ ∧
      ∃ count replies, own 0 journal =
        (⟨0, ⟨"once", none, none, some []⟩, 0, .delegated⟩ : Taken).record count replies := by
  have takes : Takes selfRemoving.registry "once" 0 .delegated := .delegate rfl
  have ends : ∃ after,
      Ends (dispatch (perform 1) ⟨"once", none, none, some []⟩) selfRemoving .delegated after ∧
        after.registry = ⟨[], none, 1⟩ := ⟨_, rfl, rfl⟩
  obtain ⟨after, ends, hafter⟩ := ends
  obtain ⟨hlive, hpinned⟩ := dispatch_pinned selfRemoving ⟨"once", none, none, some []⟩
  obtain ⟨journal, tickets, hruns, hrecord⟩ := (hpinned 1).1 _ _ ends
  exact ⟨after, journal, tickets, takes, ends, hruns, (hlive _ _ hruns).1, hafter,
    (hrecord _ _ takes).2⟩

end Machine

end Bindery
