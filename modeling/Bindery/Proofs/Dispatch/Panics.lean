import Bindery.Proofs.Dispatch.Observers
import Bindery.Proofs.Dispatch.Unwinding
/-!
# A panic goes through

A delegate panics in the innermost of the dispatches that are open. `panic_unwinds`: whoever has
asked for the outermost one gets the panic, and all that was done until then stays done, no more and
no less. The callbacks of dispatches that were over have run once. A dispatch whose delegate was
still at work does not run its callback. Only where the panic comes out of a callback has this one
been handed its reply before.
-/

namespace Bindery

/-! ## What comes later -/

namespace World

/-- Operations have the same answers and leave the same behind, whatever the past has been. -/
theorem Alike.performAll {first second : World} (alike : first.Alike second)
    (operations : List Operation) :
    first.answers operations = second.answers operations ∧
      (first.performAll operations).Alike (second.performAll operations) ∧
      ∃ news, (first.performAll operations).events = first.events ++ news ∧
        (second.performAll operations).events = second.events ++ news := by
  induction operations generalizing first second with
  | nil => exact ⟨rfl, alike, [], (List.append_nil _).symm, (List.append_nil _).symm⟩
  | cons operation rest ih =>
    obtain ⟨answer, after, hfirst, hsecond⟩ := alike.perform operation
    have halike : (after.since first.events).Alike (after.since second.events) := ⟨rfl, rfl⟩
    obtain ⟨hanswers, hafter, news, hnews, hnews'⟩ := ih halike
    rw [answers, answers, World.performAll, World.performAll, List.foldl_cons, List.foldl_cons,
      hfirst, hsecond]
    refine ⟨congrArg _ hanswers, hafter, after.events ++ news, ?_, ?_⟩
    · exact hnews.trans (List.append_assoc _ _ _)
    · exact hnews'.trans (List.append_assoc _ _ _)

end World

/-- What a callback is observed to take. -/
def Event.called? : Event → Option (Option Value)
  | .called value => some value
  | _ => none

namespace Machine

open Run

/-! ## Callbacks -/

/-- What a callback takes. -/
def Deed.called? : Deed → Option (Option Value)
  | .called _ value => some value
  | _ => none

/-- The callback of a dispatch takes its reply. -/
def Deed.isCallOf (ticket : Nat) : Deed → Bool
  | .called other _ => other = ticket
  | _ => false

/-- How often the callback of a dispatch has been run. -/
def callbackRuns (ticket : Nat) (journal : Journal) : Nat :=
  journal.countP (Deed.isCallOf ticket)

theorem callbackRuns_own (ticket : Nat) (journal : Journal) :
    callbackRuns ticket (own ticket journal) = callbackRuns ticket journal := by
  rw [callbackRuns, callbackRuns, own, List.countP_filter]
  congr 1
  funext deed
  cases deed <;> simp [Deed.isCallOf, Deed.ticket?]

theorem callbackRuns_begun (taken : Taken) (count : UInt64) (replies : List Value) :
    callbackRuns taken.ticket (taken.begun count replies) = 0 := by
  refine List.countP_eq_zero.2 fun deed hdeed => ?_
  rcases List.mem_cons.1 hdeed with rfl | hdeed
  · simp [Deed.isCallOf]
  · obtain ⟨value, -, rfl⟩ := List.mem_map.1 hdeed
    simp [Deed.isCallOf]

/-- A dispatch that is over has run its callback once, if it has one. -/
theorem callbackRuns_record (taken : Taken) (count : UInt64) (replies : List Value) :
    callbackRuns taken.ticket (taken.record count replies) =
      if taken.call.callback.isSome then 1 else 0 := by
  have hbegun := callbackRuns_begun taken count replies
  rw [callbackRuns] at hbegun ⊢
  rw [Taken.record, List.countP_append, List.countP_append, List.countP_append, hbegun]
  split <;> simp [Deed.isCallOf]

/-- A step of which a callback takes the reply is observed as such, and no other. -/
theorem step_called {moment next : Moment} {deed : Option Deed} (step : Step moment deed next) :
    next.world.events.filterMap Event.called? =
      moment.world.events.filterMap Event.called? ++ deed.toList.filterMap Deed.called? := by
  have hnote : ∀ (world : World) (delegate : Delegate) (event : String → Event),
      (∀ name, (event name).called? = none) →
      (world.note delegate event).events.filterMap Event.called? =
        world.events.filterMap Event.called? := by
    intro world delegate event h
    unfold World.note
    split
    · simp [World.observe, h]
    · rfl
  cases step with
  | @change _ _ _ _ _ _ asks =>
    rw [← World.change?_events asks]
    exact (List.append_nil _).symm
  | look | drop | signal | ask | askBack | leave | leaveBack => exact (List.append_nil _).symm
  | enter => exact (hnote _ _ _ fun _ => rfl).trans (List.append_nil _).symm
  | exit => exact (hnote _ _ _ fun _ => rfl).trans (List.append_nil _).symm
  | note | hear | call => exact List.filterMap_append

theorem Runs.called {start moment : Moment} {journal : Journal} (run : Runs start journal moment) :
    moment.world.events.filterMap Event.called? =
      start.world.events.filterMap Event.called? ++ journal.filterMap Deed.called? := by
  induction run with
  | refl => exact (List.append_nil _).symm
  | step _ step ih => rw [step_called step, ih, List.filterMap_append, List.append_assoc]

/-! ## Dispatches that wait -/

/-- The open dispatches that wait for one that they enclose. -/
def Moment.waiting (moment : Moment) : List Frame :=
  match moment.focus with
  | .running => moment.frames.tail
  | _ => moment.frames

/-- Something in a dispatch has asked for another one. -/
def Stage.Asks : Stage → Prop
  | .over _ => False
  | _ => True

/-- Only a delegate or a callback asks for a dispatch. -/
theorem waiting_step {moment next : Moment} {deed : Option Deed} (step : Step moment deed next)
    (h : ∀ frame ∈ moment.waiting, frame.stage.Asks) :
    ∀ frame ∈ next.waiting, frame.stage.Asks := by
  cases step with
  | change | look | drop | enter | signal | note | exit | call | leave | leaveBack => exact h
  | ask | askBack =>
    intro frame hf
    rcases List.mem_cons.1 hf with rfl | hf
    · exact trivial
    · exact h frame hf
  | hear => exact fun frame hf => h frame (List.mem_cons_of_mem _ hf)

theorem Runs.waiting {start moment : Moment} {journal : Journal} (run : Runs start journal moment)
    (idle : start.frames = []) : ∀ frame ∈ moment.waiting, frame.stage.Asks := by
  induction run with
  | refl =>
    intro frame hf
    rw [Moment.waiting, idle] at hf
    split at hf <;> exact absurd hf List.not_mem_nil
  | step _ step ih => exact waiting_step step ih

/-! ## Panics -/

/-- How a panic leaves a dispatch that is open. -/
inductive Frame.Left (journal : Journal) : Frame → Prop
  /-- The delegate is at work. It has begun and replied, and no callback has been run. -/
  | delegate {taken delegate invocation rest handler} (count : UInt64) (replies : List Value)
      (deeds : own taken.ticket journal = taken.begun count replies)
      (callback : callbackRuns taken.ticket journal = 0) :
      Left journal ⟨taken, .delegate delegate invocation rest handler⟩
  /-- The callback is at work. It has been run once, with the first reply. -/
  | callback {taken rest} (count : UInt64) (replies : List Value)
      (deeds : own taken.ticket journal = taken.begun count replies ++
        [.exited taken.ticket, .called taken.ticket replies.head?])
      (callback : callbackRuns taken.ticket journal = 1) :
      Left journal ⟨taken, .callback rest⟩

theorem Frame.left_of_recorded {journal : Journal} {frame : Frame} (asks : frame.stage.Asks)
    (h : frame.stage.Recorded frame.taken (own frame.taken.ticket journal)) :
    frame.Left journal := by
  obtain ⟨taken, stage⟩ := frame
  obtain ⟨count, replies, h⟩ := h
  match stage with
  | .delegate .. =>
    refine .delegate count replies h.2 ?_
    rw [← callbackRuns_own, h.2]
    exact callbackRuns_begun taken count replies
  | .over _ => exact asks.elim
  | .callback _ =>
    refine .callback count replies h.2 ?_
    have hbegun := callbackRuns_begun taken count replies
    rw [← callbackRuns_own, h.2]
    rw [callbackRuns] at hbegun ⊢
    rw [List.countP_append, hbegun]
    simp [Deed.isCallOf]

/-- What a panic leaves behind of an operation that was performed in a world. -/
structure Unwound (world : World) (operation : Operation) (journal : Journal) (moment : Moment)
    (text : String) : Prop where
  /-- Whoever has asked for the operation gets the panic. -/
  reaches : ∃ bound, ∀ depth ≥ bound,
    Stops (perform depth operation) world (.panic text) moment.world
  /-- No bound on how deep dispatches may be nested leads to anything else, unless it is met before
  the panic comes up. -/
  bounded : ∀ depth, Stops (perform depth operation) world (.panic text) moment.world ∨
    ∃ after, Stops (perform depth operation) world .tooDeep after
  enclosing : ∀ frame ∈ moment.frames, frame.Left journal
  /-- A dispatch that is not open any more has gone its whole way. -/
  gone : ∀ ticket < moment.tickets, (∀ frame ∈ moment.frames, frame.taken.ticket ≠ ticket) →
    ∃ (taken : Taken) (count : UInt64) (replies : List Value), taken.ticket = ticket ∧
      own ticket journal = taken.record count replies ∧
      callbackRuns ticket journal = if taken.call.callback.isSome then 1 else 0
  /-- What callbacks take is observed, and nothing else is taken for it. -/
  observed : moment.world.events.filterMap Event.called? =
    world.events.filterMap Event.called? ++ journal.filterMap Deed.called?
  registry : moment.world.registry = replay world.registry journal
  dropped : moment.world.registry.dropped =
    world.registry.dropped + UInt64.ofNat (journal.countP Deed.isDrop)
  /-- Whatever is done later is done as in a world with that registry and those delegates in which
  nothing has panicked. -/
  later : ∀ twin : World, twin.Alike moment.world → ∀ operations,
    twin.answers operations = moment.world.answers operations ∧
    (twin.performAll operations).Alike (moment.world.performAll operations) ∧
    ∃ news, (twin.performAll operations).events = twin.events ++ news ∧
      (moment.world.performAll operations).events = moment.world.events ++ news

/-- A panic goes through all dispatches that are open, and what has been done until then stays done.
Whenever an operation stops with a panic, some delegate has panicked like that. -/
theorem panic_unwinds (world : World) (operation : Operation) (text : String) :
    (∀ journal moment, Runs ⟨world, 0, .asked operation, []⟩ journal moment →
      Halted (.panic text) moment → Unwound world operation journal moment text) ∧
    ∀ depth after, Stops (perform depth operation) world (.panic text) after →
      ∃ journal moment, Runs ⟨world, 0, .asked operation, []⟩ journal moment ∧
        Halted (.panic text) moment ∧ moment.world = after := by
  refine ⟨fun journal moment run halted => ?_, fun depth after stops => ?_⟩
  · have hledger := run.ledger ledger_start
    refine
      { reaches := run.stops halted
        bounded := run.stops_or_tooDeep halted
        enclosing := fun frame hf => ?_
        gone := fun ticket ht hclosed => ?_
        observed := run.called
        registry := run.registry
        dropped := run.dropped rfl
        later := fun twin alike operations => alike.performAll operations }
    · refine Frame.left_of_recorded ?_ (hledger.opened frame hf)
      -- The delegate that panics is at work, and the others wait.
      have hwaiting := run.waiting rfl
      cases halted with
      | panic | reply =>
        rcases List.mem_cons.1 hf with rfl | hf
        · exact trivial
        · exact hwaiting frame hf
    · obtain ⟨taken, count, replies, rfl, hown⟩ := hledger.closed ticket ht hclosed
      refine ⟨taken, count, replies, rfl, hown, ?_⟩
      rw [← callbackRuns_own, hown]
      exact callbackRuns_record taken count replies
  · obtain ⟨journal, moment, run, hworld, halted⟩ := perform_halts depth stops 0 []
    exact ⟨journal, moment, run, halted, hworld⟩

/-- A world in which a delegate gives a name a delegate, asks for one that replies and for one that
nobody is, and panics. -/
def failing : World where
  registry := ⟨[("inner", 0), ("outer", 1)], none, 0⟩
  made := [.new (some "inner") [.signal (.value .null)],
    .new (some "outer") [.perform (.define "late" (.mk "late" none)),
      .perform (.dispatch "inner" none none (some [])),
      .perform (.dispatch "nobody" none none none), .panic "lost"]]
  events := []

/-- The new name is there, the drop is counted, and only the inner dispatch has run its callback. -/
theorem failing_unwinds :
    ∃ journal moment,
      Unwound failing (.dispatch "outer" none none (some [])) journal moment "lost" ∧
      moment.world.registry = ⟨[("inner", 0), ("outer", 1), ("late", 2)], none, 1⟩ ∧
      journal.filterMap Deed.called? = [some .null] := by
  obtain ⟨hunwound, hhalted⟩ := panic_unwinds failing (.dispatch "outer" none none (some [])) "lost"
  have stops : ∃ after,
      Stops (perform 2 (.dispatch "outer" none none (some []))) failing (.panic "lost") after ∧
      after.registry = ⟨[("inner", 0), ("outer", 1), ("late", 2)], none, 1⟩ ∧
      after.events.filterMap Event.called? = [some .null] := ⟨_, rfl, rfl, rfl⟩
  obtain ⟨after, stops, hregistry, hcalled⟩ := stops
  obtain ⟨journal, moment, run, halted, rfl⟩ := hhalted 2 after stops
  have unwound := hunwound journal moment run halted
  exact ⟨journal, moment, unwound, hregistry, unwound.observed.symm.trans hcalled⟩

/-- A world in which one delegate does nothing and another one panics. -/
def brittle : World where
  registry := ⟨[("quiet", 0), ("brittle", 1)], none, 0⟩
  made := [.new (some "quiet") [], .new (some "brittle") [.panic "broken"]]
  events := []

/-- A dispatch whose callback asks for the delegate that panics encloses it, and its callback has
been run. -/
theorem not_forall_callbackRuns_eq_zero :
    ¬∀ world operation journal moment text,
      Runs ⟨world, 0, .asked operation, []⟩ journal moment → Halted (.panic text) moment →
      ∀ frame ∈ moment.frames, callbackRuns frame.taken.ticket journal = 0 := by
  intro h
  have run : Runs ⟨brittle, 0, .asked (.dispatch "quiet" none none
      (some [.dispatch "brittle" none none none])), []⟩ _ _ :=
    ((((Runs.single (.enter rfl rfl rfl)).trans (.single .exit)).trans (.single (.call rfl))).trans
      (.single .askBack)).trans (.single (.enter rfl rfl rfl))
  exact absurd (h _ _ _ _ _ run .panic _ (List.mem_cons_of_mem _ List.mem_cons_self)) (by decide)

end Machine

end Bindery
