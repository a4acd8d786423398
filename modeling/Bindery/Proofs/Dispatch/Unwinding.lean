import Bindery.Proofs.Dispatch.Stopping
/-!
# What is left to do

At every moment of a run it is settled what is left to do: the innermost open dispatch goes on, and
then one after the other those that enclose it. `Runs.rest`: a step of the machine leaves the
outcome of what is left as it is, if dispatches may be nested deeply enough. So whatever the machine
comes to is what `Run.perform` comes to, and a panic at any depth is the outcome of the whole
(`Runs.stops_or_tooDeep`).
-/

namespace Bindery.Machine

open Run

/-! ## What is left of open dispatches -/

/-- What is left of a dispatch when its delegate is done: the callback takes the reply, and the
dispatch returns. -/
def Taken.conclude (perform : Operation → Run Answer) (taken : Taken) (handler : Option Handler) :
    Run Answer :=
  match taken.call.callback, handler with
  | some callback, some handler => do
    complete perform callback handler
    return .route taken.route
  | _, _ => return .route taken.route

/-- What is left of an open dispatch. -/
def Frame.rest (perform : Operation → Run Answer) (frame : Frame) : Run Answer :=
  match frame.stage with
  | .delegate delegate invocation rest handler => do
    let handler ← rest.foldlM (act perform invocation) handler
    modify (·.note delegate .exited)
    frame.taken.conclude perform handler
  | .over handler => frame.taken.conclude perform handler
  | .callback rest => do
    rest.forM (performObserved perform)
    return .route frame.taken.route

/-- The open dispatches go on, the innermost first, with the answer to what this one has asked for.
It may nest dispatches as deep as `level` says, and each of the others one level deeper. -/
def resume (level : Nat) : List Frame → Answer → Run Answer
  | [], answer => return answer
  | frame :: frames, answer => do
    observe (.answered answer)
    let answer ← frame.rest (perform level)
    resume (level + 1) frames answer

/-- What is left to do at a moment. -/
def Moment.rest (level : Nat) (moment : Moment) : Run Answer :=
  match moment.focus, moment.frames with
  | .asked operation, frames => do
    let answer ← perform level operation
    resume level frames answer
  | .answered answer, frames => resume level frames answer
  | .running, frame :: frames => do
    let answer ← frame.rest (perform level)
    resume (level + 1) frames answer
  | .running, [] => return .nothing

/-! ## Steps -/

section
variable {perform : Operation → Run Answer} {taken : Taken} {delegate : Delegate}
  {invocation : Invocation} {actions : List Action} {handler : Option Handler}

theorem rest_signal {reply : Reply} {value : Value}
    (computes : reply.compute invocation = .ok value) :
    Frame.rest perform ⟨taken, .delegate delegate invocation (.signal reply :: actions) handler⟩ =
      Frame.rest perform
        ⟨taken, .delegate delegate invocation actions (handler.map (·.signal value))⟩ := by
  simp only [Frame.rest, List.foldlM_cons, act, computes, pure_bind]

theorem rest_note :
    Frame.rest perform ⟨taken, .delegate delegate invocation (.noteSignaled :: actions) handler⟩ =
      observe (.signaled (handler.map (·.isSignaled))) >>= fun _ =>
        Frame.rest perform ⟨taken, .delegate delegate invocation actions handler⟩ := by
  simp only [Frame.rest, List.foldlM_cons, act, bind_assoc, pure_bind]

theorem rest_ask {operation : Operation} :
    Frame.rest perform
        ⟨taken, .delegate delegate invocation (.perform operation :: actions) handler⟩ =
      performObserved perform operation >>= fun _ =>
        Frame.rest perform ⟨taken, .delegate delegate invocation actions handler⟩ := by
  simp only [Frame.rest, List.foldlM_cons, act, bind_assoc, pure_bind]

theorem rest_askBack {operation : Operation} {operations : List Operation} :
    Frame.rest perform ⟨taken, .callback (operation :: operations)⟩ =
      performObserved perform operation >>= fun _ =>
        Frame.rest perform ⟨taken, .callback operations⟩ :=
  bind_assoc _ _ _

theorem rest_call {callback : List Operation} {handler : Handler}
    (waits : taken.call.callback = some callback) :
    Frame.rest perform ⟨taken, .over (some handler)⟩ =
      observe (.called handler.value) >>= fun _ =>
        Frame.rest perform ⟨taken, .callback callback⟩ := by
  simp only [Frame.rest, Taken.conclude, waits, complete, bind_assoc]

theorem rest_leave : Frame.rest perform ⟨taken, .over none⟩ = pure (.route taken.route) := by
  cases hcallback : taken.call.callback <;> simp only [Frame.rest, Taken.conclude, hcallback]

theorem rest_leaveBack :
    Frame.rest perform ⟨taken, .callback []⟩ = pure (.route taken.route) := rfl

end

/-- A dispatch that something takes is the work of its delegate, and what follows. -/
theorem outcome_takes {level : Nat} {operation : Operation} {taken : Taken} {world : World}
    (asks : operation.call? = some taken.call)
    (takes : world.registry.resolve? taken.call.method = some (taken.taker, taken.route)) :
    outcome (perform (level + 1) operation) world =
      outcome (invoke (perform level) taken.taker taken.call (handlerOf taken.call) >>=
        taken.conclude (perform level)) world := by
  rw [perform, asks]
  simp only [dispatch, bind_assoc]
  rw [outcome_bind, outcome_get]
  simp only [takes, bind_assoc]
  rw [outcome_bind, outcome_bind, handlerOf]
  rcases outcome (invoke (perform level) taken.taker taken.call _) world with
    ⟨_ | _ | handler, between⟩
  · rfl
  · cases hcallback : taken.call.callback <;> simp [Taken.conclude, hcallback]
  · cases hcallback : taken.call.callback <;> simp [Taken.conclude, hcallback]

/-- A delegate that takes a call works through its script and is done. -/
theorem outcome_invoke {level : Nat} {taken : Taken} {world : World} :
    let delegate := (world.invoked taken.taker).delegate taken.taker
    outcome (invoke (perform level) taken.taker taken.call (handlerOf taken.call) >>=
        taken.conclude (perform level)) world =
      outcome
        (Frame.rest (perform level) ⟨taken, .delegate delegate (invocationOf taken.call delegate)
          delegate.script (handlerOf taken.call)⟩)
        (entering (world.invoked taken.taker) taken.call delegate) := by
  simp only [invoke, bind_assoc, pure_bind]
  rfl

/-- An operation that is no dispatch comes to its end at once. -/
theorem outcome_serve {level : Nat} {operation : Operation} {world : World}
    (serves : operation.call? = none) :
    outcome (perform level operation) world =
      (.ok (world.serve operation).1, (world.serve operation).2) := by
  cases level <;> rw [perform, serves] <;> exact outcome_modifyGet _

theorem outcome_drop {level : Nat} {operation : Operation} {call : Call} {world : World}
    (asks : operation.call? = some call) (lacks : world.registry.resolve? call.method = none) :
    outcome (perform (level + 1) operation) world =
      (.ok (.route .dropped), world.apply .drop) := by
  rw [perform, asks]
  simp only [dispatch, bind_assoc]
  rw [outcome_bind, outcome_get]
  simp only [lacks]
  rfl

/-- A change is no dispatch. -/
theorem call?_of_change? {world made : World} {operation : Operation} {change : Change DelegateId}
    (asks : world.change? operation = some (made, change)) : operation.call? = none := by
  cases operation <;> first | rfl | cases asks

/-- A step leaves the outcome of what is left to do as it is. -/
theorem step_rest {moment next : Moment} {deed : Option Deed} (step : Step moment deed next)
    {depth : Nat} (deep : moment.frames.length < depth) :
    outcome (moment.rest (depth - moment.frames.length)) moment.world =
      outcome (next.rest (depth - next.frames.length)) next.world := by
  cases step with
  | change asks =>
    simp only [Moment.rest]
    rw [outcome_bind, outcome_serve (call?_of_change? asks), World.serve, asks]
  | look stays looks =>
    simp only [Moment.rest]
    rw [outcome_bind, outcome_serve looks, World.serve, stays]
  | @drop _ _ _ _ frames asks lacks =>
    have deep : frames.length < depth := deep
    obtain ⟨level, hlevel⟩ : ∃ level, depth - frames.length = level + 1 :=
      Nat.exists_eq_succ_of_ne_zero (by omega)
    simp only [Moment.rest, hlevel]
    rw [outcome_bind, outcome_drop asks lacks]
  | @enter _ _ call taker route _ tickets frames asks takes is =>
    have deep : frames.length < depth := deep
    obtain ⟨level, hlevel⟩ : ∃ level, depth - frames.length = level + 1 :=
      Nat.exists_eq_succ_of_ne_zero (by omega)
    have hinner : depth - (frames.length + 1) = level := by omega
    simp only [Moment.rest, List.length_cons, hlevel, hinner]
    have htaken := @outcome_takes level _ ⟨tickets, call, taker, route⟩ _ asks takes
    rw [outcome_bind, outcome_bind, htaken, outcome_invoke, ← is]
  | signal computes =>
    simp only [Moment.rest, List.length_cons, rest_signal computes]
  | note =>
    simp only [Moment.rest, List.length_cons, rest_note, bind_assoc]
    rfl
  | ask =>
    simp only [Moment.rest, List.length_cons, rest_ask, performObserved, bind_assoc, resume]
  | askBack =>
    simp only [Moment.rest, List.length_cons, rest_askBack, performObserved, bind_assoc, resume]
  | hear => rfl
  | exit => rfl
  | call waits =>
    simp only [Moment.rest, List.length_cons, rest_call waits, bind_assoc]
    rfl
  | @leave _ _ _ frames =>
    have hlevel : depth - (frames.length + 1) + 1 = depth - frames.length := by
      rw [List.length_cons] at deep
      omega
    simp only [Moment.rest, List.length_cons, rest_leave, pure_bind, hlevel]
  | @leaveBack _ _ _ frames =>
    have hlevel : depth - (frames.length + 1) + 1 = depth - frames.length := by
      rw [List.length_cons] at deep
      omega
    simp only [Moment.rest, List.length_cons, rest_leaveBack, pure_bind, hlevel]

/-! ## Runs -/

/-- A run leaves the outcome of what is left to do as it is, if dispatches may be nested as deep as
it nests them. -/
theorem Runs.rest {start moment : Moment} {journal : Journal} (run : Runs start journal moment) :
    ∃ bound, ∀ depth ≥ bound,
      outcome (start.rest (depth - start.frames.length)) start.world =
        outcome (moment.rest (depth - moment.frames.length)) moment.world := by
  induction run with
  | refl => exact ⟨0, fun _ _ => rfl⟩
  | @step _ _ moment next _ step ih =>
    obtain ⟨bound, h⟩ := ih
    refine ⟨max bound (moment.frames.length + 1), fun depth hdepth => ?_⟩
    rw [h depth (by omega), step_rest step (by omega)]

theorem rest_asked {world : World} {tickets level : Nat} {operation : Operation} :
    (Moment.mk world tickets (.asked operation) []).rest level = perform level operation :=
  bind_pure _

/-- From where a delegate panics, the panic goes through all that is left to do. -/
theorem Halted.stops_rest {text : String} {moment : Moment} (h : Halted (.panic text) moment)
    (level : Nat) : Stops (moment.rest level) moment.world (.panic text) moment.world := by
  cases h with
  | panic => rfl
  | reply computes =>
    simp only [Moment.rest, Frame.rest, List.foldlM_cons, act, computes]
    rfl

section
variable {world after : World} {tickets tickets' : Nat} {operation : Operation} {answer : Answer}
  {journal : Journal} {moment : Moment} {text : String}

/-- What is asked for from outside has the outcome of what is left to do at any moment of a run. -/
theorem Runs.outcome_asked
    (run : Runs ⟨world, tickets, .asked operation, []⟩ journal moment) :
    ∃ bound, ∀ depth ≥ bound, outcome (perform depth operation) world =
      outcome (moment.rest (depth - moment.frames.length)) moment.world := by
  obtain ⟨bound, hbound⟩ := run.rest
  refine ⟨bound, fun depth hdepth => ?_⟩
  have hrest := hbound depth hdepth
  rw [rest_asked] at hrest
  exact hrest

/-- What the machine comes to is what is answered if dispatches may be nested deeply enough. -/
theorem Runs.ends (run : Runs ⟨world, tickets, .asked operation, []⟩ journal
      ⟨after, tickets', .answered answer, []⟩) :
    ∃ bound, ∀ depth ≥ bound, Ends (perform depth operation) world answer after :=
  run.outcome_asked

/-! ## Panics -/

/-- What is asked for from outside comes to a panic if a delegate panics on the way. -/
theorem Runs.stops (run : Runs ⟨world, tickets, .asked operation, []⟩ journal moment)
    (halted : Halted (.panic text) moment) :
    ∃ bound, ∀ depth ≥ bound,
      Stops (perform depth operation) world (.panic text) moment.world := by
  obtain ⟨bound, hbound⟩ := run.outcome_asked
  exact ⟨bound, fun depth hdepth => (hbound depth hdepth).trans (halted.stops_rest _)⟩

/-- However deep dispatches may be nested, the outcome is the panic, unless the bound is met before
the panic comes up. -/
theorem Runs.stops_or_tooDeep (run : Runs ⟨world, tickets, .asked operation, []⟩ journal moment)
    (halted : Halted (.panic text) moment) (depth : Nat) :
    Stops (perform depth operation) world (.panic text) moment.world ∨
      ∃ after, Stops (perform depth operation) world .tooDeep after := by
  -- Whatever else a bound leads to would be the outcome above every higher bound as well.
  obtain ⟨bound, hbound⟩ := run.stops halted
  rcases houtcome : outcome (perform depth operation) world with ⟨stop | answer, after⟩
  · cases stop with
    | tooDeep => exact .inr ⟨after, houtcome⟩
    | panic other =>
      obtain ⟨_, moment', run', rfl, halted'⟩ := perform_halts depth houtcome tickets []
      obtain ⟨bound', hbound'⟩ := run'.stops halted'
      have hsame := (hbound (max bound bound') (Nat.le_max_left _ _)).symm.trans
        (hbound' (max bound bound') (Nat.le_max_right _ _))
      rw [← hsame] at houtcome
      exact .inl houtcome
  · obtain ⟨_, _, run'⟩ := perform_runs depth houtcome tickets []
    obtain ⟨bound', hbound'⟩ := run'.ends
    have hsame := (hbound (max bound bound') (Nat.le_max_left _ _)).symm.trans
      (hbound' (max bound bound') (Nat.le_max_right _ _))
    cases (Prod.mk.inj hsame).1

end

end Bindery.Machine
