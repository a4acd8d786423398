import Bindery.Proofs.Dispatch.Machine
/-!
# The machine does what dispatch does

`perform_runs`: whenever `Run.perform` comes to its end, the machine that is asked for the same
operation comes to the same world with the same answer, whatever dispatches are open around it, and
leaves these as they are. How deep dispatches may be nested plays no part in the machine.
-/

namespace Bindery

namespace Run

/-! ## How a run ends -/

/-- What a run makes of a world. -/
def outcome {α : Type} (run : Run α) (world : World) : Except Stop α × World :=
  run.run.run world

/-- A run that starts in a world comes to its end in another one with a value. -/
def Ends {α : Type} (run : Run α) (world : World) (value : α) (after : World) : Prop :=
  run.outcome world = (.ok value, after)

section
variable {α β : Type} {world after : World}

theorem outcome_pure (value : α) : outcome (pure value) world = (.ok value, world) := rfl

theorem outcome_throw (stop : Stop) :
    outcome (throw stop : Run α) world = (.error stop, world) := rfl

theorem outcome_modifyGet (f : World → α × World) :
    outcome (modifyGet f) world = (.ok (f world).1, (f world).2) := rfl

theorem outcome_get : outcome get world = (.ok world, world) := rfl

theorem outcome_bind (run : Run α) (next : α → Run β) :
    outcome (run >>= next) world =
      match outcome run world with
      | (.ok value, between) => outcome (next value) between
      | (.error stop, between) => (.error stop, between) := by
  simp only [outcome, ExceptT.run, StateT.run, bind, ExceptT.bind, ExceptT.mk, StateT.bind]
  rcases run world with ⟨_ | value, between⟩ <;> rfl

theorem ends_pure {value result : α} :
    Ends (pure value) world result after ↔ value = result ∧ world = after := by
  simp [Ends, outcome_pure]

theorem not_ends_throw {stop : Stop} {result : α} : ¬Ends (throw stop) world result after := by
  simp [Ends, outcome_throw]

theorem ends_get {result : World} :
    Ends get world result after ↔ world = result ∧ world = after := by
  simp [Ends, outcome_get]

theorem ends_modifyGet {f : World → α × World} {result : α} :
    Ends (modifyGet f) world result after ↔ f world = (result, after) := by
  simp [Ends, outcome_modifyGet, Prod.ext_iff]

theorem ends_modify {f : World → World} {result : PUnit} :
    Ends (modify f) world result after ↔ f world = after :=
  ends_modifyGet.trans (by simp)

theorem ends_bind {run : Run α} {next : α → Run β} {result : β} :
    Ends (run >>= next) world result after ↔
      ∃ value between, Ends run world value between ∧ Ends (next value) between result after := by
  simp only [Ends, outcome_bind]
  rcases outcome run world with ⟨_ | value, between⟩
  · simp
  · simp only [Prod.mk.injEq, Except.ok.injEq]
    constructor
    · exact fun h => ⟨value, between, ⟨rfl, rfl⟩, h⟩
    · rintro ⟨_, _, ⟨rfl, rfl⟩, h⟩
      exact h

end

end Run

namespace Machine

open Run

/-! ## Scripts and callbacks, step by step -/

/-- Whatever an operation comes to, the machine comes to as well, around any open dispatches. -/
def Simulates (perform : Operation → Run Answer) : Prop :=
  ∀ {operation world answer after}, Ends (perform operation) world answer after →
    ∀ tickets frames, ∃ journal tickets',
      Runs ⟨world, tickets, .asked operation, frames⟩ journal
        ⟨after, tickets', .answered answer, frames⟩

section
variable {perform : Operation → Run Answer} {world after : World}

/-- An operation of a script or a callback is performed, and its answer is observed. -/
theorem observed_runs (simulates : Simulates perform) {operation : Operation}
    (ends : Ends (performObserved perform operation) world () after) (tickets : Nat) (frame : Frame)
    (frames : List Frame) :
    ∃ journal tickets', Runs ⟨world, tickets, .asked operation, frame :: frames⟩ journal
      ⟨after, tickets', .running, frame :: frames⟩ := by
  obtain ⟨answer, between, hperform, hobserve⟩ := ends_bind.1 ends
  obtain rfl := ends_modify.1 hobserve
  obtain ⟨journal, tickets', hruns⟩ := simulates hperform tickets (frame :: frames)
  exact ⟨_, _, hruns.trans (.single .hear)⟩

/-- A piece of a script is done. A handler stays, and none comes up. -/
theorem act_runs (simulates : Simulates perform) {invocation : Invocation} {action : Action}
    {handler handler' : Option Handler}
    (ends : Ends (act perform invocation handler action) world handler' after)
    (tickets : Nat) (taken : Taken) (delegate : Delegate) (rest : List Action)
    (frames : List Frame) :
    handler'.isSome = handler.isSome ∧ ∃ journal tickets',
      Runs
        ⟨world, tickets, .running,
          ⟨taken, .delegate delegate invocation (action :: rest) handler⟩ :: frames⟩
        journal
        ⟨after, tickets', .running,
          ⟨taken, .delegate delegate invocation rest handler'⟩ :: frames⟩ := by
  cases action with
  | signal reply =>
    simp only [act] at ends
    split at ends
    · next value hvalue =>
      obtain ⟨rfl, rfl⟩ := ends_pure.1 ends
      exact ⟨by simp, _, _, .single (.signal hvalue)⟩
    · exact (not_ends_throw ends).elim
  | noteSignaled =>
    obtain ⟨_, between, hobserve, hpure⟩ := ends_bind.1 ends
    obtain rfl := ends_modify.1 hobserve
    obtain ⟨rfl, rfl⟩ := ends_pure.1 hpure
    exact ⟨rfl, _, _, .single .note⟩
  | panic text => exact (not_ends_throw ends).elim
  | perform operation =>
    obtain ⟨_, between, hperform, hpure⟩ := ends_bind.1 ends
    obtain ⟨rfl, rfl⟩ := ends_pure.1 hpure
    obtain ⟨journal, tickets', hruns⟩ := observed_runs simulates hperform tickets
      ⟨taken, .delegate delegate invocation rest handler⟩ frames
    exact ⟨rfl, _, _, (Runs.single .ask).trans hruns⟩

/-- A script is done from its beginning to its end. -/
theorem script_runs (simulates : Simulates perform) {invocation : Invocation}
    {script : List Action} {handler handler' : Option Handler}
    (ends : Ends (script.foldlM (act perform invocation) handler) world handler' after)
    (tickets : Nat) (taken : Taken) (delegate : Delegate) (frames : List Frame) :
    handler'.isSome = handler.isSome ∧ ∃ journal tickets',
      Runs
        ⟨world, tickets, .running,
          ⟨taken, .delegate delegate invocation script handler⟩ :: frames⟩
        journal
        ⟨after, tickets', .running,
          ⟨taken, .delegate delegate invocation [] handler'⟩ :: frames⟩ := by
  induction script generalizing world handler tickets with
  | nil =>
    rw [List.foldlM_nil] at ends
    obtain ⟨rfl, rfl⟩ := ends_pure.1 ends
    exact ⟨rfl, _, _, .refl⟩
  | cons action rest ih =>
    rw [List.foldlM_cons] at ends
    obtain ⟨between, middle, hact, hrest⟩ := ends_bind.1 ends
    obtain ⟨hsome, journal, tickets', hruns⟩ :=
      act_runs simulates hact tickets taken delegate rest frames
    obtain ⟨hsome', journal', tickets'', hruns'⟩ := ih hrest tickets'
    exact ⟨hsome'.trans hsome, _, _, hruns.trans hruns'⟩

/-- The operations of a callback are performed from the first to the last. -/
theorem callback_runs (simulates : Simulates perform) {operations : List Operation}
    (ends : Ends (operations.forM (performObserved perform)) world () after)
    (tickets : Nat) (taken : Taken) (frames : List Frame) :
    ∃ journal tickets',
      Runs ⟨world, tickets, .running, ⟨taken, .callback operations⟩ :: frames⟩ journal
        ⟨after, tickets', .running, ⟨taken, .callback []⟩ :: frames⟩ := by
  induction operations generalizing world tickets with
  | nil =>
    obtain ⟨-, rfl⟩ := ends_pure.1 ends
    exact ⟨_, _, .refl⟩
  | cons operation rest ih =>
    obtain ⟨_, middle, hfirst, hrest⟩ := ends_bind.1 ends
    obtain ⟨journal, tickets', hruns⟩ :=
      observed_runs simulates hfirst tickets ⟨taken, .callback rest⟩ frames
    obtain ⟨journal', tickets'', hruns'⟩ := ih hrest tickets'
    exact ⟨_, _, ((Runs.single .askBack).trans hruns).trans hruns'⟩

/-! ## Whole operations -/

/-- An operation that is no dispatch takes one step. -/
theorem serve_runs {depth : Nat} {operation : Operation} {answer : Answer}
    (serves : operation.call? = none) (ends : Ends (Run.perform depth operation) world answer after)
    (tickets : Nat) (frames : List Frame) :
    ∃ journal tickets', Runs ⟨world, tickets, .asked operation, frames⟩ journal
      ⟨after, tickets', .answered answer, frames⟩ := by
  have hserve : world.serve operation = (answer, after) := by
    cases depth <;> rw [perform, serves] at ends <;> exact ends_modifyGet.1 ends
  rw [World.serve] at hserve
  split at hserve
  · next made change hchange =>
    obtain ⟨rfl, rfl⟩ := Prod.mk.inj hserve
    exact ⟨_, _, .single (.change hchange)⟩
  · next hstays =>
    obtain ⟨rfl, rfl⟩ := Prod.mk.inj hserve
    exact ⟨_, _, .single (.look hstays serves)⟩

/-- The delegate that takes a call works through its script and is done. -/
theorem invoke_runs (simulates : Simulates perform) {operation : Operation} {call : Call}
    {taker : DelegateId} {route : Route} {handler : Option Handler}
    (asks : operation.call? = some call)
    (takes : world.registry.resolve? call.method = some (taker, route))
    (ends : Ends (invoke perform taker call (handlerOf call)) world handler after)
    (tickets : Nat) (frames : List Frame) :
    handler.isSome = call.callback.isSome ∧ ∃ journal tickets',
      Runs ⟨world, tickets, .asked operation, frames⟩ journal
        ⟨after, tickets', .running, ⟨⟨tickets, call, taker, route⟩, .over handler⟩ :: frames⟩ := by
  obtain ⟨_, _, hinvoked, ends⟩ := ends_bind.1 ends
  obtain rfl := ends_modify.1 hinvoked
  obtain ⟨_, _, hget, ends⟩ := ends_bind.1 ends
  obtain ⟨rfl, rfl⟩ := ends_get.1 hget
  obtain ⟨_, _, hentered, ends⟩ := ends_bind.1 ends
  obtain rfl := ends_modify.1 hentered
  obtain ⟨handler', middle, hscript, ends⟩ := ends_bind.1 ends
  obtain ⟨_, _, hexited, ends⟩ := ends_bind.1 ends
  obtain rfl := ends_modify.1 hexited
  obtain ⟨rfl, rfl⟩ := ends_pure.1 ends
  obtain ⟨hsome, journal, tickets', hruns⟩ := script_runs simulates hscript (tickets + 1)
    ⟨tickets, call, taker, route⟩ ((world.invoked taker).delegate taker) frames
  exact ⟨by simpa [handlerOf] using hsome, _, _,
    ((Runs.single (.enter asks takes rfl)).trans hruns).trans (.single .exit)⟩

theorem dispatch_runs (simulates : Simulates perform) {operation : Operation} {call : Call}
    {route : Route} (asks : operation.call? = some call)
    (ends : Ends (dispatch perform call) world route after) (tickets : Nat) (frames : List Frame) :
    ∃ journal tickets', Runs ⟨world, tickets, .asked operation, frames⟩ journal
      ⟨after, tickets', .answered (.route route), frames⟩ := by
  obtain ⟨_, _, hget, ends⟩ := ends_bind.1 ends
  obtain ⟨rfl, rfl⟩ := ends_get.1 hget
  cases htaker : world.registry.resolve? call.method with
  | none =>
    rw [htaker] at ends
    obtain ⟨_, _, hdrop, ends⟩ := ends_bind.1 ends
    obtain rfl := ends_modify.1 hdrop
    obtain ⟨rfl, rfl⟩ := ends_pure.1 ends
    exact ⟨_, _, .single (.drop asks htaker)⟩
  | some found =>
    obtain ⟨taker, found⟩ := found
    rw [htaker] at ends
    obtain ⟨handler, middle, hinvoke, ends⟩ := ends_bind.1 ends
    obtain ⟨hsome, journal, tickets', hruns⟩ :=
      invoke_runs simulates asks htaker hinvoke tickets frames
    rcases hcallback : call.callback with _ | callback <;> rw [hcallback] at hsome ends
    · obtain rfl : handler = none := by simpa using hsome
      obtain ⟨rfl, rfl⟩ := ends_pure.1 ends
      exact ⟨_, _, hruns.trans (.single .leave)⟩
    · obtain ⟨handler, rfl⟩ := Option.isSome_iff_exists.1 hsome
      obtain ⟨_, _, hcomplete, ends⟩ := ends_bind.1 ends
      obtain ⟨rfl, rfl⟩ := ends_pure.1 ends
      obtain ⟨_, _, hcalled, hcomplete⟩ := ends_bind.1 hcomplete
      obtain rfl := ends_modify.1 hcalled
      obtain ⟨journal', tickets'', hruns'⟩ := callback_runs simulates hcomplete tickets'
        ⟨tickets, call, taker, found⟩ frames
      exact ⟨_, _, ((hruns.trans (.single (.call hcallback))).trans hruns').trans
        (.single .leaveBack)⟩

end

/-- The machine comes to whatever an operation comes to, however deep its dispatches are nested. -/
theorem perform_runs (depth : Nat) : Simulates (perform depth) := by
  -- What a script or a callback asks for is performed with one level less.
  induction depth with
  | zero =>
    intro operation world answer after ends tickets frames
    cases hcall : operation.call? with
    | none => exact serve_runs hcall ends tickets frames
    | some call =>
      rw [perform, hcall] at ends
      exact (not_ends_throw ends).elim
  | succ depth ih =>
    intro operation world answer after ends tickets frames
    cases hcall : operation.call? with
    | none => exact serve_runs hcall ends tickets frames
    | some call =>
      rw [perform, hcall] at ends
      obtain ⟨route, middle, hdispatch, hpure⟩ := ends_bind.1 ends
      obtain ⟨rfl, rfl⟩ := ends_pure.1 hpure
      exact dispatch_runs ih hcall hdispatch tickets frames

end Machine

end Bindery
