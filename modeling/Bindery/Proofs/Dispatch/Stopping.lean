import Bindery.Proofs.Dispatch.Simulation
/-!
# Where a dispatch stops

A run can stop before its time, by a panic or because dispatches are nested too deeply.
`perform_halts`: the machine then comes to a moment from which it does not go on for the same
reason, and what was done until then stays done.
-/

namespace Bindery

namespace Run

/-- A run that starts in a world stops in another one. -/
def Stops {α : Type} (run : Run α) (world : World) (stop : Stop) (after : World) : Prop :=
  run.outcome world = (.error stop, after)

section
variable {α β : Type} {world after : World} {stop : Stop}

theorem not_stops_pure {value : α} : ¬Stops (pure value) world stop after := by
  simp [Stops, outcome_pure]

theorem stops_throw {cause : Stop} :
    Stops (throw cause : Run α) world stop after ↔ cause = stop ∧ world = after := by
  simp [Stops, outcome_throw]

theorem not_stops_get : ¬Stops get world stop after := by
  simp [Stops, outcome_get]

theorem not_stops_modifyGet {f : World → α × World} : ¬Stops (modifyGet f) world stop after := by
  simp [Stops, outcome_modifyGet]

theorem not_stops_modify {f : World → World} : ¬Stops (modify f) world stop after :=
  not_stops_modifyGet

theorem stops_bind {run : Run α} {next : α → Run β} :
    Stops (run >>= next) world stop after ↔
      Stops run world stop after ∨
        ∃ value between, Ends run world value between ∧ Stops (next value) between stop after := by
  simp only [Stops, Ends, outcome_bind]
  rcases outcome run world with ⟨_ | value, between⟩
  · simp
  · simp only [Prod.mk.injEq, reduceCtorEq, false_and, false_or, Except.ok.injEq]
    constructor
    · exact fun h => ⟨value, between, ⟨rfl, rfl⟩, h⟩
    · rintro ⟨_, _, ⟨rfl, rfl⟩, h⟩
      exact h

/-- A change of the world comes to its end. -/
theorem stops_modify_bind {f : World → World} {next : PUnit → Run β} :
    Stops (modify f >>= next) world stop after ↔ Stops (next ⟨⟩) (f world) stop after := by
  rw [stops_bind]
  constructor
  · rintro (h | ⟨_, _, hmodify, h⟩)
    · exact (not_stops_modify h).elim
    · obtain rfl := ends_modify.1 hmodify
      exact h
  · exact fun h => .inr ⟨_, _, ends_modify.2 rfl, h⟩

/-- A look at the world comes to its end. -/
theorem stops_get_bind {next : World → Run β} :
    Stops (get >>= next) world stop after ↔ Stops (next world) world stop after := by
  rw [stops_bind]
  constructor
  · rintro (h | ⟨_, _, hget, h⟩)
    · exact (not_stops_get h).elim
    · obtain ⟨rfl, rfl⟩ := ends_get.1 hget
      exact h
  · exact fun h => .inr ⟨_, _, ends_get.2 ⟨rfl, rfl⟩, h⟩

end

end Run

namespace Machine

open Run

/-! ## Moments from which the machine does not go on -/

open Focus in
/-- What keeps the machine from going on. The last one is up to the bound alone. -/
inductive Halted : Stop → Moment → Prop
  /-- The delegate panics. -/
  | panic {world tickets taken delegate invocation text rest handler frames} :
      Halted (.panic text)
        ⟨world, tickets, running,
          ⟨taken, .delegate delegate invocation (.panic text :: rest) handler⟩ :: frames⟩
  /-- The delegate panics while it works out a reply. -/
  | reply {world tickets taken delegate invocation reply text rest handler frames}
      (computes : reply.compute invocation = .error text) :
      Halted (.panic text)
        ⟨world, tickets, running,
          ⟨taken, .delegate delegate invocation (.signal reply :: rest) handler⟩ :: frames⟩
  /-- A dispatch is nested deeper than the bound allows. -/
  | tooDeep {world tickets operation call frames} (asks : operation.call? = some call) :
      Halted .tooDeep ⟨world, tickets, asked operation, frames⟩

/-- The machine comes to a moment with a world from which it does not go on. -/
def Halts (start : Moment) (stop : Stop) (after : World) : Prop :=
  ∃ journal moment, Runs start journal moment ∧ moment.world = after ∧ Halted stop moment

theorem Halted.halts {stop : Stop} {moment : Moment} (h : Halted stop moment) :
    Halts moment stop moment.world :=
  ⟨[], moment, .refl, rfl, h⟩

theorem Runs.halts {start middle : Moment} {journal : Journal} {stop : Stop} {after : World}
    (run : Runs start journal middle) (h : Halts middle stop after) : Halts start stop after := by
  obtain ⟨journal', moment, hrun, hworld, hhalted⟩ := h
  exact ⟨_, moment, run.trans hrun, hworld, hhalted⟩

/-! ## Scripts and callbacks -/

/-- Wherever an operation stops, the machine stops as well, around any open dispatches. -/
def Halting (perform : Operation → Run Answer) : Prop :=
  ∀ {operation world stop after}, Stops (perform operation) world stop after →
    ∀ tickets frames, Halts ⟨world, tickets, .asked operation, frames⟩ stop after

section
variable {perform : Operation → Run Answer} {world after : World} {stop : Stop}

theorem observed_halts (halting : Halting perform) {operation : Operation}
    (stops : Stops (performObserved perform operation) world stop after) (tickets : Nat)
    (frames : List Frame) : Halts ⟨world, tickets, .asked operation, frames⟩ stop after := by
  rcases stops_bind.1 stops with hperform | ⟨_, _, -, hobserve⟩
  · exact halting hperform tickets frames
  · exact (not_stops_modify hobserve).elim

theorem act_halts (halting : Halting perform) {invocation : Invocation} {action : Action}
    {handler : Option Handler}
    (stops : Stops (act perform invocation handler action) world stop after)
    (tickets : Nat) (taken : Taken) (delegate : Delegate) (rest : List Action)
    (frames : List Frame) :
    Halts
      ⟨world, tickets, .running,
        ⟨taken, .delegate delegate invocation (action :: rest) handler⟩ :: frames⟩
      stop after := by
  cases action with
  | signal reply =>
    simp only [act] at stops
    split at stops
    · exact (not_stops_pure stops).elim
    · next text htext =>
      obtain ⟨rfl, rfl⟩ := stops_throw.1 stops
      exact (Halted.reply htext).halts
  | noteSignaled =>
    have hpure := stops_modify_bind.1 stops
    exact (not_stops_pure hpure).elim
  | panic text =>
    obtain ⟨rfl, rfl⟩ := stops_throw.1 stops
    exact Halted.panic.halts
  | perform operation =>
    rcases stops_bind.1 stops with hperform | ⟨_, _, -, hpure⟩
    · exact (Runs.single .ask).halts (observed_halts halting hperform tickets _)
    · exact (not_stops_pure hpure).elim

theorem script_halts (simulates : Simulates perform) (halting : Halting perform)
    {invocation : Invocation} {script : List Action} {handler : Option Handler}
    (stops : Stops (script.foldlM (act perform invocation) handler) world stop after)
    (tickets : Nat) (taken : Taken) (delegate : Delegate) (frames : List Frame) :
    Halts
      ⟨world, tickets, .running, ⟨taken, .delegate delegate invocation script handler⟩ :: frames⟩
      stop after := by
  induction script generalizing world handler tickets with
  | nil => exact (not_stops_pure stops).elim
  | cons action rest ih =>
    rw [List.foldlM_cons] at stops
    rcases stops_bind.1 stops with hact | ⟨handler', middle, hact, hrest⟩
    · exact act_halts halting hact tickets taken delegate rest frames
    · obtain ⟨-, journal, tickets', hruns⟩ :=
        act_runs simulates hact tickets taken delegate rest frames
      exact hruns.halts (ih hrest tickets')

theorem callback_halts (simulates : Simulates perform) (halting : Halting perform)
    {operations : List Operation}
    (stops : Stops (operations.forM (performObserved perform)) world stop after)
    (tickets : Nat) (taken : Taken) (frames : List Frame) :
    Halts ⟨world, tickets, .running, ⟨taken, .callback operations⟩ :: frames⟩ stop after := by
  induction operations generalizing world tickets with
  | nil => exact (not_stops_pure stops).elim
  | cons operation rest ih =>
    rcases stops_bind.1 stops with hfirst | ⟨_, middle, hfirst, hrest⟩
    · exact (Runs.single .askBack).halts (observed_halts halting hfirst tickets _)
    · obtain ⟨journal, tickets', hruns⟩ :=
        observed_runs simulates hfirst tickets ⟨taken, .callback rest⟩ frames
      exact ((Runs.single .askBack).trans hruns).halts (ih hrest tickets')

/-! ## Whole operations -/

theorem invoke_halts (simulates : Simulates perform) (halting : Halting perform)
    {operation : Operation} {call : Call} {taker : DelegateId} {route : Route}
    (asks : operation.call? = some call)
    (takes : world.registry.resolve? call.method = some (taker, route))
    (stops : Stops (invoke perform taker call (handlerOf call)) world stop after)
    (tickets : Nat) (frames : List Frame) :
    Halts ⟨world, tickets, .asked operation, frames⟩ stop after := by
  have stops := stops_modify_bind.1 (stops_get_bind.1 (stops_modify_bind.1 stops))
  rcases stops_bind.1 stops with hscript | ⟨_, _, -, hexited⟩
  · exact (Runs.single (.enter asks takes rfl)).halts
      (script_halts simulates halting hscript (tickets + 1) _ _ frames)
  · have hpure := stops_modify_bind.1 hexited
    exact (not_stops_pure hpure).elim

theorem dispatch_halts (simulates : Simulates perform) (halting : Halting perform)
    {operation : Operation} {call : Call} (asks : operation.call? = some call)
    (stops : Stops (dispatch perform call) world stop after) (tickets : Nat)
    (frames : List Frame) : Halts ⟨world, tickets, .asked operation, frames⟩ stop after := by
  have stops := stops_get_bind.1 stops
  cases htaker : world.registry.resolve? call.method with
  | none =>
    rw [htaker] at stops
    have hpure := stops_modify_bind.1 stops
    exact (not_stops_pure hpure).elim
  | some found =>
    obtain ⟨taker, route⟩ := found
    rw [htaker] at stops
    rcases stops_bind.1 stops with hinvoke | ⟨handler, middle, hinvoke, hcomplete⟩
    · exact invoke_halts simulates halting asks htaker hinvoke tickets frames
    · obtain ⟨hsome, journal, tickets', hruns⟩ :=
        invoke_runs simulates asks htaker hinvoke tickets frames
      rcases hcallback : call.callback with _ | callback <;> rw [hcallback] at hsome hcomplete
      · exact (not_stops_pure hcomplete).elim
      · obtain ⟨handler, rfl⟩ := Option.isSome_iff_exists.1 hsome
        rcases stops_bind.1 hcomplete with hcomplete | ⟨_, _, -, hpure⟩
        · exact (hruns.trans (.single (.call hcallback))).halts
            (callback_halts simulates halting (stops_modify_bind.1 hcomplete) tickets' _ frames)
        · exact (not_stops_pure hpure).elim

end

/-- An operation that is no dispatch does not stop. -/
theorem serve_not_stops {depth : Nat} {operation : Operation} {world after : World} {stop : Stop}
    (serves : operation.call? = none) : ¬Stops (perform depth operation) world stop after := by
  cases depth <;> rw [perform, serves] <;> exact not_stops_modifyGet

/-- The machine stops where an operation stops, however deep its dispatches may be nested. -/
theorem perform_halts (depth : Nat) : Halting (perform depth) := by
  induction depth with
  | zero =>
    intro operation world stop after stops tickets frames
    cases hcall : operation.call? with
    | none => exact (serve_not_stops hcall stops).elim
    | some call =>
      rw [perform, hcall] at stops
      obtain ⟨rfl, rfl⟩ := stops_throw.1 stops
      exact (Halted.tooDeep hcall).halts
  | succ depth ih =>
    intro operation world stop after stops tickets frames
    cases hcall : operation.call? with
    | none => exact (serve_not_stops hcall stops).elim
    | some call =>
      rw [perform, hcall] at stops
      rcases stops_bind.1 stops with hdispatch | ⟨_, _, -, hpure⟩
      · exact dispatch_halts (perform_runs depth) ih hcall hdispatch tickets frames
      · exact (not_stops_pure hpure).elim

end Machine

end Bindery
