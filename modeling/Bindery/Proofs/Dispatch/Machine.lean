import Bindery.Dispatch
/-!
# Dispatch as a machine

`Run.perform` calls itself for every dispatch that a delegate or a callback asks for. Here the same
work is done by a machine that keeps the open dispatches on a stack and goes one small step at a
time. Every step looks at the live registry and at the innermost open dispatch only.

A step that matters leaves a deed, and the deeds of a run in their order are its journal. Each
dispatch that something takes has a ticket of its own, so that `own` picks its deeds out of those of
all the dispatches that are nested in it or enclose it.
-/

namespace Bindery.Machine

/-! ## States -/

/-- A dispatch that something has taken. Tickets are numbered in the order of entering. -/
structure Taken where
  ticket : Nat
  call : Call
  taker : DelegateId
  route : Route

/-- How far an open dispatch has come. -/
inductive Stage where
  /-- The delegate runs, with the rest of its script. -/
  | delegate (delegate : Delegate) (invocation : Invocation) (rest : List Action)
      (handler : Option Handler)
  /-- The delegate is done. -/
  | over (handler : Option Handler)
  /-- The callback has taken the reply, with the rest of its operations. -/
  | callback (rest : List Operation)

/-- An open dispatch. -/
structure Frame where
  taken : Taken
  stage : Stage

/-- What the next step is about. -/
inductive Focus where
  /-- An operation is asked for. -/
  | asked (operation : Operation)
  /-- An operation is done. -/
  | answered (answer : Answer)
  /-- The innermost open dispatch goes on. -/
  | running

/-- The machine between two steps. -/
structure Moment where
  world : World
  /-- How many dispatches have been taken. -/
  tickets : Nat
  focus : Focus
  /-- The open dispatches, the innermost first. -/
  frames : List Frame

/-! ## Steps -/

/-- What a step leaves in the journal. -/
inductive Deed where
  /-- The registry is changed. -/
  | changed (change : Change DelegateId)
  /-- Nothing takes a dispatch. -/
  | dropped (call : Call)
  /-- A delegate takes a dispatch and begins. -/
  | entered (taken : Taken) (invocation : Invocation) (handler : Option Handler)
  /-- The delegate replies. -/
  | signaled (ticket : Nat) (value : Value)
  /-- The delegate is done. -/
  | exited (ticket : Nat)
  /-- The callback takes the reply, if there has been one. -/
  | called (ticket : Nat) (value : Option Value)
  /-- The dispatch is over. -/
  | returned (ticket : Nat) (route : Route)

/-- The dispatch that a deed belongs to. -/
def Deed.ticket? : Deed → Option Nat
  | changed _ | dropped _ => none
  | entered taken _ _ => some taken.ticket
  | signaled ticket _ | exited ticket | called ticket _ | returned ticket _ => some ticket

/-- What a deed does to the registry, if anything. -/
def Deed.change? : Deed → Option (Change DelegateId)
  | changed change => some change
  | dropped _ => some .drop
  | _ => none

/-- What a delegate is handed with a call. -/
def invocationOf (call : Call) (delegate : Delegate) : Invocation :=
  ⟨call.method, call.arguments, call.context, delegate.count⟩

/-- The handler for a call; there is one if a callback waits for the reply. -/
def handlerOf (call : Call) : Option Handler :=
  call.callback.map fun _ => Handler.new

/-- The world in which a delegate that takes a call begins. -/
def entering (world : World) (call : Call) (delegate : Delegate) : World :=
  world.note delegate fun name =>
    .entered name call.method (handlerOf call).isSome call.arguments call.context

open Deed Focus in
/-- The steps of the machine, each with the deed that it leaves. -/
inductive Step : Moment → Option Deed → Moment → Prop
  /-- An operation that changes the registry is performed. -/
  | change {world made : World} {change : Change DelegateId} {operation tickets frames}
      (asks : world.change? operation = some (made, change)) :
      Step ⟨world, tickets, asked operation, frames⟩ (changed change)
        ⟨made.apply change, tickets,
          answered (made.naming (made.registry.displaced? change)), frames⟩
  /-- An operation that only looks is performed. -/
  | look {world : World} {operation tickets frames}
      (stays : world.change? operation = none) (looks : operation.call? = none) :
      Step ⟨world, tickets, asked operation, frames⟩ none
        ⟨world, tickets, answered (world.look operation), frames⟩
  /-- A dispatch is dropped. -/
  | drop {world : World} {operation call tickets frames} (asks : operation.call? = some call)
      (lacks : world.registry.resolve? call.method = none) :
      Step ⟨world, tickets, asked operation, frames⟩ (dropped call)
        ⟨world.apply .drop, tickets, answered (.route .dropped), frames⟩
  /-- A dispatch is taken. What takes it is settled now, from the live registry. -/
  | enter {world : World} {operation call taker route delegate tickets frames}
      (asks : operation.call? = some call)
      (takes : world.registry.resolve? call.method = some (taker, route))
      (is : (world.invoked taker).delegate taker = delegate) :
      Step ⟨world, tickets, asked operation, frames⟩
        (entered ⟨tickets, call, taker, route⟩ (invocationOf call delegate) (handlerOf call))
        ⟨entering (world.invoked taker) call delegate, tickets + 1, running,
          ⟨⟨tickets, call, taker, route⟩,
            .delegate delegate (invocationOf call delegate) delegate.script (handlerOf call)⟩ ::
          frames⟩
  /-- A delegate replies. -/
  | signal {world tickets taken delegate invocation reply value rest handler frames}
      (computes : reply.compute invocation = .ok value) :
      Step
        ⟨world, tickets, running,
          ⟨taken, .delegate delegate invocation (.signal reply :: rest) handler⟩ :: frames⟩
        (signaled taken.ticket value)
        ⟨world, tickets, running,
          ⟨taken, .delegate delegate invocation rest (handler.map (·.signal value))⟩ :: frames⟩
  /-- A delegate notes whether there has been a reply. -/
  | note {world : World} {tickets taken delegate invocation rest handler frames} :
      Step
        ⟨world, tickets, running,
          ⟨taken, .delegate delegate invocation (.noteSignaled :: rest) handler⟩ :: frames⟩
        none
        ⟨world.observe (.signaled (handler.map (·.isSignaled))), tickets, running,
          ⟨taken, .delegate delegate invocation rest handler⟩ :: frames⟩
  /-- A delegate asks for an operation. -/
  | ask {world tickets taken delegate invocation operation rest handler frames} :
      Step
        ⟨world, tickets, running,
          ⟨taken, .delegate delegate invocation (.perform operation :: rest) handler⟩ :: frames⟩
        none
        ⟨world, tickets, asked operation,
          ⟨taken, .delegate delegate invocation rest handler⟩ :: frames⟩
  /-- A callback asks for an operation. -/
  | askBack {world tickets taken operation rest frames} :
      Step ⟨world, tickets, running, ⟨taken, .callback (operation :: rest)⟩ :: frames⟩ none
        ⟨world, tickets, asked operation, ⟨taken, .callback rest⟩ :: frames⟩
  /-- What has asked for an operation observes the answer. -/
  | hear {world : World} {tickets answer frame frames} :
      Step ⟨world, tickets, answered answer, frame :: frames⟩ none
        ⟨world.observe (.answered answer), tickets, running, frame :: frames⟩
  /-- A delegate comes to its end. -/
  | exit {world : World} {tickets taken delegate invocation handler frames} :
      Step
        ⟨world, tickets, running, ⟨taken, .delegate delegate invocation [] handler⟩ :: frames⟩
        (exited taken.ticket)
        ⟨world.note delegate .exited, tickets, running, ⟨taken, .over handler⟩ :: frames⟩
  /-- The callback takes the reply. -/
  | call {world : World} {tickets taken callback handler frames}
      (waits : taken.call.callback = some callback) :
      Step ⟨world, tickets, running, ⟨taken, .over (some handler)⟩ :: frames⟩
        (called taken.ticket handler.value)
        ⟨world.observe (.called handler.value), tickets, running,
          ⟨taken, .callback callback⟩ :: frames⟩
  /-- A dispatch without a callback is over. -/
  | leave {world tickets taken frames} :
      Step ⟨world, tickets, running, ⟨taken, .over none⟩ :: frames⟩
        (returned taken.ticket taken.route)
        ⟨world, tickets, answered (.route taken.route), frames⟩
  /-- A dispatch with a callback is over. -/
  | leaveBack {world tickets taken frames} :
      Step ⟨world, tickets, running, ⟨taken, .callback []⟩ :: frames⟩
        (returned taken.ticket taken.route)
        ⟨world, tickets, answered (.route taken.route), frames⟩

/-! ## Runs -/

/-- What the steps of a run leave, the earliest first. -/
abbrev Journal := List Deed

/-- The runs of the machine, each with its journal. -/
inductive Runs (start : Moment) : Journal → Moment → Prop
  | refl : Runs start [] start
  | step {journal deed moment next} (run : Runs start journal moment)
      (step : Step moment deed next) : Runs start (journal ++ deed.toList) next

/-- The operation that asks for a call. -/
def operationOf (call : Call) : Operation :=
  .dispatch call.method call.arguments call.context call.callback

/-- A call is asked for from outside, and nothing is open. -/
abbrev asking (world : World) (call : Call) : Moment :=
  ⟨world, 0, .asked (operationOf call), []⟩

/-- The deeds of one dispatch. -/
def own (ticket : Nat) (journal : Journal) : Journal :=
  journal.filter (·.ticket? = some ticket)

/-- What the changes in a journal make of a registry, one after the other. -/
def replay (registry : Registry DelegateId) (journal : Journal) : Registry DelegateId :=
  (journal.filterMap Deed.change?).foldl Registry.apply registry

/-- The deeds of a dispatch whose delegate runs: the delegate begins with what the call hands it,
and replies. -/
def Taken.begun (taken : Taken) (count : UInt64) (replies : List Value) : Journal :=
  .entered taken ⟨taken.call.method, taken.call.arguments, taken.call.context, count⟩
    (taken.call.callback.map fun _ => Handler.new) :: replies.map (.signaled taken.ticket)

/-- The deeds of a dispatch that is over, in the order in which they have to come. Once the delegate
is done, the callback takes the first reply, if there is a callback, and the dispatch returns by the
route that was settled at its beginning. -/
def Taken.record (taken : Taken) (count : UInt64) (replies : List Value) : Journal :=
  taken.begun count replies ++ [.exited taken.ticket] ++
    (if taken.call.callback.isSome then [.called taken.ticket replies.head?] else []) ++
    [.returned taken.ticket taken.route]

theorem own_append (ticket : Nat) (first second : Journal) :
    own ticket (first ++ second) = own ticket first ++ own ticket second :=
  List.filter_append first second

theorem replay_append (registry : Registry DelegateId) (first second : Journal) :
    replay registry (first ++ second) = replay (replay registry first) second := by
  simp only [replay, List.filterMap_append, List.foldl_append]

theorem Runs.single {moment next : Moment} {deed : Option Deed} (step : Step moment deed next) :
    Runs moment deed.toList next :=
  .step .refl step

theorem Runs.trans {start middle finish : Moment} {first second : Journal}
    (before : Runs start first middle) (after : Runs middle second finish) :
    Runs start (first ++ second) finish := by
  induction after with
  | refl => simpa using before
  | step _ hstep ih =>
    rw [← List.append_assoc]
    exact .step ih hstep

/-- A run comes past every deed in its journal. -/
theorem Runs.split {start finish : Moment} {journal first second : Journal} {deed : Deed}
    (run : Runs start journal finish) (h : journal = first ++ deed :: second) :
    ∃ moment next, Runs start first moment ∧ Step moment (some deed) next ∧
      Runs next second finish := by
  induction run generalizing second with
  | refl => simp at h
  | @step journal last middle finish run step ih =>
    cases last with
    | none =>
      rw [Option.toList_none, List.append_nil] at h
      obtain ⟨moment, next, hfirst, hstep, hsecond⟩ := ih h
      exact ⟨moment, next, hfirst, hstep, by simpa using hsecond.step step⟩
    | some last =>
      rcases List.eq_nil_or_concat second with rfl | ⟨second, other, rfl⟩
      · obtain ⟨rfl, hlast⟩ := List.append_inj' h rfl
        obtain rfl := List.head_eq_of_cons_eq hlast
        exact ⟨middle, finish, run, step, .refl⟩
      · rw [List.concat_eq_append] at h ⊢
        rw [← List.cons_append, ← List.append_assoc] at h
        obtain ⟨hbefore, hlast⟩ := List.append_inj' h rfl
        obtain rfl := List.head_eq_of_cons_eq hlast
        obtain ⟨moment, next, hfirst, hstep, hsecond⟩ := ih hbefore
        exact ⟨moment, next, hfirst, hstep, hsecond.step step⟩

end Bindery.Machine
