import Bindery.Proofs.Dispatch.Ledger
import Bindery.Proofs.Dispatch.Simulation
import Mathlib.Data.List.Induction
/-!
# The protocol of a dispatch

`dispatch_protocol`: a dispatch that nothing takes is counted and does nothing else. Any other one
is taken once, by the delegate of its name or else by the interceptor, which is handed what the call
says; when the delegate is done, the callback takes the first reply, and the dispatch returns by its
route. The delegate may do anything on the way, and all dispatches nested in it follow the same
protocol, each with its own handler and callback.
-/

namespace Bindery

namespace Call

/-! ## Calls that are built -/

/-- A part of a call beside the method. -/
inductive Part where
  | context (context : Context)
  | arguments (arguments : Value)
  | callback (callback : List Operation)

/-- The context that a part is. -/
def Part.context? : Part → Option Context
  | .context given => some given
  | _ => none

/-- The arguments that a part is. -/
def Part.arguments? : Part → Option Value
  | .arguments given => some given
  | _ => none

/-- The callback that a part is. -/
def Part.callback? : Part → Option (List Operation)
  | .callback given => some given
  | _ => none

/-- Gives a call one more part. -/
def add (call : Call) : Part → Call
  | .context context => call.withContext context
  | .arguments arguments => call.withArguments arguments
  | .callback callback => call.withCallback callback

/-- A call that is built part by part. -/
def build (method : String) (parts : List Part) : Call :=
  parts.foldl add (Call.new method)

/-- The parts are those of a call: of each kind, the part that is given last counts. -/
structure Amount (parts : List Part) (call : Call) : Prop where
  context : (parts.filterMap Part.context?).getLast? = call.context
  arguments : (parts.filterMap Part.arguments?).getLast? = call.arguments
  callback : (parts.filterMap Part.callback?).getLast? = call.callback

theorem build_eq (method : String) (parts : List Part) :
    build method parts =
      ⟨method, (parts.filterMap Part.arguments?).getLast?,
        (parts.filterMap Part.context?).getLast?, (parts.filterMap Part.callback?).getLast?⟩ := by
  -- Parts are given at the end, so the induction takes the last one off.
  induction parts using List.reverseRecOn with
  | nil => rfl
  | append_singleton parts part ih =>
    rw [build] at ih ⊢
    rw [List.foldl_append, ih]
    cases part <;> simp [add, withContext, withArguments, withCallback, Part.context?,
      Part.arguments?, Part.callback?]

theorem build_of_amount {parts : List Part} {call : Call} (h : Amount parts call) :
    build call.method parts = call := by
  rw [build_eq, h.arguments, h.context, h.callback]

end Call

namespace Machine

open Run

/-! ## What takes a dispatch -/

/-- What takes a dispatch to a name: the delegate of the name, or else the interceptor. -/
inductive Takes (registry : Registry DelegateId) (name : String) : DelegateId → Route → Prop
  | delegate {taker} (h : registry.get? name = some taker) : Takes registry name taker .delegated
  | interceptor {taker} (unknown : registry.get? name = none)
      (h : registry.interceptor = some taker) : Takes registry name taker .intercepted

theorem resolve?_eq_some_iff {registry : Registry DelegateId} {name : String} {taker : DelegateId}
    {route : Route} :
    registry.resolve? name = some (taker, route) ↔ Takes registry name taker route := by
  rw [Registry.resolve?]
  constructor
  · intro h
    split at h
    · next hget =>
      obtain ⟨rfl, rfl⟩ := Prod.mk.inj (Option.some.inj h)
      exact .delegate hget
    · next hget =>
      obtain ⟨interceptor, hinterceptor, h⟩ := Option.map_eq_some_iff.1 h
      obtain ⟨rfl, rfl⟩ := Prod.mk.inj h
      exact .interceptor hget hinterceptor
  · rintro (h | ⟨unknown, h⟩)
    · rw [h]
    · rw [unknown, h]
      rfl

theorem Takes.unique {registry : Registry DelegateId} {name : String} {taker other : DelegateId}
    {route route' : Route} (h : Takes registry name taker route)
    (h' : Takes registry name other route') : taker = other ∧ route = route' := by
  have hsame := (resolve?_eq_some_iff.2 h).symm.trans (resolve?_eq_some_iff.2 h')
  exact Prod.mk.inj (Option.some.inj hsame)

/-! ## What a dispatch comes to once its delegate is done -/

/-- What is left to do when the delegate is done: the callback, if there is one, takes the first
reply. -/
def finish (perform : Operation → Run Answer) (call : Call) (replies : List Value)
    (world : World) : Except Stop Unit × World :=
  match call.callback with
  | some callback =>
    outcome (callback.forM (performObserved perform)) (world.observe (.called replies.head?))
  | none => (.ok (), world)

theorem outcome_dispatch {perform : Operation → Run Answer} {call : Call}
    {world between : World} {taker : DelegateId} {route : Route} {replies : List Value}
    (takes : Takes world.registry call.method taker route)
    (returns : Ends (invoke perform taker call (handlerOf call)) world
      (handlerAfter call replies) between) :
    outcome (dispatch perform call) world =
      ((finish perform call replies between).1.map fun _ => route,
        (finish perform call replies between).2) := by
  have hinvoke : outcome (invoke perform taker call (call.callback.map fun _ => Handler.new))
      world = (.ok (handlerAfter call replies), between) := returns
  rw [dispatch, outcome_bind, outcome_get]
  simp only [resolve?_eq_some_iff.2 takes]
  rw [outcome_bind, hinvoke]
  rcases hcallback : call.callback with _ | callback
  · simp [finish, hcallback, outcome_pure, Except.map]
  · simp only [finish, handlerAfter, hcallback, Option.map_some, outcome_bind, complete,
      Run.observe, modify, outcome_modifyGet]
    rcases outcome (callback.forM (performObserved perform))
      (between.observe (.called replies.head?)) with ⟨_ | _, _⟩ <;> rfl

/-! ## The record of a dispatch that has been taken -/

/-- What a dispatch leaves when its delegate is done tells what the replies have been. -/
theorem replies_unique {ticket : Nat} {replies replies' : List Value} {rest rest' : Journal}
    (h : replies.map (.signaled ticket) ++ .exited ticket :: rest =
      replies'.map (.signaled ticket) ++ .exited ticket :: rest') : replies = replies' := by
  induction replies generalizing replies' with
  | nil =>
    cases replies' with
    | nil => rfl
    | cons => simp at h
  | cons reply replies ih =>
    cases replies' with
    | nil => simp at h
    | cons reply' replies' =>
      simp only [List.map_cons, List.cons_append, List.cons.injEq, Deed.signaled.injEq] at h
      rw [h.1.2, ih h.2]

theorem begun_unique {taken : Taken} {count count' : UInt64} {replies replies' : List Value}
    {rest rest' : Journal}
    (h : taken.begun count replies ++ .exited taken.ticket :: rest =
      taken.begun count' replies' ++ .exited taken.ticket :: rest') :
    count = count' ∧ replies = replies' := by
  simp only [Taken.begun, List.cons_append, List.cons.injEq, Deed.entered.injEq,
    Invocation.mk.injEq, true_and, and_true] at h
  exact ⟨h.1, replies_unique h.2⟩

/-- The way of a dispatch from its beginning until its delegate is done: the delegate begins with
what the call says and with a handler if there is a callback, replies, and is done. -/
def Worked (world : World) (call : Call) (taker : DelegateId) (route : Route)
    (replies : List Value) (between : World) : Prop :=
  ∃ journal tickets count,
    Runs (asking world call) journal
      ⟨between, tickets, .running,
        [⟨⟨0, call, taker, route⟩, .over (handlerAfter call replies)⟩]⟩ ∧
    own 0 journal = (⟨0, call, taker, route⟩ : Taken).begun count replies ++ [.exited 0]

/-- The way of a dispatch from its beginning to its end: once the delegate is done, the callback
takes the first reply, and the dispatch returns. Every dispatch that is taken meanwhile goes the
same way between the deeds of those that enclose it. -/
def Served (world : World) (call : Call) (taker : DelegateId) (route : Route)
    (replies : List Value) (after : World) : Prop :=
  ∃ journal tickets count,
    Runs (asking world call) journal
      ⟨after, tickets, .answered (.route route), []⟩ ∧
    own 0 journal = (⟨0, call, taker, route⟩ : Taken).record count replies ∧
    (∀ ticket < tickets, Complete ticket (own ticket journal)) ∧
    Nested journal

/-- When the delegate is done, the machine has come to the same point, and the handler has the first
of the replies. -/
theorem invoke_worked {depth : Nat} {call : Call} {world between : World} {taker : DelegateId}
    {route : Route} {handler : Option Handler}
    (takes : Takes world.registry call.method taker route)
    (returns : Ends (invoke (perform depth) taker call (handlerOf call)) world handler between) :
    ∃ replies, handler = handlerAfter call replies ∧
      Worked world call taker route replies between := by
  have asks : (operationOf call).call? = some call := rfl
  obtain ⟨-, journal, tickets, hruns⟩ := invoke_runs (perform_runs depth) asks
    (resolve?_eq_some_iff.2 takes) returns 0 []
  obtain ⟨count, replies, hhandler, hown⟩ :=
    (hruns.ledger ledger_start).opened _ List.mem_cons_self
  obtain rfl : handler = handlerAfter call replies := hhandler
  exact ⟨replies, rfl, journal, tickets, count, hruns, hown⟩

/-- What is left to do when the delegate is done ends the dispatch, and completes its record. -/
theorem finish_served {depth : Nat} {call : Call} {world between after : World}
    {taker : DelegateId} {route : Route} {replies : List Value}
    (worked : Worked world call taker route replies between)
    (finishes : finish (perform depth) call replies between = (.ok (), after)) :
    Served world call taker route replies after := by
  obtain ⟨journal, tickets, count, runs, recorded⟩ := worked
  -- It is enough to come to the point where all is done but the return.
  suffices h : ∃ journal tickets stage,
      Runs (asking world call) journal
        ⟨after, tickets, .running, [⟨⟨0, call, taker, route⟩, stage⟩]⟩ ∧
      Step ⟨after, tickets, .running, [⟨⟨0, call, taker, route⟩, stage⟩]⟩
        (some (.returned 0 route)) ⟨after, tickets, .answered (.route route), []⟩ ∧
      own 0 journal ++ [.returned 0 route] =
        (⟨0, call, taker, route⟩ : Taken).record count replies by
    obtain ⟨journal, tickets, stage, hruns, hstep, hown⟩ := h
    have hruns := Runs.step hruns hstep
    have hledger := hruns.ledger ledger_start
    refine ⟨_, tickets, count, hruns, ?_, ?_, hruns.nested ledger_start⟩
    · rw [own_append, ← hown]
      rfl
    · exact fun ticket ht => hledger.closed ticket ht fun frame hf => absurd hf List.not_mem_nil
  rw [finish] at finishes
  split at finishes
  · next callback hcallback =>
    obtain ⟨journal', tickets', hback⟩ := callback_runs (perform_runs depth) finishes tickets
      ⟨0, call, taker, route⟩ []
    simp only [handlerAfter, hcallback, Option.map_some] at runs
    have hruns := (runs.trans (.single (.call hcallback))).trans hback
    obtain ⟨count', replies', -, hown⟩ := (hruns.ledger ledger_start).opened _ List.mem_cons_self
    -- The ledger gives the record anew; it begins like the one that is known, so it is the same.
    have hsame := hown
    rw [own_append, own_append, recorded, List.append_assoc, List.append_assoc] at hsame
    obtain ⟨rfl, rfl⟩ := begun_unique hsame
    refine ⟨_, _, _, hruns, .leaveBack, ?_⟩
    rw [show own 0 _ = _ from hown]
    simp [Taken.record, hcallback]
  · next hcallback =>
    obtain rfl := (Prod.mk.inj finishes).2
    simp only [handlerAfter, hcallback, Option.map_none] at runs
    exact ⟨journal, tickets, _, runs, .leave, by simp [recorded, Taken.record, hcallback]⟩

/-- A dispatch that comes to its end and that something takes has gone its whole way. -/
theorem dispatch_served {depth : Nat} {call : Call} {world after : World} {taker : DelegateId}
    {route settled : Route} (takes : Takes world.registry call.method taker settled)
    (ends : Ends (dispatch (perform depth) call) world route after) :
    route = settled ∧ ∃ replies, Served world call taker settled replies after := by
  obtain ⟨_, _, hget, hrest⟩ := ends_bind.1 ends
  obtain ⟨rfl, rfl⟩ := ends_get.1 hget
  rw [resolve?_eq_some_iff.2 takes] at hrest
  obtain ⟨handler, between, hinvoke, -⟩ := ends_bind.1 hrest
  obtain ⟨replies, rfl, worked⟩ := invoke_worked takes hinvoke
  rw [Ends, outcome_dispatch takes hinvoke] at ends
  obtain ⟨hroute, rfl⟩ := Prod.mk.inj ends
  rcases hfinish : finish (perform depth) call replies between with ⟨_ | _, after⟩ <;>
    rw [hfinish] at hroute
  · cases hroute
  · obtain rfl := Except.ok.inj hroute
    exact ⟨rfl, replies, finish_served worked hfinish⟩

/-! ## The protocol -/

/-- A dispatch, or a call that is built of the same parts, is dropped if nothing takes it, and then
nothing changes but the count. Otherwise one delegate takes it, and once this has come to its end,
whatever it has done, the callback is handed the first reply and the dispatch returns by its route,
unless the callback panics. -/
theorem dispatch_protocol (depth : Nat) (world : World) (call : Call) :
    (∀ parts, Call.Amount parts call →
      dispatch (perform depth) (Call.build call.method parts) = dispatch (perform depth) call) ∧
    (world.registry.get? call.method = none → world.registry.interceptor = none →
      outcome (dispatch (perform depth) call) world =
        (.ok .dropped, { world with registry :=
          { world.registry with dropped := world.registry.dropped + 1 } })) ∧
    ∀ taker route, Takes world.registry call.method taker route →
      ∀ handler between,
        Ends (invoke (perform depth) taker call (handlerOf call)) world handler between →
        ∃ replies,
          handler = handlerAfter call replies ∧
          Worked world call taker route replies between ∧
          outcome (dispatch (perform depth) call) world =
            ((finish (perform depth) call replies between).1.map fun _ => route,
              (finish (perform depth) call replies between).2) ∧
          ∀ after, finish (perform depth) call replies between = (.ok (), after) →
            Served world call taker route replies after := by
  refine ⟨fun parts h => by rw [Call.build_of_amount h], fun hget hinterceptor => ?_, ?_⟩
  · have hnone : world.registry.resolve? call.method = none := by
      rw [Registry.resolve?, hget, hinterceptor]
      rfl
    rw [dispatch, outcome_bind, outcome_get]
    simp only [hnone]
    rfl
  · intro taker route takes handler between returns
    obtain ⟨replies, rfl, worked⟩ := invoke_worked takes returns
    exact ⟨replies, rfl, worked, outcome_dispatch takes returns, fun after => finish_served worked⟩

/-- A world in which a delegate removes itself, replies, asks for itself again and replies once
more. -/
def selfRemoving : World where
  registry := ⟨[("once", 0)], none, 0⟩
  made := [.new (some "once")
    [.perform (.remove "once"), .signal (.value .null),
      .perform (.dispatch "once" none none (some [])), .signal (.value (.integer 2))]]
  events := []

/-- The callback takes the null that comes first. -/
theorem self_removing_protocol :
    ∃ between after replies,
      Takes selfRemoving.registry "once" 0 .delegated ∧
      Ends (invoke (perform 1) 0 ⟨"once", none, none, some []⟩ (some Handler.new)) selfRemoving
        (some ⟨some .null⟩) between ∧
      outcome (dispatch (perform 1) ⟨"once", none, none, some []⟩) selfRemoving =
        (.ok .delegated, after) ∧
      Served selfRemoving ⟨"once", none, none, some []⟩ 0 .delegated replies after := by
  have takes : Takes selfRemoving.registry "once" 0 .delegated := .delegate rfl
  have returns : ∃ between, Ends
      (invoke (perform 1) 0 ⟨"once", none, none, some []⟩ (some Handler.new)) selfRemoving
        (some ⟨some .null⟩) between := ⟨_, rfl⟩
  obtain ⟨between, returns⟩ := returns
  obtain ⟨replies, -, -, houtcome, hserved⟩ :=
    (dispatch_protocol 1 selfRemoving ⟨"once", none, none, some []⟩).2.2 0 .delegated takes _ _
      returns
  exact ⟨between, _, replies, takes, returns, houtcome, hserved _ rfl⟩

end Machine

end Bindery
