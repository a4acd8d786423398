import Bindery.Delegate
/-!
# Dispatch

A dispatch settles what takes it before anything runs, so work that a delegate does on the registry
changes later dispatches and not the one that it runs in. A callback takes the reply once the
delegate is done. A panic ends all open dispatches, and what was done until then stays done.
-/

namespace Bindery

/-- A delegate among those that have been made. -/
abbrev DelegateId := Nat

/-- A registry as it is viewed from outside. -/
structure RegistryView where
  names : List String
  size : Nat
  isEmpty : Bool
  /-- The label of the interceptor. -/
  interceptor : Option String
  dropped : UInt64

/-- The answer to an operation on a registry. -/
inductive Answer where
  | nothing
  /-- The label of a delegate. -/
  | delegate (label : String)
  | bool (value : Bool)
  | view (view : RegistryView)
  | text (value : String)
  | route (route : Route)

/-- What can be observed of a run. -/
inductive Event where
  /-- A delegate begins. -/
  | entered (label method : String) (hasHandler : Bool) (arguments : Option Value)
      (context : Option Context)
  /-- A delegate is done. -/
  | exited (label : String)
  /-- Whether there has been a reply, if there is a handler. -/
  | signaled (state : Option Bool)
  /-- A callback takes the reply, if there has been one. -/
  | called (value : Option Value)
  /-- An operation is done. -/
  | answered (answer : Answer)

/-- A registry with the delegates that have been made for it, and what has been observed. -/
structure World where
  registry : Registry DelegateId
  /-- The delegates, the oldest first. -/
  made : List Delegate
  events : List Event

/-- What ends a run before its time. -/
inductive Stop where
  | panic (text : String)
  /-- Dispatches are nested too deeply. -/
  | tooDeep
  deriving DecidableEq, Repr

/-- A run, which changes a world and can stop. -/
abbrev Run := ExceptT Stop (StateM World)

namespace World

/-- Nothing has been made. -/
def empty : World :=
  ⟨Registry.empty, [], []⟩

/-- Changes the registry. -/
def withRegistry (world : World) (registry : Registry DelegateId) : World :=
  { world with registry }

/-- Observes an event. -/
def observe (world : World) (event : Event) : World :=
  { world with events := world.events ++ [event] }

/-- Makes a delegate. -/
def make (world : World) (delegate : Delegate) : World × DelegateId :=
  ({ world with made := world.made ++ [delegate] }, world.made.length)

/-- The latest delegate of a name. -/
def latest? (world : World) (name : String) : Option DelegateId :=
  (List.range world.made.length).reverse.find? fun id =>
    match world.made[id]? with
    | some delegate => delegate.name == some name
    | none => false

/-- The delegate that is meant by a name. One that is not there yet is made, and does nothing unless
there is a script for it. -/
def meant (world : World) : DelegateName → World × DelegateId
  | .mk name (some script) => world.make (.new (some name) script)
  | .mk name none =>
    match world.latest? name with
    | some id => (world, id)
    | none => world.make (.new (some name) [])

/-- Makes delegates without a name. -/
def makeAll (world : World) : List (String × List Action) → World × List (String × DelegateId)
  | [] => (world, [])
  | (key, script) :: rest =>
    let (world, id) := world.make (.new none script)
    let (world, ids) := world.makeAll rest
    (world, (key, id) :: ids)

/-- Makes the delegates of bindings. -/
def makeBindings (world : World) (bindings : Bindings (List Action)) :
    World × Bindings DelegateId :=
  let (world, providers) := match bindings.providers with
    | some scripts =>
      let (world, ids) := world.makeAll scripts
      (world, some ids)
    | none => (world, none)
  match bindings.interceptor with
  | some script =>
    let (world, id) := world.make (.new none script)
    (world, ⟨providers, some id⟩)
  | none => (world, ⟨providers, none⟩)

/-- Changes the registry of a world. -/
def apply (world : World) (change : Change DelegateId) : World :=
  world.withRegistry (world.registry.apply change)

/-- Makes the delegates of bindings and registers them. -/
def install (world : World) (bindings : Bindings (List Action)) : World :=
  let (world, bindings) := world.makeBindings bindings
  world.apply (.install bindings)

/-- A delegate among those that have been made. One that has not been made does nothing. -/
def delegate (world : World) (id : DelegateId) : Delegate :=
  world.made[id]?.getD (.new none [])

/-- Observes an event of a delegate, unless it works in silence. -/
def note (world : World) (delegate : Delegate) (event : String → Event) : World :=
  match delegate.name with
  | some name => world.observe (event name)
  | none => world

/-- The label of a delegate. -/
def label (world : World) (id : DelegateId) : String :=
  match world.made[id]? with
  | some delegate => delegate.label
  | none => ""

/-- The answer that names a delegate, if there is one. -/
def naming (world : World) : Option DelegateId → Answer
  | some id => .delegate (world.label id)
  | none => .nothing

/-- The registry of a world as it is viewed from outside. -/
def view (world : World) : RegistryView where
  names := world.registry.names
  size := world.registry.size
  isEmpty := world.registry.isEmpty
  interceptor := world.registry.interceptor.map world.label
  dropped := world.registry.dropped

/-- Counts an invocation of a delegate. -/
def invoked (world : World) (id : DelegateId) : World :=
  let counted (delegate : Delegate) : Delegate := { delegate with count := delegate.count + 1 }
  { world with made := world.made.modify id counted }

/-- The change of the registry that an operation asks for, if it asks for one. The delegates that
the change needs are made. -/
def change? (world : World) : Operation → Option (World × Change DelegateId)
  | .define name delegate =>
    let (world, id) := world.meant delegate
    some (world, .define name id)
  | .remove name => some (world, .remove name)
  | .setInterceptor delegate =>
    let (world, id) := world.meant delegate
    some (world, .setInterceptor id)
  | .clearInterceptor => some (world, .clearInterceptor)
  | .install bindings =>
    let (world, bindings) := world.makeBindings bindings
    some (world, .install bindings)
  | _ => none

/-- The answer to an operation that only looks. -/
def look (world : World) : Operation → Answer
  | .get name => world.naming (world.registry.get? name)
  | .contains name => .bool (world.registry.contains name)
  | .interceptor => world.naming world.registry.interceptor
  | .view => .view world.view
  | .list => .text world.registry.listing
  | .listFunction => .text "FnDelegate \x7b .. \x7d"
  | _ => .nothing

/-- Performs an operation that is no dispatch. -/
def serve (world : World) (operation : Operation) : Answer × World :=
  match world.change? operation with
  | some (world, change) => (world.naming (world.registry.displaced? change), world.apply change)
  | none => (world.look operation, world)

end World

/-- A dispatch that is asked for. -/
structure Call where
  method : String
  arguments : Option Value
  context : Option Context
  /-- What is done once the reply is taken. -/
  callback : Option (List Operation)

namespace Call

/-- A call of a method with nothing else. -/
def new (method : String) : Call :=
  ⟨method, none, none, none⟩

/-- A call with a context. -/
def withContext (call : Call) (context : Context) : Call :=
  { call with context := some context }

/-- A call with arguments. -/
def withArguments (call : Call) (arguments : Value) : Call :=
  { call with arguments := some arguments }

/-- A call with a callback. -/
def withCallback (call : Call) (callback : List Operation) : Call :=
  { call with callback := some callback }

end Call

/-- The call of an operation that is a dispatch. -/
def Operation.call? : Operation → Option Call
  | .dispatch method arguments context callback => some ⟨method, arguments, context, callback⟩
  | _ => none

namespace Run

/-- Observes an event. -/
def observe (event : Event) : Run Unit :=
  modify (·.observe event)

/-- Performs an operation of a script or a callback and observes its answer. -/
def performObserved (perform : Operation → Run Answer) (operation : Operation) : Run Unit := do
  let answer ← perform operation
  observe (.answered answer)

/-- Does a piece of what a delegate does. The handler is passed on. -/
def act (perform : Operation → Run Answer) (invocation : Invocation) (handler : Option Handler) :
    Action → Run (Option Handler)
  | .signal reply =>
    match reply.compute invocation with
    | .ok value => return handler.map (·.signal value)
    | .error text => throw (.panic text)
  | .noteSignaled => do
    observe (.signaled (handler.map (·.isSignaled)))
    return handler
  | .panic text => throw (.panic text)
  | .perform operation => do
    performObserved perform operation
    return handler

/-- Invokes a delegate, which answers to a handler if there is one. -/
def invoke (perform : Operation → Run Answer) (id : DelegateId) (call : Call)
    (handler : Option Handler) : Run (Option Handler) := do
  modify (·.invoked id)
  let delegate := (← get).delegate id
  let invocation : Invocation := ⟨call.method, call.arguments, call.context, delegate.count⟩
  modify (·.note delegate fun name =>
    .entered name call.method handler.isSome call.arguments call.context)
  let handler ← delegate.script.foldlM (act perform invocation) handler
  modify (·.note delegate .exited)
  return handler

/-- Hands the reply to a callback, and performs the operations of the callback. -/
def complete (perform : Operation → Run Answer) (callback : List Operation) (handler : Handler) :
    Run Unit := do
  observe (.called handler.value)
  callback.forM (performObserved perform)

/-- Dispatches a call. -/
def dispatch (perform : Operation → Run Answer) (call : Call) : Run Route := do
  match (← get).registry.resolve? call.method with
  | none =>
    modify (·.apply .drop)
    return .dropped
  | some (id, route) =>
    let handler ← invoke perform id call (call.callback.map fun _ => Handler.new)
    match call.callback, handler with
    | some callback, some handler => complete perform callback handler
    | _, _ => pure ()
    return route

/-- Performs an operation. Dispatches may be nested as deep as `depth` says. -/
def perform (depth : Nat) (operation : Operation) : Run Answer :=
  match operation.call? with
  | none => modifyGet fun world => world.serve operation
  | some call =>
    match depth with
    | 0 => throw .tooDeep
    | depth + 1 => do return .route (← dispatch (perform depth) call)

end Run

/-- How deep dispatches may be nested. -/
def depthLimit : Nat :=
  4096

/-- Performs an operation on a world from outside. -/
def World.perform (world : World) (operation : Operation) : Except Stop Answer × World :=
  (Run.perform depthLimit operation).run.run world

end Bindery
