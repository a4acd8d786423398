import Bindery.Handler
import Bindery.Registry
/-!
# Delegates

What a delegate does when it is invoked, as data: it replies, it panics, or it works on the registry
that it was invoked from. So a dispatch can start others before it ends.
-/

namespace Bindery

/-- What is handed to a delegate beside the arguments. -/
inductive Context where
  | text (value : String)
  /-- Settings with a name. -/
  | settings (name : String)
  deriving DecidableEq, Repr

/-- What a delegate knows when it is invoked. -/
structure Invocation where
  method : String
  arguments : Option Value
  context : Option Context
  /-- How often the delegate has been invoked, this time included. -/
  count : UInt64

/-- What a delegate replies. -/
inductive Reply where
  | value (value : Value)
  /-- The method and the arguments. -/
  | echo
  /-- How often the delegate has been invoked, this time included. -/
  | count
  /-- How often the delegate has been invoked before. -/
  | countBefore
  /-- The method behind a text. -/
  | method (before : String)
  /-- The sum of the whole numbers in a list of arguments. -/
  | sum
  /-- The name of the settings. -/
  | settings
  /-- The method that nothing else takes, and the arguments. -/
  | unhandled

/-- Adds numbers from left to right; none if a sum on the way does not fit into 64 bits with a
sign. -/
def sumInt64? (total : Int) : List Int → Option Int
  | [] => some total
  | value :: rest => do
    let next ← (Value.integer (total + value)).int64?
    sumInt64? next rest

/-- The value of a reply, or the text that the delegate panics with. -/
def Reply.compute (invocation : Invocation) : Reply → Except String Value
  | .value reply => .ok reply
  | echo =>
    .ok (.object
      [("arguments", invocation.arguments.getD .null), ("method", .text invocation.method)])
  | count => .ok (.integer invocation.count.toNat)
  | countBefore => .ok (.integer (invocation.count - 1).toNat)
  | method before => .ok (.text (before ++ invocation.method))
  | sum =>
    let values := match invocation.arguments with
      | some (.array elements) => elements.filterMap Value.int64?
      | _ => []
    match sumInt64? 0 values with
    | some total => .ok (.integer total)
    | none => .error "attempt to add with overflow"
  | settings =>
    let name := match invocation.context with
      | some (.settings name) => .text name
      | _ => .null
    .ok (.object [("name", name)])
  | unhandled =>
    .ok (.object
      [("arguments", invocation.arguments.getD .null), ("unhandled", .text invocation.method)])

mutual

/-- A piece of what a delegate does. -/
inductive Action where
  /-- Replies, if there is a handler. -/
  | signal (reply : Reply)
  /-- Notes whether there has been a reply. -/
  | noteSignaled
  | panic (text : String)
  /-- Works on the registry. -/
  | perform (operation : Operation)

/-- Work on a registry. -/
inductive Operation where
  | define (name : String) (delegate : DelegateName)
  | remove (name : String)
  | get (name : String)
  | contains (name : String)
  | interceptor
  | setInterceptor (delegate : DelegateName)
  | clearInterceptor
  | install (bindings : Bindings (List Action))
  /-- Looks at the registry. -/
  | view
  /-- Lists the registry. -/
  | list
  /-- Lists a function that is wrapped as a delegate. -/
  | listFunction
  /-- Dispatches. The operations of a callback are performed after it has taken the reply. -/
  | dispatch (method : String) (arguments : Option Value) (context : Option Context)
      (callback : Option (List Operation))

/-- A delegate by its name: a new one with a script, or the latest one of that name. -/
inductive DelegateName where
  | mk (name : String) (script : Option (List Action))

end

/-- A delegate. One without a name works in silence. -/
structure Delegate where
  name : Option String
  script : List Action
  /-- How often it has been invoked. -/
  count : UInt64

namespace Delegate

/-- A delegate that has never been invoked. -/
def new (name : Option String) (script : List Action) : Delegate :=
  ⟨name, script, 0⟩

/-- What a delegate is called in answers. -/
def label (delegate : Delegate) : String :=
  delegate.name.getD "builtin"

end Delegate

end Bindery
