import Bindery.Value
/-!
# Handlers

A handler takes the reply of a delegate. The first value that it is given stays; null is a value
like any other.
-/

namespace Bindery

/-- The reply to a dispatch, if there has been one. -/
structure Handler where
  value : Option Value

namespace Handler

/-- There has been no reply. -/
def new : Handler :=
  ⟨none⟩

/-- Replies. A reply after the first one is ignored. -/
def signal (handler : Handler) (value : Value) : Handler :=
  ⟨some (handler.value.getD value)⟩

/-- Whether there has been a reply. -/
def isSignaled (handler : Handler) : Bool :=
  handler.value.isSome

end Handler

end Bindery
