import Bindery.Delegate
/-!
# Sample bindings

Bindings to try a registry with: a pair of delegates, a fallback, and those of a small crate that
marks delegates of every kind.
-/

namespace Bindery.SampleBindings

/-- A delegate that does nothing but reply. -/
def replying (reply : Reply) : List Action :=
  [.signal reply]

/-- Two delegates that reply with their names. -/
def pair : Bindings (List Action) where
  providers := some [("a", replying (.value (.text "a"))), ("b", replying (.value (.text "b")))]
  interceptor := none

/-- An interceptor that replies with the method. -/
def fallback : Bindings (List Action) where
  providers := none
  interceptor := some (replying (.method "fallback:"))

/-- The pair and the fallback. -/
def both : Bindings (List Action) :=
  ⟨pair.providers, fallback.interceptor⟩

/-- The delegates of a small crate. A level goes by two names, and the counter counts for as long
as it is registered. -/
def demo : Bindings (List Action) where
  providers := some [
    ("battery.level", replying (.value (.integer 42))),
    ("power.level", replying (.value (.integer 42))),
    ("math.add", replying .sum),
    ("counter.next", replying .countBefore),
    ("clock.epoch", replying (.value (.integer 0))),
    ("config.read", replying .settings)]
  interceptor := some (replying .unhandled)

/-- Bindings by name. -/
def named? : String → Option (Bindings (List Action))
  | "empty" | "default" => some Bindings.empty
  | "pair" => some pair
  | "fallback" => some fallback
  | "both" => some both
  | "demo" => some demo
  | _ => none

end Bindery.SampleBindings
