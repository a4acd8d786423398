import Bindery.Registry
import Mathlib.Data.List.Induction
/-!
# What a registry holds after changes

One lemma for each kind of change says what every name leads to afterwards, and which interceptor
there is. Of several delegates that a name is given, the last one stays.
-/

namespace Bindery.Registry

variable {δ : Type} (registry : Registry δ)

@[simp]
theorem get?_empty (name : String) : (empty : Registry δ).get? name = none := rfl

@[simp]
theorem get?_define (name : String) (delegate : δ) (other : String) :
    (registry.define name delegate).get? other =
      if other = name then some delegate else registry.get? other := by
  by_cases h : other = name
  · subst h
    rw [if_pos rfl]
    exact Keyed.find?_insert_self _ _ _
  · rw [if_neg h]
    exact Keyed.find?_insert_of_ne _ _ h

@[simp]
theorem get?_remove (name other : String) :
    (registry.remove name).get? other = if other = name then none else registry.get? other := by
  by_cases h : other = name
  · subst h
    rw [if_pos rfl]
    exact Keyed.find?_erase_self _ _
  · rw [if_neg h]
    exact Keyed.find?_erase_of_ne _ h

@[simp]
theorem interceptor_define (name : String) (delegate : δ) :
    (registry.define name delegate).interceptor = registry.interceptor := rfl

@[simp]
theorem get?_setInterceptor (delegate : δ) (name : String) :
    (registry.setInterceptor delegate).get? name = registry.get? name := rfl

/-- The last delegate that a name is given stays. -/
theorem get?_defineAll (definitions : List (String × δ)) (name : String) :
    (registry.defineAll definitions).get? name =
      ((definitions.filter (·.1 = name)).getLast?.map (·.2)).or (registry.get? name) := by
  induction definitions using List.reverseRecOn with
  | nil => rfl
  | append_singleton definitions definition ih =>
    have hlast : registry.defineAll (definitions ++ [definition]) =
        (registry.defineAll definitions).define definition.1 definition.2 := by
      rw [defineAll, List.foldl_append]
      rfl
    rw [hlast, get?_define, ih, List.filter_append, List.getLast?_append]
    by_cases h : definition.1 = name
    · simp [h]
    · simp [h, Ne.symm h]

@[simp]
theorem interceptor_defineAll (definitions : List (String × δ)) :
    (registry.defineAll definitions).interceptor = registry.interceptor := by
  induction definitions using List.reverseRecOn with
  | nil => rfl
  | append_singleton definitions definition ih =>
    rw [defineAll, List.foldl_append]
    exact ih

theorem get?_install (bindings : Bindings δ) (name : String) :
    (registry.install bindings).get? name =
      (registry.defineAll (bindings.providers.getD [])).get? name := by
  unfold install
  split <;> rfl

theorem interceptor_install (bindings : Bindings δ) :
    (registry.install bindings).interceptor = bindings.interceptor.or registry.interceptor := by
  unfold install
  cases bindings.interceptor with
  | none => simp
  | some delegate => rfl

end Bindery.Registry
