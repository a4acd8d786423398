import Bindery.Proofs.Dispatch.Protocol
import Bindery.Proofs.Dispatch.Stopping
import Bindery.SampleBindings
import Mathlib.Algebra.Order.BigOperators.Group.List
import Mathlib.Algebra.Order.Ring.Int
import Mathlib.Data.List.Infix
/-!
# Adding numbers

A delegate that replies with a sum adds from left to right, and every sum on the way has to fit into
64 bits with a sign. `add_outcome`: numbers that do not fit themselves are left out; if every sum on
the way fits, the callback takes the sum, and otherwise the delegate panics before it replies. Where
no two numbers have opposite signs, the sums on the way fit if the whole sum does.
-/

namespace Bindery

/-! ## Sums that fit -/

/-- A number fits into 64 bits with a sign. -/
def FitsInt64 (number : Int) : Prop :=
  -0x8000000000000000 ≤ number ∧ number < 0x8000000000000000

instance (number : Int) : Decidable (FitsInt64 number) :=
  inferInstanceAs (Decidable (_ ∧ _))

/-- What numbers add up to fits at every point on the way, if they are added to a total. -/
def SumsFit (total : Int) (numbers : List Int) : Prop :=
  ∀ front, front <+: numbers → FitsInt64 (total + front.sum)

instance (total : Int) (numbers : List Int) : Decidable (SumsFit total numbers) :=
  decidable_of_iff (∀ front ∈ numbers.inits, FitsInt64 (total + front.sum))
    (by simp [SumsFit, List.mem_inits])

/-- Of the elements of an array, the numbers that are added. -/
def addends (elements : List Value) : List Int :=
  elements.filterMap Value.int64?

theorem int64?_integer (number : Int) :
    (Value.integer number).int64? = if FitsInt64 number then some number else none := rfl

theorem addends_integers (numbers : List Int) :
    addends (numbers.map .integer) = numbers.filter (FitsInt64 ·) := by
  rw [addends, List.filterMap_map, ← List.filterMap_eq_filter]
  congr 1
  funext number
  by_cases h : FitsInt64 number <;> simp [int64?_integer, Option.guard, h]

theorem sumsFit_nil {total : Int} : SumsFit total [] ↔ FitsInt64 total := by
  simp [SumsFit, List.prefix_nil]

theorem sumsFit_cons {total number : Int} {rest : List Int} :
    SumsFit total (number :: rest) ↔ FitsInt64 total ∧ SumsFit (total + number) rest := by
  constructor
  · intro h
    refine ⟨by simpa using h [] List.nil_prefix, fun front hfront => ?_⟩
    simpa [add_assoc] using h (number :: front) (List.cons_prefix_cons.2 ⟨rfl, hfront⟩)
  · rintro ⟨htotal, hrest⟩ front hfront
    cases front with
    | nil => simpa using htotal
    | cons first front =>
      obtain ⟨rfl, hrestFront⟩ := List.cons_prefix_cons.1 hfront
      simpa [add_assoc] using hrest front hrestFront

theorem SumsFit.total {total : Int} {numbers : List Int} (h : SumsFit total numbers) :
    FitsInt64 total := by
  simpa using h [] List.nil_prefix

/-- Adding comes to the sum exactly if everything on the way fits. -/
theorem sumInt64?_eq_some_iff {total result : Int} {numbers : List Int} (h : FitsInt64 total) :
    sumInt64? total numbers = some result ↔
      SumsFit total numbers ∧ total + numbers.sum = result := by
  induction numbers generalizing total with
  | nil => simp [sumInt64?, sumsFit_nil, h]
  | cons number rest ih =>
    rw [sumInt64?, int64?_integer, sumsFit_cons, List.sum_cons, ← add_assoc]
    by_cases hnext : FitsInt64 (total + number)
    · simpa [hnext, h] using ih hnext
    · have hrest : ¬SumsFit (total + number) rest := fun hfit => hnext hfit.total
      simp [hnext, hrest]

/-- Some of the numbers add up to no less than all of them, if none is positive. -/
theorem sum_le_of_nonpos {numbers front : List Int} (h : ∀ number ∈ numbers, number ≤ 0)
    (hfront : front.Sublist numbers) : numbers.sum ≤ front.sum := by
  induction hfront with
  | slnil => rfl
  | cons number _ ih =>
    have hnumber := h number List.mem_cons_self
    have hrest := ih fun other hmem => h other (List.mem_cons_of_mem _ hmem)
    rw [List.sum_cons]
    omega
  | cons_cons number _ ih =>
    have hrest := ih fun other hmem => h other (List.mem_cons_of_mem _ hmem)
    rw [List.sum_cons, List.sum_cons]
    omega

/-- Some of the numbers add up to what fits, if all of them do and no two have opposite signs. -/
theorem fits_of_sameSign {numbers front : List Int}
    (h : (∀ number ∈ numbers, 0 ≤ number) ∨ ∀ number ∈ numbers, number ≤ 0)
    (hsum : FitsInt64 numbers.sum) (hfront : front.Sublist numbers) : FitsInt64 front.sum := by
  obtain ⟨hlow, hhigh⟩ := hsum
  rcases h with h | h
  · have hle : front.sum ≤ numbers.sum := hfront.sum_le_sum h
    have hpos : 0 ≤ front.sum := List.sum_nonneg fun number hmem => h number (hfront.subset hmem)
    exact ⟨by omega, by omega⟩
  · have hle : numbers.sum ≤ front.sum := sum_le_of_nonpos h hfront
    have hneg : front.sum ≤ 0 :=
      sum_le_of_nonpos (fun number hmem => h number (hfront.subset hmem)) (List.nil_sublist _)
    exact ⟨by omega, by omega⟩

/-- Then each of them fits, and so does every sum on the way. -/
theorem sumsFit_of_sameSign {numbers : List Int}
    (h : (∀ number ∈ numbers, 0 ≤ number) ∨ ∀ number ∈ numbers, number ≤ 0)
    (hsum : FitsInt64 numbers.sum) :
    numbers.filter (FitsInt64 ·) = numbers ∧ SumsFit 0 numbers := by
  constructor
  · refine List.filter_eq_self.2 fun number hmem => ?_
    have hfits := fits_of_sameSign h hsum (List.singleton_sublist.2 hmem)
    simpa using hfits
  · intro front hfront
    rw [zero_add]
    exact fits_of_sameSign h hsum hfront.sublist

namespace Machine

open Run

variable {world : World} {adder : DelegateId} {method : String} {elements : List Value}

/-! ## A delegate that adds -/

/-- A name has a delegate that replies with the sum of its arguments, and works in silence. -/
structure Adds (world : World) (method : String) (adder : DelegateId) : Prop where
  bound : world.registry.get? method = some adder
  made : ∃ count, world.made[adder]? = some ⟨none, SampleBindings.replying .sum, count⟩

/-- What the delegate makes of its arguments. -/
theorem compute_sum {invocation : Invocation} (h : invocation.arguments = some (.array elements)) :
    Reply.sum.compute invocation =
      if SumsFit 0 (addends elements) then .ok (.integer (addends elements).sum)
      else .error "attempt to add with overflow" := by
  have hzero : FitsInt64 0 := by decide
  have helements : elements.filterMap Value.int64? = addends elements := rfl
  rw [Reply.compute, h]
  split_ifs with hfit
  · have hsum := (sumInt64?_eq_some_iff hzero).2 ⟨hfit, rfl⟩
    simp only [helements, hsum, zero_add]
  · have hnone : sumInt64? 0 (addends elements) = none :=
      Option.eq_none_iff_forall_ne_some.2 fun result hsum =>
        hfit ((sumInt64?_eq_some_iff hzero).1 hsum).1
    simp only [helements, hnone]

/-- Invoking the delegate counts the invocation and replies with the sum, or panics. -/
theorem outcome_invoke_adder {perform : Operation → Run Answer} {call : Call}
    {handler : Option Handler} (adds : Adds world method adder)
    (h : call.arguments = some (.array elements)) :
    outcome (invoke perform adder call handler) world =
      (if SumsFit 0 (addends elements)
        then .ok (handler.map (·.signal (.integer (addends elements).sum)))
        else .error (.panic "attempt to add with overflow"),
      world.invoked adder) := by
  obtain ⟨count, hmade⟩ := adds.made
  have hdelegate : (world.invoked adder).delegate adder =
      ⟨none, SampleBindings.replying .sum, count + 1⟩ := by
    simp [World.invoked, World.delegate, hmade]
  have hcompute : Reply.sum.compute ⟨call.method, call.arguments, call.context, count + 1⟩ = _ :=
    compute_sum h
  simp only [invoke, modify, outcome_bind, outcome_modifyGet, outcome_get, hdelegate, World.note,
    SampleBindings.replying, List.foldlM_cons, List.foldlM_nil, act, hcompute]
  split_ifs <;> rfl

/-! ## Dispatches of additions -/

/-- If every sum on the way fits, the callback takes the sum, and what it does then decides how the
dispatch ends. Otherwise the delegate panics, and there is no reply. -/
theorem add_outcome (adds : Adds world method adder) (elements : List Value) (depth : Nat)
    (context : Option Context) (callback : List Operation) :
    let call : Call := ⟨method, some (.array elements), context, some callback⟩
    (SumsFit 0 (addends elements) →
      outcome (dispatch (perform depth) call) world =
        outcome (do callback.forM (performObserved (perform depth)); return .delegated)
          ((world.invoked adder).observe (.called (some (.integer (addends elements).sum))))) ∧
    (¬SumsFit 0 (addends elements) →
      Stops (dispatch (perform depth) call) world (.panic "attempt to add with overflow")
        (world.invoked adder)) := by
  intro call
  have takes : Takes world.registry call.method adder .delegated := .delegate adds.bound
  have hinvoke : outcome (invoke (perform depth) adder call (handlerOf call)) world = _ :=
    outcome_invoke_adder adds rfl
  constructor
  · intro hfit
    rw [if_pos hfit] at hinvoke
    have returns : Ends (invoke (perform depth) adder call (handlerOf call)) world
        (handlerAfter call [.integer (addends elements).sum]) (world.invoked adder) := hinvoke
    have hfinish : finish (perform depth) call [.integer (addends elements).sum]
        (world.invoked adder) = outcome (callback.forM (performObserved (perform depth)))
          ((world.invoked adder).observe (.called (some (.integer (addends elements).sum)))) := rfl
    rw [outcome_dispatch takes returns, hfinish, outcome_bind]
    rcases outcome (callback.forM (performObserved (perform depth))) _ with ⟨_ | _, after⟩ <;> rfl
  · intro hfit
    rw [if_neg hfit] at hinvoke
    rw [dispatch, stops_get_bind]
    simp only [resolve?_eq_some_iff.2 takes]
    exact stops_bind.2 (.inl hinvoke)

theorem Adds.invoked (adds : Adds world method adder) :
    Adds (world.invoked adder) method adder := by
  obtain ⟨count, hmade⟩ := adds.made
  exact ⟨adds.bound, count + 1, by simp [World.invoked, hmade]⟩

/-- The registry of the sample crate, with its delegates. -/
def sampleWorld : World :=
  World.empty.install SampleBindings.demo

/-- Where a name has a delegate that adds, as in the registry of the sample crate, dispatches to it
leave it there. It is given an array of whole numbers, and a callback waits: numbers that do not fit
into 64 bits with a sign are left out; if every sum of the others on the way fits, the callback takes
their sum and goes on, and otherwise the delegate panics, and the callback is not run. No number is
left out if each of them fits, and the sums on the way fit with the whole sum if no two numbers have
opposite signs. -/
theorem sum_exact (adds : Adds world method adder) (numbers : List Int) (depth : Nat)
    (context : Option Context) (callback : List Operation) :
    let call : Call := ⟨method, some (.array (numbers.map .integer)), context, some callback⟩
    let added := numbers.filter (FitsInt64 ·)
    Adds (world.invoked adder) method adder ∧
    (SumsFit 0 added →
      outcome (dispatch (perform depth) call) world =
        outcome (do callback.forM (performObserved (perform depth)); return .delegated)
          ((world.invoked adder).observe (.called (some (.integer added.sum))))) ∧
    (¬SumsFit 0 added →
      Stops (dispatch (perform depth) call) world (.panic "attempt to add with overflow")
        (world.invoked adder)) ∧
    ((∀ number ∈ numbers, FitsInt64 number) → added = numbers) ∧
    (((∀ number ∈ numbers, 0 ≤ number) ∨ ∀ number ∈ numbers, number ≤ 0) →
      FitsInt64 numbers.sum → added = numbers ∧ SumsFit 0 added) := by
  intro call added
  have hadded : addends (numbers.map .integer) = added := addends_integers numbers
  have houtcome := add_outcome adds (numbers.map .integer) depth context callback
  rw [hadded] at houtcome
  refine ⟨adds.invoked, houtcome.1, houtcome.2, fun h => ?_, fun h hsum => ?_⟩
  · exact List.filter_eq_self.2 fun number hmem => by simpa using h number hmem
  · obtain ⟨hall, hway⟩ := sumsFit_of_sameSign h hsum
    exact ⟨hall, by rwa [show added = numbers from hall]⟩

/-- The registry of the sample crate adds; the largest number that fits, in three parts. -/
theorem sampleWorld_sum :
    Adds sampleWorld "math.add" 2 ∧
    outcome (dispatch (perform 0)
        ⟨"math.add", some (.array [.integer 0x7ffffffffffffffd, .integer 2, .integer 0]), none,
          some []⟩) sampleWorld =
      (.ok .delegated,
        (sampleWorld.invoked 2).observe (.called (some (.integer 0x7fffffffffffffff)))) := by
  have adds : Adds sampleWorld "math.add" 2 := ⟨rfl, 0, rfl⟩
  exact ⟨adds, (sum_exact adds [0x7ffffffffffffffd, 2, 0] 0 none []).2.1 (by decide)⟩

/-- A sum on the way does not fit, though the whole sum does. -/
theorem sampleWorld_overflow :
    ¬∀ numbers : List Int, FitsInt64 numbers.sum → ∃ after,
      Ends (dispatch (perform 0) ⟨"math.add", some (.array (numbers.map .integer)), none, some []⟩)
        sampleWorld .delegated after ∧
      after.events = [.called (some (.integer numbers.sum))] := by
  intro h
  obtain ⟨after, hends, -⟩ := h [0x7fffffffffffffff, 1, -1] (by decide)
  have hstops : Stops (dispatch (perform 0) ⟨"math.add",
      some (.array [.integer 0x7fffffffffffffff, .integer 1, .integer (-1)]), none, some []⟩)
      sampleWorld (.panic "attempt to add with overflow") (sampleWorld.invoked 2) := rfl
  cases hends.symm.trans hstops

end Machine

end Bindery
