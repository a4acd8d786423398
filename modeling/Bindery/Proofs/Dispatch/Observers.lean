import Bindery.Proofs.Dispatch.Past
import Bindery.Proofs.Dispatch.Sessions
import Bindery.Proofs.Round.Reinstallation
import Bindery.Proofs.Text.Bytes
import Mathlib.Data.List.Sort
/-!
# What a registry says of itself

A registry counts the dispatches that nothing took, and lists its names. `step_dropped`: of all that
is done, by whomever it is asked for, only a dispatch that returns as dropped changes the count, and
it adds one. `Registry.faithful`: the list of the names says the same as looking each of them up.
`session_observed` puts both together for all that can become of an empty registry.
-/

namespace Bindery

/-! ## Names -/

namespace Registry

variable {δ : Type}

/-- The observers of a registry agree about its names. -/
structure Faithful (registry : Registry δ) : Prop where
  /-- The names are in the order of their bytes, and none comes twice. -/
  ascending : registry.names.Pairwise fun first second => Text.bytes first < Text.bytes second
  mem_names : ∀ name, name ∈ registry.names ↔ registry.contains name = true
  contains : ∀ name, registry.contains name = true ↔ ∃ delegate, registry.get? name = some delegate
  length_names : registry.names.length = registry.size
  names_eq_nil : registry.names = [] ↔ registry.isEmpty = true

theorem perm_names (registry : Registry δ) :
    registry.names.Perm (Keyed.keys registry.delegates) :=
  List.mergeSort_perm _ _

theorem faithful {registry : Registry δ} (h : registry.WellKeyed) : registry.Faithful where
  ascending := by
    have hle : registry.names.Pairwise (· ≤ ·) := List.pairwise_mergeSort' _ _
    have hne : registry.names.Pairwise (· ≠ ·) := (perm_names registry).nodup_iff.2 h
    refine (hle.and hne).imp fun hboth => ?_
    exact Text.bytes_lt (lt_of_le_of_ne hboth.1 hboth.2)
  mem_names name := by
    rw [(perm_names registry).mem_iff, contains, get?, Keyed.find?_isSome_iff]
  contains name := Option.isSome_iff_exists
  length_names := by
    rw [(perm_names registry).length_eq, Keyed.keys, List.length_map, size]
  names_eq_nil := by
    rw [← List.length_eq_zero_iff, (perm_names registry).length_eq, Keyed.keys, List.length_map,
      List.length_eq_zero_iff, isEmpty, List.isEmpty_iff]

/-- Changes give no name a second delegate. -/
theorem wellKeyed_foldl_apply {registry : Registry δ} (h : registry.WellKeyed)
    (changes : List (Change δ)) : (changes.foldl apply registry).WellKeyed := by
  rw [← apply_flatMap_parts]
  refine (held_parts h fun part hpart => ?_).1
  obtain ⟨change, -, hpart⟩ := List.mem_flatMap.1 hpart
  exact Change.isInstall_of_mem_parts hpart

end Registry

/-! ## Drops -/

/-- The answer to a dispatch that nothing took. -/
def Answer.isDrop : Answer → Bool
  | .route .dropped => true
  | _ => false

/-- Whether such an answer is observed. -/
def Event.isDrop : Event → Bool
  | .answered answer => answer.isDrop
  | _ => false

namespace World

/-- No operation asks for a drop. -/
theorem change?_ne_drop {world made : World} {operation : Operation} {change : Change DelegateId}
    (h : world.change? operation = some (made, change)) : change ≠ .drop := by
  rintro rfl
  cases operation <;> simp [change?] at h

/-- Only a drop adds to the count of drops. -/
theorem apply_dropped {world : World} {change : Change DelegateId} (h : change ≠ .drop) :
    (world.apply change).registry.dropped = world.registry.dropped := by
  cases change with
  | install bindings => exact Registry.dropped_install _ _
  | drop => exact absurd rfl h
  | define | remove | setInterceptor | clearInterceptor => rfl

theorem naming_isDrop (world : World) (id : Option DelegateId) :
    (world.naming id).isDrop = false := by
  cases id <;> rfl

theorem look_isDrop (world : World) (operation : Operation) :
    (world.look operation).isDrop = false := by
  cases operation <;> first | rfl | exact world.naming_isDrop _

/-- How often somebody has observed that a dispatch was dropped. -/
def drops (world : World) : Nat :=
  world.events.countP Event.isDrop

theorem observe_drops (world : World) (event : Event) :
    (world.observe event).drops = world.drops + event.isDrop.toNat := by
  rw [drops, observe, List.countP_append, List.countP_singleton]
  cases event.isDrop <;> rfl

theorem note_drops (world : World) (delegate : Delegate) {event : String → Event}
    (h : ∀ name, (event name).isDrop = false) :
    (world.note delegate event).drops = world.drops := by
  unfold note
  split
  · next name _ =>
    rw [observe_drops, h name]
    rfl
  · rfl

/-- The answers to operations that are performed from outside, one after the other. -/
def answers (world : World) : List Operation → List (Except Stop Answer)
  | [] => []
  | operation :: rest =>
    (world.perform operation).1 :: (world.perform operation).2.answers rest

theorem answers_concat (world : World) (operations : List Operation) (operation : Operation) :
    world.answers (operations ++ [operation]) =
      world.answers operations ++ [((world.performAll operations).perform operation).1] := by
  induction operations generalizing world with
  | nil => rfl
  | cons first rest ih => exact congrArg _ (ih _)

end World

namespace Machine

open Run

/-- A dispatch returns as dropped. -/
def Deed.isDrop : Deed → Bool
  | .dropped _ => true
  | .returned _ .dropped => true
  | _ => false

/-- A dispatch has just returned as dropped. -/
def Focus.isDrop : Focus → Bool
  | .answered answer => answer.isDrop
  | _ => false

/-- No dispatch that is open will return as dropped. -/
def Moment.Settled (moment : Moment) : Prop :=
  ∀ frame ∈ moment.frames, frame.taken.route ≠ .dropped

theorem Takes.ne_dropped {registry : Registry DelegateId} {name : String} {taker : DelegateId}
    {route : Route} (h : Takes registry name taker route) : route ≠ .dropped := by
  cases h <;> decide

theorem Runs.settled {start moment : Moment} {journal : Journal} (run : Runs start journal moment)
    (idle : start.frames = []) : moment.Settled := by
  intro frame hf
  obtain ⟨_, _, _, _, -, -, takes, -⟩ := run.pinned idle frame hf
  exact takes.ne_dropped

/-- A dispatch that is open returns by a route that takes it. -/
theorem Moment.Settled.isDrop_returned {world : World} {tickets : Nat} {focus : Focus}
    {frame : Frame} {frames : List Frame}
    (h : Moment.Settled ⟨world, tickets, focus, frame :: frames⟩) :
    (Deed.returned frame.taken.ticket frame.taken.route).isDrop = false ∧
      (Answer.route frame.taken.route).isDrop = false := by
  have hne := h frame List.mem_cons_self
  cases hroute : frame.taken.route with
  | dropped => exact absurd hroute hne
  | delegated | intercepted => exact ⟨rfl, rfl⟩

/-- A step counts the drop that it is, if it is one. -/
theorem step_dropped {moment next : Moment} {deed : Option Deed} (settled : moment.Settled)
    (step : Step moment deed next) :
    next.world.registry.dropped =
      moment.world.registry.dropped + UInt64.ofNat (deed.toList.countP Deed.isDrop) := by
  have hnone : ∀ count : UInt64, count = count + UInt64.ofNat 0 := fun count => by simp
  cases step with
  | change asks =>
    rw [World.apply_dropped (World.change?_ne_drop asks), World.change?_registry _ asks]
    exact hnone _
  | drop => rfl
  | enter =>
    simp only [entering, World.note_registry, World.invoked_registry]
    exact hnone _
  | look | signal | note | ask | askBack | hear | call => exact hnone _
  | exit =>
    simp only [World.note_registry]
    exact hnone _
  | leave | leaveBack =>
    rw [Option.toList_some, List.countP_singleton, settled.isDrop_returned.1]
    exact hnone _

/-- After a step a dispatch has returned as dropped exactly if the step says so. -/
theorem step_isDrop {moment next : Moment} {deed : Option Deed} (settled : moment.Settled)
    (step : Step moment deed next) : next.focus.isDrop = deed.any Deed.isDrop := by
  cases step with
  | change => exact World.naming_isDrop _ _
  | look => exact World.look_isDrop _ _
  | drop | enter | signal | note | ask | askBack | hear | exit | call => rfl
  | leave | leaveBack =>
    rw [Option.any_some, settled.isDrop_returned.1]
    exact settled.isDrop_returned.2

/-- Who has asked for a dispatch observes that it was dropped, or is about to. -/
theorem step_drops {moment next : Moment} {deed : Option Deed} (settled : moment.Settled)
    (step : Step moment deed next) :
    next.world.drops + next.focus.isDrop.toNat =
      moment.world.drops + moment.focus.isDrop.toNat + deed.toList.countP Deed.isDrop := by
  have hfocus := step_isDrop settled step
  rw [hfocus]
  cases step with
  | @change _ _ _ _ _ _ asks => 
    show _ + 0 = _ + 0 + 0
    rw [World.drops, World.drops, ← World.change?_events asks]
    rfl
  | look | drop | signal | ask | askBack => rfl
  | hear => exact World.observe_drops _ _
  | note | call => exact World.observe_drops _ _
  | enter => 
    exact World.note_drops _ _ fun _ => rfl
  | exit => exact World.note_drops _ _ fun _ => rfl
  | leave | leaveBack => 
    rw [Option.any_some, Option.toList_some, List.countP_singleton, settled.isDrop_returned.1]
    rfl

/-! ## Runs -/

section
variable {start moment : Moment} {journal : Journal}

theorem Runs.dropped (run : Runs start journal moment) (idle : start.frames = []) :
    moment.world.registry.dropped =
      start.world.registry.dropped + UInt64.ofNat (journal.countP Deed.isDrop) := by
  induction run with
  | refl => simp
  | step run step ih =>
    rw [step_dropped (run.settled idle) step, ih, List.countP_append, UInt64.ofNat_add,
      UInt64.add_assoc]

theorem Runs.drops (run : Runs start journal moment) (idle : start.frames = []) :
    moment.world.drops + moment.focus.isDrop.toNat =
      start.world.drops + start.focus.isDrop.toNat + journal.countP Deed.isDrop := by
  induction run with
  | refl => simp
  | step run step ih =>
    rw [step_drops (run.settled idle) step, ih, List.countP_append, Nat.add_assoc]

end

/-- Where a run halts, every answer has been observed. -/
theorem Halted.isDrop_focus {stop : Stop} {moment : Moment} (h : Halted stop moment) :
    moment.focus.isDrop = false := by
  cases h <;> rfl

/-! ## Sessions -/

variable {world after : World} {operations : List Operation} {journal : Journal}

theorem Session.dropped (session : Session world operations journal after) :
    after.registry.dropped =
      world.registry.dropped + UInt64.ofNat (journal.countP Deed.isDrop) := by
  induction session with
  | start => simp
  | perform _ runs ih =>
    rw [runs.dropped rfl, ih, List.countP_append, UInt64.ofNat_add, UInt64.add_assoc]

theorem Session.faithful (session : Session world operations journal after)
    (h : world.registry.WellKeyed) : after.registry.Faithful := by
  rw [session.registry]
  exact Registry.faithful (Registry.wellKeyed_foldl_apply h _)

/-- The answers that tell of a drop. -/
def droppedAnswers (answers : List (Except Stop Answer)) : Nat :=
  (answers.filterMap Except.toOption).countP Answer.isDrop

theorem droppedAnswers_concat (answers : List (Except Stop Answer)) (answer : Except Stop Answer) :
    droppedAnswers (answers ++ [answer]) = droppedAnswers answers + droppedAnswers [answer] := by
  simp only [droppedAnswers, List.filterMap_append, List.countP_append]

/-- An operation from outside leaves a journal in which each drop has been answered or observed. -/
theorem perform_drops (world : World) (operation : Operation) :
    ∃ journal moment, Runs ⟨world, 0, .asked operation, []⟩ journal moment ∧
      moment.world = (world.perform operation).2 ∧
      moment.world.drops + droppedAnswers [(world.perform operation).1] =
        world.drops + journal.countP Deed.isDrop := by
  rcases houtcome : world.perform operation with ⟨stop | answer, after⟩
  · obtain ⟨journal, moment, hruns, rfl, hhalted⟩ := perform_halts depthLimit houtcome 0 []
    refine ⟨journal, moment, hruns, rfl, ?_⟩
    have hdrops := hruns.drops rfl
    rw [hhalted.isDrop_focus] at hdrops
    exact hdrops
  · obtain ⟨journal, tickets, hruns⟩ := perform_runs depthLimit houtcome 0 []
    refine ⟨journal, _, hruns, rfl, ?_⟩
    have hanswer : droppedAnswers [.ok answer] = answer.isDrop.toNat := by
      cases h : answer.isDrop <;> simp [droppedAnswers, Except.toOption, h]
    rw [hanswer]
    exact hruns.drops rfl

/-- Every drop of a session that comes to its end has been answered from outside or observed by the
delegate or the callback that asked for it. -/
theorem performAll_drops (world : World) (operations : List Operation) :
    ∃ journal, Session world operations journal (world.performAll operations) ∧
      (world.performAll operations).drops + droppedAnswers (world.answers operations) =
        world.drops + journal.countP Deed.isDrop := by
  induction operations using List.reverseRecOn with
  | nil => exact ⟨[], .start, rfl⟩
  | append_singleton operations operation ih =>
    obtain ⟨journal, session, hcount⟩ := ih
    obtain ⟨more, moment, hruns, hmoment, hmore⟩ :=
      perform_drops (world.performAll operations) operation
    have hperform : world.performAll (operations ++ [operation]) = moment.world := by
      rw [hmoment, World.performAll, List.foldl_concat, ← World.performAll]
    refine ⟨journal ++ more, hperform ▸ session.perform hruns, ?_⟩
    rw [hperform, World.answers_concat, droppedAnswers_concat, List.countP_append]
    omega

/-- In all that can become of an empty registry, whoever has worked on it, the count of drops is the
number of dispatches that have returned as dropped, in the arithmetic of 64 bits, and the observers
of its names agree. A step changes the count exactly if it is the end of such a dispatch. Whoever
performs operations from outside can tell the number from the answers and from what is observed. -/
theorem session_observed (world : World) (fresh : world.registry = Registry.empty) :
    (∀ operations journal after, Session world operations journal after →
      after.registry.dropped.toNat = journal.countP Deed.isDrop % 2 ^ 64 ∧
      after.registry.Faithful) ∧
    (∀ between operation journal moment deed next,
      Runs ⟨between, 0, .asked operation, []⟩ journal moment → Step moment deed next →
      next.focus.isDrop = deed.any Deed.isDrop ∧
      next.world.registry.dropped =
        moment.world.registry.dropped + if next.focus.isDrop then 1 else 0) ∧
    ∀ operations, ∃ journal, Session world operations journal (world.performAll operations) ∧
      (world.performAll operations).drops + droppedAnswers (world.answers operations) =
        world.drops + journal.countP Deed.isDrop := by
  refine ⟨fun operations journal after session => ⟨?_, ?_⟩, ?_, performAll_drops world⟩
  · rw [session.dropped, fresh]
    simp [Registry.empty]
  · exact session.faithful (fresh ▸ Registry.wellKeyed_empty)
  · intro between operation journal moment deed next run step
    have hfocus := step_isDrop (run.settled rfl) step
    refine ⟨hfocus, ?_⟩
    rw [step_dropped (run.settled rfl) step, hfocus]
    cases deed with
    | none => rfl
    | some deed => cases h : deed.isDrop <;> simp [h]

/-- A delegate asks for a name that nobody has, and then panics. The name is asked for from outside
as well. -/
def dropping : List Operation :=
  [.define "second" (.mk "failing" (some [.perform (.dispatch "nobody" none none none),
      .panic "lost"])),
    .define "first" (.mk "failing" none), .dispatch "second" none none none,
    .dispatch "nobody" none none none]

/-- Both drops are counted, and there are two names. -/
theorem dropping_observed :
    ∃ journal, Session World.empty dropping journal (World.empty.performAll dropping) ∧
      journal.countP Deed.isDrop = 2 ∧
      (World.empty.performAll dropping).registry.dropped.toNat = 2 ∧
      (World.empty.performAll dropping).registry.size = 2 ∧
      (World.empty.performAll dropping).registry.Faithful := by
  obtain ⟨hsessions, -, hperforms⟩ := session_observed World.empty rfl
  obtain ⟨journal, session, hcount⟩ := hperforms dropping
  obtain ⟨hdropped, hfaithful⟩ := hsessions _ _ _ session
  have hobserved : (World.empty.performAll dropping).drops = 1 := by decide +kernel
  have hanswered : droppedAnswers (World.empty.answers dropping) = 1 := by decide +kernel
  have hbefore : World.empty.drops = 0 := rfl
  have htwo : journal.countP Deed.isDrop = 2 := by omega
  rw [htwo] at hdropped
  exact ⟨journal, session, htwo, hdropped, rfl, hfaithful⟩

end Machine

end Bindery
