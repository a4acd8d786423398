import Bindery.Proofs.Dispatch.Simulation
/-!
# What a run looks at

A run looks at the registry and at the delegates that have been made, and never at what has been
observed before. `perform_unmindful`: in worlds that differ in their past only, an operation has the
same answer, the same is observed, and the worlds afterwards again differ in their past only.
-/

namespace Bindery

namespace World

/-! ## The past -/

/-- Something has been observed before all else. -/
def since (world : World) (past : List Event) : World :=
  { world with events := past ++ world.events }

/-- Nothing has been observed yet. -/
def fresh (world : World) : World :=
  { world with events := [] }

theorem fresh_since (world : World) : world.fresh.since world.events = world := by
  rw [since, fresh, List.append_nil]

variable (world : World) (past : List Event)

theorem observe_since (event : Event) :
    (world.since past).observe event = (world.observe event).since past := by
  simp only [observe, since, List.append_assoc]

theorem note_since (delegate : Delegate) (event : String → Event) :
    (world.since past).note delegate event = (world.note delegate event).since past := by
  unfold note
  split
  · exact observe_since _ _ _
  · rfl

/-! ## What is made for a change

What is made depends on the delegates that there are, and nothing else becomes of the world. -/

theorem meant_uniform (name : DelegateName) :
    ∃ f : List Delegate → List Delegate × DelegateId, ∀ world : World,
      world.meant name = ({ world with made := (f world.made).1 }, (f world.made).2) := by
  refine ⟨fun made =>
    let after := World.meant ⟨Registry.empty, made, []⟩ name
    (after.1.made, after.2), fun world => ?_⟩
  obtain ⟨name, _ | script⟩ := name
  · have hlatest : latest? ⟨Registry.empty, world.made, []⟩ name = world.latest? name := rfl
    simp only [meant, hlatest]
    split <;> rfl
  · rfl

theorem makeAll_uniform (scripts : List (String × List Action)) :
    ∃ f : List Delegate → List Delegate × List (String × DelegateId), ∀ world : World,
      world.makeAll scripts = ({ world with made := (f world.made).1 }, (f world.made).2) := by
  induction scripts with
  | nil => exact ⟨fun made => (made, []), fun _ => rfl⟩
  | cons script rest ih =>
    obtain ⟨f, hf⟩ := ih
    refine ⟨fun made =>
      let (others, ids) := f (made ++ [.new none script.2])
      (others, (script.1, made.length) :: ids), fun world => ?_⟩
    simp only [makeAll, make, hf]

theorem makeBindings_uniform (bindings : Bindings (List Action)) :
    ∃ f : List Delegate → List Delegate × Bindings DelegateId, ∀ world : World,
      world.makeBindings bindings =
        ({ world with made := (f world.made).1 }, (f world.made).2) := by
  obtain ⟨providers, interceptor⟩ := bindings
  obtain ⟨f, hf⟩ := makeAll_uniform (providers.getD [])
  -- What the providers come to, and whether an interceptor is made after them.
  refine ⟨fun made =>
    let provided := providers.elim made fun _ => (f made).1
    let ids := providers.map fun _ => (f made).2
    interceptor.elim (provided, ⟨ids, none⟩) fun script =>
      (provided ++ [.new none script], ⟨ids, some provided.length⟩), fun world => ?_⟩
  cases providers with
  | none => cases interceptor <;> rfl
  | some scripts =>
    rw [Option.getD_some] at hf
    cases interceptor <;> simp [makeBindings, make, hf]

theorem change?_uniform (operation : Operation) :
    ∃ f : List Delegate → Option (List Delegate × Change DelegateId), ∀ world : World,
      world.change? operation =
        (f world.made).map fun (made, change) => ({ world with made }, change) := by
  cases operation with
  | define name delegate =>
    obtain ⟨f, hf⟩ := meant_uniform delegate
    exact ⟨fun made => some ((f made).1, .define name (f made).2), fun world => by
      simp only [change?, hf, Option.map_some]⟩
  | setInterceptor delegate =>
    obtain ⟨f, hf⟩ := meant_uniform delegate
    exact ⟨fun made => some ((f made).1, .setInterceptor (f made).2), fun world => by
      simp only [change?, hf, Option.map_some]⟩
  | install bindings =>
    obtain ⟨f, hf⟩ := makeBindings_uniform bindings
    exact ⟨fun made => some ((f made).1, .install (f made).2), fun world => by
      simp only [change?, hf, Option.map_some]⟩
  | remove name => exact ⟨fun made => some (made, .remove name), fun _ => rfl⟩
  | clearInterceptor => exact ⟨fun made => some (made, .clearInterceptor), fun _ => rfl⟩
  | get | contains | interceptor | view | list | listFunction | dispatch =>
    exact ⟨fun _ => none, fun _ => rfl⟩

/-- Nothing is observed while the delegates of a change are made. -/
theorem change?_events {world made : World} {operation : Operation} {change : Change DelegateId}
    (h : world.change? operation = some (made, change)) : made.events = world.events := by
  obtain ⟨f, hf⟩ := change?_uniform operation
  rw [hf, Option.map_eq_some_iff] at h
  obtain ⟨_, -, heq⟩ := h
  rw [← (Prod.mk.inj heq).1]

theorem serve_since (operation : Operation) :
    (world.since past).serve operation =
      ((world.serve operation).1, (world.serve operation).2.since past) := by
  obtain ⟨f, hf⟩ := change?_uniform operation
  have hlook : (world.since past).look operation = world.look operation := by
    cases operation <;> rfl
  rw [serve, serve, hf, hf, hlook, show (world.since past).made = world.made from rfl]
  cases f world.made <;> rfl

end World

namespace Run

/-! ## Runs -/

/-- A run does not look at the past. -/
def Unmindful {α : Type} (run : Run α) : Prop :=
  ∀ world past, run.outcome (world.since past) =
    ((run.outcome world).1, (run.outcome world).2.since past)

section
variable {α β : Type}

theorem unmindful_pure (value : α) : Unmindful (pure value) := fun _ _ => rfl

theorem unmindful_throw (stop : Stop) : Unmindful (throw stop : Run α) := fun _ _ => rfl

theorem unmindful_modify {f : World → World}
    (h : ∀ world past, f (world.since past) = (f world).since past) : Unmindful (modify f) :=
  fun world past => congrArg (Except.ok PUnit.unit, ·) (h world past)

theorem unmindful_bind {run : Run α} {next : α → Run β} (h : Unmindful run)
    (hnext : ∀ value, Unmindful (next value)) : Unmindful (run >>= next) := by
  intro world past
  rw [outcome_bind, outcome_bind, h]
  rcases run.outcome world with ⟨_ | value, between⟩
  · rfl
  · exact hnext value between past

/-- A look at the world may go on by its registry and its delegates. -/
theorem unmindful_get_bind {next : World → Run β}
    (h : ∀ world past, next (World.since world past) = next world)
    (hnext : ∀ world, Unmindful (next world)) : Unmindful (get >>= next) := by
  intro world past
  rw [outcome_bind, outcome_bind, outcome_get, outcome_get]
  simp only [h]
  exact hnext world world past

end

section
variable {perform : Operation → Run Answer}

theorem unmindful_observe (event : Event) : Unmindful (observe event) :=
  unmindful_modify fun world past => world.observe_since past event

theorem unmindful_performObserved (h : ∀ operation, Unmindful (perform operation))
    (operation : Operation) : Unmindful (performObserved perform operation) :=
  unmindful_bind (h operation) fun answer => unmindful_observe (.answered answer)

theorem unmindful_act (h : ∀ operation, Unmindful (perform operation)) (invocation : Invocation)
    (handler : Option Handler) (action : Action) :
    Unmindful (act perform invocation handler action) := by
  cases action with
  | signal reply =>
    simp only [act]
    split
    · exact unmindful_pure _
    · exact unmindful_throw _
  | noteSignaled => exact unmindful_bind (unmindful_observe _) fun _ => unmindful_pure _
  | panic text => exact unmindful_throw _
  | perform operation =>
    exact unmindful_bind (unmindful_performObserved h operation) fun _ => unmindful_pure _

theorem unmindful_script (h : ∀ operation, Unmindful (perform operation)) (invocation : Invocation)
    (script : List Action) (handler : Option Handler) :
    Unmindful (script.foldlM (act perform invocation) handler) := by
  induction script generalizing handler with
  | nil => exact unmindful_pure _
  | cons action rest ih =>
    rw [List.foldlM_cons]
    exact unmindful_bind (unmindful_act h invocation handler action) ih

theorem unmindful_complete (h : ∀ operation, Unmindful (perform operation))
    (callback : List Operation) (handler : Handler) :
    Unmindful (complete perform callback handler) := by
  refine unmindful_bind (unmindful_observe _) fun _ => ?_
  induction callback with
  | nil => exact unmindful_pure _
  | cons operation rest ih =>
    exact unmindful_bind (unmindful_performObserved h operation) fun _ => ih

theorem unmindful_invoke (h : ∀ operation, Unmindful (perform operation)) (id : DelegateId)
    (call : Call) (handler : Option Handler) : Unmindful (invoke perform id call handler) := by
  refine unmindful_bind (unmindful_modify fun _ _ => rfl) fun _ => ?_
  refine unmindful_get_bind (fun _ _ => rfl) fun world => ?_
  refine unmindful_bind (unmindful_modify fun world past => world.note_since past _ _) fun _ => ?_
  refine unmindful_bind (unmindful_script h _ _ _) fun handler => ?_
  refine unmindful_bind (unmindful_modify fun world past => world.note_since past _ _) fun _ => ?_
  exact unmindful_pure handler

theorem unmindful_dispatch (h : ∀ operation, Unmindful (perform operation)) (call : Call) :
    Unmindful (dispatch perform call) := by
  refine unmindful_get_bind (fun _ _ => rfl) fun world => ?_
  cases world.registry.resolve? call.method with
  | none => exact unmindful_bind (unmindful_modify fun _ _ => rfl) fun _ => unmindful_pure _
  | some found =>
    refine unmindful_bind (unmindful_invoke h _ call _) fun handler => ?_
    dsimp only
    split
    · exact unmindful_bind (unmindful_complete h _ _) fun _ => unmindful_pure _
    · exact unmindful_pure _

end

theorem unmindful_serve (operation : Operation) :
    Unmindful (modifyGet fun world => world.serve operation) := by
  intro world past
  rw [outcome_modifyGet, outcome_modifyGet, World.serve_since]

theorem perform_unmindful (depth : Nat) (operation : Operation) :
    Unmindful (perform depth operation) := by
  -- What a script or a callback asks for is performed with one level less.
  induction depth generalizing operation with
  | zero =>
    cases hcall : operation.call? with
    | none =>
      rw [perform, hcall]
      exact unmindful_serve operation
    | some call =>
      rw [perform, hcall]
      exact unmindful_throw _
  | succ depth ih =>
    cases hcall : operation.call? with
    | none =>
      rw [perform, hcall]
      exact unmindful_serve operation
    | some call =>
      rw [perform, hcall]
      exact unmindful_bind (unmindful_dispatch ih call) fun _ => unmindful_pure _

end Run

namespace World

/-! ## Worlds that differ in their past -/

/-- Two worlds have the same registry and the same delegates. -/
structure Alike (first second : World) : Prop where
  registry : first.registry = second.registry
  made : first.made = second.made

theorem Alike.fresh {first second : World} (alike : first.Alike second) :
    first.fresh = second.fresh := by
  obtain ⟨registry, made⟩ := alike
  simp only [World.fresh, registry, made]

theorem perform_eq (world : World) (operation : Operation) :
    world.perform operation = ((world.fresh.perform operation).1,
      (world.fresh.perform operation).2.since world.events) := by
  have h := Run.perform_unmindful depthLimit operation world.fresh world.events
  rwa [fresh_since] at h

/-- An operation has the same answer and leaves the same behind, whatever the past has been. -/
theorem Alike.perform {first second : World} (alike : first.Alike second)
    (operation : Operation) :
    ∃ answer after, first.perform operation = (answer, World.since after first.events) ∧
      second.perform operation = (answer, World.since after second.events) :=
  ⟨_, _, perform_eq first operation, alike.fresh ▸ perform_eq second operation⟩

end World

end Bindery
