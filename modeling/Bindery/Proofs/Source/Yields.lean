import Bindery.Source.Grammar
/-!
# What grammars yield

`Yields grammar property`: if the grammar succeeds, its value has the property, whatever the trees
are. Where nothing has to be known of a part, `Yields.after` passes over it.
-/

namespace Bindery.Source.Grammar

theorem run_bind_of_ok {α β : Type} {grammar : Grammar β} {next : β → Grammar α}
    {stream between : Stream} {found : β} (h : grammar.run stream = .ok (found, between)) :
    (grammar >>= next).run stream = (next found).run between := by
  rw [StateT.run_bind, h]
  rfl

/-- Grammars that succeed one after the other. -/
theorem exists_of_run_bind {α β : Type} {grammar : Grammar β} {next : β → Grammar α}
    {stream after : Stream} {value : α}
    (h : (grammar >>= next).run stream = .ok (value, after)) :
    ∃ found between, grammar.run stream = .ok (found, between) ∧
      (next found).run between = .ok (value, after) := by
  cases hfirst : grammar.run stream with
  | error fault =>
    rw [StateT.run_bind, hfirst] at h
    cases h
  | ok result =>
    obtain ⟨found, between⟩ := result
    exact ⟨found, between, rfl, (run_bind_of_ok hfirst).symm.trans h⟩

/-- Whatever a grammar yields has a property. -/
def Yields {α : Type} (grammar : Grammar α) (property : α → Prop) : Prop :=
  ∀ stream value after, grammar.run stream = .ok (value, after) → property value

namespace Yields

variable {α β : Type} {property : α → Prop}

theorem pure {value : α} (h : property value) : Yields (pure value) property := by
  intro stream found after hrun
  cases hrun
  exact h

theorem throw (fault : Fault) : Yields (throw fault) property := by
  intro stream found after hrun
  cases hrun

theorem throw_bind (fault : Fault) (next : β → Grammar α) :
    Yields (MonadExcept.throw fault >>= next) property := by
  intro stream found after hrun
  cases hrun

theorem bind {grammar : Grammar β} {next : β → Grammar α} {middle : β → Prop}
    (first : Yields grammar middle)
    (second : ∀ value, middle value → Yields (next value) property) :
    Yields (grammar >>= next) property := by
  intro stream value after hrun
  obtain ⟨found, between, hfirst, hsecond⟩ := exists_of_run_bind hrun
  exact second found (first stream found between hfirst) between value after hsecond

/-- Where nothing has to be known of what comes first. -/
theorem after {grammar : Grammar β} {next : β → Grammar α}
    (second : ∀ value, Yields (next value) property) : Yields (grammar >>= next) property := by
  have first : Yields grammar fun _ => True := fun _ _ _ _ => trivial
  exact first.bind fun value _ => second value

theorem ite {condition : Prop} [Decidable condition] {first second : Grammar α}
    (hfirst : Yields first property) (hsecond : Yields second property) :
    Yields (if condition then first else second) property := by
  split
  · exact hfirst
  · exact hsecond

/-- Where the condition tells something of the branch. -/
theorem dite {condition : Prop} [Decidable condition] {first second : Grammar α}
    (hfirst : condition → Yields first property) (hsecond : ¬condition → Yields second property) :
    Yields (if condition then first else second) property := by
  split
  · next h => exact hfirst h
  · next h => exact hsecond h

/-- Where both branches go on in the same way. -/
theorem join {condition : Prop} [Decidable condition] {before : Grammar Unit}
    {next : Unit → Grammar α} (h : ∀ value, Yields (next value) property) :
    Yields (if condition then before >>= next else next ()) property :=
  .ite (.after h) (h ())

/-- Where nothing comes next. -/
theorem none {next : α → Prop} :
    Yields (Pure.pure Option.none) fun found => ∀ value ∈ found, next value :=
  .pure fun _ h => nomatch h

/-- Where something comes next. -/
theorem some {next : α → Prop} {value : α} (h : next value) :
    Yields (Pure.pure (Option.some value)) fun found => ∀ value ∈ found, next value := by
  refine .pure fun found hfound => ?_
  obtain rfl := Option.some.inj hfound
  exact h

theorem imp {other : α → Prop} {grammar : Grammar α} (h : Yields grammar property)
    (himp : ∀ value, property value → other value) : Yields grammar other :=
  fun stream value after hrun => himp value (h stream value after hrun)

end Yields

theorem yields_expected {α : Type} (property : α → Prop) (what : String) :
    Yields (expected what) property :=
  .after fun _ => .throw _

theorem yields_whole {α : Type} {property : α → Prop} {grammar : Grammar α}
    (h : Yields grammar property) {enclosing : Option Delimiter} {trees : Trees} {value : α}
    {pieces : List Piece} (hwhole : whole enclosing grammar trees = .ok (value, pieces)) :
    property value := by
  unfold whole at hwhole
  cases hrun : grammar.run ⟨trees, []⟩ with
  | error fault =>
    rw [hrun] at hwhole
    cases hwhole
  | ok result =>
    rw [hrun] at hwhole
    obtain ⟨found, after⟩ := result
    have hfound := h _ _ _ hrun
    simp only [bind, Except.bind] at hwhole
    split at hwhole
    · obtain ⟨rfl, -⟩ := Prod.mk.inj (Except.ok.inj hwhole)
      exact hfound
    · cases hwhole

theorem yields_within {α : Type} {property : α → Prop} {grammar : Grammar α}
    (delimiter : Delimiter) (h : Yields grammar property) :
    Yields (within delimiter grammar) property := by
  unfold within
  refine .after fun trees => ?_
  split
  · next found body rest =>
    refine .ite ?_ (yields_expected _ _)
    have hinside : Yields (liftM (whole (some delimiter) grammar body) : Grammar (α × List Piece))
        fun result => property result.1 := by
      intro stream result after hrun
      cases hwhole : whole (some delimiter) grammar body with
      | error fault =>
        rw [hwhole] at hrun
        cases hrun
      | ok inside =>
        rw [hwhole] at hrun
        cases hrun
        exact yields_whole h hwhole
    exact hinside.bind fun result hresult => .after fun _ => .pure hresult
  · exact yields_expected _ _

theorem yields_iterate {σ : Type} {property : σ → Prop} {step : σ → Grammar (Option σ)}
    (h : ∀ state, property state → Yields (step state) fun next => ∀ found ∈ next, property found)
    (fuel : Nat) {state : σ} (hstate : property state) :
    Yields (iterate step fuel state) property := by
  induction fuel generalizing state with
  | zero => exact .throw _
  | succ fuel ih =>
    refine (h state hstate).bind fun next hnext => ?_
    cases next with
    | none => exact .pure hstate
    | some next => exact ih (hnext next rfl)

theorem yields_loop {σ : Type} {property : σ → Prop} {start : σ} {step : σ → Grammar (Option σ)}
    (h : ∀ state, property state → Yields (step state) fun next => ∀ found ∈ next, property found)
    (hstart : property start) : Yields (loop start step) property :=
  .after fun _ => yields_iterate h _ hstart

theorem yields_many {α : Type} {property : α → Prop} {step : Grammar (Option α)}
    (h : Yields step fun value => ∀ found ∈ value, property found) :
    Yields (many step) fun values => ∀ value ∈ values, property value := by
  have hloop : Yields (loop [] fun values => do return (← step).map (· :: values))
      fun values => ∀ value ∈ values, property value := by
    refine yields_loop (fun values hvalues => ?_) (fun _ h => nomatch h)
    refine h.bind fun value hvalue => ?_
    cases value with
    | none => exact .none
    | some value => exact .some (List.forall_mem_cons.2 ⟨hvalue value rfl, hvalues⟩)
  refine hloop.bind fun values hvalues => .pure ?_
  exact fun value hvalue => hvalues value (List.mem_reverse.1 hvalue)

theorem yields_untilEnd {α : Type} {property : α → Prop} {item : Grammar α}
    (h : Yields item property) :
    Yields (many do if (← look).isEmpty then return none else return some (← item))
      fun values => ∀ value ∈ values, property value := by
  exact yields_many (.after fun _ => .ite .none (h.bind fun value hvalue => .some hvalue))

/-! ## What is recorded and spanned -/

theorem yields_recording {α : Type} {property : α → Prop} {grammar : Grammar α}
    (h : Yields grammar property) : Yields (recording grammar) fun result => property result.1 := by
  unfold recording
  refine .after fun _ => .after fun _ => h.bind fun value hvalue => ?_
  exact .after fun _ => .after fun _ => .pure hvalue

/-- Whatever stream a grammar leaves has a property. -/
def Leaves {α : Type} (grammar : Grammar α) (property : Stream → Prop) : Prop :=
  ∀ stream value after, grammar.run stream = .ok (value, after) → property after

namespace Leaves

variable {α β : Type} {property : Stream → Prop}

theorem after {grammar : Grammar β} {next : β → Grammar α}
    (h : ∀ value, Leaves (next value) property) : Leaves (grammar >>= next) property := by
  intro stream value after hrun
  obtain ⟨found, between, -, hnext⟩ := exists_of_run_bind hrun
  exact h found between value after hnext

theorem ite {condition : Prop} [Decidable condition] {first second : Grammar α}
    (hfirst : Leaves first property) (hsecond : Leaves second property) :
    Leaves (if condition then first else second) property := by
  split
  · exact hfirst
  · exact hsecond

end Leaves

/-- What a grammar leaves recorded is among its pieces. -/
theorem recording_of_leaves {α : Type} {property : List Piece → Prop} {grammar : Grammar α}
    (h : Leaves grammar fun stream => property stream.taken.reverse) :
    Yields (recording grammar) fun result => property result.2 := by
  intro stream result after hrun
  obtain ⟨_, _, hget, hrun⟩ := exists_of_run_bind hrun
  obtain ⟨_, _, hclear, hrun⟩ := exists_of_run_bind hrun
  obtain ⟨value, between, hgrammar, hrun⟩ := exists_of_run_bind hrun
  cases hrun
  exact h _ _ _ hgrammar

/-- The trees that are spanned stand at the front of the stream. -/
theorem exists_of_spanning {α : Type} {grammar : Grammar α} {stream after : Stream} {value : α}
    {trees : Trees} (h : (spanning grammar).run stream = .ok ((value, trees), after)) :
    ∃ count between, trees = stream.rest.take count ∧
      grammar.run ⟨stream.rest, []⟩ = .ok (value, between) := by
  obtain ⟨front, _, hlook, h⟩ := exists_of_run_bind h
  cases hlook
  obtain ⟨recorded, between, hrecording, h⟩ := exists_of_run_bind h
  cases h
  obtain ⟨_, _, hget, hrecording⟩ := exists_of_run_bind hrecording
  cases hget
  obtain ⟨_, _, hclear, hrecording⟩ := exists_of_run_bind hrecording
  cases hclear
  obtain ⟨found, inside, hgrammar, hrecording⟩ := exists_of_run_bind hrecording
  cases hrecording
  exact ⟨_, inside, rfl, hgrammar⟩

theorem yields_spanning {α : Type} {property : α → Prop} {grammar : Grammar α}
    (h : Yields grammar property) : Yields (spanning grammar) fun result => property result.1 := by
  intro stream result after hrun
  obtain ⟨_, between, -, hgrammar⟩ := exists_of_spanning hrun
  exact h _ _ _ hgrammar

/-! ## Keywords -/

theorem exists_of_word {name : String} {trees : Trees} (h : Ahead.word name trees = true) :
    ∃ line rest, trees = .leaf ⟨.ident name, line⟩ :: rest := by
  unfold Ahead.word at h
  split at h
  · next found line rest =>
    obtain rfl : found = name := by simpa using h
    exact ⟨line, rest, rfl⟩
  · cases h

/-- Where a keyword is taken it stands ahead, and it is recorded. -/
theorem exists_of_keyword {name : String} {stream after : Stream}
    (h : (keyword name).run stream = .ok ((), after)) :
    (∃ line rest, stream.rest = .leaf ⟨.ident name, line⟩ :: rest) ∧
      ∃ before, after.taken = .token (.ident name) :: before := by
  unfold keyword at h
  obtain ⟨found, _, hahead, h⟩ := exists_of_run_bind h
  cases hahead
  split at h
  · next hword =>
    obtain ⟨line, rest, hrest⟩ := exists_of_word hword
    obtain ⟨word, between, hident, h⟩ := exists_of_run_bind h
    cases h
    refine ⟨⟨line, rest, hrest⟩, ?_⟩
    unfold anyIdent at hident
    obtain ⟨_, _, hlook, hident⟩ := exists_of_run_bind hident
    cases hlook
    rw [hrest] at hident
    dsimp only at hident
    split at hident
    · obtain ⟨_, _, hadvance, hident⟩ := exists_of_run_bind hident
      cases hadvance
      cases hident
      exact ⟨_, rfl⟩
    · cases hident
  · cases h

/-! ## What is yielded at a stream -/

/-- Whatever a grammar yields at a stream has a property. -/
def YieldsAt {α : Type} (stream : Stream) (grammar : Grammar α) (property : α → Prop) : Prop :=
  ∀ value after, grammar.run stream = .ok (value, after) → property value

theorem Yields.at {α : Type} {grammar : Grammar α} {property : α → Prop}
    (h : Yields grammar property) (stream : Stream) : YieldsAt stream grammar property :=
  fun value after hrun => h stream value after hrun

theorem YieldsAt.bind {α β : Type} {grammar : Grammar β} {next : β → Grammar α}
    {property : α → Prop} {stream between : Stream} {found : β}
    (first : grammar.run stream = .ok (found, between))
    (second : YieldsAt between (next found) property) :
    YieldsAt stream (grammar >>= next) property := by
  intro value after hrun
  rw [run_bind_of_ok first] at hrun
  exact second value after hrun

theorem YieldsAt.ite {α : Type} {first second : Grammar α} {property : α → Prop} {stream : Stream}
    {condition : Prop} [Decidable condition] (hfirst : YieldsAt stream first property)
    (hsecond : YieldsAt stream second property) :
    YieldsAt stream (if condition then first else second) property := by
  split
  · exact hfirst
  · exact hsecond

/-- Where the value that is taken first tells something of what follows. -/
theorem YieldsAt.bindYields {α β : Type} {grammar : Grammar β} {next : β → Grammar α}
    {middle : β → Prop} {property : α → Prop} {stream : Stream}
    (first : YieldsAt stream grammar middle)
    (second : ∀ value, middle value → Yields (next value) property) :
    YieldsAt stream (grammar >>= next) property := by
  intro value after hrun
  obtain ⟨found, between, hfirst, hsecond⟩ := exists_of_run_bind hrun
  exact second found (first found between hfirst) between value after hsecond

/-- Where what stands ahead tells something of the branch. -/
theorem Yields.ahead {α : Type} {p : Trees → Bool} {next : Bool → Grammar α} {property : α → Prop}
    (h : ∀ stream, YieldsAt stream (next (p stream.rest)) property) :
    Yields (Grammar.ahead p >>= next) property := by
  intro stream value after hrun
  have hahead : (Grammar.ahead p).run stream = .ok (p stream.rest, stream) := rfl
  rw [run_bind_of_ok hahead] at hrun
  exact h stream value after hrun

/-! ## Words -/

/-- A word that is taken stands ahead. -/
theorem yieldsAt_anyIdent {words : List String} {stream : Stream}
    (h : Ahead.anyWord words stream.rest = true) :
    YieldsAt stream anyIdent fun name => name.text ∈ words := by
  obtain ⟨word, hmem, hword⟩ := List.any_eq_true.1 h
  obtain ⟨line, rest, hrest⟩ := exists_of_word hword
  intro name after hrun
  unfold anyIdent at hrun
  obtain ⟨_, _, hlook, hrun⟩ := exists_of_run_bind hrun
  cases hlook
  rw [hrest] at hrun
  dsimp only at hrun
  split at hrun
  · obtain ⟨_, _, hadvance, hrun⟩ := exists_of_run_bind hrun
    cases hadvance
    cases hrun
    exact hmem
  · cases hrun

/-- An identifier is no keyword. -/
theorem yields_ident : Yields ident fun name => name.text ∉ Ahead.keywords := by
  intro stream name after hrun
  unfold ident at hrun
  obtain ⟨_, _, hlook, hrun⟩ := exists_of_run_bind hrun
  cases hlook
  split at hrun
  · next text line rest hrest =>
    split at hrun
    · cases hrun
    · next hkeyword =>
      have hword : Ahead.anyWord [text] stream.rest = true := by
        rw [hrest]
        simp [Ahead.anyWord, Ahead.word]
      have htext := yieldsAt_anyIdent hword name after hrun
      obtain rfl := List.mem_singleton.1 htext
      simpa using hkeyword
  · cases hrun

end Bindery.Source.Grammar
