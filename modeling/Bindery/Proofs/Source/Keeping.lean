import Bindery.Proofs.Source.Type.Fitting
import Bindery.Proofs.Source.Yields
/-!
# Grammars keep to what they are given

A grammar puts nothing into what it reads but marks and words of its own. Where all that stands
ahead fits, and all that was taken, it does so afterwards as well, and what is read has a property
(`Keeps`). For grammars whose values need not be looked at, this is found by going through what they
consist of (`Sound`).
-/

namespace Bindery.Source

open Token (FitsList isIdent fitsList_nil fitsList_append fitsList_leaf fitsList_group)

section
variable (literal : String → Prop)

/-- Whether all that stands ahead fits, and all that was taken. -/
structure Stream.Fits (stream : Stream) : Prop where
  rest : FitsList literal stream.rest.tokens
  taken : FitsCode literal stream.taken

namespace Grammar

/-- From what fits, a grammar comes to what fits, and yields a value with a property. -/
def Keeps {α : Type} (grammar : Grammar α) (property : α → Prop) : Prop :=
  ∀ stream value after, stream.Fits literal → grammar.run stream = .ok (value, after) →
    property value ∧ after.Fits literal

/-- A grammar that comes from what fits to what fits, whatever its value is. -/
class Sound {α : Type} (grammar : Grammar α) : Prop where
  keeps : Keeps literal grammar fun _ => True

end Grammar

end

variable {literal : String → Prop}

/-! ## Code that was taken -/

theorem fitsCode_append {first second : List Piece} :
    FitsCode literal (first ++ second) ↔ FitsCode literal first ∧ FitsCode literal second := by
  induction first with
  | nil => exact (and_iff_right trivial).symm
  | cons piece rest ih =>
    obtain token | ⟨delimiter, body⟩ | type | ⟨owner, path, style⟩ | ⟨colons, args, trailing⟩ |
      bound := piece <;>
    · rw [List.cons_append, FitsCode, FitsCode, ih]
      exact and_assoc.symm

theorem fitsCode_reverse {code : List Piece} :
    FitsCode literal code.reverse ↔ FitsCode literal code := by
  induction code with
  | nil => rfl
  | cons piece rest ih =>
    rw [List.reverse_cons, fitsCode_append, ih, and_comm, ← fitsCode_append, List.singleton_append]

namespace Grammar

variable {α β : Type} {property : α → Prop}

namespace Keeps

theorem pure {value : α} (h : property value) : Keeps literal (pure value) property := by
  intro stream found after fits hrun
  cases hrun
  exact ⟨h, fits⟩

theorem throw (fault : Fault) : Keeps literal (throw fault) property := by
  intro stream found after fits hrun
  cases hrun

theorem throw_bind (fault : Fault) (next : β → Grammar α) :
    Keeps literal (MonadExcept.throw fault >>= next) property := by
  intro stream found after fits hrun
  cases hrun

theorem bind {grammar : Grammar β} {next : β → Grammar α} {middle : β → Prop}
    (first : Keeps literal grammar middle)
    (second : ∀ value, middle value → Keeps literal (next value) property) :
    Keeps literal (grammar >>= next) property := by
  intro stream value after fits hrun
  obtain ⟨found, between, hfirst, hsecond⟩ := exists_of_run_bind hrun
  obtain ⟨hfound, hbetween⟩ := first stream found between fits hfirst
  exact second found hfound between value after hbetween hsecond

/-- Where nothing has to be known of what comes first. -/
theorem after {grammar : Grammar β} {next : β → Grammar α} [first : Sound literal grammar]
    (second : ∀ value, Keeps literal (next value) property) :
    Keeps literal (grammar >>= next) property :=
  first.keeps.bind fun value _ => second value

theorem ite {condition : Prop} [Decidable condition] {first second : Grammar α}
    (hfirst : Keeps literal first property) (hsecond : Keeps literal second property) :
    Keeps literal (if condition then first else second) property := by
  split
  · exact hfirst
  · exact hsecond

/-- Where both branches go on in the same way. -/
theorem join {condition : Prop} [Decidable condition] {before : Grammar β} {next : Unit → Grammar α}
    [Sound literal before] (h : ∀ value, Keeps literal (next value) property) :
    Keeps literal (if condition then before >>= fun _ => next () else next ()) property :=
  .ite (.after fun _ => h ()) (h ())

/-- Where nothing comes next. -/
theorem none {next : α → Prop} :
    Keeps literal (Pure.pure Option.none) fun found => ∀ value ∈ found, next value :=
  .pure fun _ h => nomatch h

/-- Where something comes next. -/
theorem some {next : α → Prop} {value : α} (h : next value) :
    Keeps literal (Pure.pure (Option.some value)) fun found => ∀ value ∈ found, next value := by
  refine .pure fun found hfound => ?_
  obtain rfl := Option.some.inj hfound
  exact h

theorem imp {other : α → Prop} {grammar : Grammar α} (h : Keeps literal grammar property)
    (himp : ∀ value, property value → other value) : Keeps literal grammar other :=
  fun stream value after fits hrun => (h stream value after fits hrun).imp_left (himp value)

theorem sound {grammar : Grammar α} (h : Keeps literal grammar property) : Sound literal grammar :=
  ⟨h.imp fun _ _ => trivial⟩

end Keeps

namespace Sound

instance pure (value : α) : Sound literal (pure value) := ⟨.pure trivial⟩

instance throw (fault : Fault) : Sound (α := α) literal (throw fault) := ⟨.throw fault⟩

instance bind (grammar : Grammar β) (next : β → Grammar α) [first : Sound literal grammar]
    [second : ∀ value, Sound literal (next value)] : Sound literal (grammar >>= next) :=
  ⟨.after fun value => (second value).keeps⟩

instance map (form : β → α) (grammar : Grammar β) [Sound literal grammar] :
    Sound literal (form <$> grammar) := by
  rw [map_eq_pure_bind]
  infer_instance

instance ite (condition : Prop) [Decidable condition] (first second : Grammar α)
    [hfirst : Sound literal first] [hsecond : Sound literal second] :
    Sound literal (if condition then first else second) :=
  ⟨.ite hfirst.keeps hsecond.keeps⟩

end Sound

/-! ## Looking and taking -/

/-- What looks at the trees ahead takes nothing. -/
theorem keeps_look : Keeps literal look fun trees => FitsList literal trees.tokens := by
  intro stream trees after fits hrun
  cases hrun
  exact ⟨fits.rest, fits⟩

instance sound_look : Sound literal look := keeps_look.sound

instance sound_ahead (p : Trees → Bool) : Sound literal (ahead p) := by
  refine ⟨fun stream value after fits hrun => ?_⟩
  cases hrun
  exact ⟨trivial, fits⟩

theorem keeps_expected (what : String) : Keeps literal (expected what) property := by
  intro stream value after fits hrun
  cases hrun

theorem keeps_expected_bind (what : String) (next : β → Grammar α) :
    Keeps literal (expected what >>= next) property := by
  intro stream value after fits hrun
  cases hrun

instance sound_expected (what : String) : Sound (α := α) literal (expected what) :=
  ⟨keeps_expected what⟩

theorem keeps_advance {rest : Trees} {pieces : List Piece} (hrest : FitsList literal rest.tokens)
    (hpieces : FitsCode literal pieces) : Keeps literal (advance rest pieces) fun _ => True := by
  intro stream value after fits hrun
  cases hrun
  exact ⟨trivial, hrest, fitsCode_append.2 ⟨hpieces, fits.taken⟩⟩

/-- What is left of trees that fit does so as well. -/
theorem fits_of_sublist {first second : Trees} (h : first.Sublist second)
    (fits : FitsList literal second.tokens) : FitsList literal first.tokens := by
  unfold FitsList Trees.tokens at fits ⊢
  rw [TokenTree.leavesList_mapList] at fits ⊢
  intro token htoken
  exact fits token ((TokenTree.leavesList_sublist h).map _ |>.subset htoken)

/-- The characters of an operator that stands ahead are punctuation characters. -/
theorem mem_punctuation_of_op {text : String} {trees : Trees} (h : Ahead.op text trees = true)
    (fits : FitsList literal trees.tokens) : ∀ c ∈ text.toList, c ∈ Token.punctuation := by
  unfold Ahead.op at h
  generalize text.toList = cs at h
  induction cs generalizing trees with
  | nil => exact List.forall_mem_nil _
  | cons c more ih =>
    unfold Ahead.opChars at h
    split at h
    · next c' d joint line rest hcs =>
      obtain ⟨rfl, rfl⟩ := List.cons.inj hcs
      have hd : d ∈ Token.punctuation := (fitsList_leaf.1 fits).1
      simp only [Bool.and_eq_true, beq_iff_eq] at h
      exact List.forall_mem_singleton.2 (h.1 ▸ hd)
    · next c' more' d line rest _ hcs =>
      obtain ⟨rfl, rfl⟩ := List.cons.inj hcs
      have hd : d ∈ Token.punctuation := (fitsList_leaf.1 fits).1
      simp only [Bool.and_eq_true, beq_iff_eq] at h
      exact List.forall_mem_cons.2 ⟨h.1.1 ▸ hd, ih (fitsList_leaf.1 fits).2 h.2⟩
    · cases h

theorem fits_opPieces {text : String} (h : ∀ c ∈ text.toList, c ∈ Token.punctuation) :
    FitsCode literal (opPieces text) := by
  unfold opPieces
  rw [fitsCode_reverse]
  generalize text.toList = cs at h
  induction cs with
  | nil => trivial
  | cons c rest ih =>
    obtain ⟨hc, hrest⟩ := List.forall_mem_cons.1 h
    cases rest with
    | nil => exact ⟨hc, trivial⟩
    | cons d rest => exact ⟨hc, ih hrest⟩

instance sound_op (text : String) : Sound literal (op text) := by
  refine ⟨keeps_look.bind fun trees fits => ?_⟩
  split
  · next hop =>
    exact keeps_advance (fits_of_sublist (List.drop_sublist _ _) fits)
      (fits_opPieces (mem_punctuation_of_op hop fits))
  · exact keeps_expected _

instance sound_op? (text : String) : Sound literal (op? text) := by
  unfold op?
  infer_instance

/-- A word that is taken is an identifier. -/
instance sound_anyIdent : Sound literal anyIdent := by
  refine ⟨keeps_look.bind fun trees fits => ?_⟩
  split
  · next name line rest =>
    split
    · next ident =>
      have hpieces : FitsCode literal [.token (.ident name)] := ⟨ident, trivial⟩
      exact .bind (keeps_advance (fitsList_leaf.1 fits).2 hpieces) fun _ _ => .pure trivial
    · exact keeps_expected _
  · exact keeps_expected _

instance sound_keyword (name : String) : Sound literal (keyword name) := by
  unfold keyword
  infer_instance

instance sound_keyword? (name : String) : Sound literal (keyword? name) := by
  unfold keyword?
  infer_instance

instance sound_ident : Sound literal ident := by
  refine ⟨.after fun trees => ?_⟩
  split
  · exact (Sound.ite _ _ _).keeps
  · exact keeps_expected _

theorem keeps_lifetime : Keeps literal lifetime fun name => isIdent name = true := by
  refine keeps_look.bind fun trees fits => ?_
  split
  · next name line rest =>
    obtain ⟨hquote, hname, hrest⟩ := fitsList_leaf.1 fits |>.imp_right fitsList_leaf.1
    have hpieces : FitsCode literal [.token (.ident name), .token (.punct '\x27' true)] :=
      ⟨hname, hquote, trivial⟩
    exact (keeps_advance hrest hpieces).bind fun _ _ => .pure hname
  · exact keeps_expected _

instance sound_lifetime : Sound literal lifetime := keeps_lifetime.sound

theorem keeps_lifetime? : Keeps literal lifetime? fun found =>
    ∀ name ∈ found, isIdent name = true := by
  unfold lifetime?
  exact .after fun _ => .ite (keeps_lifetime.bind fun name hname => .some hname) .none

instance sound_lifetime? : Sound literal lifetime? := keeps_lifetime?.sound

instance sound_literal : Sound literal Grammar.literal := by
  refine ⟨keeps_look.bind fun trees fits => ?_⟩
  split
  · next text line rest =>
    obtain ⟨htext, hrest⟩ := fitsList_leaf.1 fits
    have hpieces : FitsCode literal [.token (.literal text)] := ⟨htext, trivial⟩
    exact .bind (keeps_advance hrest hpieces) fun _ _ => .pure trivial
  · next name line rest =>
    obtain ⟨hname, hrest⟩ := fitsList_leaf.1 fits
    have hpieces : FitsCode literal [.token (.ident name)] := ⟨hname, trivial⟩
    exact .ite (.bind (keeps_advance hrest hpieces) fun _ _ => .pure trivial)
      (keeps_expected _)
  · next text line rest =>
    obtain ⟨hmark, htext, hrest⟩ := fitsList_leaf.1 fits |>.imp_right fitsList_leaf.1
    have hpieces : FitsCode literal [.token (.literal text), .token (.punct '-' false)] :=
      ⟨htext, hmark, trivial⟩
    exact .ite (.bind (keeps_advance hrest hpieces) fun _ _ => .pure trivial)
      (keeps_expected _)
  · exact keeps_expected _

instance sound_string : Sound literal string := by
  refine ⟨keeps_look.bind fun trees fits => ?_⟩
  split
  · next text line rest =>
    obtain ⟨htext, hrest⟩ := fitsList_leaf.1 fits
    have hpieces : FitsCode literal [.token (.literal text)] := ⟨htext, trivial⟩
    split
    · exact .bind (keeps_advance hrest hpieces) fun _ _ => .pure trivial
    · exact keeps_expected _
  · exact keeps_expected _

/-! ## Groups -/

mutual

theorem fits_ofTree : ∀ tree : TokenTree Lexeme, FitsList literal [tree.map Lexeme.token] →
    FitsCode literal [Piece.ofTree tree]
  | .leaf _, h => ⟨(fitsList_leaf.1 h).1, trivial⟩
  | .group _ body, h => ⟨fits_ofTrees body (fitsList_group.1 h).1, trivial⟩

/-- Trees that are taken as they stand fit. -/
theorem fits_ofTrees : ∀ trees : Trees, FitsList literal trees.tokens →
    FitsCode literal (Piece.ofTrees trees)
  | [], _ => trivial
  | tree :: rest, h => by
    have hsplit : FitsList literal ([tree.map Lexeme.token] ++ Trees.tokens rest) := h
    obtain ⟨htree, hrest⟩ := fitsList_append.1 hsplit
    rw [Piece.ofTrees, ← List.singleton_append, fitsCode_append]
    exact ⟨fits_ofTree tree htree, fits_ofTrees rest hrest⟩

end

theorem keeps_anyGroup :
    Keeps literal anyGroup fun found => FitsList literal (Trees.tokens found.2) := by
  refine keeps_look.bind fun trees fits => ?_
  split
  · next delimiter body rest =>
    obtain ⟨hbody, hrest⟩ := fitsList_group.1 fits
    have hpieces : FitsCode literal [.group delimiter (Piece.ofTrees body)] :=
      ⟨fits_ofTrees body hbody, trivial⟩
    exact .bind (keeps_advance hrest hpieces) fun _ _ => .pure hbody
  · exact keeps_expected _

instance sound_anyGroup : Sound literal anyGroup := keeps_anyGroup.sound

/-- What is read of a stream of its own. -/
theorem keeps_whole {grammar : Grammar α} (h : Keeps literal grammar property)
    {enclosing : Option Delimiter} {trees : Trees} (fits : FitsList literal trees.tokens)
    {value : α} {pieces : List Piece}
    (hwhole : whole enclosing grammar trees = .ok (value, pieces)) :
    property value ∧ FitsCode literal pieces := by
  unfold whole at hwhole
  cases hrun : grammar.run ⟨trees, []⟩ with
  | error fault =>
    rw [hrun] at hwhole
    cases hwhole
  | ok result =>
    rw [hrun] at hwhole
    obtain ⟨found, after⟩ := result
    obtain ⟨hfound, hafter⟩ := h ⟨trees, []⟩ found after ⟨fits, trivial⟩ hrun
    simp only [Bind.bind, Except.bind] at hwhole
    split at hwhole
    · obtain ⟨rfl, rfl⟩ := Prod.mk.inj (Except.ok.inj hwhole)
      exact ⟨hfound, fitsCode_reverse.2 hafter.taken⟩
    · cases hwhole

theorem keeps_within (delimiter : Delimiter) {grammar : Grammar α}
    (h : Keeps literal grammar property) : Keeps literal (within delimiter grammar) property := by
  refine keeps_look.bind fun trees fits => ?_
  split
  · next found body rest =>
    obtain ⟨hbody, hrest⟩ := fitsList_group.1 fits
    refine .ite ?_ (keeps_expected _)
    have hinside : Keeps literal
        (liftM (whole (some delimiter) grammar body) : Grammar (α × List Piece))
        fun result => property result.1 ∧ FitsCode literal result.2 := by
      intro stream result after hstream hrun
      cases hwhole : whole (some delimiter) grammar body with
      | error fault =>
        rw [hwhole] at hrun
        cases hrun
      | ok inside =>
        rw [hwhole] at hrun
        cases hrun
        exact ⟨keeps_whole h hbody hwhole, hstream⟩
    refine hinside.bind fun result hresult => ?_
    have hpieces : FitsCode literal [.group delimiter result.2] := ⟨hresult.2, trivial⟩
    exact .bind (keeps_advance hrest hpieces) fun _ _ => .pure hresult.1
  · exact keeps_expected _

instance sound_within (delimiter : Delimiter) (grammar : Grammar α) [h : Sound literal grammar] :
    Sound literal (within delimiter grammar) :=
  (keeps_within delimiter h.keeps).sound

/-! ## What is recorded -/

theorem keeps_recording {grammar : Grammar α} (h : Keeps literal grammar property) :
    Keeps literal (recording grammar) fun result =>
      property result.1 ∧ FitsCode literal result.2 := by
  intro stream result after fits hrun
  obtain ⟨_, _, hget, hrun⟩ := exists_of_run_bind hrun
  cases hget
  obtain ⟨_, _, hclear, hrun⟩ := exists_of_run_bind hrun
  cases hclear
  obtain ⟨value, between, hgrammar, hrun⟩ := exists_of_run_bind hrun
  cases hrun
  obtain ⟨hvalue, hbetween⟩ := h ⟨stream.rest, []⟩ _ _ ⟨fits.rest, trivial⟩ hgrammar
  exact ⟨⟨hvalue, fitsCode_reverse.2 hbetween.taken⟩, hbetween.rest, fits.taken⟩

instance sound_recording (grammar : Grammar α) [h : Sound literal grammar] :
    Sound literal (recording grammar) :=
  (keeps_recording h.keeps).sound

theorem keeps_spanning {grammar : Grammar α} (h : Keeps literal grammar property) :
    Keeps literal (spanning grammar) fun result =>
      property result.1 ∧ FitsList literal result.2.tokens := by
  refine keeps_look.bind fun before fits => (keeps_recording h).bind fun recorded hrecorded => ?_
  exact .after fun _ => .pure ⟨hrecorded.1, fits_of_sublist (List.take_sublist _ _) fits⟩

instance sound_spanning (grammar : Grammar α) [h : Sound literal grammar] :
    Sound literal (spanning grammar) :=
  (keeps_spanning h.keeps).sound

/-- To record something that fits keeps to it. -/
theorem keeps_record {pieces : List Piece} (h : FitsCode literal pieces) :
    Keeps literal (modify fun stream => { stream with taken := pieces ++ stream.taken })
      fun _ => True := by
  intro stream value after fits hrun
  cases hrun
  exact ⟨trivial, fits.rest, fitsCode_append.2 ⟨h, fits.taken⟩⟩

theorem keeps_verbatim {grammar : Grammar α} (h : Keeps literal grammar property) :
    Keeps literal (verbatim grammar) property := by
  refine (keeps_spanning h).bind fun result hresult => .bind (keeps_record ?_) fun _ _ => ?_
  · exact fitsCode_reverse.2 (fits_ofTrees _ hresult.2)
  · exact .pure hresult.1

instance sound_verbatim (grammar : Grammar α) [h : Sound literal grammar] :
    Sound literal (verbatim grammar) :=
  (keeps_verbatim h.keeps).sound

theorem keeps_piece {grammar : Grammar α} (h : Keeps literal grammar property) {form : α → Piece}
    (hform : ∀ value, property value → FitsCode literal [form value]) :
    Keeps literal (piece grammar form) property := by
  refine (keeps_recording h).bind fun result hresult => ?_
  exact .bind (keeps_record (hform _ hresult.1)) fun _ _ => .pure hresult.1

/-! ## What is tried -/

theorem keeps_glimpse {grammar : Grammar α} (h : Keeps literal grammar property) :
    Keeps literal (glimpse grammar) fun found =>
      ∀ result ∈ found, property result.1 ∧ result.2.Fits literal := by
  intro stream found after fits hrun
  obtain ⟨_, _, hget, hrun⟩ := exists_of_run_bind hrun
  cases hget
  cases hgrammar : grammar.run stream with
  | error fault =>
    rw [hgrammar] at hrun
    cases hrun
    exact ⟨fun _ hresult => (nomatch hresult), fits⟩
  | ok result =>
    rw [hgrammar] at hrun
    cases hrun
    refine ⟨fun found hfound => ?_, fits⟩
    obtain rfl := Option.some.inj hfound
    exact h _ _ _ fits hgrammar

instance sound_glimpse (grammar : Grammar α) [h : Sound literal grammar] :
    Sound literal (glimpse grammar) :=
  (keeps_glimpse h.keeps).sound

theorem keeps_attempt {grammar : Grammar α} (h : Keeps literal grammar property) :
    Keeps literal (attempt grammar) fun found => ∀ value ∈ found, property value := by
  refine (keeps_glimpse h).bind fun found hfound => ?_
  cases found with
  | none => exact .none
  | some result =>
    obtain ⟨value, stream⟩ := result
    obtain ⟨hvalue, hstream⟩ := hfound _ rfl
    intro before found after fits hrun
    cases hrun
    refine ⟨fun other hother => ?_, hstream⟩
    obtain rfl := Option.some.inj hother
    exact hvalue

instance sound_attempt (grammar : Grammar α) [h : Sound literal grammar] :
    Sound literal (attempt grammar) :=
  (keeps_attempt h.keeps).sound

/-! ## Repetition -/

section
variable {σ : Type} {invariant : σ → Prop}

theorem keeps_iterate {step : σ → Grammar (Option σ)}
    (h : ∀ state, invariant state →
      Keeps literal (step state) fun next => ∀ found ∈ next, invariant found)
    (fuel : Nat) {state : σ} (hstate : invariant state) :
    Keeps literal (iterate step fuel state) invariant := by
  induction fuel generalizing state with
  | zero => exact .throw _
  | succ fuel ih =>
    refine (h state hstate).bind fun next hnext => ?_
    cases next with
    | none => exact .pure hstate
    | some next => exact ih (hnext next rfl)

theorem keeps_loop {start : σ} {step : σ → Grammar (Option σ)}
    (h : ∀ state, invariant state →
      Keeps literal (step state) fun next => ∀ found ∈ next, invariant found)
    (hstart : invariant start) : Keeps literal (loop start step) invariant :=
  .after fun _ => keeps_iterate h _ hstart

end

instance sound_loop {σ : Type} (start : σ) (step : σ → Grammar (Option σ))
    [h : ∀ state, Sound literal (step state)] : Sound literal (loop start step) :=
  ⟨keeps_loop (fun state _ => (h state).keeps.imp fun _ _ _ _ => trivial) trivial⟩

theorem keeps_many {step : Grammar (Option α)}
    (h : Keeps literal step fun value => ∀ found ∈ value, property found) :
    Keeps literal (many step) fun values => ∀ value ∈ values, property value := by
  have hloop : Keeps literal (loop [] fun values => do return (← step).map (· :: values))
      fun values => ∀ value ∈ values, property value := by
    refine keeps_loop (fun values hvalues => ?_) (List.forall_mem_nil _)
    refine h.bind fun value hvalue => ?_
    cases value with
    | none => exact .none
    | some value => exact .some (List.forall_mem_cons.2 ⟨hvalue value rfl, hvalues⟩)
  refine hloop.bind fun values hvalues => .pure ?_
  exact fun value hvalue => hvalues value (List.mem_reverse.1 hvalue)

instance sound_many (step : Grammar (Option α)) [h : Sound literal step] :
    Sound literal (many step) := by
  have hstep : Keeps literal step fun value => ∀ found ∈ value, (fun _ => True) found :=
    h.keeps.imp fun _ _ _ _ => trivial
  exact (keeps_many hstep).sound

theorem keeps_separatedBy (separator : String) (stop : Trees → Bool) {item : Grammar α}
    (h : Keeps literal item property) :
    Keeps literal (separatedBy separator stop item) fun result =>
      ∀ value ∈ result.1, property value := by
  refine .bind (keeps_loop (fun state hstate => ?_) (List.forall_mem_nil _) :
    Keeps literal _ fun state => ∀ value ∈ state.1, property value) fun state hstate => ?_
  · obtain ⟨values, more⟩ := state
    refine .after fun _ => .ite .none (h.bind fun value hvalue => ?_)
    have hvalues : ∀ found ∈ value :: values, property found :=
      List.forall_mem_cons.2 ⟨hvalue, hstate⟩
    exact .after fun _ => .ite (.some hvalues) (.after fun _ => .some hvalues)
  · exact .pure fun value hvalue => hstate value (List.mem_reverse.1 hvalue)

instance sound_separatedBy (separator : String) (stop : Trees → Bool) (item : Grammar α)
    [h : Sound literal item] : Sound literal (separatedBy separator stop item) :=
  (keeps_separatedBy separator stop h.keeps).sound

theorem keeps_terminated {item : Grammar α} (h : Keeps literal item property) :
    Keeps literal (terminated item) fun result => ∀ value ∈ result.1, property value :=
  keeps_separatedBy "," List.isEmpty h

instance sound_terminated (item : Grammar α) [h : Sound literal item] :
    Sound literal (terminated item) :=
  (keeps_terminated h.keeps).sound

end Grammar

end Bindery.Source
