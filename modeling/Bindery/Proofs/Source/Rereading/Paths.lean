import Bindery.Proofs.Source.Path
import Bindery.Proofs.Source.Rereading
/-!
# Paths are read back

A type ends where nothing follows that could continue it (`Stops`), a name where no arguments do
(`EndsName`), a generic argument at a comma or at the bracket that closes the list (`ArgEnds`). What
a type begins with stands at the beginning of nothing else (`opensType`). A path is read back with
its last segment, the only one that is written.
-/

namespace Bindery.Source.Grammar

open Token (isIdent)

variable {rules : Rules} {name : String} {tokens rest : List (TokenTree Token)}

/-! ## What follows -/

section blind

instance (expression : Bool) : Blind (Ahead.angleArgs expression) :=
  ⟨fun trees => by simp [Ahead.angleArgs]⟩

instance : Blind Ahead.valueArgument := ⟨fun trees => by simp [Ahead.valueArgument]⟩

instance : Blind Ahead.path := ⟨fun trees => by simp [Ahead.path]⟩

instance : Blind Ahead.moreSegments := ⟨fun trees => by simp [Ahead.moreSegments]⟩

instance : Blind Ahead.endsConstraint := ⟨fun trees => by simp [Ahead.endsConstraint]⟩

instance (context : BoundContext) : Blind (Ahead.bound context) :=
  ⟨fun trees => by simp [Ahead.bound]⟩

end blind

/-- The punctuation characters that may follow a type. -/
def stopMarks : List Char :=
  [',', '>', ';', '=', ':', '+']

/-- Whether tokens may follow a type; those of a sum of bounds may not if `plus`. -/
structure Stops (plus : Bool) (rest : List (TokenTree Token)) : Prop where
  head : ∀ tree ∈ rest.head?, ∃ c joint, tree = .leaf (.punct c joint) ∧ c ∈ stopMarks
  colons : Ahead.op "::" (front rest) = false
  sum : plus = true → Ahead.op "+" (front rest) = false

section stops

variable {plus : Bool} {rest : List (TokenTree Token)}

theorem Stops.cases (stops : Stops plus rest) :
    rest = [] ∨ ∃ c joint more, rest = .leaf (.punct c joint) :: more ∧ c ∈ stopMarks := by
  cases rest with
  | nil => exact .inl rfl
  | cons tree more =>
    obtain ⟨c, joint, rfl, hc⟩ := stops.head tree rfl
    exact .inr ⟨c, joint, more, rfl, hc⟩

theorem stops_nil : Stops plus [] :=
  ⟨fun _ h => (nomatch h), rfl, fun _ => rfl⟩

theorem Stops.loosen (stops : Stops plus rest) : Stops false rest :=
  ⟨stops.head, stops.colons, fun h => (nomatch h)⟩

/-- Only the operators of the marks that may follow a type stand there. -/
theorem Stops.op (stops : Stops plus rest) {text : String} {c : Char} {cs : List Char}
    (htext : text.toList = c :: cs) (hc : c ∉ stopMarks) : Ahead.op text (front rest) = false := by
  rw [Ahead.op, htext]
  rcases stops.cases with rfl | ⟨d, joint, more, rfl, hd⟩
  · cases cs <;> rfl
  · have hne : c ≠ d := by
      rintro rfl
      exact hc hd
    rw [front_punct]
    cases cs with
    | nil => simp [Ahead.opChars, hne]
    | cons e cs =>
      unfold Ahead.opChars
      split <;> simp_all

theorem Stops.word (stops : Stops plus rest) (name : String) :
    Ahead.word name (front rest) = false := by
  rcases stops.cases with rfl | ⟨c, joint, more, rfl, -⟩ <;> rfl

theorem Stops.anyIdent (stops : Stops plus rest) : Ahead.anyIdent (front rest) = false := by
  rcases stops.cases with rfl | ⟨c, joint, more, rfl, -⟩ <;> rfl

theorem Stops.group (stops : Stops plus rest) (delimiter : Delimiter) :
    Ahead.group delimiter (front rest) = false := by
  rcases stops.cases with rfl | ⟨c, joint, more, rfl, -⟩ <;> rfl

theorem Stops.lifetime (stops : Stops plus rest) : Ahead.lifetime (front rest) = false := by
  rcases stops.cases with rfl | ⟨c, joint, more, rfl, hc⟩
  · rfl
  · have hquote : c ≠ '\x27' := by
      rintro rfl
      exact absurd hc (by decide)
    rw [front_punct]
    unfold Ahead.lifetime
    split <;> simp_all

end stops

/-- Whether tokens follow a name that takes no arguments. -/
structure EndsName (rest : List (TokenTree Token)) : Prop where
  less : Ahead.op "<" (front rest) = false
  colons : Ahead.op "::" (front rest) = false

theorem Stops.endsName {plus : Bool} {rest : List (TokenTree Token)} (stops : Stops plus rest) :
    EndsName rest :=
  ⟨stops.op rfl (by decide), stops.colons⟩

theorem EndsName.angleArgs {rest : List (TokenTree Token)} (ends : EndsName rest) :
    Ahead.angleArgs false (front rest) = false := by
  simp [Ahead.angleArgs, ends.less, ends.colons]

theorem EndsName.moreSegments {rest : List (TokenTree Token)} (ends : EndsName rest) :
    Ahead.moreSegments (front rest) = false := by
  simp [Ahead.moreSegments, ends.colons]

theorem stops_sum (more : List (TokenTree Token)) : Stops false (operator "+" ++ more) :=
  ⟨fun _ htree => ⟨'+', false, (Option.some.inj htree).symm, by decide⟩,
    op_of_mark? (d := some '+') rfl (by decide), fun h => nomatch h⟩

theorem stops_of_mark {c : Char} {joint : Bool} (hc : c ∈ ['=', ':'])
    (hmark : c = ':' → mark? rest ≠ some ':') : Stops true (.leaf (.punct c joint) :: rest) := by
  refine ⟨fun tree htree => ⟨c, joint, (Option.some.inj htree).symm, ?_⟩, ?_, fun _ => ?_⟩
  · simp only [List.mem_cons, List.not_mem_nil, or_false] at hc
    rcases hc with rfl | rfl <;> decide
  · by_cases hcolon : c = ':'
    · subst hcolon
      exact op_of_op (t := ":") rfl rfl (by decide) (op_of_mark? (d := mark? rest) rfl (hmark rfl))
    · exact op_of_mark? (d := some c) rfl (by simpa using hcolon)
  · refine op_of_mark? (d := some c) rfl ?_
    simp only [List.mem_cons, List.not_mem_nil, or_false] at hc
    rcases hc with rfl | rfl <;> decide

/-- What stands behind a generic argument: a comma, or the bracket that closes the list. -/
inductive ArgEnds : List (TokenTree Token) → Prop where
  | comma (behind : List (TokenTree Token)) : ArgEnds (operator "," ++ behind)
  | closing (behind : List (TokenTree Token)) : ArgEnds (operator ">" ++ behind)

theorem ArgEnds.stops (ends : ArgEnds rest) : Stops true rest := by
  cases ends with
  | comma behind =>
    refine ⟨fun tree htree => ?_, op_of_mark? (d := some ',') rfl (by decide),
      fun _ => op_of_mark? (d := some ',') rfl (by decide)⟩
    exact ⟨',', false, (Option.some.inj htree).symm, by decide⟩
  | closing behind =>
    refine ⟨fun tree htree => ?_, op_of_mark? (d := some '>') rfl (by decide),
      fun _ => op_of_mark? (d := some '>') rfl (by decide)⟩
    exact ⟨'>', false, (Option.some.inj htree).symm, by decide⟩

theorem ArgEnds.op (ends : ArgEnds rest) {text : String}
    (htext : text.toList.head? ∉ [some ',', some '>']) : Ahead.op text (front rest) = false := by
  simp only [List.mem_cons, List.not_mem_nil, or_false, not_or] at htext
  cases ends with
  | comma => exact op_of_mark? (d := some ',') rfl (Ne.symm htext.1)
  | closing => exact op_of_mark? (d := some '>') rfl (Ne.symm htext.2)

theorem ArgEnds.mark? (ends : ArgEnds rest) : mark? rest ∈ [some ',', some '>'] := by
  cases ends <;> simp [operator, operatorChars, Grammar.mark?]

/-! ## What a type begins with -/

/-- A type is read back, as a sum of bounds too if `plus`, in front of what may follow it. -/
def TypeRereads (rules : Rules) (plus : Bool) (type : Ty) : Prop :=
  ∀ more, Stops plus more → Rereads (rules.type plus) type.erase.tokens more
    fun again _ => bare again.erase.tokens = bare type.erase.tokens

/-- Whether tokens begin as a type does, and nothing else that may stand in its place. -/
def opensType : List (TokenTree Token) → Bool
  | .leaf (.ident name) :: second => !(["true", "false", "mut"].contains name) && mark? second != some ':'
  | .leaf (.punct c _) :: _ => ['&', '*', '!'].contains c
  | .group delimiter _ :: _ => delimiter != .brace
  | _ => false

theorem ne_nil_of_opensType (h : opensType tokens = true) : tokens ≠ [] := by
  rintro rfl
  exact nomatch h

theorem mark?_of_opensType (h : opensType tokens = true) :
    mark? tokens ∈ [none, some '&', some '*', some '!'] := by
  rcases tokens with _ | ⟨⟨_ | ⟨c, _⟩ | _⟩ | _, _⟩ <;> simp_all [opensType, mark?]

theorem op_of_opensType (h : opensType tokens = true) {text : String}
    (htext : text.toList.head? ∉ [none, some '&', some '*', some '!'])
    (more : List (TokenTree Token)) : Ahead.op text (front (tokens ++ more)) = false :=
  op_of_mark? (mark?_append (ne_nil_of_opensType h) more) fun heq =>
    htext (heq ▸ mark?_of_opensType h)

theorem lifetime_of_opensType (h : opensType tokens = true) (more : List (TokenTree Token)) :
    Ahead.lifetime (front (tokens ++ more)) = false := by
  refine lifetime_of_mark? fun hmark => ?_
  rw [mark?_append (ne_nil_of_opensType h)] at hmark
  exact absurd (hmark ▸ mark?_of_opensType h) (by decide)

theorem valueArgument_of_opensType (h : opensType tokens = true) (more : List (TokenTree Token)) :
    Ahead.valueArgument (front (tokens ++ more)) = false := by
  rcases tokens with _ | ⟨⟨name | ⟨c, joint⟩ | _⟩ | ⟨delimiter, body⟩, second⟩
  · cases h
  · simp_all [opensType, Ahead.valueArgument, Ahead.literal, Ahead.group]
  · have hc : c ≠ '-' := by
      rintro rfl
      exact absurd h (by simp [opensType])
    rw [List.cons_append, front_punct]
    unfold Ahead.valueArgument Ahead.literal
    split <;> simp_all [Ahead.group]
  · cases h
  · simp_all [opensType, Ahead.valueArgument, Ahead.literal, Ahead.group]

/-! ## Paths -/

/-- Tokens are read back as the arguments of a segment, of which `reads` holds: none, or some
between angle brackets. -/
inductive ArgsReread (rules : Rules) (reads : Args → Prop) : List (TokenTree Token) → Prop where
  | none (h : reads .none) : ArgsReread rules reads []
  | angle {tokens : List (TokenTree Token)}
      (begins : ∀ rest, Ahead.angleArgs false (front (tokens ++ rest)) = true)
      (h : ∀ rest, Rereads (angleArgs rules) tokens rest fun args _ => reads (.angle args)) :
      ArgsReread rules reads tokens

variable {reads : Args → Prop}

theorem ArgsReread.segment (hargs : ArgsReread rules reads tokens) (ends : EndsName rest)
    {found : Name} (hfound : found.text = name) :
    Rereads (do
        if ← ahead (Ahead.angleArgs false) then
          return Segment.mk found.text (.angle (← angleArgs rules))
        else return .mk found.text .none) tokens rest fun segment _ =>
      ∃ args, segment = .mk name args ∧ reads args := by
  cases hargs with
  | none h =>
    refine .ahead (f := false) ends.angleArgs ?_
    rw [if_neg (by decide)]
    exact .pure ⟨.none, by rw [hfound], h⟩
  | angle begins h =>
    refine .ahead (begins rest) ?_
    rw [if_pos rfl]
    exact (h rest).bindAll fun args _ hargs => .pure ⟨.angle args, by rw [hfound], hargs⟩

theorem anyWord_word (names : List String) (name : String) (rest : List (TokenTree Token)) :
    Ahead.anyWord names (front (word name ++ rest)) = decide (name ∈ names) := by
  induction names with
  | nil => rfl
  | cons first names ih =>
    have hfirst : Ahead.word first (front (word name ++ rest)) = (name == first) := rfl
    rw [Ahead.anyWord, List.any_cons, hfirst, ← Ahead.anyWord, ih]
    by_cases h : name = first <;> simp [h]

theorem rereads_pathSegment (hname : IsPathName name) (hargs : ArgsReread rules reads tokens)
    (takes : tokens ≠ [] → name = "Self" ∨ name ∉ pathWords) (ends : EndsName rest) :
    Rereads (pathSegment rules false) (word name ++ tokens) rest fun segment _ =>
      ∃ args, segment = .mk name args ∧ reads args := by
  obtain ⟨hident, hkeyword⟩ := hname
  by_cases hword : name ∈ ["super", "self", "crate", "try"]
  · have hnil : tokens = [] := by
      by_contra hne
      rcases takes hne with rfl | hfree
      · exact absurd hword (by decide)
      · exact hfree (by simp only [pathWords, List.mem_cons] at hword ⊢; tauto)
    subst hnil
    have hreads : reads .none := by
      cases hargs with
      | none h => exact h
      | angle begins => exact absurd (begins []) (by decide)
    refine .ahead (f := true) ?_ ?_
    · rw [List.append_nil, anyWord_word]
      exact decide_eq_true hword
    · rw [if_pos rfl, List.append_nil]
      exact (Rereads.anyIdent hident).bindAll fun found _ hfound =>
        .pure ⟨.none, by rw [hfound.1], hreads⟩
  · refine .ahead (f := false) ?_ ?_
    · rw [List.append_assoc, anyWord_word]
      exact decide_eq_false hword
    · rw [if_neg (by decide)]
      by_cases hself : name = "Self"
      · refine .ahead (f := true) (by simp [word, Ahead.word, hself]) ?_
        rw [if_pos rfl]
        exact .bind (Rereads.anyIdent hident) fun found _ hfound => hargs.segment ends hfound.1
      · refine .ahead (f := false) (by simp [word, Ahead.word, hself]) ?_
        rw [if_neg (by decide)]
        have hfree : name ∉ Ahead.keywords := by
          intro hmem
          have hmem := hkeyword hmem
          simp only [pathWords, List.mem_cons, List.not_mem_nil, or_false] at hmem hword
          tauto
        exact .bind (Rereads.ident hident hfree) fun found _ hfound => hargs.segment ends hfound.1

/-- Where a step says that nothing comes next, there are no values. -/
theorem Rereads.many_nil {α : Type} {step : Grammar (Option α)}
    (h : Rereads step [] rest fun next pieces => next = none ∧ pieces = []) :
    Rereads (many step) [] rest fun values pieces => values = [] ∧ pieces = [] := by
  have hloop : Loops (fun values => do return (← step).map (· :: values)) ([] : List α) [] rest
      fun last pieces => last = [] ∧ pieces = [] := by
    refine .done (h.bindAll ?_) ⟨rfl, rfl⟩
    rintro _ _ ⟨rfl, rfl⟩
    exact .pure ⟨rfl, rfl⟩
  refine hloop.loop.bindAll ?_
  rintro _ _ ⟨rfl, rfl⟩
  exact .pure ⟨rfl, rfl⟩

theorem op_word (text name : String) (rest : List (TokenTree Token)) :
    Ahead.op text (front (word name ++ rest)) = false := by
  rw [word, List.singleton_append, front_word, Ahead.op]
  rcases text.toList with _ | ⟨c, _ | ⟨d, cs⟩⟩ <;> rfl

theorem rereads_pathWith (hname : IsPathName name) (hargs : ArgsReread rules reads tokens)
    (takes : tokens ≠ [] → name = "Self" ∨ name ∉ pathWords) (ends : EndsName rest) :
    Rereads (pathWith rules false) (word name ++ tokens) rest fun path _ =>
      ∃ args, path = .mk false [.mk name args] ∧ reads args := by
  refine .bindNone (.op?_false ?_) ?_
  · rw [List.append_assoc]
    exact op_word _ _ _
  rintro _ _ ⟨rfl, rfl⟩
  refine (rereads_pathSegment hname hargs takes ends).bindAll ?_
  rintro _ pieces ⟨args, rfl, hreads⟩
  refine .bindNone (.many_nil ?_) ?_
  · refine .ahead (f := false) ends.moreSegments ?_
    rw [if_neg (by decide)]
    exact .pure ⟨rfl, rfl⟩
  · rintro _ _ ⟨rfl, rfl⟩
    exact .pure ⟨args, rfl, hreads⟩

theorem IsPathName.ne_of_mem (hname : IsPathName name) {other : String}
    (hkeyword : other ∈ Ahead.keywords) (hother : other ∉ pathWords) : name ≠ other := by
  rintro rfl
  exact hother (hname.2 hkeyword)

/-- The tokens of a path that is left of another one. -/
theorem tokens_single (name : String) (args : Args) :
    qualify none (nameTokens .asWritten (.mk false [.mk name args])) =
      word name ++ argsTokens .asWritten args := by
  rfl

end Bindery.Source.Grammar
