import Bindery.Proofs.Source.Rereading.Types
/-!
# Function pointers are read back

A function pointer consists of what is bound, of its qualifiers, of its parameters, of dots for
further arguments, and of what it returns.
-/

namespace Bindery.Source.Grammar

open Token (isIdent)

variable {rules : Rules} {name : String} {tokens rest : List (TokenTree Token)}

/-- The tokens of what was recorded, the last piece first. -/
def recorded (pieces : List Piece) : List (TokenTree Token) :=
  codeTokens (eraseCode pieces.reverse)

theorem recorded_append (more pieces : List Piece) :
    recorded (more ++ pieces) = recorded pieces ++ recorded more := by
  rw [recorded, recorded, recorded, List.reverse_append, codeTokens_eraseCode, codeTokens_eraseCode,
    codeTokens_eraseCode, List.flatMap_append]

@[simp] theorem recorded_nil : recorded [] = [] := rfl

/-! ## Qualifiers -/

/-- The words that name a calling convention, by a literal or not. -/
def conventionTokens : Option (Option String) → List (TokenTree Token)
  | none => []
  | some none => word "extern"
  | some (some literal) => word "extern" ++ [.leaf (.literal literal)]

/-- The words in front of the parameters of a function pointer. -/
def qualifierTokens (isUnsafe : Bool) (convention : Option (Option String)) :
    List (TokenTree Token) :=
  (if isUnsafe then word "unsafe" else []) ++ (conventionTokens convention ++ word "fn")

theorem rereads_functionQualifiers (isUnsafe : Bool) {convention : Option (Option String)}
    (hconvention : ∀ literal ∈ convention, ∀ text ∈ literal,
      (Token.stringValue? text).isSome = true) :
    Rereads functionQualifiers (qualifierTokens isUnsafe convention) rest fun _ pieces =>
      recorded pieces = qualifierTokens isUnsafe convention := by
  have hunsafe : Rereads (keyword? "unsafe") (if isUnsafe then word "unsafe" else [])
      (conventionTokens convention ++ word "fn" ++ rest) fun _ pieces =>
        recorded pieces = if isUnsafe then word "unsafe" else [] := by
    cases isUnsafe with
    | true => exact (Rereads.keyword?_true (by decide)).imp fun _ _ h => h.2 ▸ rfl
    | false =>
      refine (Rereads.keyword?_false ?_).imp fun _ _ h => h.2 ▸ rfl
      rcases convention with _ | _ | _ <;> rfl
  have hfn : Rereads (Grammar.keyword "fn") (word "fn") rest fun _ pieces =>
      recorded pieces = word "fn" :=
    (Rereads.keyword (by decide)).imp fun _ _ h => h ▸ rfl
  refine .bind hunsafe fun _ pieces hpieces => ?_
  rcases convention with _ | _ | literal
  · refine .bindNone (.keyword?_false rfl) ?_
    rintro _ _ ⟨rfl, rfl⟩
    rw [if_neg (by decide)]
    refine hfn.imp fun _ _ h => ?_
    simp only [recorded_append, recorded_nil, hpieces, h]
    rfl
  · refine .bind (.keyword?_true (by decide)) ?_
    rintro _ more ⟨rfl, hmore⟩
    rw [if_pos rfl]
    refine .ahead (f := false) rfl ?_
    rw [if_neg (by decide)]
    refine hfn.imp fun _ _ h => ?_
    simp only [recorded_append, hpieces, hmore, h, List.append_assoc]
    rfl
  · have htext := hconvention _ rfl literal rfl
    rw [conventionTokens, List.append_assoc]
    refine .bind (.keyword?_true (by decide)) ?_
    rintro _ more ⟨rfl, hmore⟩
    rw [if_pos rfl]
    refine .ahead (f := true) htext ?_
    rw [if_pos rfl]
    refine .bind (.string htext) ?_
    rintro _ _ rfl
    refine hfn.imp fun _ _ h => ?_
    simp only [recorded_append, hpieces, hmore, h, List.append_assoc]
    rfl

/-! ## Parameters -/

/-- Attributes are read back in front of what is no attribute. -/
def AttributesReread (rules : Rules) (tokens : List (TokenTree Token)) : Prop :=
  ∀ more, mark? more ≠ some '#' →
    Rereads (outerAttributes rules) tokens more fun _ pieces => bare (recorded pieces) = bare tokens

theorem AttributesReread.nil (rules : Rules) : AttributesReread rules [] := by
  intro more hmore
  refine (Rereads.many_nil ?_).imp fun _ _ h => h.2 ▸ rfl
  refine .ahead (f := false) (op_of_mark? (d := mark? more) rfl hmore) ?_
  rw [if_neg (by decide)]
  exact .pure ⟨rfl, rfl⟩

/-- Dots for further arguments with what stands in front of them. -/
def dots (rules : Rules) : Grammar (Unit × List Piece) :=
  recording do
    let _ ← outerAttributes rules
    if !(← ahead Ahead.variadic) then throw .refused
    if !(← ahead (Ahead.op "...")) then
      let _ ← anyIdent
      op ":"
    op "..."
    let _ ← op? ","

instance : Blind Ahead.variadic := by
  refine ⟨fun trees => ?_⟩
  simp [Ahead.variadic]

instance (mayBeSelf : Bool) : Blind (Ahead.paramName mayBeSelf) := by
  refine ⟨fun trees => ?_⟩
  simp [Ahead.paramName]

theorem run_recording_of_error {α : Type} {grammar : Grammar α} {trees : Trees} {fault : Fault}
    (h : grammar.run ⟨trees, []⟩ = .error fault) (taken : List Piece) :
    (recording grammar).run ⟨trees, taken⟩ = .error fault := by
  show StateT.run (grammar >>= fun value => do
    let inner := (← get).taken
    modify fun stream => { stream with taken := taken }
    return (value, inner.reverse)) ⟨trees, []⟩ = _
  rw [StateT.run_bind, h]
  rfl

/-- Where no dots stand behind the attributes, none are read. -/
theorem dots_fails {attributes : List (TokenTree Token)}
    (hattributes : AttributesReread rules attributes) (hmark : mark? rest ≠ some '#')
    (hdots : Ahead.variadic (front rest) = false) {trees : Trees}
    (hwritten : Written (attributes ++ rest) trees) (taken : List Piece) :
    ∃ fault, (dots rules).run ⟨trees, taken⟩ = .error fault := by
  obtain ⟨value, pieces, behind, -, hbehind, hrun⟩ := hattributes rest hmark trees hwritten
  have hahead : Ahead.variadic behind = false := (hbehind.eq Ahead.variadic).trans hdots
  refine ⟨.refused, run_recording_of_error ?_ taken⟩
  rw [run_bind_of_ok (hrun [])]
  show StateT.run (if !Ahead.variadic behind then _ else _) _ = _
  rw [hahead]
  rfl

/-- What stands behind a parameter: a comma, or nothing. -/
inductive ParamEnds : List (TokenTree Token) → Prop where
  | nothing : ParamEnds []
  | comma (behind : List (TokenTree Token)) : ParamEnds (operator "," ++ behind)

theorem ParamEnds.stops (ends : ParamEnds rest) : Stops true rest := by
  cases ends with
  | nothing => exact stops_nil
  | comma behind => exact (ArgEnds.comma behind).stops

/-- A parameter is read back in front of what ends it, and not as dots. -/
structure ParamRereads (rules : Rules) (first : Bool) (param : Param) : Prop where
  ne_nil : param.erasedTokens ≠ []
  noDots : ∀ more, ParamEnds more → ∀ trees, Written (param.erasedTokens ++ more) trees →
    ∀ taken, ∃ fault, (dots rules).run ⟨trees, taken⟩ = .error fault
  reads : ∀ more, ParamEnds more → Rereads (functionParam rules first) param.erasedTokens more
    fun again _ => bare again.erasedTokens = bare param.erasedTokens

/-- The name of a parameter with its colon. -/
def paramName : Option String → List (TokenTree Token)
  | none => []
  | some name => word name ++ operator ":"

/-- Whether a parameter may have a name; only the first one may be `self`. -/
def IsParamName (first : Bool) (name : String) : Prop :=
  isIdent name = true ∧ (name ∈ Ahead.keywords → name = "_" ∨ first = true ∧ name = "self")

theorem ParamEnds.colon (ends : ParamEnds rest) : mark? rest ≠ some ':' := by
  cases ends <;> exact nofun

/-- The name of no parameter, nor of dots, stands where a type does. -/
theorem noName_of_opensType (h : opensType tokens = true) (ends : ParamEnds rest)
    (mayBeSelf : Bool) : Ahead.paramName mayBeSelf (front (tokens ++ rest)) = false ∧
      Ahead.variadic (front (tokens ++ rest)) = false := by
  have hdots : Ahead.op "..." (front (tokens ++ rest)) = false := op_of_opensType h (by decide) rest
  rw [Ahead.paramName, Ahead.variadic, hdots]
  rcases tokens with _ | ⟨⟨name | _ | _⟩ | _, second⟩
  · cases h
  · have hcolon : Ahead.op ":" (Ahead.skip (front (.leaf (.ident name) :: second ++ rest))) = false := by
      show Ahead.op ":" (front (second ++ rest)) = false
      refine op_of_mark? rfl ?_
      cases second with
      | nil => exact ends.colon
      | cons tree second =>
        rw [mark?_append (List.cons_ne_nil _ _)]
        have hmark := (Bool.and_eq_true_iff.1 h).2
        simpa using hmark
    rw [hcolon]
    simp
  all_goals simp [Ahead.ident, Ahead.word]

/-- What a parameter begins with, where its name does. -/
theorem name_ahead {name : String} {first : Bool} (hname : IsParamName first name)
    (h : opensType tokens = true) (more : List (TokenTree Token)) :
    Ahead.paramName first (front (paramName (some name) ++ tokens ++ more)) = true ∧
      Ahead.variadic (front (paramName (some name) ++ tokens ++ more)) = false ∧
      Ahead.word "mut" (front (paramName (some name) ++ tokens ++ more)) = false := by
  rw [paramName, List.append_assoc, List.append_assoc]
  have hident : Ahead.ident (front (word name ++ (operator ":" ++ (tokens ++ more)))) =
      !Ahead.keywords.contains name := rfl
  have hcolon : Ahead.op ":" (Ahead.skip (front (word name ++ (operator ":" ++ (tokens ++ more))))) =
      true := rfl
  have hcolons : Ahead.op "::" (Ahead.skip (front (word name ++ (operator ":" ++ (tokens ++ more))))) =
      false :=
    op_of_op (t := ":") rfl rfl (by decide) (op_of_opensType h (by decide) more)
  have hdots : Ahead.op "..." (Ahead.skip (Ahead.skip
      (front (word name ++ (operator ":" ++ (tokens ++ more)))))) = false :=
    op_of_opensType h (by decide) more
  obtain ⟨-, hkeyword⟩ := hname
  have hmut : name ≠ "mut" := by
    rintro rfl
    exact absurd (hkeyword (by decide)) (by decide +revert)
  refine ⟨?_, ?_, ?_⟩
  · rw [Ahead.paramName, hident, word_word, word_word, hcolon, hcolons]
    by_cases hmem : name ∈ Ahead.keywords
    · rcases hkeyword hmem with rfl | ⟨rfl, rfl⟩ <;> simp
    · simp [hmem]
  · rw [Ahead.variadic, hdots, op_word, Bool.and_false, Bool.or_false]
  · rw [word_word]
    exact beq_eq_false_iff_ne.2 hmut

theorem ParamRereads.ofType {head : List Piece} {type : Ty} {first : Bool}
    {attributes : List (TokenTree Token)} {name : Option String}
    (hhead : codeTokens (eraseCode head) = attributes ++ paramName name)
    (hattributes : AttributesReread rules attributes)
    (hname : ∀ text ∈ name, IsParamName first text)
    (hopens : opensType type.erase.tokens = true) (hreads : TypeRereads rules true type) :
    ParamRereads rules first (.mk head type) := by
  have htokens : (Param.mk head type).erasedTokens =
      attributes ++ (paramName name ++ type.erase.tokens) := by
    rw [Param.erasedTokens, hhead, List.append_assoc]
  -- The attributes end where the name begins, or the type if there is no name.
  have hmark : ∀ more, mark? (paramName name ++ type.erase.tokens ++ more) ≠ some '#' := by
    intro more
    cases name with
    | none =>
      rw [paramName, List.nil_append, mark?_append (ne_nil_of_opensType hopens)]
      exact fun heq => absurd (heq ▸ mark?_of_opensType hopens) (by decide)
    | some name => exact nofun
  have hvariadic : ∀ more, ParamEnds more →
      Ahead.variadic (front (paramName name ++ type.erase.tokens ++ more)) = false := by
    intro more ends
    cases name with
    | none => exact (noName_of_opensType hopens ends first).2
    | some name => exact (name_ahead (hname name rfl) hopens more).2.1
  refine ⟨by simp [htokens, ne_nil_of_opensType hopens], ?_, ?_⟩
  · intro more ends trees hwritten taken
    rw [htokens, List.append_assoc] at hwritten
    exact dots_fails hattributes (hmark more) (hvariadic more ends) hwritten taken
  · intro more ends
    rw [htokens]
    refine .bind (.recording (p := fun _ pieces => bare (codeTokens (eraseCode pieces)) =
      bare attributes) (hattributes _ (hmark more))) ?_
    rintro ⟨_, pieces⟩ _ ⟨hpieces, rfl⟩
    refine .bindAll (.spanning (p := fun found => ∃ again, found.1 = some again ∧
      bare (codeTokens (eraseCode found.2)) = bare (paramName name) ∧
      bare again.erase.tokens = bare type.erase.tokens) ?_) ?_
    · -- Neither `mut self` nor `self` without a type stands where a type does.
      have hmut : Ahead.word "mut" (front (paramName name ++ type.erase.tokens ++ more)) = false := by
        cases name with
        | none => exact word_of_opensType hopens (by decide) more
        | some name => exact (name_ahead (hname name rfl) hopens more).2.2
      have hnamed : Ahead.paramName first (front (paramName name ++ type.erase.tokens ++ more)) =
          name.isSome := by
        cases name with
        | none => exact (noName_of_opensType hopens ends first).1
        | some name => exact (name_ahead (hname name rfl) hopens more).1
      refine .look fun trees hwritten => ?_
      rw [hwritten.eq (Ahead.word "mut"), hmut, Bool.and_false, Bool.false_and, if_neg (by decide)]
      refine .look fun trees hwritten => ?_
      rw [hwritten.eq (Ahead.paramName first), hnamed]
      refine .bind (.recording (p := fun _ pieces => bare (codeTokens (eraseCode pieces)) =
        bare (paramName name)) ?_) ?_
      · cases name with
        | none => exact .pure rfl
        | some name =>
          rw [Option.isSome_some, if_pos rfl]
          refine .bind (.anyIdent (hname name rfl).1) fun _ pieces hpieces => ?_
          refine (Rereads.op (by decide)).imp fun _ more hmore => ?_
          rw [hpieces.2, hmore]
          rfl
      · rintro ⟨_, found⟩ _ ⟨hfound, rfl⟩
        dsimp only
        rw [Bool.false_and, if_neg (by decide)]
        refine .look fun trees hwritten => ?_
        rw [hwritten.eq (Ahead.word "mut"), word_of_opensType hopens (by decide) more, Bool.and_false,
          Bool.false_and, if_neg (by decide)]
        refine .bindAll (hreads more ends.stops) fun again _ hagain => .pure ?_
        exact ⟨again, rfl, hfound, hagain⟩
    · rintro ⟨⟨_, found⟩, taken⟩ _ ⟨⟨⟨again, rfl, hfound, hagain⟩, -⟩, -⟩
      refine .pure ?_
      rw [Param.erasedTokens, codeTokens_eraseCode, List.flatMap_append, ← codeTokens_eraseCode,
        ← codeTokens_eraseCode]
      simp only [bare_append, hpieces, hfound, hagain, List.append_assoc]

/-! ## Lists of parameters -/

/-- Dots for further arguments, which may have a name, and a comma behind them. -/
def dotsTokens (name : Option String) (comma : Bool) : List (TokenTree Token) :=
  paramName name ++ (operator "..." ++ if comma then operator "," else [])

/-- What stands for further arguments is read back: nothing, or dots with their attributes. -/
inductive TailRereads (rules : Rules) : List (TokenTree Token) → Prop where
  | nothing : TailRereads rules []
  | dots {attributes : List (TokenTree Token)} {name : Option String}
      (hattributes : AttributesReread rules attributes)
      (hname : ∀ text ∈ name, IsParamName false text) (comma : Bool) :
      TailRereads rules (attributes ++ dotsTokens name comma)

theorem bare_eq_nil (h : bare tokens = []) : tokens = [] := by
  cases tokens with
  | nil => rfl
  | cons => cases h

theorem rereads_dots {attributes : List (TokenTree Token)} {name : Option String}
    (hattributes : AttributesReread rules attributes)
    (hname : ∀ text ∈ name, IsParamName false text) (comma : Bool) :
    Rereads (dots rules) (attributes ++ dotsTokens name comma) [] fun found _ =>
      found.2 ≠ [] ∧
        bare (codeTokens (eraseCode found.2)) = bare (attributes ++ dotsTokens name comma) := by
  have hmark : mark? (dotsTokens name comma ++ []) ≠ some '#' := by
    cases name <;> exact nofun
  have hdots : ∀ more, Ahead.op "..." (front (operator "..." ++ more)) = true :=
    op_front (by decide)
  have hend : Rereads (do
      Grammar.op "..."
      let _ ← op? ",") (operator "..." ++ if comma then operator "," else []) [] fun _ pieces =>
        recorded pieces = operator "..." ++ if comma then operator "," else [] := by
    refine .bind (.op (by decide)) ?_
    rintro _ _ rfl
    cases comma with
    | true =>
      refine .bindAll (.op?_true (by decide)) ?_
      rintro _ _ ⟨-, rfl⟩
      exact .pure rfl
    | false =>
      refine .bindAll (.op?_false rfl) ?_
      rintro _ _ ⟨-, rfl⟩
      exact .pure rfl
  refine (Rereads.recording (p := fun _ pieces => bare (codeTokens (eraseCode pieces)) =
    bare (attributes ++ dotsTokens name comma)) ?_).imp ?_
  · refine .bind (hattributes _ hmark) fun _ pieces hpieces => ?_
    cases name with
    | none =>
      have hahead : Ahead.op "..." (front (dotsTokens none comma ++ [])) = true := by
        rw [dotsTokens, paramName, List.nil_append, List.append_assoc, hdots]
      refine .ahead (f := true) (by rw [Ahead.variadic, hahead, Bool.true_or]) ?_
      rw [Bool.not_true, if_neg (by decide)]
      refine .ahead (f := true) hahead ?_
      rw [Bool.not_true, if_neg (by decide)]
      refine hend.imp fun _ more hmore => ?_
      show bare (recorded (more ++ pieces)) = _
      rw [recorded_append, hmore, bare_append, hpieces, ← bare_append]
      rfl
    | some name =>
      obtain ⟨hident, hkeyword⟩ := hname name rfl
      rw [dotsTokens, paramName, List.append_assoc]
      refine .ahead (f := true) ?_ ?_
      · have hcolon : Ahead.op ":" (Ahead.skip (front (word name ++ (operator ":" ++
            (operator "..." ++ if comma then operator "," else [])) ++ []))) = true := rfl
        have hafter : Ahead.op "..." (Ahead.skip (Ahead.skip (front (word name ++ (operator ":" ++
            (operator "..." ++ if comma then operator "," else [])) ++ [])))) = true := by
          refine Eq.trans ?_ (hdots ((if comma then operator "," else []) ++ []))
          rw [← List.append_assoc]
          rfl
        have hword : Ahead.ident (front (word name ++ (operator ":" ++
            (operator "..." ++ if comma then operator "," else [])) ++ [])) =
              !Ahead.keywords.contains name := rfl
        rw [Ahead.variadic, hcolon, hafter, hword, List.append_assoc, word_word]
        by_cases hmem : name ∈ Ahead.keywords
        · simp [(hkeyword hmem).resolve_right (by simp)]
        · simp [hmem]
      rw [Bool.not_true, if_neg (by decide)]
      refine .ahead (f := false) (by rw [List.append_assoc, op_word]) ?_
      rw [Bool.not_false, if_pos rfl]
      refine .bind (.anyIdent hident) fun _ first hfirst => ?_
      refine .bind (.op (by decide)) ?_
      rintro _ _ rfl
      refine hend.imp fun _ more hmore => ?_
      show bare (recorded (more ++ opPieces ":" ++ first ++ pieces)) = _
      simp only [recorded_append, hmore, hfirst.2, bare_append, hpieces]
      rfl
  · rintro ⟨_, pieces⟩ _ ⟨hpieces, -⟩
    refine ⟨?_, hpieces⟩
    rintro rfl
    have hnil := bare_eq_nil hpieces.symm
    rw [List.append_eq_nil_iff] at hnil
    cases name <;> exact nomatch hnil.2

/-- The parameters of a function pointer are read back; only the first of them stands first. -/
def ParamsReread (rules : Rules) (first : Bool) : List Param → Prop
  | [] => True
  | param :: params => ParamRereads rules first param ∧ ∀ other ∈ params, ParamRereads rules false other

theorem ParamsReread.behind {first : Bool} {param : Param} {params : List Param}
    (h : ParamsReread rules first (param :: params)) : ParamsReread rules false params := by
  cases params with
  | nil => trivial
  | cons next params => exact List.forall_mem_cons.1 h.2

/-- One step through the parameters of a function pointer, where dots end them. -/
def paramStep (rules : Rules) :
    List Param × Bool × List Piece → Grammar (Option (List Param × Bool × List Piece)) :=
  fun (params, more, tail) => do
    if !more || !tail.isEmpty || (← look).isEmpty then return none
    match ← attempt (dots rules) with
    | some (_, pieces) => return some (params, true, pieces)
    | none =>
      let param ← functionParam rules params.isEmpty
      if (← look).isEmpty then return some (param :: params, false, [])
      op ","
      return some (param :: params, true, [])

theorem paramStep_done {values : List Param} {more : Bool} {tail : List Piece}
    (h : more = true → tail = [] → rest = []) :
    Rereads (paramStep rules (values, more, tail)) [] rest fun next pieces =>
      next = none ∧ pieces = [] := by
  refine .look fun trees hwritten => ?_
  have hends : (!more || !tail.isEmpty || trees.isEmpty) = true := by
    rw [hwritten.eq List.isEmpty, List.nil_append, isEmpty_front]
    cases more with
    | false => rfl
    | true =>
      cases tail with
      | nil => rw [h rfl rfl]; rfl
      | cons => rfl
  rw [hends, if_pos rfl]
  exact .pure ⟨rfl, rfl⟩

/-- A parameter is taken, with the comma behind it if there is one. -/
theorem paramStep_param {values : List Param} {param : Param}
    (hparam : ParamRereads rules values.isEmpty param) {f : Bool}
    (hcomma : f = false → rest = []) :
    Rereads (paramStep rules (values, true, []))
      (param.erasedTokens ++ if f then operator "," else []) rest fun next _ =>
        ∃ again, next = some (again :: values, f, []) ∧
          bare again.erasedTokens = bare param.erasedTokens := by
  have hends : ParamEnds ((if f then operator "," else []) ++ rest) := by
    cases f with
    | true => exact .comma rest
    | false =>
      rw [hcomma rfl]
      exact .nothing
  refine .look fun trees hwritten => ?_
  have hgoes : trees.isEmpty = false := by
    rw [hwritten.eq List.isEmpty, isEmpty_front]
    simp [hparam.ne_nil]
  rw [hgoes]
  refine .bindNone (.attempt_none fun trees hwritten taken => ?_) ?_
  · rw [List.append_assoc] at hwritten
    exact hparam.noDots _ hends trees hwritten taken
  rintro _ _ ⟨rfl, rfl⟩
  refine .bind (hparam.reads _ hends) fun again _ hagain => .look fun trees hwritten => ?_
  rw [hwritten.eq List.isEmpty, isEmpty_front]
  cases f with
  | true => exact .bindAll (.op (by decide)) fun _ _ _ => .pure ⟨again, rfl, hagain⟩
  | false =>
    rw [hcomma rfl]
    exact .pure ⟨again, rfl, hagain⟩

/-- The parameters are taken one by one, and what stands for further arguments at the end. -/
theorem loops_params {params values : List Param} {tail : List (TokenTree Token)}
    (hparams : ParamsReread rules values.isEmpty params) (htail : TailRereads rules tail)
    {trailing : Bool} (hseparate : tail ≠ [] → trailing = true ∨ params = []) :
    Loops (paramStep rules) (values, true, [])
      (separated (operator ",") trailing (params.map Param.erasedTokens) ++ tail) [] fun last _ =>
        ∃ (found : List Param) (pieces : List Piece),
          last = (found.reverse ++ values, trailing || params.isEmpty, pieces) ∧
          (found.map fun param => bare param.erasedTokens) =
            (params.map fun param => bare param.erasedTokens) ∧
          bare (codeTokens (eraseCode pieces)) = bare tail := by
  induction params generalizing values with
  | nil =>
    cases htail with
    | nothing => exact .done (paramStep_done fun _ _ => rfl) ⟨[], [], by simp, rfl, rfl⟩
    | @dots attributes name hattributes hname comma =>
      have hdots := rereads_dots hattributes hname comma
      have hne : attributes ++ dotsTokens name comma ≠ [] := by
        cases name <;> exact List.append_ne_nil_of_right_ne_nil _ (List.cons_ne_nil _ _)
      rw [List.map_nil, separated, List.nil_append,
        ← List.append_nil (attributes ++ dotsTokens name comma)]
      refine .more (m := fun found _ => ∃ pieces, found = (values, true, pieces) ∧ pieces ≠ [] ∧
        bare (codeTokens (eraseCode pieces)) = bare (attributes ++ dotsTokens name comma)) hne ?_ ?_
      · refine .look fun trees hwritten => ?_
        have hgoes : trees.isEmpty = false := by
          rw [hwritten.eq List.isEmpty, isEmpty_front]
          simpa using hne
        rw [hgoes]
        refine .bindAll (.attempt_some hdots) ?_
        rintro _ _ ⟨⟨_, pieces⟩, rfl, hfound⟩
        exact .pure ⟨_, rfl, pieces, rfl, hfound⟩
      · rintro _ _ ⟨pieces, rfl, hpieces, hbare⟩
        refine .done (paramStep_done fun _ hnil => absurd hnil hpieces) ?_
        exact ⟨[], pieces, by simp, rfl, by rw [hbare, List.append_nil]⟩
  | cons param params ih =>
    by_cases hbetween : trailing = true ∨ params ≠ []
    · rw [List.map_cons, separated_cons _ _ (by simpa using hbetween), List.append_assoc]
      refine .more (m := fun found _ => ∃ again, found = (again :: values, true, []) ∧
        bare again.erasedTokens = bare param.erasedTokens) (by simp [hparams.1.ne_nil]) ?_ ?_
      · refine (paramStep_param (f := true) hparams.1 fun h => absurd h (by decide)).imp ?_
        rintro _ _ ⟨again, rfl, hagain⟩
        exact ⟨_, rfl, again, rfl, hagain⟩
      · rintro _ _ ⟨again, rfl, hagain⟩ fuel hfuel
        refine (ih (show ParamsReread rules (again :: values).isEmpty params from hparams.behind) ?_
          fuel hfuel).imp ?_
        · intro htail
          exact (hseparate htail).imp_right fun hnil => absurd hnil (List.cons_ne_nil _ _)
        · rintro _ _ ⟨found, pieces, rfl, hfound, hpieces⟩
          refine ⟨again :: found, pieces, ?_, ?_, hpieces⟩
          · rcases hbetween with rfl | hnext
            · simp
            · simp [List.isEmpty_eq_false_iff.2 hnext]
          · rw [List.map_cons, List.map_cons, hagain, hfound]
    · simp only [not_or, Bool.not_eq_true, ne_eq, not_not] at hbetween
      obtain ⟨rfl, rfl⟩ := hbetween
      obtain rfl : tail = [] := by
        by_contra htail
        exact (hseparate htail).elim (absurd · (by decide)) (absurd · (List.cons_ne_nil _ _))
      have hsingle : separated (operator ",") false ([param].map Param.erasedTokens) ++ [] =
          (param.erasedTokens ++ if false then operator "," else []) ++ [] := by
        simp [separated]
      rw [hsingle]
      refine .more (m := fun found _ => ∃ again, found = (again :: values, false, []) ∧
        bare again.erasedTokens = bare param.erasedTokens) (by simp [hparams.1.ne_nil]) ?_ ?_
      · refine (paramStep_param (f := false) hparams.1 fun _ => rfl).imp ?_
        rintro _ _ ⟨again, rfl, hagain⟩
        exact ⟨_, rfl, again, rfl, hagain⟩
      · rintro _ _ ⟨again, rfl, hagain⟩
        exact .done (paramStep_done fun h => absurd h (by decide))
          ⟨[again], [], rfl, by simp [hagain], rfl⟩

theorem rereads_functionParams {params : List Param} {tail : List (TokenTree Token)}
    (hparams : ParamsReread rules true params) (htail : TailRereads rules tail)
    {trailing : Bool} (hseparate : tail ≠ [] → trailing = true ∨ params = []) :
    Rereads (functionParams rules)
      (separated (operator ",") trailing (params.map Param.erasedTokens) ++ tail) [] fun found _ =>
        (found.1.map fun param => bare param.erasedTokens) =
            (params.map fun param => bare param.erasedTokens) ∧
          found.2.1 = (trailing && !params.isEmpty) ∧
          bare (codeTokens (eraseCode found.2.2)) = bare tail := by
  have hloop : Loops (paramStep rules) ([], true, [])
      (separated (operator ",") trailing (params.map Param.erasedTokens) ++ tail) [] fun last _ =>
        ∃ (found : List Param) (pieces : List Piece),
          last = (found.reverse ++ [], trailing || params.isEmpty, pieces) ∧
          (found.map fun param => bare param.erasedTokens) =
            (params.map fun param => bare param.erasedTokens) ∧
          bare (codeTokens (eraseCode pieces)) = bare tail :=
    loops_params hparams htail hseparate
  refine hloop.loop.bindAll ?_
  rintro _ _ ⟨found, pieces, rfl, hfound, hpieces⟩
  refine .pure ⟨by simpa using hfound, ?_, hpieces⟩
  have hlength : found.length = params.length := by simpa using congrArg List.length hfound
  cases params with
  | nil => simp [List.length_eq_zero_iff.1 hlength]
  | cons => 
    obtain ⟨again, found, rfl⟩ := List.exists_cons_of_length_eq_add_one hlength
    simp

/-! ## Function pointers -/

theorem tokens_function {head tail : List Piece} {params : List Param} {output : Option Ty}
    (trailing : Bool) : (Ty.function head params trailing tail output).erase.tokens =
      codeTokens (eraseCode head) ++ ([.group .paren (separated (operator ",") trailing
        (params.map Param.erasedTokens) ++ codeTokens (eraseCode tail))] ++
          outputTokens (eraseOutput output)) := by
  rw [Ty.erase, Ty.tokens, paramTokens_eraseParams, List.append_assoc]

/-- What stands in front of the parameters of a function pointer is read back: what is bound, if
anything is, and the qualifiers. -/
inductive FunctionHead (rules : Rules) : List (TokenTree Token) → Prop where
  | mk {binder : List (TokenTree Token)} (isUnsafe : Bool) {convention : Option (Option String)}
      (hbinder : binder = [] ∨ BinderRereads rules binder)
      (hconvention : ∀ literal ∈ convention, ∀ text ∈ literal,
        (Token.stringValue? text).isSome = true) :
      FunctionHead rules (binder ++ qualifierTokens isUnsafe convention)

theorem qualifierTokens_begins (isUnsafe : Bool) (convention : Option (Option String)) :
    ∃ first behind, qualifierTokens isUnsafe convention = word first ++ behind ∧
      first ∈ ["fn", "unsafe", "extern"] := by
  rcases isUnsafe with _ | _ <;> rcases convention with _ | _ | literal
  · exact ⟨"fn", [], rfl, by decide⟩
  · exact ⟨"extern", word "fn", rfl, by decide⟩
  · exact ⟨"extern", _, rfl, by decide⟩
  · exact ⟨"unsafe", _, rfl, by decide⟩
  · exact ⟨"unsafe", _, rfl, by decide⟩
  · exact ⟨"unsafe", _, rfl, by decide⟩

theorem typeAhead_function {first : String} (hfirst : first ∈ ["fn", "unsafe", "extern"])
    (plus : Bool) (more : List (TokenTree Token)) :
    typeAhead rules plus (front (word first ++ more)) = functionType rules [] := by
  have hparen : Ahead.group .paren (front (word first ++ more)) = false := rfl
  rw [typeAhead, hparen, anyWord_word, decide_eq_true hfirst]
  rfl

section functions

variable {depth : Nat} {plus trailing : Bool} {head tail : List Piece} {params : List Param}
  {output : Option Ty}

theorem bare_function {head' tail' : List Piece} {params' : List Param} {output' : Option Ty}
    {trailing' : Bool}
    (hhead : bare (codeTokens (eraseCode head')) = bare (codeTokens (eraseCode head)))
    (hparams : (params'.map fun param => bare param.erasedTokens) =
      params.map fun param => bare param.erasedTokens)
    (htrailing : trailing' = (trailing && !params.isEmpty))
    (htail : bare (codeTokens (eraseCode tail')) = bare (codeTokens (eraseCode tail)))
    (houtput : bare (outputTokens (eraseOutput output')) = bare (outputTokens (eraseOutput output))) :
    bare (Ty.function head' params' trailing' tail' output').erase.tokens =
      bare (Ty.function head params trailing tail output).erase.tokens := by
  rw [tokens_function, tokens_function]
  simp only [bare_append, bare_group, List.singleton_append, bare_separated, List.map_map,
    Function.comp_def, hhead, hparams, htail, houtput, htrailing]
  have hitems : params.isEmpty = (params.map fun param =>
    bare param.erasedTokens).isEmpty := by simp
  rw [hitems, separated_nonempty]

/-- A function pointer is read back behind what is bound. -/
theorem rereads_functionType {binder : List Piece} {isUnsafe : Bool}
    {convention : Option (Option String)} {tokens : List (TokenTree Token)}
    (hbinder : bare (codeTokens (eraseCode binder)) = bare tokens)
    (hhead : codeTokens (eraseCode head) = tokens ++ qualifierTokens isUnsafe convention)
    (hconvention : ∀ literal ∈ convention, ∀ text ∈ literal,
      (Token.stringValue? text).isSome = true)
    (hparams : ParamsReread rules true params)
    (htail : TailRereads rules (codeTokens (eraseCode tail)))
    (hseparate : codeTokens (eraseCode tail) ≠ [] → trailing = true ∨ params = [])
    (houtput : ∀ type ∈ output, TypeRereads rules false type) (stops : Stops false rest) :
    Rereads (functionType rules binder) (qualifierTokens isUnsafe convention ++
      ([.group .paren (separated (operator ",") trailing (params.map Param.erasedTokens) ++
        codeTokens (eraseCode tail))] ++ outputTokens (eraseOutput output))) rest
      fun again _ => bare again.erase.tokens =
        bare (Ty.function head params trailing tail output).erase.tokens := by
  refine .bind (.recording (p := fun _ pieces => codeTokens (eraseCode pieces) =
    qualifierTokens isUnsafe convention) (rereads_functionQualifiers isUnsafe hconvention)) ?_
  rintro ⟨_, qualifiers⟩ _ ⟨hqualifiers, rfl⟩
  refine .bind (.within (rereads_functionParams hparams htail hseparate)) ?_
  rintro ⟨params', trailing', tail'⟩ _ ⟨_, ⟨hparams', htrailing', htail'⟩, -⟩
  refine .bindAll (rereads_returnType houtput stops) fun output' _ houtput' => .pure ?_
  refine bare_function ?_ hparams' htrailing' htail' houtput'
  rw [codeTokens_eraseCode, List.flatMap_append, ← codeTokens_eraseCode, ← codeTokens_eraseCode,
    bare_append, hbinder, hhead, bare_append]
  exact congrArg (bare tokens ++ bare ·) hqualifiers

theorem TypeRereads.function
    (hhead : FunctionHead (.upTo depth) (codeTokens (eraseCode head)))
    (hparams : ParamsReread (.upTo depth) true params)
    (htail : TailRereads (.upTo depth) (codeTokens (eraseCode tail)))
    (hseparate : codeTokens (eraseCode tail) ≠ [] → trailing = true ∨ params = [])
    (houtput : ∀ type ∈ output, TypeRereads (.upTo depth) false type) :
    TypeRereads (.upTo (depth + 1)) plus (.function head params trailing tail output) := by
  generalize hhead' : codeTokens (eraseCode head) = tokens at hhead
  obtain @⟨binder, isUnsafe, convention, hbinder, hconvention⟩ := hhead
  obtain ⟨first, behind, hbegins, hfirst⟩ := qualifierTokens_begins isUnsafe convention
  intro more stops
  obtain ⟨after, htokens, hfunction⟩ : ∃ after,
      (Ty.function head params trailing tail output).erase.tokens =
        binder ++ (qualifierTokens isUnsafe convention ++ after) ∧
      ∀ pieces, bare (codeTokens (eraseCode pieces)) = bare binder →
        Rereads (functionType (.upTo depth) pieces) (qualifierTokens isUnsafe convention ++ after)
          more fun again _ => bare again.erase.tokens =
            bare (Ty.function head params trailing tail output).erase.tokens :=
    ⟨_, by rw [tokens_function, hhead', List.append_assoc], fun _ hpieces =>
      rereads_functionType hpieces hhead' hconvention hparams htail hseparate houtput stops.loosen⟩
  generalize (Ty.function head params trailing tail output).erase.tokens = whole at *
  subst htokens
  rcases hbinder with rfl | hbinder
  · rw [List.nil_append] at hfunction ⊢
    refine rereads_type ?_ ?_
    · rw [hbegins, List.append_assoc, List.append_assoc, word_word]
      simp only [List.mem_cons, List.not_mem_nil, or_false] at hfirst
      rcases hfirst with rfl | rfl | rfl <;> rfl
    · rw [hbegins, List.append_assoc, List.append_assoc, typeAhead_function hfirst, ← hbegins]
      exact hfunction [] rfl
  · show Rereads (typeWith (.upTo depth) plus) _ _ _
    refine .bind (.recording (p := fun binds pieces => binds = true ∧
      bare (codeTokens (eraseCode pieces)) = bare binder) hbinder.binder?) ?_
    rintro ⟨_, pieces⟩ _ ⟨⟨rfl, hpieces⟩, rfl⟩
    refine .look fun trees hwritten => ?_
    rw [hbegins, List.append_assoc, List.append_assoc] at hwritten
    have hparen : Ahead.group .paren trees = false := hwritten.eq (Ahead.group .paren)
    have hwords : Ahead.anyWord ["fn", "unsafe", "extern"] trees = true := by
      rw [hwritten.eq (Ahead.anyWord _), anyWord_word, decide_eq_true hfirst]
    have hbound : Ahead.boundType trees = true := by
      rw [hwritten.eq Ahead.boundType, Ahead.boundType, anyWord_word, word_word]
      simp only [List.mem_cons, List.not_mem_nil, or_false] at hfirst
      rcases hfirst with rfl | rfl | rfl <;> rfl
    rw [hparen, hwords, hbound, Bool.not_true, Bool.and_false, if_neg (by decide),
      if_neg (by decide), if_pos rfl]
    exact hfunction pieces hpieces

end functions

end Bindery.Source.Grammar
