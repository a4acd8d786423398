import Bindery.Proofs.Source.Rereading.Stable
/-!
# Plain code is stable

What a type holds besides types is stable where it is plain: a literal or a name as the length of an
array, a literal as a value among the arguments, lifetimes that `for` binds, and no attributes at
all.
-/

namespace Bindery.Source.Grammar

open Token (isIdent)

variable {rules : Rules} {name text : String} {tokens rest : List (TokenTree Token)}

/-! ## Literals -/

theorem Rereads.literal : Rereads Grammar.literal [.leaf (.literal text)] rest fun _ pieces =>
    pieces = [.token (.literal text)] := by
  intro trees hwritten
  obtain ⟨⟨token, line⟩, behind, rfl, htoken, hbehind⟩ := hwritten.leaf
  obtain rfl : token = .literal text := TokenTree.leaf.inj htoken
  exact ⟨text, _, behind, rfl, hbehind, fun taken => rfl⟩

theorem stableValue_literal (htext : IsLiteral text) : StableValue [.token (.literal text)] := by
  refine ⟨fun rest ends hrest => apart_literal htext hrest fun c hc hmem => ?_, fun depth _ => ?_⟩
  · have hmark := ends.mark?
    rw [show mark? rest = some c from hc] at hmark
    simp only [List.mem_cons, List.not_mem_nil, or_false, Option.some.injEq] at hmark hmem
    rcases hmark with rfl | rfl <;> simp at hmem
  · refine ⟨fun more => rfl, fun more _ => ?_⟩
    refine .bindAll (.recording (p := fun _ pieces => pieces = [.token (.literal text)]) ?_) ?_
    · refine .look fun trees hwritten => ?_
      have hliteral : Ahead.literal trees = true := hwritten.eq Ahead.literal
      rw [hliteral, if_pos rfl]
      refine Rereads.literal.bindAll ?_
      rintro _ _ rfl
      exact .pure rfl
    · rintro ⟨_, _⟩ _ ⟨rfl, rfl⟩
      exact .pure rfl

/-! ## Expressions that are one operand -/

/-- Nothing follows an operand at the end of the stream. -/
theorem rereads_trailers (form : Form) : Rereads (trailers rules form) [] [] fun found pieces =>
    found = form ∧ pieces = [] := by
  refine Loops.loop (.done ?_ ⟨rfl, rfl⟩)
  refine .look fun trees hwritten => ?_
  obtain rfl := hwritten.nil
  exact .pure ⟨rfl, rfl⟩

theorem rereads_climb {struct : Bool} {form : Form} {base : Precedence} :
    Rereads (climbWith rules struct form base) [] [] fun _ pieces => pieces = [] := by
  refine Loops.loop (.done ?_ rfl)
  split
  · exact .pure ⟨rfl, rfl⟩
  · refine .look fun trees hwritten => ?_
    obtain rfl := hwritten.nil
    have hbinary : Ahead.binary? [] = none := rfl
    have hassignment : Ahead.assignment [] = false := rfl
    have hrange : Ahead.op ".." [] = false := rfl
    have hcast : Ahead.word "as" [] = false := rfl
    simp only [hbinary, hassignment, hrange, hcast, Bool.and_false, if_neg Bool.false_ne_true]
    exact .pure ⟨rfl, rfl⟩

/-- An operand is an expression at the end of the stream. -/
theorem codeRereads_atom {code : List Piece} (hmark : mark? (codeTokens (eraseCode code)) = none)
    (h : ∀ rules, Rereads (atom rules true) (codeTokens (eraseCode code)) [] fun found pieces =>
      found = .other ∧ bare (recorded pieces) = bare (codeTokens (eraseCode code))) :
    DeepEnough (codeTokens (eraseCode code)) (CodeRereads · code) := by
  intro depth hdepth
  obtain ⟨depth, rfl⟩ := Nat.exists_eq_add_of_le' (show 1 ≤ depth by omega)
  show Rereads ((Rules.upTo (depth + 1)).expression true) (codeTokens (eraseCode code)) []
    fun _ pieces => bare (recorded pieces) = bare (codeTokens (eraseCode code))
  generalize codeTokens (eraseCode code) = tokens at *
  have hnone : mark? (tokens ++ []) = none := by rw [List.append_nil, hmark]
  have hunary : Rereads (unaryWith (.upTo depth) true) tokens [] fun _ pieces =>
      bare (recorded pieces) = bare tokens := by
    refine .bindNone (AttributesReread.nil _ _ (by rw [hnone]; decide)) fun _ pieces hpieces => ?_
    refine .look fun trees hwritten => ?_
    have hop : ∀ text : String, none ≠ text.toList.head? → Ahead.op text trees = false :=
      fun text htext => (hwritten.eq (Ahead.op text)).trans (op_of_mark? hnone htext)
    have hprefix : Ahead.anyOp ["*", "!", "-"] trees = false := by
      simpa [Ahead.anyOp] using ⟨hop "*" (by decide), hop "!" (by decide), hop "-" (by decide)⟩
    rw [hop "&" (by decide), hprefix, if_neg (by decide), if_neg (by decide)]
    refine .bindAll (h _) ?_
    rintro _ more ⟨rfl, hmore⟩
    refine .bindAll (rereads_trailers _) ?_
    rintro _ _ ⟨rfl, rfl⟩
    refine .pure ?_
    show bare (recorded (more ++ pieces)) = _
    rw [recorded_append, bare_append, hpieces, hmore]
    rfl
  refine .bindAll hunary fun form pieces hpieces => ?_
  refine rereads_climb.imp ?_
  rintro _ _ rfl
  exact hpieces

theorem stableLength_literal (htext : IsLiteral text) : StableLength [.token (.literal text)] := by
  refine ⟨apart_literal htext rfl nofun, codeRereads_atom rfl fun rules => ?_⟩
  refine .look fun trees hwritten => ?_
  have hliteral : Ahead.literal trees = true := hwritten.eq Ahead.literal
  rw [hliteral, if_pos rfl]
  refine Rereads.literal.bindAll ?_
  rintro _ _ rfl
  exact .pure ⟨rfl, rfl⟩

/-- What a part of code is made of is recorded in its place. -/
theorem Rereads.piece {α : Type} {grammar : Grammar α} {form : α → Piece} {value : α}
    (h : ∀ trees, Written (tokens ++ rest) trees →
      ∃ behind, Written rest behind ∧ Reads grammar trees value behind) :
    Rereads (Grammar.piece grammar form) tokens rest fun found pieces =>
      found = value ∧ pieces = [form value] := by
  intro trees hwritten
  obtain ⟨behind, hbehind, hreads⟩ := h trees hwritten
  obtain ⟨taken', hrun⟩ := hreads []
  refine ⟨value, [form value], behind, ⟨rfl, rfl⟩, hbehind, fun taken => ?_⟩
  have hrecording : (Grammar.recording grammar).run ⟨trees, taken⟩ =
      .ok ((value, taken'.reverse), ⟨behind, taken⟩) := by
    show StateT.run (grammar >>= fun value => do
      let inner := (← get).taken
      modify fun stream => { stream with taken := taken }
      return (value, inner.reverse)) ⟨trees, []⟩ = _
    rw [run_bind_of_ok hrun]
    rfl
  show StateT.run (Grammar.recording grammar >>= _) _ = _
  rw [run_bind_of_ok hrecording]
  rfl

/-- A name at the end of the stream is a path in an expression. -/
theorem reads_name (hname : IsPathName name) (rules : Rules) (line : Nat) :
    Reads (qualifiedPath rules true) [.leaf ⟨.ident name, line⟩]
      (none, .mk false [.mk name .none]) [] := by
  have hpath : Reads (pathWith rules true) [.leaf ⟨.ident name, line⟩]
      (.mk false [.mk name .none]) [] := by
    refine (Reads.op?_false rfl).bind ((reads_pathSegment hname rules line rfl).bind ?_)
    exact (Repeats.last ((Reads.ahead _).bind (.pure none))).many.bind (.pure _)
  refine (Reads.ahead _).bind ?_
  have hless : Ahead.op "<" [.leaf ⟨.ident name, line⟩] = false := rfl
  rw [hless, Bool.not_false, if_pos rfl]
  exact hpath.bind (.pure _)

theorem rereads_pathExpression (hname : IsPathName name) :
    Rereads (pathExpression rules true) (word name) [] fun found pieces =>
      found = .other ∧ pieces = [.path none (.mk false [.mk name .none]) .expression] := by
  have hpiece : Rereads (Grammar.piece (qualifiedPath rules true)
      fun found => .path found.1 found.2 .expression) (word name) [] fun found pieces =>
        found = (none, .mk false [.mk name .none]) ∧
          pieces = [.path none (.mk false [.mk name .none]) .expression] := by
    refine Rereads.piece fun trees hwritten => ?_
    obtain ⟨⟨token, line⟩, behind, rfl, htoken, hbehind⟩ := Written.leaf hwritten
    obtain rfl : token = .ident name := TokenTree.leaf.inj htoken
    obtain rfl := hbehind.nil
    exact ⟨[], hbehind, reads_name hname rules line⟩
  refine hpiece.bindAll ?_
  rintro _ _ ⟨rfl, rfl⟩
  refine .look fun trees hwritten => ?_
  obtain rfl := hwritten.nil
  exact .pure ⟨rfl, rfl⟩

theorem stableLength_path {path : Path} (hname : IsPathName name) (htry : name ≠ "try")
    (hpath : path.erase = .mk false [.mk name .none]) (style : PathStyle) :
    StableLength [.path none path style] := by
  have htokens : ∀ style path, path.erase = .mk false [.mk name .none] →
      codeTokens (eraseCode [.path none path style]) = word name := by
    intro style path hpath
    rw [eraseCode, codeTokens, hpath]
    rfl
  refine ⟨by rw [htokens _ _ hpath]; exact (Joins.word hname.1).apart,
    codeRereads_atom (by rw [htokens _ _ hpath]; rfl) fun rules => ?_⟩
  rw [htokens _ _ hpath]
  refine .look fun trees hwritten => ?_
  obtain ⟨⟨token, line⟩, behind, rfl, htoken, hbehind⟩ := Written.leaf hwritten
  obtain rfl : token = .ident name := TokenTree.leaf.inj htoken
  obtain rfl := hbehind.nil
  have hkeyword : ∀ word ∈ Ahead.keywords, word ∉ pathWords → (name == word) = false :=
    fun word hword hother => beq_eq_false_iff_ne.2 (hname.ne_of_mem hword hother)
  have hliteral : Ahead.literal [.leaf ⟨.ident name, line⟩] = false := by
    simp [Ahead.literal, hname.plain]
  have hasync : Ahead.asyncBlock [.leaf ⟨.ident name, line⟩] = false := by
    simp [Ahead.asyncBlock, Ahead.word, hkeyword "async" (by decide) (by decide)]
  have hclosure : Ahead.closure [.leaf ⟨.ident name, line⟩] = false := by
    have hop : Ahead.op "|" [.leaf ⟨.ident name, line⟩] = false := rfl
    simp [Ahead.closure, Ahead.anyWord, Ahead.word, hop, hkeyword "async" (by decide) (by decide),
      hkeyword "move" (by decide) (by decide), hkeyword "static" (by decide) (by decide),
      hkeyword "for" (by decide) (by decide), hkeyword "const" (by decide) (by decide)]
  have hbuiltin : (Ahead.word "builtin" [.leaf ⟨.ident name, line⟩] &&
      Ahead.op "#" (Ahead.skip [.leaf ⟨.ident name, line⟩])) = false :=
    Bool.and_false _
  have hpathAhead : Ahead.expressionPath [.leaf ⟨.ident name, line⟩] = true := by
    rw [Ahead.expressionPath, hwritten.eq Ahead.path, path_of_word hname htry, Bool.true_or]
  rw [hliteral, hasync, hclosure, hbuiltin, hpathAhead, if_neg (by decide), if_neg (by decide),
    if_neg (by decide), if_neg (by decide), if_pos rfl]
  refine (rereads_pathExpression hname).imp ?_
  rintro _ _ ⟨rfl, rfl⟩
  exact ⟨rfl, congrArg bare (htokens .expression _ rfl)⟩

/-! ## Bound lifetimes -/

theorem rereads_attributes_nil (hrest : mark? rest ≠ some '#') :
    Rereads (outerAttributes rules) [] rest fun _ pieces => recorded pieces = [] :=
  (AttributesReread.nil rules rest hrest).imp fun _ _ h => bare_eq_nil h

theorem stableAttributes_nil : StableAttributes [] :=
  ⟨.nil, fun _ _ => .nil _⟩

/-- A lifetime among the parameters that `for` binds, which has no bounds. -/
theorem rereads_lifetimeParam (hcolon : mark? rest ≠ some ':') :
    Rereads (genericParam rules) (lifetimeTokens name) rest fun _ pieces =>
      recorded pieces = lifetimeTokens name := by
  refine .bindNone (rereads_attributes_nil (by simp [lifetimeTokens, mark?])) fun _ before hbefore => ?_
  refine .look fun trees hwritten => ?_
  have hident : Ahead.ident trees = false := hwritten.eq Ahead.ident
  have hlifetime : Ahead.lifetime trees = true := hwritten.eq Ahead.lifetime
  rw [hident, hlifetime, if_neg (by decide), if_pos rfl]
  refine .bindAll (Rereads.lifetime name) ?_
  rintro _ _ ⟨rfl, rfl⟩
  refine .bindAll (Rereads.op?_false (op_of_mark? (d := mark? rest) rfl ?_)) ?_
  · exact hcolon
  rintro _ _ ⟨rfl, rfl⟩
  refine .pure ?_
  rw [List.nil_append, List.nil_append, recorded_append, hbefore]
  rfl

/-- One step through the parameters that `for` binds. -/
def binderStep (rules : Rules) : List Unit × Bool → Grammar (Option (List Unit × Bool)) :=
  fun (values, more) => do
    if !more || (← ahead (Ahead.op ">")) then return none
    let value ← genericParam rules
    if ← ahead (Ahead.op ">") then return some (value :: values, false)
    op ","
    return some (value :: values, true)

theorem binderStep_done (values : List Unit) (more : Bool) :
    Rereads (binderStep rules (values, more)) [] (operator ">" ++ rest) fun next pieces =>
      next = none ∧ pieces = [] := by
  refine .ahead (f := true) (op_front (by decide) rest) ?_
  rw [Bool.or_true, if_pos rfl]
  exact .pure ⟨rfl, rfl⟩

/-- A lifetime is taken, with the comma behind it if there is one. -/
theorem binderStep_lifetime (values : List Unit) {f : Bool}
    (hrest : f = false → ∃ more, rest = operator ">" ++ more) :
    Rereads (binderStep rules (values, true))
      (lifetimeTokens name ++ if f then operator "," else [])
      rest fun next pieces => ∃ found, next = some (found, f) ∧
        recorded pieces = lifetimeTokens name ++ if f then operator "," else [] := by
  refine .ahead (f := false) rfl ?_
  rw [Bool.or_false, if_neg (by decide)]
  cases f with
  | true =>
    refine .bind (rereads_lifetimeParam nofun) fun value pieces hpieces => ?_
    refine .ahead (f := false) (op_of_mark? (d := some ',') rfl (by decide)) ?_
    rw [if_neg (by decide)]
    refine (Rereads.op (by decide)).bindAll ?_
    rintro _ _ rfl
    refine .pure ⟨_, rfl, ?_⟩
    rw [List.nil_append, recorded_append, hpieces]
    rfl
  | false =>
    obtain ⟨more, rfl⟩ := hrest rfl
    rw [if_neg (by decide), List.append_nil]
    refine .bindAll (rereads_lifetimeParam nofun) fun value pieces hpieces => ?_
    refine .ahead (f := true) (op_front (by decide) more) ?_
    rw [if_pos rfl]
    exact .pure ⟨_, rfl, hpieces⟩

/-- Of lifetimes between commas, what they consist of is recorded. -/
theorem loops_lifetimes (names : List String) (trailing : Bool) (values : List Unit) :
    Loops (binderStep rules) (values, true)
      (separated (operator ",") trailing (names.map lifetimeTokens)) (operator ">" ++ rest)
      fun _ pieces => recorded pieces =
        separated (operator ",") trailing (names.map lifetimeTokens) := by
  induction names generalizing values with
  | nil => exact .done (binderStep_done values true) rfl
  | cons name names ih =>
    by_cases hbetween : trailing = true ∨ names ≠ []
    · rw [List.map_cons, separated_cons _ _ (by simpa using hbetween)]
      refine .more (m := fun found pieces => ∃ values, found = (values, true) ∧
        recorded pieces = lifetimeTokens name ++ operator ",") (List.cons_ne_nil _ _) ?_ ?_
      · refine (binderStep_lifetime values (f := true) nofun).imp ?_
        rintro _ pieces ⟨found, rfl, hpieces⟩
        exact ⟨_, rfl, found, rfl, hpieces⟩
      · rintro _ pieces ⟨found, rfl, hpieces⟩ fuel hfuel
        refine (ih found fuel hfuel).imp fun _ more hmore => ?_
        rw [recorded_append, hpieces, hmore]
    · simp only [not_or, Bool.not_eq_true, ne_eq, not_not] at hbetween
      obtain ⟨rfl, rfl⟩ := hbetween
      have hsingle : separated (operator ",") false ([name].map lifetimeTokens) =
          (lifetimeTokens name ++ if false then operator "," else []) ++ [] := by
        simp [separated]
      rw [hsingle]
      refine .more (m := fun found pieces => ∃ values, found = (values, false) ∧
        recorded pieces = lifetimeTokens name) (List.cons_ne_nil _ _) ?_ ?_
      · refine (binderStep_lifetime values (f := false) fun _ => ⟨rest, rfl⟩).imp ?_
        rintro _ pieces ⟨found, rfl, hpieces⟩
        exact ⟨_, rfl, found, rfl, by simpa using hpieces⟩
      · rintro _ pieces ⟨found, rfl, hpieces⟩
        exact .done (binderStep_done found false) (by simpa using hpieces)

theorem stableBinder_lifetimes {names : List String} (hnames : ∀ name ∈ names, isIdent name = true)
    (trailing : Bool) : StableBinder (word "for" ++ (operator "<" ++
      (separated (operator ",") trailing (names.map lifetimeTokens) ++ operator ">"))) := by
  have hlifetimes : Joins (separated (operator ",") trailing (names.map lifetimeTokens)) :=
    .listed (by decide) (fun name hname => .lifetime (hnames name hname)) trailing
  refine ⟨?_, fun depth _ => ⟨⟨_, rfl⟩, fun more => ?_⟩⟩
  · refine .append (.word (by decide)) (.behindOperator (by decide) ?_) fun _ => ⟨nofun, nofun⟩
    exact .append hlifetimes (.mark (by decide)) fun _ => by decide
  · refine .bind (.keyword (by decide)) ?_
    rintro _ _ rfl
    refine .bind (.op (by decide)) ?_
    rintro _ _ rfl
    have hlist : Rereads (separatedBy "," (Ahead.op ">") (genericParam (.upTo depth)))
        (separated (operator ",") trailing (names.map lifetimeTokens)) (operator ">" ++ more)
        fun _ pieces => recorded pieces =
          separated (operator ",") trailing (names.map lifetimeTokens) :=
      .bindAll (loops_lifetimes names trailing []).loop fun _ pieces hpieces => .pure hpieces
    refine .bind hlist fun _ pieces hpieces => ?_
    refine (Rereads.op (by decide)).imp ?_
    rintro _ _ rfl
    refine congrArg bare ?_
    show recorded (opPieces ">" ++ pieces ++ opPieces "<" ++ [.token (.ident "for")]) = _
    rw [recorded_append, recorded_append, recorded_append, hpieces]
    rfl

end Bindery.Source.Grammar
