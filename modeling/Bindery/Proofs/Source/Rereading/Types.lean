import Bindery.Proofs.Source.Rereading.Arguments
import Bindery.Source.Reading
/-!
# Types are read back

Each kind of type is read back one level deeper than its parts.
-/

namespace Bindery.Source.Grammar

open Token (isIdent)

variable {depth : Nat} {plus : Bool} {name : String} {tokens rest : List (TokenTree Token)}

/-! ## References, pointers and slices -/

/-- Nothing is bound in front of a type that does not begin with the word for it. -/
theorem Rereads.unbound {α : Type} {rules : Rules} {next : Bool × List Piece → Grammar α}
    {property : α → List Piece → Prop} (hfor : Ahead.word "for" (front (tokens ++ rest)) = false)
    (h : Rereads (next (false, [])) tokens rest property) :
    Rereads (Grammar.recording (binder? rules) >>= next) tokens rest property := by
  refine .bindNone (.recording (p := fun found pieces => found = false ∧ pieces = [])
    ((rereads_binder?_false hfor).imp fun _ _ h => ?_)) ?_
  · simpa using h
  · rintro ⟨_, _⟩ _ ⟨⟨rfl, rfl⟩, rfl⟩
    simpa using h

/-- What a type is, by what stands ahead where nothing is bound in front of it. -/
def typeAhead (rules : Rules) (plus : Bool) (trees : Trees) : Grammar Ty :=
  if Ahead.group .paren trees then parenType rules plus
  else if Ahead.anyWord ["fn", "unsafe", "extern"] trees then functionType rules []
  else if Ahead.path trees then pathType rules plus none
  else if Ahead.word "dyn" trees then dynType rules plus
  else if Ahead.group .bracket trees then within .bracket (sliceOrArray rules)
  else if Ahead.op "*" trees then pointerType rules
  else if Ahead.op "&" trees then referenceType rules
  else if Ahead.op "!" trees && !Ahead.op "=" trees then do
    op "!"
    return .never
  else if Ahead.word "impl" trees then anonymousType rules plus
  else if Ahead.word "_" trees then do
    keyword "_"
    return .inferred
  else if Ahead.lifetime trees then do
    let (bounds, trailing) ← objectBounds rules true
    return .object false bounds trailing
  else expected "type"

instance (rules : Rules) (plus : Bool) : Blind (typeAhead rules plus) :=
  ⟨fun trees => by simp [typeAhead, Blind.eq_unlined (p := Ahead.path)]⟩

theorem rereads_type {property : Ty → List Piece → Prop}
    (hfor : Ahead.word "for" (front (tokens ++ rest)) = false)
    (h : Rereads (typeAhead (.upTo depth) plus (front (tokens ++ rest))) tokens rest property) :
    Rereads ((Rules.upTo (depth + 1)).type plus) tokens rest property := by
  show Rereads (typeWith (.upTo depth) plus) _ _ _
  refine Rereads.unbound hfor (.look fun trees hwritten => ?_)
  rw [← hwritten.eq (typeAhead (.upTo depth) plus)] at h
  exact h

/-- No path begins with a mark that begins another kind of type. -/
theorem path_of_mark? (h : mark? tokens ∈ [some '&', some '*', some '!']) :
    Ahead.path (front tokens) = false := by
  rcases tokens with _ | ⟨⟨_ | ⟨c, joint⟩ | _⟩ | _, behind⟩
  case cons.leaf.punct =>
    have hop : ∀ text : String, text.toList.head? ∈ [some ':', some '<'] →
        Ahead.op text (front (.leaf (.punct c joint) :: behind)) = false := by
      intro text htext
      refine op_of_mark? (d := some c) rfl fun heq => ?_
      rw [mark?, heq] at h
      simp only [List.mem_cons, List.not_mem_nil, or_false] at h htext
      rcases htext with hc | hc <;> simp [hc] at h
    have hcolons := hop "::" (by decide)
    have hless := hop "<" (by decide)
    rw [front_punct] at hcolons hless
    simp [Ahead.path, Ahead.anyOp, hcolons, hless, Ahead.ident, Ahead.anyWord, Ahead.word]
  all_goals simp [mark?] at h

theorem word_of_opensType (h : opensType tokens = true) {name : String}
    (hname : name ∈ ["true", "false", "mut"]) (more : List (TokenTree Token)) :
    Ahead.word name (front (tokens ++ more)) = false := by
  rcases tokens with _ | ⟨⟨found | _ | _⟩ | _, behind⟩
  case cons.leaf.ident =>
    have hfound : found ≠ name := by
      rintro rfl
      simp_all [opensType]
    exact beq_eq_false_iff_ne.2 hfound
  case nil => cases h
  all_goals rfl

theorem TypeRereads.reference {target : Ty} (hopens : opensType target.erase.tokens = true)
    (hreads : TypeRereads (.upTo depth) false target) (lifetime : Option String) (mutable : Bool) :
    TypeRereads (.upTo (depth + 1)) plus (.reference lifetime mutable target) := by
  have htokens : ∀ {lifetime target}, (Ty.reference lifetime mutable target).erase.tokens =
      operator "&" ++ ((if mutable then word "mut" else []) ++ target.erase.tokens) := by
    simp [Ty.erase, Ty.tokens]
  have hlifetime : ∀ more, Ahead.lifetime (front ((if mutable then word "mut" else []) ++
      target.erase.tokens ++ more)) = false := by
    intro more
    cases mutable with
    | true => rfl
    | false => exact lifetime_of_opensType hopens more
  have hmutable : ∀ more, Rereads (keyword? "mut") (if mutable then word "mut" else [])
      (target.erase.tokens ++ more) fun found _ => found = mutable := by
    intro more
    cases mutable with
    | true => exact (Rereads.keyword?_true (by decide)).imp fun _ _ h => h.1
    | false =>
      exact (Rereads.keyword?_false (word_of_opensType hopens (by decide) more)).imp fun _ _ h =>
        h.1
  intro more stops
  rw [htokens]
  refine rereads_type rfl ?_
  rw [typeAhead, path_of_mark? (List.mem_cons_self ..)]
  show Rereads (referenceType (.upTo depth)) _ _ _
  refine .bind (.op (by decide)) fun _ _ _ => ?_
  refine .bindNone (.lifetime?_none (hlifetime more)) ?_
  rintro _ _ ⟨rfl, -⟩
  refine .bind (hmutable more) ?_
  rintro _ _ rfl
  refine .bindAll (hreads more stops.loosen) fun again _ hagain => .pure ?_
  rw [htokens]
  simp only [bare_append, hagain]

theorem TypeRereads.pointer {target : Ty} (hreads : TypeRereads (.upTo depth) false target)
    (mutable : Bool) : TypeRereads (.upTo (depth + 1)) plus (.pointer mutable target) := by
  intro more stops
  rw [Ty.erase, Ty.tokens, List.append_assoc]
  refine rereads_type rfl ?_
  rw [typeAhead, path_of_mark? (.tail _ (List.mem_cons_self ..))]
  show Rereads (pointerType (.upTo depth)) _ _ _
  refine .bind (.op (by decide)) fun _ _ _ => .look fun trees hwritten => ?_
  cases mutable with
  | true =>
    have hconst : Ahead.word "const" trees = false := hwritten.eq (Ahead.word "const")
    have hmut : Ahead.word "mut" trees = true := hwritten.eq (Ahead.word "mut")
    rw [hconst, hmut, if_neg (by decide), if_pos rfl]
    refine .bind (.keyword (by decide)) fun _ _ _ => ?_
    refine .bindAll (hreads more stops.loosen) fun again _ hagain => .pure ?_
    simp only [Ty.erase, Ty.tokens, bare_append, hagain]
    simp
  | false =>
    have hconst : Ahead.word "const" trees = true := hwritten.eq (Ahead.word "const")
    rw [hconst, if_pos rfl]
    refine .bind (.keyword (by decide)) fun _ _ _ => ?_
    refine .bindAll (hreads more stops.loosen) fun again _ hagain => .pure ?_
    simp only [Ty.erase, Ty.tokens, bare_append, hagain]
    simp

theorem TypeRereads.never : TypeRereads (.upTo (depth + 1)) plus .never := by
  intro more _
  refine rereads_type rfl ?_
  rw [typeAhead, path_of_mark? (.tail _ (.tail _ (List.mem_cons_self ..)))]
  show Rereads (do
    Grammar.op "!"
    return Ty.never) _ _ _
  exact .bindAll (.op (by decide)) fun _ _ _ => .pure rfl

theorem TypeRereads.inferred : TypeRereads (.upTo (depth + 1)) plus .inferred := by
  intro more _
  refine rereads_type rfl ?_
  show Rereads (do
    Grammar.keyword "_"
    return Ty.inferred) (word "_") _ _
  exact .bindAll (.keyword (by decide)) fun _ _ _ => .pure rfl

/-! ## Slices, arrays and tuples -/

theorem TypeRereads.slice {element : Ty} (hreads : TypeRereads (.upTo depth) true element) :
    TypeRereads (.upTo (depth + 1)) plus (.slice element) := by
  intro more _
  refine rereads_type rfl ?_
  show Rereads (within .bracket (sliceOrArray (.upTo depth))) [.group .bracket element.erase.tokens]
    _ _
  have hinside : Rereads (sliceOrArray (.upTo depth)) element.erase.tokens [] fun again _ =>
      bare again.erase.tokens = bare (Ty.slice element).erase.tokens := by
    refine .bindAll (hreads [] stops_nil) fun again _ hagain => ?_
    refine .bindNone (.op?_false rfl) ?_
    rintro _ _ ⟨rfl, -⟩
    refine .pure ?_
    simp only [Ty.erase, Ty.tokens, bare_group, hagain, bare_nil]
  refine hinside.within.imp ?_
  rintro _ _ ⟨_, h, -⟩
  exact h

/-- Code is read back as an expression at the end of its brackets. -/
def CodeRereads (rules : Rules) (code : List Piece) : Prop :=
  Rereads (rules.expression true) (codeTokens (eraseCode code)) [] fun _ pieces =>
    bare (codeTokens (eraseCode pieces.reverse)) = bare (codeTokens (eraseCode code))

theorem stops_semicolon (more : List (TokenTree Token)) : Stops true (operator ";" ++ more) :=
  ⟨fun _ htree => ⟨';', false, (Option.some.inj htree).symm, by decide⟩,
    op_of_mark? (d := some ';') rfl (by decide),
    fun _ => op_of_mark? (d := some ';') rfl (by decide)⟩

theorem TypeRereads.array {element : Ty} {length : List Piece}
    (hreads : TypeRereads (.upTo depth) true element) (hlength : CodeRereads (.upTo depth) length) :
    TypeRereads (.upTo (depth + 1)) plus (.array element length) := by
  intro more _
  refine rereads_type rfl ?_
  show Rereads (within .bracket (sliceOrArray (.upTo depth)))
    [.group .bracket (element.erase.tokens ++ operator ";" ++ codeTokens (eraseCode length))] _ _
  rw [List.append_assoc]
  have hinside : Rereads (sliceOrArray (.upTo depth))
      (element.erase.tokens ++ (operator ";" ++ codeTokens (eraseCode length))) [] fun again _ =>
        bare again.erase.tokens = bare (Ty.array element length).erase.tokens := by
    refine .bind (hreads _ (stops_semicolon _)) fun again _ hagain => ?_
    refine .bind (.op?_true (by decide)) ?_
    rintro _ _ ⟨rfl, -⟩
    refine .bindAll (.recording (p := fun _ pieces => bare (codeTokens (eraseCode pieces)) =
      bare (codeTokens (eraseCode length))) hlength) ?_
    rintro ⟨_, pieces⟩ _ ⟨hpieces, -⟩
    refine .pure ?_
    simp only [Ty.erase, Ty.tokens, bare_group, bare_append, bare_nil, hagain, hpieces]
  refine hinside.within.imp ?_
  rintro _ _ ⟨_, h, -⟩
  exact h

/-- Whether a comma is written at the end of a tuple. -/
def closesTuple (elements : List Ty) (trailing : Bool) : Bool :=
  trailing || elements.length == 1

theorem tokens_tuple (elements : List Ty) (trailing : Bool) :
    (Ty.tuple elements trailing).erase.tokens = [.group .paren (separated (operator ",")
      (closesTuple elements trailing) (elements.map (·.erase.tokens)))] := by
  rw [Ty.erase, Ty.tokens, tyListTokens_eraseTypes, eraseTypes_length, closesTuple]

theorem bare_tuple {elements again : List Ty} {trailing closed : Bool}
    (hagain : (again.map fun type => bare type.erase.tokens) =
      elements.map fun type => bare type.erase.tokens)
    (hclosed : elements ≠ [] → closesTuple again closed = closesTuple elements trailing) :
    bare (Ty.tuple again closed).erase.tokens = bare (Ty.tuple elements trailing).erase.tokens := by
  rw [tokens_tuple, tokens_tuple, bare_group, bare_group, bare_separated, bare_separated,
    List.map_map, List.map_map]
  simp only [Function.comp_def, hagain]
  cases elements with
  | nil => rfl
  | cons element elements => rw [hclosed (List.cons_ne_nil _ _)]

theorem rereads_tuple {rules : Rules} {elements : List Ty}
    (helements : ∀ type ∈ elements,
      opensType type.erase.tokens = true ∧ TypeRereads rules true type)
    (trailing : Bool) :
    Rereads (enclosed rules) (separated (operator ",") (closesTuple elements trailing)
      (elements.map (·.erase.tokens))) [] fun found _ =>
        ∃ again closed, found = .tuple again closed ∧
          bare (Ty.tuple again closed).erase.tokens =
            bare (Ty.tuple elements trailing).erase.tokens := by
  cases elements with
  | nil =>
    refine .look fun trees hwritten => ?_
    have hempty : trees.isEmpty = true := hwritten.eq List.isEmpty
    rw [hempty, if_pos rfl]
    exact .pure ⟨[], false, rfl, bare_tuple rfl (absurd rfl)⟩
  | cons first elements =>
    obtain ⟨⟨hopens, hreads⟩, hmore⟩ := List.forall_mem_cons.1 helements
    have hclosed : closesTuple (first :: elements) trailing = true ∨
        elements.map (·.erase.tokens) ≠ [] := by
      cases elements <;> simp [closesTuple]
    rw [List.map_cons, separated_cons _ _ hclosed, List.append_assoc]
    refine .look fun trees hwritten => ?_
    have hempty : trees.isEmpty = false := by
      rw [hwritten.eq List.isEmpty, isEmpty_front]
      simp [ne_nil_of_opensType hopens]
    have hlifetime : Ahead.lifetime trees = false := by
      refine (hwritten.eq Ahead.lifetime).trans ?_
      rw [List.append_assoc, lifetime_of_opensType hopens]
    have hrelaxed : Ahead.op "?" trees = false := by
      refine (hwritten.eq (Ahead.op "?")).trans ?_
      rw [List.append_assoc, op_of_opensType hopens (by decide)]
    rw [hempty, hlifetime, hrelaxed, if_neg (by decide), if_neg (by decide), if_neg (by decide)]
    refine .bind (hreads _ (ArgEnds.comma _).stops) fun again _ hagain => ?_
    refine .ahead (f := true) rfl ?_
    rw [if_pos rfl]
    refine .bind (.op (by decide)) fun _ _ _ => ?_
    refine .bindAll (rereads_types hmore _) ?_
    rintro ⟨others, closed⟩ _ ⟨hothers, hcloses⟩
    refine .pure ⟨_, _, rfl, bare_tuple ?_ fun _ => ?_⟩
    · rw [List.map_cons, List.map_cons, hagain, hothers]
    · have hlength : others.length = elements.length := by simpa using congrArg List.length hothers
      rw [show closed = (closesTuple (first :: elements) trailing && !elements.isEmpty) from hcloses]
      cases elements with
      | nil => simp [closesTuple, List.length_eq_zero_iff.1 hlength]
      | cons next elements =>
        have hothers : others ≠ [] := List.ne_nil_of_length_eq_add_one hlength
        obtain ⟨other, others, rfl⟩ := List.exists_cons_of_ne_nil hothers
        simp [closesTuple]

theorem TypeRereads.tuple {elements : List Ty}
    (helements : ∀ type ∈ elements,
      opensType type.erase.tokens = true ∧ TypeRereads (.upTo depth) true type)
    (trailing : Bool) : TypeRereads (.upTo (depth + 1)) plus (.tuple elements trailing) := by
  intro more _
  have htokens := tokens_tuple elements trailing
  rw [htokens]
  refine rereads_type rfl ?_
  show Rereads (parenType (.upTo depth) plus) _ _ _
  refine .bindAll (.within (rereads_tuple helements trailing)) ?_
  rintro _ _ ⟨_, ⟨again, closed, rfl, hagain⟩, -⟩
  refine .pure ?_
  rw [hagain, htokens]

/-! ## Paths -/

instance : Blind Ahead.boundType :=
  ⟨fun trees => by simp [Ahead.boundType]⟩

/-- A name that may stand in a path begins one, but for the word that no path begins with. -/
theorem ident_or_word (hname : IsPathName name) (htry : name ≠ "try")
    (more : List (TokenTree Token)) : (Ahead.ident (front (word name ++ more)) = true ∨
      name ∈ ["super", "self", "Self", "crate"]) := by
  have hident : Ahead.ident (front (word name ++ more)) = !Ahead.keywords.contains name := rfl
  rw [hident]
  by_cases hkeyword : name ∈ Ahead.keywords
  · have hmem := hname.2 hkeyword
    simp only [pathWords, List.mem_cons, List.not_mem_nil, or_false] at hmem ⊢
    tauto
  · exact .inl (by simpa using hkeyword)

theorem path_of_word (hname : IsPathName name) (htry : name ≠ "try")
    (more : List (TokenTree Token)) : Ahead.path (front (word name ++ more)) = true := by
  rw [Ahead.path, anyWord_word]
  rcases ident_or_word hname htry more with h | h
  · rw [h, Bool.true_or, Bool.true_or]
  · rw [decide_eq_true h, Bool.or_true, Bool.true_or]

theorem boundType_of_word (hname : IsPathName name) (htry : name ≠ "try")
    (more : List (TokenTree Token)) : Ahead.boundType (front (word name ++ more)) = true := by
  have hdyn : (name == "dyn") = false :=
    beq_eq_false_iff_ne.2 (IsPathName.ne_of_mem hname (by decide) (by decide))
  rw [Ahead.boundType, anyWord_word, word_word, hdyn, Bool.not_false, Bool.and_true]
  rcases ident_or_word hname htry more with h | h
  · rw [h, Bool.true_or]
  · simp only [List.mem_cons, List.not_mem_nil, or_false] at h
    simp [h]

theorem noFunction_of_word (hname : IsPathName name) (more : List (TokenTree Token)) :
    Ahead.anyWord ["fn", "unsafe", "extern"] (front (word name ++ more)) = false := by
  rw [anyWord_word]
  refine decide_eq_false fun hmem => ?_
  simp only [List.mem_cons, List.not_mem_nil, or_false] at hmem
  rcases hmem with rfl | rfl | rfl <;> exact absurd hname.2 (by decide)

theorem path_of_keyword (hkeyword : name ∈ Ahead.keywords)
    (hword : name ∉ ["super", "self", "Self", "crate"]) (more : List (TokenTree Token)) :
    Ahead.path (front (word name ++ more)) = false := by
  have hident : Ahead.ident (front (word name ++ more)) = !Ahead.keywords.contains name := rfl
  rw [Ahead.path, hident, anyWord_word]
  simp [hkeyword, hword, Ahead.anyOp, op_word]

/-- What begins with a name begins a path, where nothing is bound in front of it. -/
theorem typeAhead_path (hname : IsPathName name) (htry : name ≠ "try") (rules : Rules) (plus : Bool)
    (more : List (TokenTree Token)) :
    typeAhead rules plus (front (word name ++ more)) = pathType rules plus none := by
  have hparen : Ahead.group .paren (front (word name ++ more)) = false := rfl
  rw [typeAhead, hparen, noFunction_of_word hname, path_of_word hname htry]
  rfl

theorem rereads_qualifiedPath {rules : Rules} {args : List (TokenTree Token)} {reads : Args → Prop}
    (hname : IsPathName name) (hargs : ArgsReread rules reads args)
    (takes : args ≠ [] → name = "Self" ∨ name ∉ pathWords) (ends : EndsName rest) :
    Rereads (qualifiedPath rules false) (word name ++ args) rest fun found _ =>
      ∃ again, found = (none, .mk false [.mk name again]) ∧ reads again := by
  refine .ahead (f := false) (by rw [List.append_assoc, op_word]) ?_
  rw [Bool.not_false, if_pos rfl]
  refine (rereads_pathWith hname hargs takes ends).bindAll ?_
  rintro _ _ ⟨again, rfl, hagain⟩
  exact .pure ⟨again, rfl, hagain⟩

/-- A path that is a type, with what is read of its arguments. -/
theorem rereads_pathType {args : List (TokenTree Token)} {reads : Args → Prop}
    (hname : IsPathName name) (htry : name ≠ "try")
    (hargs : ArgsReread (.upTo depth) reads args)
    (takes : args ≠ [] → name = "Self" ∨ name ∉ pathWords) (stops : Stops plus rest) :
    Rereads ((Rules.upTo (depth + 1)).type plus) (word name ++ args) rest fun type _ =>
      ∃ again, type = .path none (.mk false [.mk name again]) ∧ reads again := by
  have hfor : name ≠ "for" := IsPathName.ne_of_mem hname (by decide) (by decide)
  refine rereads_type (by rw [List.append_assoc, word_word]; simpa using hfor) ?_
  rw [List.append_assoc, typeAhead_path hname htry]
  refine (rereads_qualifiedPath hname hargs takes stops.endsName).bindAll ?_
  rintro _ _ ⟨again, rfl, hagain⟩
  refine .look fun trees hwritten => ?_
  have hinvoked : Ahead.op "!" trees = false :=
    (hwritten.eq (Ahead.op "!")).trans (stops.op rfl (by decide))
  have hsum : (plus && Ahead.op "+" trees) = false := by
    rw [hwritten.eq (Ahead.op "+")]
    cases hplus : plus with
    | false => rfl
    | true => exact stops.sum hplus
  rw [hinvoked, hsum]
  exact .pure ⟨again, rfl, hagain⟩

/-- A macro is read back, whatever stands between its brackets. -/
theorem TypeRereads.invocation {path : Path} (hname : IsPathName name) (htry : name ≠ "try")
    (hpath : path.erase = .mk false [.mk name .none]) (delimiter : Delimiter)
    (body : List (TokenTree Token)) :
    TypeRereads (.upTo (depth + 1)) plus (.invocation path delimiter body) := by
  have htokens : (Ty.invocation path delimiter body).erase.tokens =
      word name ++ (operator "!" ++ [.group delimiter body]) := by
    rw [Ty.erase, Ty.tokens, hpath]
    rfl
  have hends : ∀ more, EndsName (operator "!" ++ [.group delimiter body] ++ more) := fun more =>
    ⟨op_of_mark? (d := some '!') rfl (by decide), op_of_mark? (d := some '!') rfl (by decide)⟩
  have hfor : name ≠ "for" := IsPathName.ne_of_mem hname (by decide) (by decide)
  intro more _
  rw [htokens]
  refine rereads_type (by rw [List.append_assoc, word_word]; simpa using hfor) ?_
  rw [List.append_assoc, typeAhead_path hname htry]
  have hqualified : Rereads (qualifiedPath (.upTo depth) false) (word name ++ [])
      (operator "!" ++ [.group delimiter body] ++ more) fun found _ =>
        ∃ again, found = (none, .mk false [.mk name again]) ∧ again = .none :=
    rereads_qualifiedPath hname (.none rfl) (absurd rfl) (hends more)
  rw [List.append_nil] at hqualified
  refine .bind hqualified ?_
  rintro _ _ ⟨_, rfl, rfl⟩
  refine .look fun trees hwritten => ?_
  have hmark : Ahead.op "!" trees = true :=
    (hwritten.eq (Ahead.op "!")).trans (op_front (by decide) _)
  have hdiffers : Ahead.op "!=" trees = false := by
    refine (hwritten.eq (Ahead.op "!=")).trans ?_
    exact op_of_op (t := "=") rfl rfl (by decide) (op_of_mark? (d := none) rfl (by decide))
  rw [hmark, hdiffers]
  have hbody : Rereads macroBody (operator "!" ++ [.group delimiter body]) more fun found _ =>
      found.1 = delimiter ∧ Written body found.2 :=
    .bind (.op (by decide)) fun _ _ _ => .anyGroup
  refine .bindAll hbody ?_
  rintro ⟨found, inside⟩ _ ⟨rfl, hinside⟩
  refine .pure ?_
  have hbare : bare (Trees.tokens inside) = bare body := by
    rw [show Trees.tokens inside = Token.rejoin body from hinside, Token.bare_rejoin]
  rw [bare_append, bare_append, bare_group, ← hbare]
  rfl

/-! ## Trait objects -/

/-- The bounds of a trait object that are written of it. -/
def kept (bounds : List Bound) : List Bound :=
  bounds.filter (!·.isLifetime)

theorem tokens_object (keyword : Bool) (bounds : List Bound) (trailing : Bool) :
    (Ty.object keyword bounds trailing).erase.tokens = (if keyword then word "dyn" else []) ++
      separated (operator "+") false ((kept bounds).map (·.erase.tokens)) := by
  rw [Ty.erase, Ty.tokens, boundTokens_eraseBounds]
  rfl

theorem isLifetime_of_kept {bounds again : List Bound}
    (h : again.map Bound.spelled = (kept bounds).map Bound.spelled) :
    ∀ bound ∈ again, bound.isLifetime = false := by
  intro bound hbound
  have hmem : bound.spelled ∈ (kept bounds).map Bound.spelled := h ▸ List.mem_map_of_mem hbound
  obtain ⟨other, hother, heq⟩ := List.mem_map.1 hmem
  have hplain : other.isLifetime = false := by simpa using List.of_mem_filter hother
  rw [← hplain]
  exact (congrArg (·.2.1) heq).symm

theorem bare_object {bounds again : List Bound} (keyword trailing closed : Bool)
    (h : again.map Bound.spelled = (kept bounds).map Bound.spelled) :
    bare (Ty.object keyword again closed).erase.tokens =
      bare (Ty.object keyword bounds trailing).erase.tokens := by
  have hkept : kept again = again := List.filter_eq_self.2 fun bound hbound => by
    simp [isLifetime_of_kept h bound hbound]
  have hwritten : (again.map fun bound => bare bound.erase.tokens) =
      (kept bounds).map fun bound => bare bound.erase.tokens := by
    simpa [Function.comp_def, Bound.spelled] using congrArg (List.map Prod.fst) h
  rw [tokens_object, tokens_object, hkept, bare_append, bare_append, bare_separated, bare_separated,
    List.map_map, List.map_map]
  simp only [Function.comp_def, hwritten]

theorem rereads_objectBounds {rules : Rules} {bounds : List Bound} (hne : kept bounds ≠ [])
    (hbounds : ∀ bound ∈ kept bounds, BoundRereads (boundWith rules objectContext) objectContext bound)
    (hplus : plus = true ∨ (kept bounds).length = 1) (stops : Stops plus rest) :
    Rereads (objectBounds rules plus)
      (separated (operator "+") false ((kept bounds).map (·.erase.tokens))) rest fun found _ =>
        found.1.map Bound.spelled = (kept bounds).map Bound.spelled := by
  have hplus' : plus = true ∧ kept bounds ≠ [] ∨ false = false ∧ (kept bounds).length = 1 := by
    rcases hplus with h | h
    · exact .inl ⟨h, hne⟩
    · exact .inr ⟨rfl, h⟩
  refine .bindAll (rereads_boundsWith hbounds hplus' stops) ?_
  rintro ⟨found, closed⟩ _ ⟨hfound, -⟩
  obtain ⟨bound, others, rfl⟩ : ∃ bound others, found = bound :: others := by
    refine List.exists_cons_of_ne_nil ?_
    rintro rfl
    exact hne (List.map_eq_nil_iff.1 hfound.symm)
  have hbound := isLifetime_of_kept hfound bound List.mem_cons_self
  cases bound with
  | lifetime => cases hbound
  | trait | verbatim => exact .pure hfound

/-- A trait object with its keyword is read back; one bound alone may stand anywhere. -/
theorem TypeRereads.dyn {bounds : List Bound} (hne : kept bounds ≠ [])
    (hbounds : ∀ bound ∈ kept bounds,
      BoundRereads (boundWith (.upTo depth) objectContext) objectContext bound)
    (hplus : plus = true ∨ (kept bounds).length = 1) (trailing : Bool) :
    TypeRereads (.upTo (depth + 1)) plus (.object true bounds trailing) := by
  intro more stops
  have htokens := tokens_object true bounds trailing
  rw [htokens, if_pos rfl]
  refine rereads_type rfl ?_
  rw [typeAhead, List.append_assoc, path_of_keyword (by decide) (by decide), ← List.append_assoc]
  show Rereads (dynType (.upTo depth) plus) _ _ _
  obtain ⟨first, others, hkept⟩ := List.exists_cons_of_ne_nil hne
  have hfirst := hbounds first (hkept ▸ List.mem_cons_self)
  refine .bindAll (.spanning (p := fun found => found.1 = false ∧
    found.2.1.map Bound.spelled = (kept bounds).map Bound.spelled) ?_) ?_
  · refine .bind (.keyword (by decide)) fun _ _ _ => ?_
    refine .bindNone (.op?_false ?_) ?_
    · rw [hkept]
      refine op_of_mark? (mark?_separated hfirst.ne_nil _ _ _) fun heq => ?_
      exact absurd (heq ▸ hfirst.mark) (by decide)
    rintro _ _ ⟨rfl, -⟩
    refine .bindAll (rereads_objectBounds hne hbounds hplus stops) ?_
    rintro ⟨found, closed⟩ _ hfound
    exact .pure ⟨rfl, hfound⟩
  · rintro ⟨⟨_, found, closed⟩, taken⟩ _ ⟨⟨⟨rfl, hfound⟩, -⟩, -⟩
    refine .pure ?_
    rw [bare_object true trailing closed hfound, htokens, if_pos rfl]

/-! ## Sums of bounds -/

theorem separated_sum (bound : Bound) (more : List Bound) :
    separated (operator "+") false ((bound :: more).map (·.erase.tokens)) =
      bound.erase.tokens ++ more.flatMap fun bound => operator "+" ++ bound.erase.tokens := by
  induction more generalizing bound with
  | nil => simp [separated]
  | cons next more ih =>
    rw [List.map_cons, separated_cons _ _ (.inr (by simp)), ih next, List.flatMap_cons]
    simp only [List.append_assoc]

/-- What follows the first bound of a sum. -/
theorem endsName_sum {more : List Bound} (stops : Stops plus rest) :
    EndsName ((more.flatMap fun bound => operator "+" ++ bound.erase.tokens) ++ rest) := by
  cases more with
  | nil => exact stops.endsName
  | cons =>
    exact ⟨op_of_mark? (d := some '+') rfl (by decide), op_of_mark? (d := some '+') rfl (by decide)⟩

/-- What a sum of bounds is read as: its first bound is a path without parentheses. -/
def ReadsSum (head : List (TokenTree Token)) (name : String) (reads : Args → Prop)
    (more : List Bound) (type : Ty) : Prop :=
  ∃ found again bounds,
    type = .object false (.trait false found (.mk false [.mk name again]) :: bounds) false ∧
      bare (codeTokens (eraseCode found)) = bare head ∧ reads again ∧
      bounds.map Bound.spelled = more.map Bound.spelled

section sums

variable {args head : List (TokenTree Token)} {reads : Args → Prop} {more : List Bound}

theorem rereads_pathSum {binder : Option (List Piece)}
    (hname : IsPathName name) (hargs : ArgsReread (.upTo depth) reads args)
    (takes : args ≠ [] → name = "Self" ∨ name ∉ pathWords)
    (hbinder : binder.isSome = true ∨ more ≠ []) (hplus : plus = true ∨ more = [])
    (hhead : bare (codeTokens (eraseCode (binder.getD []))) = bare head)
    (hmore : ∀ bound ∈ more,
      BoundRereads (boundWith (.upTo depth) objectContext) objectContext bound)
    (stops : Stops plus rest) :
    Rereads (pathType (.upTo depth) plus binder)
      (word name ++ args ++ more.flatMap fun bound => operator "+" ++ bound.erase.tokens) rest
      fun type _ => ReadsSum head name reads more type := by
  refine .bind (rereads_qualifiedPath hname hargs takes (endsName_sum stops)) ?_
  rintro _ _ ⟨again, rfl, hagain⟩
  refine .look fun trees hwritten => ?_
  have hinvoked : Ahead.op "!" trees = false := by
    refine (hwritten.eq (Ahead.op "!")).trans ?_
    cases more with
    | nil => exact stops.op rfl (by decide)
    | cons => exact op_of_mark? (d := some '+') rfl (by decide)
  have hsum : (binder.isSome || plus && Ahead.op "+" trees) = true := by
    rcases hbinder with h | h
    · rw [h, Bool.true_or]
    · obtain ⟨bound, more, rfl⟩ := List.exists_cons_of_ne_nil h
      have hplus := hplus.resolve_right (List.cons_ne_nil _ _)
      rw [hplus, hwritten.eq (Ahead.op "+"), Bool.true_and]
      exact Bool.or_eq_true_iff.2 (.inr rfl)
  rw [hinvoked, hsum, Bool.false_and, Bool.false_and, if_neg (by decide), if_neg (by decide), if_pos rfl]
  cases plus with
  | true =>
    refine (rereads_moreBounds false _ hmore stops).imp ?_
    rintro _ _ ⟨bounds, rfl, hbounds⟩
    exact ⟨_, again, bounds, rfl, hhead, hagain, hbounds⟩
  | false =>
    obtain rfl := hplus.resolve_left (by decide)
    exact .pure ⟨_, again, [], rfl, hhead, hagain, rfl⟩

theorem rereads_sum (hname : IsPathName name) (htry : name ≠ "try")
    (hargs : ArgsReread (.upTo depth) reads args)
    (takes : args ≠ [] → name = "Self" ∨ name ∉ pathWords) (hne : more ≠ []) (hplus : plus = true)
    (hmore : ∀ bound ∈ more,
      BoundRereads (boundWith (.upTo depth) objectContext) objectContext bound)
    (stops : Stops plus rest) :
    Rereads ((Rules.upTo (depth + 1)).type plus)
      (word name ++ args ++ more.flatMap fun bound => operator "+" ++ bound.erase.tokens) rest
      fun type _ => ReadsSum [] name reads more type := by
  have hfor : name ≠ "for" := IsPathName.ne_of_mem hname (by decide) (by decide)
  refine rereads_type (by rw [List.append_assoc, List.append_assoc, word_word]; simpa using hfor) ?_
  rw [List.append_assoc (_ ++ _), List.append_assoc (word name), typeAhead_path hname htry]
  exact rereads_pathSum hname hargs takes (.inr hne) (.inl hplus) rfl hmore stops

/-- Where something is bound in front of the first bound, it may be the only one. -/
theorem rereads_boundSum (hname : IsPathName name)
    (htry : name ≠ "try") (hhead : BinderRereads (.upTo depth) head)
    (hargs : ArgsReread (.upTo depth) reads args)
    (takes : args ≠ [] → name = "Self" ∨ name ∉ pathWords) (hplus : plus = true ∨ more = [])
    (hmore : ∀ bound ∈ more,
      BoundRereads (boundWith (.upTo depth) objectContext) objectContext bound)
    (stops : Stops plus rest) :
    Rereads ((Rules.upTo (depth + 1)).type plus)
      (head ++ (word name ++ args ++ more.flatMap fun bound => operator "+" ++ bound.erase.tokens))
      rest fun type _ => ReadsSum head name reads more type := by
  show Rereads (typeWith (.upTo depth) plus) _ _ _
  refine .bind (.recording (p := fun binds pieces => binds = true ∧
    bare (codeTokens (eraseCode pieces)) = bare head) hhead.binder?) ?_
  rintro ⟨_, pieces⟩ _ ⟨⟨rfl, hpieces⟩, rfl⟩
  refine .look fun trees hwritten => ?_
  rw [List.append_assoc, List.append_assoc] at hwritten
  have hpath : Ahead.path trees = true :=
    (hwritten.eq Ahead.path).trans (path_of_word hname htry _)
  have hparen : Ahead.group .paren trees = false := hwritten.eq (Ahead.group .paren)
  have hwords : Ahead.anyWord ["fn", "unsafe", "extern"] trees = false :=
    (hwritten.eq (Ahead.anyWord _)).trans (noFunction_of_word hname _)
  have hbound : Ahead.boundType trees = true :=
    (hwritten.eq Ahead.boundType).trans (boundType_of_word hname htry _)
  rw [hpath, hparen, hwords, hbound, Bool.not_true, Bool.and_false, if_neg (by decide),
    if_neg (by decide), if_neg (by decide), if_pos rfl]
  show Rereads (pathType (.upTo depth) plus (some pieces)) _ _ _
  exact rereads_pathSum hname hargs takes (.inl rfl) hplus hpieces hmore stops

end sums

/-- The arguments of the last segment of a path are read back. -/
structure PathRereads (rules : Rules) (path : Path) (name : String) (args : Args) : Prop where
  erased : path.erase = .mk false [.mk name (eraseArgs args)]
  isName : IsPathName name
  takes : argsTokens .asWritten (eraseArgs args) ≠ [] → name = "Self" ∨ name ∉ pathWords
  reads : ArgsReread rules (fun again => bare (argsTokens .asWritten (eraseArgs again)) =
    bare (argsTokens .asWritten (eraseArgs args))) (argsTokens .asWritten (eraseArgs args))

section objects

variable {bounds more : List Bound} {head : List Piece} {path : Path} {args : Args}
  {rules : Rules}

theorem PathRereads.written (hpath : PathRereads rules path name args) :
    qualify none (nameTokens .asWritten path.erase) =
      word name ++ argsTokens .asWritten (eraseArgs args) := by
  rw [hpath.erased, tokens_single]

/-- A path is read back as a type, unless its name is the word that no path begins with. -/
theorem TypeRereads.ofPath (hpath : PathRereads (.upTo depth) path name args)
    (htry : name ≠ "try") :
    TypeRereads (.upTo (depth + 1)) plus (.path none path) := by
  have htokens : (Ty.path none path).erase.tokens =
      word name ++ argsTokens .asWritten (eraseArgs args) := hpath.written
  intro more stops
  rw [htokens]
  refine (rereads_pathType hpath.isName htry hpath.reads hpath.takes stops).imp ?_
  rintro _ _ ⟨again, rfl, hagain⟩
  show bare (word name ++ argsTokens .asWritten (eraseArgs again)) = _
  rw [bare_append, bare_append, hagain]

theorem bare_sum {found : List Piece} {again : Args} {others : List Bound} {parens : Bool}
    (hkept : kept bounds = .trait parens head path :: more)
    (hpath : PathRereads rules path name args)
    (hfound : bare (codeTokens (eraseCode found)) = bare (codeTokens (eraseCode head)))
    (hagain : bare (argsTokens .asWritten (eraseArgs again)) =
      bare (argsTokens .asWritten (eraseArgs args)))
    (hothers : others.map Bound.spelled = more.map Bound.spelled) (trailing : Bool) :
    bare (Ty.object false (.trait parens found (.mk false [.mk name again]) :: others) false).erase.tokens =
      bare (Ty.object false bounds trailing).erase.tokens := by
  refine bare_object false trailing false ?_
  rw [hkept, List.map_cons, List.map_cons, hothers]
  congr 1
  refine spelled_trait parens ?_
  rw [bare_append, bare_append, hfound, hpath.written]
  show _ ++ bare (word name ++ argsTokens .asWritten (eraseArgs again)) = _
  rw [bare_append, bare_append, hagain]

/-- A trait object without its keyword is read back. -/
theorem TypeRereads.sum (hkept : kept bounds = .trait false head path :: more)
    (hpath : PathRereads (.upTo depth) path name args) (htry : name ≠ "try")
    (hhead : codeTokens (eraseCode head) = [] ∨
      BinderRereads (.upTo depth) (codeTokens (eraseCode head)))
    (hmore : ∀ bound ∈ more,
      BoundRereads (boundWith (.upTo depth) objectContext) objectContext bound)
    (hplus : plus = true ∨ more = []) (trailing : Bool) :
    TypeRereads (.upTo (depth + 1)) plus (.object false bounds trailing) := by
  have htokens : (Ty.object false bounds trailing).erase.tokens =
      codeTokens (eraseCode head) ++ (word name ++ argsTokens .asWritten (eraseArgs args) ++
        more.flatMap fun bound => operator "+" ++ bound.erase.tokens) := by
    rw [tokens_object, hkept, separated_sum, Bound.erase, Bound.tokens, hpath.written]
    simp
  intro rest stops
  rcases hhead with hhead | hhead
  · rw [hhead, List.nil_append] at htokens
    by_cases hne : more = []
    · subst hne
      rw [List.flatMap_nil, List.append_nil] at htokens
      rw [htokens]
      refine (rereads_pathType hpath.isName htry hpath.reads hpath.takes stops).imp ?_
      rintro _ _ ⟨again, rfl, hagain⟩
      show bare (word name ++ argsTokens .asWritten (eraseArgs again)) = _
      rw [bare_append, bare_append, hagain]
    · rw [htokens]
      refine (rereads_sum hpath.isName htry hpath.reads hpath.takes hne (hplus.resolve_right hne) hmore
        stops).imp ?_
      rintro _ _ ⟨found, again, others, rfl, hfound, hagain, hothers⟩
      rw [bare_sum hkept hpath (by rw [hfound, hhead]) hagain hothers trailing, htokens]
  · rw [htokens]
    refine (rereads_boundSum hpath.isName htry hhead hpath.reads hpath.takes hplus hmore stops).imp ?_
    rintro _ _ ⟨found, again, others, rfl, hfound, hagain, hothers⟩
    rw [bare_sum hkept hpath hfound hagain hothers trailing, htokens]

theorem tokens_parenSum (hkept : kept bounds = .trait true head path :: more)
    (hwritten : qualify none (nameTokens .asWritten path.erase) =
      word name ++ argsTokens .asWritten (eraseArgs args)) (trailing : Bool) :
    (Ty.object false bounds trailing).erase.tokens =
      [.group .paren (codeTokens (eraseCode head) ++
        (word name ++ argsTokens .asWritten (eraseArgs args)))] ++
        more.flatMap fun bound => operator "+" ++ bound.erase.tokens := by
  rw [tokens_object, hkept, separated_sum, Bound.erase, Bound.tokens, hwritten]
  simp

theorem bare_parenSum {first : Bound} {others : List Bound}
    (hkept : kept bounds = .trait true head path :: more)
    (hfirst : first.spelled = (Bound.trait true head path).spelled)
    (hothers : others.map Bound.spelled = more.map Bound.spelled) (trailing : Bool) :
    bare (Ty.object false (first :: others) false).erase.tokens =
      bare (Ty.object false bounds trailing).erase.tokens := by
  refine bare_object false trailing false ?_
  rw [hkept, List.map_cons, List.map_cons, hfirst, hothers]

/-- A trait object whose first bound stands between parentheses with a question mark. -/
theorem TypeRereads.relaxedSum (hkept : kept bounds = .trait true head path :: more)
    (hhead : codeTokens (eraseCode head) = operator "?")
    (hpath : path.erase = .mk false [.mk name (eraseArgs args)]) (hname : IsPathName name)
    (hargs : TraitArgsReread (.upTo depth) name args)
    (hmore : ∀ bound ∈ more,
      BoundRereads (boundWith (.upTo depth) objectContext) objectContext bound)
    (trailing : Bool) : TypeRereads (.upTo (depth + 1)) true (.object false bounds trailing) := by
  have hwritten : qualify none (nameTokens .asWritten path.erase) =
      word name ++ argsTokens .asWritten (eraseArgs args) := by
    rw [hpath, tokens_single]
  have htokens := tokens_parenSum hkept hwritten trailing
  rw [hhead] at htokens
  have hinside : Rereads (enclosed (.upTo depth))
      (operator "?" ++ (word name ++ argsTokens .asWritten (eraseArgs args))) [] fun found _ =>
        ∃ first, found = .bounds first ∧ first.spelled = (Bound.trait true head path).spelled := by
    refine .look fun trees hwritten' => ?_
    have hempty : trees.isEmpty = false := hwritten'.eq List.isEmpty
    have hlifetime : Ahead.lifetime trees = false := hwritten'.eq Ahead.lifetime
    have hrelaxed : Ahead.op "?" trees = true :=
      (hwritten'.eq (Ahead.op "?")).trans (op_front (by decide) _)
    rw [hempty, hlifetime, hrelaxed, if_neg (by decide), if_neg (by decide), if_pos rfl]
    refine .bindAll (rereads_traitBound hname .relaxed hargs stops_nil) ?_
    rintro ⟨_, found, again⟩ _ ⟨rfl, hfound⟩
    exact .pure ⟨_, rfl, spelled_trait true (by rw [hhead, hwritten]; exact hfound)⟩
  intro rest stops
  rw [htokens]
  refine rereads_type rfl ?_
  show Rereads (parenType (.upTo depth) true) _ _ _
  refine .bind (.within hinside) ?_
  rintro _ _ ⟨_, ⟨first, rfl, hfirst⟩, -⟩
  refine (rereads_moreBounds true first hmore stops).imp ?_
  rintro _ _ ⟨others, rfl, hothers⟩
  rw [bare_parenSum hkept hfirst hothers trailing, htokens]

/-- What stands between parentheses is read back as a type that may be a bound. -/
theorem rereads_parenthesized (hpath : PathRereads (.upTo depth) path name args)
    (htry : name ≠ "try") (hhead : codeTokens (eraseCode head) = [] ∨
      BinderRereads (.upTo depth) (codeTokens (eraseCode head))) :
    Rereads ((Rules.upTo (depth + 1)).type true) (codeTokens (eraseCode head) ++
      (word name ++ argsTokens .asWritten (eraseArgs args))) [] fun type _ =>
        ∃ bound, Ty.asParenthesizedBound? type = some bound ∧
          bound.spelled = (Bound.trait true head path).spelled := by
  have hspelled : ∀ found again, bare (codeTokens (eraseCode found)) = bare (codeTokens (eraseCode head)) →
      bare (argsTokens .asWritten (eraseArgs again)) = bare (argsTokens .asWritten (eraseArgs args)) →
      (Bound.trait true found (.mk false [.mk name again])).spelled =
        (Bound.trait true head path).spelled := by
    intro found again hfound hagain
    refine spelled_trait true ?_
    rw [bare_append, bare_append, hfound, hpath.written]
    show _ ++ bare (word name ++ argsTokens .asWritten (eraseArgs again)) = _
    rw [bare_append, bare_append, hagain]
  rcases hhead with hhead | hhead
  · rw [hhead, List.nil_append]
    refine (rereads_pathType hpath.isName htry hpath.reads hpath.takes stops_nil).imp ?_
    rintro _ _ ⟨again, rfl, hagain⟩
    exact ⟨_, rfl, hspelled [] again (by rw [hhead]; rfl) hagain⟩
  · have hsum : Rereads ((Rules.upTo (depth + 1)).type true) (codeTokens (eraseCode head) ++
        (word name ++ argsTokens .asWritten (eraseArgs args) ++
          ([] : List Bound).flatMap fun bound => operator "+" ++ bound.erase.tokens)) []
        fun type _ => ReadsSum (codeTokens (eraseCode head)) name _ [] type :=
      rereads_boundSum hpath.isName htry hhead hpath.reads hpath.takes (.inl rfl)
        (by simp) stops_nil
    rw [List.flatMap_nil, List.append_nil] at hsum
    refine hsum.imp ?_
    rintro _ _ ⟨found, again, others, rfl, hfound, hagain, hothers⟩
    obtain rfl : others = [] := List.map_eq_nil_iff.1 hothers
    exact ⟨_, rfl, hspelled found again hfound hagain⟩

/-- A trait object whose first bound stands between parentheses, with further ones behind it. -/
theorem TypeRereads.parenSum (hkept : kept bounds = .trait true head path :: more) (hne : more ≠ [])
    (hpath : PathRereads (.upTo depth) path name args)
    (htry : name ≠ "try") (hhead : codeTokens (eraseCode head) = [] ∨
      BinderRereads (.upTo depth) (codeTokens (eraseCode head)))
    (hmore : ∀ bound ∈ more,
      BoundRereads (boundWith (.upTo (depth + 1)) objectContext) objectContext bound)
    (trailing : Bool) : TypeRereads (.upTo (depth + 2)) true (.object false bounds trailing) := by
  have htokens := tokens_parenSum hkept hpath.written trailing
  obtain ⟨first, behind, hbegins⟩ : ∃ first behind, codeTokens (eraseCode head) ++
      (word name ++ argsTokens .asWritten (eraseArgs args)) = word first ++ behind := by
    rcases hhead with hhead | hhead
    · exact ⟨name, _, by rw [hhead, List.nil_append]⟩
    · obtain ⟨behind, hbegins⟩ := hhead.begins
      exact ⟨"for", _, by rw [hbegins, List.append_assoc]⟩
  have hinside : Rereads (enclosed (.upTo (depth + 1))) (codeTokens (eraseCode head) ++
      (word name ++ argsTokens .asWritten (eraseArgs args))) [] fun found _ =>
        ∃ type bound, found = .one type ∧ Ty.asParenthesizedBound? type = some bound ∧
          bound.spelled = (Bound.trait true head path).spelled := by
    refine .look fun trees hwritten => ?_
    rw [hbegins, List.append_assoc] at hwritten
    have hempty : trees.isEmpty = false := hwritten.eq List.isEmpty
    have hlifetime : Ahead.lifetime trees = false := hwritten.eq Ahead.lifetime
    have hrelaxed : Ahead.op "?" trees = false :=
      (hwritten.eq (Ahead.op "?")).trans (op_word _ _ _)
    rw [hempty, hlifetime, hrelaxed, if_neg (by decide), if_neg (by decide), if_neg (by decide)]
    refine .bindAll (rereads_parenthesized hpath htry hhead) ?_
    rintro type _ ⟨bound, hbound, hspelled⟩
    refine .ahead (f := false) rfl ?_
    rw [if_neg (by decide)]
    exact .pure ⟨type, bound, rfl, hbound, hspelled⟩
  intro rest stops
  rw [htokens]
  refine rereads_type rfl ?_
  show Rereads (parenType (.upTo (depth + 1)) true) _ _ _
  refine .bind (.within hinside) ?_
  rintro _ _ ⟨_, ⟨type, bound, rfl, hbound, hfirst⟩, -⟩
  obtain ⟨next, more, rfl⟩ := List.exists_cons_of_ne_nil hne
  refine .ahead (f := true) rfl ?_
  rw [Bool.and_self, if_pos rfl, hbound]
  refine (rereads_moreBounds true bound hmore stops).imp ?_
  rintro _ _ ⟨others, rfl, hothers⟩
  rw [bare_parenSum hkept hfirst hothers trailing, htokens]

end objects

/-! ## Anonymous types -/

/-- An anonymous type is read back; one bound alone, without a plus sign, may stand anywhere. -/
theorem TypeRereads.anonymous {bounds : List Bound} {trailing : Bool}
    (hbounds : ∀ bound ∈ bounds,
      BoundRereads (boundWith (.upTo depth) anonymousContext) anonymousContext bound)
    (htrait : bounds.any Bound.isTrait = true)
    (hplus : plus = true ∨ trailing = false ∧ bounds.length = 1) :
    TypeRereads (.upTo (depth + 1)) plus (.anonymous bounds trailing) := by
  have htokens : ∀ bounds, (Ty.anonymous bounds trailing).erase.tokens =
      word "impl" ++ separated (operator "+") trailing (bounds.map (·.erase.tokens)) := by
    intro bounds
    rw [Ty.erase, Ty.tokens, boundTokens_eraseBounds]
    simp
  have hne : bounds ≠ [] := by
    rintro rfl
    cases htrait
  have hplus' : plus = true ∧ bounds ≠ [] ∨ trailing = false ∧ bounds.length = 1 :=
    hplus.imp_left fun h => ⟨h, hne⟩
  intro more stops
  rw [htokens]
  refine rereads_type rfl ?_
  rw [typeAhead, List.append_assoc, path_of_keyword (by decide) (by decide), ← List.append_assoc]
  show Rereads (anonymousType (.upTo depth) plus) _ _ _
  refine .bind (.keyword (by decide)) fun _ _ _ => ?_
  refine .bindAll (rereads_boundsWith hbounds hplus' stops) ?_
  rintro ⟨found, closed⟩ _ ⟨hfound, hclosed⟩
  have hflags : found.map Bound.isTrait = bounds.map Bound.isTrait := by
    simpa [Function.comp_def, Bound.spelled] using congrArg (List.map (·.2.2)) hfound
  have hany : found.any Bound.isTrait = true := by
    have hall : ∀ bounds : List Bound, bounds.any Bound.isTrait = (bounds.map Bound.isTrait).any id :=
      fun bounds => by simp [List.any_map]
    rw [hall, hflags, ← hall, htrait]
  have hwritten : (found.map fun bound => bare bound.erase.tokens) =
      bounds.map fun bound => bare bound.erase.tokens := by
    simpa [Function.comp_def, Bound.spelled] using congrArg (List.map Prod.fst) hfound
  show Rereads (if found.any Bound.isTrait then _ else _) _ _ _
  rw [if_pos hany, show closed = trailing from hclosed]
  refine .pure ?_
  rw [htokens, bare_append, bare_append, bare_separated, bare_separated, List.map_map, List.map_map]
  simp only [Function.comp_def, hwritten]

end Bindery.Source.Grammar
