import Bindery.Proofs.Token.Leaves
import Bindery.Source.Type.Erasure
/-!
# What stands in a type

A type fits if all names in it are identifiers, all marks are punctuation characters and all
literals have a property, whatever stands where. What is written of it fits as well
(`Ty.fitsList_tokens`), and so does what erasure leaves of it (`Ty.Fits.erase`). The canonical form
of a type that fits is one line, but for the line ends of its literals.
-/

namespace Bindery.Source

open Token (Fits FitsList isIdent fitsList_nil fitsList_append fitsList_leaf fitsList_group)

section
variable (literal : String → Prop)

mutual

/-- Whether all that stands in a type fits. -/
def Ty.Fits : Ty → Prop
  | .path owner path => FitsOwner owner ∧ path.Fits
  | .reference name _ target => (∀ text ∈ name, isIdent text = true) ∧ target.Fits
  | .pointer _ target => target.Fits
  | .slice element => element.Fits
  | .array element length => element.Fits ∧ FitsCode length
  | .tuple elements _ => FitsTypes elements
  | .paren inner => inner.Fits
  | .never => True
  | .inferred => True
  | .object _ bounds _ => FitsBounds bounds
  | .anonymous bounds _ => FitsBounds bounds
  | .function head params _ tail output =>
    FitsCode head ∧ FitsParams params ∧ FitsCode tail ∧ FitsOutput output
  | .invocation path _ body => path.Fits ∧ FitsList literal body
  | .verbatim tokens => FitsList literal tokens

/-- Whether each type of a list fits. -/
def FitsTypes : List Ty → Prop
  | [] => True
  | type :: rest => type.Fits ∧ FitsTypes rest

/-- Whether a return type fits. -/
def FitsOutput : Option Ty → Prop
  | none => True
  | some type => type.Fits

/-- Whether a self type fits. -/
def FitsOwner : Option Owner → Prop
  | none => True
  | some (.mk type _) => type.Fits

/-- Whether all that stands in a path fits. -/
def Path.Fits : Path → Prop
  | .mk _ segments => FitsSegments segments

/-- Whether each segment of a path fits. -/
def FitsSegments : List Segment → Prop
  | [] => True
  | .mk name args :: rest => isIdent name = true ∧ args.Fits ∧ FitsSegments rest

/-- Whether the arguments of a segment fit. -/
def Args.Fits : Args → Prop
  | .none => True
  | .angle (.mk _ args _) => FitsArgs args
  | .call inputs _ output => FitsTypes inputs ∧ FitsOutput output

/-- Whether each generic argument of a list fits. -/
def FitsArgs : List Arg → Prop
  | [] => True
  | .lifetime name :: rest => isIdent name = true ∧ FitsArgs rest
  | .type type :: rest => type.Fits ∧ FitsArgs rest
  | .value code :: rest => FitsCode code ∧ FitsArgs rest
  | .typeBinding name args type :: rest =>
    (isIdent name = true ∧ FitsInner args ∧ type.Fits) ∧ FitsArgs rest
  | .valueBinding name args code :: rest =>
    (isIdent name = true ∧ FitsInner args ∧ FitsCode code) ∧ FitsArgs rest
  | .constraint name args bounds _ :: rest =>
    (isIdent name = true ∧ FitsInner args ∧ FitsBounds bounds) ∧ FitsArgs rest

/-- Whether the arguments of a binding fit. -/
def FitsInner : Option AngleArgs → Prop
  | none => True
  | some (.mk _ args _) => FitsArgs args

/-- Whether all that stands in a bound fits. -/
def Bound.Fits : Bound → Prop
  | .lifetime name => isIdent name = true
  | .trait _ head path => FitsCode head ∧ path.Fits
  | .verbatim pieces => FitsCode pieces

/-- Whether each bound of a list fits. -/
def FitsBounds : List Bound → Prop
  | [] => True
  | bound :: rest => bound.Fits ∧ FitsBounds rest

/-- Whether each parameter of a function pointer fits. -/
def FitsParams : List Param → Prop
  | [] => True
  | .mk head type :: rest => (FitsCode head ∧ type.Fits) ∧ FitsParams rest

/-- Whether all that stands in code fits. -/
def FitsCode : List Piece → Prop
  | [] => True
  | .token token :: rest => token.Fits literal ∧ FitsCode rest
  | .group _ body :: rest => FitsCode body ∧ FitsCode rest
  | .type type :: rest => type.Fits ∧ FitsCode rest
  | .path owner path _ :: rest => (FitsOwner owner ∧ path.Fits) ∧ FitsCode rest
  | .args (.mk _ args _) :: rest => FitsArgs args ∧ FitsCode rest
  | .bound bound :: rest => bound.Fits ∧ FitsCode rest

end

end

variable {literal : String → Prop}

/-! ## What is written -/

theorem fits_operator {text : String} (h : text.toList.all Token.punctuation.contains = true) :
    FitsList literal (operator text) := by
  replace h : ∀ c ∈ text.toList, c ∈ Token.punctuation := fun c hc =>
    List.contains_iff_mem.1 (List.all_eq_true.1 h c hc)
  unfold operator
  generalize text.toList = cs at h
  induction cs with
  | nil => exact fitsList_nil
  | cons c rest ih =>
    obtain ⟨hc, hrest⟩ := List.forall_mem_cons.1 h
    cases rest with
    | nil => exact fitsList_leaf.2 ⟨hc, fitsList_nil⟩
    | cons d rest => exact fitsList_leaf.2 ⟨hc, ih hrest⟩

theorem fits_word {name : String} (h : isIdent name = true) : FitsList literal (word name) :=
  fitsList_leaf.2 ⟨h, fitsList_nil⟩

theorem fits_lifetimeTokens {name : String} (h : isIdent name = true) :
    FitsList literal (lifetimeTokens name) := by
  have hquote : '\x27' ∈ Token.punctuation := by decide
  exact fitsList_leaf.2 ⟨hquote, fits_word h⟩

theorem fits_separated {separator : List (TokenTree Token)} {items : List (List (TokenTree Token))}
    (hseparator : FitsList literal separator) (trailing : Bool)
    (hitems : ∀ item ∈ items, FitsList literal item) :
    FitsList literal (separated separator trailing items) := by
  induction items with
  | nil => exact fitsList_nil
  | cons item rest ih =>
    obtain ⟨hitem, hrest⟩ := List.forall_mem_cons.1 hitems
    cases rest with
    | nil =>
      rw [separated]
      split
      · exact fitsList_append.2 ⟨hitem, hseparator⟩
      · exact hitem
    | cons next more =>
      rw [separated, fitsList_append, fitsList_append]
      exact ⟨⟨hitem, hseparator⟩, ih hrest⟩
      exact List.cons_ne_nil _ _

theorem fits_lifetimesFirst {items : List (Bool × List (TokenTree Token))} (trailing : Bool)
    (hitems : ∀ item ∈ items, FitsList literal item.2) :
    FitsList literal (lifetimesFirst trailing items) := by
  have hcomma : FitsList literal (operator ",") := fits_operator (by decide)
  have hpart : ∀ (keep : Bool × List (TokenTree Token) → Bool) (trailing : Bool),
      FitsList literal (separated (operator ",") trailing ((items.filter keep).map (·.2))) := by
    intro keep trailing
    refine fits_separated hcomma trailing (List.forall_mem_map.2 fun item hitem => ?_)
    exact hitems item (List.mem_of_mem_filter hitem)
  unfold lifetimesFirst
  simp only [fitsList_append]
  refine ⟨⟨hpart _ _, ?_⟩, hpart _ _⟩
  split
  · exact hcomma
  · exact fitsList_nil

theorem fits_qualify {owner : Option (List (TokenTree Token) × Nat)}
    {path : Bool × List (List (TokenTree Token))}
    (howner : ∀ found ∈ owner, FitsList literal found.1)
    (hpath : ∀ item ∈ path.2, FitsList literal item) : FitsList literal (qualify owner path) := by
  have hcolons : FitsList literal (operator "::") := fits_operator (by decide)
  have hopen : FitsList literal (operator "<") := fits_operator (by decide)
  have hclose : FitsList literal (operator ">") := fits_operator (by decide)
  have hword : FitsList literal (word "as") := fits_word (by decide)
  have hlead : FitsList literal (if path.1 then operator "::" else []) := by
    split
    · exact hcolons
    · exact fitsList_nil
  have hjoin : ∀ items, items ⊆ path.2 →
      FitsList literal (separated (operator "::") false items) :=
    fun items hsub => fits_separated hcolons false fun item hitem => hpath item (hsub hitem)
  unfold qualify
  cases owner with
  | none => exact fitsList_append.2 ⟨hlead, hjoin _ (List.Subset.refl _)⟩
  | some owner =>
    obtain ⟨type, position⟩ := owner
    have htype : FitsList literal type := howner (type, position) rfl
    have hfront := hjoin _ (List.take_subset position path.2)
    have hback := hjoin _ (List.drop_subset position path.2)
    dsimp only
    split
    · simp only [fitsList_append]
      exact ⟨⟨⟨⟨hopen, htype⟩, hclose⟩, hlead⟩, hback⟩
    · simp only [fitsList_append]
      refine ⟨⟨⟨⟨⟨⟨hopen, htype⟩, hword⟩, hlead⟩, hfront⟩, hclose⟩, ?_⟩
      split
      · exact fitsList_nil
      · exact fitsList_append.2 ⟨hcolons, hback⟩

theorem fits_mark {text : String} {tokens : List (TokenTree Token)}
    (hmark : text.toList.all Token.punctuation.contains = true) (h : FitsList literal tokens) :
    FitsList literal (operator text ++ tokens) :=
  fitsList_append.2 ⟨fits_operator hmark, h⟩

theorem fits_named {name text : String} {tokens : List (TokenTree Token)}
    (hname : isIdent name = true) (h : FitsList literal tokens)
    (hmark : text.toList.all Token.punctuation.contains = true) :
    FitsList literal (word name ++ tokens ++ operator text) :=
  fitsList_append.2 ⟨fitsList_append.2 ⟨fits_word hname, h⟩, fits_operator hmark⟩

theorem fits_single {delimiter : Delimiter} {body : List (TokenTree Token)}
    (h : FitsList literal body) : FitsList literal [.group delimiter body] :=
  fitsList_group.2 ⟨h, fitsList_nil⟩

theorem fits_angleTokens (style : PathStyle) (colons : Bool) {args : List Arg} (trailing : Bool)
    (h : ∀ item ∈ argTokens args, FitsList literal item.2) :
    FitsList literal (angleTokens style (.mk colons args trailing)) := by
  have hcolons : FitsList literal (operator "::") := fits_operator (by decide)
  have hlist : FitsList literal
      (operator "<" ++ lifetimesFirst trailing (argTokens args) ++ operator ">") :=
    fitsList_append.2 ⟨fits_mark (by decide) (fits_lifetimesFirst trailing h),
      fits_operator (by decide)⟩
  cases style with
  | bare => exact fitsList_nil
  | asWritten =>
    rw [angleTokens, List.append_assoc, List.append_assoc, fitsList_append,
      ← List.append_assoc (operator "<")]
    refine ⟨?_, hlist⟩
    split
    · exact hcolons
    · exact fitsList_nil
  | expression =>
    rw [angleTokens, List.append_assoc, List.append_assoc, fitsList_append,
      ← List.append_assoc (operator "<")]
    exact ⟨hcolons, hlist⟩

mutual

/-- What is written of a type that fits does so as well. -/
theorem Ty.fitsList_tokens : ∀ type : Ty, type.Fits literal → FitsList literal type.tokens
  | .path owner path, h =>
    fits_qualify (fitsList_ownerTokens owner h.1) (fitsList_nameTokens .asWritten path h.2)
  | .reference name mutable target, h => by
    refine fitsList_append.2 ⟨fitsList_append.2 ⟨fits_mark (by decide) ?_, ?_⟩,
      target.fitsList_tokens h.2⟩
    · cases name with
      | none => exact fitsList_nil
      | some text => exact fits_lifetimeTokens (h.1 text rfl)
    · split
      · exact fits_word (by decide)
      · exact fitsList_nil
  | .pointer mutable target, h => by
    refine fitsList_append.2 ⟨fits_mark (by decide) ?_, target.fitsList_tokens h⟩
    cases mutable <;> exact fits_word (by decide)
  | .slice element, h => fits_single (element.fitsList_tokens h)
  | .array element length, h => by
    refine fits_single (fitsList_append.2 ⟨fitsList_append.2 ⟨element.fitsList_tokens h.1, ?_⟩, ?_⟩)
    · exact fits_operator (by decide)
    · exact fitsList_codeTokens length h.2
  | .tuple elements trailing, h =>
    fits_single (fits_separated (fits_operator (by decide)) _ (fitsList_tyListTokens elements h))
  | .paren inner, h => fits_single (inner.fitsList_tokens h)
  | .never, _ => fits_operator (by decide)
  | .inferred, _ => fits_word (by decide)
  | .object keyword bounds trailing, h => by
    refine fitsList_append.2 ⟨?_, ?_⟩
    · cases keyword
      · exact fitsList_nil
      · exact fits_word (by decide)
    · exact fits_separated (fits_operator (by decide)) _ (fitsList_boundTokens bounds h)
  | .anonymous bounds trailing, h => by
    refine fitsList_append.2 ⟨fits_word (by decide), ?_⟩
    exact fits_separated (fits_operator (by decide)) _ (fitsList_boundTokens bounds h)
  | .function head params trailing tail output, h => by
    obtain ⟨hhead, hparams, htail, houtput⟩ := h
    refine fitsList_append.2 ⟨fitsList_append.2 ⟨fitsList_codeTokens head hhead, fits_single ?_⟩,
      fitsList_outputTokens output houtput⟩
    exact fitsList_append.2 ⟨fits_separated (fits_operator (by decide)) _
      (fitsList_paramTokens params hparams), fitsList_codeTokens tail htail⟩
  | .invocation path delimiter body, h => by
    refine fitsList_append.2 ⟨fitsList_append.2 ⟨?_, fits_operator (by decide)⟩, fits_single h.2⟩
    exact fits_qualify (fun _ hfound => nomatch hfound) (fitsList_nameTokens .bare path h.1)
  | .verbatim tokens, h => h

theorem fitsList_tyListTokens : ∀ types : List Ty, FitsTypes literal types →
    ∀ item ∈ tyListTokens types, FitsList literal item
  | [], _ => List.forall_mem_nil _
  | type :: rest, h =>
    List.forall_mem_cons.2 ⟨type.fitsList_tokens h.1, fitsList_tyListTokens rest h.2⟩

theorem fitsList_outputTokens : ∀ output : Option Ty, FitsOutput literal output →
    FitsList literal (outputTokens output)
  | none, _ => fitsList_nil
  | some type, h => fits_mark (by decide) (type.fitsList_tokens h)

theorem fitsList_nameTokens (style : PathStyle) : ∀ path : Path, path.Fits literal →
    ∀ item ∈ (nameTokens style path).2, FitsList literal item
  | .mk _ segments, h => fitsList_segmentTokens style segments h

theorem fitsList_ownerTokens : ∀ owner : Option Owner, FitsOwner literal owner →
    ∀ found ∈ ownerTokens owner, FitsList literal found.1
  | none, _ => fun _ hfound => nomatch hfound
  | some (.mk type position), h => by
    intro found hfound
    obtain rfl := Option.some.inj hfound
    exact type.fitsList_tokens h

theorem fitsList_segmentTokens (style : PathStyle) : ∀ segments : List Segment,
    FitsSegments literal segments → ∀ item ∈ segmentTokens style segments, FitsList literal item
  | [], _ => List.forall_mem_nil _
  | .mk name args :: rest, h => by
    obtain ⟨hname, hargs, hrest⟩ := h
    refine List.forall_mem_cons.2 ⟨?_, fitsList_segmentTokens style rest hrest⟩
    exact fitsList_append.2 ⟨fits_word hname, fitsList_argsTokens style args hargs⟩

theorem fitsList_argsTokens (style : PathStyle) : ∀ args : Args, args.Fits literal →
    FitsList literal (argsTokens style args)
  | .none, _ => fitsList_nil
  | .angle (.mk colons args trailing), h =>
    fits_angleTokens style colons trailing (fitsList_argTokens args h)
  | .call inputs trailing output, h =>
    fitsList_append.2 ⟨fits_single (fits_separated (fits_operator (by decide)) _
      (fitsList_tyListTokens inputs h.1)), fitsList_outputTokens output h.2⟩

theorem fitsList_optionalAngleTokens : ∀ args : Option AngleArgs, FitsInner literal args →
    FitsList literal (optionalAngleTokens args)
  | none, _ => fitsList_nil
  | some (.mk colons args trailing), h =>
    fits_angleTokens .asWritten colons trailing (fitsList_argTokens args h)

theorem fitsList_argTokens : ∀ args : List Arg, FitsArgs literal args →
    ∀ item ∈ argTokens args, FitsList literal item.2
  | [], _ => List.forall_mem_nil _
  | .lifetime name :: rest, h =>
    List.forall_mem_cons.2 ⟨fits_lifetimeTokens h.1, fitsList_argTokens rest h.2⟩
  | .type type :: rest, h =>
    List.forall_mem_cons.2 ⟨type.fitsList_tokens h.1, fitsList_argTokens rest h.2⟩
  | .value code :: rest, h =>
    List.forall_mem_cons.2 ⟨fitsList_codeTokens code h.1, fitsList_argTokens rest h.2⟩
  | .typeBinding name args type :: rest, h => by
    obtain ⟨⟨hname, hargs, htype⟩, hrest⟩ := h
    refine List.forall_mem_cons.2 ⟨?_, fitsList_argTokens rest hrest⟩
    exact fitsList_append.2 ⟨fits_named hname (fitsList_optionalAngleTokens args hargs) (by decide),
      type.fitsList_tokens htype⟩
  | .valueBinding name args code :: rest, h => by
    obtain ⟨⟨hname, hargs, hcode⟩, hrest⟩ := h
    refine List.forall_mem_cons.2 ⟨?_, fitsList_argTokens rest hrest⟩
    exact fitsList_append.2 ⟨fits_named hname (fitsList_optionalAngleTokens args hargs) (by decide),
      fitsList_codeTokens code hcode⟩
  | .constraint name args bounds trailing :: rest, h => by
    obtain ⟨⟨hname, hargs, hbounds⟩, hrest⟩ := h
    refine List.forall_mem_cons.2 ⟨?_, fitsList_argTokens rest hrest⟩
    exact fitsList_append.2 ⟨fits_named hname (fitsList_optionalAngleTokens args hargs) (by decide),
      fits_separated (fits_operator (by decide)) _ (fitsList_boundTokens bounds hbounds)⟩

theorem Bound.fitsList_tokens : ∀ bound : Bound, bound.Fits literal → FitsList literal bound.tokens
  | .lifetime _, h => fits_lifetimeTokens h
  | .trait parens head path, h => by
    have hinside : FitsList literal
        (codeTokens head ++ qualify none (nameTokens .asWritten path)) :=
      fitsList_append.2 ⟨fitsList_codeTokens head h.1,
        fits_qualify (fun _ hfound => nomatch hfound) (fitsList_nameTokens .asWritten path h.2)⟩
    cases parens with
    | false => exact hinside
    | true => exact fits_single hinside
  | .verbatim pieces, h => fitsList_codeTokens pieces h

theorem fitsList_boundTokens : ∀ bounds : List Bound, FitsBounds literal bounds →
    ∀ item ∈ boundTokens bounds, FitsList literal item
  | [], _ => List.forall_mem_nil _
  | bound :: rest, h =>
    List.forall_mem_cons.2 ⟨bound.fitsList_tokens h.1, fitsList_boundTokens rest h.2⟩

theorem fitsList_paramTokens : ∀ params : List Param, FitsParams literal params →
    ∀ item ∈ paramTokens params, FitsList literal item
  | [], _ => List.forall_mem_nil _
  | .mk head type :: rest, h => by
    obtain ⟨⟨hhead, htype⟩, hrest⟩ := h
    refine List.forall_mem_cons.2 ⟨?_, fitsList_paramTokens rest hrest⟩
    exact fitsList_append.2 ⟨fitsList_codeTokens head hhead, type.fitsList_tokens htype⟩

theorem fitsList_codeTokens : ∀ code : List Piece, FitsCode literal code →
    FitsList literal (codeTokens code)
  | [], _ => fitsList_nil
  | .token _ :: rest, h => fitsList_leaf.2 ⟨h.1, fitsList_codeTokens rest h.2⟩
  | .group _ body :: rest, h =>
    fitsList_group.2 ⟨fitsList_codeTokens body h.1, fitsList_codeTokens rest h.2⟩
  | .type type :: rest, h =>
    fitsList_append.2 ⟨type.fitsList_tokens h.1, fitsList_codeTokens rest h.2⟩
  | .path owner path style :: rest, h =>
    fitsList_append.2 ⟨fits_qualify (fitsList_ownerTokens owner h.1.1)
      (fitsList_nameTokens style path h.1.2), fitsList_codeTokens rest h.2⟩
  | .args (.mk colons args trailing) :: rest, h =>
    fitsList_append.2 ⟨fits_angleTokens .expression colons trailing (fitsList_argTokens args h.1),
      fitsList_codeTokens rest h.2⟩
  | .bound bound :: rest, h =>
    fitsList_append.2 ⟨bound.fitsList_tokens h.1, fitsList_codeTokens rest h.2⟩

end

/-! ## What is left -/

mutual

/-- What erasure leaves of a type that fits does so as well. -/
theorem Ty.fits_erase : ∀ type : Ty, type.Fits literal → type.erase.Fits literal
  | .path owner path, h => ⟨fitsOwner_erase owner h.1, path.fits_erase h.2⟩
  | .reference _ _ target, h => ⟨fun _ hname => (nomatch hname), target.fits_erase h.2⟩
  | .pointer _ target, h => target.fits_erase h
  | .slice element, h => element.fits_erase h
  | .array element length, h => ⟨element.fits_erase h.1, fitsCode_erase length h.2⟩
  | .tuple elements _, h => fitsTypes_erase elements h
  | .paren inner, h => inner.fits_erase h
  | .never, _ => trivial
  | .inferred, _ => trivial
  | .object _ bounds _, h => fitsBounds_erase false bounds h
  | .anonymous bounds _, h => fitsBounds_erase true bounds h
  | .function head params _ tail output, h =>
    ⟨fitsCode_erase head h.1, fitsParams_erase params h.2.1, fitsCode_erase tail h.2.2.1,
      fitsOutput_erase output h.2.2.2⟩
  | .invocation path _ _, h => ⟨path.fits_erase h.1, h.2⟩
  | .verbatim _, h => h

theorem fitsTypes_erase : ∀ types : List Ty, FitsTypes literal types →
    FitsTypes literal (eraseTypes types)
  | [], _ => trivial
  | type :: rest, h => ⟨type.fits_erase h.1, fitsTypes_erase rest h.2⟩

theorem fitsOutput_erase : ∀ output : Option Ty, FitsOutput literal output →
    FitsOutput literal (eraseOutput output)
  | none, _ => trivial
  | some type, h => type.fits_erase h

theorem fitsOwner_erase : ∀ owner : Option Owner, FitsOwner literal owner →
    FitsOwner literal (eraseOwner owner)
  | none, _ => trivial
  | some (.mk type _), h => type.fits_erase h

theorem Path.fits_erase : ∀ path : Path, path.Fits literal → path.erase.Fits literal
  | .mk _ segments, h => fitsSegments_erase segments h

theorem fitsSegments_erase : ∀ segments : List Segment, FitsSegments literal segments →
    FitsSegments literal (eraseSegments segments)
  | [], _ => trivial
  | [.mk _ args], h => ⟨h.1, args.fits_erase h.2.1, trivial⟩
  | .mk _ _ :: next :: rest, h => fitsSegments_erase (next :: rest) h.2.2

theorem Args.fits_erase : ∀ args : Args, args.Fits literal → (eraseArgs args).Fits literal
  | .none, _ => trivial
  | .angle (.mk _ args _), h => by
    have hargs := fitsArgs_erase false args h
    show (if (eraseArgList false args).isEmpty then Args.none else _).Fits literal
    split
    · trivial
    · exact hargs
  | .call inputs _ output, h => ⟨fitsTypes_erase inputs h.1, fitsOutput_erase output h.2⟩

theorem fitsArgs_erase (keep : Bool) : ∀ args : List Arg, FitsArgs literal args →
    FitsArgs literal (eraseArgList keep args)
  | [], _ => trivial
  | .lifetime _ :: rest, h => by
    show FitsArgs literal (if keep then _ else _)
    split
    · exact ⟨h.1, fitsArgs_erase keep rest h.2⟩
    · exact fitsArgs_erase keep rest h.2
  | .type type :: rest, h => ⟨type.fits_erase h.1, fitsArgs_erase keep rest h.2⟩
  | .value code :: rest, h => ⟨fitsCode_erase code h.1, fitsArgs_erase keep rest h.2⟩
  | .typeBinding _ args type :: rest, h =>
    ⟨⟨h.1.1, fitsInner_erase args h.1.2.1, type.fits_erase h.1.2.2⟩, fitsArgs_erase keep rest h.2⟩
  | .valueBinding _ args code :: rest, h =>
    ⟨⟨h.1.1, fitsInner_erase args h.1.2.1, fitsCode_erase code h.1.2.2⟩,
      fitsArgs_erase keep rest h.2⟩
  | .constraint _ args bounds _ :: rest, h =>
    ⟨⟨h.1.1, fitsInner_erase args h.1.2.1, fitsBounds_erase true bounds h.1.2.2⟩,
      fitsArgs_erase keep rest h.2⟩

theorem fitsInner_erase : ∀ args : Option AngleArgs, FitsInner literal args →
    FitsInner literal (eraseInner args)
  | none, _ => trivial
  | some (.mk _ args _), h => fitsArgs_erase true args h

theorem Bound.fits_erase : ∀ bound : Bound, bound.Fits literal → bound.erase.Fits literal
  | .lifetime _, h => h
  | .trait _ head path, h => ⟨fitsCode_erase head h.1, path.fits_erase h.2⟩
  | .verbatim _, h => h

theorem fitsBounds_erase (keep : Bool) : ∀ bounds : List Bound, FitsBounds literal bounds →
    FitsBounds literal (eraseBounds keep bounds)
  | [], _ => trivial
  | bound :: rest, h => by
    show FitsBounds literal (if keep || !bound.isLifetime then _ else _)
    split
    · exact ⟨bound.fits_erase h.1, fitsBounds_erase keep rest h.2⟩
    · exact fitsBounds_erase keep rest h.2

theorem fitsParams_erase : ∀ params : List Param, FitsParams literal params →
    FitsParams literal (eraseParams params)
  | [], _ => trivial
  | .mk head type :: rest, h =>
    ⟨⟨fitsCode_erase head h.1.1, type.fits_erase h.1.2⟩, fitsParams_erase rest h.2⟩

theorem fitsCode_erase : ∀ code : List Piece, FitsCode literal code →
    FitsCode literal (eraseCode code)
  | [], _ => trivial
  | .token _ :: rest, h => ⟨h.1, fitsCode_erase rest h.2⟩
  | .group _ body :: rest, h => ⟨fitsCode_erase body h.1, fitsCode_erase rest h.2⟩
  | .type type :: rest, h => ⟨type.fits_erase h.1, fitsCode_erase rest h.2⟩
  | .path owner path _ :: rest, h =>
    ⟨⟨fitsOwner_erase owner h.1.1, path.fits_erase h.1.2⟩, fitsCode_erase rest h.2⟩
  | .args (.mk _ args _) :: rest, h => ⟨fitsArgs_erase true args h.1, fitsCode_erase rest h.2⟩
  | .bound bound :: rest, h => ⟨bound.fits_erase h.1, fitsCode_erase rest h.2⟩

end

/-! ## Line ends -/

/-- The canonical form of a type that fits is one line, but for the line ends of its literals. -/
theorem Ty.literal_of_lineEnd {type : Ty} (fits : type.Fits literal)
    (h : '\n' ∈ type.canonical.toList) : ∃ text, literal text ∧ '\n' ∈ text.toList := by
  have herased := type.erase.fitsList_tokens (type.fits_erase fits)
  obtain ⟨text, hmem, hline⟩ := (Token.lineEnd_mem_compact_iff herased).1 h
  exact ⟨text, herased _ hmem, hline⟩

end Bindery.Source
