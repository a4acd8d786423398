import Bindery.Proofs.Source.Keeping
import Bindery.Source.Grammar.Type
/-!
# Types and paths keep to what they are read of

Where all that stands ahead fits, so does a path or a type that is read of it, if the rules that it
refers to keep to it as well (`keeps_typeWith`).
-/

namespace Bindery.Source

open Token (FitsList isIdent fitsList_nil)

section
variable (literal : String → Prop)

/-- Whether the types in the head of a function fit. -/
def FitsSignature (signature : Signature) : Prop :=
  FitsTypes literal signature.params ∧ FitsOutput literal signature.output

/-- The same of a member that is a function. -/
def Member.Fits : Member → Prop
  | .function _ _ signature => FitsSignature literal signature
  | _ => True

end

mutual

/-- Whether the types in the heads of the functions of an item fit. -/
def Item.Fits (literal : String → Prop) : Item → Prop
  | .module _ _ content => FitsContent literal content
  | .function _ _ signature => FitsSignature literal signature
  | .implementation _ _ _ members => ∀ member ∈ members, member.Fits literal
  | _ => True

/-- The same of the items of a module, if they are written inline. -/
def FitsContent (literal : String → Prop) : Option (List Item) → Prop
  | none => True
  | some items => FitsItems literal items

/-- The same of all items of a list. -/
def FitsItems (literal : String → Prop) : List Item → Prop
  | [] => True
  | item :: rest => item.Fits literal ∧ FitsItems literal rest

end

namespace Grammar

/-- The rules keep to what they are given. -/
class Rules.Sound (literal : String → Prop) (rules : Rules) : Prop where
  type : ∀ plus, Keeps literal (rules.type plus) (Ty.Fits literal)
  bound : Keeps literal rules.bound (Bound.Fits literal)
  unary : ∀ struct, Grammar.Sound literal (rules.unary struct)
  standing : Grammar.Sound literal rules.standing
  climb : ∀ struct form base, Grammar.Sound literal (rules.climb struct form base)
  pattern : Grammar.Sound literal rules.pattern
  statements : Grammar.Sound literal rules.statements
  item : Keeps literal rules.item (Item.Fits literal)
  imports : ∀ rooted, Grammar.Sound literal (rules.imports rooted)

attribute [instance] Rules.Sound.unary Rules.Sound.standing Rules.Sound.climb Rules.Sound.pattern
  Rules.Sound.statements Rules.Sound.imports

variable {literal : String → Prop} {rules : Rules} [sound : rules.Sound literal]

-- What is found of a rule is as large as the rule itself.
set_option synthInstance.maxSize 100000

/-! ## The rules that others refer to -/

instance sound_type (plus : Bool) : Sound literal (rules.type plus) := (sound.type plus).sound

instance sound_bound : Sound literal rules.bound := sound.bound.sound

instance sound_item : Sound literal rules.item := sound.item.sound

instance sound_expression (struct : Bool) : Sound literal (rules.expression struct) := by
  unfold Rules.expression
  infer_instance

instance sound_boundPiece : Sound literal rules.boundPiece := by
  refine ⟨.bind (keeps_piece sound.bound fun bound h => ?_) fun _ _ => .pure trivial⟩
  exact ⟨h, trivial⟩

instance sound_typePiece (plus : Bool) : Sound literal (rules.typePiece plus) := by
  refine ⟨.bind (keeps_piece (sound.type plus) fun type h => ?_) fun _ _ => .pure trivial⟩
  exact ⟨h, trivial⟩

/-! ## Attributes -/

omit sound in
theorem fits_plain {names : List String} (absolute : Bool)
    (h : ∀ name ∈ names, isIdent name = true) :
    (Path.mk absolute (names.map fun name => .mk name .none)).Fits literal := by
  induction names with
  | nil => trivial
  | cons name rest ih =>
    obtain ⟨hname, hrest⟩ := List.forall_mem_cons.1 h
    exact ⟨hname, trivial, ih hrest⟩

omit sound in
theorem keeps_plainPath : Keeps literal plainPath (Path.Fits literal) := by
  have hloop : Keeps literal (loop (([] : List String), true) fun state => do
      if !state.2 || !(← ahead Ahead.plainSegment) then return none
      let name ← anyIdent
      return some (name.text :: state.1, ← op? "::"))
      fun state => ∀ name ∈ state.1, isIdent name = true := by
    refine keeps_loop (fun state hstate => ?_) (List.forall_mem_nil _)
    refine .after fun _ => .ite .none (.after fun name => .after fun more => .some ?_)
    exact List.forall_mem_cons.2 ⟨name.isIdent, hstate⟩
  unfold plainPath
  refine .after fun absolute => .after fun _ => .join fun _ => hloop.bind fun state hstate => ?_
  refine .ite (keeps_expected _) (.pure (fits_plain absolute fun name hname => ?_))
  exact hstate name (List.mem_reverse.1 hname)

omit sound in
instance sound_plainPath : Sound literal plainPath := keeps_plainPath.sound

theorem fitsCode_plainPath {path : Path} (h : path.Fits literal) :
    FitsCode literal [.path none path .bare] :=
  ⟨⟨trivial, h⟩, trivial⟩

omit sound in
instance sound_plainPathPiece : Sound literal plainPathPiece :=
  (keeps_piece keeps_plainPath fun _ => fitsCode_plainPath).sound

omit sound in
instance sound_macroBody : Sound literal macroBody := by
  unfold macroBody
  infer_instance

instance sound_attributeContent : Sound literal (attributeContent rules) := by
  have hpath : Keeps literal (do
      if ← keyword? "unsafe" then return .mk false [.mk "unsafe" .none] else plainPath)
      (Path.Fits literal) :=
    .after fun _ => .ite (.pure ⟨by decide, trivial, trivial⟩) keeps_plainPath
  refine ⟨.bind (keeps_piece hpath fun _ => fitsCode_plainPath) fun path _ =>
    .after fun trees => ?_⟩
  split
  · exact .after fun _ => .pure trivial
  · refine .ite (.after fun _ => .after fun plain => .ite (.after fun _ => ?_) ?_) (.pure trivial)
    · exact .ite (.throw_bind _ _) (.after fun _ => .pure trivial)
    · exact .pure trivial

instance sound_outerAttribute : Sound literal (outerAttribute rules) := by
  unfold outerAttribute
  infer_instance

instance sound_outerAttributes : Sound literal (outerAttributes rules) := by
  unfold outerAttributes
  infer_instance

instance sound_innerAttributes : Sound literal (innerAttributes rules) := by
  unfold innerAttributes
  infer_instance

instance sound_block : Sound literal (block rules) := by
  unfold block
  infer_instance

/-! ## Paths -/

theorem keeps_valueArgument : Keeps literal (valueArgument rules) (FitsCode literal) := by
  unfold valueArgument
  exact (keeps_recording (Sound.keeps)).bind fun result h => .pure h.2

instance sound_valueArgument : Sound literal (valueArgument rules) := keeps_valueArgument.sound

omit sound in
theorem keeps_boundList {α : Type} {property : α → Prop} (stop : Trees → Bool) {bound : Grammar α}
    (h : Keeps literal bound property) :
    Keeps literal (boundList stop bound) fun result => ∀ found ∈ result.1, property found := by
  refine .bind (keeps_loop (fun state hstate => ?_) (List.forall_mem_nil _) :
    Keeps literal _ fun state => ∀ found ∈ state.1, property found) fun state hstate => ?_
  · obtain ⟨bounds, more⟩ := state
    refine .after fun _ => .ite .none (h.bind fun bound hbound => .after fun _ => .some ?_)
    exact List.forall_mem_cons.2 ⟨hbound, hstate⟩
  · exact .pure fun found hfound => hstate found (List.mem_reverse.1 hfound)

omit sound in
instance sound_boundList {α : Type} (stop : Trees → Bool) (bound : Grammar α)
    [h : Sound literal bound] : Sound literal (boundList stop bound) :=
  (keeps_boundList stop h.keeps).sound

omit sound in
instance sound_lifetimeParam : Sound literal lifetimeParam := by
  unfold lifetimeParam
  infer_instance

instance sound_typeParam : Sound literal (typeParam rules) := by
  dsimp only [typeParam]
  infer_instance

instance sound_valueParam : Sound literal (valueParam rules) := by
  refine ⟨.after fun _ => .after fun _ => .after fun _ => .after fun _ => .after fun _ => ?_⟩
  refine .ite (keeps_valueArgument.bind fun pieces h => ?_) (.pure trivial)
  exact keeps_record (fitsCode_reverse.2 h)

instance sound_genericParam : Sound literal (genericParam rules) := by
  unfold genericParam
  infer_instance

instance sound_binder : Sound literal (binder rules) := by
  unfold binder
  infer_instance

instance sound_binder? : Sound literal (binder? rules) := by
  unfold binder?
  infer_instance

omit sound in
/-- A type that may stand for the name of a binding fits with the arguments of that name. -/
theorem fits_of_asBinding? {type : Ty} (fits : type.Fits literal) {name : String}
    {args : Option AngleArgs} (h : Ty.asBinding? type = some (name, args)) :
    isIdent name = true ∧ FitsInner literal args := by
  unfold Ty.asBinding? at h
  split at h
  · cases h
    exact ⟨fits.2.1, trivial⟩
  · next args =>
    cases h
    cases args
    exact ⟨fits.2.1, fits.2.2.1⟩
  · cases h

omit sound in
theorem fitsBounds_of_forall {bounds : List Bound} (h : ∀ bound ∈ bounds, bound.Fits literal) :
    FitsBounds literal bounds := by
  induction bounds with
  | nil => trivial
  | cons bound rest ih =>
    obtain ⟨hbound, hrest⟩ := List.forall_mem_cons.1 h
    exact ⟨hbound, ih hrest⟩

theorem keeps_genericArgument :
    Keeps literal (genericArgument rules) fun arg => FitsArgs literal [arg] := by
  unfold genericArgument
  refine .after fun trees => .ite (keeps_lifetime.bind fun name h => .pure ⟨h, trivial⟩) ?_
  refine .ite (keeps_valueArgument.bind fun code h => .pure ⟨h, trivial⟩) ?_
  refine (sound.type true).bind fun type htype => ?_
  split
  · exact .pure ⟨htype, trivial⟩
  · next name args hbinding =>
    obtain ⟨hname, hargs⟩ := fits_of_asBinding? htype hbinding
    refine .after fun _ => .ite (.after fun _ => .ite ?_ ?_) (.after fun _ => .ite ?_ ?_)
    · exact keeps_valueArgument.bind fun code h => .pure ⟨⟨hname, hargs, h⟩, trivial⟩
    · exact (sound.type true).bind fun held h => .pure ⟨⟨hname, hargs, h⟩, trivial⟩
    · refine (keeps_boundList _ sound.bound).bind fun result h => .pure ?_
      exact ⟨⟨hname, hargs, fitsBounds_of_forall h⟩, trivial⟩
    · exact .pure ⟨htype, trivial⟩

omit sound in
theorem fitsArgs_of_forall {args : List Arg} (h : ∀ arg ∈ args, FitsArgs literal [arg]) :
    FitsArgs literal args := by
  induction args with
  | nil => trivial
  | cons arg rest ih =>
    obtain ⟨harg, hrest⟩ := List.forall_mem_cons.1 h
    cases arg <;> exact ⟨harg.1, ih hrest⟩

theorem keeps_angleArgs :
    Keeps literal (angleArgs rules) fun args => FitsInner literal (some args) := by
  unfold angleArgs
  refine .after fun colons => .after fun _ => ?_
  refine (keeps_separatedBy _ _ keeps_genericArgument).bind fun result h => .after fun _ => ?_
  exact .pure (fitsArgs_of_forall h)

instance sound_angleArgs : Sound literal (angleArgs rules) := keeps_angleArgs.sound

theorem keeps_pathSegment (expression : Bool) : Keeps literal (pathSegment rules expression)
    fun segment => FitsSegments literal [segment] := by
  have hrest : ∀ name : Name, Keeps literal (do
      if ← ahead (Ahead.angleArgs expression) then
        return .mk name.text (.angle (← angleArgs rules))
      else return .mk name.text .none) fun segment => FitsSegments literal [segment] := by
    refine fun name => .after fun _ => .ite (keeps_angleArgs.bind fun args h => .pure ?_) ?_
    · cases args
      exact ⟨name.isIdent, h, trivial⟩
    · exact .pure ⟨name.isIdent, trivial, trivial⟩
  unfold pathSegment
  refine .after fun _ => .ite (.after fun name => .pure ⟨name.isIdent, trivial, trivial⟩) ?_
  exact .after fun _ => .ite (.after hrest) (.after hrest)

omit sound in
theorem fitsSegments_iff {segments : List Segment} :
    FitsSegments literal segments ↔ ∀ segment ∈ segments, FitsSegments literal [segment] := by
  induction segments with
  | nil => exact iff_of_true trivial (List.forall_mem_nil _)
  | cons segment rest ih =>
    cases segment
    simp only [List.forall_mem_cons, ← ih, FitsSegments, and_true, and_assoc]

theorem keeps_moreSegments (expression : Bool) {p : Trees → Bool} : Keeps literal (many do
      if ← ahead p then
        op "::"
        return some (← pathSegment rules expression)
      else return none)
    fun segments => ∀ segment ∈ segments, FitsSegments literal [segment] := by
  refine keeps_many (.after fun _ => .ite (.after fun _ => ?_) .none)
  exact (keeps_pathSegment expression).bind fun segment h => .some h

theorem keeps_pathWith (expression : Bool) :
    Keeps literal (pathWith rules expression) (Path.Fits literal) := by
  unfold pathWith
  refine .after fun absolute => (keeps_pathSegment expression).bind fun first hfirst => ?_
  refine (keeps_moreSegments expression).bind fun more hmore => .pure ?_
  exact fitsSegments_iff.2 (List.forall_mem_cons.2 ⟨hfirst, hmore⟩)

theorem keeps_qualifiedPath (expression : Bool) : Keeps literal (qualifiedPath rules expression)
    fun result => FitsOwner literal result.1 ∧ result.2.Fits literal := by
  have hmore : Keeps literal (many do
        if ← op? "::" then return some (← pathSegment rules expression) else return none)
      fun segments => ∀ segment ∈ segments, FitsSegments literal [segment] :=
    keeps_many (.after fun _ => .ite
      ((keeps_pathSegment expression).bind fun segment h => .some h) .none)
  have hrest : ∀ finish : Segment → List Segment → Grammar (Option Owner × Path),
      (∀ first more, (∀ segment ∈ first :: more, FitsSegments literal [segment]) →
        Keeps literal (finish first more)
          fun result => FitsOwner literal result.1 ∧ result.2.Fits literal) →
      Keeps literal (do
        op ">"
        op "::"
        let first ← pathSegment rules expression
        let more ← many do
          if ← op? "::" then return some (← pathSegment rules expression) else return none
        finish first more)
      fun result => FitsOwner literal result.1 ∧ result.2.Fits literal := by
    intro finish hfinish
    refine .after fun _ => .after fun _ =>
      (keeps_pathSegment expression).bind fun first hfirst => ?_
    exact hmore.bind fun more hmore => hfinish _ _ (List.forall_mem_cons.2 ⟨hfirst, hmore⟩)
  unfold qualifiedPath
  refine .after fun _ => .ite ((keeps_pathWith expression).bind fun path h => .pure ⟨trivial, h⟩) ?_
  refine .after fun _ => (sound.type true).bind fun type htype => .after fun _ => .ite ?cast ?self
  case cast =>
    refine .bind ((keeps_pathWith false).bind fun path h => .some h) fun cast hcast => ?_
    refine hrest _ fun first more hback => ?_
    rcases cast with _ | ⟨absolute, segments⟩
    · exact .pure ⟨htype, fitsSegments_iff.2 hback⟩
    · have hfront := fitsSegments_iff.1 (hcast _ rfl)
      exact .pure ⟨htype, fitsSegments_iff.2 (List.forall_mem_append.2 ⟨hfront, hback⟩)⟩
  case self => exact hrest _ fun first more hback => .pure ⟨htype, fitsSegments_iff.2 hback⟩

theorem keeps_pathPiece : Keeps literal
    (piece (qualifiedPath rules true) fun (owner, path) => .path owner path .expression)
    fun result => FitsOwner literal result.1 ∧ result.2.Fits literal :=
  keeps_piece (keeps_qualifiedPath true) fun _ h => ⟨h, trivial⟩

/-! ## Bounds -/

theorem keeps_returnType (plus : Bool) :
    Keeps literal (returnType rules plus) (FitsOutput literal) := by
  unfold returnType
  exact .after fun _ => .ite ((sound.type plus).bind fun type h => .pure h) (.pure trivial)

omit sound in
theorem fitsTypes_iff {types : List Ty} :
    FitsTypes literal types ↔ ∀ type ∈ types, type.Fits literal := by
  induction types with
  | nil => exact iff_of_true trivial (List.forall_mem_nil _)
  | cons type rest ih => rw [List.forall_mem_cons, ← ih, FitsTypes]

theorem keeps_callArgs : Keeps literal (callArgs rules) (Args.Fits literal) := by
  unfold callArgs
  refine (keeps_within _ (keeps_terminated (sound.type true))).bind fun inputs hinputs => ?_
  exact (keeps_returnType false).bind fun output houtput =>
    .pure ⟨fitsTypes_iff.2 hinputs, houtput⟩

omit sound in
theorem fits_withCall {args : Args} {path : Path} (hargs : args.Fits literal)
    (hpath : path.Fits literal) : (Path.withCall args path).Fits literal := by
  obtain ⟨absolute, segments⟩ := path
  have hsegments := fitsSegments_iff.1 hpath
  unfold Path.withCall
  refine fitsSegments_iff.2 ?_
  rcases hreverse : segments.reverse with _ | ⟨last, before⟩
  · exact List.forall_mem_nil _
  · have hall : ∀ segment ∈ last :: before, FitsSegments literal [segment] := fun segment hmem =>
      hsegments segment (List.mem_reverse.1 (hreverse ▸ hmem))
    obtain ⟨hlast, hbefore⟩ := List.forall_mem_cons.1 hall
    have hcall : FitsSegments literal [.mk last.name args] := by
      cases last
      exact ⟨hlast.1, hargs, trivial⟩
    have hnew : ∀ segment ∈ Segment.mk last.name args :: before, FitsSegments literal [segment] :=
      List.forall_mem_cons.2 ⟨hcall, hbefore⟩
    exact fun segment hmem => hnew segment (List.mem_reverse.1 hmem)

theorem keeps_traitBound (context : BoundContext) : Keeps literal (traitBound rules context)
    fun result => FitsCode literal result.2.1 ∧ result.2.2.Fits literal := by
  have hhead : Sound literal (do
      let binds ← binder? rules
      let conditional ← ahead (Ahead.group .bracket)
      let constant ← ahead (Ahead.word "const")
      if conditional then
        within .bracket (keyword "const")
        if !context.constant then throw .refused
      else if constant then
        keyword "const"
        if !context.constant then throw .refused
      let relaxed ← op? "?"
      if binds && relaxed then throw .refused
      return conditional || constant) := by
    dsimp only
    infer_instance
  unfold traitBound
  refine (keeps_recording hhead.keeps).bind fun head h =>
    (keeps_pathWith false).bind fun path hpath => ?_
  refine .after fun trees => .ite (.after fun _ => keeps_callArgs.bind fun args hargs => ?_) ?_
  · exact .pure ⟨h.2, fits_withCall hargs hpath⟩
  · exact .pure ⟨h.2, hpath⟩

omit sound in
instance sound_captureList : Sound literal captureList := by
  unfold captureList
  infer_instance

theorem keeps_boundWith (context : BoundContext) :
    Keeps literal (boundWith rules context) (Bound.Fits literal) := by
  unfold boundWith
  refine .after fun trees => .ite (keeps_lifetime.bind fun name h => .pure h) (.ite ?_ ?_)
  · exact (keeps_recording sound_captureList.keeps).bind fun result h =>
      .ite (.pure h.2) (.throw _)
  · refine (keeps_spanning (.ite ?_ (keeps_traitBound context))).bind fun result h => .ite ?_ ?_
    · exact keeps_within _ (keeps_traitBound context)
    · exact .pure (fits_ofTrees _ h.2)
    · exact .pure h.1

theorem keeps_boundsWith (context : BoundContext) (plus : Bool) :
    Keeps literal (boundsWith rules context plus) fun result =>
      ∀ bound ∈ result.1, bound.Fits literal := by
  refine .bind (keeps_loop (fun state hstate => ?_) (List.forall_mem_nil _) :
    Keeps literal _ fun state => ∀ bound ∈ state.1, Bound.Fits literal bound) fun state hstate => ?_
  · obtain ⟨bounds, more⟩ := state
    refine .ite .none (.after fun _ => .ite .none
      ((keeps_boundWith context).bind fun bound h => ?_))
    have hbounds : ∀ found ∈ bound :: bounds, found.Fits literal :=
      List.forall_mem_cons.2 ⟨h, hstate⟩
    exact .ite (.after fun _ => .some hbounds) (.after fun _ => .some hbounds)
  · exact .pure fun bound h => hstate bound (List.mem_reverse.1 h)

/-! ## Types -/

theorem keeps_objectBounds (plus : Bool) : Keeps literal (objectBounds rules plus)
    fun result => FitsBounds literal result.1 := by
  unfold objectBounds
  refine (keeps_boundsWith _ plus).bind fun result h => ?_
  exact .ite (.pure (fitsBounds_of_forall h)) (.throw _)

theorem keeps_moreBounds (strict : Bool) {first : Bound} (h : first.Fits literal) :
    Keeps literal (moreBounds rules strict first) (Ty.Fits literal) := by
  refine .bind (keeps_loop (fun state hstate => ?_) (List.forall_mem_singleton.2 h) :
    Keeps literal _ fun state => ∀ bound ∈ state.1, Bound.Fits literal bound) fun state hstate => ?_
  · obtain ⟨bounds, more⟩ := state
    refine .ite .none (.after fun _ => .ite .none ?_)
    have hread : Keeps literal (do
        return some ((← boundWith rules objectContext) :: bounds, true))
        fun next => ∀ found ∈ next, ∀ bound ∈ found.1, Bound.Fits literal bound :=
      (keeps_boundWith _).bind fun bound hbound => .some (List.forall_mem_cons.2 ⟨hbound, hstate⟩)
    exact .after fun _ => .ite (.some hstate) hread
  · exact .pure (fitsBounds_of_forall fun bound h => hstate bound (List.mem_reverse.1 h))

omit sound in
instance sound_functionQualifiers : Sound literal functionQualifiers := by
  dsimp only [functionQualifiers]
  infer_instance

theorem keeps_functionParam (first : Bool) : Keeps literal (functionParam rules first)
    fun param => FitsParams literal [param] := by
  have hname : ∀ named : Bool, Sound literal (do
      if named then
        let _ ← anyIdent
        op ":") := fun named => inferInstance
  have hinside : Keeps literal (do
      let trees ← look
      let mutSelf := first && Ahead.word "mut" trees && Ahead.word "self" (Ahead.skip trees)
      if mutSelf then keyword "mut"
      let trees ← look
      let named := Ahead.paramName first trees
      let found ← recording do
        if named then
          let _ ← anyIdent
          op ":"
      if mutSelf && !named then
        keyword "self"
        return (none, found.2)
      let bareSelf := first && !(named && Ahead.word "self" trees)
      let trees ← look
      if bareSelf && Ahead.word "mut" trees && Ahead.word "self" (Ahead.skip trees) then
        keyword "mut"
        keyword "self"
        return (none, found.2)
      let type ← rules.type true
      return (if mutSelf then none else some type, found.2))
      fun result => FitsOutput literal result.1 ∧ FitsCode literal result.2 := by
    refine .after fun trees => .join fun _ => .after fun trees' => ?_
    refine (keeps_recording (hname _).keeps).bind fun head hhead => ?_
    refine .ite (.after fun _ => .pure ⟨trivial, hhead.2⟩) (.after fun trees => .ite ?_ ?_)
    · exact .after fun _ => .after fun _ => .pure ⟨trivial, hhead.2⟩
    · refine (sound.type true).bind fun type htype => .pure ⟨?_, hhead.2⟩
      dsimp only
      split
      · trivial
      · exact htype
  unfold functionParam
  refine (keeps_recording sound_outerAttributes.keeps).bind fun attributes hattributes => ?_
  refine (keeps_spanning hinside).bind fun result hresult => ?_
  obtain ⟨⟨type, head⟩, trees⟩ := result
  obtain ⟨⟨htype, hhead⟩, htrees⟩ := hresult
  cases type with
  | some type => exact .pure ⟨⟨fitsCode_append.2 ⟨hattributes.2, hhead⟩, htype⟩, trivial⟩
  | none => exact .pure ⟨⟨hattributes.2, htrees⟩, trivial⟩

omit sound in
theorem fitsParams_of_forall {params : List Param}
    (h : ∀ param ∈ params, FitsParams literal [param]) : FitsParams literal params := by
  induction params with
  | nil => trivial
  | cons param rest ih =>
    obtain ⟨hparam, hrest⟩ := List.forall_mem_cons.1 h
    cases param
    exact ⟨hparam.1, ih hrest⟩

theorem keeps_functionParams : Keeps literal (functionParams rules) fun result =>
    FitsParams literal result.1 ∧ FitsCode literal result.2.2 := by
  have hdots : Sound literal (do
      let _ ← outerAttributes rules
      if !(← ahead Ahead.variadic) then throw .refused
      if !(← ahead (Ahead.op "...")) then
        let _ ← anyIdent
        op ":"
      op "..."
      let _ ← op? ",") := by
    dsimp only
    infer_instance
  have hnone : (∀ param ∈ ([] : List Param), FitsParams literal [param]) ∧ FitsCode literal [] :=
    ⟨List.forall_mem_nil _, trivial⟩
  refine .bind (keeps_loop (fun state hstate => ?_) hnone :
    Keeps literal _ fun state => (∀ param ∈ state.1, FitsParams literal [param]) ∧
      FitsCode literal state.2.2) fun state hstate => ?_
  · obtain ⟨params, more, tail⟩ := state
    obtain ⟨hparams, htail⟩ := hstate
    refine .after fun _ => .ite .none ?_
    refine (keeps_attempt (keeps_recording hdots.keeps)).bind fun dots h => ?_
    cases dots with
    | some dots => exact .some ⟨hparams, (h _ rfl).2⟩
    | none =>
      refine (keeps_functionParam _).bind fun param hparam => .after fun _ => ?_
      have hall : ∀ found ∈ param :: params, FitsParams literal [found] :=
        List.forall_mem_cons.2 ⟨hparam, hparams⟩
      exact .ite (.some ⟨hall, trivial⟩) (.after fun _ => .some ⟨hall, trivial⟩)
  · refine .pure ⟨fitsParams_of_forall fun param h => ?_, hstate.2⟩
    exact hstate.1 param (List.mem_reverse.1 h)

theorem keeps_functionType {binder : List Piece} (hbinder : FitsCode literal binder) :
    Keeps literal (functionType rules binder) (Ty.Fits literal) := by
  unfold functionType
  refine (keeps_recording sound_functionQualifiers.keeps).bind fun head hhead => ?_
  refine (keeps_within _ keeps_functionParams).bind fun params hparams => ?_
  refine (keeps_returnType false).bind fun output houtput => .pure ?_
  exact ⟨fitsCode_append.2 ⟨hbinder, hhead.2⟩, hparams.1, hparams.2, houtput⟩

omit sound in
theorem fits_of_asParenthesizedBound? {type : Ty} {bound : Bound} (fits : type.Fits literal)
    (h : Ty.asParenthesizedBound? type = some bound) : bound.Fits literal := by
  unfold Ty.asParenthesizedBound? at h
  split at h
  · obtain rfl := Option.some.inj h
    exact ⟨trivial, fits.2⟩
  · split at h
    · obtain rfl := Option.some.inj h
      exact fits.1
    · obtain rfl := Option.some.inj h
      exact fits.1
  · cases h

/-- Whether what parentheses enclose fits. -/
def Enclosed.Fits (literal : String → Prop) : Enclosed → Prop
  | .bounds bound => bound.Fits literal
  | .object type => type.Fits literal
  | .tuple elements _ => FitsTypes literal elements
  | .one type => type.Fits literal

theorem keeps_enclosed : Keeps literal (enclosed rules) (Enclosed.Fits literal) := by
  unfold enclosed
  refine .after fun trees => .ite (.pure trivial) (.ite ?_ (.ite ?_ ?_))
  · exact (keeps_objectBounds true).bind fun result h => .pure h
  · exact (keeps_traitBound _).bind fun result h => .pure h
  · refine (sound.type true).bind fun first hfirst => .after fun _ => .ite ?_ (.pure hfirst)
    refine .after fun _ => (keeps_terminated (sound.type true)).bind fun rest hrest => .pure ?_
    exact ⟨hfirst, fitsTypes_iff.2 hrest⟩

theorem keeps_parenType (plus : Bool) : Keeps literal (parenType rules plus) (Ty.Fits literal) := by
  unfold parenType
  refine (keeps_within _ keeps_enclosed).bind fun result hresult => ?_
  cases result with
  | tuple => exact .pure hresult
  | object => exact .pure hresult
  | bounds => exact keeps_moreBounds true hresult
  | one type =>
    have hparen : Keeps literal (pure type.paren) (Ty.Fits literal) := .pure hresult
    refine .after fun _ => .ite ?_ hparen
    cases hbound : Ty.asParenthesizedBound? type with
    | some bound => exact keeps_moreBounds true (fits_of_asParenthesizedBound? hresult hbound)
    | none => exact hparen

omit sound in
theorem keeps_macroBody :
    Keeps literal macroBody fun found => FitsList literal (Trees.tokens found.2) :=
  .after fun _ => keeps_anyGroup

theorem keeps_pathType (plus : Bool) {binder : Option (List Piece)}
    (hbinder : ∀ pieces ∈ binder, FitsCode literal pieces) :
    Keeps literal (pathType rules plus binder) (Ty.Fits literal) := by
  unfold pathType
  refine (keeps_qualifiedPath false).bind fun found h => .after fun trees => .ite ?_ (.ite ?_ ?_)
  · exact .pure h
  · exact keeps_macroBody.bind fun body hbody => .pure ⟨h.2, hbody⟩
  · have hhead : FitsCode literal (binder.getD []) := by
      cases binder with
      | none => trivial
      | some pieces => exact hbinder pieces rfl
    refine .ite (.ite (keeps_moreBounds false ⟨hhead, h.2⟩) (.pure ?_)) (.pure ⟨trivial, h.2⟩)
    exact ⟨⟨hhead, h.2⟩, trivial⟩

theorem keeps_sliceOrArray : Keeps literal (sliceOrArray rules) (Ty.Fits literal) := by
  unfold sliceOrArray
  refine (sound.type true).bind fun element helement => .after fun _ => .ite ?_ (.pure helement)
  exact (keeps_recording (sound_expression true).keeps).bind fun length h => .pure ⟨helement, h.2⟩

theorem keeps_dynType (plus : Bool) : Keeps literal (dynType rules plus) (Ty.Fits literal) := by
  have hinside : Keeps literal (do
      keyword "dyn"
      let star ← op? "*"
      let found ← objectBounds rules plus
      return (star, found.1, found.2)) fun result => FitsBounds literal result.2.1 :=
    .after fun _ => .after fun _ => (keeps_objectBounds plus).bind fun result h => .pure h
  unfold dynType
  exact (keeps_spanning hinside).bind fun result h => .ite (.pure h.2) (.pure h.1)

theorem keeps_anonymousType (plus : Bool) :
    Keeps literal (anonymousType rules plus) (Ty.Fits literal) := by
  unfold anonymousType
  refine .after fun _ => (keeps_boundsWith _ plus).bind fun result h => .ite (.pure ?_) (.throw _)
  exact fitsBounds_of_forall h

theorem keeps_pointerType : Keeps literal (pointerType rules) (Ty.Fits literal) := by
  have hread : ∀ mutable, Keeps literal (do return .pointer mutable (← rules.type false))
      (Ty.Fits literal) := fun mutable => (sound.type false).bind fun type h => .pure h
  unfold pointerType
  refine .after fun _ => .after fun trees => .ite (.after fun _ => hread false) ?_
  exact .ite (.after fun _ => hread true) (keeps_expected _)

theorem keeps_referenceType : Keeps literal (referenceType rules) (Ty.Fits literal) := by
  unfold referenceType
  refine .after fun _ => keeps_lifetime?.bind fun name hname => .after fun mutable => ?_
  exact (sound.type false).bind fun type h => .pure ⟨hname, h⟩

/-- A type that is read fits, if the rules that it refers to keep to what they are given. -/
theorem keeps_typeWith (plus : Bool) : Keeps literal (typeWith rules plus) (Ty.Fits literal) := by
  unfold typeWith
  refine (keeps_recording sound_binder?.keeps).bind fun found hfound => .after fun trees => ?_
  obtain ⟨bound, pieces⟩ := found
  have hpieces : FitsCode literal pieces := hfound.2
  refine .ite (keeps_expected_bind _ _) ?_
  refine .ite (keeps_parenType plus) (.ite (keeps_functionType hpieces) (.ite ?path
    (.ite (keeps_dynType plus) (.ite (keeps_within _ keeps_sliceOrArray) (.ite keeps_pointerType
      (.ite keeps_referenceType (.ite ?never (.ite (keeps_anonymousType plus) (.ite ?inferred
        (.ite ?object (keeps_expected _)))))))))))
  case path =>
    refine keeps_pathType plus fun found h => ?_
    split at h
    · obtain rfl := Option.some.inj h
      exact hpieces
    · cases h
  case never => exact .after fun _ => .pure trivial
  case inferred => exact .after fun _ => .pure trivial
  case object => exact (keeps_objectBounds true).bind fun result h => .pure h

end Grammar

end Bindery.Source
