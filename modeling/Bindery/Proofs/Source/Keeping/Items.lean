import Bindery.Proofs.Source.Keeping.Code
import Bindery.Source.Reading
/-!
# Items keep to what they are read of

The types in the heads of functions fit, where the text that they are read of does. Without any
condition on the rules, this holds of what is read of a whole text (`fits_readType`,
`fits_readFile`), where the literals are those of the text.
-/

namespace Bindery.Source

open Token (FitsList fitsList_of_lex?)

namespace Grammar

variable {literal : String → Prop} {rules : Rules} [sound : rules.Sound literal]

-- What is found of a rule is as large as the rule itself.
set_option synthInstance.maxSize 100000

/-! ## Visibility and qualifiers -/

omit sound in
instance sound_restriction : Sound literal restriction := by
  dsimp only [restriction]
  infer_instance

omit sound in
instance sound_visibility : Sound literal visibility := by
  dsimp only [visibility]
  infer_instance

omit sound in
instance sound_convention : Sound literal convention := by
  dsimp only [convention]
  infer_instance

omit sound in
instance sound_qualifiers (mayBeSafe : Bool) : Sound literal (qualifiers mayBeSafe) := by
  dsimp only [qualifiers]
  infer_instance

omit sound in
instance sound_function? (mayBeSafe : Bool) : Sound literal (function? mayBeSafe) := by
  refine ⟨.after fun found => ?_⟩
  split <;> exact .pure trivial

/-! ## The heads of functions -/

instance sound_receiver : Sound literal (receiver rules) := by
  dsimp only [receiver]
  infer_instance

/-- Whether the type of a parameter fits, if it has one. -/
def HeadParam.Fits (literal : String → Prop) : HeadParam → Prop
  | .typed type => type.Fits literal
  | _ => True

theorem keeps_headParam : Keeps literal (headParam rules) (HeadParam.Fits literal) := by
  have htyped : Keeps literal (do return .typed (← rules.type true)) (HeadParam.Fits literal) :=
    (sound.type true).bind fun type h => .pure h
  unfold headParam
  refine .after fun _ => .after fun _ => .ite (.pure trivial) (.after fun _ => ?_)
  refine .ite (.pure trivial) (.after fun _ => .ite htyped (.after fun _ => .after fun _ => ?_))
  exact .after fun _ => .ite (.pure trivial) htyped

theorem keeps_headParams : Keeps literal (headParams rules)
    fun params => ∀ param ∈ params, param.Fits literal := by
  refine .bind (keeps_loop (fun state hstate => ?_) (List.forall_mem_nil _) :
    Keeps literal _ fun state => ∀ param ∈ state.1, HeadParam.Fits literal param)
    fun state hstate => ?_
  · obtain ⟨params, more⟩ := state
    refine .after fun _ => .ite .none (keeps_headParam.bind fun param hparam => .after fun _ => ?_)
    have hall : ∀ found ∈ param :: params, found.Fits literal :=
      List.forall_mem_cons.2 ⟨hparam, hstate⟩
    cases param with
    | receiver =>
      have honly : ∀ found ∈ [HeadParam.receiver], found.Fits literal :=
        List.forall_mem_singleton.2 trivial
      exact .join fun _ => .ite (.some honly) (.throw _)
    | typed type => exact .join fun _ => .some hall
    | variadic => exact .join fun _ => .some hall
  · exact .pure fun param h => hstate param (List.mem_reverse.1 h)

theorem keeps_signature (mayBeSafe : Bool) : Keeps literal (signature rules mayBeSafe)
    fun result => FitsSignature literal result.1 := by
  unfold signature
  refine .after fun _ => .after fun _ => .after fun _ => .after fun _ => ?_
  refine (keeps_within _ keeps_headParams).bind fun params hparams => ?_
  refine (keeps_returnType true).bind fun output houtput => .after fun _ => .pure ?_
  refine ⟨fitsTypes_iff.2 fun type htype => ?_, houtput⟩
  obtain ⟨param, hmem, hparam⟩ := List.mem_filterMap.1 htype
  cases param with
  | typed found =>
    obtain rfl := Option.some.inj hparam
    exact hparams _ hmem
  | receiver => cases hparam
  | variadic => cases hparam

instance sound_signature (mayBeSafe : Bool) : Sound literal (signature rules mayBeSafe) :=
  (keeps_signature mayBeSafe).sound

/-! ## Uses of macros, constants and aliases -/

omit sound in
instance sound_macroUse : Sound literal macroUse := by
  dsimp only [macroUse]
  infer_instance

omit sound in
instance sound_macroMember : Sound literal macroMember := by
  dsimp only [macroMember]
  infer_instance

omit sound in
instance sound_macroItem : Sound literal macroItem := by
  dsimp only [macroItem]
  infer_instance

omit sound in
instance sound_macroDeclaration : Sound literal macroDeclaration := by
  dsimp only [macroDeclaration]
  infer_instance

instance sound_value : Sound literal (value rules) := by
  dsimp only [value]
  infer_instance

instance sound_constantRest : Sound literal (constantRest rules) := by
  dsimp only [constantRest]
  infer_instance

instance sound_boundsUntil (stop : Trees → Bool) : Sound literal (boundsUntil rules stop) := by
  dsimp only [boundsUntil]
  infer_instance

instance sound_aliasRest (place : ConstraintPlace) : Sound literal (aliasRest rules place) := by
  dsimp only [aliasRest]
  infer_instance

/-! ## Members of blocks -/

instance sound_body : Sound literal (body rules) := by
  dsimp only [body]
  infer_instance

theorem keeps_implementationMember :
    Keeps literal (implementationMember rules) (Member.Fits literal) := by
  have hrest : ∀ (attributes : List Attribute) (visibility : Visibility) (defaulted : Bool),
      Keeps literal (do
        let trees ← look
        if ← function? false then
          let head ← signature rules false
          if ← op? ";" then return .other attributes
          return .function (attributes ++ (← body rules)) visibility head.1
        else if Ahead.word "const" trees then
          let rest ← constantRest rules
          return if rest.2.1 && rest.2.2 then .constant attributes rest.1 else .other attributes
        else if Ahead.word "type" trees then
          let _ ← aliasRest rules .afterType
          return .other attributes
        else if visibility = .private && !defaulted && Ahead.macroPath trees then
          macroMember
          return .other attributes
        else expected "member of an implementation") (Member.Fits literal) := by
    intro attributes visibility defaulted
    refine .after fun trees => .after fun _ => .ite ?function (.ite ?constant (.ite ?typeAlias
      (.ite ?macroMember (keeps_expected _))))
    case function =>
      refine (keeps_signature false).bind fun head hhead => .after fun _ => .ite (.pure trivial) ?_
      exact .after fun _ => .pure hhead
    case constant =>
      refine .after fun found => .pure ?_
      split <;> trivial
    case typeAlias => exact .after fun _ => .pure trivial
    case macroMember => exact .after fun _ => .pure trivial
  unfold implementationMember
  refine .after fun attributes => .after fun visibility => .after fun trees => .ite ?_ ?_
  · exact .after fun _ => hrest _ _ _
  · exact hrest _ _ _

instance sound_traitMember : Sound literal (traitMember rules) := by
  dsimp only [traitMember]
  infer_instance

instance sound_foreignMember : Sound literal (foreignMember rules) := by
  dsimp only [foreignMember]
  infer_instance

theorem keeps_members {α : Type} {property : α → Prop} {member : Grammar α}
    (h : Keeps literal member property) :
    Keeps literal (members rules member) fun result => ∀ found ∈ result.2, property found := by
  refine keeps_within _ (.after fun attributes => ?_)
  refine (keeps_many (.after fun _ => .ite .none ?_)).bind fun found hfound => .pure hfound
  exact h.bind fun value hvalue => .some hvalue

instance sound_members {α : Type} (member : Grammar α) [h : Sound literal member] :
    Sound literal (members rules member) :=
  (keeps_members h.keeps).sound

/-! ## Structs, enumerations and unions -/

instance sound_namedField (fields : Grammar Unit) [Sound literal fields] :
    Sound literal (namedField rules fields) := by
  dsimp only [namedField]
  infer_instance

instance sound_namedFieldsWithin : ∀ depth, Sound literal (namedFieldsWithin rules depth)
  | 0 => Sound.throw _
  | depth + 1 => by
    have := sound_namedFieldsWithin depth
    dsimp only [namedFieldsWithin]
    infer_instance

instance sound_namedFields : Sound literal (namedFields rules) := by
  dsimp only [namedFields]
  infer_instance

instance sound_tupleField : Sound literal (tupleField rules) := by
  dsimp only [tupleField]
  infer_instance

instance sound_tupleFields : Sound literal (tupleFields rules) := by
  dsimp only [tupleFields]
  infer_instance

instance sound_structBody : Sound literal (structBody rules) := by
  dsimp only [structBody]
  infer_instance

theorem keeps_structItem (attributes : List Attribute) (visibility : Visibility) :
    Keeps literal (structItem rules attributes visibility) (Item.Fits literal) := by
  unfold structItem
  exact .after fun _ => .after fun _ => .after fun _ => .after fun _ => .pure trivial

instance sound_variant : Sound literal (variant rules) := by
  dsimp only [variant]
  infer_instance

/-! ## Imports -/

instance sound_importsWith (rooted : Bool) : Sound literal (importsWith rules rooted) := by
  dsimp only [importsWith]
  infer_instance

instance sound_importItem : Sound literal (importItem rules) := by
  dsimp only [importItem]
  infer_instance

omit sound in
instance sound_crateImport : Sound literal crateImport := by
  dsimp only [crateImport]
  infer_instance

/-! ## Modules, traits and implementations -/

theorem fitsItems_of_forall {items : List Item} (h : ∀ item ∈ items, item.Fits literal) :
    FitsItems literal items := by
  induction items with
  | nil => trivial
  | cons item rest ih =>
    obtain ⟨hitem, hrest⟩ := List.forall_mem_cons.1 h
    exact ⟨hitem, ih hrest⟩

theorem keeps_moduleItem (attributes : List Attribute) :
    Keeps literal (moduleItem rules attributes) (Item.Fits literal) := by
  have hrest : ∀ name : Name, Keeps literal (do
      if ← op? ";" then return .module attributes name none
      let inside ← members rules rules.item
      return .module (attributes ++ inside.1) name (some inside.2)) (Item.Fits literal) := by
    refine fun name => .after fun _ => .ite (.pure trivial) ?_
    exact (keeps_members sound.item).bind fun result h => .pure (fitsItems_of_forall h)
  unfold moduleItem
  refine .after fun _ => .after fun _ => .after fun _ => .ite ?_ ?_
  · exact .after hrest
  · exact .after hrest

theorem keeps_traitItem (attributes : List Attribute) (mayBeAlias : Bool) :
    Keeps literal (traitItem rules attributes mayBeAlias) (Item.Fits literal) := by
  have hbody : ∀ name : Name, Keeps literal (do
      let _ ← constraints rules
      let inside ← members rules (traitMember rules)
      return .trait (attributes ++ inside.1) name inside.2) (Item.Fits literal) :=
    fun name => .after fun _ => .after fun _ => .pure trivial
  have hrest : ∀ name : Name, Keeps literal (do
      if ← op? ":" then boundsUntil rules Ahead.endsSupertraits
      let _ ← constraints rules
      let inside ← members rules (traitMember rules)
      return .trait (attributes ++ inside.1) name inside.2) (Item.Fits literal) :=
    fun name => .after fun _ => .ite (.after fun _ => hbody name) (hbody name)
  unfold traitItem
  refine .after fun _ => .after fun name => .after fun _ => .ite (.after fun _ => .ite ?_ ?_) ?_
  · exact .after fun _ => .after fun _ => .after fun _ => .pure trivial
  · exact hrest name
  · exact hrest name

instance sound_implementationHead : Sound literal (implementationHead rules) := by
  dsimp only [implementationHead]
  infer_instance

theorem keeps_implementationItem (attributes : List Attribute) (visible : Bool) :
    Keeps literal (implementationItem rules attributes visible) (Item.Fits literal) := by
  have hrest : ∀ (first self : Ty) (constant ofTrait : Bool), Keeps literal (do
      let _ ← constraints rules
      let inside ← members rules (implementationMember rules)
      let interface := if ofTrait then Ty.asTrait? first else none
      if visible || constant || ofTrait && interface.isNone then return .other attributes
      else return .implementation (attributes ++ inside.1) interface self inside.2)
      (Item.Fits literal) := by
    refine fun first self constant ofTrait => .after fun _ => ?_
    refine (keeps_members keeps_implementationMember).bind fun result h => .ite (.pure trivial) ?_
    exact .pure h
  unfold implementationItem
  refine .after fun head => .after fun first => .after fun ofTrait => ?_
  refine .ite (.throw_bind _ _) (.ite ?_ ?_)
  · exact .after fun self => hrest first self _ _
  · exact .after fun self => hrest first self _ _

/-! ## Kinds of items -/

theorem keeps_staticItem (attributes : List Attribute) :
    Keeps literal (staticItem rules attributes) (Item.Fits literal) := by
  unfold staticItem
  refine .after fun _ => .after fun _ => .after fun name => .after fun _ => .ite ?_ ?_
  · exact .after fun _ => .after fun _ => .pure trivial
  · refine .after fun _ => .after fun _ => .after fun _ => .ite (.pure trivial) ?_
    exact .after fun _ => .after fun _ => .after fun _ => .pure trivial

theorem keeps_foreignItem (attributes : List Attribute) :
    Keeps literal (foreignItem rules attributes) (Item.Fits literal) := by
  unfold foreignItem
  refine .after fun _ => .after fun _ => .after fun _ => .ite (.after fun _ => ?_) ?_
  · exact .after fun _ => .pure trivial
  · exact .after fun _ => .pure trivial

theorem keeps_functionItem (attributes : List Attribute) (visibility : Visibility) :
    Keeps literal (functionItem rules attributes visibility) (Item.Fits literal) := by
  unfold functionItem
  refine (keeps_signature false).bind fun head hhead => .after fun _ => .ite (.pure trivial) ?_
  exact .after fun _ => .pure hhead

theorem keeps_declaration (attributes : List Attribute) (visibility : Visibility) :
    Keeps literal (declaration rules attributes visibility) (Item.Fits literal) := by
  unfold declaration
  refine .after fun trees => .ite ?use (.ite (keeps_staticItem _) (.ite ?constant
    (.ite (keeps_moduleItem _) (.ite ?typeAlias (.ite (keeps_structItem _ _) (.ite ?enumeration
      (.ite ?union (.ite (keeps_traitItem _ _) (.ite ?auto (.ite (keeps_implementationItem _ _)
        (.ite ?macroDeclaration (.ite ?macroItem (keeps_expected _)))))))))))))
  case use => exact .after fun _ => .pure trivial
  case constant =>
    refine .after fun found => .pure ?_
    split <;> trivial
  case typeAlias =>
    refine .after fun found => .pure ?_
    split <;> trivial
  case enumeration =>
    exact .after fun _ => .after fun _ => .after fun _ => .after fun _ => .after fun _ =>
      .pure trivial
  case union =>
    exact .after fun _ => .after fun _ => .after fun _ => .after fun _ => .after fun _ =>
      .pure trivial
  case auto => exact .after fun _ => keeps_traitItem _ _
  case macroDeclaration => exact .after fun _ => .pure trivial
  case macroItem => exact .after fun _ => .pure trivial

theorem keeps_unsafeItem (attributes : List Attribute) (visibility : Visibility) :
    Keeps literal (unsafeItem rules attributes visibility) (Item.Fits literal) := by
  unfold unsafeItem
  refine .after fun trees => .ite ?_ (.ite (keeps_implementationItem _ _)
    (.ite (keeps_foreignItem _) (.ite (keeps_moduleItem _) (keeps_expected _))))
  exact .after fun _ => .after fun _ => keeps_traitItem _ _

theorem keeps_externItem (attributes : List Attribute) (visibility : Visibility) :
    Keeps literal (externItem rules attributes visibility) (Item.Fits literal) := by
  unfold externItem
  refine .after fun _ => .ite (.after fun _ => .pure trivial) ?_
  exact .ite (keeps_foreignItem _) (keeps_expected _)

/-- An item that is read fits, if the rules that it refers to keep to what they are given. -/
theorem keeps_itemWith : Keeps literal (itemWith rules) (Item.Fits literal) := by
  unfold itemWith
  refine .after fun attributes => .after fun visibility => .after fun _ => .ite ?_ ?_
  · exact keeps_functionItem _ _
  · exact .after fun _ => .ite (keeps_externItem _ _) (.after fun _ =>
      .ite (keeps_unsafeItem _ _) (keeps_declaration _ _))

end Grammar

/-! ## Whole texts -/

namespace Grammar

variable {literal : String → Prop}

/-- The rules of the language keep to what they are given, at every depth: those of a depth refer
to those of a lesser one only. -/
instance Rules.sound_upTo : ∀ depth, (Rules.upTo depth).Sound literal
  | 0 => {
    type := fun _ => .throw _
    bound := .throw _
    unary := fun _ => .throw _
    standing := .throw _
    climb := fun _ _ _ => .throw _
    pattern := .throw _
    statements := .throw _
    item := .throw _
    imports := fun _ => .throw _ }
  | depth + 1 => by
    have := Rules.sound_upTo depth
    exact {
      type := keeps_typeWith
      bound := keeps_boundWith _
      unary := sound_unaryWith
      standing := sound_standingWith
      climb := sound_climbWith
      pattern := sound_patternWith
      statements := sound_statementsWith
      item := keeps_itemWith
      imports := sound_importsWith }

end Grammar

open Grammar

/-- The literals of a text: its tokens that are no words and no marks. -/
def IsLiteralOf (text literal : String) : Prop :=
  ∃ trees, Token.lex? text = some trees ∧
    Token.literal literal ∈ TokenTree.leavesList trees.tokens

/-- Reading a whole text, nothing comes into it that is not of the text. -/
theorem keeps_read {α : Type} {property : α → Prop} {grammar : Rules → Grammar α} {text : String}
    (h : ∀ rules, rules.Sound (IsLiteralOf text) →
      Keeps (IsLiteralOf text) (grammar rules) property)
    {value : α} (hread : read grammar text = .ok value) : property value := by
  unfold read at hread
  cases hlex : Token.lex? text with
  | none =>
    rw [hlex] at hread
    cases hread
  | some trees =>
    rw [hlex] at hread
    have fits : FitsList (IsLiteralOf text) trees.tokens :=
      (fitsList_of_lex? hlex).imp fun _ hfound _ => ⟨trees, hlex, hfound⟩
    unfold readTrees at hread
    cases hwhole : whole none (grammar (Rules.for trees)) trees with
    | error fault =>
      simp only [hwhole] at hread
      cases hread
    | ok result =>
      simp only [hwhole] at hread
      cases hread
      exact (keeps_whole (h _ (Rules.sound_upTo _)) fits hwhole).1

/-- A type that is read of a text has no literals but those of the text. -/
theorem fits_readType {text : String} {type : Ty} (h : readType text = .ok type) :
    type.Fits (IsLiteralOf text) :=
  keeps_read (fun _ sound => sound.type true) h

/-- The text of a file that its tokens are read of. -/
def contentOf (text : String) : String :=
  String.ofList (dropInterpreter (Token.dropMark text.toList))

/-- The same of the types in the heads of the functions of a file. -/
theorem fits_readFile {text : String} {items : List Item} (h : readFile text = .ok items) :
    FitsItems (IsLiteralOf (contentOf text)) items := by
  let literal := IsLiteralOf (contentOf text)
  have hkeeps : ∀ rules : Rules, rules.Sound literal →
      Keeps literal (fileItems rules) fun items => ∀ item ∈ items, item.Fits literal := by
    refine fun rules sound => .after fun _ => keeps_many (.after fun _ => .ite .none ?_)
    exact sound.item.bind fun item hitem => .some hitem
  exact fitsItems_of_forall (keeps_read hkeeps h)

end Bindery.Source
