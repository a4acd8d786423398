import Bindery.Proofs.Source.Types
import Bindery.Source.Reading
/-!
# What holds of the items that are read

Whatever form an item is read in, what it consists of has been read by the rules for its parts. A
property of items that each form has on account of its parts (`Forms`) is therefore a property of
all that is read (`yields_itemWith`). A struct is read where the word `struct` stands after the
visibility, and nowhere else, so that its form need not be looked at where another word stands
(`yieldsAt_undecorated`).
-/

namespace Bindery.Source

open Grammar (IsPathName)

/-- The name in the head of a function may stand in a path, and the types in it have a property. -/
structure Signature.All (typed : Ty → Prop) (signature : Signature) : Prop where
  name : IsPathName signature.name.text
  params : ∀ type ∈ signature.params, typed type
  output : ∀ type ∈ signature.output, typed type

/-- What is in the head of a member has a property. -/
def Member.All (typed : Ty → Prop) : Member → Prop
  | .function _ _ signature => signature.All typed
  | _ => True

/-- Whether the parts of an item are not looked into. -/
def Item.isClosed : Item → Bool
  | .enumeration _ _ _ | .union _ _ _ | .constant _ _ | .static _ _ | .trait _ _ _
  | .typeAlias _ _ | .foreign _ _ | .other _ => true
  | .module _ _ _ | .struct _ _ _ _ | .function _ _ _ | .implementation _ _ _ _ => false

/-- Whether the name of a type that is not looked into may stand in a path. -/
def Item.HasPathName : Item → Prop
  | .enumeration _ _ name | .union _ _ name => IsPathName name.text
  | _ => True

namespace Grammar

/-- Each form of an item has a property on account of its parts: names that may stand in a path,
types that are `typed`, and the items of a module, which are `inner`. The form of a struct counts
only if one is `begun`. -/
structure Forms (typed : Ty → Prop) (inner : Item → Prop) (begun : Prop)
    (property : Item → Prop) : Prop where
  closed : ∀ item, item.isClosed = true → item.HasPathName → property item
  module : ∀ attributes (name : Name) content, IsPathName name.text →
    (∀ items ∈ content, ∀ item ∈ items, inner item) →
    property (.module attributes name content)
  struct : begun → ∀ attributes visibility (name : Name) unit, IsPathName name.text →
    property (.struct attributes visibility name unit)
  function : ∀ attributes visibility signature, signature.All typed →
    property (.function attributes visibility signature)
  implementation : ∀ attributes interface self members, typed self →
    (∀ member ∈ members, member.All typed) →
    property (.implementation attributes interface self members)

section
variable {rules : Rules} {typed : Ty → Prop} {inner property : Item → Prop} {begun : Prop}

theorem Forms.ofBegun (forms : Forms typed inner True property) :
    Forms typed inner begun property :=
  ⟨forms.closed, forms.module, fun _ => forms.struct trivial, forms.function,
    forms.implementation⟩

/-! ## Functions -/

theorem yields_returnType (htype : ∀ plus, Yields (rules.type plus) typed) (plus : Bool) :
    Yields (returnType rules plus) fun output => ∀ type ∈ output, typed type := by
  unfold returnType
  exact .after fun _ => .ite ((htype plus).bind fun type h => .some h) .none

/-- The type of a parameter, if it has one, has a property. -/
def HeadParam.All (typed : Ty → Prop) : HeadParam → Prop
  | .typed type => typed type
  | _ => True

theorem yields_headParam (htype : ∀ plus, Yields (rules.type plus) typed) :
    Yields (headParam rules) (HeadParam.All typed) := by
  have hread : Yields (do return HeadParam.typed (← rules.type true)) (HeadParam.All typed) :=
    (htype true).bind fun type h => .pure h
  unfold headParam
  refine .after fun _ => .after fun _ => .ite (.pure trivial) (.after fun _ => .ite (.pure trivial)
    (.after fun _ => .ite hread (.after fun _ => .after fun _ => .after fun _ => .ite ?_ hread)))
  exact .pure trivial

theorem yields_headParams (htype : ∀ plus, Yields (rules.type plus) typed) :
    Yields (headParams rules) fun params => ∀ param ∈ params, param.All typed := by
  unfold headParams
  refine Yields.bind (yields_loop ?step (fun _ h => absurd h List.not_mem_nil) :
    Yields _ fun state => ∀ param ∈ state.1, HeadParam.All typed param) fun state hstate => ?rest
  case rest => exact .pure fun param hparam => hstate param (List.mem_reverse.1 hparam)
  case step =>
    rintro ⟨params, more⟩ hparams
    refine .after fun _ => .ite .none ?_
    refine (yields_headParam htype).bind fun param hparam => .after fun _ => .join fun _ => ?_
    cases param with
    | receiver => exact .ite (.some (List.forall_mem_singleton.2 hparam)) (.throw _)
    | variadic | typed => exact .some (List.forall_mem_cons.2 ⟨hparam, hparams⟩)

theorem yields_signature (htype : ∀ plus, Yields (rules.type plus) typed) (mayBeSafe : Bool) :
    Yields (signature rules mayBeSafe) fun result => result.1.All typed := by
  unfold signature
  refine .after fun _ => .after fun _ => yields_pathName.bind fun name hname => .after fun _ => ?_
  refine (yields_within _ (yields_headParams htype)).bind fun params hparams => ?_
  refine (yields_returnType htype true).bind fun output houtput => .after fun _ => .pure ?_
  refine ⟨hname, fun type hmem => ?_, houtput⟩
  obtain ⟨param, hparam, hfound⟩ := List.mem_filterMap.1 hmem
  have hall := hparams param hparam
  cases param with
  | typed found =>
    obtain rfl := Option.some.inj hfound
    exact hall
  | receiver | variadic => cases hfound

theorem yields_implementationMember (htype : ∀ plus, Yields (rules.type plus) typed) :
    Yields (implementationMember rules) (Member.All typed) := by
  unfold implementationMember
  refine .after fun attributes => .after fun visibility => .after fun trees => ?_
  refine .join fun _ => .after fun trees => .after fun _ => .ite ?function (.ite ?constant
    (.ite ?synonym (.ite ?invocation (yields_expected _ _))))
  case function =>
    refine (yields_signature htype false).bind fun result hresult => .after fun _ => .ite ?_ ?_
    · exact .pure trivial
    · exact .after fun _ => .pure hresult
  case constant =>
    refine .after fun rest => .pure ?_
    split <;> trivial
  case synonym => exact .after fun _ => .pure trivial
  case invocation => exact .after fun _ => .pure trivial

/-! ## Items -/

theorem yields_members {α : Type} {property : α → Prop} {member : Grammar α}
    (h : Yields member property) :
    Yields (members rules member) fun result => ∀ value ∈ result.2, property value := by
  refine yields_within _ (.after fun attributes => ?_)
  exact (yields_untilEnd h).bind fun values hvalues => .pure hvalues

variable (forms : Forms typed inner begun property)
include forms

theorem Forms.pure {item : Item} (h : item.isClosed = true) (hname : item.HasPathName) :
    Yields (pure item) property :=
  .pure (forms.closed item h hname)

theorem yields_moduleItem (hitem : Yields rules.item inner) (attributes : List Attribute) :
    Yields (moduleItem rules attributes) property := by
  have hrest : ∀ name : Name, IsPathName name.text → Yields (do
      if ← op? ";" then return Item.module attributes name none
      let body ← members rules rules.item
      return .module (attributes ++ body.1) name (some body.2)) property := by
    refine fun name hname => .after fun _ => .ite ?_ ?_
    · exact .pure (forms.module _ _ none hname (by simp))
    · refine (yields_members hitem).bind fun result hresult => .pure (forms.module _ _ _ hname ?_)
      intro items hitems
      obtain rfl := Option.some.inj hitems
      exact hresult
  unfold moduleItem
  refine .after fun _ => .after fun _ => .ahead fun stream => ?_
  split
  · next htry =>
    rw [← anyWord_singleton] at htry
    exact (yieldsAt_pathWord (by decide) htry).bindYields hrest
  · exact Yields.at (yields_pathName.bind hrest) stream

theorem yields_implementationItem (htype : ∀ plus, Yields (rules.type plus) typed)
    (attributes : List Attribute) (visible : Bool) :
    Yields (implementationItem rules attributes visible) property := by
  unfold implementationItem
  refine .after fun head => (htype true).bind fun first hfirst => ?_
  refine .after fun ofTrait => .join fun _ => ?_
  refine .ite ((htype true).bind ?_) ((Yields.pure hfirst).bind ?_) <;>
  · intro self hself
    refine .after fun _ => (yields_members (yields_implementationMember htype)).bind ?_
    intro result hresult
    exact .ite (forms.pure rfl trivial) (.pure (forms.implementation _ _ _ _ hself hresult))

theorem yields_traitItem (attributes : List Attribute) (mayBeAlias : Bool) :
    Yields (traitItem rules attributes mayBeAlias) property := by
  unfold traitItem
  refine .after fun _ => .after fun name => .after fun _ =>
    .ite (.after fun _ => .ite ?synonym ?plain) ?body
  case synonym => exact .after fun _ => .after fun _ => .after fun _ => forms.pure rfl trivial
  all_goals
    exact .after fun _ => .join fun _ => .after fun _ => .after fun _ => forms.pure rfl trivial

theorem yields_foreignItem (attributes : List Attribute) :
    Yields (foreignItem rules attributes) property := by
  unfold foreignItem
  refine .after fun _ => .after fun _ => .after fun _ => .ite ?_ ?_
  · exact .after fun _ => .after fun _ => forms.pure rfl trivial
  · exact .after fun _ => forms.pure rfl trivial

theorem yields_staticItem (attributes : List Attribute) :
    Yields (staticItem rules attributes) property := by
  unfold staticItem
  refine .after fun _ => .after fun _ => .after fun name => .after fun _ => .ite ?_ ?_
  · exact .after fun _ => .after fun _ => forms.pure rfl trivial
  · refine .after fun _ => .after fun _ => .after fun _ => .ite (forms.pure rfl trivial) ?_
    exact .after fun _ => .after fun _ => .after fun _ => forms.pure rfl trivial

theorem yields_functionItem (htype : ∀ plus, Yields (rules.type plus) typed)
    (attributes : List Attribute) (visibility : Visibility) :
    Yields (functionItem rules attributes visibility) property := by
  unfold functionItem
  refine (yields_signature htype false).bind fun result hresult => .after fun _ => .ite ?_ ?_
  · exact forms.pure rfl trivial
  · exact .after fun _ => .pure (forms.function _ _ _ hresult)

theorem yields_externItem (attributes : List Attribute) (visibility : Visibility) :
    Yields (externItem rules attributes visibility) property := by
  unfold externItem
  refine .after fun _ => .ite (.after fun _ => forms.pure rfl trivial) ?_
  exact .ite (yields_foreignItem forms attributes) (yields_expected _ _)

theorem yields_unsafeItem (hitem : Yields rules.item inner)
    (htype : ∀ plus, Yields (rules.type plus) typed) (attributes : List Attribute)
    (visibility : Visibility) : Yields (unsafeItem rules attributes visibility) property := by
  unfold unsafeItem
  refine .after fun _ => .ite ?_ (.ite ?_ (.ite ?_ (.ite ?_ (yields_expected _ _))))
  · exact .after fun _ => .after fun _ => yields_traitItem forms _ _
  · exact yields_implementationItem forms htype _ _
  · exact yields_foreignItem forms _
  · exact yields_moduleItem forms hitem _

omit forms in
/-- Where the word `struct` does not stand ahead, no struct is read. -/
theorem yieldsAt_declaration {stream : Stream}
    (forms : Forms typed inner (Ahead.word "struct" stream.rest = true) property)
    (hitem : Yields rules.item inner) (htype : ∀ plus, Yields (rules.type plus) typed)
    (attributes : List Attribute) (visibility : Visibility) :
    YieldsAt stream (declaration rules attributes visibility) property := by
  unfold declaration
  refine .bind rfl (Yields.at ?_ _)
  refine .ite ?use (.ite (yields_staticItem forms _) (.ite ?constant
    (.ite (yields_moduleItem forms hitem _) (.ite ?synonym (.dite ?struct fun _ =>
      .ite ?enumeration (.ite ?union (.ite (yields_traitItem forms _ _) (.ite ?auto
        (.ite (yields_implementationItem forms htype _ _) (.ite ?definition
          (.ite ?invocation (yields_expected _ _))))))))))))
  case use => exact .after fun _ => forms.pure rfl trivial
  case constant =>
    refine .after fun rest => .pure ?_
    split <;> exact forms.closed _ rfl trivial
  case synonym =>
    refine .after fun rest => .pure ?_
    split <;> exact forms.closed _ rfl trivial
  case struct =>
    intro hbegun
    refine .after fun _ => yields_pathName.bind fun name hname => .after fun _ => .after fun _ => ?_
    exact .pure (forms.struct hbegun _ _ _ _ hname)
  case enumeration =>
    refine .after fun _ => yields_pathName.bind fun name hname => .after fun _ => .after fun _ => ?_
    exact .after fun _ => forms.pure rfl hname
  case union =>
    refine .after fun _ => yields_pathName.bind fun name hname => .after fun _ => .after fun _ => ?_
    exact .after fun _ => forms.pure rfl hname
  case auto => exact .after fun _ => yields_traitItem forms _ _
  case definition => exact .after fun _ => forms.pure rfl trivial
  case invocation => exact .after fun _ => forms.pure rfl trivial

end

/-- An item after its attributes and its visibility. -/
def undecorated (rules : Rules) (attributes : List Attribute) (visibility : Visibility) :
    Grammar Item := do
  if ← function? false then functionItem rules attributes visibility
  else if ← ahead (Ahead.word "extern") then externItem rules attributes visibility
  else if ← ahead (Ahead.word "unsafe") then unsafeItem rules attributes visibility
  else declaration rules attributes visibility

theorem itemWith_eq (rules : Rules) :
    itemWith rules = outerAttributes rules >>= fun attributes =>
      visibility >>= fun visibility => undecorated rules attributes visibility := rfl

section
variable {rules : Rules} {typed : Ty → Prop} {inner property : Item → Prop}

/-- To see whether a function stands ahead takes nothing. -/
theorem run_function? (mayBeSafe : Bool) (stream : Stream) :
    ∃ found, (function? mayBeSafe).run stream = .ok (found, stream) := by
  have hglimpse : ∃ result,
      (glimpse (qualifiers mayBeSafe)).run stream = .ok (result, stream) := by
    have hget : (get : Grammar Stream).run stream = .ok (stream, stream) := rfl
    unfold glimpse
    rw [run_bind_of_ok hget]
    cases (qualifiers mayBeSafe).run stream <;> exact ⟨_, rfl⟩
  obtain ⟨result, hglimpse⟩ := hglimpse
  unfold function?
  rw [run_bind_of_ok hglimpse]
  cases result <;> exact ⟨_, rfl⟩

theorem yieldsAt_undecorated {stream : Stream}
    (forms : Forms typed inner (Ahead.word "struct" stream.rest = true) property)
    (hitem : Yields rules.item inner) (htype : ∀ plus, Yields (rules.type plus) typed)
    (attributes : List Attribute) (visibility : Visibility) :
    YieldsAt stream (undecorated rules attributes visibility) property := by
  obtain ⟨found, hfound⟩ := run_function? false stream
  refine .bind hfound ?_
  cases found with
  | true => exact (yields_functionItem forms htype _ _).at _
  | false =>
    refine .bind rfl (.ite ((yields_externItem forms _ _).at _) (.bind rfl (.ite ?_ ?_)))
    · exact (yields_unsafeItem forms hitem htype _ _).at _
    · exact yieldsAt_declaration forms hitem htype _ _

theorem yields_itemWith (forms : Forms typed inner True property)
    (hitem : Yields rules.item inner) (htype : ∀ plus, Yields (rules.type plus) typed) :
    Yields (itemWith rules) property := by
  rw [itemWith_eq]
  refine .after fun attributes => .after fun visibility stream => ?_
  exact yieldsAt_undecorated forms.ofBegun hitem htype _ _

/-- What holds of all items on account of their parts holds at any depth of the rules. -/
theorem yields_upTo (htype : ∀ rules : Rules, (∀ plus, Yields (rules.type plus) typed) →
      ∀ plus, Yields (typeWith rules plus) typed)
    (forms : Forms typed property True property) (depth : Nat) :
    Yields (Rules.upTo depth).item property ∧
      ∀ plus, Yields ((Rules.upTo depth).type plus) typed := by
  induction depth with
  | zero => exact ⟨.throw _, fun _ => .throw _⟩
  | succ depth ih => exact ⟨yields_itemWith forms ih.1 ih.2, htype _ ih.2⟩

theorem yields_fileItems (htype : ∀ rules : Rules, (∀ plus, Yields (rules.type plus) typed) →
      ∀ plus, Yields (typeWith rules plus) typed)
    (forms : Forms typed property True property) (trees : Trees) :
    Yields (fileItems (Rules.for trees)) fun items => ∀ item ∈ items, property item :=
  .after fun _ => yields_untilEnd (yields_upTo htype forms _).1

end

end Grammar

end Bindery.Source
