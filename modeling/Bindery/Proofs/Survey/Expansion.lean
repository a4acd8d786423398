import Bindery.Proofs.Source.Structs
import Bindery.Proofs.Survey.Walk
/-!
# What the attributes and the survey make of a marker

A marker is looked at twice: by its attribute when the item is compiled, and by the survey.
`marker_agrees`: both take the same arguments on the same items, with one exception. Brackets with
nothing in them behind a marker without arguments are nothing to the attribute and an argument to
the survey.
-/

namespace Bindery

open Source (Attribute AttributeBody Fault readTrees)

/-- The arguments that an attribute hands on, if it may be written like this. An equals sign hands
nothing on. -/
def Source.AttributeBody.args? : AttributeBody → Option Trees
  | .nothing => some []
  | .list _ args => some args
  | .value => none

/-- A bearer is what its trees are read as. -/
def Bearer.ReadFrom (trees : Trees) : Bearer → Prop
  | .item declared => readTrees Source.Grammar.itemWith trees = .ok declared
  | .member _ declared => readTrees Source.Grammar.implementationMember trees = .ok declared

/-! ## The attribute -/

namespace MarkerAttribute

variable {marker : MarkerAttribute} {args trees : Trees}

/-- An attribute leaves its item as it is unless it is misused. -/
theorem expand_eq_iff :
    marker.expand args trees = trees.tokens ↔ marker.misuse? args trees = none := by
  rw [expand]
  cases marker.misuse? args trees with
  | none => simp
  | some misuse =>
    simp only [List.append_left_eq_self, reduceCtorEq, iff_false]
    exact List.cons_ne_nil _ _

/-- Whether a marker takes no arguments. -/
def isBare : MarkerAttribute → Bool
  | gateway | markerAlias => true
  | provider | tagged => false

end MarkerAttribute

/-! ## The survey -/

namespace Survey

theorem isAlias_iff {sighting : Sighting} :
    sighting.isAlias = true ↔
      ∃ attr ∈ sighting.attributes, Saying.ofAttribute? attr = some .isAlias := by
  rw [Sighting.isAlias, List.contains_iff_mem, List.mem_map]

theorem ofAttribute?_eq_some_iff {attr : Attribute} {saying : Saying} :
    Saying.ofAttribute? attr = some saying ↔ Saying.ofAttribute attr = .ok saying := by
  rw [Saying.ofAttribute?]
  cases Saying.ofAttribute attr <;> simp [Except.toOption]

/-- An item is noted just when all its attributes are understood, and one that is declared as an
alias is a unit struct. -/
theorem note_ok_iff {file : String} {sighting : Sighting} :
    (∃ noted, note file sighting = .ok noted) ↔
      ∀ attr ∈ sighting.attributes, ∃ saying, Saying.ofAttribute attr = .ok saying ∧
        (saying = .isAlias → sighting.isUnit = true) := by
  constructor
  · rintro ⟨noted, hnoted⟩ attr hattr
    obtain ⟨-, hunderstood, hunit⟩ := note_ok hnoted
    obtain ⟨saying, hsaying⟩ := Option.isSome_iff_exists.1 (hunderstood attr hattr)
    refine ⟨saying, ofAttribute?_eq_some_iff.1 hsaying, ?_⟩
    rintro rfl
    exact hunit (isAlias_iff.2 ⟨attr, hattr, hsaying⟩)
  · intro h
    cases hsayings : sayings file sighting with
    | error =>
      obtain ⟨attr, hattr, hfault⟩ := mapM_error hsayings
      obtain ⟨saying, hsaying, -⟩ := h attr hattr
      rw [hsaying] at hfault
      cases hfault
    | ok said =>
      rw [note_of_sayings hsayings, if_neg]
      · exact ⟨_, rfl⟩
      · intro hrefused
        obtain ⟨halias, hunit⟩ := Bool.and_eq_true_iff.1 hrefused
        obtain ⟨attr, hattr, hsaid⟩ := isAlias_iff.1 halias
        obtain ⟨saying, hsaying, hstruct⟩ := h attr hattr
        rw [ofAttribute?_eq_some_iff, hsaying] at hsaid
        rw [hstruct (Except.ok.inj hsaid)] at hunit
        cases hunit

/-- The attributes of an item are noted just when each of them would be by itself. -/
theorem note_ok_iff_each {file : String} {sighting : Sighting} :
    (∃ noted, note file sighting = .ok noted) ↔
      ∀ attr ∈ sighting.attributes,
        ∃ noted, note file { sighting with attributes := [attr] } = .ok noted := by
  simp only [note_ok_iff, List.mem_singleton, forall_eq]
  rfl

end Survey

/-- A sighting is one of a unit struct just when a unit struct is what is read. -/
theorem isUnit_of_readFrom {visit : Visit} {sighting : Survey.Sighting} {trees : Trees}
    (sighted : visit.sighting? = some sighting) (read : visit.bearer.ReadFrom trees) :
    sighting.isUnit = MarkerAttribute.isUnitStruct trees := by
  obtain ⟨site, bearer⟩ := visit
  cases bearer with
  | item item =>
    rw [Source.isUnitStruct_of_item read]
    cases item with
    | module attributes =>
      simp only [Visit.sighting?] at sighted
      split at sighted
      · cases sighted
      · cases sighted
        rfl
    | implementation | foreign | other => cases sighted
    | _ =>
      cases sighted
      rfl
  | member block member =>
    rw [Source.isUnitStruct_of_member read]
    cases block with
    | implementation _ interface self =>
      cases member with
      | function | constant =>
        obtain ⟨owner, -, rfl⟩ := Option.map_eq_some_iff.1 sighted
        rfl
      | other => cases sighted
    | _ => cases sighted

/-! ## Both -/

/-- Arguments are read alike where something has to be there. -/
theorem readArguments_cases {α : Type} {attr : Attribute} {args : Trees}
    {grammar : Source.Grammar.Rules → Source.Grammar α} (written : attr.body.args? = some args)
    (hnone : ∃ fault, readTrees grammar [] = .error fault) :
    (∃ value, readArguments attr grammar = .ok value ∧ readTrees grammar args = .ok value) ∨
      ∃ cause fault, readArguments attr grammar = .error cause ∧
        readTrees grammar args = .error fault := by
  rw [readArguments]
  cases hbody : attr.body with
  | nothing =>
    rw [hbody] at written
    obtain rfl := Option.some.inj written
    obtain ⟨fault, hfault⟩ := hnone
    exact .inr ⟨_, fault, rfl, hfault⟩
  | list delimiter found =>
    rw [hbody] at written
    obtain rfl := Option.some.inj written
    dsimp only
    cases readTrees grammar found with
    | ok value => exact .inl ⟨value, rfl, rfl⟩
    | error fault => exact .inr ⟨.unreadable fault, fault, rfl, rfl⟩
  | value =>
    rw [hbody] at written
    cases written

namespace MarkerAttribute

/-- Whether brackets with nothing in them stand behind a marker that takes no arguments. -/
def hasEmptyBrackets (marker : MarkerAttribute) : AttributeBody → Bool
  | .list _ args => marker.isBare && args.isEmpty
  | _ => false

/-- A marker without arguments is misused just when something stands behind it, unless that is
brackets with nothing in them. -/
theorem checkBare_ok_iff {marker : MarkerAttribute} {attr : Attribute} {args : Trees}
    (bare : marker.isBare = true) (written : attr.body.args? = some args)
    (brackets : marker.hasEmptyBrackets attr.body = false) :
    checkBare attr = .ok () ↔ args.isEmpty = true := by
  rw [checkBare]
  cases hbody : attr.body with
  | nothing =>
    rw [hbody] at written
    obtain rfl := Option.some.inj written
    simp
  | list delimiter found =>
    rw [hbody] at written brackets
    obtain rfl := Option.some.inj written
    rw [hasEmptyBrackets, bare, Bool.true_and] at brackets
    simp [brackets]
  | value =>
    rw [hbody] at written
    cases written

/-- An attribute is used as it should be just when the survey understands it. -/
theorem misuse?_eq_none_iff {marker : MarkerAttribute} {attr : Attribute} {args trees : Trees}
    (named : attr.path.lastName = marker.name) (written : attr.body.args? = some args)
    (brackets : marker.hasEmptyBrackets attr.body = false) :
    marker.misuse? args trees = none ↔ ∃ saying, Saying.ofAttribute attr = .ok saying ∧
      (saying = .isAlias → isUnitStruct trees = true) := by
  rw [Saying.ofAttribute, named]
  cases marker with
  | provider =>
    have hnone : ∃ fault, readTrees (fun _ => Source.Grammar.string) [] = .error fault := ⟨_, rfl⟩
    simp only [name, misuse?]
    rcases readArguments_cases written hnone with
      ⟨key, harguments, hread⟩ | ⟨cause, fault, harguments, hread⟩
    · rw [harguments, hread]
      cases hempty : key.isEmpty <;>
        simp [bind, Except.bind, pure, Except.pure, hempty, throw, throwThe, MonadExceptOf.throw]
    · rw [harguments, hread]
      simp [bind, Except.bind]
  | gateway =>
    have hbare := checkBare_ok_iff rfl written brackets
    simp only [name, misuse?]
    cases hchecked : checkBare attr <;> rw [hchecked] at hbare <;>
      simp_all [bind, Except.bind, pure, Except.pure]
  | markerAlias =>
    have hbare := checkBare_ok_iff rfl written brackets
    simp only [name, misuse?]
    cases hchecked : checkBare attr <;> rw [hchecked] at hbare <;>
      simp_all [bind, Except.bind, pure, Except.pure]
  | tagged =>
    have hnone : ∃ fault, readTrees Source.Grammar.anyPath [] = .error fault := ⟨_, rfl⟩
    simp only [name, misuse?]
    rcases readArguments_cases written hnone with
      ⟨path, harguments, hread⟩ | ⟨cause, fault, harguments, hread⟩
    · rw [harguments, hread]
      simp [bind, Except.bind, pure, Except.pure]
    · rw [harguments, hread]
      simp [bind, Except.bind]

theorem eq_of_hasEmptyBrackets {marker : MarkerAttribute} {body : AttributeBody}
    (h : marker.hasEmptyBrackets body = true) :
    marker.isBare = true ∧ ∃ delimiter, body = .list delimiter [] := by
  unfold hasEmptyBrackets at h
  split at h
  · next delimiter args =>
    obtain ⟨hbare, hempty⟩ := Bool.and_eq_true_iff.1 h
    exact ⟨hbare, delimiter, by rw [List.isEmpty_iff.1 hempty]⟩
  · cases h

/-- Empty brackets are arguments to the survey. -/
theorem note_hasEmptyBrackets {marker : MarkerAttribute} {attr : Attribute}
    (named : attr.path.lastName = marker.name) (brackets : marker.hasEmptyBrackets attr.body = true)
    (file : String) (sighting : Survey.Sighting) :
    Survey.note file { sighting with attributes := [attr] } =
      .error (.malformed marker.name (sighting.location file) .hasArguments) := by
  obtain ⟨hbare, delimiter, hbody⟩ := eq_of_hasEmptyBrackets brackets
  have hsaying : Saying.ofAttribute attr = .error .hasArguments := by
    rw [Saying.ofAttribute, named]
    cases marker with
    | provider | tagged => cases hbare
    | gateway | markerAlias =>
      simp only [name, checkBare, hbody]
      rfl
  have hsayings : Survey.sayings file { sighting with attributes := [attr] } =
      .error (.malformed marker.name (sighting.location file) .hasArguments) := by
    rw [Survey.sayings, List.mapM_cons, hsaying, named]
    rfl
  rw [Survey.note, hsayings]
  rfl

end MarkerAttribute

open Survey (note)

/-- The attribute of a marker leaves an item as it is just when the survey takes the attribute on
the item, unless there are empty brackets behind a marker without arguments. These the survey
refuses, and the attribute does as if they were not there. The survey takes an item just when it
takes each of its attributes. -/
theorem marker_agrees {visit : Visit} {sighting : Survey.Sighting} {trees : Trees}
    (sighted : visit.sighting? = some sighting) (read : visit.bearer.ReadFrom trees)
    (file : String) :
    (∀ (marker : MarkerAttribute) (attr : Attribute) (args : Trees),
      attr.path.lastName = marker.name → attr.body.args? = some args →
      (marker.hasEmptyBrackets attr.body = false →
        (marker.expand args trees = trees.tokens ↔
          ∃ noted, note file { sighting with attributes := [attr] } = .ok noted)) ∧
      (marker.hasEmptyBrackets attr.body = true →
        note file { sighting with attributes := [attr] } =
          .error (.malformed marker.name (sighting.location file) .hasArguments) ∧
        (marker.expand args trees = trees.tokens ↔
          ∃ noted, note file { sighting with attributes := [{ attr with body := .nothing }] } =
            .ok noted))) ∧
    ((∃ noted, note file sighting = .ok noted) ↔
      ∀ attr ∈ sighting.attributes,
        ∃ noted, note file { sighting with attributes := [attr] } = .ok noted) := by
  have hagree : ∀ (marker : MarkerAttribute) (attr : Attribute) (args : Trees),
      attr.path.lastName = marker.name → attr.body.args? = some args →
      marker.hasEmptyBrackets attr.body = false →
      (marker.expand args trees = trees.tokens ↔
        ∃ noted, note file { sighting with attributes := [attr] } = .ok noted) := by
    intro marker attr args named written brackets
    rw [MarkerAttribute.expand_eq_iff,
      MarkerAttribute.misuse?_eq_none_iff named written brackets, Survey.note_ok_iff,
      ← isUnit_of_readFrom sighted read]
    simp only [List.mem_singleton, forall_eq]
    rfl
  refine ⟨fun marker attr args named written => ⟨hagree marker attr args named written, ?_⟩,
    Survey.note_ok_iff_each⟩
  intro brackets
  refine ⟨MarkerAttribute.note_hasEmptyBrackets named brackets file sighting, ?_⟩
  obtain ⟨-, delimiter, hbody⟩ := MarkerAttribute.eq_of_hasEmptyBrackets brackets
  rw [hbody] at written
  obtain rfl := Option.some.inj written
  exact hagree marker { attr with body := .nothing } [] named rfl rfl

/-- A unit struct by itself. -/
def unitStruct : Trees :=
  (Token.lex? "pub struct Empty;").getD []

/-- The attribute that declares an alias. -/
def aliasAttribute : Attribute :=
  ⟨false, .mk false [.mk "marker_alias" .none], .nothing⟩

/-- Both take the declaration of a unit struct as an alias. -/
theorem unitStruct_agrees :
    MarkerAttribute.markerAlias.expand [] unitStruct = unitStruct.tokens ∧
      ∃ sighting : Survey.Sighting, sighting.name.text = "Empty" ∧
        ∃ noted, note "src/lib.rs" { sighting with attributes := [aliasAttribute] } =
          .ok noted := by
  have hgiven : (match readTrees Source.Grammar.itemWith unitStruct with
      | .ok item => (Visit.mk (.file "src/lib.rs" "crate") (.item item)).sighting?.map fun
          sighting => (sighting.name.text, sighting.isUnit)
      | .error _ => none) = some ("Empty", true) := by decide +kernel
  split at hgiven
  · next item read =>
    obtain ⟨sighting, sighted, hsighting⟩ := Option.map_eq_some_iff.1 hgiven
    obtain ⟨hname, hunit⟩ := Prod.mk.inj hsighting
    have hagree := ((marker_agrees sighted read "src/lib.rs").1 .markerAlias aliasAttribute []
      rfl rfl).1 rfl
    have hnoted : ∃ noted, note "src/lib.rs" { sighting with attributes := [aliasAttribute] } =
        .ok noted := by
      rw [Survey.note_ok_iff]
      exact List.forall_mem_singleton.2 ⟨.isAlias, rfl, fun _ => hunit⟩
    exact ⟨hagree.2 hnoted, sighting, hname, hnoted⟩
  · cases hgiven

/-- The attribute leaves a unit struct as it is behind empty brackets, and the survey fails. -/
theorem emptyBrackets_refused :
    MarkerAttribute.gateway.expand [] unitStruct = unitStruct.tokens ∧
      (match Manifest.ofSources [⟨"src/lib.rs", "crate", "#[gateway]\npub struct Empty;"⟩] with
        | .ok manifest => manifest.entries.map (·.markers)
        | .error _ => []) = [[.gateway]] ∧
      (match Manifest.ofSources [⟨"src/lib.rs", "crate", "#[gateway()]\npub struct Empty;"⟩] with
        | .ok _ => ""
        | .error error => error.message) =
        "src/lib.rs:2: malformed #[gateway]: unexpected token in attribute" :=
  ⟨rfl, by decide +kernel, by decide +kernel⟩

end Bindery
