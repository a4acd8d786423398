import Bindery.Proofs.Survey.Sighting
/-!
# What a survey comes by

A survey is a walk over everything in the sources that attributes can be written on. The visits of
a source list it in order: items and the members of their blocks, in modules of any depth. What is
noted is noted visit by visit (`ofItems_eq`), and nothing inside of a module for tests. So a survey
that succeeds has the entries, the implementations and the modules for tests of its visits, in
their order (`ofSources_ok`), and one that fails on source texts has come by a malformed marker
(`ofSources_error`).
-/

namespace Bindery

open Source (Attribute Item Member Name Path Ty readFile)

/-- Something that attributes can be written on: an item, or a member of a block. -/
inductive Bearer where
  | item (item : Item)
  | member (block : Item) (member : Member)

/-- The item that a bearer is, or that its block is. -/
def Bearer.block : Bearer → Item
  | .item declared => declared
  | .member block _ => block

/-- The attributes of a bearer. -/
def Bearer.attributes : Bearer → List Attribute
  | .item declared => declared.attributes
  | .member _ declared => declared.attributes

/-- Where a bearer is met: at the top of a file, or in a module that is written inline. -/
inductive Site where
  | file (path module : String)
  | inline (outer : Site) (name : Name) (forTests : Bool)

namespace Site

/-- The file that a site is in. -/
def path : Site → String
  | file path _ => path
  | inline outer _ _ => outer.path

/-- The path of the module of the file. -/
def fileModule : Site → String
  | file _ module => module
  | inline outer _ _ => outer.fileModule

/-- The path of the module at a site. -/
def module : Site → String
  | file _ module => module
  | inline outer name _ => outer.module ++ "::" ++ name.text

/-- Whether an inline module at a site is declared for tests, or lies in one that is. -/
def isForTests : Site → Bool
  | file _ _ => false
  | inline outer _ forTests => forTests || outer.isForTests

end Site

/-- A bearer that is met at a site. -/
structure Visit where
  site : Site
  bearer : Bearer

/-! ## All visits -/

mutual

/-- What is met of an item: the item, the members of its block, and the items of its module. -/
def visitsOfItem (site : Site) : Item → List Visit
  | .module attributes name content =>
    ⟨site, .item (.module attributes name content)⟩ ::
      visitsOfContent (.inline site name (attributes.any isTestCondition)) content
  | .implementation attributes interface self members =>
    let block := .implementation attributes interface self members
    ⟨site, .item block⟩ :: members.map fun member => ⟨site, .member block member⟩
  | .trait attributes name members =>
    let block := .trait attributes name members
    ⟨site, .item block⟩ :: members.map fun member => ⟨site, .member block member⟩
  | .foreign attributes members =>
    let block := .foreign attributes members
    ⟨site, .item block⟩ :: members.map fun member => ⟨site, .member block member⟩
  | item => [⟨site, .item item⟩]

/-- What is met in a module that is written inline. -/
def visitsOfContent (site : Site) : Option (List Item) → List Visit
  | none => []
  | some items => visitsOfItems site items

/-- What is met of a list of items. -/
def visitsOfItems (site : Site) : List Item → List Visit
  | [] => []
  | item :: rest => visitsOfItem site item ++ visitsOfItems site rest

end

mutual

/-- What holds of an item at a site, and passes on to the items of a module, holds at all visits. -/
theorem holds_of_mem_visitsOfItem (holds : Site → Item → Prop)
    (hmodule : ∀ site attributes name items, holds site (.module attributes name (some items)) →
      ∀ item ∈ items, holds (.inline site name (attributes.any isTestCondition)) item) :
    ∀ {item site}, holds site item → ∀ visit ∈ visitsOfItem site item,
      holds visit.site visit.bearer.block
  | .module attributes name none, site, h, visit, hvisit => by
    obtain rfl := List.mem_singleton.1 hvisit
    exact h
  | .module attributes name (some items), site, h, visit, hvisit => by
    rcases List.mem_cons.1 hvisit with rfl | hvisit
    · exact h
    · exact holds_of_mem_visitsOfItems holds hmodule (hmodule _ _ _ _ h) visit hvisit
  | .implementation _ _ _ _, site, h, visit, hvisit
  | .trait _ _ _, site, h, visit, hvisit
  | .foreign _ _, site, h, visit, hvisit => by
    rcases List.mem_cons.1 hvisit with rfl | hvisit
    · exact h
    · obtain ⟨member, -, rfl⟩ := List.mem_map.1 hvisit
      exact h
  | .struct _ _ _ _, site, h, visit, hvisit
  | .enumeration _ _ _, site, h, visit, hvisit
  | .union _ _ _, site, h, visit, hvisit
  | .function _ _ _, site, h, visit, hvisit
  | .constant _ _, site, h, visit, hvisit
  | .static _ _, site, h, visit, hvisit
  | .typeAlias _ _, site, h, visit, hvisit
  | .other _, site, h, visit, hvisit => by
    obtain rfl := List.mem_singleton.1 hvisit
    exact h

theorem holds_of_mem_visitsOfItems (holds : Site → Item → Prop)
    (hmodule : ∀ site attributes name items, holds site (.module attributes name (some items)) →
      ∀ item ∈ items, holds (.inline site name (attributes.any isTestCondition)) item) :
    ∀ {items site}, (∀ item ∈ items, holds site item) → ∀ visit ∈ visitsOfItems site items,
      holds visit.site visit.bearer.block
  | [], _, _, _, hvisit => nomatch hvisit
  | item :: rest, site, h, visit, hvisit => by
    rcases List.mem_append.1 hvisit with hvisit | hvisit
    · exact holds_of_mem_visitsOfItem holds hmodule (h item List.mem_cons_self) visit hvisit
    · have hrest := fun other hother => h other (List.mem_cons_of_mem _ hother)
      exact holds_of_mem_visitsOfItems holds hmodule hrest visit hvisit

end

/-- Whether a text is the text of a source file. -/
def SourceText.IsReadable (source : SourceText) : Prop :=
  ∃ items, readFile source.text = .ok items

/-- What is met in a source; nothing if it is no source text. -/
def SourceText.visits (source : SourceText) : List Visit :=
  match readFile source.text with
  | .ok items => visitsOfItems (.file source.file source.module) items
  | .error _ => []

namespace Visit

/-! ## One visit -/

/-- What a visit is to a survey, if attributes are looked at there. -/
def sighting? (visit : Visit) : Option Survey.Sighting :=
  match visit.bearer with
  | .item (.module attributes name _) =>
    if attributes.any isTestCondition then none
    else some ⟨attributes, name, visit.site.module, false, .unsupported "mod"⟩
  | .item (.struct attributes visibility name unit) =>
    some ⟨attributes, name, visit.site.module, false,
      .type visibility unit (attributes.any (isDerivation "Default"))⟩
  | .item (.enumeration attributes visibility name) =>
    some ⟨attributes, name, visit.site.module, false,
      .type visibility false (attributes.any (isDerivation "Default"))⟩
  | .item (.union attributes visibility name) =>
    some ⟨attributes, name, visit.site.module, false, .type visibility false false⟩
  | .item (.function attributes visibility signature) =>
    some ⟨attributes, signature.name, visit.site.module, false,
      .function (.ofSignature visibility signature)⟩
  | .item (.constant attributes name) =>
    some ⟨attributes, name, visit.site.module, false, .unsupported "const"⟩
  | .item (.static attributes name) =>
    some ⟨attributes, name, visit.site.module, false, .unsupported "static"⟩
  | .item (.trait attributes name _) =>
    some ⟨attributes, name, visit.site.module, false, .unsupported "trait"⟩
  | .item (.typeAlias attributes name) =>
    some ⟨attributes, name, visit.site.module, false, .unsupported "type alias"⟩
  | .member (.implementation _ interface self _) (.function attributes visibility signature) =>
    (typeName? self).map fun owner =>
      ⟨attributes, signature.name, visit.site.module ++ "::" ++ owner, true,
        .function (.ofSignature (if interface.isSome then .public else visibility) signature)⟩
  | .member (.implementation _ _ self _) (.constant attributes name) =>
    (typeName? self).map fun owner =>
      ⟨attributes, name, visit.site.module ++ "::" ++ owner, true, .unsupported "associated const"⟩
  | _ => none

/-- What is sighted has the attributes of the bearer. It belongs to the module, or to the type of an
implementation in the module. -/
theorem sighting?_cases {visit : Visit} {sighting : Survey.Sighting}
    (h : visit.sighting? = some sighting) :
    sighting.attributes = visit.bearer.attributes ∧
      ((sighting.isMember = false ∧ sighting.container = visit.site.module) ∨
        (sighting.isMember = true ∧ ∃ attributes interface self members owner,
          visit.bearer.block = .implementation attributes interface self members ∧
          typeName? self = some owner ∧
          sighting.container = visit.site.module ++ "::" ++ owner)) := by
  obtain ⟨site, bearer⟩ := visit
  cases bearer with
  | item item =>
    cases item with
    | module attributes =>
      simp only [sighting?] at h
      split at h
      · cases h
      · cases h
        exact ⟨rfl, .inl ⟨rfl, rfl⟩⟩
    | implementation | foreign | other => cases h
    | _ =>
      cases h
      exact ⟨rfl, .inl ⟨rfl, rfl⟩⟩
  | member block member =>
    cases block with
    | implementation _ interface self =>
      cases member with
      | function | constant =>
        obtain ⟨owner, howner, rfl⟩ := Option.map_eq_some_iff.1 h
        exact ⟨rfl, .inr ⟨rfl, _, _, _, _, owner, rfl, howner, rfl⟩⟩
      | other => cases h
    | _ => cases h

/-- The entry that a visit is to a survey. -/
def recorded? (visit : Visit) : Option Entry :=
  visit.sighting?.bind (·.recorded? visit.site.path)

theorem exists_of_recorded? {visit : Visit} {entry : Entry} (h : visit.recorded? = some entry) :
    ∃ sighting, visit.sighting? = some sighting ∧ entry = sighting.entry visit.site.path := by
  obtain ⟨sighting, hsighting, hentry⟩ := Option.bind_eq_some_iff.1 h
  rw [Survey.Sighting.recorded?] at hentry
  split at hentry
  · cases hentry
  · exact ⟨sighting, hsighting, (Option.some.inj hentry).symm⟩

/-- The trait implementation that a visit is to a survey. -/
def implementation? (visit : Visit) : Option Implementation :=
  match visit.bearer with
  | .item (.implementation _ (some interface) self _) =>
    (typeName? self).map fun owner => ⟨interface.lastName, owner⟩
  | _ => none

/-- The path of the module for tests that a visit declares. -/
def testModule? (visit : Visit) : Option String :=
  match visit.bearer with
  | .item (.module attributes name _) =>
    if attributes.any isTestCondition then some (visit.site.module ++ "::" ++ name.text) else none
  | _ => none

/-- What is noted of the attributes at a visit. -/
def marked (visit : Visit) : Except SurveyError Survey :=
  match visit.sighting? with
  | some sighting => Survey.note visit.site.path sighting
  | none => .ok .empty

/-- What is noted at a visit without a look at the attributes. -/
def unmarked (visit : Visit) : Survey :=
  ⟨[], (visit.implementation?.map (visit.site.module, ·)).toList, visit.testModule?.toList⟩

/-- All that is noted at a visit. -/
def noted (visit : Visit) : Except SurveyError Survey :=
  visit.marked.map (visit.unmarked ++ ·)

/-- A visit is made unless it is in a module for tests. -/
def isMade (visit : Visit) : Bool :=
  !visit.site.isForTests

theorem isMade_iff {visit : Visit} : visit.isMade = true ↔ visit.site.isForTests = false := by
  rw [isMade, Bool.not_eq_true']

theorem isMade_eq_false_iff {visit : Visit} :
    visit.isMade = false ↔ visit.site.isForTests = true := by
  rw [isMade, Bool.not_eq_false']

end Visit

namespace Survey

/-! ## The walk, visit by visit -/

@[simp] theorem empty_append (survey : Survey) : empty ++ survey = survey := rfl

@[simp] theorem append_empty (survey : Survey) : survey ++ empty = survey := by
  show Survey.mk _ _ _ = Survey.mk _ _ _
  congr 1 <;> exact List.append_nil _

theorem append_assoc (first second third : Survey) :
    first ++ second ++ third = first ++ (second ++ third) := by
  show Survey.mk _ _ _ = Survey.mk _ _ _
  congr 1 <;> exact List.append_assoc _ _ _

/-- Notes visits one after the other. -/
def noteAll : List Visit → Except SurveyError Survey
  | [] => .ok empty
  | visit :: rest => do
    let first ← visit.noted
    return first ++ (← noteAll rest)

theorem noteAll_append (first second : List Visit) :
    noteAll (first ++ second) = (do
      let noted ← noteAll first
      return noted ++ (← noteAll second)) := by
  induction first with
  | nil =>
    cases hsecond : noteAll second <;> simp [noteAll, hsecond, bind, Except.bind, pure, Except.pure]
  | cons visit rest ih =>
    rw [List.cons_append, noteAll, noteAll, ih]
    cases visit.noted <;> cases noteAll rest <;> cases noteAll second <;>
      simp [bind, Except.bind, pure, Except.pure, append_assoc]

/-- Nothing is noted at visits that are nothing to a survey. -/
theorem noteAll_empty {visits : List Visit} (h : ∀ visit ∈ visits, visit.noted = .ok empty) :
    noteAll visits = .ok empty := by
  induction visits with
  | nil => rfl
  | cons visit rest ih =>
    rw [noteAll, h visit List.mem_cons_self, ih fun other hother => h other (.tail _ hother)]
    rfl

theorem noteAll_singleton (visit : Visit) : noteAll [visit] = visit.noted := by
  rw [noteAll, noteAll]
  cases visit.noted <;> simp [bind, Except.bind, pure, Except.pure]

/-- Noting goes on where nothing is noted. -/
theorem empty_bind (rest : Except SurveyError Survey) :
    (do return empty ++ (← rest)) = rest := by
  cases rest <;> rfl

theorem bind_empty (first : Except SurveyError Survey) :
    (do return (← first) ++ (← Except.ok empty)) = first := by
  cases first <;> simp [bind, Except.bind, pure, Except.pure]

theorem noted_item {visit : Visit} (himplementation : visit.implementation? = none)
    (htests : visit.testModule? = none) : visit.noted = visit.marked := by
  rw [Visit.noted, Visit.unmarked, himplementation, htests]
  cases visit.marked <;> rfl

theorem noted_member (site : Site) (block : Item) (member : Member) :
    (Visit.mk site (.member block member)).noted = (Visit.mk site (.member block member)).marked :=
  noted_item rfl rfl

theorem noteAll_members (site : Site) (attributes : List Attribute) (interface : Option Path)
    {self : Ty} {owner : String} (hself : typeName? self = some owner) (all members : List Member) :
    noteAll (members.map fun member =>
        ⟨site, .member (.implementation attributes interface self all) member⟩) =
      noteMembers site.path (site.module ++ "::" ++ owner) interface.isSome members := by
  induction members with
  | nil => rfl
  | cons member rest ih =>
    rw [List.map_cons, noteAll, ih, noted_member, Visit.marked]
    cases member with
    | function => simp only [Visit.sighting?, hself, Option.map_some, noteMembers]
    | constant => simp only [Visit.sighting?, hself, Option.map_some, noteMembers]
    | other => exact empty_bind _

/-- What is noted of a block whose members are not looked at. -/
theorem noteAll_unseen {site : Site} {block : Item}
    (h : ∀ member, (Visit.mk site (.member block member)).sighting? = none)
    (members : List Member) :
    noteAll (members.map fun member => ⟨site, .member block member⟩) = .ok empty := by
  refine noteAll_empty fun visit hvisit => ?_
  obtain ⟨member, -, rfl⟩ := List.mem_map.1 hvisit
  rw [noted_member, Visit.marked, h member]

/-! ### The items of a module -/

/-- No visit is made inside of a module for tests. -/
theorem made_forTests {site : Site} (h : site.isForTests = true) (items : List Item) :
    (visitsOfItems site items).filter Visit.isMade = [] := by
  rw [List.filter_eq_nil_iff]
  intro visit hvisit
  have hsite : visit.site.isForTests = true := by
    refine holds_of_mem_visitsOfItems (fun site _ => site.isForTests = true) ?_ (fun _ _ => h) visit
      hvisit
    intro site attributes name items h item _
    simp [Site.isForTests, h]
  rw [Visit.isMade_eq_false_iff.2 hsite]
  decide

/-- The visits of a block are made wherever the block is. -/
theorem made_block {site : Site} (h : site.isForTests = false) (block : Item)
    (members : List Member) :
    ((⟨site, .item block⟩ : Visit) :: members.map fun member => ⟨site, .member block member⟩).filter
        Visit.isMade =
      ⟨site, .item block⟩ :: members.map fun member => ⟨site, .member block member⟩ := by
  rw [List.filter_eq_self]
  intro visit hvisit
  rcases List.mem_cons.1 hvisit with rfl | hvisit
  · exact Visit.isMade_iff.2 h
  · obtain ⟨member, -, rfl⟩ := List.mem_map.1 hvisit
    exact Visit.isMade_iff.2 h

/-- An item that is neither a module nor a block is noted by its attributes alone. -/
theorem noteAll_item {site : Site} (h : site.isForTests = false) {item : Item}
    (himplementation : (Visit.mk site (.item item)).implementation? = none)
    (htests : (Visit.mk site (.item item)).testModule? = none) :
    noteAll ([(⟨site, .item item⟩ : Visit)].filter Visit.isMade) =
      (Visit.mk site (.item item)).marked := by
  rw [List.filter_cons_of_pos (Visit.isMade_iff.2 h), List.filter_nil, noteAll_singleton,
    noted_item himplementation htests]

theorem noteImplementation_eq (site : Site) (attributes : List Attribute)
    (interface : Option Path) (self : Ty) (members : List Member) :
    noteImplementation site.path site.module interface self members =
      let block := .implementation attributes interface self members
      noteAll (⟨site, .item block⟩ :: members.map fun member => ⟨site, .member block member⟩) := by
  rw [noteAll, Visit.noted, Visit.unmarked, noteImplementation]
  cases hself : typeName? self with
  | none =>
    rw [noteAll_unseen fun member => by cases member <;> simp [Visit.sighting?, hself]]
    cases interface <;> simp [Visit.marked, Visit.sighting?, Visit.implementation?, hself] <;> rfl
  | some owner =>
    rw [noteAll_members site attributes interface hself]
    cases interface <;> simp [Visit.marked, Visit.sighting?, Visit.implementation?, hself] <;> rfl

mutual

theorem ofItem_eq : ∀ (item : Item) {site : Site}, site.isForTests = false →
    ofItem site.path site.module item = noteAll ((visitsOfItem site item).filter Visit.isMade)
  | .module attributes name content, site, h => by
    rw [ofItem, visitsOfItem, List.filter_cons_of_pos (Visit.isMade_iff.2 h), noteAll]
    simp only [Visit.noted, Visit.marked, Visit.sighting?, Visit.unmarked, Visit.implementation?,
      Visit.testModule?]
    cases htests : attributes.any isTestCondition with
    | true =>
      have hmade : (visitsOfContent (.inline site name true) content).filter Visit.isMade = [] := by
        cases content with
        | none => rfl
        | some items => exact made_forTests (by simp [Site.isForTests]) items
      -- Only the path of the module is noted.
      rw [hmade]
      rfl
    | false =>
      have hinside : (Site.inline site name false).isForTests = false := h
      rw [← ofContent_eq content hinside]
      simp only [Bool.false_eq_true, if_false]
      cases note site.path ⟨attributes, name, site.module, false, .unsupported "mod"⟩ <;> rfl
  | .implementation attributes interface self members, site, h => by
    rw [ofItem, noteImplementation_eq site attributes, visitsOfItem, made_block h]
  | .trait attributes name members, site, h => by
    rw [visitsOfItem, made_block h, noteAll, noteAll_unseen fun _ => rfl, noted_item rfl rfl,
      ofItem]
    exact (bind_empty _).symm
  | .foreign attributes members, site, h => by
    rw [visitsOfItem, made_block h, noteAll, noteAll_unseen fun _ => rfl, noted_item rfl rfl,
      ofItem]
    rfl
  | .struct _ _ _ _, _, h
  | .enumeration _ _ _, _, h
  | .union _ _ _, _, h
  | .function _ _ _, _, h
  | .constant _ _, _, h
  | .static _ _, _, h
  | .typeAlias _ _, _, h
  | .other _, _, h => by
    simp only [ofItem, visitsOfItem]
    rw [noteAll_item h] <;> rfl

theorem ofContent_eq : ∀ (content : Option (List Item)) {site : Site}, site.isForTests = false →
    ofContent site.path site.module content =
      noteAll ((visitsOfContent site content).filter Visit.isMade)
  | none, _, _ => rfl
  | some items, _, h => ofItems_eq items h

/-- What is noted of a list of items is noted at the visits that are made of them. -/
theorem ofItems_eq : ∀ (items : List Item) {site : Site}, site.isForTests = false →
    ofItems site.path site.module items =
      noteAll ((visitsOfItems site items).filter Visit.isMade)
  | [], _, _ => rfl
  | item :: rest, site, h => by
    rw [ofItems, visitsOfItems, List.filter_append, noteAll_append, ofItem_eq item h,
      ofItems_eq rest h]

end

/-! ## Whole surveys -/

/-- What is noted at a visit that is passed without fault. -/
theorem marked_ok {visit : Visit} {survey : Survey} (h : visit.marked = .ok survey) :
    survey = ⟨visit.recorded?.toList, [], []⟩ := by
  rw [Visit.marked] at h
  rw [Visit.recorded?]
  cases hsighting : visit.sighting? with
  | none =>
    rw [hsighting] at h
    exact (Except.ok.inj h).symm
  | some sighting =>
    rw [hsighting] at h
    exact (note_ok h).1

/-- The visits of sources, one after the other. -/
def visits (sources : List SourceText) : List Visit :=
  sources.flatMap SourceText.visits

/-- What visits leave, in their order. -/
def ofVisits (visits : List Visit) : Survey where
  entries := visits.filterMap Visit.recorded?
  implementations := visits.filterMap fun visit =>
    visit.implementation?.map (visit.site.module, ·)
  testModules := visits.filterMap Visit.testModule?

theorem ofVisits_cons (visit : Visit) (rest : List Visit) :
    ofVisits (visit :: rest) =
      visit.unmarked ++ ⟨visit.recorded?.toList, [], []⟩ ++ ofVisits rest := by
  have hcons : ∀ {α : Type} (f : Visit → Option α),
      (visit :: rest).filterMap f = (f visit).toList ++ rest.filterMap f := by
    intro α f
    rw [List.filterMap_cons]
    cases f visit <;> rfl
  show Survey.mk _ _ _ = Survey.mk _ _ _
  congr 1
  · exact hcons _
  · exact (hcons _).trans (congrArg (· ++ _) (List.append_nil _).symm)
  · exact (hcons _).trans (congrArg (· ++ _) (List.append_nil _).symm)

theorem noteAll_ok {visits : List Visit} {survey : Survey} (h : noteAll visits = .ok survey) :
    survey = ofVisits visits ∧ ∀ visit ∈ visits, ∃ marked, visit.marked = .ok marked := by
  induction visits generalizing survey with
  | nil => exact ⟨(Except.ok.inj h).symm, fun _ hvisit => nomatch hvisit⟩
  | cons visit rest ih =>
    rw [noteAll, Visit.noted] at h
    cases hmarked : visit.marked with
    | error => rw [hmarked] at h; cases h
    | ok marked =>
      cases hrest : noteAll rest with
      | error => rw [hmarked, hrest] at h; cases h
      | ok more =>
        rw [hmarked, hrest] at h
        obtain ⟨rfl, hmore⟩ := ih hrest
        obtain rfl := marked_ok hmarked
        obtain rfl := Except.ok.inj h
        exact ⟨(ofVisits_cons visit rest).symm, List.forall_mem_cons.2 ⟨⟨_, hmarked⟩, hmore⟩⟩

theorem noteAll_error {visits : List Visit} {error : SurveyError}
    (h : noteAll visits = .error error) : ∃ visit ∈ visits, visit.marked = .error error := by
  induction visits with
  | nil => cases h
  | cons visit rest ih =>
    rw [noteAll, Visit.noted] at h
    cases hmarked : visit.marked with
    | error =>
      rw [hmarked] at h
      obtain rfl := Except.error.inj h
      exact ⟨visit, List.mem_cons_self, hmarked⟩
    | ok marked =>
      cases hrest : noteAll rest with
      | ok => rw [hmarked, hrest] at h; cases h
      | error =>
        rw [hmarked, hrest] at h
        obtain ⟨found, hfound, hfault⟩ := ih (hrest.trans h)
        exact ⟨found, .tail _ hfound, hfault⟩

theorem ofSource_eq {source : SourceText} (h : source.IsReadable) :
    ofSource source = noteAll (source.visits.filter Visit.isMade) := by
  obtain ⟨items, hitems⟩ := h
  have hsite : (Site.file source.file source.module).isForTests = false := rfl
  unfold ofSource SourceText.visits
  rw [hitems]
  exact ofItems_eq items hsite

/-- A survey of source texts notes what is at the visits that are made. -/
theorem ofSources_eq {sources : List SourceText}
    (h : ∀ source ∈ sources, source.IsReadable) :
    ofSources sources = noteAll ((visits sources).filter Visit.isMade) := by
  induction sources with
  | nil => rfl
  | cons source rest ih =>
    have hrest := ih fun other hother => h other (.tail _ hother)
    rw [ofSources, ofSource_eq (h source List.mem_cons_self), hrest, visits, visits,
      List.flatMap_cons, List.filter_append, noteAll_append]

theorem readable_of_ofSources {sources : List SourceText} {survey : Survey}
    (h : ofSources sources = .ok survey) : ∀ source ∈ sources, source.IsReadable := by
  induction sources generalizing survey with
  | nil => exact fun _ hsource => nomatch hsource
  | cons source rest ih =>
    rw [ofSources] at h
    unfold ofSource at h
    cases hitems : Source.readFile source.text with
    | error => rw [hitems] at h; cases h
    | ok items =>
      cases hrest : ofSources rest with
      | error =>
        rw [hitems, hrest] at h
        cases hfirst : ofItems source.file source.module items <;> simp only [hfirst] at h <;>
          cases h
      | ok more => exact List.forall_mem_cons.2 ⟨⟨items, hitems⟩, ih hrest⟩

/-- What a survey that succeeds has noted. -/
theorem ofSources_ok {sources : List SourceText} {survey : Survey}
    (h : ofSources sources = .ok survey) :
    survey = ofVisits ((visits sources).filter Visit.isMade) ∧
      ∀ visit ∈ (visits sources).filter Visit.isMade, ∃ marked, visit.marked = .ok marked := by
  rw [ofSources_eq (readable_of_ofSources h)] at h
  exact noteAll_ok h

theorem ofSources_manifest {sources : List SourceText} {manifest : Manifest}
    (h : Manifest.ofSources sources = .ok manifest) :
    manifest = (ofVisits ((visits sources).filter Visit.isMade)).manifest := by
  rw [Manifest.ofSources] at h
  cases hsurvey : ofSources sources with
  | error => rw [hsurvey] at h; cases h
  | ok survey =>
    rw [hsurvey] at h
    rw [← (ofSources_ok hsurvey).1]
    exact (Except.ok.inj h).symm

/-- Every entry of a manifest is what a visit has left. -/
theorem exists_visit_of_entry {sources : List SourceText} {manifest : Manifest}
    (h : Manifest.ofSources sources = .ok manifest) {entry : Entry}
    (hentry : entry ∈ manifest.entries) :
    ∃ visit ∈ visits sources, visit.recorded? = some entry := by
  obtain rfl := ofSources_manifest h
  obtain ⟨visit, hvisit, hrecorded⟩ := List.mem_filterMap.1 (List.mem_filter.1 hentry).1
  exact ⟨visit, (List.mem_filter.1 hvisit).1, hrecorded⟩

/-- A survey of source texts fails at a malformed marker only. -/
theorem ofSources_error {sources : List SourceText} {error : SurveyError}
    (hreadable : ∀ source ∈ sources, source.IsReadable) (h : ofSources sources = .error error) :
    ∃ name location cause, error = .malformed name location cause := by
  rw [ofSources_eq hreadable] at h
  obtain ⟨visit, -, hmarked⟩ := noteAll_error h
  rw [Visit.marked] at hmarked
  cases hsighting : visit.sighting? with
  | none => rw [hsighting] at hmarked; cases hmarked
  | some sighting =>
    rw [hsighting] at hmarked
    obtain ⟨name, cause, rfl⟩ := note_error hmarked
    exact ⟨name, _, cause, rfl⟩

end Survey

end Bindery
