import Bindery.Proofs.Round.Misuse
import Bindery.Proofs.Survey.Exclusion
/-!
# What becomes of a marker

A marker on something that is looked at either stops the survey or is in the manifest, and on
anything that cannot be bound it stops the round (`marker_noticed`). The kinds of things that are
looked at are listed by `isSeen`. A marker on anything else makes no difference at all
(`unseen_marker`).
-/

namespace Bindery

open Source (Attribute)

/-! ## Rounds with a marker on something that cannot be bound -/

namespace Manifest

/-- A mark on something that cannot be bound stops the discovery of its role. -/
theorem discover_unsupported {manifest : Manifest} {entry : Entry}
    (hentry : entry ∈ manifest.entries) (hplain : entry.isAlias = false) {word : String}
    (hcategory : entry.category = .unsupported word) {role : Role} {mark : Mark}
    (hmark : mark ∈ entry.marks role) (report : Report) :
    ∃ word name location, (manifest.discover role report).2 =
      .error (.unsupportedCategory role word name location) := by
  obtain ⟨position, hposition⟩ := List.getElem?_of_mem hentry
  obtain ⟨index, hindex⟩ := List.getElem?_of_mem hmark
  have hmisuse : manifest.UnsupportedFrom role ⟨position, index, position⟩
      (.unsupportedCategory role word entry.path entry.location) :=
    ⟨entry, ⟨mark, none⟩, word,
      ⟨entry, mark, hposition, hindex, hposition, .inr ⟨hplain, rfl, rfl⟩⟩, hplain, hcategory, rfl⟩
  rcases hdiscover : manifest.discover role report with ⟨report', fatal | declarations⟩
  · obtain ⟨_, _, ⟨⟨_, _, _, -, -, -, rfl⟩, -⟩, -⟩ := discover_stops hdiscover
    exact ⟨_, _, _, rfl⟩
  · exact absurd hmisuse ((discover_finishes hdiscover).1 _ _)

end Manifest

namespace Generator

/-- A role that cannot be discovered stops the round with the cause. -/
theorem generate_aborted {manifest : Manifest} {role : Role} {fatal : Fatal}
    (h : ∀ report, (manifest.discover role report).2 = .error fatal) (generator : Generator)
    (report : Report) :
    ∃ causes, fatal ∈ causes ∧
      (generator.generate manifest report).2 = .error (.aborted causes) := by
  have haccept : ∃ causes, fatal ∈ causes ∧
      (generator.accept manifest report).2 = .error (.aborted causes) := by
    rw [accept]
    rcases hproviders : manifest.discover .provider (reportUnresolved manifest report) with
      ⟨between, providers⟩
    rcases hgateways : manifest.discover .gateway between with ⟨after, gateways⟩
    simp only [hgateways]
    cases role with
    | provider =>
      have hfatal : providers = .error fatal := by
        simpa [hproviders] using h (reportUnresolved manifest report)
      subst hfatal
      exact ⟨_, by simp [misuses], rfl⟩
    | gateway =>
      have hfatal : gateways = .error fatal := by simpa [hgateways] using h between
      subst hfatal
      cases providers with
      | error | ok => exact ⟨_, by simp [misuses], rfl⟩
  obtain ⟨causes, hmem, houtcome⟩ := haccept
  refine ⟨causes, hmem, ?_⟩
  rw [generate]
  simp only [houtcome]
  rfl

end Generator

/-! ## What is looked at -/

/-- Whether the attributes of a bearer are looked at. -/
def Bearer.isSeen : Bearer → Bool
  | .item (.module attributes _ _) => !attributes.any isTestCondition
  | .item (.implementation _ _ _ _) => false
  | .item (.foreign _ _) => false
  | .item (.other _) => false
  | .item _ => true
  | .member (.implementation _ _ self _) (.function _ _ _) => (typeName? self).isSome
  | .member (.implementation _ _ self _) (.constant _ _) => (typeName? self).isSome
  | .member _ _ => false

/-- There is something to sight wherever attributes are looked at, and nowhere else. -/
theorem isSome_sighting? (visit : Visit) : visit.sighting?.isSome = visit.bearer.isSeen := by
  obtain ⟨site, bearer⟩ := visit
  cases bearer with
  | item item =>
    cases item with
    | module attributes name content =>
      simp only [Visit.sighting?, Bearer.isSeen]
      cases attributes.any isTestCondition <;> rfl
    | _ => rfl
  | member block member =>
    cases block with
    | implementation _ interface self =>
      cases member with
      | function | constant => exact Option.isSome_map
      | other => rfl
    | _ => rfl

/-- The names of the attributes that are markers. -/
def markerNames : List String :=
  ["provider", "gateway", "tagged", "marker_alias"]

/-- The name of the attribute that says something. -/
def Saying.name? : Saying → Option String
  | .marker (.provider _) => some "provider"
  | .marker .gateway => some "gateway"
  | .marker (.tagged _) => some "tagged"
  | .isAlias => some "marker_alias"
  | .nothing => none

/-- An attribute that is understood says what its name stands for. -/
theorem name_of_ofAttribute {attr : Attribute} {saying : Saying}
    (h : Saying.ofAttribute attr = .ok saying) (hmarker : attr.path.lastName ∈ markerNames) :
    saying.name? = some attr.path.lastName := by
  rw [Saying.ofAttribute] at h
  split at h
  case h_1 hname =>
    rw [hname]
    cases hkey : readArguments attr fun _ => Source.Grammar.string with
    | error => rw [hkey] at h; cases h
    | ok key =>
      rw [hkey] at h
      simp only [bind, Except.bind] at h
      split at h <;> cases h
      rfl
  case h_2 hname =>
    rw [hname]
    cases hbare : checkBare attr <;> rw [hbare] at h <;> cases h
    rfl
  case h_3 hname =>
    rw [hname]
    cases hpath : readArguments attr Source.Grammar.anyPath <;> rw [hpath] at h <;> cases h
    rfl
  case h_4 hname =>
    rw [hname]
    cases hbare : checkBare attr <;> rw [hbare] at h <;> cases h
    rfl
  case h_5 hprovider hgateway htagged halias =>
    -- No other name is the name of a marker.
    simp only [markerNames, List.mem_cons, List.not_mem_nil, or_false] at hmarker
    rcases hmarker with hname | hname | hname | hname
    · exact (hprovider hname).elim
    · exact (hgateway hname).elim
    · exact (htagged hname).elim
    · exact (halias hname).elim

/-- Whether what an attribute says is in an entry. -/
def Entry.Says (entry : Entry) : Saying → Prop
  | .marker marker => marker ∈ entry.markers
  | .isAlias => entry.isAlias = true
  | .nothing => True

theorem entry_says {sighting : Survey.Sighting} {attr : Attribute} {saying : Saying}
    (hattr : attr ∈ sighting.attributes) (h : Saying.ofAttribute attr = .ok saying)
    (hname : saying.name?.isSome = true) (file : String) :
    sighting.recorded? file = some (sighting.entry file) ∧ (sighting.entry file).Says saying := by
  have hsaying : Saying.ofAttribute? attr = some saying := by
    rw [Saying.ofAttribute?, h]
    rfl
  rw [Survey.Sighting.recorded?]
  cases saying with
  | marker marker =>
    have hmem : marker ∈ sighting.markers :=
      List.mem_filterMap.2 ⟨attr, hattr, by rw [hsaying]; rfl⟩
    have hmarkers : sighting.markers.isEmpty = false := by
      cases hlist : sighting.markers with
      | nil => rw [hlist] at hmem; cases hmem
      | cons => rfl
    exact ⟨by simp [hmarkers], hmem⟩
  | isAlias =>
    have halias : sighting.isAlias = true :=
      List.contains_iff_mem.2 (List.mem_map.2 ⟨attr, hattr, hsaying⟩)
    exact ⟨by simp [halias], halias⟩
  | nothing => cases hname

/-- A saying under the name of a role is a mark for it. -/
theorem mark_of_says {entry : Entry} {saying : Saying} (h : entry.Says saying) {role : Role}
    (hname : saying.name? = some role.name) : ∃ mark, mark ∈ entry.marks role := by
  cases saying with
  | marker marker =>
    cases role <;> cases marker <;> simp [Saying.name?, Role.name] at hname
    · next key => exact ⟨.provider key, List.mem_map.2 ⟨key, List.mem_filterMap.2 ⟨_, h, rfl⟩, rfl⟩⟩
    · have hgateway : entry.isGateway = true := List.contains_iff_mem.2 h
      exact ⟨.gateway, by simp [Entry.marks, hgateway]⟩
  | isAlias | nothing => cases role <;> simp [Saying.name?, Role.name] at hname

theorem exists_saying {attr : Attribute} (h : (Saying.ofAttribute? attr).isSome = true) :
    ∃ saying, Saying.ofAttribute attr = .ok saying :=
  Survey.exists_ok h

/-! ## Surveys with a marker -/

section
variable {sources : List SourceText} {visit : Visit} {attr : Attribute}

theorem isMade_of_isKept {tests : List String} (h : visit.isKept tests = true) :
    visit.isMade = true := by
  cases hmade : visit.isMade with
  | true => rfl
  | false =>
    have hsite := Visit.isMade_eq_false_iff.1 hmade
    simp [Visit.isKept, Site.isEnclosed, hsite] at h

/-- A marker on something that is looked at, and shares no path with a module for tests, either
stops the survey or is in the manifest. On something that cannot be bound it then stops every
round. -/
theorem marker_noticed (hreadable : ∀ source ∈ sources, source.IsReadable)
    (hwhole : ∀ source ∈ sources, IsWhole source.module) (hvisit : visit ∈ Survey.visits sources)
    (hkept : visit.isKept (Survey.testModulesOf sources) = true)
    (hseen : visit.bearer.isSeen = true) (hattr : attr ∈ visit.bearer.attributes)
    (hmarker : attr.path.lastName ∈ markerNames) :
    (∃ name location cause, Manifest.ofSources sources = .error (.malformed name location cause)) ∨
      ∃ manifest entry saying, Manifest.ofSources sources = .ok manifest ∧
        visit.recorded? = some entry ∧ entry ∈ manifest.entries ∧
        Saying.ofAttribute attr = .ok saying ∧ saying.name? = some attr.path.lastName ∧
        entry.Says saying ∧
        ∀ role : Role, attr.path.lastName = role.name →
          ∀ word, entry.category = .unsupported word →
            ∀ (generator : Generator) (report : Report), ∃ causes word name location,
              .unsupportedCategory role word name location ∈ causes ∧
                (generator.generate manifest report).2 = .error (.aborted causes) := by
  cases hsurvey : Survey.ofSources sources with
  | error error =>
    obtain ⟨name, location, cause, rfl⟩ := Survey.ofSources_error hreadable hsurvey
    left
    exact ⟨name, location, cause, by rw [Manifest.ofSources, hsurvey]; rfl⟩
  | ok survey =>
    right
    have hmanifest : Manifest.ofSources sources = .ok survey.manifest := by
      rw [Manifest.ofSources, hsurvey]
      rfl
    obtain ⟨sighting, hsighting⟩ :=
      Option.isSome_iff_exists.1 ((isSome_sighting? visit).trans hseen)
    have hattributes := (Visit.sighting?_cases hsighting).1
    obtain ⟨marked, hmarked⟩ := (Survey.ofSources_ok hsurvey).2 visit
      (List.mem_filter.2 ⟨hvisit, isMade_of_isKept hkept⟩)
    rw [Visit.marked, hsighting] at hmarked
    obtain ⟨-, hunderstood, hunit⟩ := Survey.note_ok hmarked
    obtain ⟨saying, hsaying⟩ := exists_saying (hunderstood attr (hattributes ▸ hattr))
    have hname := name_of_ofAttribute hsaying hmarker
    obtain ⟨hentry, hsays⟩ := entry_says (hattributes ▸ hattr) hsaying (by simp [hname])
      visit.site.path
    have hfound : visit.recorded? = some (sighting.entry visit.site.path) := by
      rw [Visit.recorded?, hsighting]
      exact hentry
    have hmem : sighting.entry visit.site.path ∈ survey.manifest.entries := by
      rw [Survey.entries_of_kept hwhole hmanifest]
      exact List.mem_filterMap.2 ⟨visit, List.mem_filter.2 ⟨hvisit, hkept⟩, hfound⟩
    refine ⟨survey.manifest, _, saying, hmanifest, hfound, hmem, hsaying, hname, hsays, ?_⟩
    intro role hrole word hcategory generator report
    obtain ⟨mark, hmark⟩ := mark_of_says hsays (hname.trans (congrArg some hrole))
    have hplain : sighting.isAlias = false := by
      cases halias : sighting.isAlias with
      | false => rfl
      | true =>
        -- An alias is a unit struct.
        have hstruct := hunit halias
        have hother : sighting.category = .unsupported word := hcategory
        simp [Survey.Sighting.isUnit, hother] at hstruct
    obtain ⟨word, name, location, hdiscover⟩ :=
      Manifest.discover_unsupported hmem hplain hcategory hmark report
    -- What discovery ends with is the same whatever was reported before.
    obtain ⟨causes, hcause, haborted⟩ := Generator.generate_aborted
      (fun other => (Manifest.discover_outcome _ role other report).trans hdiscover) generator
      report
    exact ⟨causes, word, name, location, hcause, haborted⟩

end

/-- A source with a marker on a constant. -/
def markedConstant : List SourceText :=
  [⟨"lib.rs", "crate", "#[gateway] const C: u8 = 1;"⟩]

/-- No round goes through with a marker on a constant. -/
theorem markedConstant_noticed :
    ∃ manifest, Manifest.ofSources markedConstant = .ok manifest ∧
      ∀ (generator : Generator) (report : Report), ∃ causes word name location,
        .unsupportedCategory .gateway word name location ∈ causes ∧
          (generator.generate manifest report).2 = .error (.aborted causes) := by
  have hreadable : ∀ source ∈ markedConstant, source.IsReadable := by
    intro source hsource
    obtain rfl := List.mem_singleton.1 hsource
    exact Survey.exists_ok (by decide +kernel)
  have hwhole : ∀ source ∈ markedConstant, IsWhole source.module := by
    simp [markedConstant, IsWhole]
  have hvisit : ((Survey.visits markedConstant).any fun visit =>
      visit.isKept (Survey.testModulesOf markedConstant) && visit.bearer.isSeen &&
        visit.bearer.attributes.any (·.path.lastName == "gateway")) = true := by
    decide +kernel
  simp only [List.any_eq_true, Bool.and_eq_true, beq_iff_eq] at hvisit
  obtain ⟨visit, hvisit, ⟨hkept, hseen⟩, attr, hattr, hname⟩ := hvisit
  obtain ⟨found, hfound⟩ : ∃ manifest, Manifest.ofSources markedConstant = .ok manifest :=
    Survey.exists_ok (by decide +kernel)
  have hcategories : (Manifest.ofSources markedConstant).toOption.all
      (·.entries.all (·.category == .unsupported "const")) = true := by
    decide +kernel
  have hmarker : attr.path.lastName ∈ markerNames := by
    rw [hname]
    decide
  rcases marker_noticed hreadable hwhole hvisit hkept hseen hattr hmarker with
    ⟨_, _, _, herror⟩ | ⟨manifest, entry, _, hmanifest, -, hentry, -, -, -, haborted⟩
  · rw [hfound] at herror
    cases herror
  · rw [hmanifest] at hcategories
    have hcategory : entry.category = .unsupported "const" := by
      simpa using List.all_eq_true.1 hcategories entry hentry
    exact ⟨manifest, hmanifest, haborted .gateway hname _ hcategory⟩

/-- Nothing is made of the attributes of what is not looked at. -/
theorem unseen_marker {visit : Visit} (h : visit.bearer.isSeen = false) :
    visit.noted = .ok visit.unmarked := by
  have hsighting : visit.sighting? = none :=
    Option.isSome_eq_false_iff.1 ((isSome_sighting? visit).trans h) |> Option.isNone_iff_eq_none.1
  rw [Visit.noted, Visit.marked, hsighting]
  exact congrArg Except.ok (Survey.append_empty _)

/-- A source with a marker on a constant of a trait. -/
def markedMember : List SourceText :=
  [⟨"lib.rs", "crate", "trait T \x7b #[gateway] const C: u8 = 1; \x7d"⟩]

/-- A marker on a constant of a trait goes unnoticed. -/
theorem markedMember_unnoticed :
    (Manifest.ofSources markedMember).toOption = some ⟨[], []⟩ ∧
      ((Survey.visits markedMember).any fun visit =>
        visit.isKept (Survey.testModulesOf markedMember) &&
          visit.bearer.attributes.any (·.path.lastName == "gateway")) = true := by
  decide +kernel

end Bindery
