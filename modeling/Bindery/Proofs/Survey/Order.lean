import Bindery.Proofs.Survey.Exclusion
/-!
# Sources in another order

What a source leaves in a manifest depends on the other sources by one thing only: the modules for
tests that any of them declares, be it scanned before or after (`SourceText.part`). So a manifest is
its sources' parts one after the other, and `ofSources_perm` says that in another order of the
sources the same parts follow each other in the new order.
-/

namespace Bindery

/-! ## Paths -/

/-- A path is that of a module, or of something in the module. -/
def IsWithin (module path : String) : Prop :=
  path = module ∨ ∃ rest, path = module ++ "::" ++ rest

/-- A path merely starts like that of a module: the module's last name goes on in it. -/
def Extends (module path : String) : Prop :=
  ∃ char rest, char ≠ ':' ∧ path.toList = module.toList ++ char :: rest

theorem isInside_iff {module path : String} :
    Survey.isInside module path = true ↔ IsWithin module path := by
  unfold Survey.isInside IsWithin
  simp only [Bool.or_eq_true, beq_iff_eq, List.isPrefixOf_iff_prefix]
  refine or_congr_right ⟨?_, ?_⟩
  · rintro ⟨rest, hrest⟩
    refine ⟨String.ofList rest, String.ext ?_⟩
    simp [← hrest]
  · rintro ⟨rest, rfl⟩
    exact ⟨rest.toList, by simp⟩

namespace IsWithin

variable {module path : String}

theorem refl (module : String) : IsWithin module module :=
  .inl rfl

theorem name (h : IsWithin module path) (name : String) :
    IsWithin module (path ++ "::" ++ name) := by
  rcases h with rfl | ⟨rest, rfl⟩
  · exact .inr ⟨name, rfl⟩
  · exact .inr ⟨rest ++ "::" ++ name, by simp [String.append_assoc]⟩

theorem trans {inner : String} (h : IsWithin module inner) (h' : IsWithin inner path) :
    IsWithin module path := by
  rcases h' with rfl | ⟨rest, rfl⟩
  · exact h
  · exact h.name rest

end IsWithin

namespace Extends

variable {module path : String}

theorem name (h : Extends module path) (name : String) :
    Extends module (path ++ "::" ++ name) := by
  obtain ⟨char, rest, hchar, hpath⟩ := h
  exact ⟨char, rest ++ "::".toList ++ name.toList, hchar, by simp [hpath]⟩

/-- The module ends at a separator, and what goes on in its last name does not. -/
theorem not_isWithin (h : Extends module path) : ¬IsWithin module path := by
  obtain ⟨char, rest, hchar, hpath⟩ := h
  rintro (rfl | ⟨more, rfl⟩)
  · have hlength := congrArg List.length hpath
    simp at hlength
  · have hcons : ':' :: ':' :: more.toList = char :: rest := by
      simpa [List.append_assoc] using hpath
    exact hchar (List.cons.inj hcons).1.symm

end Extends

/-! ## Declarations for tests around a visit -/

/-- All that is met below a site is in its module. -/
theorem isWithin_of_mem_visits {source : SourceText} {visit : Visit} (h : visit ∈ source.visits) :
    IsWithin source.module visit.site.module := by
  unfold SourceText.visits at h
  split at h
  · refine holds_of_mem_visitsOfItems (fun site _ => IsWithin source.module site.module) ?_
      (fun _ _ => .refl _) visit h
    intro site attributes name items hsite item _
    exact hsite.name name.text
  · cases h

/-- A module for tests is declared by a visit that is made. -/
def DeclaresWithin (visits : List Visit) (path : String) : Prop :=
  ∃ visit ∈ visits, visit.isMade = true ∧ ∃ test ∈ visit.testModule?, IsWithin test path

theorem DeclaresWithin.mono {visits more : List Visit} {path : String}
    (h : DeclaresWithin visits path) (hsub : visits ⊆ more) : DeclaresWithin more path := by
  obtain ⟨visit, hvisit, hrest⟩ := h
  exact ⟨visit, hsub hvisit, hrest⟩

mutual

/-- What is met in a module for tests is in one whose declaration is met as well, outside of all
others. -/
theorem declaresWithin_of_item : ∀ {item : Source.Item} {site : Site}, site.isForTests = false →
    ∀ visit ∈ visitsOfItem site item, visit.site.isForTests = true →
      DeclaresWithin (visitsOfItem site item) visit.site.module
  | .module attributes name none, site, h, visit, hvisit, htests => by
    obtain rfl := List.mem_singleton.1 hvisit
    simp [h] at htests
  | .module attributes name (some items), site, h, visit, hvisit, htests => by
    rcases List.mem_cons.1 hvisit with rfl | hvisit
    · simp [h] at htests
    · have hinside : visit ∈ visitsOfItems
          (.inline site name (attributes.any isTestCondition)) items := hvisit
      cases hcondition : attributes.any isTestCondition with
      | true =>
        -- The module itself is the one.
        refine ⟨_, List.mem_cons_self, Visit.isMade_iff.2 h, site.module ++ "::" ++ name.text, ?_,
          ?_⟩
        · simp [Visit.testModule?, hcondition]
        · refine holds_of_mem_visitsOfItems
            (fun inner _ => IsWithin (site.module ++ "::" ++ name.text) inner.module) ?_
            (fun _ _ => .refl _) visit hinside
          intro inner _ more _ hinner _ _
          exact hinner.name more.text
      | false =>
        rw [hcondition] at hinside
        have hsite : (Site.inline site name false).isForTests = false := h
        refine (declaresWithin_of_items hsite visit hinside htests).mono ?_
        intro other hother
        refine List.mem_cons_of_mem _ ?_
        rw [hcondition]
        exact hother
  | .implementation _ _ _ _, site, h, visit, hvisit, htests
  | .trait _ _ _, site, h, visit, hvisit, htests
  | .foreign _ _, site, h, visit, hvisit, htests => by
    rcases List.mem_cons.1 hvisit with rfl | hvisit
    · simp [h] at htests
    · obtain ⟨member, -, rfl⟩ := List.mem_map.1 hvisit
      simp [h] at htests
  | .struct _ _ _ _, site, h, visit, hvisit, htests
  | .enumeration _ _ _, site, h, visit, hvisit, htests
  | .union _ _ _, site, h, visit, hvisit, htests
  | .function _ _ _, site, h, visit, hvisit, htests
  | .constant _ _, site, h, visit, hvisit, htests
  | .static _ _, site, h, visit, hvisit, htests
  | .typeAlias _ _, site, h, visit, hvisit, htests
  | .other _, site, h, visit, hvisit, htests => by
    obtain rfl := List.mem_singleton.1 hvisit
    simp [h] at htests

theorem declaresWithin_of_items : ∀ {items : List Source.Item} {site : Site},
    site.isForTests = false → ∀ visit ∈ visitsOfItems site items, visit.site.isForTests = true →
      DeclaresWithin (visitsOfItems site items) visit.site.module
  | [], _, _, _, hvisit, _ => nomatch hvisit
  | item :: rest, site, h, visit, hvisit, htests => by
    rcases List.mem_append.1 hvisit with hvisit | hvisit
    · exact (declaresWithin_of_item h visit hvisit htests).mono (List.subset_append_left _ _)
    · exact (declaresWithin_of_items h visit hvisit htests).mono (List.subset_append_right _ _)

end

namespace Survey

theorem mem_testModulesOf {sources : List SourceText} {test : String} :
    test ∈ testModulesOf sources ↔
      ∃ visit ∈ visits sources, visit.isMade = true ∧ visit.testModule? = some test := by
  simp [testModulesOf, and_assoc]

/-- A module for tests is in one that counts as such, wherever it is declared. -/
theorem exists_testModule {sources : List SourceText} {visit : Visit}
    (h : visit ∈ visits sources) {test : String} (htest : visit.testModule? = some test) :
    ∃ outer ∈ testModulesOf sources, IsWithin outer test := by
  by_cases hmade : visit.isMade = true
  · exact ⟨test, mem_testModulesOf.2 ⟨visit, h, hmade, htest⟩, .refl _⟩
  · have htests := Visit.isMade_eq_false_iff.1 (by simpa using hmade)
    obtain ⟨source, hsource, hvisit⟩ := List.mem_flatMap.1 h
    have hdeclares : DeclaresWithin source.visits visit.site.module := by
      unfold SourceText.visits at hvisit ⊢
      split at hvisit
      · exact declaresWithin_of_items rfl visit hvisit htests
      · cases hvisit
    obtain ⟨declaring, hdeclaring, hmade, outer, houter, hwithin⟩ := hdeclares
    refine ⟨outer, mem_testModulesOf.2 ⟨declaring, ?_, hmade, houter⟩, hwithin.trans ?_⟩
    · exact List.mem_flatMap.2 ⟨source, hsource, hdeclaring⟩
    -- The module is declared by its name in the module of the visit.
    · unfold Visit.testModule? at htest
      split at htest
      · split at htest
        · obtain rfl := Option.some.inj htest
          exact (IsWithin.refl _).name _
        · cases htest
      · cases htest

end Survey

/-! ## What a source leaves -/

namespace Visit

/-- The entry that a visit leaves in a manifest without these modules for tests. -/
def entry? (tests : List String) (visit : Visit) : Option Entry :=
  if visit.isMade then
    visit.recorded?.filter fun entry =>
      !tests.any (Survey.isInside · (entry.scope.getD entry.path))
  else none

/-- The implementation that a visit leaves in a manifest without these modules for tests. -/
def keptImplementation? (tests : List String) (visit : Visit) : Option Implementation :=
  if visit.isMade && !tests.any (Survey.isInside · visit.site.module) then visit.implementation?
  else none

/-- A visit leaves an entry and an implementation, each or none. -/
def left (tests : List String) (visit : Visit) : Option Entry × Option Implementation :=
  (visit.entry? tests, visit.keptImplementation? tests)

/-- What is looked up among the modules for tests is a name in the module. -/
theorem exists_container {visit : Visit} {entry : Entry} (h : visit.recorded? = some entry) :
    ∃ name, entry.scope.getD entry.path = visit.site.module ++ "::" ++ name := by
  obtain ⟨sighting, hsighting, rfl⟩ := exists_of_recorded? h
  rcases (sighting?_cases hsighting).2 with
    ⟨hmember, hcontainer⟩ | ⟨hmember, _, _, _, _, owner, -, -, hcontainer⟩
  · exact ⟨sighting.name.text, by simp [Survey.Sighting.entry, hmember, hcontainer]⟩
  · exact ⟨owner, by simp [Survey.Sighting.entry, hmember, hcontainer]⟩

/-- Nothing is left of what is met in the module of one for tests. -/
theorem left_of_isWithin {tests : List String} {visit : Visit} {test : String} (h : test ∈ tests)
    (hwithin : IsWithin test visit.site.module) : visit.left tests = (none, none) := by
  have hentry : visit.entry? tests = none := by
    unfold entry?
    split
    · cases hrecorded : visit.recorded? with
      | none => rfl
      | some entry =>
        obtain ⟨name, hname⟩ := exists_container hrecorded
        have hinside : tests.any (Survey.isInside · (entry.scope.getD entry.path)) = true := by
          rw [List.any_eq_true, hname]
          exact ⟨test, h, isInside_iff.2 (hwithin.name name)⟩
        simp [Option.filter, hinside]
    · rfl
  have hinside : tests.any (Survey.isInside · visit.site.module) = true :=
    List.any_eq_true.2 ⟨test, h, isInside_iff.2 hwithin⟩
  simp [left, hentry, keptImplementation?, hinside]

/-- Two lists of modules for tests leave the same if they have the same modules around a path. -/
theorem any_isInside_congr {tests fewer : List String} {path : String} (hsub : fewer ⊆ tests)
    (hextends : ∀ test ∈ tests, test ∉ fewer → Extends test path) :
    tests.any (Survey.isInside · path) = fewer.any (Survey.isInside · path) := by
  rw [Bool.eq_iff_iff, List.any_eq_true, List.any_eq_true]
  constructor
  · rintro ⟨test, htest, hinside⟩
    by_cases hfewer : test ∈ fewer
    · exact ⟨test, hfewer, hinside⟩
    · exact absurd (isInside_iff.1 hinside) (hextends test htest hfewer).not_isWithin
  · rintro ⟨test, htest, hinside⟩
    exact ⟨test, hsub htest, hinside⟩

/-- Modules for tests that the module of a visit merely starts like do not count. -/
theorem left_of_extends {tests fewer : List String} {visit : Visit} (hsub : fewer ⊆ tests)
    (hextends : ∀ test ∈ tests, test ∉ fewer → Extends test visit.site.module) :
    visit.left tests = visit.left fewer := by
  have hentry : visit.entry? tests = visit.entry? fewer := by
    unfold entry?
    split
    · cases hrecorded : visit.recorded? with
      | none => rfl
      | some entry =>
        obtain ⟨name, hname⟩ := exists_container hrecorded
        have hsame : tests.any (Survey.isInside · (entry.scope.getD entry.path)) =
            fewer.any (Survey.isInside · (entry.scope.getD entry.path)) := by
          rw [hname]
          exact any_isInside_congr hsub fun test htest hfewer =>
            (hextends test htest hfewer).name name
        simp only [Option.filter, hsame]
    · rfl
  have himplementation : visit.keptImplementation? tests = visit.keptImplementation? fewer := by
    unfold keptImplementation?
    rw [any_isInside_congr hsub hextends]
  rw [left, left, hentry, himplementation]

end Visit

/-- What a source leaves in a manifest without these modules for tests, in the order in which it is
met. -/
def SourceText.part (tests : List String) (source : SourceText) : Manifest where
  entries := source.visits.filterMap fun visit => (visit.left tests).1
  implementations := source.visits.filterMap fun visit => (visit.left tests).2

/-- The parts of a manifest, one after the other. -/
def Manifest.concat (parts : List Manifest) : Manifest where
  entries := parts.flatMap (·.entries)
  implementations := parts.flatMap (·.implementations)

namespace Survey

/-! ## Manifests of the same sources -/

/-- Sources that can each be surveyed can be surveyed together. -/
theorem exists_ofSources {sources : List SourceText}
    (scanned : ∀ source ∈ sources, ∃ survey, ofSource source = .ok survey) :
    ∃ survey, ofSources sources = .ok survey := by
  induction sources with
  | nil => exact ⟨empty, rfl⟩
  | cons source rest ih =>
    obtain ⟨first, hfirst⟩ := scanned source List.mem_cons_self
    obtain ⟨more, hmore⟩ := ih fun other hother => scanned other (List.mem_cons_of_mem _ hother)
    exact ⟨first ++ more, by rw [ofSources, hfirst, hmore]; rfl⟩

/-- What is noted at the visits that are made and is not in a module for tests is what the visits
leave. -/
theorem manifest_ofVisits (visits : List Visit) :
    (ofVisits (visits.filter Visit.isMade)).manifest =
      let tests := (visits.filter Visit.isMade).filterMap Visit.testModule?
      ⟨visits.filterMap (Visit.entry? tests),
        visits.filterMap (Visit.keptImplementation? tests)⟩ := by
  simp only [manifest, isTest, ofVisits]
  generalize (visits.filter Visit.isMade).filterMap Visit.testModule? = tests
  refine congrArg₂ Manifest.mk ?_ ?_
  · rw [List.filter_filterMap, List.filterMap_filter]
    apply List.filterMap_congr
    intro visit _
    unfold Visit.entry?
    rfl
  · rw [List.filter_filterMap, List.map_filterMap, List.filterMap_filter]
    apply List.filterMap_congr
    intro visit _
    unfold Visit.keptImplementation?
    cases visit.isMade with
    | false => rfl
    | true =>
      cases visit.implementation? with
      | none => simp
      | some implementation =>
        by_cases hinside : tests.any (isInside · visit.site.module) = true
        · simp [Option.filter, hinside]
        · simp [Option.filter, Bool.not_eq_true _ ▸ hinside]

/-- A manifest is made of what each of its sources leaves. -/
theorem manifest_eq_concat {sources : List SourceText} {manifest : Manifest}
    (h : Manifest.ofSources sources = .ok manifest) :
    manifest = .concat (sources.map (·.part (testModulesOf sources))) := by
  rw [ofSources_manifest h, manifest_ofVisits]
  simp only [Manifest.concat, SourceText.part, List.flatMap_map, visits, List.filterMap_flatMap]
  rfl

/-- What is left by a source depends on the modules for tests, not on their order. -/
theorem part_congr {tests others : List String} (h : tests.Perm others) (source : SourceText) :
    source.part tests = source.part others := by
  have hany : ∀ path, tests.any (isInside · path) = others.any (isInside · path) := by
    intro path
    exact h.any_eq
  unfold SourceText.part Visit.left Visit.entry? Visit.keptImplementation?
  simp only [hany]

/-- The same sources may be scanned in any order: the manifests have the same parts, which follow
each other as the sources do. What is left of a source depends on its own text and on the modules
for tests that some source declares, before it or after it: nothing, if the source is in such a
module, and all the same, if its module or one in it merely starts like such a module. -/
theorem ofSources_perm {sources permuted : List SourceText}
    (scanned : ∀ source ∈ sources, ∃ survey, ofSource source = .ok survey)
    (reordered : sources.Perm permuted) :
    ∃ manifest manifest',
      Manifest.ofSources sources = .ok manifest ∧ Manifest.ofSources permuted = .ok manifest' ∧
      manifest = .concat (sources.map (·.part (testModulesOf sources))) ∧
      manifest' = .concat (permuted.map (·.part (testModulesOf sources))) ∧
      manifest.entries.Perm manifest'.entries ∧
      manifest.implementations.Perm manifest'.implementations ∧
      (∀ source ∈ sources, ∀ visit ∈ visits sources, ∀ test ∈ visit.testModule?,
        IsWithin test source.module → source.part (testModulesOf sources) = ⟨[], []⟩) ∧
      ∀ visit ∈ visits sources, ∀ fewer ⊆ testModulesOf sources,
        (∀ test ∈ testModulesOf sources, test ∉ fewer → Extends test visit.site.module) →
        visit.left (testModulesOf sources) = visit.left fewer := by
  have hmanifest : ∀ {texts : List SourceText}, sources.Perm texts →
      ∃ manifest, Manifest.ofSources texts = .ok manifest ∧
        manifest = .concat (texts.map (·.part (testModulesOf sources))) := by
    intro texts hperm
    obtain ⟨survey, hsurvey⟩ := exists_ofSources fun source hsource =>
      scanned source (hperm.mem_iff.2 hsource)
    have hok : Manifest.ofSources texts = .ok survey.manifest := by
      rw [Manifest.ofSources, hsurvey]
      rfl
    have htests : (testModulesOf sources).Perm (testModulesOf texts) :=
      ((hperm.flatMap_right _).filter _).filterMap _
    refine ⟨_, hok, (manifest_eq_concat hok).trans ?_⟩
    simp only [part_congr htests]
  obtain ⟨manifest, hok, hparts⟩ := hmanifest (List.Perm.refl sources)
  obtain ⟨manifest', hok', hparts'⟩ := hmanifest reordered
  refine ⟨manifest, manifest', hok, hok', hparts, hparts', ?_, ?_, ?_, ?_⟩
  · rw [hparts, hparts']
    exact (reordered.map _).flatMap_right _
  · rw [hparts, hparts']
    exact (reordered.map _).flatMap_right _
  · intro source hsource visit hvisit test htest hwithin
    obtain ⟨outer, houter, hinside⟩ := exists_testModule hvisit htest
    have hnone : ∀ met ∈ source.visits, met.left (testModulesOf sources) = (none, none) :=
      fun met hmet => Visit.left_of_isWithin houter
        ((hinside.trans hwithin).trans (isWithin_of_mem_visits hmet))
    unfold SourceText.part
    refine congrArg₂ Manifest.mk ?_ ?_
    · exact List.filterMap_eq_nil_iff.2 fun met hmet => congrArg Prod.fst (hnone met hmet)
    · exact List.filterMap_eq_nil_iff.2 fun met hmet => congrArg Prod.snd (hnone met hmet)
  · intro visit _ fewer hsub hextends
    exact Visit.left_of_extends hsub hextends

/-- The file of a module for tests before the file that declares it, and the file of a module whose
name merely starts like its name. -/
def scatteredSources : List SourceText :=
  [⟨"t.rs", "crate::t", "#[gateway] fn g() \x7b\x7d"⟩,
    ⟨"lib.rs", "crate", "#[cfg(test)] mod t; #[gateway] fn f() \x7b\x7d"⟩,
    ⟨"t_more.rs", "crate::t_more", "#[gateway] fn h() \x7b\x7d"⟩]

/-- Two functions are left in either order, and nothing of the module for tests. -/
theorem scatteredSources_perm :
    ∃ manifest manifest' : Manifest,
      Manifest.ofSources scatteredSources = .ok manifest ∧
      Manifest.ofSources scatteredSources.reverse = .ok manifest' ∧
      manifest.entries.map (·.path) = ["crate::f", "crate::t_more::h"] ∧
      manifest'.entries.map (·.path) = ["crate::t_more::h", "crate::f"] := by
  have hscanned : ∀ source ∈ scatteredSources, ∃ survey, ofSource source = .ok survey := by
    intro source hsource
    simp only [scatteredSources, List.mem_cons, List.not_mem_nil, or_false] at hsource
    rcases hsource with rfl | rfl | rfl
    · exact exists_ok (by decide +kernel)
    · exact exists_ok (by decide +kernel)
    · exact exists_ok (by decide +kernel)
  obtain ⟨manifest, manifest', hok, hok', hparts, hparts', -⟩ :=
    ofSources_perm hscanned (List.reverse_perm scatteredSources).symm
  refine ⟨manifest, manifest', hok, hok', ?_, ?_⟩
  · rw [hparts]
    decide +kernel
  · rw [hparts']
    decide +kernel

end Survey

end Bindery
