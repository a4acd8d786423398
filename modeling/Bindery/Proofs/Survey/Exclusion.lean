import Bindery.Proofs.Source.Names
import Bindery.Proofs.Survey.Walk
import Bindery.Proofs.Token.Word
import Mathlib.Data.List.Basic
/-!
# What is left out with the tests

A manifest leaves out what lies in a module for tests. Inside of such a module that is written
inline no visit is made; what lies in the files of such a module is found by the text of paths.
`ofSources_exclusion` says what this comes to: besides what is in a module for tests, everything is
left out that is in another module of the same path, and what itself has the path of a module for
tests.
-/

namespace Bindery

open Source.Grammar (NamesItem NamesType namesItem_of_mem)
open Token (isIdent)

/-! ## Paths as texts -/

/-- Whether a path does not end in the middle of a separator. -/
def IsWhole (path : String) : Prop :=
  path.toList.getLast? ≠ some ':'

/-- What starts a path and a separator either ends before the last separator of a longer path or
right at it. -/
theorem separator_isPrefix {start path name : List Char} (hpath : path.getLast? ≠ some ':')
    (hname : ':' ∉ name) :
    start ++ [':', ':'] <+: path ++ [':', ':'] ++ name ↔
      start = path ∨ start ++ [':', ':'] <+: path := by
  constructor
  · rintro ⟨rest, h⟩
    rw [List.append_assoc, List.append_assoc, List.append_eq_append_iff] at h
    rcases h with ⟨between, rfl, h⟩ | ⟨between, rfl, h⟩
    · -- The path goes on after the start: by nothing, by one colon, or by a separator.
      match between, h with
      | [], _ => exact .inl (List.append_nil _).symm
      | [c], h =>
        obtain ⟨rfl, -⟩ : ':' = c ∧ _ := by simpa using h
        exact absurd (by simp) hpath
      | c :: d :: more, h =>
        obtain ⟨rfl, rfl, -⟩ : ':' = c ∧ ':' = d ∧ _ := by simpa using h
        exact .inr ⟨more, by simp⟩
    · -- The start goes on after the path, so that its separator is in the name.
      match between, h with
      | [], _ => exact .inl (List.append_nil _)
      | [c], h =>
        obtain ⟨-, rfl⟩ : ':' = c ∧ name = ':' :: rest := by simpa using h
        exact absurd List.mem_cons_self hname
      | c :: d :: more, h =>
        obtain ⟨-, -, rfl⟩ : ':' = c ∧ ':' = d ∧ name = more ++ ':' :: ':' :: rest := by
          simpa using h
        exact absurd (by simp) hname
  · rintro (rfl | h)
    · exact List.prefix_append _ _
    · exact h.trans ((List.prefix_append _ _).trans (List.prefix_append _ _))

/-- What a module has in it at a name: it is the path of the name itself, or the module has in it
what the name is in. -/
theorem isInside_name {path name : String} (hpath : IsWhole path) (hname : ':' ∉ name.toList)
    (module : String) :
    Survey.isInside module (path ++ "::" ++ name) =
      (module == path ++ "::" ++ name || Survey.isInside module path) := by
  have hlist : (path ++ "::" ++ name).toList = path.toList ++ [':', ':'] ++ name.toList := by
    simp [String.toList_append]
  rw [Survey.isInside, Survey.isInside, hlist, Bool.eq_iff_iff]
  simp only [Bool.or_eq_true, beq_iff_eq, List.isPrefixOf_iff_prefix,
    separator_isPrefix hpath hname]
  constructor
  · rintro (h | h | h)
    · exact .inl h.symm
    · exact .inr (.inl (String.ext h).symm)
    · exact .inr (.inr h)
  · rintro (h | h | h)
    · exact .inl h.symm
    · exact .inr (.inl (congrArg _ h.symm))
    · exact .inr (.inr h)

theorem isWhole_name {path name : String} (h : isIdent name = true) :
    IsWhole (path ++ "::" ++ name) := by
  have hname := Token.colon_not_mem_of_isIdent h
  have hne := Token.ne_nil_of_isIdent h
  intro hlast
  rw [String.toList_append, List.getLast?_append, Option.or_eq_some_iff] at hlast
  rcases hlast with hlast | ⟨hlast, -⟩
  · exact hname (List.mem_of_getLast? hlast)
  · exact hne (List.getLast?_eq_none_iff.1 hlast)

/-! ## Sites -/

namespace Site

/-- The paths of the modules that are written inline around a site. -/
def inlineModules : Site → List String
  | file _ _ => []
  | inline outer name forTests => (inline outer name forTests).module :: outer.inlineModules

/-- Whether a site is in a module for tests: in one that is written inline, or in the file of one or
of a module in it. -/
def isEnclosed (tests : List String) (site : Site) : Bool :=
  site.isForTests || tests.any (Survey.isInside · site.fileModule)

/-- Whether a module that is written inline around a site has the path of a module for tests. -/
def isTwin (tests : List String) (site : Site) : Bool :=
  site.inlineModules.any tests.contains

theorem isWhole_module {site : Site} (h : IsWhole site.fileModule) : IsWhole site.module := by
  cases site with
  | file => exact h
  | inline outer name => exact isWhole_name name.isIdent

/-- What a module for tests has in it by the text of paths. -/
theorem isInside_module {site : Site} (h : IsWhole site.fileModule) (module : String) :
    Survey.isInside module site.module =
      (site.inlineModules.contains module || Survey.isInside module site.fileModule) := by
  induction site with
  | file => rfl
  | inline outer name forTests ih =>
    have hname := Token.colon_not_mem_of_isIdent name.isIdent
    show Survey.isInside module (outer.module ++ "::" ++ name.text) = _
    have houter : IsWhole outer.module := isWhole_module h
    rw [isInside_name houter hname, ih h, ← Bool.or_assoc]
    rfl

end Site

/-! ## Visits -/

/-- The types that a source has implementations for are named by identifiers. -/
theorem SourceText.namesItem {source : SourceText} {visit : Visit} (h : visit ∈ source.visits) :
    NamesItem visit.bearer.block := by
  unfold visits at h
  split at h
  · next items hitems =>
    have hnames := Source.namesItems_of_readFile hitems
    exact holds_of_mem_visitsOfItems (fun _ item => NamesItem item)
      (fun _ _ _ _ h _ hitem => namesItem_of_mem h hitem)
      (fun _ hitem => namesItem_of_mem hnames hitem) visit h
  · cases h

/-- All that is met in a source is in its file. -/
theorem SourceText.fileModule {source : SourceText} {visit : Visit} (h : visit ∈ source.visits) :
    visit.site.fileModule = source.module := by
  unfold visits at h
  split at h
  · exact holds_of_mem_visitsOfItems (fun site _ => site.fileModule = source.module)
      (fun _ _ _ _ h _ _ => h) (fun _ _ => rfl) visit h
  · cases h

namespace Visit

/-- Whether what is met has itself the path of a module for tests. For a member of a block it is the
type of the block that counts. -/
def isNamesake (tests : List String) (visit : Visit) : Bool :=
  visit.recorded?.any fun entry => tests.contains (entry.scope.getD entry.path)

theorem typeName?_colon {type : Source.Ty} (hnames : NamesType type) {name : String}
    (h : typeName? type = some name) : ':' ∉ name.toList := by
  unfold typeName? at h
  split at h
  · obtain rfl := Option.some.inj h
    exact Source.colon_not_mem_lastName (hnames _ rfl)
  · cases h

/-- Whether a visit shares no path with a module for tests. -/
def isKept (tests : List String) (visit : Visit) : Bool :=
  !(visit.site.isEnclosed tests || visit.site.isTwin tests || visit.isNamesake tests)

/-- What is looked up among the modules for tests is a name in the module. -/
theorem exists_name {visit : Visit} (hnames : NamesItem visit.bearer.block) {entry : Entry}
    (h : visit.recorded? = some entry) :
    ∃ name : String, ':' ∉ name.toList ∧
      entry.scope.getD entry.path = visit.site.module ++ "::" ++ name := by
  obtain ⟨sighting, hsighting, rfl⟩ := exists_of_recorded? h
  rcases (sighting?_cases hsighting).2 with
    ⟨hmember, hcontainer⟩ | ⟨hmember, _, _, self, _, owner, hblock, howner, hcontainer⟩
  · refine ⟨sighting.name.text, Token.colon_not_mem_of_isIdent sighting.name.isIdent, ?_⟩
    simp [Survey.Sighting.entry, hmember, hcontainer]
  · have hself : NamesType self := by
      rw [hblock] at hnames
      exact hnames
    refine ⟨owner, typeName?_colon hself howner, ?_⟩
    simp [Survey.Sighting.entry, hmember, hcontainer]

/-- When an entry that a visit leaves is taken for one in a module for tests. -/
theorem isTest_entry {visit : Visit} (hmade : visit.isMade = true)
    (hnames : NamesItem visit.bearer.block) (hwhole : IsWhole visit.site.fileModule)
    {entry : Entry} (h : visit.recorded? = some entry) (survey : Survey) :
    survey.isTest (entry.scope.getD entry.path) =
      (visit.site.isEnclosed survey.testModules || visit.site.isTwin survey.testModules ||
        visit.isNamesake survey.testModules) := by
  obtain ⟨name, hcolon, hpath⟩ := exists_name hnames h
  have hmodule := Site.isWhole_module hwhole
  have hsite := isMade_iff.1 hmade
  rw [Survey.isTest, isNamesake, h, hpath, Bool.eq_iff_iff]
  -- What is inside of a module is the name itself, or lies in an inline module, or in the file.
  simp only [isInside_name hmodule hcolon, Site.isInside_module hwhole, Site.isEnclosed,
    Site.isTwin, hsite, Option.any_some, hpath, Bool.or_eq_true, List.any_eq_true,
    List.contains_iff_mem, beq_iff_eq, Bool.false_or]
  constructor
  · rintro ⟨module, hmem, rfl | hinline | hfile⟩
    · exact .inr hmem
    · exact .inl (.inr ⟨module, hinline, hmem⟩)
    · exact .inl (.inl ⟨module, hmem, hfile⟩)
  · rintro ((⟨module, hmem, hfile⟩ | ⟨module, hinline, hmem⟩) | hmem)
    · exact ⟨module, hmem, .inr (.inr hfile)⟩
    · exact ⟨module, hmem, .inr (.inl hinline)⟩
    · exact ⟨_, hmem, .inl rfl⟩

/-- When an implementation that a visit leaves is taken for one in a module for tests. -/
theorem isTest_implementation {visit : Visit} (hmade : visit.isMade = true)
    (hwhole : IsWhole visit.site.fileModule) (survey : Survey) :
    survey.isTest visit.site.module =
      (visit.site.isEnclosed survey.testModules || visit.site.isTwin survey.testModules) := by
  have hsite := isMade_iff.1 hmade
  rw [Survey.isTest, Bool.eq_iff_iff]
  simp only [Site.isInside_module hwhole, Site.isEnclosed, Site.isTwin, hsite, Bool.or_eq_true,
    List.any_eq_true, List.contains_iff_mem, Bool.false_or]
  constructor
  · rintro ⟨module, hmem, hinline | hfile⟩
    · exact .inr ⟨module, hinline, hmem⟩
    · exact .inl ⟨module, hmem, hfile⟩
  · rintro (⟨module, hmem, hfile⟩ | ⟨module, hinline, hmem⟩)
    · exact ⟨module, hmem, .inr hfile⟩
    · exact ⟨module, hmem, .inl hinline⟩

end Visit

/-! ## Manifests -/

namespace Survey

/-- The paths of the modules for tests that sources declare. -/
def testModulesOf (sources : List SourceText) : List String :=
  ((visits sources).filter Visit.isMade).filterMap Visit.testModule?

/-- What is kept of what the visits leave is what is left by the visits that are kept. -/
theorem filterMap_kept {α : Type} {visits : List Visit} {found : Visit → Option α}
    {keep : α → Bool} {kept : Visit → Bool}
    (hskipped : ∀ visit ∈ visits, visit.isMade = false → kept visit = false)
    (hmade : ∀ visit ∈ visits, visit.isMade = true → ∀ value, found visit = some value →
      keep value = kept visit) :
    ((visits.filter Visit.isMade).filterMap found).filter keep =
      (visits.filter kept).filterMap found := by
  rw [List.filter_filterMap, List.filterMap_filter, List.filterMap_filter]
  apply List.filterMap_congr
  intro visit hvisit
  by_cases h : visit.isMade = true
  · cases hfound : found visit with
    | none => simp
    | some value => simp [h, Option.filter, hmade visit hvisit h value hfound]
  · rw [if_neg h, if_neg (by simp [hskipped visit hvisit (by simpa using h)])]

section
variable {sources : List SourceText} (hwhole : ∀ source ∈ sources, IsWhole source.module)
include hwhole

theorem visits_wellNamed {visit : Visit} (h : visit ∈ visits sources) :
    NamesItem visit.bearer.block ∧ IsWhole visit.site.fileModule := by
  obtain ⟨source, hsource, hvisit⟩ := List.mem_flatMap.1 h
  rw [SourceText.fileModule hvisit]
  exact ⟨SourceText.namesItem hvisit, hwhole source hsource⟩

omit hwhole in
theorem isEnclosed_of_not_made {visit : Visit} (h : visit.isMade = false) :
    visit.site.isEnclosed (testModulesOf sources) = true := by
  rw [Site.isEnclosed, Visit.isMade_eq_false_iff.1 h, Bool.true_or]

/-- The entries of a manifest are those of the visits that share no path with a module for tests. -/
theorem entries_of_kept {manifest : Manifest} (h : Manifest.ofSources sources = .ok manifest) :
    manifest.entries =
      ((visits sources).filter (·.isKept (testModulesOf sources))).filterMap Visit.recorded? := by
  obtain rfl := ofSources_manifest h
  apply filterMap_kept
  · intro visit _ hvisit
    have henclosed : visit.site.isEnclosed (testModulesOf sources) = true :=
      isEnclosed_of_not_made hvisit
    simp [Visit.isKept, henclosed]
  · intro visit hvisit hmade entry hentry
    obtain ⟨hnames, hfile⟩ := visits_wellNamed hwhole hvisit
    exact congrArg (!·) (Visit.isTest_entry hmade hnames hfile hentry _)

theorem implementations_of_kept {manifest : Manifest}
    (h : Manifest.ofSources sources = .ok manifest) :
    manifest.implementations = ((visits sources).filter fun visit =>
      !(visit.site.isEnclosed (testModulesOf sources) ||
        visit.site.isTwin (testModulesOf sources))).filterMap Visit.implementation? := by
  obtain rfl := ofSources_manifest h
  have himplementations : ∀ kept : List Visit,
      (kept.filterMap fun visit => visit.implementation?.map (visit.site.module, ·)).map (·.2) =
        kept.filterMap Visit.implementation? := by
    intro kept
    rw [List.map_filterMap]
    apply List.filterMap_congr
    intro visit _
    cases visit.implementation? <;> rfl
  rw [← himplementations]
  refine congrArg (List.map Prod.snd) (filterMap_kept ?_ ?_)
  · intro visit _ hvisit
    have henclosed : visit.site.isEnclosed (testModulesOf sources) = true :=
      isEnclosed_of_not_made hvisit
    simp [henclosed]
  · intro visit hvisit hmade pair hpair
    obtain ⟨implementation, -, rfl⟩ := Option.map_eq_some_iff.1 hpair
    exact congrArg (!·)
      (Visit.isTest_implementation hmade (visits_wellNamed hwhole hvisit).2 _)

/-- A manifest has, in order, what is met in its sources outside of modules for tests, but for what
shares a path with such a module. -/
theorem ofSources_exclusion {manifest : Manifest} (h : Manifest.ofSources sources = .ok manifest) :
    manifest.entries = ((visits sources).filter fun visit =>
        !(visit.site.isEnclosed (testModulesOf sources) ||
          visit.site.isTwin (testModulesOf sources) ||
          visit.isNamesake (testModulesOf sources))).filterMap Visit.recorded? ∧
      manifest.implementations = ((visits sources).filter fun visit =>
        !(visit.site.isEnclosed (testModulesOf sources) ||
          visit.site.isTwin (testModulesOf sources))).filterMap Visit.implementation? :=
  ⟨entries_of_kept hwhole h, implementations_of_kept hwhole h⟩

end

/-- A file with a function, and the file of its module for tests. -/
def testedSources : List SourceText :=
  [⟨"lib.rs", "crate", "#[cfg(test)] mod t; #[gateway] fn f() \x7b\x7d"⟩,
    ⟨"t.rs", "crate::t", "#[gateway] fn g() \x7b\x7d"⟩]

/-- Of a function and a module for tests in a file of its own, the function is left. -/
theorem testedSources_exclusion :
    ∃ manifest, Manifest.ofSources testedSources = .ok manifest ∧
      manifest.entries.map (·.path) = ["crate::f"] := by
  obtain ⟨manifest, h⟩ : ∃ manifest, Manifest.ofSources testedSources = .ok manifest :=
    exists_ok (by decide +kernel)
  have hwhole : ∀ source ∈ testedSources, IsWhole source.module := by
    simp [testedSources, IsWhole]
  refine ⟨manifest, h, ?_⟩
  rw [(ofSources_exclusion hwhole h).1]
  decide +kernel

/-- A function is left out although only its name is that of a module for tests. -/
theorem namesake_left_out :
    let sources : List SourceText :=
      [⟨"lib.rs", "crate", "#[cfg(test)] mod probe \x7b\x7d #[gateway] fn probe() \x7b\x7d"⟩]
    (Manifest.ofSources sources).toOption = some ⟨[], []⟩ ∧
      (((visits sources).filter fun visit =>
        !visit.site.isEnclosed (testModulesOf sources)).filterMap Visit.recorded?).map (·.path) =
        ["crate::probe"] := by
  decide +kernel

/-- What is in a module that is not for tests is left out if there is one of its path that is. -/
theorem twin_left_out :
    let sources : List SourceText :=
      [⟨"lib.rs", "crate", "#[cfg(test)] mod imp \x7b\x7d " ++
        "#[cfg(not(test))] mod imp \x7b #[gateway] fn f() \x7b\x7d \x7d"⟩]
    (Manifest.ofSources sources).toOption = some ⟨[], []⟩ ∧
      (((visits sources).filter fun visit =>
        !visit.site.isEnclosed (testModulesOf sources)).filterMap Visit.recorded?).map (·.path) =
        ["crate::imp::f"] := by
  decide +kernel

end Survey

end Bindery
