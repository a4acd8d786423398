import Bindery.Proofs.Files.Modules
import Bindery.Proofs.Round.Paths
import Bindery.Proofs.Source.Keywords
import Bindery.Proofs.Survey.Nesting
/-!
# Modules whose names are keywords

A module that is called by a keyword is declared under the raw form of its name, and its file is
called by the plain one. A survey takes the names of modules from both, and does not bring them
together: a path through the name of such a file cannot be read, and a declaration under such a name
for tests does not reach the file. `generate_keywords` says when this happens, and that otherwise
neither does.
-/

namespace Bindery

open Source (Fault Spells)
open Source.Grammar (IsPathName isPathName_iff isReserved)
open Token (isIdent)

/-! ## Identifiers -/

namespace Visit

variable {visit : Visit} {modules : List String}

theorem isIdent_of_mem_names (hall : visit.All Source.Ty.IsNamed)
    (hmodules : ∀ name ∈ modules, isIdent name = true) :
    ∀ name ∈ visit.names modules, isIdent name = true := by
  intro name hmem
  simp only [names, List.mem_append, Option.mem_toList,
    Option.map_eq_some_iff] at hmem
  rcases hmem with ((hmodule | hinline) | howner) | ⟨declared, -, rfl⟩
  · exact hmodules name hmodule
  · exact (isPathName_of_mem_inlineNames hall.1 hinline).1
  · exact (isPathName_of_owner? hall.2 howner).1
  · exact declared.isIdent

/-- The path of a type or a function can be read unless the name of a module of its file is
reserved, and the first such name is the fault. -/
theorem readPath_error_iff (hall : visit.All Source.Ty.IsNamed) {entry : Entry}
    (hrecorded : visit.recorded? = some entry) (hbindable : entry.category.isBindable = true)
    (hmodules : ∀ name ∈ modules, isIdent name = true)
    (hfile : Spells modules visit.site.fileModule) {fault : Fault} :
    Source.readPath entry.path = .error fault ↔
      ∃ keyword, modules.find? isReserved = some keyword ∧ fault = .keyword keyword := by
  obtain ⟨-, hspells, -⟩ := spells_entry hfile hrecorded
  cases hfind : modules.find? isReserved with
  | none =>
    have hnames : ∀ name ∈ modules, IsPathName name := by
      intro name hmem
      rw [isPathName_iff (hmodules name hmem)]
      simpa using List.find?_eq_none.1 hfind name hmem
    rw [hspells.readPath (isPathName_of_mem_names hall hrecorded hbindable hnames)]
    simp
  | some keyword =>
    have hfirst : (visit.names modules).find? isReserved = some keyword := by
      simp [names, List.find?_append, hfind]
    rw [Source.readPath_of_reserved hspells (isIdent_of_mem_names hall hmodules) hfirst]
    simp [eq_comm]

end Visit

/-! ## Files -/

/-- All that is met in a source is in its file. -/
theorem SourceText.path_site {source : SourceText} {visit : Visit} (h : visit ∈ source.visits) :
    visit.site.path = source.file := by
  unfold visits at h
  split at h
  · exact holds_of_mem_visitsOfItems (fun site _ => site.path = source.file)
      (fun _ _ _ _ h _ _ => h) (fun _ _ => rfl) visit h
  · cases h

section
variable {tree : FileTree} {root : String} {manifest : Manifest} {sources : List SourceText}

/-- The names that lead to the module of a file are identifiers, and not in their raw form. -/
theorem names_of_fileModules (legal : tree.HasModuleNames root) {file : String}
    (hfile : file ∈ tree.sources root) {names : List String}
    (h : fileModules? root file = some names) :
    ∀ name ∈ "crate" :: names, isIdent name = true ∧ '#' ∉ name.toList := by
  refine List.forall_mem_cons.2 ⟨by decide, fun name hmem => ?_⟩
  obtain ⟨hident, hplain, -⟩ := isModuleName_of_mem_fileModules legal hfile h hmem
  exact ⟨hident, hplain⟩

/-- The texts of the files that are selected in a tree and have a module. -/
def FileTree.IsSurveyedAs (tree : FileTree) (root : String) (sources : List SourceText) : Prop :=
  List.Forall₂ (SourceText.IsOf tree root "crate")
    ((tree.sources root).filter fun file => (modulePath? root file "crate").isSome) sources

variable (hsources : tree.IsSurveyedAs root sources)
include hsources

/-- What is met in the texts is in a selected file, in the module of the file. -/
theorem exists_modules_of_visit (legal : tree.HasModuleNames root) {visit : Visit}
    (h : visit ∈ Survey.visits sources) :
    ∃ names, fileModules? root visit.site.path = some names ∧
      Spells ("crate" :: names) visit.site.fileModule ∧
      ∀ name ∈ "crate" :: names, isIdent name = true ∧ '#' ∉ name.toList := by
  obtain ⟨source, hsource, hvisit⟩ := List.mem_flatMap.1 h
  obtain ⟨file, hfile, module, text, hmodule, -, rfl⟩ :=
    Manifest.exists_of_mem_left hsources.flip hsource
  rw [SourceText.path_site hvisit, SourceText.fileModule hvisit]
  obtain ⟨names, hnames, hspells⟩ := exists_fileModules hmodule
  exact ⟨names, hnames, hspells,
    names_of_fileModules legal (List.mem_filter.1 hfile).1 hnames⟩

/-! ## Paths that cannot be read -/

/-- The path of a declaration cannot be read exactly if a name of a module of its file is reserved,
and the first such name is the fault. -/
theorem unwritable_iff (legal : tree.HasModuleNames root)
    (hscan : Manifest.ofSources sources = .ok manifest) {entry : Entry}
    (hentry : entry ∈ manifest.entries) {carrier : Carrier} {declaration : Declaration}
    (hdeclare : manifest.declare entry carrier = .ok declaration) {path reason : String}
    {location : Location} :
    Generator.Unwritable declaration (.invalidPath path location reason) ↔
      declaration.path = path ∧ declaration.location = location ∧
        ∃ names keyword, fileModules? root location.file = some names ∧
          names.find? isReserved = some keyword ∧ reason = (Fault.keyword keyword).message := by
  obtain ⟨hbindable, hlocation⟩ := bindable_of_declare hdeclare
  obtain ⟨visit, hvisit, hrecorded⟩ := Survey.exists_visit_of_entry hscan hentry
  obtain ⟨names, hnames, hfile, hidents⟩ := exists_modules_of_visit hsources legal hvisit
  have hplace : entry.location.file = visit.site.path := by
    obtain ⟨sighting, -, rfl⟩ := Visit.exists_of_recorded? hrecorded
    rfl
  have hcrate : ("crate" :: names).find? isReserved = names.find? isReserved :=
    List.find?_cons_of_neg (by decide)
  have hfault : ∀ fault, Source.readPath declaration.path = .error fault ↔
      ∃ keyword, names.find? isReserved = some keyword ∧ fault = .keyword keyword := by
    intro fault
    rw [(parts_of_declare hdeclare).2, ← hcrate]
    exact Visit.readPath_error_iff (Survey.all_of_mem_visits hvisit) hrecorded hbindable
      (fun name hname => (hidents name hname).1) hfile
  simp only [Generator.Unwritable, hfault, Fatal.invalidPath.injEq]
  constructor
  · rintro ⟨_, ⟨keyword, hkeyword, rfl⟩, rfl, rfl, rfl⟩
    exact ⟨rfl, rfl, names, keyword, by rw [hlocation, hplace, hnames], hkeyword, rfl⟩
  · rintro ⟨rfl, rfl, others, keyword, hothers, hkeyword, rfl⟩
    rw [hlocation, hplace, hnames] at hothers
    obtain rfl := Option.some.inj hothers
    exact ⟨_, ⟨keyword, hkeyword, rfl⟩, rfl, rfl, rfl⟩

/-! ## Files of modules for tests -/

omit hsources in
theorem isWhole_of_spells {names : List String} {text : String} (h : Spells names text)
    (hnames : ∀ name ∈ names, isIdent name = true) : IsWhole text := by
  obtain ⟨before, last, rfl⟩ := List.eq_nil_or_concat' names |>.resolve_left h.1
  have hlast : isIdent last = true := hnames last (by simp)
  cases before with
  | nil =>
    obtain rfl : text = last := by simpa using h.2
    exact fun hcolon => Token.colon_not_mem_of_isIdent hlast (List.mem_of_getLast? hcolon)
  | cons first more =>
    have hlonger : Spells (first :: more ++ [last]) _ :=
      Spells.snoc ⟨List.cons_ne_nil _ _, rfl⟩ last
    rw [h.2, ← hlonger.2]
    exact isWhole_name hlast

/-- The module that a visit declares has the module of a file in it: the names that lead to the one
are the first of those that lead to the other. -/
def Visit.Encloses (root : String) (visit : Visit) (file : String) : Prop :=
  ∃ names others, fileModules? root visit.site.path = some names ∧
    fileModules? root file = some others ∧ visit.names ("crate" :: names) <+: "crate" :: others

/-- A module for tests has that of a file in it exactly if its names lead there. -/
theorem isInside_iff_encloses (legal : tree.HasModuleNames root) {visit : Visit}
    (hvisit : visit ∈ Survey.visits sources) {test : String} (htest : visit.testModule? = some test)
    {file : String} (hfile : file ∈ tree.sources root) {module : String}
    (hmodule : modulePath? root file "crate" = some module) :
    Survey.isInside test module = true ↔ visit.Encloses root file := by
  obtain ⟨names, hnames, hsite, hidents⟩ := exists_modules_of_visit hsources legal hvisit
  obtain ⟨others, hothers, hspells⟩ := exists_fileModules hmodule
  have hcolons : ∀ {names : List String}, (∀ name ∈ names, isIdent name = true) →
      ∀ name ∈ names, ':' ∉ name.toList :=
    fun h name hmem => Token.colon_not_mem_of_isIdent (h name hmem)
  rw [isInside_iff_names (Visit.spells_testModule hsite htest) hspells
    (hcolons (Visit.isIdent_of_mem_names (Survey.all_of_mem_visits hvisit)
      fun name hname => (hidents name hname).1))
    (hcolons fun name hname => (names_of_fileModules legal hfile hothers name hname).1)]
  constructor
  · exact fun hstart => ⟨names, others, hnames, hothers, hstart⟩
  · rintro ⟨_, _, hnames', hothers', hstart⟩
    obtain rfl := Option.some.inj (hnames.symm.trans hnames')
    obtain rfl := Option.some.inj (hothers.symm.trans hothers')
    exact hstart

theorem isWhole_sources (legal : tree.HasModuleNames root) :
    ∀ source ∈ sources, IsWhole source.module := by
  intro source hsource
  obtain ⟨file, hfile, module, text, hmodule, -, rfl⟩ :=
    Manifest.exists_of_mem_left hsources.flip hsource
  obtain ⟨names, hnames, hspells⟩ := exists_fileModules hmodule
  exact isWhole_of_spells hspells fun name hname =>
    (names_of_fileModules legal (List.mem_filter.1 hfile).1 hnames name hname).1

/-- What is met in a file has the module of the file. -/
theorem fileModule_of_path {visit : Visit} (hvisit : visit ∈ Survey.visits sources)
    {module : String} (hmodule : modulePath? root visit.site.path "crate" = some module) :
    visit.site.fileModule = module := by
  obtain ⟨source, hsource, hmet⟩ := List.mem_flatMap.1 hvisit
  obtain ⟨file, -, found, text, hfound, -, rfl⟩ :=
    Manifest.exists_of_mem_left hsources.flip hsource
  rw [SourceText.path_site hmet] at hmodule
  rw [SourceText.fileModule hmet]
  exact Option.some.inj (hfound.symm.trans hmodule)

/-- A manifest has nothing of a file: neither an entry nor an implementation in it. -/
def Manifest.LeavesOut (manifest : Manifest) (sources : List SourceText) (file : String) : Prop :=
  (∀ entry ∈ manifest.entries, entry.location.file ≠ file) ∧
    ∀ implementation ∈ manifest.implementations, ∃ visit ∈ Survey.visits sources,
      visit.implementation? = some implementation ∧ visit.site.path ≠ file

/-- Nothing is kept of a file whose module is in a module for tests. -/
theorem leavesOut_of_isInside (legal : tree.HasModuleNames root)
    (hscan : Manifest.ofSources sources = .ok manifest) {visit : Visit}
    (hvisit : visit ∈ Survey.visits sources) (hmade : visit.isMade = true) {test : String}
    (htest : visit.testModule? = some test) {file module : String}
    (hmodule : modulePath? root file "crate" = some module)
    (hinside : Survey.isInside test module = true) : manifest.LeavesOut sources file := by
  have hwhole := isWhole_sources hsources legal
  have htests : test ∈ Survey.testModulesOf sources :=
    List.mem_filterMap.2 ⟨visit, List.mem_filter.2 ⟨hvisit, hmade⟩, htest⟩
  have henclosed : ∀ other ∈ Survey.visits sources, other.site.path = file →
      other.site.isEnclosed (Survey.testModulesOf sources) = true := by
    rintro other hother rfl
    rw [Site.isEnclosed, fileModule_of_path hsources hother hmodule, Bool.or_eq_true,
      List.any_eq_true]
    exact .inr ⟨test, htests, hinside⟩
  constructor
  · intro entry hentry hfile
    rw [Survey.entries_of_kept hwhole hscan] at hentry
    obtain ⟨other, hother, hrecorded⟩ := List.mem_filterMap.1 hentry
    obtain ⟨hother, hkept⟩ := List.mem_filter.1 hother
    obtain ⟨sighting, -, rfl⟩ := Visit.exists_of_recorded? hrecorded
    simp [Visit.isKept, henclosed other hother hfile] at hkept
  · intro implementation himplementation
    rw [Survey.implementations_of_kept hwhole hscan] at himplementation
    obtain ⟨other, hother, hfound⟩ := List.mem_filterMap.1 himplementation
    obtain ⟨hother, hkept⟩ := List.mem_filter.1 hother
    refine ⟨other, hother, hfound, fun hfile => ?_⟩
    simp [henclosed other hother hfile] at hkept

omit hsources in
/-- A module that is declared under a raw name has the module of no file in it. -/
theorem not_encloses_of_raw (legal : tree.HasModuleNames root) {visit : Visit} {name : Source.Name}
    (hname : visit.bearer.name? = some name) (hraw : '#' ∈ name.text.toList) {file : String}
    (hfile : file ∈ tree.sources root) : ¬visit.Encloses root file := by
  rintro ⟨names, others, -, hothers, hstart⟩
  have hmem : name.text ∈ visit.names ("crate" :: names) := by
    simp [Visit.names, hname]
  exact (names_of_fileModules legal hfile hothers _ (hstart.subset hmem)).2 hraw

end

/-! ## Rounds -/

/-- Where all directories and source files have names that modules may have, a round stops at a path
that cannot be read exactly if it accepts a declaration in a file one of whose modules is called by
a reserved keyword, and the first such name is the reason; so it never does if there is no such
name. A declaration of a module for tests leaves out every file whose module it has in it, to go by
the names, and no other file lies in it; if it has a raw name, there is no such file. -/
theorem generate_keywords {tree : FileTree} {root : String} {manifest : Manifest}
    (legal : tree.HasModuleNames root) (hscan : Manifest.ofTree tree root "crate" = .ok manifest) :
    (∀ (generator : Generator) (report : Report) (path : String) (location : Location)
        (reason : String),
      (∃ causes, (generator.generate manifest report).2 = .error (.aborted causes) ∧
          .invalidPath path location reason ∈ causes) ↔
        ∃ accepted, (generator.accept manifest report).2 = .ok accepted ∧
          ∃ declaration ∈ accepted.providers ++ accepted.gateway.toList,
            declaration.path = path ∧ declaration.location = location ∧
            ∃ names keyword, fileModules? root location.file = some names ∧
              names.find? isReserved = some keyword ∧
              reason = (Fault.keyword keyword).message) ∧
    ∃ sources, tree.IsSurveyedAs root sources ∧ Manifest.ofSources sources = .ok manifest ∧
      ∀ visit ∈ Survey.visits sources, visit.isMade = true → ∀ test, visit.testModule? = some test →
        ∀ file ∈ tree.sources root, ∀ module, modulePath? root file "crate" = some module →
          (Survey.isInside test module = true ↔ visit.Encloses root file) ∧
          (visit.Encloses root file → manifest.LeavesOut sources file) ∧
          ∀ name, visit.bearer.name? = some name → '#' ∈ name.text.toList →
            ¬visit.Encloses root file := by
  obtain ⟨sources, hsources, hmanifest⟩ := Manifest.ofTree_ok_iff.1 hscan
  constructor
  · intro generator report path location reason
    rw [Generator.invalidPath_mem_iff]
    refine exists_congr fun accepted => and_congr_right fun haccepted => ?_
    refine exists_congr fun declaration => and_congr_right fun hmem => ?_
    obtain ⟨entry, hentry, carrier, hdeclare⟩ :=
      Generator.exists_entry_of_accepted (Prod.ext rfl haccepted) hmem
    exact unwritable_iff hsources legal hmanifest hentry hdeclare
  · refine ⟨sources, hsources, hmanifest, ?_⟩
    intro visit hvisit hmade test htest file hfile module hmodule
    have hinside := isInside_iff_encloses hsources legal hvisit htest hfile hmodule
    refine ⟨hinside, fun hencloses => ?_, fun name hname hraw => ?_⟩
    · exact leavesOut_of_isInside hsources legal hmanifest hvisit hmade htest hmodule
        (hinside.2 hencloses)
    · exact not_encloses_of_raw legal hname hraw hfile

/-- A crate with a module for tests, and one whose name is a keyword. It may be for tests as well.
Each has a provider. -/
def keywordTree (forTests : Bool) : FileTree where
  nodes := [(["src"], .directory),
    (["src", "lib.rs"], .file ("#[cfg(test)] mod probes;\n" ++
      (if forTests then "#[cfg(test)] " else "") ++ "mod r#type;").toUTF8),
    (["src", "probes.rs"], .file "#[provider(\"probe\")] pub struct Probe;".toUTF8),
    (["src", "type.rs"],
      .file "#[provider(\"ping\")] pub struct Ping;\nimpl Delegate for Ping \x7b\x7d".toUTF8)]
  written := []

theorem keywordTree_sources (forTests : Bool) :
    (keywordTree forTests).sources "src" = ["src/lib.rs", "src/probes.rs", "src/type.rs"] := by
  have hmet : ((keywordTree forTests).walk "src").filter (FilePath.extension? · == some "rs") =
      ["src/lib.rs", "src/probes.rs", "src/type.rs"] := by
    cases forTests <;> decide +kernel
  unfold FileTree.sources FileTree.withExtension
  rw [hmet, List.mergeSort_of_pairwise (by decide +kernel)]
  cases forTests <;> decide +kernel

theorem keywordTree_legal (forTests : Bool) : (keywordTree forTests).HasModuleNames "src" := by
  unfold FileTree.HasModuleNames
  rw [keywordTree_sources]
  decide +kernel

/-- The provider in the file of the module whose name is a keyword. -/
def keywordManifest : Manifest where
  entries := [⟨"crate::type::Ping", "Ping", none, .type .public true false, [.provider "ping"],
    false, ⟨"src/type.rs", 1⟩⟩]
  implementations := [⟨"Delegate", "Ping"⟩]

theorem keywordTree_scanned (forTests : Bool) :
    Manifest.ofTree (keywordTree forTests) "src" "crate" = .ok keywordManifest := by
  have hfound : ((Survey.ofFiles (keywordTree forTests) "src" "crate"
      ["src/lib.rs", "src/probes.rs", "src/type.rs"]).toOption.map Survey.manifest) =
        some keywordManifest := by
    cases forTests <;> decide +kernel
  rw [Manifest.ofTree, keywordTree_sources]
  cases hsurvey : Survey.ofFiles (keywordTree forTests) "src" "crate"
      ["src/lib.rs", "src/probes.rs", "src/type.rs"] with
  | error =>
    rw [hsurvey] at hfound
    cases hfound
  | ok survey =>
    rw [hsurvey] at hfound
    exact congrArg Except.ok (Option.some.inj hfound)

theorem keywordManifest_accepted :
    (Generator.sample.accept keywordManifest .empty).2 = .ok
      ⟨[⟨"crate::type::Ping", none, .type ⟨.public, ["Delegate"], some .unit⟩,
        ⟨.provider "ping", none⟩, ⟨"src/type.rs", 1⟩⟩], none⟩ :=
  rfl

/-- The provider is accepted, and the round stops at its path. -/
theorem keywordTree_stopped :
    (keywordTree false).HasModuleNames "src" ∧
      Manifest.ofTree (keywordTree false) "src" "crate" = .ok keywordManifest ∧
      ∃ causes,
        (Generator.sample.generate keywordManifest .empty).2 = .error (.aborted causes) ∧
        .invalidPath "crate::type::Ping" ⟨"src/type.rs", 1⟩
          "expected identifier, found keyword `type`" ∈ causes := by
  have legal := keywordTree_legal false
  have hscan := keywordTree_scanned false
  refine ⟨legal, hscan, ((generate_keywords legal hscan).1 _ _ _ _ _).2 ?_⟩
  have hnames : fileModules? "src" "src/type.rs" = some ["type"] := by decide +kernel
  refine ⟨_, keywordManifest_accepted, _, List.mem_cons_self, rfl, rfl, _, "type", hnames, ?_, ?_⟩
  · decide
  · decide

/-- Although the module whose name is a keyword is declared for tests, its file is not left out, and
the round stops at a path in it. -/
theorem keywordTest_missed :
    (keywordTree true).HasModuleNames "src" ∧
      Manifest.ofTree (keywordTree true) "src" "crate" = .ok keywordManifest ∧
      ∃ causes,
        (Generator.sample.generate keywordManifest .empty).2 = .error (.aborted causes) ∧
        .invalidPath "crate::type::Ping" ⟨"src/type.rs", 1⟩
          "expected identifier, found keyword `type`" ∈ causes := by
  have hspells : Spells ["crate", "type", "Ping"] "crate::type::Ping" := ⟨by decide, by decide⟩
  have hfault : Source.readPath "crate::type::Ping" = .error (.keyword "type") :=
    Source.readPath_of_reserved hspells (by decide +kernel) (by decide)
  refine ⟨keywordTree_legal true, keywordTree_scanned true, Generator.invalidPath_mem_iff.2 ?_⟩
  refine ⟨_, keywordManifest_accepted, _, List.mem_cons_self, .keyword "type", hfault, ?_⟩
  decide

end Bindery
