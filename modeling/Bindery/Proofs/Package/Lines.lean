import Bindery.Proofs.Package.Watched
import Bindery.Proofs.Round.Lines
import Bindery.Proofs.Round.Parameters
/-!
# The lines of a build

A build prints one line for each path that it depends on and one for each finding. Where the names
of directories and files hold no line end, no path breaks its line, and a finding breaks it in few
cases only (`build_lines`): the root of the crate and the contract are printed as they are set, and
types with their literals as they are written. A literal in a source can so bring in a line of its
own (`literal_injected`).
-/

namespace Bindery

open Source (IsLiteralOf contentOf)

/-! ## Names of files -/

theorem hasLineEnd_intercalate {separator : String} (hseparator : ¬HasLineEnd separator)
    (texts : List String) : HasLineEnd (String.intercalate separator texts) ↔
      ∃ text ∈ texts, HasLineEnd text := by
  induction texts with
  | nil =>
    have hempty : ¬HasLineEnd "" := by decide
    exact iff_of_false hempty (by simp)
  | cons text rest ih =>
    cases rest with
    | nil => simp
    | cons next more =>
      rw [String.intercalate_cons_cons, hasLineEnd_append, hasLineEnd_append, ih,
        or_iff_left hseparator, List.exists_mem_cons_iff _ text]

namespace FilePath

theorem not_hasLineEnd_join {directory path : String} (hdirectory : ¬HasLineEnd directory)
    (hpath : ¬HasLineEnd path) : ¬HasLineEnd (join directory path) := by
  have hslash : ¬HasLineEnd "/" := by decide
  unfold join
  split
  · exact hpath
  · split <;> simp [hasLineEnd_append, hdirectory, hpath, hslash]

/-- The components of a path hold no line end that the path does not. -/
theorem not_hasLineEnd_of_mem_components {path component : String} (hpath : ¬HasLineEnd path)
    (h : component ∈ components path) : ¬HasLineEnd component := by
  have hparts : ∀ part ∈ parts path, ¬HasLineEnd part := by
    intro part hpart hline
    rw [← intercalate_parts path, hasLineEnd_intercalate (by decide)] at hpath
    exact hpath ⟨part, hpart, hline⟩
  unfold components at h
  split at h
  · next hdot =>
    rcases List.mem_cons.1 h with rfl | h
    · decide
    · exact hparts _ (hdot ▸ List.mem_cons_of_mem _ (List.mem_of_mem_filter h))
  · next rest hempty =>
    rcases List.mem_append.1 h with h | h
    · split at h
      · cases h
      · obtain rfl := List.mem_singleton.1 h
        decide
    · exact hparts _ (hempty ▸ List.mem_cons_of_mem _ (List.mem_of_mem_filter h))
  · exact hparts _ (List.mem_of_mem_filter h)

theorem not_hasLineEnd_dropExtension {name : String} (h : ¬HasLineEnd name) :
    ¬HasLineEnd (dropExtension name) := by
  have hstem : ¬HasLineEnd (cutExtension name).1 := by
    unfold cutExtension
    dsimp only
    split
    · exact h
    · next c before hdrop =>
      split
      · exact h
      · intro hmem
        have hbefore : '\n' ∈ before := by simpa [HasLineEnd] using hmem
        have hreversed := List.mem_of_mem_drop (hdrop ▸ List.mem_cons_of_mem c hbefore)
        exact h (List.mem_reverse.1 hreversed)
  unfold dropExtension
  split
  · exact h
  · dsimp only
    split
    · decide
    · exact hstem

end FilePath

/-- The path of the module of a file has the line ends of the root of the crate. -/
theorem hasLineEnd_modulePath {root file crateRoot module : String} (hfile : ¬HasLineEnd file)
    (h : modulePath? root file crateRoot = some module) :
    HasLineEnd module ↔ HasLineEnd crateRoot := by
  obtain ⟨names, hnames, -, rfl⟩ := exists_fileModules h
  obtain ⟨components, hrelative, hcomponents⟩ := Option.bind_eq_some_iff.1 hnames
  have hall : ∀ component ∈ components, ¬HasLineEnd component := by
    intro component hmem
    refine FilePath.not_hasLineEnd_of_mem_components hfile ?_
    rw [(FilePath.relative?_eq_some_iff.1 hrelative)]
    exact List.mem_append_right _ hmem
  rw [hasLineEnd_intercalate (by decide), List.exists_mem_cons_iff]
  refine or_iff_left ?_
  rintro ⟨name, hname, hline⟩
  rcases mem_of_moduleNames? hcomponents hname with hbefore | ⟨last, hlast, rfl⟩
  · exact hall name (List.dropLast_subset _ hbefore) hline
  · exact FilePath.not_hasLineEnd_dropExtension (hall last (List.mem_of_getLast? hlast)) hline

/-- No name of a directory or file in a tree holds a line end. -/
def FileTree.IsOneLine (tree : FileTree) : Prop :=
  ∀ node ∈ tree.nodes, ∀ name ∈ node.1, ¬HasLineEnd name

instance (tree : FileTree) : Decidable tree.IsOneLine :=
  inferInstanceAs (Decidable (∀ node ∈ tree.nodes, ∀ name ∈ node.1, ¬HasLineEnd name))

theorem FileTree.IsOneLine.not_hasLineEnd {tree : FileTree} (oneLine : tree.IsOneLine)
    {root file : String} (hroot : ¬HasLineEnd root) (h : file ∈ tree.walk root) :
    ¬HasLineEnd file := by
  unfold walk at h
  split at h
  · rcases List.mem_cons.1 h with rfl | h
    · exact hroot
    · obtain ⟨⟨names, node⟩, hbelow, rfl⟩ := List.mem_map.1 h
      refine FilePath.not_hasLineEnd_join hroot ?_
      rw [hasLineEnd_intercalate (by decide)]
      rintro ⟨name, hname, hline⟩
      unfold below at hbelow
      split at hbelow
      · obtain ⟨⟨place, node'⟩, hplace, hpair⟩ := List.mem_map.1 hbelow
        obtain ⟨rfl, rfl⟩ := Prod.mk.inj hpair
        exact oneLine _ (List.mem_of_mem_filter hplace) name (List.mem_of_mem_drop hname) hline
      · cases hbelow
  · cases h

/-! ## Entries of a tree -/

section
variable {tree : FileTree} {root crateRoot : String} {manifest : Manifest}

/-- An entry of the manifest of a tree was met in one of its files. -/
theorem exists_file_of_entry (h : Manifest.ofTree tree root crateRoot = .ok manifest)
    {entry : Entry} (hentry : entry ∈ manifest.entries) :
    ∃ file ∈ tree.sources root, ∃ module text,
      modulePath? root file crateRoot = some module ∧ tree.read file = .ok text ∧
      ∃ visit ∈ (SourceText.mk file module text).visits, visit.recorded? = some entry ∧
        visit.site.path = file ∧ visit.site.fileModule = module ∧
        visit.All Source.Ty.IsNamed := by
  obtain ⟨sources, hsources, hscan⟩ := Manifest.ofTree_ok_iff.1 h
  obtain ⟨visit, hvisit, hrecorded⟩ := Survey.exists_visit_of_entry hscan hentry
  obtain ⟨source, hsource, hmet⟩ := List.mem_flatMap.1 hvisit
  obtain ⟨file, hfile, module, text, hmodule, htext, rfl⟩ :=
    Manifest.exists_of_mem_left hsources.flip hsource
  exact ⟨file, (List.mem_filter.1 hfile).1, module, text, hmodule, htext, visit, hmet, hrecorded,
    SourceText.path_site hmet, SourceText.fileModule hmet, Survey.all_of_mem_visits hvisit⟩

theorem isOneLine_of_entry (oneLine : tree.IsOneLine) (hroot : ¬HasLineEnd root)
    (h : Manifest.ofTree tree root crateRoot = .ok manifest) {entry : Entry}
    (hentry : entry ∈ manifest.entries) : entry.IsOneLine crateRoot := by
  obtain ⟨file, hfile, module, text, hmodule, -, visit, -, hrecorded, hpath, hsite, hall⟩ :=
    exists_file_of_entry h hentry
  have hwalk := (FileTree.mem_withExtension.1 (List.mem_of_mem_filter hfile)).1
  have hline : ¬HasLineEnd file := oneLine.not_hasLineEnd hroot hwalk
  obtain ⟨hentry, htags, hlocation⟩ := Visit.isOneLine hrecorded hall (hpath ▸ hline)
  rw [hsite, hasLineEnd_modulePath hline hmodule] at hentry
  exact ⟨hentry, htags, hlocation⟩

end

/-! ## What errors quote -/

namespace Generator

/-- Where a line end in a text that an error quotes comes from: from the name of the contract as it
is set, from a literal in a type that is set for a parameter, or from a literal in the file that the
error is about. -/
inductive LineEndOrigin (generator : Generator) (tree : FileTree) (finding : Finding) :
    String → Prop
  | contract : LineEndOrigin generator tree finding generator.config.contract
  | setting {name written literal text : String}
    (set : (name, written) ∈ generator.config.params.named)
    (isLiteral : IsLiteralOf written literal) (lineEnd : HasLineEnd literal) :
    LineEndOrigin generator tree finding text
  | source {location : Location} {content literal text : String}
    (placed : finding.location = some location) (read : tree.read location.file = .ok content)
    (isLiteral : IsLiteralOf (contentOf content) literal) (lineEnd : HasLineEnd literal) :
    LineEndOrigin generator tree finding text

variable {generator : Generator} {tree : FileTree} {configPath root crateRoot : String}
  {manifest : Manifest}

theorem ofConfig_of_ofFileOrDefault (h : ofFileOrDefault tree configPath = .ok generator) :
    ShapeRules.ofConfig generator.config = .ok generator.rules := by
  unfold ofFileOrDefault at h
  cases hconfig : Config.ofFileOrDefault tree configPath with
  | error =>
    rw [hconfig] at h
    cases h
  | ok config =>
    rw [hconfig] at h
    obtain ⟨other, hother, hsame⟩ := exists_ofConfig (Config.check_of_ofFileOrDefault hconfig)
    obtain rfl : other = generator := Except.ok.inj (hother.symm.trans h)
    rw [hsame]
    exact rules_of_ofConfig hother

/-- The names of parameters are no settings. -/
theorem not_hasLineEnd_named {params : Params} {name written : String}
    (h : (name, written) ∈ params.named) : ¬HasLineEnd name := by
  have hnames : ∀ parameter ∈ params.named.map (·.1), ¬HasLineEnd parameter := by
    show ∀ parameter ∈ ["context", "method", "arguments", "handler"], ¬HasLineEnd parameter
    decide
  exact hnames name (List.mem_map.2 ⟨_, h, rfl⟩)

/-- The types of a function that is declared are written in the file that it is declared in. -/
theorem exists_literal_of_declared
    (hscan : Manifest.ofTree tree root crateRoot = .ok manifest) {declaration : Declaration}
    (declared : manifest.IsDeclared declaration) {shape : FunctionShape}
    (hshape : declaration.shape = .function shape) {text : String} (htext : text ∈ shape.types)
    (hline : HasLineEnd text) :
    ∃ content, tree.read declaration.location.file = .ok content ∧
      ∃ literal, IsLiteralOf (contentOf content) literal ∧ HasLineEnd literal := by
  obtain ⟨entry, hentry, carrier, hdeclare⟩ := declared
  obtain ⟨file, -, module, content, -, hread, visit, hvisit, hrecorded, hpath, -, -⟩ :=
    exists_file_of_entry hscan hentry
  have hfile : declaration.location.file = file := by
    rw [(bindable_of_declare hdeclare).2]
    obtain ⟨sighting, -, rfl⟩ := Visit.exists_of_recorded? hrecorded
    exact hpath
  have hcategory := category_of_declare hdeclare hshape
  obtain ⟨literal, hliteral, hend⟩ :=
    exists_literal_of_entry hvisit hrecorded hcategory htext hline
  exact ⟨content, hfile ▸ hread, literal, hliteral, hend⟩

/-- A line end in what an error quotes has one of the origins. -/
theorem Rejects.lineEndOrigin (hgenerator : ofFileOrDefault tree configPath = .ok generator)
    (hscan : Manifest.ofTree tree root crateRoot = .ok manifest) {finding : Finding}
    {violation : Violation} (h : generator.Rejects manifest finding violation) {text : String}
    (htext : text ∈ violation.quoted) (hline : HasLineEnd text) :
    generator.LineEndOrigin tree finding text := by
  have hrules := ofConfig_of_ofFileOrDefault hgenerator
  obtain ⟨declaration, declared, hbreaks, rfl⟩ := h
  have hdescribes := hbreaks.describes
  cases violation with
  | missingContract path contract =>
    obtain rfl := List.mem_singleton.1 htext
    obtain ⟨-, rfl⟩ := hdescribes
    rw [(ShapeRules.ofConfig_ok_iff.1 hrules).1]
    exact .contract
  | parameterType path index name found expected =>
    obtain ⟨-, hparam, -, shape, hshape, hfound, -⟩ := hdescribes
    obtain ⟨type, ⟨written, hset, htype⟩, rfl⟩ := ShapeRules.exists_expects hrules hparam
    have hmem := List.mem_of_getElem? hset
    rcases List.mem_cons.1 htext with rfl | htext
    · exact absurd hline (not_hasLineEnd_named hmem)
    · rcases List.mem_cons.1 htext with rfl | htext
      · have htypes : text ∈ shape.types :=
          List.mem_append_left _ (List.mem_of_getElem? hfound)
        obtain ⟨content, hread, literal, hliteral, hend⟩ :=
          exists_literal_of_declared hscan declared hshape htypes hline
        exact .source rfl hread hliteral hend
      · obtain rfl := List.mem_singleton.1 htext
        obtain ⟨literal, hliteral, hend⟩ :=
          Source.Ty.literal_of_lineEnd (Source.fits_readType htype) hline
        exact .setting hmem hliteral hend
  | returnType path found =>
    obtain ⟨-, shape, hshape, houtput⟩ := hdescribes
    obtain rfl := List.mem_singleton.1 htext
    have htypes : text ∈ shape.types :=
      List.mem_append_right _ (Option.mem_toList.2 houtput)
    obtain ⟨content, hread, literal, hliteral, hend⟩ :=
      exists_literal_of_declared hscan declared hshape htypes hline
    exact .source rfl hread hliteral hend
  | notConstructible | notPublic | receiver | arity => cases htext

end Generator

/-! ## What is printed -/

/-- Lines as they are printed one after the other. -/
def printed (lines : List String) : List Char :=
  lines.flatMap fun line => line.toList ++ ['\n']

theorem splitAt_printed {lines : List String} (h : ∀ line ∈ lines, ¬HasLineEnd line) :
    Text.splitAt '\n' (printed lines) = lines.map String.toList ++ [[]] := by
  induction lines with
  | nil => rfl
  | cons line rest ih =>
    obtain ⟨hline, hrest⟩ := List.forall_mem_cons.1 h
    rw [printed, List.flatMap_cons, List.append_assoc, List.singleton_append,
      Text.splitAt_append hline, ← printed, ih hrest]
    rfl

namespace Package

variable {package : Package} {tree : FileTree}

theorem not_hasLineEnd_watched (hdirectory : ¬HasLineEnd package.directory)
    (oneLine : tree.IsOneLine) {path : String} (h : path ∈ package.watched tree) :
    ¬HasLineEnd path := by
  have hsource : ¬HasLineEnd package.sourceRoot :=
    FilePath.not_hasLineEnd_join hdirectory (by decide)
  rcases mem_watched.1 h with rfl | hfile | rfl
  · exact hsource
  · exact oneLine.not_hasLineEnd hsource (FileTree.mem_withExtension.1 hfile).1
  · exact FilePath.not_hasLineEnd_join hdirectory (by decide)

/-- What is found is found with the generator of the package, in its manifest. -/
theorem exists_manifest_of_finding {finding : Finding}
    (h : finding ∈ (package.plan tree).1.findings) : ∃ generator manifest,
      Generator.ofFileOrDefault tree package.configPath = .ok generator ∧
      Manifest.ofTree tree package.sourceRoot generator.config.crateRoot = .ok manifest ∧
      generator.Finds manifest finding := by
  unfold plan at h
  split at h
  · cases h
  · next generator hgenerator =>
    split at h
    · cases h
    · next manifest hmanifest =>
      refine ⟨generator, manifest, hgenerator, hmanifest, ?_⟩
      exact (Generator.finds_of_accept rfl h).resolve_left List.not_mem_nil

/-- Where the path of a package and the names of directories and files hold no line ends, a build
prints for each path that it depends on one line without a line end, and then for each finding one
text, in order. This text has a line end exactly if the root of the crate is set with one, or if the
finding is the error about a declaration and quotes a text with one. Such a text is the name of the
contract as it is set; or it is a type, and then the line end stands in a literal, of a type that is
set for a parameter or of the file that the error is about. If there is no such text, what is printed
falls into these lines. -/
theorem build_lines (package : Package) {tree : FileTree}
    (hdirectory : ¬HasLineEnd package.directory) (oneLine : tree.IsOneLine) :
    (package.build tree).2.1 = (package.watched tree).map watchLine ++
      ((package.plan tree).1.findings.map fun finding => "cargo:warning=" ++ finding.text) ∧
    (∀ path ∈ package.watched tree, ¬HasLineEnd (watchLine path)) ∧
    (∀ finding ∈ (package.plan tree).1.findings, ∃ generator manifest,
      Generator.ofFileOrDefault tree package.configPath = .ok generator ∧
      Manifest.ofTree tree package.sourceRoot generator.config.crateRoot = .ok manifest ∧
      (HasLineEnd ("cargo:warning=" ++ finding.text) ↔
        HasLineEnd generator.config.crateRoot ∨ ∃ violation,
          generator.Rejects manifest finding violation ∧
            ∃ text ∈ violation.quoted, HasLineEnd text) ∧
      ∀ violation, generator.Rejects manifest finding violation →
        ∀ text ∈ violation.quoted, HasLineEnd text →
          generator.LineEndOrigin tree finding text) ∧
    ((∀ finding ∈ (package.plan tree).1.findings, ¬HasLineEnd finding.text) →
      Text.splitAt '\n' (printed (package.build tree).2.1) =
        (package.build tree).2.1.map String.toList ++ [[]]) := by
  have hlines : (package.build tree).2.1 = (package.watched tree).map watchLine ++
      ((package.plan tree).1.findings.map fun finding => "cargo:warning=" ++ finding.text) := by
    rw [build_eq]
    rfl
  have hwarning : ∀ finding : Finding,
      HasLineEnd ("cargo:warning=" ++ finding.text) ↔ HasLineEnd finding.text := by
    have hword : ¬HasLineEnd "cargo:warning=" := by decide
    exact fun finding => (hasLineEnd_append _ _).trans (or_iff_right hword)
  have hwatched : ∀ path ∈ package.watched tree, ¬HasLineEnd (watchLine path) := by
    have hword : ¬HasLineEnd "cargo:rerun-if-changed=" := by decide
    intro path hpath
    have hline := not_hasLineEnd_watched hdirectory oneLine hpath
    exact fun h => ((hasLineEnd_append _ _).1 h).elim hword hline
  refine ⟨hlines, hwatched, fun finding hfinding => ?_, fun hnone => splitAt_printed ?_⟩
  · obtain ⟨generator, manifest, hgenerator, hscan, hfinds⟩ := exists_manifest_of_finding hfinding
    have hroot : ¬HasLineEnd package.sourceRoot :=
      FilePath.not_hasLineEnd_join hdirectory (by decide)
    refine ⟨generator, manifest, hgenerator, hscan, (hwarning finding).trans ?_, ?_⟩
    · exact hfinds.hasLineEnd_iff fun entry hentry => isOneLine_of_entry oneLine hroot hscan hentry
    · exact fun violation h text htext hline => h.lineEndOrigin hgenerator hscan htext hline
  · rw [hlines, List.forall_mem_append, List.forall_mem_map, List.forall_mem_map]
    exact ⟨hwatched, fun finding hfinding => mt (hwarning finding).1 (hnone finding hfinding)⟩

/-- The sample package prints its lines as they are. -/
theorem sampleTree_lines : ¬HasLineEnd sample.directory ∧ sampleTree.IsOneLine ∧
    Text.splitAt '\n' (printed (sample.build sampleTree).2.1) =
      (sample.build sampleTree).2.1.map String.toList ++ [[]] := by
  have hdirectory : ¬HasLineEnd sample.directory := by decide
  have oneLine : sampleTree.IsOneLine := by decide
  obtain ⟨-, -, -, hprinted⟩ := build_lines sample hdirectory oneLine
  exact ⟨hdirectory, oneLine, hprinted (by decide +kernel)⟩

/-- The sample package with a function whose parameter has a line end in a literal of its type. -/
def injectingTree : FileTree :=
  sampleTree.put ["pkg", "src", "lib.rs"] (.file ("#[provider(\"ping\")]\n" ++
    "pub fn ping(a: [u8; \x7b\"x\ncargo:rustc-cfg=evil\"; 1\x7d], " ++
    "b: u8, c: u8, d: u8) \x7b\x7d\n").toUTF8)

/-- The error about this function goes on in a line that the build tool takes for one of its own. -/
theorem literal_injected : ¬HasLineEnd sample.directory ∧ injectingTree.IsOneLine ∧
    ∃ line ∈ Text.splitAt '\n' (printed (sample.build injectingTree).2.1),
      "cargo:rustc-cfg=evil".toList <+: line :=
  ⟨by decide, by decide, by decide +kernel⟩

end Package

end Bindery
