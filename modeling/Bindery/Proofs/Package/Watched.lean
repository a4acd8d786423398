import Bindery.Proofs.Commands
import Bindery.Proofs.Files.Collection
import Bindery.Proofs.Files.Ways
/-!
# What a build depends on

A build tells of the paths that it depends on before anything else. `build_watched`: in trees in
which these paths are the same and lead to the same, it surveys, generates and reports the same, and
it writes the same files. Only how the writing ends can depend on more, and only on what stands on
the way to these files. The names of generated files may lead out of the output directory, and then
a build depends on what nobody watches (`escaping_unwatched`).
-/

namespace Bindery

namespace FilePath

/-- A name that is joined to a directory keeps its extension. -/
theorem extension?_join (directory : String) {name : String} (plain : FileTree.IsPlain name) :
    extension? (join directory name) = (cutExtension name).2 := by
  have hlast : (components (join directory name)).getLast? = some name := by
    by_cases hempty : directory = ""
    · rw [hempty, FileTree.join_empty, components_of_parts (FileTree.parts_of_isPlain plain),
        if_neg plain.2.1, if_neg plain.1]
      rfl
    · have hcomponents := components_join hempty (List.cons_ne_nil name [])
        (List.forall_mem_singleton.2 plain)
      rw [String.intercalate_singleton] at hcomponents
      rw [hcomponents, List.getLast?_concat]
  have hslash : name ≠ "/" := by
    rintro rfl
    exact plain.2.2.2 List.mem_cons_self
  have hname : ["/", ".", ".."].contains name = false := by
    simp [hslash, plain.2.1, plain.2.2.1]
  unfold extension? fileName?
  rw [hlast]
  dsimp only
  rw [hname]
  rfl

end FilePath

namespace FileTree

variable {first second tree : FileTree} {path root : String} {start : Place}

/-- What a path leads to, if it leads anywhere. -/
def kind? (tree : FileTree) (path : String) : Option FileNode :=
  (tree.find path).toOption.map (·.2)

theorem kind?_eq_some_iff {node : FileNode} :
    tree.kind? path = some node ↔ tree.find path = .ok (place path, node) := by
  unfold kind?
  constructor
  · intro h
    obtain ⟨⟨found, _⟩, hfound, rfl⟩ := Option.map_eq_some_iff.1 h
    cases hfind : tree.find path with
    | error => rw [hfind] at hfound; cases hfound
    | ok =>
      rw [hfind] at hfound
      obtain rfl := Option.some.inj hfound
      obtain rfl : found = place path := follow_ok (find_ok_iff.1 hfind).2.1
      rfl
  · intro h
    rw [h]
    rfl

theorem isFile_iff : tree.isFile path = true ↔ ∃ bytes, tree.kind? path = some (.file bytes) := by
  unfold isFile
  constructor
  · intro h
    split at h
    · next found bytes hfind => exact ⟨bytes, by rw [kind?, hfind]; rfl⟩
    · cases h
  · rintro ⟨bytes, h⟩
    rw [kind?_eq_some_iff.1 h]

section
variable (same : first.kind? path = second.kind? path)
include same

/-- What a path leads to says whether it leads to a file. -/
theorem isFile_congr : first.isFile path = second.isFile path := by
  rw [Bool.eq_iff_iff, isFile_iff, isFile_iff, same]

/-- What a path leads to says what is read there, if it leads anywhere. -/
theorem read_congr (leads : first.kind? path ≠ none) : first.read path = second.read path := by
  obtain ⟨node, hnode⟩ := Option.ne_none_iff_exists'.1 leads
  have hfirst := kind?_eq_some_iff.1 hnode
  have hsecond := kind?_eq_some_iff.1 (same ▸ hnode)
  cases node with
  | directory => rw [read_directory hfirst, read_directory hsecond]
  | file bytes => rw [read_file hfirst, read_file hsecond]

end

/-- A file that is joined to a directory is met by a walk from there. -/
theorem mem_walk_of_isFile (distinct : (Keyed.keys tree.nodes).Nodup)
    (directory : tree.find root = .ok (start, .directory)) {name : String} (plain : IsPlain name)
    (h : tree.isFile (FilePath.join root name) = true) :
    FilePath.join root name ∈ tree.walk root := by
  obtain rfl : start = place root := follow_ok (find_ok_iff.1 directory).2.1
  have hplace : place (FilePath.join root name) = place root ++ [name] :=
    (place_join (isAbsolute_of_isPlain plain)).trans (place_of_isPlain root plain)
  obtain ⟨bytes, hkind⟩ := isFile_iff.1 h
  obtain ⟨-, -, hfile⟩ := find_ok_iff.1 (kind?_eq_some_iff.1 hkind)
  rw [hplace] at hfile
  refine (mem_walk_iff distinct directory).2 (.inr ⟨_, [name], List.cons_ne_nil _ _, hfile, ?_⟩)
  rw [String.intercalate_singleton]

/-- Where there is no directory, a walk meets nothing but its root. -/
theorem eq_root_of_mem_walk (nowhere : tree.kind? root ≠ some .directory)
    (h : path ∈ tree.walk root) : path = root := by
  unfold walk at h
  split at h
  · next found hfind =>
    have hbelow : tree.below root = [] := by
      unfold below
      split
      · next hdirectory => exact absurd (by rw [kind?, hdirectory]; rfl) nowhere
      · rfl
    rw [hbelow] at h
    exact List.mem_singleton.1 h
  · cases h

/-- What a walk meets is there. -/
theorem IsProper.kind?_ne_none (proper : tree.IsProper) (h : path ∈ tree.walk root) :
    tree.kind? path ≠ none := by
  by_cases hdirectory : tree.kind? root = some .directory
  · rcases (mem_walk_iff proper.distinct (kind?_eq_some_iff.1 hdirectory)).1 h with
      rfl | ⟨node, hbelow⟩
    · simp [hdirectory]
    · obtain ⟨found, hfind⟩ := proper.find_below (kind?_eq_some_iff.1 hdirectory) hbelow
      rw [kind?, hfind]
      exact Option.some_ne_none _
  · obtain rfl := eq_root_of_mem_walk hdirectory h
    unfold walk at h
    split at h
    · next found hfind =>
      rw [kind?, hfind]
      exact Option.some_ne_none _
    · cases h

end FileTree

namespace Package

variable {package : Package} {first second : FileTree}

/-- Two trees give a build the same paths to watch, and each leads to the same in both of them. -/
structure SameWatched (package : Package) (first second : FileTree) : Prop where
  paths : ∀ path, path ∈ package.watched first ↔ path ∈ package.watched second
  kinds : ∀ path ∈ package.watched first, first.kind? path = second.kind? path

theorem mem_watched {tree : FileTree} {path : String} : path ∈ package.watched tree ↔
    path = package.sourceRoot ∨ path ∈ tree.withExtension package.sourceRoot "rs" ∨
      path = package.configPath := by
  simp [watched]

/-- The source files among what is watched are those with the extension. -/
theorem mem_withExtension_iff {tree : FileTree} {path : String} :
    path ∈ tree.withExtension package.sourceRoot "rs" ↔
      path ∈ package.watched tree ∧ FilePath.extension? path = some "rs" := by
  rw [mem_watched]
  constructor
  · exact fun h => ⟨.inr (.inl h), (FileTree.mem_withExtension.1 h).2⟩
  · rintro ⟨rfl | h | rfl, hextension⟩
    · exact absurd ((FilePath.extension?_join _ isPlain_source).symm.trans hextension) (by decide)
    · exact h
    · exact absurd ((FilePath.extension?_join _ isPlain_config).symm.trans hextension) (by decide)

/-- Source files are collected below a directory only. The root is not named like one. -/
theorem directory_of_mem {tree : FileTree} {path : String}
    (h : path ∈ tree.withExtension package.sourceRoot "rs") :
    tree.kind? package.sourceRoot = some .directory := by
  by_contra hnowhere
  obtain ⟨hmet, hextension⟩ := FileTree.mem_withExtension.1 h
  obtain rfl := FileTree.eq_root_of_mem_walk hnowhere hmet
  exact absurd ((FilePath.extension?_join _ isPlain_source).symm.trans hextension) (by decide)

namespace SameWatched

variable (proper : first.IsProper) (proper' : second.IsProper)
  (same : package.SameWatched first second)

include same in
theorem mem_withExtension (path : String) :
    path ∈ first.withExtension package.sourceRoot "rs" ↔
      path ∈ second.withExtension package.sourceRoot "rs" := by
  rw [mem_withExtension_iff, mem_withExtension_iff, same.paths]

include proper proper' same in
/-- The same files are collected, in the same order. -/
theorem withExtension_eq : first.withExtension package.sourceRoot "rs" =
    second.withExtension package.sourceRoot "rs" := by
  have hroot := same.kinds _ (mem_watched.2 (.inl rfl))
  by_cases hdirectory : first.kind? package.sourceRoot = some .directory
  · exact FilePath.eq_of_ascending
      (proper.before_withExtension (FileTree.kind?_eq_some_iff.1 hdirectory))
      (proper'.before_withExtension (FileTree.kind?_eq_some_iff.1 (hroot ▸ hdirectory)))
      same.mem_withExtension
  · have hempty : first.withExtension package.sourceRoot "rs" = [] :=
      List.eq_nil_iff_forall_not_mem.2 fun path hpath => hdirectory (directory_of_mem hpath)
    have hempty' : second.withExtension package.sourceRoot "rs" = [] :=
      List.eq_nil_iff_forall_not_mem.2 fun path hpath =>
        hdirectory (directory_of_mem ((same.mem_withExtension path).2 hpath))
    rw [hempty, hempty']

include proper proper' same in
theorem watched_eq : package.watched first = package.watched second := by
  rw [watched, watched, same.withExtension_eq proper proper']

include same in
theorem kind?_eq {path : String} (h : path ∈ first.withExtension package.sourceRoot "rs") :
    first.kind? path = second.kind? path :=
  same.kinds path (mem_watched.2 (.inr (.inl h)))

include proper proper' same in
/-- A library file is found in both trees or in neither. -/
theorem isFile_eq (directory : first.kind? package.sourceRoot = some .directory) {name : String}
    (plain : FileTree.IsPlain name) (source : (FilePath.cutExtension name).2 = some "rs") :
    first.isFile (FilePath.join package.sourceRoot name) =
      second.isFile (FilePath.join package.sourceRoot name) := by
  have hextension : FilePath.extension? (FilePath.join package.sourceRoot name) = some "rs" :=
    (FilePath.extension?_join _ plain).trans source
  have hroot := same.kinds _ (mem_watched.2 (.inl rfl))
  have hdirectory := FileTree.kind?_eq_some_iff.1 directory
  have hdirectory' := FileTree.kind?_eq_some_iff.1 (hroot ▸ directory)
  -- Where it is a file in one of the trees, it is collected in both.
  rw [Bool.eq_iff_iff]
  constructor
  · intro h
    have hmem := FileTree.mem_withExtension.2
      ⟨FileTree.mem_walk_of_isFile proper.distinct hdirectory plain h, hextension⟩
    exact (FileTree.isFile_congr (same.kind?_eq hmem)).symm.trans h
  · intro h
    have hmem := FileTree.mem_withExtension.2
      ⟨FileTree.mem_walk_of_isFile proper'.distinct hdirectory' plain h, hextension⟩
    exact (FileTree.isFile_congr (same.kind?_eq ((same.mem_withExtension _).2 hmem))).trans h

include proper proper' same in
theorem sources_eq : first.sources package.sourceRoot = second.sources package.sourceRoot := by
  unfold FileTree.sources
  rw [← same.withExtension_eq proper proper']
  refine List.filter_congr fun path hpath => ?_
  have plain : FileTree.IsPlain "lib.rs" := by decide
  have hlibrary := same.isFile_eq proper proper' (directory_of_mem hpath) plain (by decide)
  unfold FileTree.isSource
  rw [hlibrary]

include proper same in
theorem ofFiles_eq (crateRoot : String) {files : List String}
    (h : ∀ file ∈ files, file ∈ first.withExtension package.sourceRoot "rs") :
    Survey.ofFiles first package.sourceRoot crateRoot files =
      Survey.ofFiles second package.sourceRoot crateRoot files := by
  induction files with
  | nil => rfl
  | cons file rest ih =>
    obtain ⟨hfile, hrest⟩ := List.forall_mem_cons.1 h
    have hread : first.read file = second.read file :=
      FileTree.read_congr (same.kind?_eq hfile)
        (proper.kind?_ne_none (FileTree.mem_withExtension.1 hfile).1)
    rw [Survey.ofFiles, Survey.ofFiles, hread, ih hrest]

include proper proper' same in
theorem ofTree_eq (crateRoot : String) : Manifest.ofTree first package.sourceRoot crateRoot =
    Manifest.ofTree second package.sourceRoot crateRoot := by
  unfold Manifest.ofTree
  rw [← same.sources_eq proper proper', same.ofFiles_eq proper]
  exact fun file hfile => List.mem_of_mem_filter hfile

include same in
theorem ofFileOrDefault_eq : Generator.ofFileOrDefault first package.configPath =
    Generator.ofFileOrDefault second package.configPath := by
  have hkind := same.kinds _ (mem_watched.2 (.inr (.inr rfl)))
  have hfile := FileTree.isFile_congr hkind
  unfold Generator.ofFileOrDefault Config.ofFileOrDefault
  rw [← hfile]
  by_cases hconfig : first.isFile package.configPath = true
  · obtain ⟨bytes, hbytes⟩ := FileTree.isFile_iff.1 hconfig
    have leads : first.kind? package.configPath ≠ none := by simp [hbytes]
    rw [if_pos hconfig, if_pos hconfig, Config.ofFile, Config.ofFile,
      FileTree.read_congr hkind leads]
  · rw [if_neg hconfig, if_neg hconfig]

end SameWatched

/-! ## What is planned -/

/-- What a build is going to write, or why it fails before it writes anything, with the report. -/
def plan (package : Package) (tree : FileTree) : Report × Except RoundError (List Artifact) :=
  match Generator.ofFileOrDefault tree package.configPath with
  | .error error => (.empty, .error (.config error))
  | .ok generator =>
    match Manifest.ofTree tree package.sourceRoot generator.config.crateRoot with
    | .error error => (.empty, .error (.survey error))
    | .ok manifest => generator.generate manifest .empty

/-- Writes what is planned. -/
def carryOut (package : Package) (planned : Except RoundError (List Artifact)) (tree : FileTree) :
    FileTree × Except RoundError (List Artifact) :=
  match planned with
  | .error error => (tree, .error error)
  | .ok artifacts =>
    let (after, outcome) := (Destination.directory package.output).writeAll artifacts tree
    (after, outcome.map fun _ => artifacts)

theorem generate_eq_carryOut (tree : FileTree) :
    package.generate tree .empty =
      ((package.carryOut (package.plan tree).2 tree).1, (package.plan tree).1,
        (package.carryOut (package.plan tree).2 tree).2) := by
  rw [generate_eq]
  unfold plan
  cases Generator.ofFileOrDefault tree package.configPath with
  | error error => rfl
  | ok generator =>
    dsimp only [Generator.run]
    cases Manifest.ofTree tree package.sourceRoot generator.config.crateRoot with
    | error error => rfl
    | ok manifest =>
      dsimp only
      rcases generator.generate manifest .empty with ⟨report, error | artifacts⟩ <;> rfl

/-- A build tells what it depends on and what was found, and writes what is planned. -/
theorem build_eq (tree : FileTree) :
    package.build tree =
      ((package.carryOut (package.plan tree).2 tree).1,
        (package.watched tree).map watchLine ++ (package.plan tree).1.buildLines,
        (package.carryOut (package.plan tree).2 tree).2) := by
  unfold build
  rw [generate_eq_carryOut]

theorem SameWatched.plan_eq (proper : first.IsProper) (proper' : second.IsProper)
    (same : package.SameWatched first second) : package.plan first = package.plan second := by
  unfold plan
  rw [same.ofFileOrDefault_eq]
  cases Generator.ofFileOrDefault second package.configPath with
  | error error => rfl
  | ok generator =>
    dsimp only
    rw [same.ofTree_eq proper proper']

open FileTree (SameAt way IsPlain)

/-- What is planned is carried out alike where the same stands on the way to all that is written. -/
theorem carryOut_way {places : Place → Prop} (alike : SameAt places first second)
    {planned : Except RoundError (List Artifact)}
    (covers : ∀ artifacts, planned = .ok artifacts →
      (∀ place ∈ way package.output, places place) ∧
      ∀ artifact ∈ artifacts, ∀ place ∈ way (FilePath.join package.output artifact.name),
        places place) :
    (package.carryOut planned first).2 = (package.carryOut planned second).2 ∧
      SameAt places (package.carryOut planned first).1 (package.carryOut planned second).1 := by
  cases planned with
  | error error => exact ⟨rfl, alike⟩
  | ok artifacts =>
    obtain ⟨directory, files⟩ := covers artifacts rfl
    obtain ⟨hwritten, hafter⟩ := Destination.writeAll_way alike directory files
    exact ⟨congrArg (Except.map fun _ => artifacts) hwritten, hafter⟩

/-- The places on the way to the output directory, and those of the files in it. -/
def InOutput (package : Package) (place : Place) : Prop :=
  place ∈ way package.output ∨ ∃ name, place = FileTree.place package.output ++ [name]

/-- Trees in which the watched paths are the same and lead to the same are built alike. The paths
are told first, in the same order; the report is the same, and so is what is planned: the failure,
or the files to write. How the writing ends, and what stands afterwards in a place where the same
stood before, is the same as well if the same stands on the way to these files; for plainly named
files it is enough that the output directory is the same. -/
theorem build_watched (package : Package) {first second : FileTree} (proper : first.IsProper)
    (proper' : second.IsProper) (same : package.SameWatched first second) :
    (∀ tree, ∃ report : Report, (package.build tree).2.1 =
      (package.sourceRoot :: tree.withExtension package.sourceRoot "rs" ++
        [package.configPath]).map watchLine ++ report.buildLines) ∧
    (package.build first).2.1 = (package.build second).2.1 ∧
    package.plan first = package.plan second ∧
    (∀ tree, (package.build tree).1 = (package.carryOut (package.plan tree).2 tree).1 ∧
      (package.build tree).2.2 = (package.carryOut (package.plan tree).2 tree).2) ∧
    (∀ places, SameAt places first second →
      (∀ artifacts, (package.plan first).2 = .ok artifacts →
        (∀ place ∈ way package.output, places place) ∧
        ∀ artifact ∈ artifacts, ∀ place ∈ way (FilePath.join package.output artifact.name),
          places place) →
      (package.build first).2.2 = (package.build second).2.2 ∧
        SameAt places (package.build first).1 (package.build second).1) ∧
    (SameAt package.InOutput first second →
      (∀ artifacts, (package.plan first).2 = .ok artifacts →
        ∀ artifact ∈ artifacts, IsPlain artifact.name) →
      (package.build first).2.2 = (package.build second).2.2 ∧
        SameAt package.InOutput (package.build first).1 (package.build second).1) := by
  have hplan := same.plan_eq proper proper'
  have hway : ∀ places, SameAt places first second →
      (∀ artifacts, (package.plan first).2 = .ok artifacts →
        (∀ place ∈ way package.output, places place) ∧
        ∀ artifact ∈ artifacts, ∀ place ∈ way (FilePath.join package.output artifact.name),
          places place) →
      (package.build first).2.2 = (package.build second).2.2 ∧
        SameAt places (package.build first).1 (package.build second).1 := by
    intro places alike covers
    rw [build_eq, build_eq, ← hplan]
    exact carryOut_way alike covers
  refine ⟨fun tree => ⟨(package.plan tree).1, by rw [build_eq]; rfl⟩, ?_, hplan,
    fun tree => by rw [build_eq]; exact ⟨rfl, rfl⟩, hway, fun alike plain => ?_⟩
  · rw [build_eq, build_eq, ← hplan, same.watched_eq proper proper']
  · refine hway _ alike fun artifacts hartifacts => ⟨fun place => .inl, ?_⟩
    intro artifact hmem place hplace
    exact (FileTree.mem_way_join (plain artifacts hartifacts artifact hmem) hplace).imp_right
      fun h => ⟨_, h⟩

/-! ## Things that nobody watches -/

variable {tree : FileTree} {added : Place} {node : FileNode}

/-- What is put somewhere changes nothing anywhere else. -/
theorem sameAt_put {places : Place → Prop} (hroot : added ≠ []) (elsewhere : ¬places added) :
    SameAt places tree (tree.put added node) := by
  intro place hplace
  rw [FileTree.node?_put hroot, if_neg]
  rintro rfl
  exact elsewhere hplace

/-- What is put off the way to what is watched makes no difference, if it is not watched. -/
theorem sameWatched_put (hroot : added ≠ [])
    (unwatched : package.watched (tree.put added node) = package.watched tree)
    (off : ∀ path ∈ package.watched tree, added ∉ way path) :
    package.SameWatched tree (tree.put added node) where
  paths path := by rw [unwatched]
  kinds path hpath := by
    have same : SameAt (· ∈ way path) tree (tree.put added node) :=
      sameAt_put hroot (off path hpath)
    rw [FileTree.kind?, FileTree.kind?, FileTree.find_way same]

/-- What stands neither on the way to the output directory nor in it leaves that as it is. -/
theorem not_inOutput {place : Place} (off : place ∉ way package.output)
    (outside : place.dropLast ≠ FileTree.place package.output) : ¬package.InOutput place := by
  rintro (h | ⟨name, rfl⟩)
  · exact off h
  · exact outside List.dropLast_concat

/-- The sample package with a file that nobody watches. -/
def notedTree : FileTree :=
  sampleTree.put ["pkg", "notes.txt"] (.file "to do".toUTF8)

/-- The note changes nothing about the build. -/
theorem sampleTree_watched : sampleTree.IsProper ∧ notedTree.IsProper ∧
    sample.SameWatched sampleTree notedTree ∧
    (sample.build sampleTree).2 = (sample.build notedTree).2 := by
  have proper : sampleTree.IsProper := ⟨by decide, by decide, by decide⟩
  have proper' : notedTree.IsProper := ⟨by decide, by decide, by decide⟩
  have same : sample.SameWatched sampleTree notedTree :=
    sameWatched_put (by decide) (by decide +kernel) (by decide +kernel)
  have alike : SameAt sample.InOutput sampleTree notedTree :=
    sameAt_put (by decide) (not_inOutput (by decide) (by decide))
  have plain : ∀ artifacts, (sample.plan sampleTree).2 = .ok artifacts →
      ∀ artifact ∈ artifacts, IsPlain artifact.name := by
    have h : ((sample.plan sampleTree).2.toOption.all fun artifacts =>
        artifacts.all fun artifact => decide (IsPlain artifact.name)) = true := by
      decide +kernel
    intro artifacts hartifacts artifact hmem
    rw [hartifacts] at h
    exact of_decide_eq_true (List.all_eq_true.1 h artifact hmem)
  obtain ⟨-, hlines, -, -, -, hplain⟩ := build_watched sample proper proper' same
  exact ⟨proper, proper', same, Prod.ext hlines (hplain alike plain).1⟩

/-- The sample package with the name of a generated file leading back to it. -/
def escapingTree : FileTree :=
  (sampleTree.put ["pkg", "Tether.toml"]
    (.file "[output]\nproviders = \"../pkg/data/p.rs\"".toUTF8)).put ["out"] .directory

/-- The same with a directory that nobody watches. -/
def preparedTree : FileTree :=
  escapingTree.put ["pkg", "data"] .directory

/-- Whether a build succeeds depends on a directory that it does not tell of, and that is not in the
output directory. -/
theorem escaping_unwatched : escapingTree.IsProper ∧ preparedTree.IsProper ∧
    sample.SameWatched escapingTree preparedTree ∧
    SameAt sample.InOutput escapingTree preparedTree ∧
    (sample.build escapingTree).2.2.isOk = false ∧ (sample.build preparedTree).2.2.isOk = true :=
  ⟨⟨by decide, by decide, by decide⟩, ⟨by decide, by decide, by decide⟩,
    sameWatched_put (by decide) (by decide +kernel) (by decide +kernel),
    sameAt_put (by decide) (not_inOutput (by decide) (by decide)),
    by decide +kernel, by decide +kernel⟩

end Package

end Bindery
