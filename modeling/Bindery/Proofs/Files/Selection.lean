import Bindery.Proofs.Files.Paths
import Bindery.SourceTree
import Mathlib.Data.List.Forall2
/-!
# Which files of a crate are read

The selection of the files below a source root and the reading of their module paths decide on the
same thing. They agree on every file but one (`sources_modules`): a file `bin.rs` at the root is
selected and has no module path, so that a survey passes over it (`binFile_unread`).
-/

namespace Bindery

/-! ## Names in a tree -/

namespace FileTree

variable {tree after : FileTree} {path text : String}

/-- The names in a tree are those of things that lie directly in a directory. The empty tree is such
a tree, and every operation that changes one leaves one. -/
def IsNamed (tree : FileTree) : Prop :=
  ∀ place ∈ Keyed.keys tree.nodes, ∀ name ∈ place, IsPlain name

instance (tree : FileTree) : Decidable tree.IsNamed :=
  inferInstanceAs (Decidable (∀ place ∈ Keyed.keys tree.nodes, ∀ name ∈ place, IsPlain name))

theorem isPlain_of_mem_steps {start : Place} {parts : List String}
    (hstart : ∀ name ∈ start, IsPlain name) (hparts : ∀ part ∈ parts, '/' ∉ part.toList) :
    ∀ name ∈ parts.foldl step start, IsPlain name := by
  induction parts generalizing start with
  | nil => exact hstart
  | cons part rest ih =>
    obtain ⟨hpart, hrest⟩ := List.forall_mem_cons.1 hparts
    refine ih (fun name hname => ?_) hrest
    unfold step at hname
    split at hname
    · exact hstart name hname
    · next hempty =>
      split at hname
      · exact hstart name (List.dropLast_subset _ hname)
      · next hdots =>
        rcases List.mem_append.1 hname with hname | hname
        · exact hstart name hname
        · obtain rfl := List.mem_singleton.1 hname
          exact ⟨fun h => hempty (.inl h), fun h => hempty (.inr h), hdots, hpart⟩

/-- The place that a path leads to is made of plain names. -/
theorem isPlain_of_mem_place {name : String} (h : name ∈ place path) : IsPlain name :=
  isPlain_of_mem_steps (List.forall_mem_nil _) (fun _ => FilePath.slash_not_mem_of_mem_parts) name h

theorem isNamed_empty : empty.IsNamed :=
  fun _ h => nomatch h

namespace IsNamed

theorem put (named : tree.IsNamed) {target : Place} (plain : ∀ name ∈ target, IsPlain name)
    (node : FileNode) : (tree.put target node).IsNamed := by
  intro place hplace
  rcases (Keyed.mem_keys_insert _ _ _ _).1 hplace with rfl | hplace
  · exact plain
  · exact named place hplace

theorem makeAlong (named : tree.IsNamed) {start : Place} {parts : List String}
    (hstart : ∀ name ∈ start, IsPlain name) (hparts : ∀ part ∈ parts, '/' ∉ part.toList)
    (h : tree.makeAlong start parts = .ok after) : after.IsNamed := by
  induction parts generalizing tree start with
  | nil =>
    obtain rfl := Except.ok.inj h
    exact named
  | cons part rest ih =>
    obtain ⟨hpart, hrest⟩ := List.forall_mem_cons.1 hparts
    have hsingle : ∀ other ∈ [part], '/' ∉ other.toList := List.forall_mem_singleton.2 hpart
    have hnext : ∀ name ∈ step start part, IsPlain name := isPlain_of_mem_steps hstart hsingle
    rw [FileTree.makeAlong] at h
    split at h
    · exact ih named hnext hrest h
    · cases h
    · exact ih (named.put hnext _) hnext hrest h

theorem makeDirectory (named : tree.IsNamed) (h : tree.makeDirectory path = .ok after) :
    after.IsNamed :=
  named.makeAlong (List.forall_mem_nil _) (fun _ => FilePath.slash_not_mem_of_mem_parts) h

theorem write (named : tree.IsNamed) (h : tree.write path text = .ok after) : after.IsNamed := by
  unfold FileTree.write at h
  cases hwritable : tree.writable path with
  | error cause =>
    rw [hwritable] at h
    cases h
  | ok target =>
    obtain rfl : target = place path := follow_ok (writable_ok hwritable).2.1
    rw [hwritable] at h
    obtain rfl := Except.ok.inj h
    exact named.put (fun _ => isPlain_of_mem_place) _

theorem plant (named : tree.IsNamed) {node : FileNode} (h : tree.plant path node = .ok after) :
    after.IsNamed := by
  unfold FileTree.plant at h
  dsimp only at h
  cases hmade : tree.makeAlong [] (place path).dropLast with
  | error cause =>
    rw [place] at hmade
    rw [hmade] at h
    cases h
  | ok made =>
    have hplain : ∀ name ∈ place path, IsPlain name := fun _ => isPlain_of_mem_place
    have hdirectory : ∀ part ∈ (place path).dropLast, '/' ∉ part.toList := fun part hpart =>
      (hplain part (List.dropLast_subset _ hpart)).2.2.2
    have hnamed := named.makeAlong (List.forall_mem_nil _) hdirectory hmade
    rw [place] at hmade
    rw [hmade] at h
    obtain rfl := Except.ok.inj h
    exact hnamed.put hplain node

theorem remove (named : tree.IsNamed) (h : tree.remove path = .ok after) : after.IsNamed := by
  unfold FileTree.remove at h
  cases hfind : tree.find path with
  | error cause =>
    rw [hfind] at h
    cases h
  | ok found =>
    rw [hfind] at h
    obtain rfl := Except.ok.inj h
    intro place hplace
    obtain ⟨entry, hentry, rfl⟩ := List.mem_map.1 hplace
    exact named _ (List.mem_map_of_mem (List.mem_of_mem_filter hentry))

end IsNamed

/-! ## What is selected -/

variable {root file : String}

/-- A walk meets its root, and files under the names that lead to them from there. -/
theorem mem_walk (named : tree.IsNamed) (h : file ∈ tree.walk root) :
    root ≠ "" ∧ (file = root ∨ ∃ names, names ≠ [] ∧ (∀ name ∈ names, IsPlain name) ∧
      file = FilePath.join root (String.intercalate "/" names)) := by
  unfold walk at h
  split at h
  swap
  · cases h
  next found hfind =>
  have hroot : root ≠ "" := by
    rintro rfl
    cases hfind
  refine ⟨hroot, (List.mem_cons.1 h).imp_right fun h => ?_⟩
  obtain ⟨⟨names, node⟩, hbelow, rfl⟩ := List.mem_map.1 h
  unfold below at hbelow
  split at hbelow
  swap
  · cases hbelow
  next place hdirectory =>
  obtain ⟨⟨other, node⟩, hother, hnames⟩ := List.mem_map.1 hbelow
  obtain ⟨rfl, rfl⟩ := Prod.mk.inj hnames
  obtain ⟨hmem, hinside⟩ := List.mem_filter.1 hother
  obtain ⟨⟨rest, rfl⟩, hne⟩ : place <+: other ∧ place ≠ other := by simpa using hinside
  rw [List.drop_left]
  refine ⟨rest, ?_, fun name hname => ?_, rfl⟩
  · rintro rfl
    exact hne (List.append_nil place).symm
  · exact named _ (List.mem_map_of_mem hmem) name (List.mem_append_right _ hname)

theorem mem_sources : file ∈ tree.sources root ↔
    file ∈ tree.walk root ∧ FilePath.extension? file = some "rs" ∧
      tree.isSource root file = true := by
  unfold sources withExtension
  rw [List.mem_filter, List.mem_mergeSort, List.mem_filter, beq_iff_eq, and_assoc]

end FileTree

/-! ## Module paths -/

/-- The modules that names stand for, the last of which has no extension. -/
def keptNames? (names : List String) : Option (List String) :=
  if names.head? == some "bin" then none
  else if names == ["lib"] || names == ["main"] then some []
  else if names.getLast? == some "mod" then some names.dropLast
  else some names

theorem moduleNames?_nil : moduleNames? [] = keptNames? [] :=
  rfl

theorem moduleNames?_concat (before : List String) (last : String) :
    moduleNames? (before ++ [last]) = keptNames? (before ++ [FilePath.dropExtension last]) := by
  unfold moduleNames? keptNames?
  simp only [List.reverse_concat, List.reverse_cons, List.reverse_reverse]

theorem keptNames?_eq_none_iff {names : List String} :
    keptNames? names = none ↔ names.head? = some "bin" := by
  unfold keptNames?
  split
  · next hbin => exact iff_of_true rfl (beq_iff_eq.1 hbin)
  · next hbin =>
    refine iff_of_false (fun hnone => ?_) (mt beq_iff_eq.2 hbin)
    split at hnone
    · cases hnone
    · split at hnone <;> cases hnone

/-- Names have no module exactly if `bin` stands first among them, without an extension where it is
the only one. -/
theorem moduleNames?_eq_none_iff {names : List String} :
    moduleNames? names = none ↔
      (∃ first rest, names = "bin" :: first :: rest) ∨
        ∃ name, names = [name] ∧ FilePath.dropExtension name = "bin" := by
  rcases List.eq_nil_or_concat' names with rfl | ⟨before, last, rfl⟩
  · simp [moduleNames?_nil, keptNames?_eq_none_iff]
  · rw [moduleNames?_concat, keptNames?_eq_none_iff]
    cases before with
    | nil => simp
    | cons first rest =>
      cases rest <;> simp

theorem modulePath?_of_relative {root file crateRoot : String} {names : List String}
    (h : FilePath.relative? root file = some names) :
    modulePath? root file crateRoot =
      (moduleNames? names).map fun names => String.intercalate "::" (crateRoot :: names) := by
  rw [modulePath?, h, Option.map_eq_bind]
  rfl

theorem modulePath?_eq_none_iff {root file crateRoot : String} {names : List String}
    (h : FilePath.relative? root file = some names) :
    modulePath? root file crateRoot = none ↔ moduleNames? names = none := by
  rw [modulePath?_of_relative h, Option.map_eq_none_iff]

/-- The file whose name without the extension is that of the directory for other targets. -/
def binFile (root : String) : String :=
  FilePath.join root "bin.rs"

theorem isPlain_bin : FileTree.IsPlain "bin.rs" := by
  decide

theorem relative?_binFile {root : String} (h : root ≠ "") :
    FilePath.relative? root (binFile root) = some ["bin.rs"] := by
  have hjoin := FilePath.relative?_join h (List.cons_ne_nil _ _)
    (List.forall_mem_singleton.2 isPlain_bin)
  rwa [String.intercalate_singleton] at hjoin

/-- A name with the extension of sources is `bin` without it only if it is that of the file. -/
theorem eq_bin_of_dropExtension {name : String} (hstem : FilePath.dropExtension name = "bin")
    (hextension : (FilePath.cutExtension name).2 = some "rs") : name = "bin.rs" := by
  obtain ⟨stem, extension, hcut⟩ : ∃ stem extension,
    FilePath.cutExtension name = (stem, extension) := ⟨_, _, rfl⟩
  rw [hcut] at hextension
  obtain rfl : extension = some "rs" := hextension
  have hname := FilePath.eq_of_cutExtension hcut
  unfold FilePath.dropExtension at hstem
  rw [hcut] at hstem
  dsimp only at hstem
  split at hstem
  · next hspecial =>
    rw [hstem] at hspecial
    exact absurd hspecial (by decide)
  · split at hstem
    · exact absurd hstem (by decide)
    · rw [hname, hstem]
      rfl

section
variable {tree : FileTree} {root file crateRoot : String}

/-- What is selected lies below the root, and not in the directory for other targets. -/
theorem relative?_of_mem_sources (named : tree.IsNamed) (h : file ∈ tree.sources root) :
    FilePath.relative? root file = some [] ∨
      ∃ first rest, FilePath.relative? root file = some (first :: rest) ∧ first ≠ "bin" ∧
        file = FilePath.join root (String.intercalate "/" (first :: rest)) := by
  obtain ⟨hwalk, -, hsource⟩ := FileTree.mem_sources.1 h
  obtain ⟨hroot, rfl | ⟨names, hnames, plain, hfile⟩⟩ := FileTree.mem_walk named hwalk
  · exact .inl (FilePath.relative?_self file)
  · have hrelative := FilePath.relative?_join hroot hnames plain
    rw [← hfile] at hrelative
    obtain ⟨first, rest, rfl⟩ := List.exists_cons_of_ne_nil hnames
    refine .inr ⟨first, rest, hrelative, ?_, hfile⟩
    rintro rfl
    unfold FileTree.isSource at hsource
    rw [hrelative] at hsource
    cases hsource

/-- A file that is selected has a module path, unless it is the one that is passed over. -/
theorem modulePath?_of_mem_sources (named : tree.IsNamed) (h : file ∈ tree.sources root) :
    modulePath? root file crateRoot = none ↔ file = binFile root := by
  obtain ⟨hwalk, hextension, -⟩ := FileTree.mem_sources.1 h
  have hroot := (FileTree.mem_walk named hwalk).1
  constructor
  · intro hnone
    rcases relative?_of_mem_sources named h with hself | ⟨first, rest, hrelative, hfirst, hfile⟩
    · rw [modulePath?_eq_none_iff hself, moduleNames?_eq_none_iff] at hnone
      rcases hnone with ⟨_, _, hcons⟩ | ⟨_, hcons, -⟩ <;> cases hcons
    · rw [modulePath?_eq_none_iff hrelative, moduleNames?_eq_none_iff] at hnone
      rcases hnone with ⟨_, _, hcons⟩ | ⟨name, hcons, hstem⟩
      · exact absurd (List.cons.inj hcons).1 hfirst
      · rw [hcons] at hfile hrelative
        rw [← List.nil_append [name]] at hrelative
        have hname := eq_bin_of_dropExtension hstem
          (FilePath.extension?_of_relative hrelative hextension)
        rw [hfile, hname, String.intercalate_singleton]
        rfl
  · rintro rfl
    rw [modulePath?_eq_none_iff (relative?_binFile hroot)]
    rfl

/-- The file that is passed over is selected wherever a walk meets it. -/
theorem binFile_mem_sources (h : root ≠ "") :
    binFile root ∈ tree.sources root ↔ binFile root ∈ tree.walk root := by
  have hrelative := relative?_binFile h
  have hname : FilePath.fileName? (binFile root) = some "bin.rs" := by
    unfold FilePath.fileName?
    rw [FilePath.relative?_eq_some_iff.1 hrelative, List.getLast?_concat]
    rfl
  have hextension : FilePath.extension? (binFile root) = some "rs" := by
    unfold FilePath.extension?
    rw [hname]
    decide
  have hsource : tree.isSource root (binFile root) = true := by
    unfold FileTree.isSource
    rw [hrelative]
    rfl
  rw [FileTree.mem_sources]
  exact ⟨fun h => h.1, fun h => ⟨h, hextension, hsource⟩⟩

end

/-! ## What is read -/

/-- A source text is that of a file, under the module path of the file. -/
def SourceText.IsOf (tree : FileTree) (root crateRoot file : String) (source : SourceText) : Prop :=
  ∃ module text, modulePath? root file crateRoot = some module ∧ tree.read file = .ok text ∧
    source = ⟨file, module, text⟩

namespace Survey

variable {tree : FileTree} {root crateRoot : String} {files : List String} {survey : Survey}

theorem append_ok_iff {first? rest? : Except SurveyError Survey} :
    (do
      let first ← first?
      return first ++ (← rest?)) = .ok survey ↔
      ∃ first rest, first? = .ok first ∧ rest? = .ok rest ∧ survey = first ++ rest := by
  cases first? with
  | error => exact iff_of_false (fun h => nomatch h) (fun ⟨_, _, h, _⟩ => nomatch h)
  | ok first =>
    cases rest? with
    | error => exact iff_of_false (fun h => nomatch h) (fun ⟨_, _, _, h, _⟩ => nomatch h)
    | ok rest =>
      constructor
      · intro h
        exact ⟨first, rest, rfl, rfl, (Except.ok.inj h).symm⟩
      · rintro ⟨_, _, ⟨⟩, ⟨⟩, rfl⟩
        rfl

/-- A file with a module path is read, and surveyed before those that follow. -/
theorem ofFiles_cons_ok_iff {file module : String} {rest : List String}
    (h : modulePath? root file crateRoot = some module) :
    ofFiles tree root crateRoot (file :: rest) = .ok survey ↔
      ∃ text, tree.read file = .ok text ∧
        ∃ first more, ofSource ⟨file, module, text⟩ = .ok first ∧
          ofFiles tree root crateRoot rest = .ok more ∧ survey = first ++ more := by
  rw [ofFiles, h]
  dsimp only
  cases tree.read file with
  | error => exact iff_of_false (fun h => nomatch h) (fun ⟨_, h, _⟩ => nomatch h)
  | ok text =>
    refine Iff.trans append_ok_iff ⟨fun h => ⟨text, rfl, h⟩, ?_⟩
    rintro ⟨_, ⟨⟩, h⟩
    exact h

/-- The survey of files is that of the texts of all that have a module path. -/
theorem ofFiles_ok_iff :
    ofFiles tree root crateRoot files = .ok survey ↔
      ∃ sources, List.Forall₂ (SourceText.IsOf tree root crateRoot)
          (files.filter fun file => (modulePath? root file crateRoot).isSome) sources ∧
        ofSources sources = .ok survey := by
  induction files generalizing survey with
  | nil =>
    refine ⟨fun h => ⟨[], .nil, h⟩, ?_⟩
    rintro ⟨_, ⟨⟩, h⟩
    exact h
  | cons file rest ih =>
    cases hmodule : modulePath? root file crateRoot with
    | none =>
      rw [List.filter_cons_of_neg (by simp [hmodule]), ← ih, ofFiles, hmodule]
    | some module =>
      rw [List.filter_cons_of_pos (by simp [hmodule]), ofFiles_cons_ok_iff hmodule]
      constructor
      · rintro ⟨text, hread, first, more, hfirst, hmore, rfl⟩
        obtain ⟨sources, hsources, hrest⟩ := ih.1 hmore
        exact ⟨_, .cons ⟨module, text, hmodule, hread, rfl⟩ hsources,
          append_ok_iff.2 ⟨first, more, hfirst, hrest, rfl⟩⟩
      · rintro ⟨_, hall, h⟩
        obtain ⟨source, sources, ⟨found, text, hfound, hread, rfl⟩, hsources, rfl⟩ :=
          List.forall₂_cons_left_iff.1 hall
        obtain rfl := Option.some.inj (hmodule.symm.trans hfound)
        obtain ⟨first, more, hfirst, hrest, rfl⟩ := append_ok_iff.1 h
        exact ⟨text, hread, first, more, hfirst, ih.2 ⟨sources, hsources, hrest⟩, rfl⟩

end Survey

/-- A manifest is that of the texts of all files that are selected and have a module path. -/
theorem Manifest.ofTree_ok_iff {tree : FileTree} {root crateRoot : String} {manifest : Manifest} :
    ofTree tree root crateRoot = .ok manifest ↔
      ∃ sources, List.Forall₂ (SourceText.IsOf tree root crateRoot)
          ((tree.sources root).filter fun file => (modulePath? root file crateRoot).isSome)
          sources ∧
        ofSources sources = .ok manifest := by
  constructor
  · intro h
    cases hsurvey : Survey.ofFiles tree root crateRoot (tree.sources root) with
    | error =>
      rw [ofTree, hsurvey] at h
      cases h
    | ok survey =>
      obtain ⟨sources, hsources, hsame⟩ := Survey.ofFiles_ok_iff.1 hsurvey
      refine ⟨sources, hsources, ?_⟩
      rw [ofSources, hsame, ← h, ofTree, hsurvey]
  · rintro ⟨sources, hsources, h⟩
    cases hsurvey : Survey.ofSources sources with
    | error =>
      rw [ofSources, hsurvey] at h
      cases h
    | ok survey =>
      have hsame := Survey.ofFiles_ok_iff.2 ⟨sources, hsources, hsurvey⟩
      rw [ofTree, hsame, ← h, ofSources, hsurvey]

/-- The selection below a root and the module paths agree on every file but one, which is passed
over wherever it is; a survey that succeeds has read all others. There is no module path for what
lies in the directory for other targets, nor for what is named like that directory at the root, and
for everything else below the root there is one. -/
theorem sources_modules {tree : FileTree} (named : tree.IsNamed) (root crateRoot : String) :
    (∀ file ∈ tree.sources root,
      modulePath? root file crateRoot = none ↔ file = binFile root) ∧
    (binFile root ∈ tree.walk root → binFile root ∈ tree.sources root) ∧
    (∀ file names, FilePath.relative? root file = some names →
      (modulePath? root file crateRoot = none ↔
        (∃ first rest, names = "bin" :: first :: rest) ∨
          ∃ name, names = [name] ∧ FilePath.dropExtension name = "bin")) ∧
    ∀ manifest, Manifest.ofTree tree root crateRoot = .ok manifest ↔
      ∃ sources, List.Forall₂ (SourceText.IsOf tree root crateRoot)
          ((tree.sources root).filter (· ≠ binFile root)) sources ∧
        Manifest.ofSources sources = .ok manifest := by
  have hmodules : ∀ file ∈ tree.sources root,
      modulePath? root file crateRoot = none ↔ file = binFile root :=
    fun _ => modulePath?_of_mem_sources named
  have hfilter : (tree.sources root).filter (fun file =>
      (modulePath? root file crateRoot).isSome) =
      (tree.sources root).filter (· ≠ binFile root) := by
    refine List.filter_congr fun file hfile => ?_
    rw [Bool.eq_iff_iff, decide_eq_true_iff, Ne, ← hmodules file hfile, Option.isSome_iff_ne_none]
  refine ⟨hmodules, fun h => ?_,
    fun file names h => (modulePath?_eq_none_iff h).trans moduleNames?_eq_none_iff,
    fun manifest => ?_⟩
  · exact (binFile_mem_sources (FileTree.mem_walk named h).1).2 h
  · rw [← hfilter]
    exact Manifest.ofTree_ok_iff

/-- A crate with a module that is called `bin`, beside the directory for other targets. -/
def binTree : FileTree where
  nodes := [(["src"], .directory), (["src", "bin"], .directory),
    (["src", "bin", "tool.rs"], .file "fn main() {}".toUTF8),
    (["src", "bin.rs"], .file "#[gateway]\npub struct G;".toUTF8),
    (["src", "lib.rs"], .file "#[provider(\"ping\")]\npub struct P;".toUTF8)]
  written := []

theorem binTree_sources : binTree.sources "src" = ["src/bin.rs", "src/lib.rs"] := by
  have hmet : (binTree.walk "src").filter (FilePath.extension? · == some "rs") =
      ["src/bin/tool.rs", "src/bin.rs", "src/lib.rs"] := by
    decide +kernel
  unfold FileTree.sources FileTree.withExtension
  rw [hmet, List.mergeSort_of_pairwise (by decide +kernel)]
  decide +kernel

/-- The provider of the library file is all that a survey of the crate finds. -/
theorem binTree_surveyed : ∃ manifest, Manifest.ofTree binTree "src" "crate" = .ok manifest ∧
    manifest.entries.map (·.path) = ["crate::P"] := by
  have hfound : ((Survey.ofFiles binTree "src" "crate" ["src/bin.rs", "src/lib.rs"]).toOption.map
      fun survey => survey.manifest.entries.map (·.path)) = some ["crate::P"] := by
    decide +kernel
  cases hsurvey : Survey.ofFiles binTree "src" "crate" ["src/bin.rs", "src/lib.rs"] with
  | error =>
    rw [hsurvey] at hfound
    cases hfound
  | ok survey =>
    rw [hsurvey] at hfound
    refine ⟨survey.manifest, ?_, Option.some.inj hfound⟩
    rw [Manifest.ofTree, binTree_sources, hsurvey]
    rfl

theorem binTree_modules : binTree.IsNamed ∧
    (∀ file ∈ ["src/bin.rs", "src/lib.rs"],
      modulePath? "src" file "crate" = none ↔ file = binFile "src") ∧
    ∃ manifest sources, manifest.entries.map (·.path) = ["crate::P"] ∧
      List.Forall₂ (SourceText.IsOf binTree "src" "crate")
        ((binTree.sources "src").filter (· ≠ binFile "src")) sources ∧
      Manifest.ofSources sources = .ok manifest := by
  have named : binTree.IsNamed := by decide
  obtain ⟨hmodules, -, -, hread⟩ := sources_modules named "src" "crate"
  obtain ⟨manifest, hmanifest, hentries⟩ := binTree_surveyed
  obtain ⟨sources, hsources, hsame⟩ := (hread manifest).1 hmanifest
  exact ⟨named, binTree_sources ▸ hmodules, manifest, sources, hentries, hsources, hsame⟩

/-- The file of the module `bin` is selected and passed over: its gateway is not found. -/
theorem binFile_unread :
    "src/bin.rs" ∈ binTree.sources "src" ∧ modulePath? "src" "src/bin.rs" "crate" = none ∧
      (∃ manifest, Manifest.ofTree binTree "src" "crate" = .ok manifest ∧
        manifest.entries.map (·.path) = ["crate::P"]) ∧
      (Manifest.ofSources [⟨"src/bin.rs", "crate::bin", "#[gateway]\npub struct G;"⟩]).toOption.map
        (·.entries.map (·.path)) = some ["crate::bin::G"] := by
  refine ⟨?_, by decide +kernel, binTree_surveyed, by decide +kernel⟩
  rw [binTree_sources]
  exact List.mem_cons_self

end Bindery
