import Bindery.Proofs.Files.Selection
import Bindery.Proofs.Source.Path
/-!
# The names of the modules of files

The path of the module of a file is spelled by the root of the crate and names of directories and
files. Where each of these is a name that a module may have, all of them are identifiers, though
some may be keywords (`isModuleName_of_mem_fileModules`).
-/

namespace Bindery

open Source (Spells)
open Token (isIdent neverRaw)

/-- A name that a module may have by its file: an identifier, at least in its raw form, whose mark
the name of the file does not have. -/
def IsModuleName (name : String) : Prop :=
  isIdent name = true ∧ '#' ∉ name.toList ∧ name ∉ neverRaw

instance (name : String) : Decidable (IsModuleName name) :=
  inferInstanceAs (Decidable (_ ∧ _))

/-- The names of the modules that lead from the crate to the module of a file. -/
def fileModules? (root file : String) : Option (List String) :=
  (FilePath.relative? root file).bind moduleNames?

/-- All directories and source files below a root have names that modules may have. -/
def FileTree.HasModuleNames (tree : FileTree) (root : String) : Prop :=
  ∀ file ∈ tree.sources root, ∀ components ∈ FilePath.relative? root file,
    (∀ name ∈ components.dropLast, IsModuleName name) ∧
      ∀ name ∈ components.getLast?, IsModuleName (FilePath.dropExtension name)

theorem modulePath?_eq (root file crateRoot : String) :
    modulePath? root file crateRoot =
      (fileModules? root file).map fun names => String.intercalate "::" (crateRoot :: names) := by
  cases hrelative : FilePath.relative? root file with
  | none =>
    rw [modulePath?, fileModules?, hrelative]
    rfl
  | some components =>
    rw [modulePath?_of_relative hrelative, fileModules?, hrelative]
    rfl

/-- The path of the module of a file is spelled by the root of the crate and the names. -/
theorem exists_fileModules {root file crateRoot module : String}
    (h : modulePath? root file crateRoot = some module) :
    ∃ names, fileModules? root file = some names ∧ Spells (crateRoot :: names) module := by
  rw [modulePath?_eq] at h
  obtain ⟨names, hnames, rfl⟩ := Option.map_eq_some_iff.1 h
  exact ⟨names, hnames, List.cons_ne_nil _ _, rfl⟩

theorem mem_of_keptNames? {names kept : List String} (h : keptNames? names = some kept)
    {name : String} (hmem : name ∈ kept) : name ∈ names := by
  unfold keptNames? at h
  split at h
  · cases h
  · split at h
    · obtain rfl := Option.some.inj h
      cases hmem
    · split at h
      · obtain rfl := Option.some.inj h
        exact List.dropLast_subset _ hmem
      · obtain rfl := Option.some.inj h
        exact hmem

/-- The names are those of directories, and that of the file without its extension. -/
theorem mem_of_moduleNames? {components names : List String}
    (h : moduleNames? components = some names) {name : String} (hmem : name ∈ names) :
    name ∈ components.dropLast ∨
      ∃ last ∈ components.getLast?, name = FilePath.dropExtension last := by
  rcases List.eq_nil_or_concat' components with rfl | ⟨before, last, rfl⟩
  · rw [moduleNames?_nil] at h
    cases mem_of_keptNames? h hmem
  · rw [moduleNames?_concat] at h
    rw [List.dropLast_concat, List.getLast?_concat]
    rcases List.mem_append.1 (mem_of_keptNames? h hmem) with hbefore | hlast
    · exact .inl hbefore
    · exact .inr ⟨last, rfl, List.mem_singleton.1 hlast⟩

theorem isModuleName_of_mem_fileModules {tree : FileTree} {root file : String}
    (legal : tree.HasModuleNames root) (hfile : file ∈ tree.sources root) {names : List String}
    (h : fileModules? root file = some names) {name : String} (hmem : name ∈ names) :
    IsModuleName name := by
  obtain ⟨components, hcomponents, hnames⟩ := Option.bind_eq_some_iff.1 h
  obtain ⟨hdirectories, hlast⟩ := legal file hfile components hcomponents
  rcases mem_of_moduleNames? hnames hmem with hbefore | ⟨last, hfound, rfl⟩
  · exact hdirectories name hbefore
  · exact hlast last hfound

end Bindery
