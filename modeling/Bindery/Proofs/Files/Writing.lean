import Bindery.Destination
import Bindery.Proofs.Files.Tree
import Mathlib.Logic.Function.Basic
/-!
# What writing leaves behind

`overlay` says what keyed texts are after artifacts have been put over them one after the other. A
destination that writes all of a list leaves its overlay (`file?_writeAll`, `find?_writeAll`), and
one that fails on the way leaves that of the artifacts before the failure (`writeAll_error`).
Artifacts survive each other exactly if no two of them go to the same place (`overlay_holds_iff`).
-/

namespace Bindery

/-! ## Texts over others -/

section
variable {κ α : Type} [DecidableEq κ] (key : Artifact → κ) (value : Artifact → α)

/-- What stands under each key after artifacts have been put there in their order. -/
def overlay (artifacts : List Artifact) (files : κ → Option α) : κ → Option α :=
  artifacts.foldl (fun files artifact => Function.update files (key artifact)
    (some (value artifact))) files

variable {key value} {artifacts : List Artifact} {files : κ → Option α}

theorem overlay_append (first second : List Artifact) :
    overlay key value (first ++ second) files =
      overlay key value second (overlay key value first files) :=
  List.foldl_append

theorem overlay_singleton (artifact : Artifact) :
    overlay key value [artifact] files = Function.update files (key artifact)
      (some (value artifact)) :=
  rfl

theorem overlay_of_ne {k : κ} (h : ∀ artifact ∈ artifacts, key artifact ≠ k) :
    overlay key value artifacts files k = files k := by
  induction artifacts generalizing files with
  | nil => rfl
  | cons artifact rest ih =>
    obtain ⟨hartifact, hrest⟩ := List.forall_mem_cons.1 h
    exact (ih hrest).trans (Function.update_of_ne (Ne.symm hartifact) _ _)

theorem overlay_of_nodup (h : (artifacts.map key).Nodup) :
    ∀ artifact ∈ artifacts,
      overlay key value artifacts files (key artifact) = some (value artifact) := by
  induction artifacts generalizing files with
  | nil => exact fun _ hmem => nomatch hmem
  | cons first rest ih =>
    obtain ⟨hfirst, hrest⟩ := List.nodup_cons.1 h
    intro artifact hmem
    rcases List.mem_cons.1 hmem with rfl | hmem
    · have hne : ∀ other ∈ rest, key other ≠ key artifact := fun other hother heq =>
        hfirst (heq ▸ List.mem_map_of_mem hother)
      exact (overlay_of_ne hne).trans (Function.update_self _ _ _)
    · exact ih hrest artifact hmem

/-- Different texts survive each other exactly if all of them go to different places. -/
theorem overlay_holds_iff (different : artifacts.Pairwise fun first second =>
    value first ≠ value second) :
    (∀ artifact ∈ artifacts,
      overlay key value artifacts files (key artifact) = some (value artifact)) ↔
      (artifacts.map key).Nodup := by
  refine ⟨fun h => ?_, overlay_of_nodup⟩
  rw [List.Nodup, List.pairwise_map]
  refine different.imp_of_mem fun {first second} hfirst hsecond hvalues hkeys => hvalues ?_
  have hboth := h second hsecond
  rw [← hkeys, h first hfirst] at hboth
  exact Option.some.inj hboth

end

namespace Destination

/-! ## Writing all of a list -/

section
variable {State : Type} {destination : Destination State} {artifacts : List Artifact}
  {state after : State} {error : RoundError}

theorem writeAll_cons_ok {artifact : Artifact} :
    destination.writeAll (artifact :: artifacts) state = (after, .ok ()) ↔
      ∃ between, destination.write artifact state = (between, .ok ()) ∧
        destination.writeAll artifacts between = (after, .ok ()) := by
  rw [writeAll]
  rcases destination.write artifact state with ⟨between, error | ok⟩
  · exact ⟨fun h => (nomatch (Prod.mk.inj h).2), fun ⟨_, h, _⟩ => (nomatch (Prod.mk.inj h).2)⟩
  · refine ⟨fun h => ⟨between, rfl, h⟩, fun ⟨_, hfirst, h⟩ => ?_⟩
    obtain ⟨rfl, -⟩ := Prod.mk.inj hfirst
    exact h

/-- A failure ends the writing: what was before it is written, and nothing after it. -/
theorem writeAll_error (h : destination.writeAll artifacts state = (after, .error error)) :
    ∃ written artifact rest between, artifacts = written ++ artifact :: rest ∧
      destination.writeAll written state = (between, .ok ()) ∧
      destination.write artifact between = (after, .error error) := by
  induction artifacts generalizing state with
  | nil => nomatch (Prod.mk.inj h).2
  | cons artifact rest ih =>
    rw [writeAll] at h
    rcases hwrite : destination.write artifact state with ⟨between, failure | ok⟩ <;>
      rw [hwrite] at h
    · obtain ⟨rfl, hfailure⟩ := Prod.mk.inj h
      obtain rfl := Except.error.inj hfailure
      exact ⟨[], artifact, rest, state, rfl, rfl, hwrite⟩
    · obtain ⟨written, last, more, middle, rfl, hwritten, hlast⟩ := ih h
      exact ⟨artifact :: written, last, more, middle, rfl,
        writeAll_cons_ok.2 ⟨between, hwrite, hwritten⟩, hlast⟩

end

/-! ## A keyed list -/

theorem find?_writeAll (artifacts : List Artifact) (files : List (String × String)) :
    ∃ after, memory.writeAll artifacts files = (after, .ok ()) ∧
      Keyed.find? after =
        overlay Artifact.name Artifact.contents artifacts (Keyed.find? files) := by
  induction artifacts generalizing files with
  | nil => exact ⟨files, rfl, rfl⟩
  | cons artifact rest ih =>
    obtain ⟨after, hafter, hfind⟩ := ih (Keyed.insert files artifact.name artifact.contents)
    have hinsert : Keyed.find? (Keyed.insert files artifact.name artifact.contents) =
        Function.update (Keyed.find? files) artifact.name (some artifact.contents) := by
      funext name
      by_cases hname : name = artifact.name
      · rw [hname, Function.update_self]
        exact Keyed.find?_insert_self _ _ _
      · rw [Function.update_of_ne hname]
        exact Keyed.find?_insert_of_ne _ _ hname
    exact ⟨after, hafter, by rw [hfind, hinsert]; rfl⟩

/-! ## A directory -/

section
variable {path : String} {artifact : Artifact} {artifacts : List Artifact}
  {tree after : FileTree} {error : RoundError}

/-- The place of an artifact in the directory of a path. -/
def placed (path : String) (artifact : Artifact) : Place :=
  FileTree.place (FilePath.join path artifact.name)

/-- The bytes of the file of an artifact. -/
def encoded (artifact : Artifact) : ByteArray :=
  artifact.contents.toUTF8

theorem placed_of_isPlain (plain : FileTree.IsPlain artifact.name) :
    placed path artifact = FileTree.place path ++ [artifact.name] :=
  (FileTree.place_join (FileTree.isAbsolute_of_isPlain plain)).trans
    (FileTree.place_of_isPlain path plain)

/-- Different names lead to different places. -/
theorem nodup_placed (plain : ∀ artifact ∈ artifacts, FileTree.IsPlain artifact.name)
    (distinct : (artifacts.map Artifact.name).Nodup) : (artifacts.map (placed path)).Nodup := by
  have hmap : artifacts.map (placed path) =
      (artifacts.map Artifact.name).map (FileTree.place path ++ [·]) := by
    rw [List.map_map]
    exact List.map_congr_left fun artifact hmem => placed_of_isPlain (plain artifact hmem)
  rw [hmap]
  refine List.Pairwise.map _ (fun first second hne heq => hne ?_) distinct
  simpa using heq

/-- A file that is written is read as its text afterwards; no other file has changed. -/
theorem directory_ok (h : (directory path).write artifact tree = (after, .ok ())) :
    after.read (FilePath.join path artifact.name) = .ok artifact.contents ∧
      tree.Keeps after (· = placed path artifact) := by
  unfold directory at h
  dsimp only at h
  split at h
  · next hholds =>
    obtain ⟨rfl, -⟩ := Prod.mk.inj h
    exact ⟨FileTree.holds_iff.1 hholds, .refl _ _⟩
  · split at h
    · nomatch (Prod.mk.inj h).2
    · next made hmade =>
      split at h
      · nomatch (Prod.mk.inj h).2
      · next written hwritten =>
        obtain ⟨rfl, -⟩ := Prod.mk.inj h
        obtain ⟨hread, hkeeps⟩ := FileTree.write_ok hwritten
        have hdirectory := FileTree.keeps_makeDirectory hmade
        exact ⟨hread, (hdirectory.imp fun _ h => h.elim).trans hkeeps⟩

/-- A failure to write is reported as one, and no file has changed. -/
theorem directory_error (h : (directory path).write artifact tree = (after, .error error)) :
    (∃ place cause, error = .unwritable place cause) ∧ after.file? = tree.file? := by
  unfold directory at h
  dsimp only at h
  split at h
  · nomatch (Prod.mk.inj h).2
  · split at h
    · obtain ⟨rfl, herror⟩ := Prod.mk.inj h
      exact ⟨⟨_, _, (Except.error.inj herror).symm⟩, rfl⟩
    · next made hmade =>
      split at h
      · obtain ⟨rfl, herror⟩ := Prod.mk.inj h
        refine ⟨⟨_, _, (Except.error.inj herror).symm⟩, funext fun place => ?_⟩
        exact (FileTree.keeps_makeDirectory hmade).files place id
      · nomatch (Prod.mk.inj h).2

theorem file?_directory (h : (directory path).write artifact tree = (after, .ok ())) :
    after.file? = Function.update tree.file? (placed path artifact) (some (encoded artifact)) := by
  obtain ⟨hread, hkeeps⟩ := directory_ok h
  funext place
  by_cases hplace : place = placed path artifact
  · rw [hplace, Function.update_self]
    exact FileTree.file?_of_read hread
  · rw [Function.update_of_ne hplace]
    exact hkeeps.files place hplace

/-- Artifacts that are all written go on being led to, and directories go on standing. -/
theorem leads_writeAll (h : (directory path).writeAll artifacts tree = (after, .ok ())) :
    (∀ artifact ∈ artifacts, after.Leads (FilePath.join path artifact.name)) ∧
      tree.Keeps after fun _ => True := by
  induction artifacts generalizing tree with
  | nil =>
    obtain ⟨rfl, -⟩ := Prod.mk.inj h
    exact ⟨fun _ hmem => (nomatch hmem), .refl _ _⟩
  | cons artifact rest ih =>
    obtain ⟨between, hwrite, hrest⟩ := writeAll_cons_ok.1 h
    obtain ⟨hread, hkeeps⟩ := directory_ok hwrite
    obtain ⟨hleads, hkept⟩ := ih hrest
    refine ⟨List.forall_mem_cons.2 ⟨?_, hleads⟩, (hkeeps.imp fun _ _ => trivial).trans hkept⟩
    exact hkept.leads (FileTree.read_ok_iff.1 hread).1

/-! ## A directory in which any write may fail -/

/-- A destination writes into the directory of a path: a write does what it does there, or fails
and leaves every file as it was. -/
def WritesInto (destination : Destination FileTree) (path : String) : Prop :=
  ∀ artifact tree, destination.write artifact tree = (directory path).write artifact tree ∨
    ∃ after place cause,
      destination.write artifact tree = (after, .error (.unwritable place cause)) ∧
      after.file? = tree.file?

theorem writesInto_directory (path : String) : (directory path).WritesInto path :=
  fun _ _ => .inl rfl

variable {destination : Destination FileTree}

namespace WritesInto

theorem write_ok (into : destination.WritesInto path)
    (h : destination.write artifact tree = (after, .ok ())) :
    (directory path).write artifact tree = (after, .ok ()) := by
  rcases into artifact tree with hsame | ⟨_, _, _, hfails, -⟩
  · exact hsame.symm.trans h
  · rw [hfails] at h
    nomatch (Prod.mk.inj h).2

theorem write_error (into : destination.WritesInto path)
    (h : destination.write artifact tree = (after, .error error)) :
    (∃ place cause, error = .unwritable place cause) ∧ after.file? = tree.file? := by
  rcases into artifact tree with hsame | ⟨left, place, cause, hfails, hfiles⟩
  · exact directory_error (hsame.symm.trans h)
  · rw [hfails] at h
    obtain ⟨rfl, herror⟩ := Prod.mk.inj h
    exact ⟨⟨place, cause, (Except.error.inj herror).symm⟩, hfiles⟩

theorem file?_writeAll (into : destination.WritesInto path)
    (h : destination.writeAll artifacts tree = (after, .ok ())) :
    after.file? = overlay (placed path) encoded artifacts tree.file? := by
  induction artifacts generalizing tree with
  | nil =>
    obtain ⟨rfl, -⟩ := Prod.mk.inj h
    rfl
  | cons artifact rest ih =>
    obtain ⟨between, hwrite, hrest⟩ := writeAll_cons_ok.1 h
    rw [ih hrest, file?_directory (into.write_ok hwrite)]
    rfl

/-- A write that fails leaves exactly the artifacts before it. -/
theorem file?_writeAll_error (into : destination.WritesInto path)
    (h : destination.writeAll artifacts tree = (after, .error error)) :
    ∃ written artifact rest between place cause, artifacts = written ++ artifact :: rest ∧
      destination.writeAll written tree = (between, .ok ()) ∧
      destination.write artifact between = (after, .error error) ∧
      error = .unwritable place cause ∧
      after.file? = overlay (placed path) encoded written tree.file? := by
  obtain ⟨written, artifact, rest, between, hparts, hwritten, hfails⟩ := writeAll_error h
  obtain ⟨⟨place, cause, herror⟩, hfiles⟩ := into.write_error hfails
  exact ⟨written, artifact, rest, between, place, cause, hparts, hwritten, hfails, herror,
    hfiles.trans (into.file?_writeAll hwritten)⟩

/-- However the writing ends, the files are those of some first artifacts. -/
theorem exists_prefix (into : destination.WritesInto path) (artifacts : List Artifact)
    (tree : FileTree) :
    ∃ written, written <+: artifacts ∧ (destination.writeAll artifacts tree).1.file? =
      overlay (placed path) encoded written tree.file? := by
  rcases h : destination.writeAll artifacts tree with ⟨after, error | ok⟩
  · obtain ⟨written, artifact, rest, -, -, -, rfl, -, -, -, hfiles⟩ := into.file?_writeAll_error h
    exact ⟨written, List.prefix_append _ _, hfiles⟩
  · exact ⟨artifacts, List.prefix_rfl, into.file?_writeAll h⟩

end WritesInto

end

end Destination

end Bindery
