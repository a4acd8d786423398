import Bindery.Proofs.Files.Writing
/-!
# A directory as a keyed list

A write into a directory touches its file only if another text is read there or none
(`refreshes_directory`), and what it does to the directory is what it does to a keyed list of texts
(`mirrors_overlay`). So the files of a directory that was empty are those of the keyed list, and
artifacts that are all there already are written without a trace (`writeAll_of_read`).
-/

namespace Bindery

namespace FileTree

variable {tree after : FileTree}

/-! ## What is written -/

theorem written_makeAlong {start : Place} {parts : List String}
    (h : tree.makeAlong start parts = .ok after) : after.written = tree.written := by
  induction parts generalizing tree start with
  | nil =>
    obtain rfl := Except.ok.inj h
    rfl
  | cons part rest ih =>
    rw [makeAlong] at h
    split at h
    · exact ih h
    · cases h
    · have hrest := ih h
      exact hrest

theorem written_write {path text : String} (h : tree.write path text = .ok after) :
    after.written = tree.written ++ [path] := by
  unfold write at h
  cases hwritable : tree.writable path with
  | error cause =>
    rw [hwritable] at h
    cases h
  | ok target =>
    rw [hwritable] at h
    obtain rfl := Except.ok.inj h
    rfl

/-- The files at a directory and below it are texts under names in the directory. -/
def Mirrors (files : Place → Option ByteArray) (directory : Place)
    (texts : String → Option String) : Prop :=
  ∀ names, files (directory ++ names) =
    match names with
    | [name] => (texts name).map String.toUTF8
    | _ => none

end FileTree

namespace Destination

open FileTree (IsPlain Mirrors)

variable {path : String} {artifact : Artifact} {artifacts : List Artifact} {tree after : FileTree}

/-! ## One write -/

/-- What a write of an artifact does to a tree: its file holds the text afterwards, it is written
exactly if it did not hold that text before, and no other file has changed. -/
structure Refreshes (path : String) (artifact : Artifact) (before after : FileTree) : Prop where
  read : after.read (FilePath.join path artifact.name) = .ok artifact.contents
  untouched : before.read (FilePath.join path artifact.name) = .ok artifact.contents →
    after = before
  rewritten : before.read (FilePath.join path artifact.name) ≠ .ok artifact.contents →
    after.written = before.written ++ [FilePath.join path artifact.name]
  others : ∀ place, place ≠ FileTree.place path ++ [artifact.name] →
    after.file? place = before.file? place

theorem directory_of_read
    (h : tree.read (FilePath.join path artifact.name) = .ok artifact.contents) :
    (directory path).write artifact tree = (tree, .ok ()) := by
  unfold directory
  dsimp only
  rw [if_pos (FileTree.holds_iff.2 h)]

theorem written_directory (h : (directory path).write artifact tree = (after, .ok ()))
    (different : tree.read (FilePath.join path artifact.name) ≠ .ok artifact.contents) :
    after.written = tree.written ++ [FilePath.join path artifact.name] := by
  unfold directory at h
  dsimp only at h
  rw [if_neg fun hholds => different (FileTree.holds_iff.1 hholds)] at h
  split at h
  · nomatch (Prod.mk.inj h).2
  · next made hmade =>
    split at h
    · nomatch (Prod.mk.inj h).2
    · next written hwritten =>
      obtain ⟨rfl, -⟩ := Prod.mk.inj h
      have hdirectory : made.written = tree.written := FileTree.written_makeAlong hmade
      rw [FileTree.written_write hwritten, hdirectory]

theorem refreshes_directory (plain : IsPlain artifact.name)
    (h : (directory path).write artifact tree = (after, .ok ())) :
    Refreshes path artifact tree after where
  read := (directory_ok h).1
  untouched hread := by
    rw [directory_of_read hread] at h
    exact (Prod.mk.inj h).1.symm
  rewritten := written_directory h
  others place hplace := by
    rw [← placed_of_isPlain plain] at hplace
    exact (directory_ok h).2.files place hplace

/-! ## One write after the other -/

section
variable {State : Type} {destination : Destination State} {first second : List Artifact}
  {state final : State}

theorem writeAll_append_ok :
    destination.writeAll (first ++ second) state = (final, .ok ()) ↔
      ∃ between, destination.writeAll first state = (between, .ok ()) ∧
        destination.writeAll second between = (final, .ok ()) := by
  induction first generalizing state with
  | nil =>
    refine ⟨fun h => ⟨state, rfl, h⟩, fun ⟨between, hfirst, h⟩ => ?_⟩
    obtain ⟨rfl, -⟩ := Prod.mk.inj hfirst
    exact h
  | cons artifact rest ih =>
    rw [List.cons_append, writeAll_cons_ok]
    constructor
    · rintro ⟨next, hwrite, hrest⟩
      obtain ⟨between, hfirst, hsecond⟩ := ih.1 hrest
      exact ⟨between, writeAll_cons_ok.2 ⟨next, hwrite, hfirst⟩, hsecond⟩
    · rintro ⟨between, hfirst, hsecond⟩
      obtain ⟨next, hwrite, hrest⟩ := writeAll_cons_ok.1 hfirst
      exact ⟨next, hwrite, ih.2 ⟨between, hrest, hsecond⟩⟩

end

/-- What is there already is written without a trace. -/
theorem writeAll_of_read
    (h : ∀ artifact ∈ artifacts,
      tree.read (FilePath.join path artifact.name) = .ok artifact.contents) :
    (directory path).writeAll artifacts tree = (tree, .ok ()) := by
  induction artifacts with
  | nil => rfl
  | cons artifact rest ih =>
    obtain ⟨hartifact, hrest⟩ := List.forall_mem_cons.1 h
    exact writeAll_cons_ok.2 ⟨tree, directory_of_read hartifact, ih hrest⟩

/-- Artifacts with different names are all read after they have been written. -/
theorem read_writeAll (plain : ∀ artifact ∈ artifacts, IsPlain artifact.name)
    (distinct : (artifacts.map Artifact.name).Nodup)
    (h : (directory path).writeAll artifacts tree = (after, .ok ())) :
    ∀ artifact ∈ artifacts,
      after.read (FilePath.join path artifact.name) = .ok artifact.contents := by
  intro artifact hmem
  refine FileTree.read_ok_iff.2 ⟨(leads_writeAll h).1 artifact hmem, ?_⟩
  rw [(writesInto_directory path).file?_writeAll h]
  exact overlay_of_nodup (nodup_placed plain distinct) artifact hmem

/-! ## A directory and a keyed list -/

/-- What texts are put over each other under names, files are put over each other in a directory. -/
theorem mirrors_overlay (plain : ∀ artifact ∈ artifacts, IsPlain artifact.name)
    {files : Place → Option ByteArray} {texts : String → Option String}
    (h : Mirrors files (FileTree.place path) texts) :
    Mirrors (overlay (placed path) encoded artifacts files) (FileTree.place path)
      (overlay Artifact.name Artifact.contents artifacts texts) := by
  induction artifacts generalizing files texts with
  | nil => exact h
  | cons artifact rest ih =>
    obtain ⟨hplain, hrest⟩ := List.forall_mem_cons.1 plain
    refine ih hrest fun names => ?_
    dsimp only
    rw [placed_of_isPlain hplain]
    by_cases hnames : names = [artifact.name]
    · subst hnames
      simp only [Function.update_self]
      rfl
    · rw [Function.update_of_ne (by simpa using hnames), h]
      match names with
      | [] => rfl
      | _ :: _ :: _ => rfl
      | [name] =>
        have hname : name ≠ artifact.name := fun heq => hnames (congrArg (fun n => [n]) heq)
        simp only [Function.update_of_ne hname]

/-- Writes of plainly named artifacts that succeed. Each of them refreshes its file, and only its
file. What files there were under names in a directory before, in no deeper place, is what a keyed
list holds before the same writes; then so it is afterwards (a directory without files goes with the
empty list). Artifacts with different names can be written a second time, and nothing is
touched. -/
theorem directory_refines_memory (plain : ∀ artifact ∈ artifacts, IsPlain artifact.name)
    (h : (directory path).writeAll artifacts tree = (after, .ok ())) :
    (∀ front artifact rest, artifacts = front ++ artifact :: rest → ∃ earlier later,
      (directory path).writeAll front tree = (earlier, .ok ()) ∧
      (directory path).write artifact earlier = (later, .ok ()) ∧
      (directory path).writeAll rest later = (after, .ok ()) ∧
      Refreshes path artifact earlier later) ∧
    (∀ held, Mirrors tree.file? (FileTree.place path) (Keyed.find? held) →
      ∃ kept, memory.writeAll artifacts held = (kept, .ok ()) ∧
        Mirrors after.file? (FileTree.place path) (Keyed.find? kept)) ∧
    ((artifacts.map Artifact.name).Nodup →
      (directory path).writeAll artifacts after = (after, .ok ())) := by
  refine ⟨?_, fun held hheld => ?_,
    fun distinct => writeAll_of_read (read_writeAll plain distinct h)⟩
  · rintro front artifact rest rfl
    obtain ⟨earlier, hfront, hlast⟩ := writeAll_append_ok.1 h
    obtain ⟨later, hwrite, hrest⟩ := writeAll_cons_ok.1 hlast
    exact ⟨earlier, later, hfront, hwrite, hrest,
      refreshes_directory (plain artifact (by simp)) hwrite⟩
  · obtain ⟨kept, hkept, hfind⟩ := find?_writeAll artifacts held
    refine ⟨kept, hkept, ?_⟩
    rw [hfind, (writesInto_directory path).file?_writeAll h]
    exact mirrors_overlay plain hheld

/-- A directory with a file that is no text, and one that holds its text already. -/
def usedOutput : FileTree :=
  ⟨[(["out"], .directory), (["out", "index.rs"], .file ⟨#[0xff]⟩),
    (["out", "units.rs"], .file "mod units;".toUTF8)], []⟩

/-- What is written over it. -/
def freshOutput : List Artifact :=
  [⟨"units.rs", "mod units;"⟩, ⟨"index.rs", "mod index;"⟩]

theorem usedOutput_refines_memory :
    ∃ after, (directory "out").writeAll freshOutput usedOutput = (after, .ok ()) ∧
      after.written = ["out/index.rs"] ∧
      (directory "out").writeAll freshOutput after = (after, .ok ()) := by
  have plain : ∀ artifact ∈ freshOutput, IsPlain artifact.name := by decide +kernel
  have hwritten : (directory "out").writeAll freshOutput usedOutput =
      (((directory "out").writeAll freshOutput usedOutput).1, .ok ()) := Prod.ext rfl rfl
  exact ⟨_, hwritten, by decide +kernel,
    (directory_refines_memory plain hwritten).2.2 (by decide +kernel)⟩

end Destination

end Bindery
