import Bindery.Proofs.Files.Writing
/-!
# What operations look at

An operation on a path looks at the places on its way and at no others, and it puts nothing
anywhere that does not follow from what it has seen. So trees in which the same stands on the way
take it to the same end (`find_way`), and where the same stood in both before, the same stands
afterwards (`writeAll_way`).
-/

namespace Bindery

namespace FileTree

variable {first second : FileTree} {places : Place → Prop} {path text : String} {start : Place}
  {parts : List String}

/-- The places that a path leads through, and the one that it leads to. -/
def way (path : String) : List Place :=
  (FilePath.parts path).scanl step []

/-- The same stands at certain places of two trees. -/
def SameAt (places : Place → Prop) (first second : FileTree) : Prop :=
  ∀ place, places place → first.node? place = second.node? place

/-- Two operations fail alike, or leave trees in which the same stands at certain places. -/
def EndsAlike (places : Place → Prop) (first second : Except FileError FileTree) : Prop :=
  (∃ cause, first = .error cause ∧ second = .error cause) ∨
    ∃ after after', first = .ok after ∧ second = .ok after' ∧ SameAt places after after'

/-! ## Looking -/

theorem start_mem_scanl : start ∈ parts.scanl step start := by
  cases parts <;> simp

/-- A path leads through where its first parts lead to. -/
theorem foldl_mem_scanl (start : Place) (front rest : List String) :
    front.foldl step start ∈ (front ++ rest).scanl step start := by
  induction front generalizing start with
  | nil => exact start_mem_scanl
  | cons part front ih =>
    rw [List.cons_append, List.scanl_cons]
    exact List.mem_cons_of_mem _ (ih _)

theorem scanl_subset (front rest : List String) :
    front.scanl step start ⊆ (front ++ rest).scanl step start := by
  induction front generalizing start with
  | nil => simpa using start_mem_scanl
  | cons part front ih =>
    rw [List.cons_append, List.scanl_cons, List.scanl_cons]
    exact List.cons_subset_cons _ ih

theorem place_mem_way (path : String) : place path ∈ way path := by
  have hlast := foldl_mem_scanl [] (FilePath.parts path) []
  rwa [List.append_nil] at hlast

theorem follow_way
    (same : ∀ place ∈ parts.scanl step start, first.node? place = second.node? place) :
    first.follow start parts = second.follow start parts := by
  induction parts generalizing start with
  | nil => rfl
  | cons part rest ih =>
    rw [List.scanl_cons] at same
    obtain ⟨hstart, hrest⟩ := List.forall_mem_cons.1 same
    rw [follow, follow, enter, enter, hstart, ih hrest]

variable (same : ∀ place ∈ way path, first.node? place = second.node? place)
include same

theorem find_way : first.find path = second.find path := by
  have hfollow : first.follow [] (FilePath.parts path) = second.follow [] (FilePath.parts path) :=
    follow_way same
  unfold find
  rw [hfollow]
  cases hfound : second.follow [] (FilePath.parts path) with
  | error => rfl
  | ok found =>
    obtain rfl : found = place path := follow_ok hfound
    dsimp only [bind, Except.bind]
    rw [same _ (place_mem_way path)]

theorem holds_way (text : String) : first.holds path text = second.holds path text := by
  unfold holds read
  rw [find_way same]

/-- Where a file can be written does not depend on more than its way. -/
theorem writable_way : first.writable path = second.writable path := by
  unfold writable
  dsimp only
  split
  · rfl
  · next name before hdrop =>
    -- The parts are those in front of the name, the name, and empty ones.
    have hparts : FilePath.parts path = before.reverse ++
        (name :: ((FilePath.parts path).reverse.takeWhile (·.isEmpty)).reverse) := by
      have hsplit := List.takeWhile_append_dropWhile (p := (·.isEmpty))
        (l := (FilePath.parts path).reverse)
      rw [hdrop] at hsplit
      have hreverse := congrArg List.reverse hsplit
      simpa using hreverse.symm
    have hbefore : ∀ place ∈ before.reverse.scanl step [], first.node? place = second.node? place :=
      fun place hplace => same place (by
        rw [way, hparts]
        exact scanl_subset _ _ hplace)
    rw [follow_way hbefore]
    cases hfound : second.follow [] before.reverse with
    | error => rfl
    | ok directory =>
      obtain rfl := follow_ok hfound
      have hdirectory := same (before.reverse.foldl step []) (by
        rw [way, hparts]
        exact foldl_mem_scanl _ _ _)
      have hname := same (step (before.reverse.foldl step []) name) (by
        have hlast := foldl_mem_scanl [] (before.reverse ++ [name])
          ((FilePath.parts path).reverse.takeWhile (·.isEmpty)).reverse
        rw [List.foldl_append, List.append_assoc] at hlast
        rw [way, hparts]
        exact hlast)
      have hnonempty : name ≠ "" := by
        rintro rfl
        have hhead := List.head?_dropWhile_not (·.isEmpty) (FilePath.parts path).reverse
        rw [hdrop] at hhead
        simp at hhead
      -- A single dot or two of them cannot be written, whatever stands there.
      have hguard : (name == "." || name == ".." ||
          (first.node? (before.reverse.foldl step [] ++ [name])).any (·.isDirectory)) =
          (name == "." || name == ".." ||
            (second.node? (before.reverse.foldl step [] ++ [name])).any (·.isDirectory)) := by
        by_cases hdot : name = "."
        · simp [hdot]
        by_cases hdots : name = ".."
        · simp [hdots]
        rw [step, if_neg (by simp [hnonempty, hdot]), if_neg hdots] at hname
        rw [hname]
      simp only [Bool.or_assoc] at hguard ⊢
      dsimp only [bind, Except.bind]
      rw [enter, enter, hdirectory, hguard]

omit same

/-! ## Changing -/

variable {places : Place → Prop} (alike : SameAt places first second)
include alike

theorem SameAt.put (target : Place) (node : FileNode) :
    SameAt places (first.put target node) (second.put target node) := by
  intro place hplace
  have hnode := alike place hplace
  unfold node? at hnode ⊢
  unfold FileTree.put
  split
  · rfl
  · next hroot =>
    rw [if_neg hroot, if_neg hroot] at hnode
    by_cases htarget : place = target
    · subst htarget
      rw [Keyed.find?_insert_self, Keyed.find?_insert_self]
    · rw [Keyed.find?_insert_of_ne _ _ htarget, Keyed.find?_insert_of_ne _ _ htarget, hnode]

theorem makeAlong_way (covers : ∀ place ∈ parts.scanl step start, places place) :
    EndsAlike places (first.makeAlong start parts) (second.makeAlong start parts) := by
  induction parts generalizing first second start with
  | nil => exact .inr ⟨first, second, rfl, rfl, alike⟩
  | cons part rest ih =>
    rw [List.scanl_cons] at covers
    have hrest := (List.forall_mem_cons.1 covers).2
    rw [makeAlong, makeAlong, alike _ (hrest _ start_mem_scanl)]
    split
    · exact ih alike hrest
    · exact .inl ⟨_, rfl, rfl⟩
    · exact ih (alike.put _ _) hrest

theorem write_way (covers : ∀ place ∈ way path, places place) (text : String) :
    EndsAlike places (first.write path text) (second.write path text) := by
  have hwritable : first.writable path = second.writable path :=
    writable_way fun place hplace => alike place (covers place hplace)
  unfold write
  rw [hwritable]
  cases second.writable path with
  | error cause => exact .inl ⟨cause, rfl, rfl⟩
  | ok place => exact .inr ⟨_, _, rfl, rfl, alike.put place _⟩

end FileTree

namespace Destination

open FileTree (SameAt way)

variable {first second : FileTree} {places : Place → Prop} {path : String}

/-- A directory is written to in the same way in trees in which the same stands on the way to it and
on that to the file. -/
theorem write_way (alike : SameAt places first second)
    (directory : ∀ place ∈ way path, places place)
    (artifact : Artifact)
    (file : ∀ place ∈ way (FilePath.join path artifact.name), places place) :
    ((Destination.directory path).write artifact first).2 =
        ((Destination.directory path).write artifact second).2 ∧
      SameAt places ((Destination.directory path).write artifact first).1
        ((Destination.directory path).write artifact second).1 := by
  have hholds := FileTree.holds_way (fun place hplace => alike place (file place hplace))
    artifact.contents
  unfold Destination.directory
  dsimp only
  rw [hholds]
  split
  · exact ⟨rfl, alike⟩
  · rcases FileTree.makeAlong_way alike directory with
      ⟨cause, hfirst, hsecond⟩ | ⟨made, made', hfirst, hsecond, hmade⟩
    · rw [FileTree.makeDirectory, FileTree.makeDirectory, hfirst, hsecond]
      exact ⟨rfl, alike⟩
    · rw [FileTree.makeDirectory, FileTree.makeDirectory, hfirst, hsecond]
      dsimp only
      rcases FileTree.write_way hmade file artifact.contents with
        ⟨cause, hfirst, hsecond⟩ | ⟨after, after', hfirst, hsecond, hafter⟩ <;>
        rw [hfirst, hsecond]
      · exact ⟨rfl, hmade⟩
      · exact ⟨rfl, hafter⟩

theorem writeAll_way (alike : SameAt places first second)
    (directory : ∀ place ∈ way path, places place) {artifacts : List Artifact}
    (files : ∀ artifact ∈ artifacts, ∀ place ∈ way (FilePath.join path artifact.name),
      places place) :
    ((Destination.directory path).writeAll artifacts first).2 =
        ((Destination.directory path).writeAll artifacts second).2 ∧
      SameAt places ((Destination.directory path).writeAll artifacts first).1
        ((Destination.directory path).writeAll artifacts second).1 := by
  induction artifacts generalizing first second with
  | nil => exact ⟨rfl, alike⟩
  | cons artifact rest ih =>
    obtain ⟨hfile, hrest⟩ := List.forall_mem_cons.1 files
    obtain ⟨hwrite, halike⟩ := write_way alike directory artifact hfile
    rw [writeAll, writeAll]
    rcases hfirst : (Destination.directory path).write artifact first with ⟨left, outcome⟩
    rcases hsecond : (Destination.directory path).write artifact second with ⟨left', outcome'⟩
    rw [hfirst, hsecond] at hwrite halike
    obtain rfl : outcome = outcome' := hwrite
    cases outcome with
    | error => exact ⟨rfl, halike⟩
    | ok => exact ih halike hrest

end Destination

namespace FileTree

theorem mem_scanl_concat {start place : Place} {front : List String} {last : String} :
    place ∈ (front ++ [last]).scanl step start ↔
      place ∈ front.scanl step start ∨ place = step (front.foldl step start) last := by
  induction front generalizing start with
  | nil => simp
  | cons part front ih =>
    rw [List.cons_append, List.scanl_cons, List.scanl_cons, List.mem_cons, List.mem_cons, ih,
      or_assoc]
    rfl

/-- The way to a plainly named file goes through its directory. -/
theorem mem_way_join {path name : String} (plain : IsPlain name) {place : Place}
    (h : place ∈ way (FilePath.join path name)) :
    place ∈ way path ∨ place = FileTree.place path ++ [name] := by
  have relative := isAbsolute_of_isPlain plain
  have hstep : ∀ start, step start name = start ++ [name] := fun start => by
    rw [step, if_neg (by simp [plain.1, plain.2.1]), if_neg plain.2.2.1]
  by_cases hempty : path = ""
  · subst hempty
    rw [join_empty, way, parts_of_isPlain plain, List.scanl_cons, List.scanl_nil, hstep] at h
    rcases List.mem_pair.1 h with rfl | rfl
    · exact .inl start_mem_scanl
    · exact .inr rfl
  · obtain ⟨front, -, hfront, hjoin⟩ := parts_join hempty
    rw [way, hjoin name relative, parts_of_isPlain plain, mem_scanl_concat, hstep] at h
    rw [way, FileTree.place]
    rcases hfront with hfront | hfront
    · rwa [hfront]
    · rw [hfront, mem_scanl_concat, List.foldl_concat, step_empty]
      exact h.imp_left .inl

end FileTree

end Bindery
