import Bindery.FileTree
import Mathlib.Data.List.Basic
/-!
# What operations leave in a tree of files

A path leads to one place in every tree in which it leads anywhere (`FileTree.place`). Making a
directory changes no file (`keeps_makeDirectory`). Writing a file changes that file alone, and what
is read under its path afterwards is what was written (`write_ok`).
-/

namespace Bindery.FileTree

variable {tree before after : FileTree} {path text : String}

/-- The place that a path leads to, if it leads anywhere. -/
def place (path : String) : Place :=
  (FilePath.parts path).foldl step []

/-- The bytes of the file at a place. -/
def file? (tree : FileTree) (place : Place) : Option ByteArray :=
  match tree.node? place with
  | some (.file bytes) => some bytes
  | _ => none

theorem file?_eq_some_iff {target : Place} {bytes : ByteArray} :
    tree.file? target = some bytes ↔ tree.node? target = some (.file bytes) := by
  unfold file?
  split
  · next found h => rw [h, Option.some.injEq, Option.some.injEq, FileNode.file.injEq]
  · next h => exact ⟨fun hnone => (nomatch hnone), fun hfile => absurd hfile (h bytes)⟩

theorem node?_put {target : Place} (h : target ≠ []) (node : FileNode) (place : Place) :
    (tree.put target node).node? place =
      if place = target then some node else tree.node? place := by
  unfold node? put
  by_cases hplace : place = target
  · subst hplace
    rw [if_neg h, if_pos rfl]
    exact Keyed.find?_insert_self _ _ _
  · rw [if_neg hplace]
    by_cases hroot : place = []
    · rw [if_pos hroot, if_pos hroot]
    · rw [if_neg hroot, if_neg hroot]
      exact Keyed.find?_insert_of_ne _ _ hplace

/-! ## Following a path -/

theorem enter_ok_iff {place : Place} :
    tree.enter place = .ok () ↔ tree.node? place = some .directory := by
  unfold enter
  split <;> simp_all

theorem follow_cons_ok_iff {place found : Place} {part : String} {rest : List String} :
    tree.follow place (part :: rest) = .ok found ↔
      tree.node? place = some .directory ∧ tree.follow (step place part) rest = .ok found := by
  rw [follow, ← enter_ok_iff]
  cases tree.enter place with
  | error cause => exact ⟨fun h => (nomatch h), fun h => (nomatch h.1)⟩
  | ok => exact ⟨fun h => ⟨rfl, h⟩, fun h => h.2⟩

theorem follow_ok {start found : Place} {parts : List String}
    (h : tree.follow start parts = .ok found) : found = parts.foldl step start := by
  induction parts generalizing start with
  | nil => exact (Except.ok.inj h).symm
  | cons part rest ih => exact ih (follow_cons_ok_iff.1 h).2

theorem follow_append_ok {start found : Place} {parts : List String}
    (h : tree.follow start parts = .ok found) (directory : tree.node? found = some .directory)
    (last : String) :
    tree.follow start (parts ++ [last]) = .ok (step found last) := by
  induction parts generalizing start with
  | nil =>
    obtain rfl := Except.ok.inj h
    exact follow_cons_ok_iff.2 ⟨directory, rfl⟩
  | cons part rest ih =>
    obtain ⟨hstart, hrest⟩ := follow_cons_ok_iff.1 h
    exact follow_cons_ok_iff.2 ⟨hstart, ih hrest⟩

theorem find_ok_iff {target : Place} {node : FileNode} :
    tree.find path = .ok (target, node) ↔
      path.isEmpty = false ∧ tree.follow [] (FilePath.parts path) = .ok target ∧
        tree.node? target = some node := by
  unfold find
  cases hempty : path.isEmpty with
  | true => exact ⟨fun h => (nomatch h), fun h => (nomatch h.1)⟩
  | false =>
    cases hfollow : tree.follow [] (FilePath.parts path) with
    | error cause => exact ⟨fun h => (nomatch h), fun h => (nomatch h.2.1)⟩
    | ok found =>
      dsimp only [bind, Except.bind]
      rw [if_neg Bool.false_ne_true]
      cases hnode : tree.node? found with
      | none =>
        refine ⟨fun h => (nomatch h), fun h => ?_⟩
        obtain rfl := Except.ok.inj h.2.1
        exact absurd (hnode.symm.trans h.2.2) (by simp)
      | some stands =>
        constructor
        · intro h
          obtain ⟨rfl, rfl⟩ := Prod.mk.inj (Except.ok.inj h)
          exact ⟨rfl, rfl, hnode⟩
        · rintro ⟨-, hfound, hstands⟩
          obtain rfl := Except.ok.inj hfound
          rw [hnode] at hstands
          rw [Option.some.inj hstands]
          rfl

/-! ## Reading -/

theorem fromUTF8?_eq_some_iff {bytes : ByteArray} :
    String.fromUTF8? bytes = some text ↔ bytes = text.toUTF8 := by
  unfold String.fromUTF8?
  constructor
  · intro h
    split at h
    · obtain rfl := Option.some.inj h
      rfl
    · cases h
  · rintro rfl
    exact dif_pos text.isValidUTF8

/-- A path leads to its place: the directories on the way exist. -/
def Leads (tree : FileTree) (path : String) : Prop :=
  path.isEmpty = false ∧ tree.follow [] (FilePath.parts path) = .ok (place path)

/-- A path is read as the text of the file that it leads to. -/
theorem read_ok_iff :
    tree.read path = .ok text ↔ tree.Leads path ∧ tree.file? (place path) = some text.toUTF8 := by
  have hread : tree.read path = .ok text ↔
      ∃ target, tree.find path = .ok (target, .file text.toUTF8) := by
    unfold read
    cases hfind : tree.find path with
    | error cause => exact ⟨fun h => (nomatch h), fun ⟨_, h⟩ => (nomatch h)⟩
    | ok found =>
      obtain ⟨target, _ | bytes⟩ := found
      swap
      · exact ⟨fun h => (nomatch h), fun ⟨_, h⟩ => (nomatch h)⟩
      · next bytes =>
        dsimp only [bind, Except.bind]
        constructor
        · intro h
          split at h
          · next found hfound =>
            obtain rfl := Except.ok.inj h
            exact ⟨target, by rw [fromUTF8?_eq_some_iff.1 hfound]⟩
          · cases h
        · rintro ⟨other, h⟩
          obtain ⟨-, hbytes⟩ := Prod.mk.inj (Except.ok.inj h)
          rw [fromUTF8?_eq_some_iff.2 (FileNode.file.inj hbytes)]
          rfl
  rw [hread]
  constructor
  · rintro ⟨target, hfind⟩
    obtain ⟨hempty, hfollow, hnode⟩ := find_ok_iff.1 hfind
    obtain rfl : target = place path := follow_ok hfollow
    exact ⟨⟨hempty, hfollow⟩, file?_eq_some_iff.2 hnode⟩
  · rintro ⟨⟨hempty, hfollow⟩, hfile⟩
    exact ⟨_, find_ok_iff.2 ⟨hempty, hfollow, file?_eq_some_iff.1 hfile⟩⟩

theorem file?_of_read (h : tree.read path = .ok text) :
    tree.file? (place path) = some text.toUTF8 :=
  (read_ok_iff.1 h).2

theorem holds_iff : tree.holds path text = true ↔ tree.read path = .ok text := by
  unfold holds
  cases tree.read path with
  | error cause => simp
  | ok found => simp

/-! ## What an operation keeps -/

/-- Every directory stays one, and a file stays as it is unless it is one of those that change. -/
structure Keeps (before after : FileTree) (changes : Place → Prop) : Prop where
  directories : ∀ place, before.node? place = some .directory →
    after.node? place = some .directory
  files : ∀ place, ¬changes place → after.file? place = before.file? place

namespace Keeps

variable {changes : Place → Prop}

theorem refl (tree : FileTree) (changes : Place → Prop) : Keeps tree tree changes :=
  ⟨fun _ h => h, fun _ _ => rfl⟩

theorem trans {between : FileTree} (first : Keeps before between changes)
    (second : Keeps between after changes) : Keeps before after changes where
  directories place h := second.directories place (first.directories place h)
  files place h := (second.files place h).trans (first.files place h)

theorem imp {more : Place → Prop} (h : Keeps before after changes)
    (himp : ∀ place, changes place → more place) : Keeps before after more :=
  ⟨h.directories, fun place hplace => h.files place fun hchanges => hplace (himp place hchanges)⟩

/-- A path that leads somewhere goes on leading there. -/
theorem follow (h : Keeps before after changes) {start found : Place} {parts : List String}
    (hfollow : before.follow start parts = .ok found) :
    after.follow start parts = .ok found := by
  induction parts generalizing start with
  | nil => exact hfollow
  | cons part rest ih =>
    obtain ⟨hstart, hrest⟩ := follow_cons_ok_iff.1 hfollow
    exact follow_cons_ok_iff.2 ⟨h.directories start hstart, ih hrest⟩

theorem leads (h : Keeps before after changes) (hleads : before.Leads path) :
    after.Leads path :=
  ⟨hleads.1, h.follow hleads.2⟩

end Keeps

theorem keeps_put_directory {target : Place} (h : tree.node? target = none) :
    Keeps tree (tree.put target .directory) fun _ => False := by
  have hroot : target ≠ [] := by
    rintro rfl
    cases h
  have hnode : ∀ place, (tree.put target .directory).node? place =
      if place = target then some .directory else tree.node? place := node?_put hroot _
  constructor
  · intro place hplace
    rw [hnode]
    split
    · rfl
    · exact hplace
  · intro place _
    unfold file?
    rw [hnode]
    by_cases hplace : place = target
    · rw [if_pos hplace, hplace, h]
    · rw [if_neg hplace]

/-- Making a directory changes no file. -/
theorem keeps_makeAlong {start : Place} {parts : List String}
    (h : tree.makeAlong start parts = .ok after) : Keeps tree after fun _ => False := by
  induction parts generalizing tree start with
  | nil =>
    obtain rfl := Except.ok.inj h
    exact .refl _ _
  | cons part rest ih =>
    rw [makeAlong] at h
    split at h
    · exact ih h
    · cases h
    · next hnone => exact (keeps_put_directory hnone).trans (ih h)

theorem keeps_makeDirectory (h : tree.makeDirectory path = .ok after) :
    Keeps tree after fun _ => False :=
  keeps_makeAlong h

/-! ## Writing -/

/-- What a path ends with if no slash ends it. -/
theorem parts_of_dropWhile {parts front : List String} {name : String}
    (h : parts.reverse.dropWhile (·.isEmpty) = name :: front)
    (trailing : parts.reverse.head? ≠ some "") : parts = front.reverse ++ [name] := by
  have hreverse : parts.reverse = name :: front := by
    cases hparts : parts.reverse with
    | nil =>
      rw [hparts] at h
      cases h
    | cons last before =>
      rw [hparts] at h trailing
      have hlast : ¬last.isEmpty = true := fun hempty =>
        trailing (congrArg some (String.isEmpty_iff.1 hempty))
      rwa [List.dropWhile_cons_of_neg hlast] at h
  rw [← List.reverse_reverse parts, hreverse, List.reverse_cons]

/-- Where a path can be written, its directory stands, and no directory stands in its place. -/
theorem writable_ok {target : Place} (h : tree.writable path = .ok target) :
    path.isEmpty = false ∧ tree.follow [] (FilePath.parts path) = .ok target ∧ target ≠ [] ∧
      tree.node? target ≠ some .directory := by
  have hempty : path.isEmpty = false := by
    cases hpath : path.isEmpty with
    | false => rfl
    | true =>
      obtain rfl : path = "" := String.isEmpty_iff.1 hpath
      cases h
  unfold writable at h
  dsimp only at h
  split at h
  · cases h
  · next name front hdrop =>
    cases hfollow : tree.follow [] front.reverse with
    | error cause =>
      rw [hfollow] at h
      cases h
    | ok directory =>
      rw [hfollow] at h
      change ((tree.enter directory).bind fun _ => _) = _ at h
      cases henter : tree.enter directory with
      | error cause =>
        rw [henter] at h
        cases h
      | ok =>
        rw [henter] at h
        change (if _ then _ else _) = _ at h
        split at h
        · cases h
        · next hname =>
          obtain rfl := Except.ok.inj h
          simp only [Bool.or_eq_true, beq_iff_eq, not_or] at hname
          obtain ⟨⟨⟨htrailing, hdot⟩, hdots⟩, hstands⟩ := hname
          have hparts := parts_of_dropWhile hdrop htrailing
          have hnonempty : name ≠ "" := by
            rintro rfl
            exact htrailing (by rw [hparts, List.reverse_append]; rfl)
          have hstep : step directory name = directory ++ [name] := by
            simp [step, hnonempty, hdot, hdots]
          rw [hparts, ← hstep]
          refine ⟨hempty, follow_append_ok hfollow (enter_ok_iff.1 henter) name,
            by simp [hstep], ?_⟩
          intro hdirectory
          rw [hstep] at hdirectory
          simp [hdirectory, FileNode.isDirectory] at hstands

/-- What is written is read afterwards, and no other file has changed. -/
theorem write_ok (h : tree.write path text = .ok after) :
    after.read path = .ok text ∧ Keeps tree after (· = place path) := by
  unfold write at h
  cases hwritable : tree.writable path with
  | error cause =>
    rw [hwritable] at h
    cases h
  | ok target =>
    obtain ⟨hempty, hfollow, hroot, hstands⟩ := writable_ok hwritable
    obtain rfl : target = place path := follow_ok hfollow
    have hnode : ∀ other, after.node? other =
        if other = place path then some (.file text.toUTF8) else tree.node? other := by
      rw [hwritable] at h
      obtain rfl := Except.ok.inj h
      exact node?_put hroot _
    have hkeeps : Keeps tree after (· = place path) := by
      constructor
      · intro other hother
        rw [hnode, if_neg (by rintro rfl; exact hstands hother), hother]
      · intro other hother
        unfold file?
        rw [hnode, if_neg hother]
    have hfile : after.file? (place path) = some text.toUTF8 := by
      rw [file?_eq_some_iff, hnode, if_pos rfl]
    exact ⟨read_ok_iff.2 ⟨⟨hempty, hkeeps.follow hfollow⟩, hfile⟩, hkeeps⟩

/-! ## Paths below a directory -/

theorem follow_append_iff {start found : Place} {first second : List String} :
    tree.follow start (first ++ second) = .ok found ↔
      ∃ between, tree.follow start first = .ok between ∧
        tree.follow between second = .ok found := by
  induction first generalizing start with
  | nil =>
    refine ⟨fun h => ⟨start, rfl, h⟩, fun ⟨between, hstart, h⟩ => ?_⟩
    obtain rfl := Except.ok.inj hstart
    exact h
  | cons part rest ih =>
    rw [List.cons_append, follow_cons_ok_iff, ih]
    constructor
    · rintro ⟨hstart, between, hrest, h⟩
      exact ⟨between, follow_cons_ok_iff.2 ⟨hstart, hrest⟩, h⟩
    · rintro ⟨between, hfirst, h⟩
      obtain ⟨hstart, hrest⟩ := follow_cons_ok_iff.1 hfirst
      exact ⟨hstart, between, hrest, h⟩

theorem parts_slash (directory name : String) :
    FilePath.parts (directory ++ "/" ++ name) =
      FilePath.parts directory ++ FilePath.parts name := by
  have hcs : (directory ++ "/" ++ name).toList = directory.toList ++ '/' :: name.toList := by simp
  unfold FilePath.parts
  rw [hcs, Text.splitAt_append_cons, List.map_append]

theorem parts_ne_nil (path : String) : FilePath.parts path ≠ [] := by
  unfold FilePath.parts
  rw [Ne, List.map_eq_nil_iff]
  exact Text.splitAt_ne_nil _ _

/-- What has no slash in it is a single part. -/
theorem parts_of_not_mem {name : String} (h : '/' ∉ name.toList) :
    FilePath.parts name = [name] := by
  unfold FilePath.parts
  rw [Text.splitAt_of_not_mem h, List.map_singleton, String.ofList_toList]

/-- Names that are joined to a directory have its parts in front of them, but for an empty one. -/
theorem parts_join {directory : String} (hdirectory : directory ≠ "") :
    ∃ front, front ≠ [] ∧
      (FilePath.parts directory = front ∨ FilePath.parts directory = front ++ [""]) ∧
      ∀ name, FilePath.isAbsolute name = false →
        FilePath.parts (FilePath.join directory name) = front ++ FilePath.parts name := by
  have hjoin : ∀ name, FilePath.isAbsolute name = false → FilePath.join directory name =
      if directory.toList.getLast? == some '/' then directory ++ name
      else directory ++ "/" ++ name := by
    intro name relative
    unfold FilePath.join
    rw [relative, Bool.false_or, if_neg (mt String.isEmpty_iff.1 hdirectory)]
  by_cases hslash : directory.toList.getLast? = some '/'
  · obtain ⟨front, hfront⟩ := List.getLast?_eq_some_iff.1 hslash
    refine ⟨FilePath.parts (String.ofList front), parts_ne_nil _, .inr ?_, fun name relative => ?_⟩
    · unfold FilePath.parts
      rw [hfront, String.toList_ofList, Text.splitAt_append_cons, List.map_append]
      rfl
    · have hcs : (directory ++ name).toList = front ++ '/' :: name.toList := by
        simp [hfront]
      rw [hjoin name relative, if_pos (beq_iff_eq.2 hslash)]
      unfold FilePath.parts
      rw [hcs, Text.splitAt_append_cons, List.map_append, String.toList_ofList]
  · refine ⟨FilePath.parts directory, parts_ne_nil _, .inl rfl, fun name relative => ?_⟩
    rw [hjoin name relative, if_neg (by simpa using hslash), parts_slash]

theorem join_empty (name : String) : FilePath.join "" name = name := by
  unfold FilePath.join
  rw [show ("" : String).isEmpty = true from rfl, Bool.or_true, if_pos rfl]

theorem step_empty (place : Place) : step place "" = place :=
  if_pos (.inl rfl)

/-- A name leads on from the directory that it is joined to, with whatever slashes between. -/
theorem place_join {directory name : String} (relative : FilePath.isAbsolute name = false) :
    place (FilePath.join directory name) = place (directory ++ "/" ++ name) := by
  unfold place
  rw [parts_slash, List.foldl_append]
  by_cases hempty : directory = ""
  · rw [hempty, join_empty]
    rfl
  · obtain ⟨front, -, hfront, hjoin⟩ := parts_join hempty
    rw [hjoin name relative, List.foldl_append]
    rcases hfront with hfront | hfront
    · rw [hfront]
    · rw [hfront, List.foldl_append, List.foldl_cons, List.foldl_nil, step_empty]

/-- What is read under a name in a directory is read with a further slash as well. -/
theorem read_slash {directory name : String} (relative : FilePath.isAbsolute name = false)
    (h : tree.read (FilePath.join directory name) = .ok text) :
    tree.read (directory ++ "/" ++ name) = .ok text := by
  obtain ⟨⟨-, hfollow⟩, hfile⟩ := read_ok_iff.1 h
  rw [place_join relative] at hfollow hfile
  refine read_ok_iff.2 ⟨⟨by simp, ?_⟩, hfile⟩
  rw [parts_slash]
  by_cases hempty : directory = ""
  · subst hempty
    rw [join_empty] at hfollow
    exact follow_cons_ok_iff.2 ⟨rfl, hfollow⟩
  obtain ⟨front, -, hfront, hjoin⟩ := parts_join hempty
  rw [hjoin name relative] at hfollow
  rcases hfront with hfront | hfront
  · rwa [hfront]
  · obtain ⟨between, hfirst, hname⟩ := follow_append_iff.1 hfollow
    -- The name is followed from a directory, and so the empty part before it can be.
    have hbetween : tree.node? between = some .directory := by
      obtain ⟨part, rest, hparts⟩ := List.exists_cons_of_ne_nil (parts_ne_nil name)
      rw [hparts] at hname
      exact (follow_cons_ok_iff.1 hname).1
    have hlast := follow_append_ok hfirst hbetween ""
    rw [step_empty] at hlast
    rw [hfront]
    exact follow_append_iff.2 ⟨between, hlast, hname⟩

/-- A name is that of something which lies directly in a directory. -/
def IsPlain (name : String) : Prop :=
  name ≠ "" ∧ name ≠ "." ∧ name ≠ ".." ∧ '/' ∉ name.toList

instance (name : String) : Decidable (IsPlain name) :=
  inferInstanceAs (Decidable (_ ∧ _))

theorem parts_of_isPlain {name : String} (plain : IsPlain name) : FilePath.parts name = [name] :=
  parts_of_not_mem plain.2.2.2

theorem isAbsolute_of_isPlain {name : String} (plain : IsPlain name) :
    FilePath.isAbsolute name = false := by
  unfold FilePath.isAbsolute
  rw [beq_eq_false_iff_ne]
  exact fun h => plain.2.2.2 (List.mem_of_head? h)

theorem place_of_isPlain (directory : String) {name : String} (plain : IsPlain name) :
    place (directory ++ "/" ++ name) = place directory ++ [name] := by
  unfold place
  rw [parts_slash, parts_of_isPlain plain, List.foldl_append]
  simp [step, plain.1, plain.2.1, plain.2.2.1]

/-- Where one name in a directory is led to, every other is. -/
theorem leads_of_leads {directory name other : String} (plain : IsPlain name)
    (hother : IsPlain other) (h : tree.Leads (directory ++ "/" ++ name)) :
    tree.Leads (directory ++ "/" ++ other) := by
  obtain ⟨-, hfollow⟩ := h
  rw [parts_slash, parts_of_isPlain plain] at hfollow
  obtain ⟨between, hdirectory, hname⟩ := follow_append_iff.1 hfollow
  refine ⟨by simp, ?_⟩
  have hfound := follow_append_ok hdirectory (follow_cons_ok_iff.1 hname).1 other
  rw [place, parts_slash, parts_of_isPlain hother, ← follow_ok (hfound)]
  exact hfound

/-- The text of the file at a place. -/
def textAt (files : Place → Option ByteArray) (place : Place) : Option String :=
  (files place).bind String.fromUTF8?

theorem textAt_eq_some_iff {files : Place → Option ByteArray} {place : Place} :
    textAt files place = some text ↔ files place = some text.toUTF8 := by
  unfold textAt
  rw [Option.bind_eq_some_iff]
  constructor
  · rintro ⟨bytes, hbytes, htext⟩
    rw [hbytes, fromUTF8?_eq_some_iff.1 htext]
  · exact fun h => ⟨_, h, fromUTF8?_eq_some_iff.2 rfl⟩

end Bindery.FileTree
