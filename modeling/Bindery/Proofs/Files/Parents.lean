import Bindery.Proofs.Files.Paths
/-!
# What lies beside a path

A name beside another in the same directory is found where it is found in the directory itself
(`find_beside`). Both paths are written in the same way, unless that of the directory ends in parts
that do not count (`beside_join`).
-/

namespace Bindery

namespace FilePath

open FileTree (IsPlain parts_join parts_slash parts_ne_nil parts_of_not_mem parts_of_isPlain
  isAbsolute_of_isPlain join_empty)

/-- The path of a name in the directory that a path lies in. -/
def beside (path name : String) : String :=
  join ((parent? path).getD path) name

/-- The last part of a path is a component, or the whole of it. -/
def EndsPlainly (path : String) : Prop :=
  ¬['/'] <:+ path.toList ∧ ¬['/', '.'] <:+ path.toList

instance (path : String) : Decidable (EndsPlainly path) :=
  inferInstanceAs (Decidable (_ ∧ _))

theorem EndsPlainly.counts {path last : String} {before : List String} (plainly : EndsPlainly path)
    (h : parts path = before ++ [last]) (hbefore : before ≠ []) : counts last = true := by
  have hpath := eq_of_parts_concat h hbefore
  have hlast : ('/' :: last.toList) <:+ path.toList := by
    rw [hpath]
    exact ⟨(String.intercalate "/" before).toList, by simp⟩
  unfold FilePath.counts
  rw [Bool.and_eq_true, bne_iff_ne, bne_iff_ne]
  constructor
  · rintro rfl
    exact plainly.1 hlast
  · rintro rfl
    exact plainly.2 hlast

/-! ## Trimming -/

theorem trim_cons_cons (part next : String) (before : List String) :
    parent?.trim (part :: next :: before) =
      if counts part then part :: next :: before else parent?.trim (next :: before) := by
  rw [parent?.trim]
  exact fun h => nomatch h

/-- Only parts that do not count are dropped from the end. -/
theorem exists_trimmed (reversed : List String) :
    ∃ dropped, reversed = dropped ++ parent?.trim reversed ∧
      ∀ part ∈ dropped, counts part = false := by
  induction reversed with
  | nil => exact ⟨[], rfl, List.forall_mem_nil _⟩
  | cons part before ih =>
    cases before with
    | nil => exact ⟨[], rfl, List.forall_mem_nil _⟩
    | cons next more =>
      rw [trim_cons_cons]
      split
      · exact ⟨[], rfl, List.forall_mem_nil _⟩
      · next hpart =>
        obtain ⟨dropped, hdropped, huncounted⟩ := ih
        exact ⟨part :: dropped, congrArg (part :: ·) hdropped,
          List.forall_mem_cons.2 ⟨by simpa using hpart, huncounted⟩⟩

/-- What is left ends in a component, or is a single part. -/
theorem counts_of_trim {reversed before : List String} {part next : String}
    (h : parent?.trim reversed = part :: next :: before) : counts part = true := by
  induction reversed with
  | nil => cases h
  | cons first rest ih =>
    cases rest with
    | nil => cases h
    | cons second more =>
      rw [trim_cons_cons] at h
      split at h
      · next hfirst =>
        obtain rfl := (List.cons.inj h).1
        exact hfirst
      · exact ih h

theorem trim_of_counts {part : String} (before : List String) (h : counts part = true) :
    parent?.trim (part :: before) = part :: before := by
  cases before with
  | nil => rfl
  | cons next more => rw [trim_cons_cons, if_pos h]

theorem trim_ne_nil {reversed : List String} (h : reversed ≠ []) :
    parent?.trim reversed ≠ [] := by
  induction reversed with
  | nil => exact absurd rfl h
  | cons part before ih =>
    cases before with
    | nil => exact List.cons_ne_nil _ _
    | cons next more =>
      rw [trim_cons_cons]
      split
      · exact List.cons_ne_nil _ _
      · exact ih (List.cons_ne_nil _ _)

/-! ## The parent -/

theorem components_ne_nil {path : String} (h : path ≠ "") : components path ≠ [] := by
  obtain ⟨first, rest, hparts⟩ := List.exists_cons_of_ne_nil (parts_ne_nil path)
  rw [components_of_parts hparts]
  split
  · exact List.cons_ne_nil _ _
  · split
    · next hempty =>
      have hrest : rest ≠ [] := by
        rintro rfl
        rw [hempty] at hparts
        exact h (parts_inj hparts)
      simp [hrest]
    · exact List.cons_ne_nil _ _

variable {directory name other : String}

theorem parent?_of_isPlain (plain : IsPlain name) : parent? name = some "" := by
  have hcomponents : components name = [name] := by
    rw [components_of_parts (parts_of_isPlain plain), if_neg plain.2.1, if_neg plain.1]
    rfl
  have hslash : name ≠ "/" := by
    rintro rfl
    exact plain.2.2.2 (by decide)
  unfold parent?
  rw [hcomponents]
  split
  · next h => cases h
  · next h => exact absurd (List.cons.inj h).1 hslash
  · rfl
  · next h => exact absurd rfl (h name)

/-- The parent of a name in a directory is the directory without what is trimmed from its end. -/
theorem parent?_join (hdirectory : directory ≠ "") (plain : IsPlain name) {front : List String}
    (hparts : parts (join directory name) = front ++ [name]) :
    parent? (join directory name) =
      some (if parent?.trim front.reverse = [""] then "/"
        else String.intercalate "/" (parent?.trim front.reverse).reverse) := by
  have hcomponents := components_join hdirectory (List.cons_ne_nil _ _)
    (List.forall_mem_singleton.2 plain)
  rw [String.intercalate_singleton] at hcomponents
  have hseveral : ∀ only, components (join directory name) ≠ [only] := by
    intro only h
    rw [hcomponents, List.append_eq_singleton_iff] at h
    rcases h with ⟨hbefore, -⟩ | ⟨-, hlast⟩
    · exact components_ne_nil hdirectory hbefore
    · exact List.cons_ne_nil _ _ hlast
  unfold parent?
  split
  · next h =>
    rw [hcomponents, List.append_eq_nil_iff] at h
    exact absurd h.2 (List.cons_ne_nil _ _)
  · next h => exact absurd h (hseveral _)
  · next h => exact absurd h (hseveral _)
  · rw [hparts, List.reverse_append, List.reverse_singleton, List.singleton_append,
      trim_of_counts _ (counts_of_isPlain plain), List.tail_cons]
    split
    · next h => rw [if_pos h]
    · next h => rw [if_neg h]

/-- The parts of what lies beside a name in a directory. -/
theorem parts_beside (hdirectory : directory ≠ "") (plain : IsPlain name) (hother : IsPlain other)
    {front : List String} (hfront : front ≠ [])
    (hparts : parts (join directory name) = front ++ [name]) :
    parts (beside (join directory name) other) =
      (parent?.trim front.reverse).reverse ++ [other] := by
  have relative := isAbsolute_of_isPlain hother
  unfold beside
  rw [parent?_join hdirectory plain hparts, Option.getD_some]
  split
  · next hroot =>
    have hjoin : join "/" other = "" ++ "/" ++ other := by
      unfold join
      rw [relative]
      rfl
    rw [hjoin, parts_slash, parts_of_isPlain hother, hroot]
    rfl
  · next hroot =>
    obtain ⟨dropped, hdropped, -⟩ := exists_trimmed front.reverse
    have hkept : (parent?.trim front.reverse).reverse ≠ [] :=
      mt List.reverse_eq_nil_iff.1 (trim_ne_nil (mt List.reverse_eq_nil_iff.1 hfront))
    have hsingle : ∀ part ∈ (parent?.trim front.reverse).reverse, '/' ∉ part.toList := by
      intro part hpart
      have hmem : part ∈ front.reverse := by
        rw [hdropped]
        exact List.mem_append_right _ (List.mem_reverse.1 hpart)
      have hwhole : part ∈ parts (join directory name) := by
        rw [hparts]
        exact List.mem_append_left _ (List.mem_reverse.1 hmem)
      exact slash_not_mem_of_mem_parts hwhole
    have hparent := parts_intercalate hkept hsingle
    have hnonempty : String.intercalate "/" (parent?.trim front.reverse).reverse ≠ "" := by
      intro hempty
      rw [hempty] at hparent
      exact hroot (List.reverse_eq_iff.1 hparent.symm)
    obtain ⟨before, hbefore, hsame | hslash, hjoin⟩ := parts_join hnonempty
    · rw [hjoin other relative, ← hsame, hparent, parts_of_isPlain hother]
    · -- What is trimmed ends in a component, and not in an empty part.
      rw [hparent, List.reverse_eq_iff, List.reverse_append] at hslash
      obtain ⟨next, more, hmore⟩ :=
        List.exists_cons_of_ne_nil (mt List.reverse_eq_nil_iff.1 hbefore)
      rw [hmore] at hslash
      exact absurd (counts_of_trim hslash) (by decide)

/-- A name beside another in a directory is found in the directory: the parts of its path are those
of the path in the directory, but for some that do not count. -/
theorem exists_parts_beside (directory : String) (plain : IsPlain name) (hother : IsPlain other) :
    ∃ kept dropped, (∀ part ∈ dropped, counts part = false) ∧
      parts (beside (join directory name) other) = kept ++ [other] ∧
      parts (join directory other) = kept ++ dropped ++ [other] ∧
      (EndsPlainly directory → dropped = []) := by
  by_cases hdirectory : directory = ""
  · refine ⟨[], [], List.forall_mem_nil _, ?_, ?_, fun _ => rfl⟩
    · unfold beside
      rw [hdirectory, join_empty, parent?_of_isPlain plain, Option.getD_some, join_empty,
        parts_of_isPlain hother]
      rfl
    · rw [hdirectory, join_empty, parts_of_isPlain hother]
      rfl
  · obtain ⟨front, hfront, hends, hjoin⟩ := parts_join hdirectory
    have hname := hjoin name (isAbsolute_of_isPlain plain)
    rw [parts_of_isPlain plain] at hname
    obtain ⟨dropped, hdropped, huncounted⟩ := exists_trimmed front.reverse
    have hkept : front = (parent?.trim front.reverse).reverse ++ dropped.reverse := by
      rw [← List.reverse_append, ← hdropped, List.reverse_reverse]
    refine ⟨_, dropped.reverse, fun part hpart => huncounted part (List.mem_reverse.1 hpart),
      parts_beside hdirectory plain hother hfront hname, ?_, fun plainly => ?_⟩
    · rw [hjoin other (isAbsolute_of_isPlain hother), parts_of_isPlain hother, ← hkept]
    · cases dropped with
      | nil => rfl
      | cons last more =>
        have huncounted := huncounted last List.mem_cons_self
        have hbefore : (more ++ parent?.trim front.reverse).reverse ≠ [] := by
          rw [Ne, List.reverse_eq_nil_iff, List.append_eq_nil_iff]
          exact fun h => trim_ne_nil (mt List.reverse_eq_nil_iff.1 hfront) h.2
        rcases hends with hends | hends
        · rw [List.cons_append] at hdropped
          rw [List.reverse_eq_iff.1 hdropped, List.reverse_cons] at hends
          exact absurd huncounted (by rw [plainly.counts hends hbefore]; decide)
        · exact absurd (plainly.counts hends hfront) (by decide)

/-- What lies beside a name in a directory is written as in the directory, if that ends plainly. -/
theorem beside_join (plain : IsPlain name) (hother : IsPlain other)
    (plainly : EndsPlainly directory) :
    beside (join directory name) other = join directory other := by
  obtain ⟨kept, dropped, -, hbeside, hjoin, hdropped⟩ := exists_parts_beside directory plain hother
  refine parts_inj ?_
  rw [hbeside, hjoin, hdropped plainly, List.append_nil]

end FilePath

namespace FileTree

variable {tree : FileTree} {directory name other : String}

theorem step_of_uncounted {part : String} (h : FilePath.counts part = false) (place : Place) :
    step place part = place := by
  refine if_pos ?_
  rw [FilePath.counts, Bool.and_eq_false_iff, bne_eq_false_iff_eq, bne_eq_false_iff_eq] at h
  exact h

/-- Parts that do not count lead nowhere else, as long as something follows them. -/
theorem follow_uncounted {start : Place} {dropped rest : List String} {next : String}
    (huncounted : ∀ part ∈ dropped, FilePath.counts part = false) :
    tree.follow start (dropped ++ next :: rest) = tree.follow start (next :: rest) := by
  induction dropped with
  | nil => rfl
  | cons part more ih =>
    obtain ⟨hpart, hmore⟩ := List.forall_mem_cons.1 huncounted
    rw [List.cons_append, follow, step_of_uncounted hpart, ih hmore, follow]
    cases tree.enter start <;> rfl

theorem follow_between {start : Place} {front dropped rest : List String} {next : String}
    (huncounted : ∀ part ∈ dropped, FilePath.counts part = false) :
    tree.follow start (front ++ dropped ++ next :: rest) =
      tree.follow start (front ++ next :: rest) := by
  induction front generalizing start with
  | nil => exact follow_uncounted huncounted
  | cons part more ih =>
    rw [List.cons_append, List.cons_append, List.cons_append, follow, follow, ih]

/-- What lies beside a name in a directory is what lies in the directory. -/
theorem find_beside (plain : IsPlain name) (hother : IsPlain other) :
    tree.find (FilePath.beside (FilePath.join directory name) other) =
      tree.find (FilePath.join directory other) := by
  obtain ⟨kept, dropped, huncounted, hbeside, hjoin, -⟩ :=
    FilePath.exists_parts_beside directory plain hother
  have hnonempty : ∀ {path : String} {front : List String},
      FilePath.parts path = front ++ [other] → path.isEmpty = false := by
    intro path front h
    rw [Bool.eq_false_iff]
    intro hempty
    have hparts : FilePath.parts "" = [""] := rfl
    rw [String.isEmpty_iff.1 hempty, hparts] at h
    have hlast := congrArg List.getLast? h
    rw [List.getLast?_concat] at hlast
    exact hother.1 (Option.some.inj hlast).symm
  unfold find
  rw [hnonempty hbeside, hnonempty hjoin, hbeside, hjoin, follow_between huncounted]

theorem isFile_beside (plain : IsPlain name) (hother : IsPlain other) :
    tree.isFile (FilePath.beside (FilePath.join directory name) other) =
      tree.isFile (FilePath.join directory other) := by
  unfold isFile
  rw [find_beside plain hother]

theorem read_beside (plain : IsPlain name) (hother : IsPlain other) :
    tree.read (FilePath.beside (FilePath.join directory name) other) =
      tree.read (FilePath.join directory other) := by
  unfold read
  rw [find_beside plain hother]

end FileTree

end Bindery
