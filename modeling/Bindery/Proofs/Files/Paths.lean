import Bindery.Proofs.Files.Tree
/-!
# The components of paths

Names that are joined to a directory are the components that lead on from it (`relative?_join`). The
extension of a name is what stands behind one of its dots (`eq_of_cutExtension`).
-/

namespace Bindery.FilePath

open FileTree (IsPlain parts_join parts_slash parts_ne_nil parts_of_not_mem isAbsolute_of_isPlain)

/-! ## Parts -/

/-- A path is its parts with slashes between them. -/
theorem intercalate_parts (path : String) : String.intercalate "/" (parts path) = path := by
  have hslash : ("/" : String).toList = ['/'] := rfl
  have hlists : String.toList ∘ String.ofList = id := funext fun cs => String.toList_ofList
  rw [← String.toList_inj, String.toList_intercalate, hslash, parts, List.map_map, hlists,
    List.map_id, Text.intercalate_splitAt]

theorem parts_inj {path other : String} (h : parts path = parts other) : path = other := by
  rw [← intercalate_parts path, h, intercalate_parts]

theorem slash_not_mem_of_mem_parts {path part : String} (h : part ∈ parts path) :
    '/' ∉ part.toList := by
  obtain ⟨cs, hcs, rfl⟩ := List.mem_map.1 h
  rw [String.toList_ofList]
  exact Text.not_mem_of_mem_splitAt hcs

/-- Names without slashes are the parts of the path that they make up. -/
theorem parts_intercalate {names : List String} (hnames : names ≠ [])
    (single : ∀ name ∈ names, '/' ∉ name.toList) :
    parts (String.intercalate "/" names) = names := by
  induction names with
  | nil => exact absurd rfl hnames
  | cons name rest ih =>
    obtain ⟨hname, hrest⟩ := List.forall_mem_cons.1 single
    cases rest with
    | nil => rw [String.intercalate_singleton, parts_of_not_mem hname]
    | cons next more =>
      rw [String.intercalate_cons_cons, parts_slash, parts_of_not_mem hname,
        ih (List.cons_ne_nil _ _) hrest]
      rfl

/-- A path of several parts ends in a slash and the last of them. -/
theorem eq_of_parts_concat {path last : String} {before : List String}
    (h : parts path = before ++ [last]) (hbefore : before ≠ []) :
    path = String.intercalate "/" before ++ "/" ++ last := by
  have hsingle : ∀ part ∈ before ++ [last], '/' ∉ part.toList := fun part hpart =>
    slash_not_mem_of_mem_parts (h ▸ hpart)
  rw [List.forall_mem_append, List.forall_mem_singleton] at hsingle
  refine parts_inj ?_
  rw [h, parts_slash, parts_intercalate hbefore hsingle.1, parts_of_not_mem hsingle.2]

/-! ## Components -/

theorem components_of_parts {path first : String} {rest : List String}
    (h : parts path = first :: rest) :
    components path =
      (if first = "." then ["."]
        else if first = "" then (if rest.isEmpty then [] else ["/"])
        else [first]) ++ rest.filter counts := by
  unfold components
  rw [h]
  split
  · next hparts =>
    obtain ⟨rfl, rfl⟩ := List.cons.inj hparts
    rfl
  · next hparts =>
    obtain ⟨rfl, rfl⟩ := List.cons.inj hparts
    rfl
  · next hdot hempty =>
    have hfirst : first ≠ "." := by
      rintro rfl
      exact hdot _ rfl
    have hfirst' : first ≠ "" := by
      rintro rfl
      exact hempty _ rfl
    rw [if_neg hfirst, if_neg hfirst', List.filter_cons_of_pos (by simp [counts, hfirst, hfirst'])]
    rfl

theorem counts_of_isPlain {name : String} (plain : IsPlain name) : counts name = true := by
  simp [counts, plain.1, plain.2.1]

/-- A path of names starts from no root. -/
theorem isAbsolute_intercalate {names : List String} (plain : ∀ name ∈ names, IsPlain name) :
    isAbsolute (String.intercalate "/" names) = false := by
  cases names with
  | nil => rfl
  | cons name rest =>
    obtain ⟨hname, -⟩ := List.forall_mem_cons.1 plain
    have hhead : (String.intercalate "/" (name :: rest)).toList.head? = name.toList.head? := by
      cases rest with
      | nil => rw [String.intercalate_singleton]
      | cons next more =>
        obtain ⟨c, cs, hcs⟩ := List.exists_cons_of_ne_nil (mt String.toList_eq_nil_iff.1 hname.1)
        rw [String.intercalate_cons_cons]
        simp [hcs]
    rw [isAbsolute, hhead]
    exact isAbsolute_of_isPlain hname

/-- Names that are joined to a directory lead on from it. -/
theorem components_join {directory : String} {names : List String} (hdirectory : directory ≠ "")
    (hnames : names ≠ []) (plain : ∀ name ∈ names, IsPlain name) :
    components (join directory (String.intercalate "/" names)) = components directory ++ names := by
  obtain ⟨front, hnonempty, hfront, hparts⟩ := parts_join hdirectory
  have hjoin := hparts _ (isAbsolute_intercalate plain)
  rw [parts_intercalate hnames fun name hname => (plain name hname).2.2.2] at hjoin
  have hcounts : names.filter counts = names :=
    List.filter_eq_self.2 fun name hname => counts_of_isPlain (plain name hname)
  obtain ⟨first, rest, rfl⟩ := List.exists_cons_of_ne_nil hnonempty
  -- The empty part at the end, if there is one, does not count.
  obtain ⟨more, hmore, hparts⟩ : ∃ more, more.filter counts = rest.filter counts ∧
      parts directory = first :: more := by
    rcases hfront with h | h
    · exact ⟨rest, rfl, h⟩
    · exact ⟨rest ++ [""], by simp [List.filter_append, counts], h⟩
  have hempty : first = "" → more ≠ [] := by
    rintro rfl rfl
    exact hdirectory (parts_inj hparts)
  rw [List.cons_append] at hjoin
  rw [components_of_parts hjoin, components_of_parts hparts, hmore, List.filter_append, hcounts,
    ← List.append_assoc]
  congr 2
  by_cases hfirst : first = ""
  · simp [hfirst, hempty hfirst, hnames]
  · simp [hfirst]

/-! ## Leading on from a directory -/

theorem relative?_eq_some_iff {directory path : String} {names : List String} :
    relative? directory path = some names ↔ components path = components directory ++ names := by
  unfold relative?
  dsimp only
  constructor
  · intro h
    split at h
    · next hprefix =>
      obtain ⟨rest, hrest⟩ := List.isPrefixOf_iff_prefix.1 hprefix
      rw [← hrest, List.drop_left, Option.some.injEq] at h
      rw [← hrest, h]
    · cases h
  · intro h
    rw [h, if_pos (List.isPrefixOf_iff_prefix.2 (List.prefix_append _ _)), List.drop_left]

/-- What leads from a directory to names that are joined to it is these names. -/
theorem relative?_join {directory : String} {names : List String} (hdirectory : directory ≠ "")
    (hnames : names ≠ []) (plain : ∀ name ∈ names, IsPlain name) :
    relative? directory (join directory (String.intercalate "/" names)) = some names :=
  relative?_eq_some_iff.2 (components_join hdirectory hnames plain)

theorem relative?_self (directory : String) : relative? directory directory = some [] :=
  relative?_eq_some_iff.2 (List.append_nil _).symm

/-! ## Extensions -/

/-- A name with an extension is its stem, a dot and the extension. -/
theorem eq_of_cutExtension {name stem extension : String}
    (h : cutExtension name = (stem, some extension)) : name = stem ++ "." ++ extension := by
  unfold cutExtension at h
  dsimp only at h
  have hcut := List.takeWhile_append_dropWhile (p := (· ≠ '.')) (l := name.toList.reverse)
  split at h
  · cases h
  · next c before hdrop =>
    split at h
    · cases h
    · obtain ⟨rfl, hextension⟩ := Prod.mk.inj h
      obtain rfl := Option.some.inj hextension
      have hbehind : name.toList.reverse.dropWhile (· ≠ '.') = c :: before := by
        rw [← hdrop]
        exact (List.drop_left.symm).trans (congrArg (List.drop _) hcut)
      obtain rfl : c = '.' := by
        have hhead := List.head?_dropWhile_not (· ≠ '.') name.toList.reverse
        rw [hbehind] at hhead
        simpa using hhead
      rw [hbehind] at hcut
      have hname := congrArg List.reverse hcut
      rw [List.reverse_reverse, List.reverse_append, List.reverse_cons] at hname
      rw [← String.toList_inj]
      simp only [String.toList_append, String.toList_ofList]
      exact hname.symm

/-- The extension of a path is that of the last name that leads to it. -/
theorem extension?_of_relative {directory path name extension : String} {before : List String}
    (hpath : relative? directory path = some (before ++ [name]))
    (h : extension? path = some extension) : (cutExtension name).2 = some extension := by
  have hlast : (components path).getLast? = some name := by
    rw [relative?_eq_some_iff.1 hpath, ← List.append_assoc, List.getLast?_concat]
  unfold extension? fileName? at h
  rw [hlast] at h
  dsimp only at h
  split at h
  · cases h
  · exact h

end Bindery.FilePath
