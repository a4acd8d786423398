import Bindery.Proofs.Files.Selection
import Bindery.Proofs.Survey.Walk
import Mathlib.Data.List.Induction
import Mathlib.Data.List.Nodup
/-!
# What a collection of files holds

The paths below a root with an extension come in the order of their components, each once, and in
that order whatever order the tree keeps its nodes in (`eq_of_ascending`). All files with the
extension are among them. So are directories that are named like files, and where there is one, a
survey fails (`netTree_unreadable`).
-/

namespace Bindery

/-! ## The order of paths -/

namespace FilePath

variable {first second : String}

/-- A path comes before another one: its components are less, name by name. -/
def Before (first second : String) : Prop :=
  (components first).lex (components second) = true

theorem precedes_iff : precedes first second = true ↔ ¬Before second first := by
  rw [precedes, Before, Bool.not_eq_true', Bool.not_eq_true]

theorem not_before_self (path : String) : ¬Before path path := by
  rw [Before, List.lex_eq_true_iff_lt]
  exact List.lt_irrefl _

theorem Before.asymm (h : Before first second) : ¬Before second first := by
  rw [Before, List.lex_eq_true_iff_lt] at h ⊢
  exact fun hback => List.lt_irrefl _ (List.lt_trans h hback)

theorem precedes_trans (first second third : String) :
    precedes first second = true → precedes second third = true →
      precedes first third = true := by
  simp only [precedes_iff, Before, List.lex_eq_true_iff_lt, List.not_lt]
  exact List.le_trans

theorem precedes_total (first second : String) :
    (precedes first second || precedes second first) = true := by
  simp only [Bool.or_eq_true, precedes_iff, Before, List.lex_eq_true_iff_lt, List.not_lt]
  exact List.le_total _ _

theorem before_of_precedes (h : precedes first second = true)
    (different : components first ≠ components second) : Before first second := by
  by_contra hnot
  simp only [precedes_iff, Before, List.lex_eq_true_iff_lt, List.not_lt] at h hnot
  exact different (List.le_antisymm h hnot)

/-- Paths with different components come one before the other once they are sorted. -/
theorem before_mergeSort {paths : List String} (distinct : (paths.map components).Nodup) :
    (paths.mergeSort precedes).Pairwise Before := by
  have hsorted : (paths.mergeSort precedes).Pairwise (precedes · · = true) :=
    List.pairwise_mergeSort precedes_trans precedes_total paths
  have hperm : ((paths.mergeSort precedes).map components).Perm (paths.map components) :=
    (List.mergeSort_perm paths precedes).map components
  have hdistinct : ((paths.mergeSort precedes).map components).Pairwise (· ≠ ·) :=
    hperm.nodup_iff.2 distinct
  rw [List.pairwise_map] at hdistinct
  exact (hsorted.and hdistinct).imp fun h => before_of_precedes h.1 h.2

theorem nodup_of_ascending {paths : List String} (h : paths.Pairwise Before) : paths.Nodup := by
  refine h.imp fun {path _} hbefore => ?_
  rintro rfl
  exact not_before_self path hbefore

/-- There is one way only to put the same paths into their order. -/
theorem eq_of_ascending {paths others : List String} (h : paths.Pairwise Before)
    (h' : others.Pairwise Before) (same : ∀ path, path ∈ paths ↔ path ∈ others) :
    paths = others :=
  have hperm := (List.perm_ext_iff_of_nodup (nodup_of_ascending h) (nodup_of_ascending h')).2 same
  hperm.eq_of_pairwise (fun _ _ _ _ hbefore hback => absurd hback hbefore.asymm) h h'

end FilePath

/-- Different keys have their values from their own entries. -/
theorem Keyed.find?_eq_some_iff {κ α : Type} [DecidableEq κ] {entries : List (κ × α)} {key : κ}
    {value : α} (distinct : (keys entries).Nodup) :
    find? entries key = some value ↔ (key, value) ∈ entries := by
  induction entries with
  | nil => simp [find?]
  | cons entry rest ih =>
    obtain ⟨other, old⟩ := entry
    obtain ⟨hfresh, hrest⟩ := List.nodup_cons.1 distinct
    by_cases hkey : other = key
    · subst hkey
      have hmem : (other, value) ∉ rest := fun hmem =>
        hfresh (List.mem_map.2 ⟨(other, value), hmem, rfl⟩)
      simp [find?, hmem, eq_comm]
    · simp [find?, hkey, ih hrest, Ne.symm hkey]

/-- Entries that a filter keeps by their keys are found as before. -/
theorem Keyed.find?_filter {κ α : Type} [DecidableEq κ] {entries : List (κ × α)} (keep : κ → Bool)
    {key : κ} (h : keep key = true) :
    find? (entries.filter fun (other, _) => keep other) key = find? entries key := by
  induction entries with
  | nil => rfl
  | cons entry rest ih =>
    obtain ⟨other, value⟩ := entry
    by_cases hkeep : keep other = true
    · simp [hkeep, find?, ih]
    · have hne : other ≠ key := fun heq => hkeep (heq ▸ h)
      simp [hkeep, find?, hne, ih]

namespace FileTree

/-! ## Trees in which everything stands in a directory -/

/-- Names are those of things in a directory, each place is kept once, and everything stands in a
directory. -/
structure IsProper (tree : FileTree) : Prop where
  named : tree.IsNamed
  distinct : (Keyed.keys tree.nodes).Nodup
  closed : ∀ place ∈ Keyed.keys tree.nodes,
    (tree.node? place.dropLast).any FileNode.isDirectory = true

theorem isProper_empty : empty.IsProper :=
  ⟨isNamed_empty, List.nodup_nil, fun _ h => nomatch h⟩

variable {tree after : FileTree} {root file text : String} {start names : Place} {node : FileNode}

theorem any_isDirectory_iff {node? : Option FileNode} :
    node?.any FileNode.isDirectory = true ↔ node? = some .directory := by
  match node? with
  | none => simp
  | some (.file _) => simp [FileNode.isDirectory]
  | some .directory => simp [FileNode.isDirectory]

theorem node?_eq_some_iff {place : Place} (distinct : (Keyed.keys tree.nodes).Nodup)
    (hplace : place ≠ []) : tree.node? place = some node ↔ (place, node) ∈ tree.nodes := by
  rw [node?, if_neg hplace]
  exact Keyed.find?_eq_some_iff distinct

theorem mem_keys_of_node? {place : Place} (hplace : place ≠ []) (h : tree.node? place = some node) :
    place ∈ Keyed.keys tree.nodes := by
  rw [node?, if_neg hplace] at h
  exact (Keyed.find?_isSome_iff _ _).1 (by rw [h]; rfl)

namespace IsProper

theorem node?_dropLast (proper : tree.IsProper) {place : Place}
    (h : tree.node? place = some node) : tree.node? place.dropLast = some .directory := by
  by_cases hplace : place = []
  · subst hplace
    rfl
  · exact any_isDirectory_iff.1 (proper.closed place (mem_keys_of_node? hplace h))

/-- What is put into a directory stands there, and what stood below it still does. -/
theorem put (proper : tree.IsProper) {target : Place} (hroot : target ≠ [])
    (plain : ∀ name ∈ target, IsPlain name)
    (parent : tree.node? target.dropLast = some .directory)
    (stays : tree.node? target = some .directory → node = .directory) :
    (tree.put target node).IsProper where
  named := proper.named.put plain node
  distinct := Keyed.nodup_keys_insert proper.distinct _ _
  closed place hplace := by
    rw [any_isDirectory_iff, node?_put hroot]
    rcases (Keyed.mem_keys_insert _ _ _ _).1 hplace with rfl | hplace
    · have hne : place.dropLast ≠ place := fun heq => by
        have hlength := congrArg List.length heq
        have hpos := List.length_pos_iff.2 hroot
        rw [List.length_dropLast] at hlength
        omega
      rwa [if_neg hne]
    · have hdirectory := any_isDirectory_iff.1 (proper.closed place hplace)
      split
      · next heq =>
        rw [heq] at hdirectory
        rw [stays hdirectory]
      · exact hdirectory

/-- A step from a directory leads to something that would stand in a directory. -/
theorem node?_step (proper : tree.IsProper) (h : tree.node? start = some .directory)
    (part : String) : tree.node? (step start part).dropLast = some .directory := by
  have hparent := proper.node?_dropLast h
  unfold step
  split
  · exact hparent
  · split
    · exact proper.node?_dropLast hparent
    · rwa [List.dropLast_concat]

theorem node?_follow (proper : tree.IsProper) {parts : List String} {found : Place}
    (hstart : tree.node? start.dropLast = some .directory)
    (h : tree.follow start parts = .ok found) : tree.node? found.dropLast = some .directory := by
  induction parts generalizing start with
  | nil =>
    obtain rfl := Except.ok.inj h
    exact hstart
  | cons part rest ih =>
    obtain ⟨hdirectory, hrest⟩ := follow_cons_ok_iff.1 h
    exact ih (proper.node?_step hdirectory part) hrest

theorem makeAlong (proper : tree.IsProper) {parts : List String}
    (plain : ∀ name ∈ start, IsPlain name) (single : ∀ part ∈ parts, '/' ∉ part.toList)
    (hstart : tree.node? start = some .directory)
    (h : tree.makeAlong start parts = .ok after) : after.IsProper := by
  induction parts generalizing tree start with
  | nil =>
    obtain rfl := Except.ok.inj h
    exact proper
  | cons part rest ih =>
    obtain ⟨hpart, hrest⟩ := List.forall_mem_cons.1 single
    have hsingle : ∀ other ∈ [part], '/' ∉ other.toList := List.forall_mem_singleton.2 hpart
    have hnext : ∀ name ∈ step start part, IsPlain name := isPlain_of_mem_steps plain hsingle
    rw [FileTree.makeAlong] at h
    split at h
    · next hdirectory => exact ih proper hnext hrest hdirectory h
    · cases h
    · next hnone =>
      have hroot : step start part ≠ [] := fun hnil => by
        rw [hnil] at hnone
        cases hnone
      have hput := proper.put hroot hnext (proper.node?_step hstart part) fun _ => rfl
      refine ih hput hnext hrest ?_ h
      rw [node?_put hroot, if_pos rfl]

theorem makeDirectory (proper : tree.IsProper) (h : tree.makeDirectory root = .ok after) :
    after.IsProper :=
  proper.makeAlong (List.forall_mem_nil _) (fun _ => FilePath.slash_not_mem_of_mem_parts) rfl h

theorem write (proper : tree.IsProper) (h : tree.write file text = .ok after) :
    after.IsProper := by
  unfold FileTree.write at h
  cases hwritable : tree.writable file with
  | error cause =>
    rw [hwritable] at h
    cases h
  | ok target =>
    obtain ⟨-, hfollow, hroot, hstands⟩ := writable_ok hwritable
    obtain rfl : target = place file := follow_ok hfollow
    rw [hwritable] at h
    obtain rfl := Except.ok.inj h
    have hparent : tree.node? (place file).dropLast = some .directory :=
      proper.node?_follow rfl hfollow
    have hput : (tree.put (place file) (.file text.toUTF8)).IsProper :=
      proper.put hroot (fun _ => isPlain_of_mem_place) hparent
        fun hdirectory => absurd hdirectory hstands
    exact ⟨hput.named, hput.distinct, hput.closed⟩

theorem remove (proper : tree.IsProper) (h : tree.remove file = .ok after) : after.IsProper := by
  have hnamed := proper.named.remove h
  unfold FileTree.remove at h
  cases hfind : tree.find file with
  | error cause =>
    rw [hfind] at h
    cases h
  | ok found =>
    obtain ⟨target, node⟩ := found
    rw [hfind] at h
    obtain rfl := Except.ok.inj h
    refine ⟨hnamed, proper.distinct.sublist (List.filter_sublist.map _), fun place hplace => ?_⟩
    obtain ⟨entry, hentry, rfl⟩ := List.mem_map.1 hplace
    obtain ⟨hmem, houtside⟩ := List.mem_filter.1 hentry
    have hdirectory := any_isDirectory_iff.1 (proper.closed _ (List.mem_map_of_mem hmem))
    -- What stays is not below what goes, and so neither is the directory that it stands in.
    have hparent : (!target.isPrefixOf entry.1.dropLast) = true := by
      rw [Bool.not_eq_true', ← Bool.not_eq_true, List.isPrefixOf_iff_prefix] at houtside ⊢
      exact fun hinside => houtside (hinside.trans (List.dropLast_prefix _))
    rw [any_isDirectory_iff, node?]
    rw [node?] at hdirectory
    split
    · rfl
    · next hplace =>
      rw [if_neg hplace] at hdirectory
      exact (Keyed.find?_filter (!target.isPrefixOf ·) hparent).trans hdirectory

/-- The names that lead on to something can be followed. -/
theorem follow_names (proper : tree.IsProper) (plain : ∀ name ∈ names, IsPlain name)
    (h : tree.node? (start ++ names) = some node) :
    tree.follow start names = .ok (start ++ names) := by
  induction names using List.reverseRec generalizing node with
  | nil => rw [List.append_nil]; rfl
  | append_singleton before last ih =>
    have hbefore : tree.node? (start ++ before) = some .directory := by
      have hparent := proper.node?_dropLast h
      rwa [← List.append_assoc, List.dropLast_concat] at hparent
    have hlast := plain last (by simp)
    rw [follow_append_ok (ih (fun name hname => plain name (by simp [hname])) hbefore) hbefore,
      step, if_neg (by simp [hlast.1, hlast.2.1]), if_neg hlast.2.2.1, List.append_assoc]

theorem isPlain_of_node? (proper : tree.IsProper) (hnames : names ≠ [])
    (h : tree.node? (start ++ names) = some node) : ∀ name ∈ names, IsPlain name := by
  have hmem := mem_keys_of_node? (by simp [hnames]) h
  exact fun name hname => proper.named _ hmem name (List.mem_append_right _ hname)

/-- What stands below a directory is found under the names that lead there. -/
theorem find_join (proper : tree.IsProper) (directory : tree.find root = .ok (start, .directory))
    (hnames : names ≠ []) (h : tree.node? (start ++ names) = some node) :
    tree.find (FilePath.join root (String.intercalate "/" names)) = .ok (start ++ names, node) := by
  have plain := proper.isPlain_of_node? hnames h
  have hfollow := proper.follow_names plain h
  obtain ⟨hempty, hroot, hstart⟩ := find_ok_iff.1 directory
  have hrootempty : root ≠ "" := fun heq => by simp [heq] at hempty
  obtain ⟨front, hnonempty, hfront, hparts⟩ := parts_join hrootempty
  have hjoin := hparts _ (FilePath.isAbsolute_intercalate plain)
  rw [FilePath.parts_intercalate hnames fun name hname => (plain name hname).2.2.2] at hjoin
  refine find_ok_iff.2 ⟨?_, ?_, h⟩
  · rw [← Bool.not_eq_true, String.isEmpty_iff]
    intro heq
    rw [heq] at hjoin
    have hlength := congrArg List.length hjoin
    rw [List.length_append] at hlength
    have hfront := List.length_pos_iff.2 hnonempty
    have hlast := List.length_pos_iff.2 hnames
    have hsingle : (FilePath.parts "").length = 1 := rfl
    omega
  · rw [hjoin]
    refine follow_append_iff.2 ⟨start, ?_, hfollow⟩
    rcases hfront with hfront | hfront
    · rwa [hfront] at hroot
    · rw [hfront] at hroot
      obtain ⟨between, hfirst, hlast⟩ := follow_append_iff.1 hroot
      rw [follow_cons_ok_iff, step_empty] at hlast
      rwa [Except.ok.inj hlast.2] at hfirst

end IsProper

/-! ## What a walk meets -/

theorem mem_below (distinct : (Keyed.keys tree.nodes).Nodup)
    (directory : tree.find root = .ok (start, .directory)) :
    (names, node) ∈ tree.below root ↔
      names ≠ [] ∧ tree.node? (start ++ names) = some node := by
  unfold below
  rw [directory]
  simp only [List.mem_map, List.mem_filter, Bool.and_eq_true, bne_iff_ne,
    List.isPrefixOf_iff_prefix]
  constructor
  · rintro ⟨⟨_, stands⟩, ⟨hmem, ⟨rest, rfl⟩, hne⟩, hentry⟩
    obtain ⟨hnames, rfl⟩ := Prod.mk.inj hentry
    rw [List.drop_left] at hnames
    subst hnames
    have hrest : rest ≠ [] := fun hnil => hne (by rw [hnil, List.append_nil])
    exact ⟨hrest, (node?_eq_some_iff distinct (by simp [hrest])).2 hmem⟩
  · rintro ⟨hnames, h⟩
    rw [node?_eq_some_iff distinct (by simp [hnames])] at h
    exact ⟨(start ++ names, node), ⟨h, List.prefix_append _ _, by simpa using hnames⟩,
      by rw [List.drop_left]⟩

theorem read_directory (h : tree.find file = .ok (start, .directory)) :
    tree.read file = .error .isDirectory := by
  rw [read, h]
  rfl

theorem read_file {bytes : ByteArray} (h : tree.find file = .ok (start, .file bytes)) :
    tree.read file =
      match String.fromUTF8? bytes with
      | some text => .ok text
      | none => .error .notText := by
  rw [read, h]
  rfl

/-- A path below a directory leads on by names, to something that stands there. -/
def StandsBelow (tree : FileTree) (root : String) (start : Place) (file : String)
    (node : FileNode) : Prop :=
  ∃ names, names ≠ [] ∧ tree.node? (start ++ names) = some node ∧
    file = FilePath.join root (String.intercalate "/" names)

theorem mem_walk_iff (distinct : (Keyed.keys tree.nodes).Nodup)
    (directory : tree.find root = .ok (start, .directory)) :
    file ∈ tree.walk root ↔ file = root ∨ ∃ node, tree.StandsBelow root start file node := by
  unfold walk
  rw [directory]
  simp only [List.mem_cons, List.mem_map, Prod.exists, StandsBelow, mem_below distinct directory]
  refine or_congr_right ⟨?_, ?_⟩
  · rintro ⟨names, node, ⟨hnames, h⟩, rfl⟩
    exact ⟨node, names, hnames, h, rfl⟩
  · rintro ⟨node, names, hnames, h, rfl⟩
    exact ⟨names, node, ⟨hnames, h⟩, rfl⟩

namespace IsProper

/-- What is met below the root is different from it, and from all else that is met. -/
theorem nodup_walk (proper : tree.IsProper)
    (directory : tree.find root = .ok (start, .directory)) :
    ((tree.walk root).map FilePath.components).Nodup := by
  have hroot : root ≠ "" := by
    rintro rfl
    cases directory
  have hcomponents : ∀ entry ∈ tree.below root,
      FilePath.components (FilePath.join root (String.intercalate "/" entry.1)) =
        FilePath.components root ++ entry.1 := fun entry hentry => by
    obtain ⟨hnames, hnode⟩ := (mem_below proper.distinct directory).1 hentry
    exact FilePath.components_join hroot hnames (proper.isPlain_of_node? hnames hnode)
  have hwalk : (tree.walk root).map FilePath.components =
      FilePath.components root ::
        ((tree.below root).map (·.1)).map (FilePath.components root ++ ·) := by
    unfold walk
    rw [directory, List.map_cons, List.map_map, List.map_map]
    exact congrArg _ (List.map_congr_left hcomponents)
  have hbelow : ((tree.below root).map (·.1)).Nodup := by
    unfold below
    rw [directory]
    dsimp only
    rw [List.map_map]
    refine List.Nodup.map_on ?_ ((List.Nodup.of_map _ proper.distinct).filter _)
    rintro first hfirst second hsecond heq
    obtain ⟨hfirst, hbelow⟩ := List.mem_filter.1 hfirst
    obtain ⟨hsecond, hbelow'⟩ := List.mem_filter.1 hsecond
    rw [Bool.and_eq_true, List.isPrefixOf_iff_prefix] at hbelow hbelow'
    refine List.inj_on_of_nodup_map proper.distinct hfirst hsecond ?_
    rw [← List.prefix_iff_eq_append.1 hbelow.1, ← List.prefix_iff_eq_append.1 hbelow'.1]
    exact congrArg (start ++ ·) heq
  rw [hwalk, List.nodup_cons]
  refine ⟨fun hmem => ?_, hbelow.map (List.append_right_injective _)⟩
  obtain ⟨names, hnames, heq⟩ := List.mem_map.1 hmem
  obtain ⟨entry, hentry, rfl⟩ := List.mem_map.1 hnames
  exact ((mem_below proper.distinct directory).1 hentry).1 (List.append_right_eq_self.1 heq)

/-- What stands at the end of a path below a directory is found there. -/
theorem find_below (proper : tree.IsProper) (directory : tree.find root = .ok (start, .directory))
    (h : tree.StandsBelow root start file node) : ∃ place, tree.find file = .ok (place, node) := by
  obtain ⟨names, hnames, hnode, rfl⟩ := h
  exact ⟨_, proper.find_join directory hnames hnode⟩

/-- The files that a walk meets are the files below its root. -/
theorem isFile_of_mem_walk (proper : tree.IsProper)
    (directory : tree.find root = .ok (start, .directory)) :
    file ∈ tree.walk root ∧ tree.isFile file = true ↔
      ∃ bytes, tree.StandsBelow root start file (.file bytes) := by
  rw [mem_walk_iff proper.distinct directory, isFile]
  constructor
  · rintro ⟨rfl | ⟨node, hbelow⟩, hfile⟩
    · rw [directory] at hfile
      cases hfile
    · obtain ⟨place, hfind⟩ := proper.find_below directory hbelow
      rw [hfind] at hfile
      cases node with
      | file bytes => exact ⟨bytes, hbelow⟩
      | directory => cases hfile
  · rintro ⟨bytes, hbelow⟩
    obtain ⟨place, hfind⟩ := proper.find_below directory hbelow
    rw [hfind]
    exact ⟨.inr ⟨_, hbelow⟩, rfl⟩

/-- What a walk meets cannot be read for one of two reasons. -/
theorem read_error (proper : tree.IsProper) (directory : tree.find root = .ok (start, .directory))
    (hmet : file ∈ tree.walk root) {cause : FileError} (h : tree.read file = .error cause) :
    (∃ bytes, tree.StandsBelow root start file (.file bytes) ∧
        String.fromUTF8? bytes = none ∧ cause = .notText) ∨
      ((file = root ∨ tree.StandsBelow root start file .directory) ∧ cause = .isDirectory) := by
  rcases (mem_walk_iff proper.distinct directory).1 hmet with rfl | ⟨node, hbelow⟩
  · rw [read_directory directory] at h
    exact .inr ⟨.inl rfl, (Except.error.inj h).symm⟩
  · obtain ⟨place, hfind⟩ := proper.find_below directory hbelow
    cases node with
    | directory =>
      rw [read_directory hfind] at h
      exact .inr ⟨.inr hbelow, (Except.error.inj h).symm⟩
    | file bytes =>
      rw [read_file hfind] at h
      cases htext : String.fromUTF8? bytes with
      | none =>
        rw [htext] at h
        exact .inl ⟨bytes, hbelow, htext, (Except.error.inj h).symm⟩
      | some text =>
        rw [htext] at h
        cases h

end IsProper

/-! ## What is collected -/

variable {extension : String}

theorem mem_withExtension : file ∈ tree.withExtension root extension ↔
    file ∈ tree.walk root ∧ FilePath.extension? file = some extension := by
  rw [withExtension, List.mem_mergeSort, List.mem_filter, beq_iff_eq]

theorem IsProper.before_withExtension (proper : tree.IsProper)
    (directory : tree.find root = .ok (start, .directory)) :
    (tree.withExtension root extension).Pairwise FilePath.Before :=
  FilePath.before_mergeSort
    ((proper.nodup_walk directory).sublist (List.filter_sublist.map _))

/-! ## The order of the nodes -/

section
variable {other : FileTree}

theorem find_congr (same : ∀ place, other.node? place = tree.node? place) (path : String) :
    other.find path = tree.find path := by
  have hfollow : ∀ parts start, other.follow start parts = tree.follow start parts := by
    intro parts
    induction parts with
    | nil => exact fun _ => rfl
    | cons part rest ih =>
      intro start
      rw [follow, follow, enter, enter, same]
      exact bind_congr fun _ => ih _
  unfold find
  rw [hfollow]
  simp only [same]

theorem keys_perm (h : other.nodes.Perm tree.nodes) :
    (Keyed.keys other.nodes).Perm (Keyed.keys tree.nodes) :=
  h.map _

/-- The same nodes in another order are the same tree to every path. -/
theorem node?_of_perm (distinct : (Keyed.keys tree.nodes).Nodup)
    (h : other.nodes.Perm tree.nodes) (place : Place) : other.node? place = tree.node? place := by
  have hdistinct : (Keyed.keys other.nodes).Nodup := (keys_perm h).nodup_iff.2 distinct
  by_cases hplace : place = []
  · rw [node?, node?, if_pos hplace, if_pos hplace]
  · refine Option.ext fun node => ?_
    rw [node?_eq_some_iff hdistinct hplace, node?_eq_some_iff distinct hplace]
    exact h.mem_iff

theorem IsProper.of_perm (proper : tree.IsProper) (h : other.nodes.Perm tree.nodes) :
    other.IsProper where
  named place hplace := proper.named place ((keys_perm h).mem_iff.1 hplace)
  distinct := (keys_perm h).nodup_iff.2 proper.distinct
  closed place hplace := by
    rw [node?_of_perm proper.distinct h]
    exact proper.closed place ((keys_perm h).mem_iff.1 hplace)

theorem IsProper.withExtension_perm (proper : tree.IsProper)
    (directory : tree.find root = .ok (start, .directory)) (h : other.nodes.Perm tree.nodes) :
    other.withExtension root extension = tree.withExtension root extension := by
  have hsame := node?_of_perm proper.distinct h
  have hdirectory : other.find root = .ok (start, .directory) :=
    (find_congr hsame root).trans directory
  refine FilePath.eq_of_ascending ((proper.of_perm h).before_withExtension hdirectory)
    (proper.before_withExtension directory) fun file => ?_
  rw [mem_withExtension, mem_withExtension, mem_walk_iff (proper.of_perm h).distinct hdirectory,
    mem_walk_iff proper.distinct directory]
  simp only [StandsBelow, hsame]

end

end FileTree

/-! ## Why a survey cannot read -/

namespace Survey

variable {tree : FileTree} {root crateRoot file : String} {cause : FileError}

theorem ofSource_ne_unreadable (source : SourceText) :
    ofSource source ≠ .error (.unreadable file cause) := by
  intro h
  have hsources : ofSources [source] = .error (.unreadable file cause) := by
    rw [ofSources, h]
    rfl
  cases hread : Source.readFile source.text with
  | error =>
    unfold ofSource at h
    rw [hread] at h
    cases h
  | ok items =>
    obtain ⟨_, _, _, hmalformed⟩ := ofSources_error
      (List.forall_mem_singleton.2 ⟨items, hread⟩) hsources
    cases hmalformed

theorem ofFiles_cons {next module text : String} {rest : List String}
    (hmodule : modulePath? root next crateRoot = some module) (hread : tree.read next = .ok text) :
    ofFiles tree root crateRoot (next :: rest) =
      (do
        let first ← ofSource ⟨next, module, text⟩
        return first ++ (← ofFiles tree root crateRoot rest)) := by
  rw [ofFiles, hmodule]
  dsimp only
  rw [hread]
  dsimp only [Except.mapError, bind, Except.bind]

theorem ofFiles_cons_unreadable {next module : String} {rest : List String}
    (hmodule : modulePath? root next crateRoot = some module)
    (hread : tree.read next = .error cause) :
    ofFiles tree root crateRoot (next :: rest) = .error (.unreadable next cause) := by
  rw [ofFiles, hmodule]
  dsimp only
  rw [hread]
  rfl

/-- A survey fails to read a file only if the file cannot be read. -/
theorem ofFiles_unreadable {files : List String}
    (h : ofFiles tree root crateRoot files = .error (.unreadable file cause)) :
    file ∈ files ∧ tree.read file = .error cause := by
  induction files with
  | nil => cases h
  | cons next rest ih =>
    cases hmodule : modulePath? root next crateRoot with
    | none =>
      rw [ofFiles, hmodule] at h
      exact (ih h).imp_left (List.mem_cons_of_mem _)
    | some module =>
      cases hread : tree.read next with
      | error =>
        rw [ofFiles_cons_unreadable hmodule hread] at h
        obtain ⟨rfl, rfl⟩ := SurveyError.unreadable.inj (Except.error.inj h)
        exact ⟨List.mem_cons_self, hread⟩
      | ok text =>
        rw [ofFiles_cons hmodule hread] at h
        cases hfirst : ofSource ⟨next, module, text⟩ with
        | error =>
          rw [hfirst] at h
          exact absurd (hfirst.trans h) (ofSource_ne_unreadable _)
        | ok first =>
          cases hmore : ofFiles tree root crateRoot rest with
          | error =>
            rw [hfirst, hmore] at h
            exact (ih (hmore.trans h)).imp_left (List.mem_cons_of_mem _)
          | ok more =>
            rw [hfirst, hmore] at h
            cases h

end Survey

/-! ## The collection -/

/-- What is collected below a directory comes in the order of components, each path once, and in the
same order however the tree keeps its nodes. It is all that has the extension: the directory itself,
and what stands below it, directories as well. The files among it are exactly the files below the
directory with the extension. Where a survey fails to read something, that is a source file which is
no text, or one of the directories. -/
theorem withExtension_exact {tree : FileTree} (proper : tree.IsProper) {root : String}
    {start : Place} (directory : tree.find root = .ok (start, .directory)) (extension : String) :
    (tree.withExtension root extension).Pairwise FilePath.Before ∧
    (∀ other : FileTree, other.nodes.Perm tree.nodes →
      other.withExtension root extension = tree.withExtension root extension) ∧
    (∀ file, file ∈ tree.withExtension root extension ↔
      FilePath.extension? file = some extension ∧
        (file = root ∨ ∃ node, tree.StandsBelow root start file node)) ∧
    (∀ file, file ∈ (tree.withExtension root extension).filter tree.isFile ↔
      FilePath.extension? file = some extension ∧
        ∃ bytes, tree.StandsBelow root start file (.file bytes)) ∧
    ∀ crateRoot file cause,
      Manifest.ofTree tree root crateRoot = .error (.unreadable file cause) →
      file ∈ tree.sources root ∧
        ((∃ bytes, tree.StandsBelow root start file (.file bytes) ∧
            String.fromUTF8? bytes = none ∧ cause = .notText) ∨
          ((file = root ∨ tree.StandsBelow root start file .directory) ∧
            cause = .isDirectory)) := by
  refine ⟨proper.before_withExtension directory, fun other => proper.withExtension_perm directory,
    fun file => ?_, fun file => ?_, fun crateRoot file cause h => ?_⟩
  · rw [FileTree.mem_withExtension, FileTree.mem_walk_iff proper.distinct directory, and_comm]
  · rw [List.mem_filter, FileTree.mem_withExtension, and_right_comm,
      proper.isFile_of_mem_walk directory, and_comm]
  · have hfiles : Survey.ofFiles tree root crateRoot (tree.sources root) =
        .error (.unreadable file cause) := by
      unfold Manifest.ofTree at h
      cases hsurvey : Survey.ofFiles tree root crateRoot (tree.sources root) with
      | error => exact congrArg _ (Except.error.inj (hsurvey ▸ h))
      | ok => rw [hsurvey] at h; cases h
    obtain ⟨hmem, hread⟩ := Survey.ofFiles_unreadable hfiles
    exact ⟨hmem, proper.read_error directory (FileTree.mem_sources.1 hmem).1 hread⟩

/-- A crate with a directory that is named like a source file. -/
def netTree : FileTree where
  nodes := [(["src"], .directory), (["src", "net.rs"], .directory),
    (["src", "lib.rs"], .file "pub mod ping;".toUTF8)]
  written := []

theorem netTree_withExtension :
    netTree.withExtension "src" "rs" = ["src/lib.rs", "src/net.rs"] := by
  have hmet : (netTree.walk "src").filter (FilePath.extension? · == some "rs") =
      ["src/net.rs", "src/lib.rs"] := by
    decide +kernel
  have hascending : ["src/lib.rs", "src/net.rs"].Pairwise FilePath.Before := by
    unfold FilePath.Before
    decide +kernel
  refine FilePath.eq_of_ascending (FilePath.before_mergeSort ?_) hascending fun path => ?_
  · rw [hmet]
    decide +kernel
  · rw [FileTree.withExtension, List.mem_mergeSort, hmet, (List.Perm.swap _ _ []).mem_iff]

theorem netTree_exact : 
    netTree.find "src" = .ok (["src"], .directory) ∧ netTree.IsProper ∧
    (netTree.withExtension "src" "rs").Pairwise FilePath.Before ∧
    ∀ file, file ∈ (netTree.withExtension "src" "rs").filter netTree.isFile ↔
      FilePath.extension? file = some "rs" ∧
        ∃ bytes, netTree.StandsBelow "src" ["src"] file (.file bytes) := by
  have proper : netTree.IsProper := ⟨by decide, by decide, by decide⟩
  have directory : netTree.find "src" = .ok (["src"], .directory) := by rfl
  obtain ⟨hascending, -, -, hfiles, -⟩ := withExtension_exact proper directory "rs"
  exact ⟨directory, proper, hascending, hfiles⟩

/-- The directory is collected as a source file, and a survey fails at it, although it could read
every file. -/
theorem netTree_unreadable :
    netTree.isFile "src/net.rs" = false ∧ "src/net.rs" ∈ netTree.withExtension "src" "rs" ∧
      (∀ file ∈ netTree.withExtension "src" "rs", netTree.isFile file = true →
        ∃ text, netTree.read file = .ok text) ∧
      Manifest.ofTree netTree "src" "crate" = .error (.unreadable "src/net.rs" .isDirectory) := by
  have hlibrary : netTree.read "src/lib.rs" = .ok "pub mod ping;" :=
    FileTree.holds_iff.1 (by decide +kernel)
  have hdirectory : netTree.find "src/net.rs" = .ok (["src", "net.rs"], .directory) :=
    FileTree.find_ok_iff.2 ⟨by decide +kernel, by decide +kernel, by rfl⟩
  have hsources : netTree.sources "src" = ["src/lib.rs", "src/net.rs"] := by
    rw [FileTree.sources, netTree_withExtension]
    decide +kernel
  rw [netTree_withExtension]
  refine ⟨by rw [FileTree.isFile, hdirectory], by decide, fun file hfile hisFile => ?_, ?_⟩
  · rcases List.mem_pair.1 hfile with rfl | rfl
    · exact ⟨_, hlibrary⟩
    · rw [FileTree.isFile, hdirectory] at hisFile
      cases hisFile
  · have hmodule : modulePath? "src" "src/lib.rs" "crate" = some "crate" := by decide +kernel
    have hmodule' : modulePath? "src" "src/net.rs" "crate" = some "crate::net" := by decide +kernel
    have hsurveyed : (Survey.ofSource ⟨"src/lib.rs", "crate", "pub mod ping;"⟩).isOk = true := by
      decide +kernel
    cases hsurvey : Survey.ofSource ⟨"src/lib.rs", "crate", "pub mod ping;"⟩ with
    | error =>
      rw [hsurvey] at hsurveyed
      cases hsurveyed
    | ok survey =>
      rw [Manifest.ofTree, hsources, Survey.ofFiles_cons hmodule hlibrary, hsurvey,
        Survey.ofFiles_cons_unreadable hmodule' (FileTree.read_directory hdirectory)]
      rfl

end Bindery
