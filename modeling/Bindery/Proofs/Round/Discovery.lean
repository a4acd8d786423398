import Bindery.Discovery
import Mathlib.Data.List.Forall2
/-!
# What is discovered, and in which order

The origin of a declaration is the entry that carries the mark, the occurrence of the mark on it,
and the entry that is declared. `discover_origins` says that discovery finds one declaration for
every origin there is, in the order of the origins.
-/

namespace Bindery

/-! ## Origins -/

/-- Where in a manifest a declaration comes from, each part by its position. -/
structure Origin where
  carrier : Nat
  mark : Nat
  target : Nat

/-- The order of origins: by the carrier, then by the mark on it, then by what is declared. -/
def Origin.Before (first second : Origin) : Prop :=
  first.carrier < second.carrier ∨ first.carrier = second.carrier ∧
    (first.mark < second.mark ∨ first.mark = second.mark ∧ first.target < second.target)

theorem role_of_mem_marks {entry : Entry} {role : Role} {mark : Mark}
    (h : mark ∈ entry.marks role) : mark.role = role := by
  cases role with
  | provider =>
    obtain ⟨key, -, rfl⟩ := List.mem_map.1 h
    rfl
  | gateway =>
    rw [Entry.marks] at h
    split at h
    · obtain rfl := List.mem_singleton.1 h
      rfl
    · cases h

/-- The entry that is to be declared. -/
def Reach.target? : Reach → Option (Entry × Carrier)
  | .entry target carrier => some (target, carrier)
  | .nested _ _ => none

/-- The warning about what is reached, if it is left out. -/
def Reach.warning? : Reach → Option Finding
  | .entry _ _ => none
  | .nested inner outer =>
    some ⟨.warning, some inner.location, Manifest.nestedAliasMessage inner outer⟩

namespace Manifest

/-- What the mark of an origin leads to: the carrier itself, or, if this is an alias, an entry that
is tagged with its name. -/
def ReachedFrom (manifest : Manifest) (role : Role) (origin : Origin) (target : Entry)
    (carrier : Carrier) : Prop :=
  ∃ entry mark,
    manifest.entries[origin.carrier]? = some entry ∧
    (entry.marks role)[origin.mark]? = some mark ∧
    manifest.entries[origin.target]? = some target ∧
    ((entry.isAlias = true ∧ target.isTagged entry.ident = true ∧
        carrier = ⟨mark, some entry.path⟩) ∨
      (entry.isAlias = false ∧ origin.target = origin.carrier ∧ carrier = ⟨mark, none⟩))

/-- The declaration that an origin gives. Aliases are never declared. -/
def DeclaredFrom (manifest : Manifest) (role : Role) (origin : Origin) (declaration : Declaration) :
    Prop :=
  ∃ target carrier, manifest.ReachedFrom role origin target carrier ∧ target.isAlias = false ∧
    manifest.declare target carrier = .ok declaration

theorem role_of_reachedFrom {manifest : Manifest} {role : Role} {origin : Origin} {target : Entry}
    {carrier : Carrier} (h : manifest.ReachedFrom role origin target carrier) :
    carrier.role = role := by
  obtain ⟨entry, mark, -, hmark, -, hcase⟩ := h
  have hrole := role_of_mem_marks (List.mem_of_getElem? hmark)
  rcases hcase with ⟨-, -, rfl⟩ | ⟨-, -, rfl⟩
  · exact hrole
  · exact hrole

/-! ## Reaching with origins -/

/-- What a mark on the entry at a position leads to, with the origins. -/
def tracedMark (manifest : Manifest) (entry : Entry) (position : Nat) (mark : Mark × Nat) :
    List (Origin × Reach) :=
  if entry.isAlias then
    (manifest.entries.zipIdx.filter (·.1.isTagged entry.ident)).map fun target =>
      (⟨position, mark.2, target.2⟩,
        if target.1.isAlias then .nested target.1 entry
        else .entry target.1 ⟨mark.1, some entry.path⟩)
  else [(⟨position, mark.2, position⟩, .entry entry ⟨mark.1, none⟩)]

/-- What all marks for a role lead to, with the origins. -/
def traced (manifest : Manifest) (role : Role) : List (Origin × Reach) :=
  manifest.entries.zipIdx.flatMap fun entry =>
    (entry.1.marks role).zipIdx.flatMap (manifest.tracedMark entry.1 entry.2)

theorem tracedMark_reach (manifest : Manifest) (entry : Entry) (position : Nat)
    (mark : Mark × Nat) :
    (manifest.tracedMark entry position mark).map (·.2) =
      if entry.isAlias then
        (manifest.taggedWith entry).map fun target =>
          if target.isAlias then .nested target entry
          else .entry target ⟨mark.1, some entry.path⟩
      else [.entry entry ⟨mark.1, none⟩] := by
  unfold tracedMark
  split
  · conv_rhs => rw [taggedWith, ← List.zipIdx_map_fst 0 manifest.entries, List.filter_map]
    simp only [List.map_map]
    rfl
  · rfl

/-- Without the origins it is what is reached. -/
theorem traced_reach (manifest : Manifest) (role : Role) :
    (manifest.traced role).map (·.2) = manifest.reach role := by
  have hmarks : ∀ entry : Entry × Nat,
      ((entry.1.marks role).zipIdx.flatMap (manifest.tracedMark entry.1 entry.2)).map (·.2) =
        manifest.reachOf role entry.1 := by
    intro entry
    conv_rhs => rw [reachOf, ← List.zipIdx_map_fst 0 (entry.1.marks role), List.flatMap_map]
    rw [List.map_flatMap]
    simp only [tracedMark_reach]
  conv_rhs => rw [reach, ← List.zipIdx_map_fst 0 manifest.entries, List.flatMap_map]
  rw [traced, List.map_flatMap]
  simp only [hmarks]

theorem zipIdx_sorted {α : Type} (items : List α) :
    items.zipIdx.Pairwise fun first second => first.2 < second.2 := by
  rw [← List.pairwise_map (f := Prod.snd) (R := (· < ·)), List.zipIdx_map_snd]
  exact List.pairwise_lt_range'

/-- Origins come up in their order. -/
theorem traced_sorted (manifest : Manifest) (role : Role) :
    (manifest.traced role).Pairwise fun first second => first.1.Before second.1 := by
  have horigin : ∀ entry position mark, ∀ traced ∈ manifest.tracedMark entry position mark,
      traced.1.carrier = position ∧ traced.1.mark = mark.2 := by
    intro entry position mark traced h
    rw [tracedMark] at h
    split at h
    · obtain ⟨target, -, rfl⟩ := List.mem_map.1 h
      exact ⟨rfl, rfl⟩
    · obtain rfl := List.mem_singleton.1 h
      exact ⟨rfl, rfl⟩
  rw [traced, List.pairwise_flatMap]
  -- Within an entry the mark decides, within a mark the target, and between entries the carrier.
  refine ⟨fun entry _ => ?_, (zipIdx_sorted manifest.entries).imp ?_⟩
  · rw [List.pairwise_flatMap]
    refine ⟨fun mark _ => ?_, (zipIdx_sorted (entry.1.marks role)).imp ?_⟩
    · rw [tracedMark]
      split
      · rw [List.pairwise_map]
        exact ((zipIdx_sorted manifest.entries).filter _).imp fun h => .inr ⟨rfl, .inr ⟨rfl, h⟩⟩
      · exact List.pairwise_singleton _ _
    · intro mark mark' hmark traced h traced' h'
      obtain ⟨hcarrier, hindex⟩ := horigin _ _ _ _ h
      obtain ⟨hcarrier', hindex'⟩ := horigin _ _ _ _ h'
      exact .inr ⟨by rw [hcarrier, hcarrier'], .inl (by rw [hindex, hindex']; exact hmark)⟩
  · intro entry entry' hentry traced h traced' h'
    obtain ⟨mark, -, h⟩ := List.mem_flatMap.1 h
    obtain ⟨mark', -, h'⟩ := List.mem_flatMap.1 h'
    exact .inl (by rw [(horigin _ _ _ _ h).1, (horigin _ _ _ _ h').1]; exact hentry)

/-- What is to be declared is what is reached from an origin and is no alias. -/
theorem mem_traced {manifest : Manifest} {role : Role} {origin : Origin} {target : Entry}
    {carrier : Carrier} :
    (origin, .entry target carrier) ∈ manifest.traced role ↔
      manifest.ReachedFrom role origin target carrier ∧ target.isAlias = false := by
  simp only [traced, List.mem_flatMap, List.mem_zipIdx_iff_getElem?]
  constructor
  · rintro ⟨⟨entry, position⟩, hentry, ⟨mark, index⟩, hmark, h⟩
    rw [tracedMark] at h
    split at h
    · next halias =>
      obtain ⟨⟨found, position'⟩, hfound, h⟩ := List.mem_map.1 h
      obtain ⟨hfound, htagged⟩ := List.mem_filter.1 hfound
      obtain ⟨rfl, h⟩ := Prod.mk.inj h
      split at h
      · cases h
      · next hplain =>
        cases h
        exact ⟨⟨entry, mark, hentry, hmark, List.mem_zipIdx_iff_getElem?.1 hfound,
          .inl ⟨halias, htagged, rfl⟩⟩, by simpa using hplain⟩
    · next hplain =>
      obtain ⟨rfl, hreach⟩ := Prod.mk.inj (List.mem_singleton.1 h)
      obtain ⟨rfl, rfl⟩ := Reach.entry.inj hreach
      exact ⟨⟨target, mark, hentry, hmark, hentry, .inr ⟨by simpa using hplain, rfl, rfl⟩⟩,
        by simpa using hplain⟩
  · rintro ⟨⟨entry, mark, hentry, hmark, htarget, hcase⟩, hplain⟩
    refine ⟨(entry, origin.carrier), hentry, (mark, origin.mark), hmark, ?_⟩
    rw [tracedMark]
    rcases hcase with ⟨halias, htagged, rfl⟩ | ⟨halias, hposition, rfl⟩
    · rw [if_pos halias, List.mem_map]
      refine ⟨(target, origin.target), List.mem_filter.2 ⟨?_, htagged⟩, by simp [hplain]⟩
      exact List.mem_zipIdx_iff_getElem?.2 htarget
    · obtain rfl : entry = target := by
        rw [hposition, hentry] at htarget
        exact Option.some.inj htarget
      obtain ⟨position, index, position'⟩ := origin
      obtain rfl : position' = position := hposition
      rw [if_neg (by simp [halias]), List.mem_singleton]

/-- What is to be declared for a role, with the origins. -/
def targets (manifest : Manifest) (role : Role) : List (Origin × (Entry × Carrier)) :=
  (manifest.traced role).filterMap fun traced => traced.2.target?.map (traced.1, ·)

theorem mem_targets {manifest : Manifest} {role : Role} {origin : Origin} {target : Entry}
    {carrier : Carrier} :
    (origin, (target, carrier)) ∈ manifest.targets role ↔
      manifest.ReachedFrom role origin target carrier ∧ target.isAlias = false := by
  rw [← mem_traced, targets, List.mem_filterMap]
  constructor
  · rintro ⟨⟨origin', reached⟩, hmem, h⟩
    cases reached with
    | nested => cases h
    | entry target' carrier' =>
      obtain ⟨rfl, hpair⟩ := Prod.mk.inj (Option.some.inj h)
      obtain ⟨rfl, rfl⟩ := Prod.mk.inj hpair
      exact hmem
  · exact fun h => ⟨_, h, rfl⟩

theorem targets_sorted (manifest : Manifest) (role : Role) :
    (manifest.targets role).Pairwise fun first second => first.1.Before second.1 := by
  rw [targets, List.pairwise_filterMap]
  refine (traced_sorted manifest role).imp fun hbefore target h target' h' => ?_
  obtain ⟨_, -, rfl⟩ := Option.map_eq_some_iff.1 h
  obtain ⟨_, -, rfl⟩ := Option.map_eq_some_iff.1 h'
  exact hbefore

theorem targets_reach (manifest : Manifest) (role : Role) :
    (manifest.targets role).map (·.2) = (manifest.reach role).filterMap Reach.target? := by
  rw [targets, ← traced_reach, List.filterMap_map, List.map_filterMap]
  simp only [Option.map_map]
  congr 1
  funext traced
  exact Option.map_id'

/-! ## Declaring -/

theorem declare_unsupported (manifest : Manifest) {entry : Entry} {word : String}
    (h : entry.category = .unsupported word) (carrier : Carrier) :
    manifest.declare entry carrier =
      .error (.unsupportedCategory carrier.role word entry.path entry.location) := by
  simp [declare, shape?, typeShape?, h, Category.word]

/-- Declaring goes through what is reached in order, and reports the aliases among it. -/
theorem declareAll_ok {manifest : Manifest} {reaches : List Reach} {report report' : Report}
    {declarations : List Declaration}
    (h : manifest.declareAll reaches report = (report', .ok declarations)) :
    report'.findings = report.findings ++ reaches.filterMap Reach.warning? ∧
      List.Forall₂ (fun reached declaration =>
          manifest.declare reached.1 reached.2 = .ok declaration)
        (reaches.filterMap Reach.target?) declarations := by
  induction reaches generalizing report declarations with
  | nil =>
    obtain ⟨rfl, hdeclarations⟩ := Prod.mk.inj h
    obtain rfl := Except.ok.inj hdeclarations
    exact ⟨by simp, .nil⟩
  | cons reached rest ih =>
    cases reached with
    | nested inner outer =>
      obtain ⟨hfindings, hdeclared⟩ := ih h
      exact ⟨by rw [hfindings]; simp [Reach.warning?, Report.warn, Report.push], hdeclared⟩
    | entry entry carrier =>
      rw [declareAll] at h
      split at h
      · cases (Prod.mk.inj h).2
      · next declaration hdeclare =>
        rcases hrest : manifest.declareAll rest report with ⟨report'', _ | declared⟩ <;>
          rw [hrest] at h
        · cases (Prod.mk.inj h).2
        · obtain ⟨rfl, hdeclarations⟩ := Prod.mk.inj h
          obtain rfl := Except.ok.inj hdeclarations
          obtain ⟨hfindings, hdeclared⟩ := ih hrest
          exact ⟨hfindings, .cons hdeclare hdeclared⟩

/-- What is declared does not depend on what was reported before. -/
theorem declareAll_outcome (manifest : Manifest) (reaches : List Reach) (report report' : Report) :
    (manifest.declareAll reaches report).2 = (manifest.declareAll reaches report').2 := by
  induction reaches generalizing report report' with
  | nil => rfl
  | cons reached rest ih =>
    cases reached with
    | nested inner outer => exact ih _ _
    | entry entry carrier =>
      simp only [declareAll]
      split
      · rfl
      · simp only [ih report report']

/-! ## Discovering -/

/-- Discovery finds one declaration for every origin there is, in the order of the origins. -/
theorem discover_origins {manifest : Manifest} {role : Role} {report report' : Report}
    {declarations : List Declaration}
    (h : manifest.discover role report = (report', .ok declarations)) :
    ∃ origins : List Origin, origins.Pairwise Origin.Before ∧
      List.Forall₂ (manifest.DeclaredFrom role) origins declarations ∧
      ∀ origin declaration, manifest.DeclaredFrom role origin declaration → origin ∈ origins := by
  obtain ⟨-, hdeclared⟩ := declareAll_ok h
  rw [← targets_reach, List.forall₂_map_left_iff] at hdeclared
  refine ⟨(manifest.targets role).map (·.1), ?_, ?_, ?_⟩
  · rw [List.pairwise_map]
    exact targets_sorted manifest role
  · have hreached : ∀ target ∈ manifest.targets role,
        manifest.ReachedFrom role target.1 target.2.1 target.2.2 ∧ target.2.1.isAlias = false :=
      fun target hmem => mem_targets.1 hmem
    rw [List.forall₂_map_left_iff]
    refine ((List.forall₂_and_left _ _).2 ⟨hreached, hdeclared⟩).imp ?_
    rintro target declaration ⟨⟨hreached, hplain⟩, hdeclare⟩
    exact ⟨target.2.1, target.2.2, hreached, hplain, hdeclare⟩
  · rintro origin declaration ⟨target, carrier, hreached, hplain, -⟩
    exact List.mem_map.2 ⟨_, mem_targets.2 ⟨hreached, hplain⟩, rfl⟩

theorem exists_of_mem_left {α β : Type} {R : α → β → Prop} {first : List α} {second : List β}
    (h : List.Forall₂ R first second) {a : α} (ha : a ∈ first) : ∃ b ∈ second, R a b := by
  induction h with
  | nil => cases ha
  | @cons _ b _ _ hhead _ ih =>
    rcases List.mem_cons.1 ha with rfl | ha
    · exact ⟨b, List.mem_cons_self, hhead⟩
    · obtain ⟨other, hother, hrelated⟩ := ih ha
      exact ⟨other, List.mem_cons_of_mem _ hother, hrelated⟩

/-- Discovery succeeds only if all that is reached is declared. -/
theorem exists_declared {manifest : Manifest} {role : Role} {report report' : Report}
    {declarations : List Declaration}
    (h : manifest.discover role report = (report', .ok declarations))
    {origin : Origin} {target : Entry} {carrier : Carrier}
    (hreached : manifest.ReachedFrom role origin target carrier) (hplain : target.isAlias = false) :
    ∃ declaration, manifest.DeclaredFrom role origin declaration := by
  obtain ⟨-, hdeclared⟩ := declareAll_ok h
  rw [← targets_reach] at hdeclared
  have hmem : (target, carrier) ∈ (manifest.targets role).map (·.2) :=
    List.mem_map.2 ⟨_, mem_targets.2 ⟨hreached, hplain⟩, rfl⟩
  obtain ⟨declaration, -, hdeclare⟩ := exists_of_mem_left hdeclared hmem
  exact ⟨declaration, target, carrier, hreached, hplain, hdeclare⟩

theorem exists_origin {manifest : Manifest} {role : Role} {origins : List Origin}
    {declarations : List Declaration} {declaration : Declaration}
    (h : List.Forall₂ (manifest.DeclaredFrom role) origins declarations)
    (hmem : declaration ∈ declarations) :
    ∃ origin ∈ origins, manifest.DeclaredFrom role origin declaration :=
  exists_of_mem_left h.flip hmem

/-- What discovery adds to a report are warnings about aliases. -/
theorem discover_findings {manifest : Manifest} {role : Role} {report report' : Report}
    {declarations : List Declaration}
    (h : manifest.discover role report = (report', .ok declarations)) :
    ∃ added, report'.findings = report.findings ++ added ∧
      ∀ finding ∈ added, finding.level = .warning := by
  refine ⟨_, (declareAll_ok h).1, fun finding hmem => ?_⟩
  obtain ⟨reached, -, hwarning⟩ := List.mem_filterMap.1 hmem
  cases reached with
  | entry => cases hwarning
  | nested => exact Option.some.inj hwarning ▸ rfl

theorem discover_outcome (manifest : Manifest) (role : Role) (report report' : Report) :
    (manifest.discover role report).2 = (manifest.discover role report').2 :=
  declareAll_outcome manifest (manifest.reach role) report report'

end Manifest

end Bindery
