import Bindery.Proofs.Round.Emission
import Mathlib.Algebra.GroupWithZero.Nat
import Mathlib.Data.List.Count
/-!
# How often something is discovered

Discovery is the closure of the marks under one level of aliases. An entry is declared with a
carrier as often as the mark is on it, or on the aliases at one path that it is tagged with
(`Manifest.multiplicity`), and each alias that is reached through another, or through itself, is
reported once for each mark (`discover_closure`).
-/

namespace Bindery

/-- An origin does not come before itself, so that in a list in their order each comes up once. -/
theorem Origin.not_before_self (origin : Origin) : ¬origin.Before origin := by
  simp [Before]

theorem Origin.Before.asymm {first second : Origin} (h : first.Before second) :
    ¬second.Before first := by
  unfold Before at *
  omega

/-! ## Lists -/

theorem filter_zipIdx {α : Type} {items : List α} {position : Nat} {item : α}
    (h : items[position]? = some item) (p : α → Bool) :
    items.zipIdx.filter (fun found => p found.1 && found.2 == position) =
      if p item then [(item, position)] else [] := by
  suffices hstart : ∀ start, (items.zipIdx start).filter
      (fun found => p found.1 && found.2 == start + position) =
        if p item then [(item, start + position)] else [] by
    simpa using hstart 0
  induction items generalizing position with
  | nil => cases h
  | cons first rest ih =>
    intro start
    rw [List.zipIdx_cons]
    cases position with
    | zero =>
      obtain rfl := Option.some.inj h
      -- What follows stands at later positions.
      have hnone : (rest.zipIdx (start + 1)).filter
          (fun found => p found.1 && found.2 == start + 0) = [] := by
        refine List.filter_eq_nil_iff.2 fun found hfound => ?_
        have hlater := List.le_snd_of_mem_zipIdx hfound
        simp only [Nat.add_zero, Bool.and_eq_true, beq_iff_eq, not_and]
        omega
      rw [List.filter_cons, hnone]
      simp
    | succ position =>
      have hat : rest[position]? = some item := by simpa using h
      have hrest := ih hat (start + 1)
      rw [show start + (position + 1) = start + 1 + position by omega, List.filter_cons, hrest,
        if_neg (by simp; omega)]

theorem sum_ite_eq_sum_filter {α : Type} (items : List α) (p : α → Bool) (f : α → Nat) :
    (items.map fun item => if p item then f item else 0).sum = ((items.filter p).map f).sum := by
  induction items with
  | nil => rfl
  | cons item rest ih =>
    rw [List.map_cons, List.sum_cons, ih, List.filter_cons]
    split <;> simp

/-! ## Marks -/

/-- How often a mark is on an entry. However often it is marked as the interceptor counts once. -/
def Entry.occurrences (entry : Entry) : Mark → Nat
  | .provider key => entry.markers.count (.provider key)
  | .gateway => if .gateway ∈ entry.markers then 1 else 0

theorem count_marks (entry : Entry) (mark : Mark) :
    (entry.marks mark.role).count mark = entry.occurrences mark := by
  cases mark with
  | provider key =>
    have hkeys : entry.keys.count key = entry.markers.count (.provider key) := by
      unfold Entry.keys
      induction entry.markers with
      | nil => rfl
      | cons marker rest ih =>
        cases marker with
        | provider other => simp [List.count_cons, ih]
        | gateway | tagged name => simp [ih]
    rw [Entry.occurrences, ← hkeys]
    exact List.count_map_of_injective _ _ (fun _ _ => Mark.provider.inj) _
  | gateway =>
    simp only [Mark.role, Entry.marks, Entry.isGateway, Entry.occurrences, List.contains_iff_mem]
    split <;> rfl

namespace Manifest

/-- How often an entry is to be declared with a carrier: as often as the mark is on the entry
itself, or on the aliases at the path that the entry is tagged with. An alias is not declared. -/
def multiplicity (manifest : Manifest) (target : Entry) (carrier : Carrier) : Nat :=
  if target.isAlias then 0
  else match carrier.via with
    | none => target.occurrences carrier.mark
    | some path =>
      ((manifest.entries.filter fun outer =>
        outer.isAlias && outer.path == path && target.isTagged outer.ident).map
          (·.occurrences carrier.mark)).sum

/-! ## Counting what is reached -/

section
variable {manifest : Manifest} {role : Role} {position : Nat} {target : Entry} {carrier : Carrier}

/-- Whether what is reached is the entry at a position, to be declared with a carrier. -/
def isReached (position : Nat) (carrier : Carrier) (traced : Origin × Reach) : Bool :=
  traced.2.target?.any fun found => traced.1.target == position && found.2 == carrier

/-- Whether the marks on an entry lead to the one at a position, with a carrier. -/
def leadsTo (target : Entry) (position : Nat) (carrier : Carrier) (outer : Entry × Nat) : Bool :=
  if outer.1.isAlias then
    !target.isAlias && target.isTagged outer.1.ident && carrier.via == some outer.1.path
  else carrier.via.isNone && outer.2 == position

theorem countP_tracedMark (htarget : manifest.entries[position]? = some target)
    (outer : Entry × Nat) (mark : Mark × Nat) :
    (manifest.tracedMark outer.1 outer.2 mark).countP (isReached position carrier) =
      if leadsTo target position carrier outer && mark.1 == carrier.mark then 1 else 0 := by
  obtain ⟨wanted, via⟩ := carrier
  by_cases halias : outer.1.isAlias
  · -- Of the entries that are tagged with the alias, the one at the position is counted.
    have hfound : ∀ found : Entry × Nat,
        (isReached position ⟨wanted, via⟩ (⟨outer.2, mark.2, found.2⟩,
            if found.1.isAlias then .nested found.1 outer.1
            else .entry found.1 ⟨mark.1, some outer.1.path⟩) &&
          found.1.isTagged outer.1.ident) =
        ((!found.1.isAlias && found.1.isTagged outer.1.ident && via == some outer.1.path &&
          mark.1 == wanted) && found.2 == position) := by
      intro found
      cases found.1.isAlias with
      | true => rfl
      | false =>
        rw [Bool.eq_iff_iff]
        simp [isReached, Reach.target?]
        tauto
    rw [tracedMark, if_pos halias, List.countP_map, List.countP_filter,
      List.countP_eq_length_filter]
    simp only [Function.comp_apply, hfound]
    rw [filter_zipIdx htarget fun found => !found.isAlias && found.isTagged outer.1.ident &&
      via == some outer.1.path && mark.1 == wanted, leadsTo, if_pos halias]
    split <;> rfl
  · rw [tracedMark, if_neg halias, leadsTo, if_neg halias, List.countP_singleton]
    cases via <;> simp [isReached, Reach.target?, and_comm]

/-- Each occurrence of the mark on an entry leads there, if any does. -/
theorem countP_marks (htarget : manifest.entries[position]? = some target)
    (hrole : carrier.role = role) (outer : Entry × Nat) :
    ((outer.1.marks role).zipIdx.flatMap (manifest.tracedMark outer.1 outer.2)).countP
        (isReached position carrier) =
      if leadsTo target position carrier outer then outer.1.occurrences carrier.mark else 0 := by
  rw [List.countP_flatMap]
  have hmark : List.countP (isReached position carrier) ∘ manifest.tracedMark outer.1 outer.2 =
      (fun mark => if leadsTo target position carrier outer && mark == carrier.mark then 1 else 0) ∘
        Prod.fst :=
    funext fun mark => countP_tracedMark htarget outer mark
  rw [hmark, ← List.map_map, List.zipIdx_map_fst, sum_ite_eq_sum_filter]
  subst hrole
  rw [Carrier.role, ← count_marks, List.count, List.countP_eq_length_filter]
  cases leadsTo target position carrier outer <;> simp

theorem countP_traced (htarget : manifest.entries[position]? = some target)
    (hrole : carrier.role = role) :
    (manifest.traced role).countP (isReached position carrier) =
      manifest.multiplicity target carrier := by
  rw [traced, List.countP_flatMap]
  have houter : List.countP (isReached position carrier) ∘ (fun outer : Entry × Nat =>
        (outer.1.marks role).zipIdx.flatMap (manifest.tracedMark outer.1 outer.2)) =
      fun outer => if leadsTo target position carrier outer then
        outer.1.occurrences carrier.mark else 0 :=
    funext fun outer => countP_marks htarget hrole outer
  rw [houter, sum_ite_eq_sum_filter, multiplicity]
  cases hvia : carrier.via with
  | none =>
    have hleads : leadsTo target position carrier =
        fun outer => !outer.1.isAlias && outer.2 == position := by
      funext outer
      unfold leadsTo
      cases outer.1.isAlias <;> simp [hvia]
    rw [hleads, filter_zipIdx htarget fun outer => !outer.isAlias]
    cases target.isAlias <;> simp
  | some path =>
    have hleads : leadsTo target position carrier = (fun outer => !target.isAlias &&
        (outer.isAlias && outer.path == path && target.isTagged outer.ident)) ∘ Prod.fst := by
      funext outer
      rw [Bool.eq_iff_iff]
      cases halias : outer.1.isAlias with
      | true =>
        simp only [leadsTo, halias, hvia, Function.comp_apply, if_true, Bool.and_eq_true,
          beq_iff_eq, Option.some.injEq, eq_comm (a := path), true_and]
        tauto
      | false => simp [leadsTo, halias, hvia]
    have hfst : (fun outer : Entry × Nat => outer.1.occurrences carrier.mark) =
        (fun outer => outer.occurrences carrier.mark) ∘ Prod.fst := rfl
    rw [hleads, hfst, ← List.map_map, ← List.filter_map, List.zipIdx_map_fst]
    cases target.isAlias <;> simp

theorem countP_targets (htarget : manifest.entries[position]? = some target)
    (hrole : carrier.role = role) :
    (manifest.targets role).countP
        (fun found => found.1.target == position && found.2.2 == carrier) =
      manifest.multiplicity target carrier := by
  rw [← countP_traced htarget hrole, targets, List.countP_filterMap]
  congr 1
  funext traced
  rw [isReached]
  cases traced.2.target? <;> rfl

end

/-! ## Aliases that are reached -/

/-- A mark on an alias reaches an alias: one that is tagged with its name, which may be itself. -/
structure NestedFrom (manifest : Manifest) (role : Role) (origin : Origin) (inner outer : Entry) :
    Prop where
  outer_at : manifest.entries[origin.carrier]? = some outer
  outer_isAlias : outer.isAlias = true
  mark_lt : origin.mark < (outer.marks role).length
  inner_at : manifest.entries[origin.target]? = some inner
  inner_isAlias : inner.isAlias = true
  inner_isTagged : inner.isTagged outer.ident = true

/-- The warning that an origin gives: the mark reaches an alias, and this is not declared. -/
def WarnedFrom (manifest : Manifest) (role : Role) (origin : Origin) (finding : Finding) : Prop :=
  ∃ inner outer, manifest.NestedFrom role origin inner outer ∧
    finding = ⟨.warning, some inner.location, nestedAliasMessage inner outer⟩

theorem mem_traced_nested {manifest : Manifest} {role : Role} {origin : Origin}
    {inner outer : Entry} :
    (origin, .nested inner outer) ∈ manifest.traced role ↔
      manifest.NestedFrom role origin inner outer := by
  simp only [traced, List.mem_flatMap, List.mem_zipIdx_iff_getElem?]
  constructor
  · rintro ⟨⟨entry, position⟩, hentry, ⟨mark, index⟩, hmark, h⟩
    rw [tracedMark] at h
    split at h
    · next halias =>
      obtain ⟨⟨found, position'⟩, hfound, h⟩ := List.mem_map.1 h
      obtain ⟨hfound, htagged⟩ := List.mem_filter.1 hfound
      obtain ⟨rfl, h⟩ := Prod.mk.inj h
      split at h
      · next hinner =>
        cases h
        exact ⟨hentry, halias, (List.getElem?_eq_some_iff.1 hmark).1,
          List.mem_zipIdx_iff_getElem?.1 hfound, hinner, htagged⟩
      · cases h
    · cases (Prod.mk.inj (List.mem_singleton.1 h)).2
  · rintro ⟨houter, halias, hmark, hinner, hinnerAlias, htagged⟩
    refine ⟨(outer, origin.carrier), houter, (_, origin.mark), List.getElem?_eq_getElem hmark, ?_⟩
    rw [tracedMark, if_pos halias]
    refine List.mem_map.2 ⟨(inner, origin.target), List.mem_filter.2 ⟨?_, htagged⟩, ?_⟩
    · exact List.mem_zipIdx_iff_getElem?.2 hinner
    · rw [if_pos hinnerAlias]

/-- The warnings about what is reached come from the origins that reach an alias. -/
theorem warned_traced {manifest : Manifest} {role : Role} {traced : List (Origin × Reach)}
    (h : ∀ found ∈ traced, found ∈ manifest.traced role) :
    List.Forall₂ (manifest.WarnedFrom role)
      ((traced.filter (·.2.warning?.isSome)).map (·.1))
      ((traced.map (·.2)).filterMap Reach.warning?) := by
  induction traced with
  | nil => exact .nil
  | cons found rest ih =>
    obtain ⟨hfound, hrest⟩ := List.forall_mem_cons.1 h
    obtain ⟨origin, reached⟩ := found
    cases reached with
    | entry target carrier => exact ih hrest
    | nested inner outer =>
      exact .cons ⟨inner, outer, mem_traced_nested.1 hfound, rfl⟩ (ih hrest)

theorem mem_warned {manifest : Manifest} {role : Role} {origin : Origin} {finding : Finding}
    (h : manifest.WarnedFrom role origin finding) :
    ∃ found ∈ manifest.traced role, found.2.warning?.isSome = true ∧ found.1 = origin := by
  obtain ⟨inner, outer, hnested, -⟩ := h
  exact ⟨_, mem_traced_nested.2 hnested, rfl, rfl⟩

/-! ## What discovery comes to -/

theorem countP_zip_map {α β γ : Type} {R : α → γ → Prop} {first : List α} {second : List γ}
    (h : List.Forall₂ R first second) (f : α → β) {p : β × γ → Bool} {q : α → Bool}
    (hpq : ∀ a c, R a c → p (f a, c) = q a) :
    ((first.map f).zip second).countP p = first.countP q := by
  induction h with
  | nil => rfl
  | cons hhead _ ih => simp [List.countP_cons, ih, hpq _ _ hhead]

/-- What a role's discovery declares and warns of, with the origins of both. An entry is declared
with a carrier as often as marks lead to it, and an alias is warned of once for each mark. -/
structure IsClosure (manifest : Manifest) (role : Role) (declarations : List Declaration)
    (warnings : List Finding) (declared warned : List Origin) : Prop where
  sorted : declared.Pairwise Origin.Before
  declares : List.Forall₂ (manifest.DeclaredFrom role) declared declarations
  multiplicities : ∀ (position : Nat) (target : Entry),
    manifest.entries[position]? = some target → ∀ carrier : Carrier, carrier.role = role →
      (declared.zip declarations).countP
          (fun found => found.1.target == position && found.2.carrier == carrier) =
        manifest.multiplicity target carrier
  warned_sorted : warned.Pairwise Origin.Before
  warns : List.Forall₂ (manifest.WarnedFrom role) warned warnings
  warns_all : ∀ origin finding, manifest.WarnedFrom role origin finding → origin ∈ warned

/-- Discovery is the closure of the marks under one level of aliases, in the order of the
origins. -/
theorem discover_closure {manifest : Manifest} {role : Role} {report report' : Report}
    {declarations : List Declaration}
    (h : manifest.discover role report = (report', .ok declarations)) :
    ∃ warnings declared warned, report'.findings = report.findings ++ warnings ∧
      manifest.IsClosure role declarations warnings declared warned := by
  obtain ⟨hfindings, hdeclared⟩ := declareAll_ok h
  rw [← targets_reach, List.forall₂_map_left_iff] at hdeclared
  have hreached : ∀ target ∈ manifest.targets role,
      manifest.ReachedFrom role target.1 target.2.1 target.2.2 ∧ target.2.1.isAlias = false :=
    fun target hmem => mem_targets.1 hmem
  refine ⟨_, (manifest.targets role).map (·.1),
    ((manifest.traced role).filter (·.2.warning?.isSome)).map (·.1), hfindings, ?_⟩
  constructor
  case sorted =>
    rw [List.pairwise_map]
    exact targets_sorted manifest role
  case declares =>
    rw [List.forall₂_map_left_iff]
    refine ((List.forall₂_and_left _ _).2 ⟨hreached, hdeclared⟩).imp ?_
    rintro target declaration ⟨⟨hreached, hplain⟩, hdeclare⟩
    exact ⟨target.2.1, target.2.2, hreached, hplain, hdeclare⟩
  case multiplicities =>
    intro position target htarget carrier hrole
    rw [← countP_targets htarget hrole]
    refine countP_zip_map hdeclared _ fun found declaration hdeclare => ?_
    rw [(parts_of_declare hdeclare).1]
  case warned_sorted =>
    rw [List.pairwise_map]
    exact (traced_sorted manifest role).filter _
  case warns =>
    rw [← traced_reach]
    exact warned_traced fun _ hfound => hfound
  case warns_all =>
    intro origin finding hwarned
    obtain ⟨found, hmem, hwarning, rfl⟩ := mem_warned hwarned
    exact List.mem_map.2 ⟨found, List.mem_filter.2 ⟨hmem, hwarning⟩, rfl⟩

/-- Two aliases that are tagged with each other, one of them also with itself, and a type that is
tagged with both, with one of them twice. -/
def cyclicManifest : Manifest where
  entries := [
    ⟨"crate::Outer", "Outer", none, .type .public true false,
      [.provider "a", .provider "b", .tagged "Inner"], true, ⟨"lib.rs", 1⟩⟩,
    ⟨"crate::Inner", "Inner", none, .type .public true false,
      [.tagged "Outer", .tagged "Inner", .provider "a"], true, ⟨"lib.rs", 2⟩⟩,
    ⟨"crate::Leaf", "Leaf", none, .type .public true false,
      [.tagged "Outer", .tagged "Outer", .tagged "Inner", .provider "a"], false, ⟨"lib.rs", 3⟩⟩]
  implementations := []

/-- The type is declared once for each mark of each alias and for its own, and for each mark an
alias is warned of. -/
theorem cyclic_closure :
    ∃ report declarations declared warned,
      cyclicManifest.discover .provider .empty = (report, .ok declarations) ∧
      declarations.map (fun found => (found.path, found.carrier.via)) =
        [("crate::Leaf", some "crate::Outer"), ("crate::Leaf", some "crate::Outer"),
          ("crate::Leaf", some "crate::Inner"), ("crate::Leaf", none)] ∧
      report.findings.length = 4 ∧
      cyclicManifest.IsClosure .provider declarations report.findings declared warned := by
  have hdiscover : ∃ report declarations,
      cyclicManifest.discover .provider .empty = (report, .ok declarations) ∧
      declarations.map (fun found => (found.path, found.carrier.via)) =
        [("crate::Leaf", some "crate::Outer"), ("crate::Leaf", some "crate::Outer"),
          ("crate::Leaf", some "crate::Inner"), ("crate::Leaf", none)] ∧
      report.findings.length = 4 := ⟨_, _, rfl, by decide, by decide⟩
  obtain ⟨report, declarations, hdiscover, hdeclarations, hlength⟩ := hdiscover
  obtain ⟨warnings, declared, warned, hfindings, hclosure⟩ := discover_closure hdiscover
  obtain rfl : report.findings = warnings := hfindings
  exact ⟨report, declarations, declared, warned, hdiscover, hdeclarations, hlength, hclosure⟩

end Manifest

end Bindery
