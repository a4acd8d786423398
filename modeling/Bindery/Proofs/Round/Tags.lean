import Bindery.Proofs.Round.Acceptance
/-!
# What becomes of a tag

A tag on an item leads to declarations only through an alias that carries a mark itself. `TagFate`
lists what can become of a tag in a round that accepts, and `accept_tagged` says that nothing else
can: what a tag leads to is accepted or reported, and a tag that names no alias is reported. A tag
is lost without a word only if aliases of its name exist and none of them carries a mark.
-/

namespace Bindery

/-- There is an alias of a name at a position. -/
def Manifest.AliasAt (manifest : Manifest) (name : String) (position : Nat) (outer : Entry) :
    Prop :=
  manifest.entries[position]? = some outer ∧ outer.isAlias = true ∧ outer.ident = name

/-- A declaration is accepted, or an error says why it is left out. -/
def Accepted.Settles (accepted : Accepted) (rules : ShapeRules) (added : List Finding)
    (declaration : Declaration) : Prop :=
  declaration ∈ accepted.providers ++ accepted.gateway.toList ∨
    ∃ finding ∈ added, rules.Rejects declaration finding

namespace Generator

/-- What becomes of a tag on the entry at a position: it names no alias, which is reported; or it
names an alias that carries a mark, and then each mark on such an alias gives a declaration, which
is accepted or reported; or no alias that it names carries a mark, and then it leads to nothing, and
those of the aliases that are tagged themselves with one that does are reported. -/
inductive TagFate (generator : Generator) (manifest : Manifest) (accepted : Accepted)
    (added : List Finding) (position : Nat) (entry : Entry) (tag : String) : Prop
  | unresolved (nameless : ∀ place outer, ¬manifest.AliasAt tag place outer)
    (warned : ⟨.warning, some entry.location, unresolvedMessage entry tag⟩ ∈ added)
  | expanded
    (marked : ∃ place outer role, manifest.AliasAt tag place outer ∧ outer.marks role ≠ [])
    (settled : ∀ role place outer index mark, manifest.AliasAt tag place outer →
      (outer.marks role)[index]? = some mark →
      ∃ declarations, ∃ declaration ∈ declarations,
        (∀ report, (manifest.discover role report).2 = .ok declarations) ∧
        manifest.DeclaredFrom role ⟨place, index, position⟩ declaration ∧
        declaration.carrier = ⟨mark, some outer.path⟩ ∧
        accepted.Settles generator.rules added declaration)
  | inert (named : ∃ place outer, manifest.AliasAt tag place outer)
    (unmarked : ∀ role place outer, manifest.AliasAt tag place outer → outer.marks role = [])
    (undeclared : ∀ role origin declaration, manifest.DeclaredFrom role origin declaration →
      ∀ outer, ¬manifest.AliasAt tag origin.carrier outer)
    (nested : ∀ role place outer further, manifest.AliasAt tag place outer →
      further ∈ manifest.entries → further.isAlias = true → outer.isTagged further.ident = true →
      further.marks role ≠ [] →
      ⟨.warning, some outer.location, Manifest.nestedAliasMessage outer further⟩ ∈ added)

end Generator

namespace Manifest

variable {manifest : Manifest}

theorem hasAlias_iff {name : String} :
    manifest.hasAlias name = true ↔ ∃ place outer, manifest.AliasAt name place outer := by
  unfold hasAlias AliasAt
  rw [List.any_eq_true]
  constructor
  · rintro ⟨outer, hmem, h⟩
    obtain ⟨place, houter⟩ := List.mem_iff_getElem?.1 hmem
    rw [Bool.and_eq_true, beq_iff_eq] at h
    exact ⟨place, outer, houter, h⟩
  · rintro ⟨place, outer, houter, halias, hident⟩
    exact ⟨outer, List.mem_of_getElem? houter, by simp [halias, hident]⟩

/-- A tag that names no alias is warned about. -/
theorem mem_unresolvedWarnings {entry : Entry} {tag : String} (hmem : entry ∈ manifest.entries)
    (htag : tag ∈ entry.tags) (hnone : manifest.hasAlias tag = false) :
    ⟨.warning, some entry.location, Generator.unresolvedMessage entry tag⟩ ∈
      manifest.unresolvedWarnings := by
  have hunresolved : (entry, tag) ∈ manifest.unresolvedTags := by
    refine List.mem_filter.2 ⟨List.mem_flatMap.2 ⟨entry, hmem, ?_⟩, by simp [hnone]⟩
    exact List.mem_map.2 ⟨tag, htag, rfl⟩
  exact List.mem_map.2 ⟨(entry, tag), hunresolved, rfl⟩

/-- An alias that is tagged with one that carries a mark is warned about. -/
theorem mem_aliasWarnings {role : Role} {outer further : Entry} (houter : outer ∈ manifest.entries)
    (halias : outer.isAlias = true) (hfurther : further ∈ manifest.entries)
    (hfurtherAlias : further.isAlias = true) (htagged : outer.isTagged further.ident = true)
    (hmarked : further.marks role ≠ []) :
    ⟨.warning, some outer.location, nestedAliasMessage outer further⟩ ∈
      manifest.aliasWarnings role := by
  obtain ⟨mark, hmark⟩ := List.exists_mem_of_ne_nil _ hmarked
  have hreached : .nested outer further ∈ manifest.reach role := by
    refine List.mem_flatMap.2 ⟨further, hfurther, List.mem_flatMap.2 ⟨mark, hmark, ?_⟩⟩
    rw [if_pos hfurtherAlias]
    exact List.mem_map.2 ⟨outer, List.mem_filter.2 ⟨houter, htagged⟩, if_pos halias⟩
  exact List.mem_filterMap.2 ⟨_, hreached, rfl⟩

/-- A mark on an alias reaches what is tagged with its name. -/
theorem reachedFrom_alias {role : Role} {tag : String} {place index position : Nat}
    {outer entry : Entry} {mark : Mark} (hposition : manifest.entries[position]? = some entry)
    (htag : tag ∈ entry.tags) (houter : manifest.AliasAt tag place outer)
    (hmark : (outer.marks role)[index]? = some mark) :
    manifest.ReachedFrom role ⟨place, index, position⟩ entry ⟨mark, some outer.path⟩ := by
  obtain ⟨houter, halias, hident⟩ := houter
  have htagged : entry.isTagged outer.ident = true := by
    rw [Entry.isTagged, List.any_eq_true]
    exact ⟨tag, htag, by simp [hident]⟩
  exact ⟨outer, mark, houter, hmark, hposition, .inl ⟨halias, htagged, rfl⟩⟩

/-- What is reached is among what is declared. -/
theorem Declares.exists_mem {role : Role} {declarations : List Declaration}
    (h : manifest.Declares role declarations) {origin : Origin} {target : Entry} {carrier : Carrier}
    (hreached : manifest.ReachedFrom role origin target carrier) (hplain : target.isAlias = false) :
    ∃ declaration ∈ declarations, manifest.declare target carrier = .ok declaration := by
  have hmem : (target, carrier) ∈ (manifest.reach role).filterMap Reach.target? := by
    rw [← targets_reach]
    exact List.mem_map.2 ⟨(origin, target, carrier), mem_targets.2 ⟨hreached, hplain⟩, rfl⟩
  exact exists_of_mem_left h hmem

end Manifest

namespace Generator

/-- What is declared is accepted or reported. -/
theorem settles_of_mem {rules : ShapeRules} {providers gateways : List Declaration}
    {added : List Finding} (hone : gateways.length ≤ 1)
    (hadded : (providers ++ gateways).flatMap rules.findings ⊆ added) {declaration : Declaration}
    (hmem : declaration ∈ providers ++ gateways) :
    (acceptedOf rules providers gateways).Settles rules added declaration := by
  rcases rules.check_spec declaration with ⟨hsatisfies, -⟩ | ⟨violation, hbreaks, hcheck⟩
  · left
    have hsatisfies : decide (rules.Satisfies declaration) = true := decide_eq_true hsatisfies
    rcases List.mem_append.1 hmem with hmem | hmem
    · exact List.mem_append_left _ (List.mem_filter.2 ⟨hmem, hsatisfies⟩)
    · refine List.mem_append_right _ ?_
      rcases gateways with _ | ⟨gateway, _ | _⟩
      · cases hmem
      · obtain rfl := List.mem_singleton.1 hmem
        simp [acceptedOf, hsatisfies]
      · simp at hone
  · refine .inr ⟨⟨.error, some declaration.location, violationMessage violation⟩,
      hadded (List.mem_flatMap.2 ⟨declaration, hmem, ?_⟩), violation, hbreaks, rfl⟩
    rw [ShapeRules.findings, hcheck]
    exact List.mem_singleton.2 rfl

/-- A round that accepts gives each tag of each item one of three fates. -/
theorem accept_tagged {generator : Generator} {manifest : Manifest} {report report' : Report}
    {accepted : Accepted} (h : generator.accept manifest report = (report', .ok accepted)) :
    ∃ added, report'.findings = report.findings ++ added ∧
      ∀ position entry tag, manifest.entries[position]? = some entry → entry.isAlias = false →
        tag ∈ entry.tags → TagFate generator manifest accepted added position entry tag := by
  obtain ⟨providers, gateways, hproviders, hgateways, hone, rfl, hfindings⟩ := accept_ok_iff.1 h
  refine ⟨_, hfindings, fun position entry tag hposition hplain htag => ?_⟩
  have hreported : ∀ finding,
      finding ∈ manifest.unresolvedWarnings ∨ (∃ role, finding ∈ manifest.aliasWarnings role) ∨
        finding ∈ (providers ++ gateways).flatMap generator.rules.findings →
      finding ∈ reported generator.rules manifest providers gateways := by
    intro finding hfinding
    simp only [reported, List.mem_append]
    rcases hfinding with hfinding | ⟨role, hfinding⟩ | hfinding
    · exact .inl (.inl (.inl hfinding))
    · cases role with
      | provider => exact .inl (.inl (.inr hfinding))
      | gateway => exact .inl (.inr hfinding)
    · exact .inr hfinding
  have hdeclares : ∀ role, ∃ declarations, manifest.Declares role declarations ∧
      declarations ⊆ providers ++ gateways := by
    intro role
    cases role with
    | provider => exact ⟨providers, hproviders, List.subset_append_left _ _⟩
    | gateway => exact ⟨gateways, hgateways, List.subset_append_right _ _⟩
  by_cases hnamed : ∃ place outer, manifest.AliasAt tag place outer
  · by_cases hmarked : ∃ place outer role, manifest.AliasAt tag place outer ∧ outer.marks role ≠ []
    · refine .expanded hmarked fun role place outer index mark houter hmark => ?_
      obtain ⟨declarations, hdeclared, hsubset⟩ := hdeclares role
      have hreached := Manifest.reachedFrom_alias hposition htag houter hmark
      obtain ⟨declaration, hmem, hdeclare⟩ := hdeclared.exists_mem hreached hplain
      refine ⟨declarations, declaration, hmem, fun report => ?_,
        ⟨entry, _, hreached, hplain, hdeclare⟩, (parts_of_declare hdeclare).1, ?_⟩
      · obtain ⟨found, hdiscover, -⟩ := hdeclared.discover report
        rw [hdiscover]
      · exact settles_of_mem hone (fun finding hfinding => hreported _ (.inr (.inr hfinding)))
          (hsubset hmem)
    · have hunmarked : ∀ role place outer, manifest.AliasAt tag place outer →
          outer.marks role = [] := by
        intro role place outer houter
        by_contra hne
        exact hmarked ⟨place, outer, role, houter, hne⟩
      refine .inert hnamed hunmarked ?_ ?_
      · rintro role origin declaration ⟨_, _, ⟨carrier, mark, hcarrier, hmark, -⟩, -⟩ outer houter
        obtain rfl := Option.some.inj (hcarrier.symm.trans houter.1)
        rw [hunmarked role _ _ houter] at hmark
        cases hmark
      · intro role place outer further houter hfurther hfurtherAlias htagged hmarked
        exact hreported _ (.inr (.inl ⟨role, Manifest.mem_aliasWarnings
          (List.mem_of_getElem? houter.1) houter.2.1 hfurther hfurtherAlias htagged hmarked⟩))
  · have hnone : manifest.hasAlias tag = false :=
      Bool.eq_false_iff.2 (mt Manifest.hasAlias_iff.1 hnamed)
    refine .unresolved (fun place outer houter => hnamed ⟨place, outer, houter⟩) ?_
    exact hreported _ (.inl (Manifest.mem_unresolvedWarnings (List.mem_of_getElem? hposition) htag
      hnone))

/-- A type that is tagged with an alias, with one that is itself tagged with the first and has no
mark of its own, and with a name that is no alias. -/
def nestedManifest : Manifest where
  entries := [
    ⟨"crate::Outer", "Outer", none, .type .public true false, [.provider "outer"], true,
      ⟨"lib.rs", 1⟩⟩,
    ⟨"crate::Inner", "Inner", none, .type .public true false, [.tagged "Outer"], true,
      ⟨"lib.rs", 2⟩⟩,
    ⟨"crate::Leaf", "Leaf", none, .type .public true false,
      [.tagged "Outer", .tagged "Inner", .tagged "Lost"], false, ⟨"lib.rs", 3⟩⟩]
  implementations := [⟨"Delegate", "Leaf"⟩]

/-- The type is accepted once. What is reported is the name that is no alias, and the alias that is
reached through another. -/
theorem nested_tagged :
    ∃ report accepted leaf, sample.accept nestedManifest .empty = (report, .ok accepted) ∧
      accepted.providers.map (·.path) = ["crate::Leaf"] ∧
      report.findings.map (·.location) = [some ⟨"lib.rs", 3⟩, some ⟨"lib.rs", 2⟩] ∧
      nestedManifest.entries[2]? = some leaf ∧ leaf.tags = ["Outer", "Inner", "Lost"] ∧
      ∀ tag ∈ leaf.tags, TagFate sample nestedManifest accepted report.findings 2 leaf tag := by
  have haccept : ∃ report accepted,
      sample.accept nestedManifest .empty = (report, .ok accepted) ∧
      accepted.providers.map (·.path) = ["crate::Leaf"] ∧
      report.findings.map (·.location) = [some ⟨"lib.rs", 3⟩, some ⟨"lib.rs", 2⟩] :=
    ⟨_, _, rfl, by decide, by decide⟩
  obtain ⟨report, accepted, haccept, hpaths, hlocations⟩ := haccept
  obtain ⟨added, hadded, hfates⟩ := accept_tagged haccept
  obtain rfl : report.findings = added := hadded
  exact ⟨report, accepted, _, haccept, hpaths, hlocations, rfl, rfl,
    fun tag htag => hfates 2 _ tag rfl rfl htag⟩

/-- An alias without a mark, and a type that is tagged with it. -/
def inertManifest : Manifest where
  entries := [
    ⟨"crate::Inert", "Inert", none, .type .public true false, [], true, ⟨"lib.rs", 1⟩⟩,
    ⟨"crate::Stray", "Stray", none, .type .public true false, [.tagged "Inert"], false,
      ⟨"lib.rs", 2⟩⟩]
  implementations := []

/-- The type is not discovered, and nothing is reported. -/
theorem stray_lost :
    (∃ stray ∈ inertManifest.entries, stray.isAlias = false ∧ stray.tags = ["Inert"]) ∧
    (∀ role, (inertManifest.discover role .empty).2 = .ok []) ∧
    ∃ report accepted, sample.accept inertManifest .empty = (report, .ok accepted) ∧
      report.findings = [] := by
  refine ⟨⟨_, List.mem_cons_of_mem _ List.mem_cons_self, rfl, rfl⟩, ?_, _, _, rfl, rfl⟩
  intro role
  cases role <;> rfl

end Generator

end Bindery
