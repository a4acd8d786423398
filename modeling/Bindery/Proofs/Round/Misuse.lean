import Bindery.Proofs.Round.Closure
/-!
# What stops a round

The discovery of a role stops at the first origin whose mark reaches something that cannot be bound
(`discover_stops`). `accept_aborts` says when a round is stopped, what it gives as the causes, and
what has been reported by then: each role contributes its own causes and its own warnings, and no
shape is looked at.
-/

namespace Bindery

namespace Manifest

/-! ## Where discovery stops -/

/-- The mark of an origin reaches something that cannot be bound, which is a misuse. -/
def UnsupportedFrom (manifest : Manifest) (role : Role) (origin : Origin) (fatal : Fatal) : Prop :=
  ∃ target carrier word, manifest.ReachedFrom role origin target carrier ∧
    target.isAlias = false ∧ target.category = .unsupported word ∧
    fatal = .unsupportedCategory role word target.path target.location

/-- The discovery of a role stops at the first origin that reaches something that cannot be
bound. -/
def StopsAt (manifest : Manifest) (role : Role) (origin : Origin) (fatal : Fatal) : Prop :=
  manifest.UnsupportedFrom role origin fatal ∧
    ∀ other misuse, manifest.UnsupportedFrom role other misuse →
      other = origin ∨ origin.Before other

/-- All that is declared for a role, in the order of the origins. -/
def Discovers (manifest : Manifest) (role : Role) (declarations : List Declaration) : Prop :=
  ∃ origins : List Origin, origins.Pairwise Origin.Before ∧
    List.Forall₂ (manifest.DeclaredFrom role) origins declarations ∧
    ∀ origin declaration, manifest.DeclaredFrom role origin declaration → origin ∈ origins

/-- The warnings about aliases that are reached before the discovery of a role stops, if it does, in
the order of the origins. -/
def Warns (manifest : Manifest) (role : Role) (warnings : List Finding) : Prop :=
  ∃ origins : List Origin, origins.Pairwise Origin.Before ∧
    List.Forall₂ (manifest.WarnedFrom role) origins warnings ∧
    ∀ origin, origin ∈ origins ↔ (∃ finding, manifest.WarnedFrom role origin finding) ∧
      ∀ last fatal, manifest.StopsAt role last fatal → origin.Before last

section
variable {manifest : Manifest} {role : Role} {report report' : Report} {fatal : Fatal}

theorem stopsAt_unique {origin other : Origin} {misuse : Fatal}
    (h : manifest.StopsAt role origin fatal) (hother : manifest.StopsAt role other misuse) :
    origin = other := by
  rcases h.2 other misuse hother.1 with heq | hbefore
  · exact heq.symm
  · rcases hother.2 origin fatal h.1 with heq | hafter
    · exact heq
    · exact absurd hafter hbefore.asymm

/-- Declaring stops at the first entry that cannot be declared. The aliases that were reached until
then are reported. -/
theorem declareAll_stops {reaches : List Reach}
    (h : manifest.declareAll reaches report = (report', .error fatal)) :
    ∃ before entry carrier after, reaches = before ++ .entry entry carrier :: after ∧
      (∀ earlier other, .entry earlier other ∈ before →
        ∃ declaration, manifest.declare earlier other = .ok declaration) ∧
      manifest.declare entry carrier = .error fatal ∧
      report'.findings = report.findings ++ before.filterMap Reach.warning? := by
  induction reaches generalizing report with
  | nil => cases (Prod.mk.inj h).2
  | cons reached rest ih =>
    cases reached with
    | nested inner outer =>
      obtain ⟨before, entry, carrier, after, rfl, hbefore, hfatal, hfindings⟩ := ih h
      refine ⟨.nested inner outer :: before, entry, carrier, after, rfl, ?_, hfatal, ?_⟩
      · exact fun earlier other hmem => hbefore earlier other (by simpa using hmem)
      · rw [hfindings]
        simp [Reach.warning?, Report.warn, Report.push]
    | entry first firstCarrier =>
      rw [declareAll] at h
      split at h
      · next cause hcause =>
        obtain ⟨rfl, hfatal⟩ := Prod.mk.inj h
        obtain rfl := Except.error.inj hfatal
        exact ⟨[], first, firstCarrier, rest, rfl, by simp, hcause, by simp⟩
      · next declaration hdeclaration =>
        rcases hrest : manifest.declareAll rest report with ⟨found, cause | declarations⟩ <;>
          rw [hrest] at h
        · obtain ⟨rfl, hfatal⟩ := Prod.mk.inj h
          obtain rfl := Except.error.inj hfatal
          obtain ⟨before, entry, carrier, after, rfl, hbefore, hfatal, hfindings⟩ := ih hrest
          refine ⟨.entry first firstCarrier :: before, entry, carrier, after, rfl, ?_, hfatal, ?_⟩
          · intro earlier other hmem
            rcases List.mem_cons.1 hmem with heq | hmem
            · obtain ⟨rfl, rfl⟩ := Reach.entry.inj heq
              exact ⟨declaration, hdeclaration⟩
            · exact hbefore earlier other hmem
          · rw [hfindings]
            rfl
        · cases (Prod.mk.inj h).2

/-! ## What is reached before -/

theorem unsupportedFrom_iff {origin : Origin} :
    manifest.UnsupportedFrom role origin fatal ↔
      ∃ target carrier, (origin, .entry target carrier) ∈ manifest.traced role ∧
        manifest.declare target carrier = .error fatal := by
  constructor
  · rintro ⟨target, carrier, word, hreached, hplain, hcategory, rfl⟩
    refine ⟨target, carrier, mem_traced.2 ⟨hreached, hplain⟩, ?_⟩
    rw [declare_unsupported _ hcategory, role_of_reachedFrom hreached]
  · rintro ⟨target, carrier, hmem, hdeclare⟩
    obtain ⟨hreached, hplain⟩ := mem_traced.1 hmem
    cases hcategory : target.category with
    | unsupported word =>
      rw [declare_unsupported _ hcategory, role_of_reachedFrom hreached] at hdeclare
      exact ⟨target, carrier, word, hreached, hplain, hcategory, (Except.error.inj hdeclare).symm⟩
    | type | function =>
      simp only [declare, shape?, typeShape?, hcategory] at hdeclare
      cases hdeclare

theorem warns_of_prefix {front back : List (Origin × Reach)}
    (htraced : manifest.traced role = front ++ back)
    (hstop : ∀ found ∈ manifest.traced role, found ∈ front ↔
      ∀ last misuse, manifest.StopsAt role last misuse → found.1.Before last) :
    manifest.Warns role ((front.map (·.2)).filterMap Reach.warning?) := by
  have hsub : front.Sublist (manifest.traced role) := htraced ▸ List.sublist_append_left _ _
  refine ⟨(front.filter (·.2.warning?.isSome)).map (·.1), ?_, ?_, fun origin => ?_⟩
  · rw [List.pairwise_map]
    exact ((traced_sorted manifest role).sublist hsub).filter _
  · exact warned_traced fun found hfound => hsub.subset hfound
  · rw [List.mem_map]
    constructor
    · rintro ⟨found, hfound, rfl⟩
      obtain ⟨hfound, hwarning⟩ := List.mem_filter.1 hfound
      have hmem := hsub.subset hfound
      refine ⟨?_, (hstop _ hmem).1 hfound⟩
      obtain ⟨origin, reached⟩ := found
      cases reached with
      | entry => cases hwarning
      | nested inner outer => exact ⟨_, inner, outer, mem_traced_nested.1 hmem, rfl⟩
    · rintro ⟨⟨finding, hwarned⟩, hbefore⟩
      obtain ⟨found, hmem, hwarning, rfl⟩ := mem_warned hwarned
      exact ⟨found, List.mem_filter.2 ⟨(hstop _ hmem).2 hbefore, hwarning⟩, rfl⟩

/-- A discovery that fails has come to the first origin that reaches something that cannot be
bound. -/
theorem discover_stops (h : manifest.discover role report = (report', .error fatal)) :
    ∃ origin warnings, manifest.StopsAt role origin fatal ∧ manifest.Warns role warnings ∧
      report'.findings = report.findings ++ warnings := by
  obtain ⟨before, entry, carrier, after, hreach, hbefore, hfatal, hfindings⟩ := declareAll_stops h
  rw [← traced_reach, List.map_eq_append_iff] at hreach
  obtain ⟨front, back, htraced, rfl, hback⟩ := hreach
  obtain ⟨⟨origin, reached⟩, rest, rfl, rfl, rfl⟩ := List.map_eq_cons_iff.1 hback
  have hsorted := traced_sorted manifest role
  rw [htraced, List.pairwise_append, List.pairwise_cons] at hsorted
  obtain ⟨-, ⟨hafter, -⟩, hfront⟩ := hsorted
  -- Nothing before the origin is a misuse, and so all misuses stand behind it.
  have hstops : manifest.StopsAt role origin fatal := by
    refine ⟨unsupportedFrom_iff.2 ⟨entry, carrier, by simp [htraced], hfatal⟩, ?_⟩
    intro other misuse hmisuse
    obtain ⟨target, otherCarrier, hmem, hdeclare⟩ := unsupportedFrom_iff.1 hmisuse
    rw [htraced, List.mem_append, List.mem_cons] at hmem
    rcases hmem with hmem | heq | hmem
    · obtain ⟨declaration, hok⟩ := hbefore target otherCarrier (List.mem_map.2 ⟨_, hmem, rfl⟩)
      rw [hdeclare] at hok
      cases hok
    · exact .inl (Prod.mk.inj heq).1
    · exact .inr (hafter _ hmem)
  refine ⟨origin, _, hstops, warns_of_prefix htraced fun found hmem => ?_, hfindings⟩
  constructor
  · intro hfound last misuse hlast
    obtain rfl := stopsAt_unique hlast hstops
    exact hfront found hfound _ List.mem_cons_self
  · intro hlast
    have hfirst := hlast origin fatal hstops
    rw [htraced, List.mem_append, List.mem_cons] at hmem
    rcases hmem with hmem | rfl | hmem
    · exact hmem
    · exact absurd hfirst (Origin.not_before_self _)
    · exact absurd hfirst (hafter found hmem).asymm

/-- A discovery that succeeds comes to nothing that cannot be bound. -/
theorem discover_finishes {declarations : List Declaration}
    (h : manifest.discover role report = (report', .ok declarations)) :
    (∀ origin fatal, ¬manifest.UnsupportedFrom role origin fatal) ∧
      manifest.Discovers role declarations ∧
      ∃ warnings, manifest.Warns role warnings ∧
        report'.findings = report.findings ++ warnings := by
  have hnone : ∀ origin fatal, ¬manifest.UnsupportedFrom role origin fatal := by
    rintro origin fatal ⟨target, carrier, word, hreached, hplain, hcategory, -⟩
    obtain ⟨declaration, found, other, hfound, -, hdeclare⟩ := exists_declared h hreached hplain
    obtain ⟨_, _, -, -, htarget, -⟩ := hreached
    obtain ⟨_, _, -, -, hsame, -⟩ := hfound
    obtain rfl := Option.some.inj (htarget.symm.trans hsame)
    rw [declare_unsupported _ hcategory] at hdeclare
    cases hdeclare
  refine ⟨hnone, discover_origins h, _, warns_of_prefix (List.append_nil _).symm ?_, ?_⟩
  · intro found hmem
    exact ⟨fun _ last fatal hlast => absurd hlast.1 (hnone last fatal), fun _ => hmem⟩
  · rw [traced_reach]
    exact (declareAll_ok h).1

end

/-! ## What stops a round -/

/-- The causes that the providers give for stopping a round. -/
inductive ProviderCauses (manifest : Manifest) : List Fatal → Prop
  | unsupported {origin : Origin} {fatal : Fatal}
    (stops : manifest.StopsAt .provider origin fatal) :
    ProviderCauses manifest [fatal]
  | none (supported : ∀ origin fatal, ¬manifest.UnsupportedFrom .provider origin fatal) :
    ProviderCauses manifest []

/-- The causes that the gateways give for stopping a round. They are counted only if all of them
can be declared. -/
inductive GatewayCauses (manifest : Manifest) : List Fatal → Prop
  | unsupported {origin : Origin} {fatal : Fatal}
    (stops : manifest.StopsAt .gateway origin fatal) :
    GatewayCauses manifest [fatal]
  | several {gateways : List Declaration}
    (supported : ∀ origin fatal, ¬manifest.UnsupportedFrom .gateway origin fatal)
    (discovers : manifest.Discovers .gateway gateways) (several : 1 < gateways.length) :
    GatewayCauses manifest [.multipleGateways (gateways.map (·.path))]
  | none {gateways : List Declaration}
    (supported : ∀ origin fatal, ¬manifest.UnsupportedFrom .gateway origin fatal)
    (discovers : manifest.Discovers .gateway gateways) (one : gateways.length ≤ 1) :
    GatewayCauses manifest []

/-- The warnings about the tags that name no alias. -/
def unresolvedWarnings (manifest : Manifest) : List Finding :=
  manifest.unresolvedTags.map fun (entry, tag) =>
    ⟨.warning, some entry.location, Generator.unresolvedMessage entry tag⟩

/-- More than one declaration is the interceptor, whatever their shapes. -/
def HasSeveralGateways (manifest : Manifest) : Prop :=
  ∃ first second declaration other, first ≠ second ∧
    manifest.DeclaredFrom .gateway first declaration ∧ manifest.DeclaredFrom .gateway second other

theorem hasSeveralGateways_iff {manifest : Manifest} {gateways : List Declaration}
    (h : manifest.Discovers .gateway gateways) :
    manifest.HasSeveralGateways ↔ 1 < gateways.length := by
  obtain ⟨origins, hsorted, hdeclared, hall⟩ := h
  rw [← hdeclared.length_eq]
  constructor
  · rintro ⟨first, second, declaration, other, hne, hfirst, hsecond⟩
    have hfirst := hall first _ hfirst
    have hsecond := hall second _ hsecond
    rcases origins with _ | ⟨origin, _ | ⟨next, rest⟩⟩
    · cases hfirst
    · exact absurd ((List.mem_singleton.1 hfirst).trans (List.mem_singleton.1 hsecond).symm) hne
    · simp
  · intro hseveral
    rcases origins with _ | ⟨first, _ | ⟨second, rest⟩⟩
    · simp at hseveral
    · simp at hseveral
    · obtain ⟨declaration, _, hfirst, hrest, -⟩ := List.forall₂_cons_left_iff.1 hdeclared
      obtain ⟨other, _, hsecond, -, -⟩ := List.forall₂_cons_left_iff.1 hrest
      refine ⟨first, second, declaration, other, ?_, hfirst, hsecond⟩
      rintro rfl
      exact Origin.not_before_self _ ((List.pairwise_cons.1 hsorted).1 _ List.mem_cons_self)

theorem ProviderCauses.ne_nil_iff {manifest : Manifest} {causes : List Fatal}
    (h : manifest.ProviderCauses causes) :
    causes ≠ [] ↔ ∃ origin fatal, manifest.UnsupportedFrom .provider origin fatal := by
  cases h with
  | unsupported stops => exact ⟨fun _ => ⟨_, _, stops.1⟩, fun _ => List.cons_ne_nil _ _⟩
  | none supported =>
    exact ⟨fun hne => absurd rfl hne, fun ⟨origin, fatal, h⟩ => absurd h (supported origin fatal)⟩

theorem GatewayCauses.ne_nil_iff {manifest : Manifest} {causes : List Fatal}
    (h : manifest.GatewayCauses causes) :
    causes ≠ [] ↔ (∃ origin fatal, manifest.UnsupportedFrom .gateway origin fatal) ∨
      manifest.HasSeveralGateways := by
  cases h with
  | unsupported stops => exact ⟨fun _ => .inl ⟨_, _, stops.1⟩, fun _ => List.cons_ne_nil _ _⟩
  | several supported discovers several =>
    exact ⟨fun _ => .inr ((hasSeveralGateways_iff discovers).2 several),
      fun _ => List.cons_ne_nil _ _⟩
  | none supported discovers one =>
    refine ⟨fun hne => absurd rfl hne, ?_⟩
    rintro (⟨origin, fatal, h⟩ | hseveral)
    · exact absurd h (supported origin fatal)
    · have := (hasSeveralGateways_iff discovers).1 hseveral
      omega

end Manifest

namespace Generator

section
variable {manifest : Manifest} {report between : Report}
  {outcome : Except Fatal (List Declaration)}

theorem providerCauses_of_discover (h : manifest.discover .provider report = (between, outcome)) :
    ∃ first warnings, manifest.ProviderCauses first ∧ manifest.Warns .provider warnings ∧
      between.findings = report.findings ++ warnings ∧ misuses outcome (.ok []) = first ∧
      (first = [] → ∃ providers, outcome = .ok providers) := by
  rcases outcome with fatal | providers
  · obtain ⟨origin, warnings, hstops, hwarns, hfindings⟩ := Manifest.discover_stops h
    exact ⟨[fatal], warnings, .unsupported hstops, hwarns, hfindings, rfl,
      fun hnone => by cases hnone⟩
  · obtain ⟨hnone, -, warnings, hwarns, hfindings⟩ := Manifest.discover_finishes h
    exact ⟨[], warnings, .none hnone, hwarns, hfindings, rfl, fun _ => ⟨providers, rfl⟩⟩

theorem gatewayCauses_of_discover (h : manifest.discover .gateway report = (between, outcome)) :
    ∃ second warnings, manifest.GatewayCauses second ∧ manifest.Warns .gateway warnings ∧
      between.findings = report.findings ++ warnings ∧
      (∀ providers, misuses providers outcome = misuses providers (.ok []) ++ second) ∧
      (second = [] → ∃ gateways, outcome = .ok gateways) := by
  rcases outcome with fatal | gateways
  · obtain ⟨origin, warnings, hstops, hwarns, hfindings⟩ := Manifest.discover_stops h
    refine ⟨[fatal], warnings, .unsupported hstops, hwarns, hfindings, fun providers => ?_,
      fun hnone => by cases hnone⟩
    simp [misuses]
  · obtain ⟨hnone, hdiscovers, warnings, hwarns, hfindings⟩ := Manifest.discover_finishes h
    by_cases hseveral : 1 < gateways.length
    · refine ⟨_, warnings, .several hnone hdiscovers hseveral, hwarns, hfindings,
        fun providers => ?_, fun hnone => by cases hnone⟩
      simp [misuses, hseveral]
    · refine ⟨[], warnings, .none hnone hdiscovers (by omega), hwarns, hfindings,
        fun providers => ?_, fun _ => ⟨gateways, rfl⟩⟩
      simp [misuses, hseveral]

end

/-- What a round comes to. -/
theorem accept_cases (generator : Generator) (manifest : Manifest) (report : Report) :
    ∃ first second between providerWarnings gatewayWarnings,
      manifest.ProviderCauses first ∧ manifest.GatewayCauses second ∧
      manifest.Warns .provider providerWarnings ∧ manifest.Warns .gateway gatewayWarnings ∧
      between.findings = report.findings ++ manifest.unresolvedWarnings ++ providerWarnings ++
        gatewayWarnings ∧
      (first ++ second = [] → ∃ report' accepted,
        generator.accept manifest report = (report', .ok accepted)) ∧
      (first ++ second ≠ [] →
        generator.accept manifest report = (between, .error (.aborted (first ++ second)))) := by
  have hunresolved : (reportUnresolved manifest report).findings =
      report.findings ++ manifest.unresolvedWarnings :=
    Report.foldl_warn _ _ _ report
  rcases hproviders : manifest.discover .provider (reportUnresolved manifest report) with
    ⟨middle, providers⟩
  rcases hgateways : manifest.discover .gateway middle with ⟨between, gateways⟩
  obtain ⟨first, providerWarnings, hfirst, hwarns, hmiddle, hcauses, hok⟩ :=
    providerCauses_of_discover hproviders
  obtain ⟨second, gatewayWarnings, hsecond, hwarns', hbetween, hcauses', hok'⟩ :=
    gatewayCauses_of_discover hgateways
  have hmisuses : misuses providers gateways = first ++ second := by rw [hcauses', hcauses]
  refine ⟨first, second, between, providerWarnings, gatewayWarnings, hfirst, hsecond, hwarns,
    hwarns', by rw [hbetween, hmiddle, hunresolved], fun hnone => ?_, fun hsome => ?_⟩
  · obtain ⟨rfl, rfl⟩ := List.append_eq_nil_iff.1 hnone
    obtain ⟨declarations, rfl⟩ := hok rfl
    obtain ⟨others, rfl⟩ := hok' rfl
    simp only [accept, hproviders, hgateways, hmisuses]
    exact ⟨_, _, rfl⟩
  · simp only [accept, hproviders, hgateways, hmisuses]
    split
    · next hnone => exact absurd hnone hsome
    · rfl

/-- A round is stopped exactly by marks on what cannot be bound and by more than one gateway. The
causes are then the first such mark of a provider, and the first such mark of a gateway or, if there
is none, all gateways; and nothing but warnings is reported, about tags that name no alias and, for
each role, about the aliases that are reached before its discovery stops. -/
theorem accept_aborts (generator : Generator) (manifest : Manifest) (report : Report) :
    ((∃ causes, (generator.accept manifest report).2 = .error (.aborted causes)) ↔
      (∃ role origin fatal, manifest.UnsupportedFrom role origin fatal) ∨
        manifest.HasSeveralGateways) ∧
    ∀ report' error, generator.accept manifest report = (report', .error error) →
      ∃ first second providerWarnings gatewayWarnings,
        error = .aborted (first ++ second) ∧
        manifest.ProviderCauses first ∧ manifest.GatewayCauses second ∧
        manifest.Warns .provider providerWarnings ∧ manifest.Warns .gateway gatewayWarnings ∧
        report'.findings = report.findings ++ manifest.unresolvedWarnings ++ providerWarnings ++
          gatewayWarnings := by
  obtain ⟨first, second, between, providerWarnings, gatewayWarnings, hfirst, hsecond, hwarns,
    hwarns', hfindings, hok, hstopped⟩ := accept_cases generator manifest report
  by_cases hnone : first ++ second = []
  · obtain ⟨report', accepted, haccept⟩ := hok hnone
    obtain ⟨rfl, rfl⟩ := List.append_eq_nil_iff.1 hnone
    rw [haccept]
    refine ⟨⟨fun ⟨_, h⟩ => (nomatch h), ?_⟩, fun _ _ h => (nomatch (Prod.mk.inj h).2)⟩
    rintro (⟨role, origin, fatal, h⟩ | hseveral)
    · cases role with
      | provider => exact absurd rfl (hfirst.ne_nil_iff.2 ⟨origin, fatal, h⟩)
      | gateway => exact absurd rfl (hsecond.ne_nil_iff.2 (.inl ⟨origin, fatal, h⟩))
    · exact absurd rfl (hsecond.ne_nil_iff.2 (.inr hseveral))
  · rw [hstopped hnone]
    refine ⟨⟨fun _ => ?_, fun _ => ⟨_, rfl⟩⟩, fun report' error h => ?_⟩
    · rcases not_and_or.1 (mt List.append_eq_nil_iff.2 hnone) with hne | hne
      · obtain ⟨origin, fatal, h⟩ := hfirst.ne_nil_iff.1 hne
        exact .inl ⟨.provider, origin, fatal, h⟩
      · rcases hsecond.ne_nil_iff.1 hne with ⟨origin, fatal, h⟩ | hseveral
        · exact .inl ⟨.gateway, origin, fatal, h⟩
        · exact .inr hseveral
    · obtain ⟨rfl, herror⟩ := Prod.mk.inj h
      exact ⟨first, second, providerWarnings, gatewayWarnings, (Except.error.inj herror).symm,
        hfirst, hsecond, hwarns, hwarns', hfindings⟩

/-- A constant between two aliases that are tagged with themselves, and two gateways, one of them
private and with a tag that names no alias. -/
def misusedManifest : Manifest where
  entries := [
    ⟨"crate::Early", "Early", none, .type .public true false, [.provider "a", .tagged "Early"],
      true, ⟨"lib.rs", 1⟩⟩,
    ⟨"crate::N", "N", none, .unsupported "const", [.provider "n"], false, ⟨"lib.rs", 2⟩⟩,
    ⟨"crate::Late", "Late", none, .type .public true false, [.provider "z", .tagged "Late"], true,
      ⟨"lib.rs", 3⟩⟩,
    ⟨"crate::one", "one", none, .function ⟨.public, false, ["Option<&Context>"], none⟩, [.gateway],
      false, ⟨"lib.rs", 4⟩⟩,
    ⟨"crate::two", "two", none, .function ⟨.private, true, [], none⟩, [.gateway, .tagged "Nowhere"],
      false, ⟨"lib.rs", 5⟩⟩]
  implementations := []

/-- The constant and the gateways are both causes. Of the aliases only the one before the constant
is reported. -/
theorem misused_aborts :
    ∃ report first second providerWarnings gatewayWarnings,
      sample.accept misusedManifest .empty = (report, .error (.aborted (first ++ second))) ∧
      first ++ second = [.unsupportedCategory .provider "const" "crate::N" ⟨"lib.rs", 2⟩,
        .multipleGateways ["crate::one", "crate::two"]] ∧
      report.findings.length = 2 ∧
      misusedManifest.ProviderCauses first ∧ misusedManifest.GatewayCauses second ∧
      misusedManifest.Warns .provider providerWarnings ∧
      misusedManifest.Warns .gateway gatewayWarnings ∧
      report.findings =
        misusedManifest.unresolvedWarnings ++ providerWarnings ++ gatewayWarnings := by
  have haccept : ∃ report causes,
      sample.accept misusedManifest .empty = (report, .error (.aborted causes)) ∧
      causes = [.unsupportedCategory .provider "const" "crate::N" ⟨"lib.rs", 2⟩,
        .multipleGateways ["crate::one", "crate::two"]] ∧
      report.findings.length = 2 := ⟨_, _, rfl, by decide, by decide⟩
  obtain ⟨report, causes, haccept, hcauses, hlength⟩ := haccept
  obtain ⟨first, second, providerWarnings, gatewayWarnings, herror, hfirst, hsecond, hwarns,
    hwarns', hfindings⟩ := (accept_aborts sample misusedManifest .empty).2 _ _ haccept
  obtain rfl : causes = first ++ second := RoundError.aborted.inj herror
  exact ⟨report, first, second, providerWarnings, gatewayWarnings, haccept, hcauses, hlength,
    hfirst, hsecond, hwarns, hwarns', hfindings⟩

end Generator

end Bindery
