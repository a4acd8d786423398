import Bindery.Proofs.Round.Misuse
/-!
# What a round accepts, and what it reports

`accept_ok_iff` says to the letter what a round comes to that nothing stops: what it accepts, and
every finding in its order. It takes what the marks reach as a list, without a look at positions.
-/

namespace Bindery

namespace Manifest

/-- The warnings about the aliases that the marks for a role reach. -/
def aliasWarnings (manifest : Manifest) (role : Role) : List Finding :=
  (manifest.reach role).filterMap Reach.warning?

/-- The declarations of all that the marks for a role reach, in order. -/
def Declares (manifest : Manifest) (role : Role) (declarations : List Declaration) : Prop :=
  List.Forall₂ (fun reached declaration =>
      manifest.declare reached.1 reached.2 = .ok declaration)
    ((manifest.reach role).filterMap Reach.target?) declarations

section
variable {manifest : Manifest} {role : Role} {report report' : Report}
  {declarations : List Declaration}

theorem Declares.unique {others : List Declaration} (h : manifest.Declares role declarations)
    (h' : manifest.Declares role others) : declarations = others := by
  refine List.right_unique_forall₂' ?_ h h'
  intro reached declaration other hdeclaration hother
  rw [hdeclaration] at hother
  exact Except.ok.inj hother

/-- Discovery succeeds exactly if all that is reached can be declared. -/
theorem discover_ok_iff :
    manifest.discover role report = (report', .ok declarations) ↔
      manifest.Declares role declarations ∧
        report'.findings = report.findings ++ manifest.aliasWarnings role := by
  constructor
  · intro h
    obtain ⟨hfindings, hdeclares⟩ := declareAll_ok h
    exact ⟨hdeclares, hfindings⟩
  · rintro ⟨hdeclares, hfindings⟩
    rcases h : manifest.discover role report with ⟨found, fatal | others⟩
    · obtain ⟨before, entry, carrier, after, hreach, -, hfatal, -⟩ := declareAll_stops h
      have hmem : (entry, carrier) ∈ (manifest.reach role).filterMap Reach.target? := by
        rw [hreach]
        simp [Reach.target?]
      obtain ⟨declaration, -, hdeclaration⟩ := exists_of_mem_left hdeclares hmem
      rw [hfatal] at hdeclaration
      cases hdeclaration
    · obtain ⟨hfound, hothers⟩ := declareAll_ok h
      obtain rfl : declarations = others := hdeclares.unique hothers
      obtain rfl : report' = found := congrArg Report.mk (hfindings.trans hfound.symm)
      rfl

theorem Declares.discover (h : manifest.Declares role declarations) (report : Report) :
    ∃ found, manifest.discover role report = (found, .ok declarations) ∧
      found.findings = report.findings ++ manifest.aliasWarnings role :=
  ⟨⟨report.findings ++ manifest.aliasWarnings role⟩, discover_ok_iff.2 ⟨h, rfl⟩, rfl⟩

end

end Manifest

namespace Generator

/-- What a round accepts of the declarations for both roles. -/
def acceptedOf (rules : ShapeRules) (providers gateways : List Declaration) : Accepted where
  providers := providers.filter (rules.Satisfies ·)
  gateway := (gateways.filter (rules.Satisfies ·)).head?

theorem misuses_eq_nil_iff {providers gateways : List Declaration} :
    misuses (.ok providers) (.ok gateways) = [] ↔ gateways.length ≤ 1 := by
  simp [misuses]

/-- All that a round reports which nothing stops, with these declarations for both roles. -/
def reported (rules : ShapeRules) (manifest : Manifest) (providers gateways : List Declaration) :
    List Finding :=
  manifest.unresolvedWarnings ++ manifest.aliasWarnings .provider ++
    manifest.aliasWarnings .gateway ++ (providers ++ gateways).flatMap rules.findings

section
variable {generator : Generator} {manifest : Manifest} {report report' : Report}
  {providers gateways : List Declaration}

/-- Where all is declared and there is at most one gateway, only validation is left. -/
theorem accept_of_declares (generator : Generator) (report : Report)
    (hproviders : manifest.Declares .provider providers)
    (hgateways : manifest.Declares .gateway gateways) (hone : gateways.length ≤ 1) :
    ∃ final,
      generator.accept manifest report =
        (final, .ok (acceptedOf generator.rules providers gateways)) ∧
      final.findings =
        report.findings ++ reported generator.rules manifest providers gateways := by
  have hunresolved : (reportUnresolved manifest report).findings =
      report.findings ++ manifest.unresolvedWarnings :=
    Report.foldl_warn _ _ _ report
  obtain ⟨middle, hfirst, hmiddle⟩ := hproviders.discover (reportUnresolved manifest report)
  obtain ⟨last, hsecond, hlast⟩ := hgateways.discover middle
  obtain ⟨hpassed, hproviding⟩ := validate_eq generator.rules providers last
  obtain ⟨hpassed', hserving⟩ := validate_eq generator.rules gateways
    (validate generator.rules providers last).1
  refine ⟨(validate generator.rules gateways (validate generator.rules providers last).1).1, ?_, ?_⟩
  · simp only [accept, hfirst, hsecond, misuses_eq_nil_iff.2 hone, hproviding, hserving, acceptedOf]
  · rw [hpassed', hpassed, hlast, hmiddle, hunresolved, reported, List.flatMap_append]
    simp only [List.append_assoc]

/-- A round that accepts has declared all that is reached, and at most one gateway. -/
theorem declares_of_accept {accepted : Accepted}
    (h : generator.accept manifest report = (report', .ok accepted)) :
    ∃ providers gateways, manifest.Declares .provider providers ∧
      manifest.Declares .gateway gateways ∧ gateways.length ≤ 1 := by
  obtain ⟨providers, gateways, -, hproviders, hgateways, hone, -⟩ := accept_ok h
  exact ⟨providers, gateways, (Manifest.discover_ok_iff.1 (Prod.ext rfl hproviders)).1,
    (Manifest.discover_ok_iff.1 (Prod.ext rfl hgateways)).1, hone⟩

/-- A round accepts exactly if all that is reached can be declared and there is at most one gateway.
It reports the tags that name no alias, the aliases that are reached for each role, and what is to
be said about the shapes. -/
theorem accept_ok_iff {accepted : Accepted} :
    generator.accept manifest report = (report', .ok accepted) ↔
      ∃ providers gateways,
        manifest.Declares .provider providers ∧ manifest.Declares .gateway gateways ∧
        gateways.length ≤ 1 ∧ accepted = acceptedOf generator.rules providers gateways ∧
        report'.findings =
          report.findings ++ reported generator.rules manifest providers gateways := by
  constructor
  · intro h
    obtain ⟨providers, gateways, hproviders, hgateways, hone⟩ := declares_of_accept h
    obtain ⟨final, hfinal, hfindings⟩ := accept_of_declares generator report hproviders
      hgateways hone
    rw [h] at hfinal
    obtain ⟨rfl, haccepted⟩ := Prod.mk.inj hfinal
    exact ⟨providers, gateways, hproviders, hgateways, hone, Except.ok.inj haccepted, hfindings⟩
  · rintro ⟨providers, gateways, hproviders, hgateways, hone, rfl, hfindings⟩
    obtain ⟨final, hfinal, hfinally⟩ := accept_of_declares generator report hproviders
      hgateways hone
    rw [hfinal]
    obtain rfl : report' = final := congrArg Report.mk (hfindings.trans hfinally.symm)
    rfl

end

end Generator

end Bindery
