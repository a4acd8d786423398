import Bindery.Proofs.Round.Misuse
/-!
# What counts as several gateways

A round that comes to several gateways is stopped. What it counts are the ways in which entries
carry the mark, on themselves or through an alias (`Manifest.CarriesGateway`), and not the entries.
`accept_several_gateways` says which manifests have several, and what is named as the cause.
-/

namespace Bindery

/-- A way to carry the mark of the interceptor: the position of the entry, and the position of the
alias that it has the mark from, unless the mark is on the entry itself. -/
structure Way where
  target : Nat
  via : Option Nat
  deriving DecidableEq, Repr

/-- The position at which a way comes up. -/
def Way.start (way : Way) : Nat :=
  way.via.getD way.target

/-- The order in which ways come up: by the carrier of the mark, then by what carries it through
this one. -/
def Way.Before (first second : Way) : Prop :=
  first.start < second.start ∨ first.start = second.start ∧ first.target < second.target

/-- The origin of what is declared for a way. -/
def Way.origin (way : Way) : Origin :=
  ⟨way.start, 0, way.target⟩

/-- The way of an origin. Nothing but an alias is the carrier for another entry. -/
def Origin.way (origin : Origin) : Way :=
  ⟨origin.target, if origin.carrier = origin.target then none else some origin.carrier⟩

theorem Origin.start_way (origin : Origin) : origin.way.start = origin.carrier := by
  unfold Way.start way
  by_cases h : origin.carrier = origin.target <;> simp [h]

theorem Entry.marks_gateway {entry : Entry} {index : Nat} {mark : Mark} :
    (entry.marks .gateway)[index]? = some mark ↔
      entry.isGateway = true ∧ index = 0 ∧ mark = .gateway := by
  unfold marks
  by_cases h : entry.isGateway
  · cases index <;> simp [h, eq_comm]
  · simp [h]

namespace Manifest

/-- An entry that is no alias carries the mark of the interceptor in a way. -/
def CarriesGateway (manifest : Manifest) (way : Way) : Prop :=
  ∃ target, manifest.entries[way.target]? = some target ∧ target.isAlias = false ∧
    match way.via with
    | none => target.isGateway = true
    | some position => ∃ outer, manifest.entries[position]? = some outer ∧
        outer.isAlias = true ∧ outer.isGateway = true ∧ target.isTagged outer.ident = true

/-- The entry at a position is a type or a function. -/
def IsBindable (manifest : Manifest) (position : Nat) : Prop :=
  ∀ target word, manifest.entries[position]? = some target → target.category ≠ .unsupported word

variable {manifest : Manifest}

theorem carriesGateway_of_reached {origin : Origin} {target : Entry} {carrier : Carrier}
    (h : manifest.ReachedFrom .gateway origin target carrier) (hplain : target.isAlias = false) :
    manifest.CarriesGateway origin.way ∧ origin.mark = 0 := by
  obtain ⟨entry, mark, hentry, hmark, htarget, hcase⟩ := h
  obtain ⟨hgateway, hindex, -⟩ := Entry.marks_gateway.1 hmark
  refine ⟨⟨target, htarget, hplain, ?_⟩, hindex⟩
  unfold Origin.way
  rcases hcase with ⟨halias, htagged, -⟩ | ⟨-, hposition, -⟩
  · have hne : origin.carrier ≠ origin.target := by
      intro heq
      rw [heq, htarget] at hentry
      obtain rfl := Option.some.inj hentry
      rw [halias] at hplain
      cases hplain
    simp only [if_neg hne]
    exact ⟨entry, hentry, halias, hgateway, htagged⟩
  · rw [hposition, hentry] at htarget
    obtain rfl := Option.some.inj htarget
    simp only [if_pos hposition.symm]
    exact hgateway

theorem reached_of_carriesGateway {way : Way} (h : manifest.CarriesGateway way) :
    way.origin.way = way ∧ ∃ target carrier,
      manifest.ReachedFrom .gateway way.origin target carrier ∧ target.isAlias = false := by
  obtain ⟨position, via⟩ := way
  obtain ⟨target, htarget, hplain, hvia⟩ := h
  cases via with
  | none =>
    refine ⟨by simp [Way.origin, Way.start, Origin.way], target, ⟨.gateway, none⟩, ?_, hplain⟩
    exact ⟨target, .gateway, htarget, Entry.marks_gateway.2 ⟨hvia, rfl, rfl⟩, htarget,
      .inr ⟨hplain, rfl, rfl⟩⟩
  | some outerPosition =>
    obtain ⟨outer, houter, halias, hgateway, htagged⟩ := hvia
    have hne : outerPosition ≠ position := by
      rintro rfl
      obtain rfl := Option.some.inj (houter.symm.trans htarget)
      rw [halias] at hplain
      cases hplain
    refine ⟨by simp [Way.origin, Way.start, Origin.way, hne], target, ⟨.gateway, some outer.path⟩,
      ?_, hplain⟩
    exact ⟨outer, .gateway, houter, Entry.marks_gateway.2 ⟨hgateway, rfl, rfl⟩, htarget,
      .inl ⟨halias, htagged, rfl⟩⟩

/-- All gateways can be declared exactly if all that carries the mark is bindable. -/
theorem supported_iff :
    (∀ origin fatal, ¬manifest.UnsupportedFrom .gateway origin fatal) ↔
      ∀ way, manifest.CarriesGateway way → manifest.IsBindable way.target := by
  constructor
  · intro hnone way hcarries target word htarget hcategory
    obtain ⟨-, found, carrier, hreached, hplain⟩ := reached_of_carriesGateway hcarries
    obtain ⟨_, _, -, -, hfound, -⟩ := id hreached
    obtain rfl := Option.some.inj (hfound.symm.trans htarget)
    exact hnone _ _ ⟨found, carrier, word, hreached, hplain, hcategory, rfl⟩
  · rintro hbindable origin fatal ⟨target, carrier, word, hreached, hplain, hcategory, -⟩
    obtain ⟨hcarries, -⟩ := carriesGateway_of_reached hreached hplain
    obtain ⟨_, _, -, -, htarget, -⟩ := hreached
    exact hbindable _ hcarries target word htarget hcategory

/-- The path of a gateway is that of the entry that carries the mark. -/
def NamesWay (manifest : Manifest) (way : Way) (path : String) : Prop :=
  ∃ target, manifest.entries[way.target]? = some target ∧ target.path = path

theorem exists_declaration {target : Entry} (h : ∀ word, target.category ≠ .unsupported word)
    (carrier : Carrier) : ∃ declaration, manifest.declare target carrier = .ok declaration := by
  unfold declare shape? typeShape?
  rcases hcategory : target.category with ⟨visibility, unit, derivesDefault⟩ | shape | word
  · exact ⟨_, rfl⟩
  · exact ⟨_, rfl⟩
  · exact absurd hcategory (h word)

/-- There is one gateway for each way to carry the mark, in the order of the ways. -/
theorem exists_ways {gateways : List Declaration}
    (supported : ∀ origin fatal, ¬manifest.UnsupportedFrom .gateway origin fatal)
    (discovers : manifest.Discovers .gateway gateways) :
    ∃ ways : List Way, ways.Pairwise Way.Before ∧
      (∀ way, way ∈ ways ↔ manifest.CarriesGateway way) ∧
      List.Forall₂ manifest.NamesWay ways (gateways.map (·.path)) := by
  obtain ⟨origins, hsorted, hdeclared, hall⟩ := discovers
  have hcarries : ∀ origin ∈ origins, manifest.CarriesGateway origin.way ∧ origin.mark = 0 := by
    intro origin hmem
    obtain ⟨_, -, target, carrier, hreached, hplain, -⟩ :=
      exists_of_mem_left hdeclared hmem
    exact carriesGateway_of_reached hreached hplain
  refine ⟨origins.map Origin.way, ?_, fun way => ?_, ?_⟩
  · rw [List.pairwise_map]
    refine hsorted.imp_of_mem fun {first second} hfirst hsecond hbefore => ?_
    -- An entry is marked as the interceptor once, so the marks do not decide.
    have hmark := (hcarries first hfirst).2.trans (hcarries second hsecond).2.symm
    unfold Way.Before
    rw [Origin.start_way, Origin.start_way]
    rcases hbefore with hcarrier | ⟨hcarrier, hless | ⟨-, htarget⟩⟩
    · exact .inl hcarrier
    · omega
    · exact .inr ⟨hcarrier, htarget⟩
  · rw [List.mem_map]
    constructor
    · rintro ⟨origin, hmem, rfl⟩
      exact (hcarries origin hmem).1
    · intro hway
      obtain ⟨hsame, target, carrier, hreached, hplain⟩ := reached_of_carriesGateway hway
      have hbindable : ∀ word, target.category ≠ .unsupported word := fun word hcategory =>
        supported _ _ ⟨target, carrier, word, hreached, hplain, hcategory, rfl⟩
      obtain ⟨declaration, hdeclare⟩ := exists_declaration hbindable carrier
      exact ⟨way.origin, hall _ declaration ⟨target, carrier, hreached, hplain, hdeclare⟩, hsame⟩
  · rw [List.forall₂_map_left_iff, List.forall₂_map_right_iff]
    refine hdeclared.imp ?_
    rintro origin declaration ⟨target, carrier, ⟨_, _, -, -, htarget, -⟩, -, hdeclare⟩
    exact ⟨target, htarget, (parts_of_declare hdeclare).2.symm⟩

/-- Several gateways are several ways to carry the mark. -/
theorem one_lt_length_iff {ways : List Way} (hsorted : ways.Pairwise Way.Before)
    (hall : ∀ way, way ∈ ways ↔ manifest.CarriesGateway way) :
    1 < ways.length ↔ ∃ first second, first ≠ second ∧ manifest.CarriesGateway first ∧
      manifest.CarriesGateway second := by
  constructor
  · intro hseveral
    rcases ways with _ | ⟨first, _ | ⟨second, rest⟩⟩
    · simp at hseveral
    · simp at hseveral
    · refine ⟨first, second, ?_, (hall first).1 (by simp), (hall second).1 (by simp)⟩
      rintro rfl
      have hbefore := (List.pairwise_cons.1 hsorted).1 first List.mem_cons_self
      unfold Way.Before at hbefore
      omega
  · rintro ⟨first, second, hne, hfirst, hsecond⟩
    have hfirst := (hall first).2 hfirst
    have hsecond := (hall second).2 hsecond
    rcases ways with _ | ⟨way, _ | ⟨other, rest⟩⟩
    · cases hfirst
    · rw [List.mem_singleton] at hfirst hsecond
      exact absurd (hfirst.trans hsecond.symm) hne
    · simp

/-- Two ways are those of two entries, or one entry carries the mark in two ways. -/
theorem several_ways_iff :
    (∃ first second, first ≠ second ∧ manifest.CarriesGateway first ∧
      manifest.CarriesGateway second) ↔
    (∃ first second : Way, first.target ≠ second.target ∧ manifest.CarriesGateway first ∧
      manifest.CarriesGateway second) ∨
    ∃ position via via', via ≠ via' ∧ manifest.CarriesGateway ⟨position, via⟩ ∧
      manifest.CarriesGateway ⟨position, via'⟩ := by
  constructor
  · rintro ⟨⟨position, via⟩, ⟨position', via'⟩, hne, hfirst, hsecond⟩
    by_cases htarget : position = position'
    · subst htarget
      refine .inr ⟨position, via, via', ?_, hfirst, hsecond⟩
      rintro rfl
      exact hne rfl
    · exact .inl ⟨_, _, htarget, hfirst, hsecond⟩
  · rintro (⟨first, second, hne, hfirst, hsecond⟩ | ⟨position, via, via', hne, hfirst, hsecond⟩)
    · refine ⟨first, second, ?_, hfirst, hsecond⟩
      rintro rfl
      exact hne rfl
    · refine ⟨_, _, ?_, hfirst, hsecond⟩
      intro heq
      exact hne (Way.mk.inj heq).2

/-- Several gateways are named as a cause only if all of them can be declared. -/
theorem GatewayCauses.exists_ways {causes : List Fatal} (h : manifest.GatewayCauses causes)
    {paths : List String} (hmem : .multipleGateways paths ∈ causes) :
    (∀ way, manifest.CarriesGateway way → manifest.IsBindable way.target) ∧
      ∃ ways : List Way, 1 < ways.length ∧ ways.Pairwise Way.Before ∧
        (∀ way, way ∈ ways ↔ manifest.CarriesGateway way) ∧
        List.Forall₂ manifest.NamesWay ways paths := by
  cases h with
  | unsupported stops =>
    obtain ⟨⟨_, _, _, -, -, -, rfl⟩, -⟩ := stops
    simp at hmem
  | several supported discovers several =>
    obtain rfl := Fatal.multipleGateways.inj (List.mem_singleton.1 hmem)
    obtain ⟨ways, hsorted, hall, hnames⟩ := Manifest.exists_ways supported discovers
    refine ⟨supported_iff.1 supported, ways, ?_, hsorted, hall, hnames⟩
    rw [hnames.length_eq, List.length_map]
    exact several
  | none => cases hmem

/-- Where there are several ways and nothing that cannot be declared, several gateways are a
cause. -/
theorem GatewayCauses.exists_paths {causes : List Fatal} (h : manifest.GatewayCauses causes)
    (bindable : ∀ way, manifest.CarriesGateway way → manifest.IsBindable way.target)
    (several : ∃ first second, first ≠ second ∧ manifest.CarriesGateway first ∧
      manifest.CarriesGateway second) : ∃ paths, .multipleGateways paths ∈ causes := by
  cases h with
  | unsupported stops => exact absurd stops.1 (supported_iff.2 bindable _ _)
  | several => exact ⟨_, List.mem_singleton.2 rfl⟩
  | none supported discovers one =>
    obtain ⟨ways, hsorted, hall, hnames⟩ := Manifest.exists_ways supported discovers
    have hlength := (one_lt_length_iff hsorted hall).2 several
    rw [hnames.length_eq, List.length_map] at hlength
    omega

end Manifest

namespace Generator

/-- A round is stopped, and several gateways of these paths are among the causes. -/
def StopsForGateways (generator : Generator) (manifest : Manifest) (report : Report)
    (paths : List String) : Prop :=
  ∃ report' causes, generator.accept manifest report = (report', .error (.aborted causes)) ∧
    .multipleGateways paths ∈ causes

variable {generator : Generator} {manifest : Manifest} {report : Report}

theorem StopsForGateways.exists_ways {paths : List String}
    (h : generator.StopsForGateways manifest report paths) :
    (∀ way, manifest.CarriesGateway way → manifest.IsBindable way.target) ∧
      ∃ ways : List Way, 1 < ways.length ∧ ways.Pairwise Way.Before ∧
        (∀ way, way ∈ ways ↔ manifest.CarriesGateway way) ∧
        List.Forall₂ manifest.NamesWay ways paths := by
  obtain ⟨report', causes, haccept, hmem⟩ := h
  obtain ⟨first, second, between, -, -, hfirst, hsecond, -, -, -, hok, hstopped⟩ :=
    accept_cases generator manifest report
  obtain rfl : first ++ second = causes := by
    by_cases hnone : first ++ second = []
    · obtain ⟨final, accepted, hfinal⟩ := hok hnone
      cases (Prod.mk.inj (hfinal.symm.trans haccept)).2
    · have herror := (Prod.mk.inj ((hstopped hnone).symm.trans haccept)).2
      exact RoundError.aborted.inj (Except.error.inj herror)
  refine hsecond.exists_ways ((List.mem_append.1 hmem).resolve_left fun hmem => ?_)
  -- The providers have no cause of this kind.
  cases hfirst with
  | unsupported stops =>
    obtain ⟨⟨_, _, _, -, -, -, rfl⟩, -⟩ := stops
    simp at hmem
  | none => cases hmem

/-- A round is stopped for several gateways exactly if all that carries the mark can be bound and
the mark is carried in more than one way: by two entries, or by one entry both on itself and through
an alias or through two aliases. What is named are the paths of the ways, in their order, so that an
entry comes up as often as it carries the mark. However often the mark is repeated on an entry, or
the tag of an alias, makes one way. -/
theorem accept_several_gateways (generator : Generator) (manifest : Manifest) (report : Report) :
    ((∃ paths, generator.StopsForGateways manifest report paths) ↔
      (∀ way, manifest.CarriesGateway way → manifest.IsBindable way.target) ∧
        ((∃ first second : Way, first.target ≠ second.target ∧ manifest.CarriesGateway first ∧
            manifest.CarriesGateway second) ∨
          ∃ position via via', via ≠ via' ∧ manifest.CarriesGateway ⟨position, via⟩ ∧
            manifest.CarriesGateway ⟨position, via'⟩)) ∧
    ∀ paths, generator.StopsForGateways manifest report paths →
      ∃ ways : List Way, ways.Pairwise Way.Before ∧
        (∀ way, way ∈ ways ↔ manifest.CarriesGateway way) ∧
        List.Forall₂ manifest.NamesWay ways paths := by
  rw [← Manifest.several_ways_iff]
  refine ⟨⟨?_, ?_⟩, ?_⟩
  · rintro ⟨paths, hstops⟩
    obtain ⟨hbindable, ways, hseveral, hsorted, hall, -⟩ := hstops.exists_ways
    exact ⟨hbindable, (Manifest.one_lt_length_iff hsorted hall).1 hseveral⟩
  · rintro ⟨hbindable, hseveral⟩
    obtain ⟨first, second, between, -, -, -, hsecond, -, -, -, -, hstopped⟩ :=
      accept_cases generator manifest report
    obtain ⟨paths, hmem⟩ := hsecond.exists_paths hbindable hseveral
    have hmem := List.mem_append_right first hmem
    exact ⟨paths, between, first ++ second, hstopped (List.ne_nil_of_mem hmem), hmem⟩
  · intro paths hstops
    obtain ⟨-, ways, -, hways⟩ := hstops.exists_ways
    exact ⟨ways, hways⟩

/-- A function that is marked as the interceptor and tagged with an alias for the same. -/
def twiceReached : Manifest where
  entries := [
    ⟨"crate::Catch", "Catch", none, .type .public true false, [.gateway], true, ⟨"lib.rs", 2⟩⟩,
    ⟨"crate::rest", "rest", none, .function ⟨.public, false, ["Option<&Context>"], none⟩,
      [.gateway, .tagged "Catch"], false, ⟨"lib.rs", 4⟩⟩]
  implementations := []

/-- The function is refused for being two gateways, though no other entry carries the mark. -/
theorem singleGateway_refused :
    sample.StopsForGateways twiceReached .empty ["crate::rest", "crate::rest"] ∧
    ∀ first second, twiceReached.CarriesGateway first → twiceReached.CarriesGateway second →
      first.target = second.target := by
  have hone : ∀ way, twiceReached.CarriesGateway way → way.target = 1 := by
    rintro way ⟨target, htarget, hplain, -⟩
    match hposition : way.target with
    | 0 =>
      rw [hposition] at htarget
      obtain rfl := Option.some.inj htarget
      cases hplain
    | 1 => rfl
    | position + 2 =>
      rw [hposition] at htarget
      cases htarget
  refine ⟨⟨_, _, rfl, List.mem_singleton.2 rfl⟩, fun first second hfirst hsecond => ?_⟩
  rw [hone first hfirst, hone second hsecond]

end Generator

end Bindery
