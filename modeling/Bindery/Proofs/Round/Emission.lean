import Bindery.Proofs.Round.Validation
/-!
# From what is accepted to statements

Every accepted declaration is written as one statement, and no other statement is written.
`accept_partitions` follows a round from what is discovered to these statements: nothing is lost on
the way without an error, and what is written is what the entry of the manifest allows.
-/

namespace Bindery

open Source (Path)

/-! ## One statement -/

/-- An expression of generated code makes the delegate of a marked entry. Only a type that has a
default value is made from it. -/
def Manifest.Makes (manifest : Manifest) (runtime path : Path) (entry : Entry)
    (expression : List (TokenTree Token)) : Prop :=
  match entry.category with
  | .type _ true _ => expression = path.tokens
  | .type _ false derivesDefault =>
    expression = Making.default.tokens runtime path ∧
      (derivesDefault = true ∨ ⟨"Default", entry.ident⟩ ∈ manifest.implementations)
  | .function _ => expression = Making.adapted.tokens runtime path
  | .unsupported _ => False

/-- An expression of generated code makes the delegate of a declaration: the one of the entry that
is declared. -/
def Manifest.Instance (manifest : Manifest) (runtime : Path) (declaration : Declaration)
    (expression : List (TokenTree Token)) : Prop :=
  ∃ entry ∈ manifest.entries, ∃ path,
    manifest.declare entry declaration.carrier = .ok declaration ∧
    Source.readPath entry.path = .ok path ∧ manifest.Makes runtime path entry expression

/-- The fragment of a declaration is the statement that makes its delegate and registers it under
its mark. -/
def Manifest.Writes (manifest : Manifest) (runtime : Path) (declaration : Declaration)
    (fragment : Fragment) : Prop :=
  declaration.fragment runtime = .ok fragment ∧
    ∃ expression, manifest.Instance runtime declaration expression ∧
      fragment = ⟨declaration.carrier.mark, declaration.path,
        declaration.carrier.mark.tokens expression⟩

theorem fragment_ok {declaration : Declaration} {runtime : Path} {fragment : Fragment}
    (h : declaration.fragment runtime = .ok fragment) :
    ∃ path, Source.readPath declaration.path = .ok path ∧
      fragment = ⟨declaration.carrier.mark, declaration.path,
        declaration.carrier.mark.tokens
          ((Making.ofShape declaration.shape).tokens runtime path)⟩ := by
  unfold Declaration.fragment Declaration.registration at h
  rcases hpath : Source.readPath declaration.path with fault | path <;> rw [hpath] at h
  · cases h
  · exact ⟨path, rfl, (Except.ok.inj h).symm⟩

/-- A declaration keeps the carrier that it is declared with and the path of the entry. -/
theorem parts_of_declare {manifest : Manifest} {entry : Entry} {carrier : Carrier}
    {declaration : Declaration} (h : manifest.declare entry carrier = .ok declaration) :
    declaration.carrier = carrier ∧ declaration.path = entry.path := by
  unfold Manifest.declare at h
  split at h
  · obtain rfl := Except.ok.inj h
    exact ⟨rfl, rfl⟩
  · cases h

/-- What has an implementation for a name is in the manifest. -/
theorem mem_implementations_of_traitsOf {manifest : Manifest} {ident interface : String}
    (h : interface ∈ manifest.traitsOf ident) : ⟨interface, ident⟩ ∈ manifest.implementations := by
  obtain ⟨implementation, hmem, rfl⟩ := List.mem_map.1 h
  obtain ⟨hfound, hself⟩ := List.mem_filter.1 hmem
  obtain rfl : implementation.self = ident := by simpa using hself
  exact hfound

/-- A declared entry that satisfies the rules is made by what the manifest knows of it. -/
theorem makes_of_satisfies {manifest : Manifest} {rules : ShapeRules} {entry : Entry}
    {carrier : Carrier} {declaration : Declaration} (runtime path : Path)
    (declared : manifest.declare entry carrier = .ok declaration)
    (satisfies : rules.Satisfies declaration) :
    manifest.Makes runtime path entry
      ((Making.ofShape declaration.shape).tokens runtime path) := by
  unfold Manifest.declare Manifest.shape? at declared
  unfold Manifest.Makes
  rcases hcategory : entry.category with ⟨visibility, unit, derivesDefault⟩ | shape | word
  · simp only [hcategory, Manifest.typeShape?, Option.map_some, Except.ok.injEq] at declared
    obtain rfl := declared
    have hconstruction := satisfies .constructible (by simp [Rule.order])
    cases unit with
    | true => rfl
    -- Whatever is no unit struct is made by its default, so the rule has to have seen to it that
    -- there is one.
    | false =>
      simp only [ShapeRules.Holds, Manifest.construction?, Bool.false_eq_true, if_false, ne_eq,
        ite_eq_right_iff, reduceCtorEq, imp_false, Decidable.not_not, Bool.or_eq_true,
        List.contains_eq_mem, decide_eq_true_eq] at hconstruction
      refine ⟨?_, hconstruction.imp_right mem_implementations_of_traitsOf⟩
      have hdefault : Manifest.construction? false derivesDefault
          (manifest.traitsOf entry.ident) ≠ some .unit := by
        simp [Manifest.construction?]
      simp only [Making.ofShape, if_neg hdefault]
  · simp only [hcategory, Except.ok.injEq] at declared
    obtain rfl := declared
    rfl
  · simp [hcategory, Manifest.typeShape?] at declared

namespace Generator

/-! ## All statements -/

theorem fragments_ok {runtime : Path} {declarations : List Declaration}
    (h : (fragments runtime declarations).2 = []) :
    List.Forall₂ (fun declaration fragment => declaration.fragment runtime = .ok fragment)
      declarations (fragments runtime declarations).1 := by
  induction declarations with
  | nil => exact .nil
  | cons declaration rest ih =>
    rcases hfragment : declaration.fragment runtime with fatal | fragment
    · simp [fragments, hfragment] at h
    · simp only [fragments, List.map_cons, hfragment, List.filterMap_cons] at h ⊢
      exact .cons hfragment (ih h)

/-- Where every declaration has a statement, there are no causes. -/
theorem fragments_eq_of_ok {runtime : Path} {declarations : List Declaration}
    {written : List Fragment}
    (h : List.Forall₂ (fun declaration fragment => declaration.fragment runtime = .ok fragment)
      declarations written) : fragments runtime declarations = (written, []) := by
  induction h with
  | nil => rfl
  | cons hfragment _ ih =>
    obtain ⟨hwritten, hcauses⟩ := Prod.mk.inj ih
    simp only [fragments, List.map_cons, hfragment, List.filterMap_cons] at hwritten hcauses ⊢
    rw [hwritten, hcauses]

/-- A round that succeeds has written one statement for each declaration that was accepted. -/
theorem generate_ok {generator : Generator} {manifest : Manifest} {report report' : Report}
    {artifacts : List Artifact}
    (h : generator.generate manifest report = (report', .ok artifacts)) :
    ∃ accepted providers gateways,
      generator.accept manifest report = (report', .ok accepted) ∧
      List.Forall₂
        (fun declaration fragment => declaration.fragment generator.runtime = .ok fragment)
        accepted.providers providers ∧
      List.Forall₂
        (fun declaration fragment => declaration.fragment generator.runtime = .ok fragment)
        accepted.gateway.toList gateways ∧
      generator.target.emit providers gateways = .ok artifacts := by
  unfold generate at h
  rcases haccept : generator.accept manifest report with ⟨report'', error | accepted⟩ <;>
    rw [haccept] at h
  · cases (Prod.mk.inj h).2
  · obtain ⟨rfl, hassemble⟩ := Prod.mk.inj h
    simp only [Except.bind, assemble] at hassemble
    split at hassemble
    · next hcauses =>
      obtain ⟨hproviders, hgateways⟩ := List.append_eq_nil_iff.1 (List.isEmpty_iff.1 hcauses)
      refine ⟨accepted, _, _, rfl, fragments_ok hproviders, fragments_ok hgateways, ?_⟩
      rcases hemit : generator.target.emit (fragments generator.runtime accepted.providers).1
        (fragments generator.runtime accepted.gateway.toList).1 with fatal | emitted <;>
        rw [hemit] at hassemble
      · cases hassemble
      · obtain rfl := Except.ok.inj hassemble
        rfl
    · cases hassemble

/-- The statement for a declaration that was discovered and passed the rules. -/
theorem writes_of_declared {manifest : Manifest} {rules : ShapeRules} {role : Role}
    {origin : Origin} {declaration : Declaration} {runtime : Path} {fragment : Fragment}
    (declared : manifest.DeclaredFrom role origin declaration)
    (satisfies : rules.Satisfies declaration)
    (written : declaration.fragment runtime = .ok fragment) :
    manifest.Writes runtime declaration fragment := by
  obtain ⟨entry, carrier, ⟨_, _, -, -, hentry, -⟩, -, hdeclare⟩ := declared
  obtain ⟨path, hpath, hfragment⟩ := fragment_ok written
  obtain ⟨hcarrier, hsame⟩ := parts_of_declare hdeclare
  rw [hsame] at hpath
  rw [← hcarrier] at hdeclare
  have hmakes := makes_of_satisfies runtime path hdeclare satisfies
  exact ⟨written, _, ⟨entry, List.mem_of_getElem? hentry, path, hdeclare, hpath, hmakes⟩, hfragment⟩

/-- The statements for declarations that were discovered and passed the rules. -/
theorem all_written {manifest : Manifest} {rules : ShapeRules} {role : Role} {report : Report}
    {declarations : List Declaration} {runtime : Path} {fragments : List Fragment}
    (discovered : (manifest.discover role report).2 = .ok declarations)
    (written : List.Forall₂
      (fun declaration fragment => declaration.fragment runtime = .ok fragment)
      (declarations.filter (rules.Satisfies ·)) fragments) :
    List.Forall₂ (manifest.Writes runtime) (declarations.filter (rules.Satisfies ·)) fragments := by
  obtain ⟨origins, -, horigins, -⟩ := Manifest.discover_origins (Prod.ext rfl discovered)
  have hdeclared : ∀ declaration ∈ declarations.filter (rules.Satisfies ·),
      rules.Satisfies declaration ∧ ∃ origin, manifest.DeclaredFrom role origin declaration := by
    intro declaration hmem
    obtain ⟨hmem, hsatisfies⟩ := List.mem_filter.1 hmem
    obtain ⟨origin, -, hdeclared⟩ := Manifest.exists_origin horigins hmem
    exact ⟨by simpa using hsatisfies, origin, hdeclared⟩
  refine ((List.forall₂_and_left _ _).2 ⟨hdeclared, written⟩).imp ?_
  rintro declaration fragment ⟨⟨satisfies, origin, declared⟩, written⟩
  exact writes_of_declared declared satisfies written

/-! ## The whole way -/

/-- What a successful round accepts is written, one statement for each declaration. -/
theorem generate_writes {generator : Generator} {manifest : Manifest} {report report' : Report}
    {artifacts : List Artifact}
    (h : generator.generate manifest report = (report', .ok artifacts)) :
    ∃ accepted defining intercepting,
      generator.accept manifest report = (report', .ok accepted) ∧
      generator.target.emit defining intercepting = .ok artifacts ∧
      List.Forall₂ (manifest.Writes generator.runtime) accepted.providers defining ∧
      List.Forall₂ (manifest.Writes generator.runtime) accepted.gateway.toList intercepting := by
  obtain ⟨accepted, defining, intercepting, haccept, hdefining, hintercepting, hemit⟩ :=
    generate_ok h
  obtain ⟨providers, gateways, -, hproviders, hgateways, -, haccepted, hgateway, -⟩ :=
    accept_ok haccept
  refine ⟨accepted, defining, intercepting, haccept, hemit, ?_, ?_⟩
  · rw [haccepted] at hdefining ⊢
    exact all_written hproviders hdefining
  · rw [hgateway] at hintercepting ⊢
    exact all_written hgateways hintercepting

/-- A generator that hands delegates the context alone. -/
def sample : Generator where
  config := .default
  rules := ⟨"Delegate", [("context", "Option<&Context>")]⟩
  runtime := .mk true [.mk "tether_registry" .none]

/-- Two types that answer to the same key, one of them through an alias, a function that may not be
bound, and an interceptor. -/
def sampleManifest : Manifest where
  entries := [
    ⟨"crate::Ping", "Ping", none, .type .public true false, [.provider "ping"], false,
      ⟨"lib.rs", 1⟩⟩,
    ⟨"crate::hidden", "hidden", none, .function ⟨.private, false, [], none⟩, [.provider "hidden"],
      false, ⟨"lib.rs", 2⟩⟩,
    ⟨"crate::Pings", "Pings", none, .type .public true false, [.provider "ping"], true,
      ⟨"lib.rs", 3⟩⟩,
    ⟨"crate::Pong", "Pong", none, .type .public false true, [.tagged "Pings"], false,
      ⟨"lib.rs", 4⟩⟩,
    ⟨"crate::rest", "rest", none, .function ⟨.public, false, ["Option<&Context>"], none⟩,
      [.gateway], false, ⟨"lib.rs", 5⟩⟩]
  implementations := [⟨"Delegate", "Ping"⟩, ⟨"Delegate", "Pong"⟩]

theorem sample_generates :
    ∃ report artifacts, sample.generate sampleManifest .empty = (report, .ok artifacts) := by
  have hok : (sample.generate sampleManifest .empty).2.isOk = true := by decide +kernel
  rcases h : sample.generate sampleManifest .empty with ⟨report, error | artifacts⟩ <;>
    rw [h] at hok
  · cases hok
  · exact ⟨report, artifacts, rfl⟩

end Generator

end Bindery
