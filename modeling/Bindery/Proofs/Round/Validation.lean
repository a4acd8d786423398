import Bindery.Proofs.Round.Discovery
import Bindery.Round
/-!
# What validation keeps and what it reports

`Holds` says what each rule asks of a shape, apart from the order in which they are checked.
`check_spec`: a declaration passes if it satisfies the rules for its shape, and otherwise the first
rule that it does not satisfy is named. `accept_ok` follows what is discovered through validation
into what is accepted and what is reported.
-/

namespace Bindery

/-! ## What the rules ask -/

/-- The rules for a shape, in the order in which they are checked. -/
def Rule.order : Shape → List Rule
  | .type _ => [.contract, .constructible]
  | .function _ => [.visibility, .storageClass, .arity, .parameterType, .returnType]

namespace ShapeRules

/-- Whether the parameter at an index is of the expected type. -/
def Matches (rules : ShapeRules) (params : List String) (index : Nat) : Prop :=
  params[index]? = rules.params[index]?.map (·.2)

/-- Whether a shape satisfies a rule. A rule for the other kind of shape asks nothing. -/
def Holds (rules : ShapeRules) : Shape → Rule → Prop
  | .type shape, .contract => rules.contract ∈ shape.implements
  | .type shape, .constructible => shape.construction ≠ none
  | .function shape, .visibility => shape.visibility = .public
  | .function shape, .storageClass => shape.receiver = false
  | .function shape, .arity => shape.params.length = rules.params.length
  | .function shape, .parameterType =>
    ∀ index < shape.params.length, index < rules.params.length → rules.Matches shape.params index
  | .function shape, .returnType => shape.output = none
  | _, _ => True

/-- Whether a declaration satisfies all rules for its shape. -/
def Satisfies (rules : ShapeRules) (declaration : Declaration) : Prop :=
  ∀ rule ∈ Rule.order declaration.shape, rules.Holds declaration.shape rule

instance (rules : ShapeRules) (params : List String) (index : Nat) :
    Decidable (rules.Matches params index) :=
  inferInstanceAs (Decidable (_ = _))

instance (rules : ShapeRules) : ∀ shape rule, Decidable (rules.Holds shape rule)
  | .type shape, .contract => inferInstanceAs (Decidable (_ ∈ shape.implements))
  | .type shape, .constructible => inferInstanceAs (Decidable (shape.construction ≠ none))
  | .function shape, .visibility => inferInstanceAs (Decidable (shape.visibility = _))
  | .function shape, .storageClass => inferInstanceAs (Decidable (shape.receiver = _))
  | .function shape, .arity => inferInstanceAs (Decidable (shape.params.length = _))
  | .function shape, .parameterType =>
    inferInstanceAs (Decidable (∀ index < shape.params.length, index < rules.params.length →
      rules.Matches shape.params index))
  | .function shape, .returnType => inferInstanceAs (Decidable (shape.output = none))
  | .type _, .visibility | .type _, .storageClass | .type _, .arity | .type _, .parameterType
  | .type _, .returnType | .function _, .contract | .function _, .constructible =>
    inferInstanceAs (Decidable True)

instance (rules : ShapeRules) (declaration : Declaration) :
    Decidable (rules.Satisfies declaration) :=
  inferInstanceAs (Decidable (∀ rule ∈ Rule.order declaration.shape, _))

/-- What a violation says is so of a declaration. A mismatch is the one of least index. -/
def Describes (rules : ShapeRules) (declaration : Declaration) : Violation → Prop
  | .missingContract path contract => path = declaration.path ∧ contract = rules.contract
  | .notConstructible path | .notPublic path | .receiver path => path = declaration.path
  | .arity path expected found =>
    path = declaration.path ∧ expected = rules.params.length ∧
      ∃ shape, declaration.shape = .function shape ∧ found = shape.params.length
  | .parameterType path index name found expected =>
    path = declaration.path ∧ rules.params[index]? = some (name, expected) ∧ found ≠ expected ∧
      ∃ shape, declaration.shape = .function shape ∧ shape.params[index]? = some found ∧
        ∀ earlier < index, rules.Matches shape.params earlier
  | .returnType path found =>
    path = declaration.path ∧ ∃ shape, declaration.shape = .function shape ∧
      shape.output = some found

/-- A violation is about the first rule that a declaration does not satisfy. -/
structure Breaks (rules : ShapeRules) (declaration : Declaration) (violation : Violation) :
    Prop where
  first : ∃ earlier later,
    Rule.order declaration.shape = earlier ++ violation.rule :: later ∧
      (∀ rule ∈ earlier, rules.Holds declaration.shape rule) ∧
      ¬rules.Holds declaration.shape violation.rule
  describes : rules.Describes declaration violation

theorem Breaks.not_satisfies {rules : ShapeRules} {declaration : Declaration}
    {violation : Violation} (h : rules.Breaks declaration violation) :
    ¬rules.Satisfies declaration := by
  obtain ⟨earlier, later, horder, -, hbroken⟩ := h.first
  intro hsatisfies
  refine hbroken (hsatisfies _ ?_)
  rw [horder]
  exact List.mem_append_right _ List.mem_cons_self

/-! ## The check -/

/-- How a declaration breaks a rule, if it does. -/
def violation? (rules : ShapeRules) (declaration : Declaration) (rule : Rule) : Option Violation :=
  match declaration.shape, rule with
  | .type shape, .contract =>
    if rules.contract ∈ shape.implements then none
    else some (.missingContract declaration.path rules.contract)
  | .type shape, .constructible =>
    if shape.construction = none then some (.notConstructible declaration.path) else none
  | .function shape, .visibility =>
    if shape.visibility = .public then none else some (.notPublic declaration.path)
  | .function shape, .storageClass =>
    if shape.receiver then some (.receiver declaration.path) else none
  | .function shape, .arity =>
    if shape.params.length = rules.params.length then none
    else some (.arity declaration.path rules.params.length shape.params.length)
  | .function shape, .parameterType => firstMismatch? declaration.path 0 shape.params rules.params
  | .function shape, .returnType => shape.output.map (.returnType declaration.path)
  | _, _ => none

/-- The warnings about a declaration that passes. -/
def warnings (declaration : Declaration) : List String :=
  match declaration.shape with
  | .type shape =>
    if shape.visibility = .public then [] else [notPublicWarning declaration.path]
  | .function _ => []

/-- The check names the first rule that is broken. -/
theorem check_eq (rules : ShapeRules) (declaration : Declaration) :
    rules.check declaration =
      match (Rule.order declaration.shape).findSome? (rules.violation? declaration) with
      | some violation => .error violation
      | none => .ok (warnings declaration) := by
  rcases hshape : declaration.shape with shape | shape
  · simp only [check, hshape, checkType, Rule.order, List.findSome?_cons, violation?, warnings,
      List.findSome?_nil, List.contains_eq_mem]
    by_cases hcontract : rules.contract ∈ shape.implements
    · by_cases hconstruction : shape.construction = none <;> simp [hcontract, hconstruction]
    · simp [hcontract]
  · simp only [check, hshape, checkFunction, Rule.order, List.findSome?_cons, violation?, warnings,
      List.findSome?_nil]
    by_cases hvisibility : shape.visibility = .public
    · cases hreceiver : shape.receiver
      · by_cases harity : shape.params.length = rules.params.length
        · rcases firstMismatch? declaration.path 0 shape.params rules.params with _ | violation
          · cases shape.output <;> simp [hvisibility, harity, Except.map]
          · simp [hvisibility, harity, Except.map]
        · simp [hvisibility, harity, Except.map]
      · simp [hvisibility, Except.map]
    · simp [hvisibility, Except.map]

/-- The first parameter that is not of the expected type is found. -/
theorem firstMismatch?_spec (path : String) (start : Nat) (params : List String)
    (wanted : List (String × String)) :
    match firstMismatch? path start params wanted with
    | none => ∀ index < params.length, index < wanted.length →
        params[index]? = wanted[index]?.map (·.2)
    | some violation => ∃ index name found expected,
        violation = .parameterType path (start + index) name found expected ∧
        params[index]? = some found ∧ wanted[index]? = some (name, expected) ∧ found ≠ expected ∧
        ∀ earlier < index, params[earlier]? = wanted[earlier]?.map (·.2) := by
  induction params generalizing start wanted with
  | nil =>
    intro index hindex
    exact absurd hindex (Nat.not_lt_zero _)
  | cons found params ih =>
    rcases wanted with _ | ⟨⟨name, expected⟩, wanted⟩
    · intro index _ hindex
      exact absurd hindex (Nat.not_lt_zero _)
    by_cases heq : found = expected
    -- The index that is reported counts from `start`, which moves on with the parameters.
    · have ih := ih (start + 1) wanted
      rw [firstMismatch?, if_pos heq]
      rcases hrest : firstMismatch? path (start + 1) params wanted with _ | violation <;>
        rw [hrest] at ih
      · intro index hindex hindex'
        cases index with
        | zero => simp [heq]
        | succ index => simpa using ih index (by simpa using hindex) (by simpa using hindex')
      · obtain ⟨index, name', found', expected', rfl, hfound, hexpected, hne, hearlier⟩ := ih
        refine ⟨index + 1, name', found', expected', by rw [Nat.add_right_comm]; rfl,
          by simpa using hfound, by simpa using hexpected, hne, fun earlier h => ?_⟩
        cases earlier with
        | zero => simp [heq]
        | succ earlier => simpa using hearlier earlier (by omega)
    · rw [firstMismatch?, if_neg heq]
      exact ⟨0, name, found, expected, rfl, rfl, rfl, heq, fun _ h => absurd h (Nat.not_lt_zero _)⟩

theorem violation?_eq_none_iff {rules : ShapeRules} {declaration : Declaration} {rule : Rule} :
    rules.violation? declaration rule = none ↔ rules.Holds declaration.shape rule := by
  rcases hshape : declaration.shape with shape | shape
  · cases rule <;> simp [violation?, hshape, Holds]
  · cases rule with
    | contract | constructible | visibility | storageClass | arity | returnType =>
      simp [violation?, hshape, Holds]
    | parameterType =>
      have hspec := firstMismatch?_spec declaration.path 0 shape.params rules.params
      simp only [violation?, hshape, Holds, Matches]
      rcases hfirst : firstMismatch? declaration.path 0 shape.params rules.params with
        _ | violation <;> rw [hfirst] at hspec
      · exact ⟨fun _ => hspec, fun _ => rfl⟩
      · obtain ⟨index, name, found, expected, -, hfound, hexpected, hne, -⟩ := hspec
        refine ⟨fun h => (Option.some_ne_none _ h).elim, fun h => absurd ?_ hne⟩
        have hmatch := h index (List.getElem?_eq_some_iff.1 hfound).1
          (List.getElem?_eq_some_iff.1 hexpected).1
        simpa [hfound, hexpected] using hmatch

theorem violation?_eq_some {rules : ShapeRules} {declaration : Declaration} {rule : Rule}
    {violation : Violation} (h : rules.violation? declaration rule = some violation) :
    violation.rule = rule ∧ rules.Describes declaration violation := by
  rcases hshape : declaration.shape with shape | shape
  · cases rule with
    | contract =>
      simp only [violation?, hshape, Option.ite_none_left_eq_some, Option.some.injEq] at h
      obtain ⟨-, rfl⟩ := h
      exact ⟨rfl, rfl, rfl⟩
    | constructible =>
      simp only [violation?, hshape, Option.ite_none_right_eq_some, Option.some.injEq] at h
      obtain ⟨-, rfl⟩ := h
      exact ⟨rfl, rfl⟩
    | visibility | storageClass | arity | parameterType | returnType =>
      simp [violation?, hshape] at h
  · cases rule with
    | contract | constructible => simp [violation?, hshape] at h
    | visibility =>
      simp only [violation?, hshape, Option.ite_none_left_eq_some, Option.some.injEq] at h
      obtain ⟨-, rfl⟩ := h
      exact ⟨rfl, rfl⟩
    | storageClass =>
      simp only [violation?, hshape, Option.ite_none_right_eq_some, Option.some.injEq] at h
      obtain ⟨-, rfl⟩ := h
      exact ⟨rfl, rfl⟩
    | arity =>
      simp only [violation?, hshape, Option.ite_none_left_eq_some, Option.some.injEq] at h
      obtain ⟨-, rfl⟩ := h
      exact ⟨rfl, rfl, rfl, shape, hshape, rfl⟩
    | parameterType =>
      have hspec := firstMismatch?_spec declaration.path 0 shape.params rules.params
      simp only [violation?, hshape] at h
      rw [h] at hspec
      obtain ⟨index, name, found, expected, rfl, hfound, hexpected, hne, hearlier⟩ := hspec
      rw [Nat.zero_add]
      exact ⟨rfl, rfl, hexpected, hne, shape, hshape, hfound, hearlier⟩
    | returnType =>
      simp only [violation?, hshape, Option.map_eq_some_iff] at h
      obtain ⟨found, hfound, rfl⟩ := h
      exact ⟨rfl, rfl, shape, hshape, hfound⟩

/-- A declaration passes with its warnings if it satisfies the rules for its shape. Otherwise the
violation is about the first rule that is broken. -/
theorem check_spec (rules : ShapeRules) (declaration : Declaration) :
    (rules.Satisfies declaration ∧ rules.check declaration = .ok (warnings declaration)) ∨
      ∃ violation, rules.Breaks declaration violation ∧
        rules.check declaration = .error violation := by
  rw [check_eq]
  rcases hfirst : (Rule.order declaration.shape).findSome? (rules.violation? declaration) with
    _ | violation
  · refine .inl ⟨fun rule hrule => ?_, rfl⟩
    exact violation?_eq_none_iff.1 (List.findSome?_eq_none_iff.1 hfirst rule hrule)
  · obtain ⟨earlier, rule, later, horder, hviolation, hearlier⟩ :=
      List.findSome?_eq_some_iff.1 hfirst
    obtain ⟨rfl, hdescribes⟩ := violation?_eq_some hviolation
    refine .inr ⟨violation, ⟨⟨earlier, later, horder, fun rule hrule => ?_, fun hholds => ?_⟩,
      hdescribes⟩, rfl⟩
    · exact violation?_eq_none_iff.1 (hearlier rule hrule)
    · rw [violation?_eq_none_iff.2 hholds] at hviolation
      cases hviolation

/-- What validation reports of a declaration. -/
def findings (rules : ShapeRules) (declaration : Declaration) : List Finding :=
  match rules.check declaration with
  | .ok warnings => warnings.map (⟨.warning, some declaration.location, ·⟩)
  | .error violation =>
    [⟨.error, some declaration.location, Generator.violationMessage violation⟩]

/-- A finding is the error that a declaration is left out for. -/
def Rejects (rules : ShapeRules) (declaration : Declaration) (finding : Finding) : Prop :=
  ∃ violation, rules.Breaks declaration violation ∧
    finding = ⟨.error, some declaration.location, Generator.violationMessage violation⟩

end ShapeRules

/-! ## Reports -/

/-- Warnings about each of some things are added in order. -/
theorem Report.foldl_warn {α : Type} (items : List α) (location : α → Location)
    (message : α → String) (report : Report) :
    (items.foldl (fun report item => report.warn (location item) (message item)) report).findings =
      report.findings ++ items.map fun item => ⟨.warning, some (location item), message item⟩ := by
  induction items generalizing report with
  | nil => simp
  | cons item rest ih =>
    rw [List.foldl_cons, ih]
    simp [Report.warn, Report.push]

namespace Generator

/-! ## Validating and accepting -/

/-- Validation keeps the declarations that satisfy the rules, in their order, and reports on each
one in turn. -/
theorem validate_eq (rules : ShapeRules) (declarations : List Declaration) (report : Report) :
    (validate rules declarations report).1.findings =
        report.findings ++ declarations.flatMap rules.findings ∧
      (validate rules declarations report).2 = declarations.filter (rules.Satisfies ·) := by
  induction declarations generalizing report with
  | nil => simp [validate]
  | cons declaration rest ih =>
    rw [validate, List.flatMap_cons, ShapeRules.findings, List.filter_cons]
    rcases rules.check_spec declaration with ⟨hsatisfies, hcheck⟩ | ⟨violation, hbreaks, hcheck⟩
    · obtain ⟨hfindings, hpassed⟩ := ih
        ((ShapeRules.warnings declaration).foldl (·.warn declaration.location ·) report)
      have hwarned := Report.foldl_warn (ShapeRules.warnings declaration)
        (fun _ => declaration.location) (fun text => text) report
      simp only [hcheck, hsatisfies, decide_true, if_true, hpassed, hfindings, hwarned,
        List.append_assoc, and_true]
    · obtain ⟨hfindings, hpassed⟩ := ih
        (report.error declaration.location (violationMessage violation))
      simp only [hcheck, hbreaks.not_satisfies, decide_false, hpassed, hfindings]
      simp [Report.error, Report.push]

theorem unresolved_findings (manifest : Manifest) (report : Report) :
    ∃ added, (reportUnresolved manifest report).findings = report.findings ++ added ∧
      ∀ finding ∈ added, finding.level = .warning := by
  refine ⟨_, Report.foldl_warn _ _ _ report, fun finding hfinding => ?_⟩
  obtain ⟨tag, -, rfl⟩ := List.mem_map.1 hfinding
  rfl

/-- What is accepted is what was discovered and satisfies the rules. What is reported on the way,
apart from warnings, are the declarations that are left out. -/
theorem accept_ok {generator : Generator} {manifest : Manifest} {report report' : Report}
    {accepted : Accepted} (h : generator.accept manifest report = (report', .ok accepted)) :
    ∃ providers gateways warnings,
      (manifest.discover .provider report).2 = .ok providers ∧
      (manifest.discover .gateway report).2 = .ok gateways ∧
      gateways.length ≤ 1 ∧
      accepted.providers = providers.filter (generator.rules.Satisfies ·) ∧
      accepted.gateway.toList = gateways.filter (generator.rules.Satisfies ·) ∧
      (∀ finding ∈ warnings, finding.level = .warning) ∧
      report'.findings = report.findings ++ warnings ++
        (providers ++ gateways).flatMap generator.rules.findings := by
  rw [accept] at h
  rcases hproviders : manifest.discover .provider (reportUnresolved manifest report) with
    ⟨report₁, _ | providers⟩ <;>
  rcases hgateways : manifest.discover .gateway report₁ with ⟨report₂, _ | gateways⟩ <;>
    simp only [hproviders, hgateways] at h
  case ok.ok =>
    have hone : gateways.length ≤ 1 := by
      by_contra hseveral
      rw [show misuses (.ok providers) (.ok gateways) =
        [.multipleGateways (gateways.map (·.path))] by simp [misuses]; omega] at h
      cases (Prod.mk.inj h).2
    rw [show misuses (.ok providers) (.ok gateways) = [] by simp [misuses]; omega] at h
    obtain ⟨rfl, haccepted⟩ := Prod.mk.inj h
    obtain rfl := Except.ok.inj haccepted
    obtain ⟨added₁, hadded₁, hwarnings₁⟩ := Manifest.discover_findings hproviders
    obtain ⟨added₂, hadded₂, hwarnings₂⟩ := Manifest.discover_findings hgateways
    obtain ⟨hreport, hpassed⟩ := validate_eq generator.rules providers report₂
    obtain ⟨hreport', hpassed'⟩ := validate_eq generator.rules gateways
      (validate generator.rules providers report₂).1
    obtain ⟨added₀, hadded₀, hwarnings₀⟩ := unresolved_findings manifest report
    refine ⟨providers, gateways, added₀ ++ added₁ ++ added₂, ?_, ?_, hone, hpassed, ?_, ?_, ?_⟩
    · rw [Manifest.discover_outcome, hproviders]
    · rw [Manifest.discover_outcome, hgateways]
    · have hpassed_one := List.length_filter_le (fun x => generator.rules.Satisfies x) gateways
      rw [hpassed']
      rcases hfilter : gateways.filter (generator.rules.Satisfies ·) with _ | ⟨gateway, _ | _⟩
      · rfl
      · rfl
      · rw [hfilter] at hpassed_one
        simp only [List.length_cons] at hpassed_one
        omega
    · intro finding hfinding
      rcases List.mem_append.1 hfinding with hfinding | hfinding
      · rcases List.mem_append.1 hfinding with hfinding | hfinding
        · exact hwarnings₀ finding hfinding
        · exact hwarnings₁ finding hfinding
      · exact hwarnings₂ finding hfinding
    · rw [hreport', hreport, hadded₂, hadded₁, hadded₀, List.flatMap_append]
      simp only [List.append_assoc]
  all_goals cases (Prod.mk.inj h).2

end Generator

end Bindery
