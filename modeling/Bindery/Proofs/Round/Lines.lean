import Bindery.Proofs.Round.Calls
import Bindery.Proofs.Round.Misuse
import Bindery.Proofs.Survey.Lines
/-!
# Line ends in what a round reports

Every finding of a round is about an entry of the manifest, in one of four ways
(`Generator.Finds`). Where the entries are called without line ends, a finding has one only in a
text that an error quotes: the name of the contract, or a type (`Generator.Finds.hasLineEnd_iff`).
-/

namespace Bindery

/-! ## Violations -/

namespace Violation

/-- The path of the declaration that a violation is about. -/
def path : Violation → String
  | missingContract path _ | notConstructible path | notPublic path | receiver path
  | arity path _ _ | parameterType path _ _ _ _ | returnType path _ => path

/-- The settings and types that the text of a violation quotes. -/
def quoted : Violation → List String
  | missingContract _ contract => [contract]
  | parameterType _ _ name found expected => [name, found, expected]
  | returnType _ found => [found]
  | _ => []

/-- The text of a violation has the line ends of what it quotes. -/
theorem hasLineEnd_message (violation : Violation) : HasLineEnd violation.message ↔
    HasLineEnd violation.path ∨ ∃ text ∈ violation.quoted, HasLineEnd text := by
  -- The equations of `message` are slow to come by.
  delta HasLineEnd message
  cases violation <;> dsimp only <;> simp [path, quoted, lineEnd_not_mem_toDigits]

theorem path_of_describes {rules : ShapeRules} {declaration : Declaration} {violation : Violation}
    (h : rules.Describes declaration violation) : violation.path = declaration.path := by
  cases violation with
  | notConstructible | notPublic | receiver => exact h
  | missingContract | arity | parameterType | returnType => exact h.1

end Violation

theorem hasLineEnd_violationMessage (violation : Violation) :
    HasLineEnd (Generator.violationMessage violation) ↔ HasLineEnd violation.message := by
  have hname : ∀ rule : Rule, '\n' ∉ rule.name.toList := by
    intro rule
    cases rule <;> decide
  delta Generator.violationMessage
  simp [HasLineEnd, hname]

theorem hasLineEnd_unresolved (entry : Entry) (tag : String) :
    HasLineEnd (Generator.unresolvedMessage entry tag) ↔
      HasLineEnd entry.path ∨ HasLineEnd tag := by
  delta Generator.unresolvedMessage
  simp [HasLineEnd]

theorem hasLineEnd_nested (inner outer : Entry) :
    HasLineEnd (Manifest.nestedAliasMessage inner outer) ↔
      HasLineEnd inner.path ∨ HasLineEnd outer.path := by
  delta Manifest.nestedAliasMessage
  simp [HasLineEnd]

theorem hasLineEnd_notPublic (path : String) :
    HasLineEnd (ShapeRules.notPublicWarning path) ↔ HasLineEnd path := by
  delta ShapeRules.notPublicWarning
  simp [HasLineEnd]

/-- A finding in a file whose name has no line end has those of its message. -/
theorem Finding.hasLineEnd_text {finding : Finding} {location : Location}
    (hlocation : finding.location = some location) (hfile : ¬HasLineEnd location.file) :
    HasLineEnd finding.text ↔ HasLineEnd finding.message := by
  have hlevel : '\n' ∉ finding.level.word.toList := by cases finding.level <;> decide
  have htext : finding.text = finding.level.word ++ ": " ++
      (location.file ++ ":" ++ toString location.line ++ ": ") ++ finding.message := by
    delta text
    rw [hlocation]
    rfl
  rw [htext]
  unfold HasLineEnd at *
  simp [hlevel, lineEnd_not_mem_toDigits, hfile]

/-! ## What is found -/

/-- A declaration is that of an entry. -/
def Manifest.IsDeclared (manifest : Manifest) (declaration : Declaration) : Prop :=
  ∃ entry ∈ manifest.entries, ∃ carrier, manifest.declare entry carrier = .ok declaration

namespace Generator

section
variable (generator : Generator) (manifest : Manifest)

/-- A finding is the error about a declaration that breaks a rule. -/
def Rejects (finding : Finding) (violation : Violation) : Prop :=
  ∃ declaration, manifest.IsDeclared declaration ∧ generator.rules.Breaks declaration violation ∧
    finding = ⟨.error, some declaration.location, violationMessage violation⟩

/-- The findings of a round: warnings about tags, nested aliases and types that are not public, and
errors about declarations that break a rule. -/
inductive Finds : Finding → Prop
  | unresolved {entry : Entry} {tag : String} (hentry : entry ∈ manifest.entries)
    (htag : tag ∈ entry.tags) :
    Finds ⟨.warning, some entry.location, unresolvedMessage entry tag⟩
  | nested {inner outer : Entry} (hinner : inner ∈ manifest.entries)
    (houter : outer ∈ manifest.entries) :
    Finds ⟨.warning, some inner.location, Manifest.nestedAliasMessage inner outer⟩
  | notPublic {declaration : Declaration} (declared : manifest.IsDeclared declaration) :
    Finds ⟨.warning, some declaration.location, ShapeRules.notPublicWarning declaration.path⟩
  | rejected {finding : Finding} {violation : Violation}
    (h : Rejects generator manifest finding violation) : Finds finding

end

section
variable {generator : Generator} {manifest : Manifest} {report report' : Report} {finding : Finding}

theorem finds_unresolved (h : finding ∈ manifest.unresolvedWarnings) :
    Finds generator manifest finding := by
  obtain ⟨⟨entry, tag⟩, hmem, rfl⟩ := List.mem_map.1 h
  obtain ⟨other, hother, htag⟩ := List.mem_flatMap.1 (List.mem_filter.1 hmem).1
  obtain ⟨tag', htag', hpair⟩ := List.mem_map.1 htag
  obtain ⟨rfl, rfl⟩ := Prod.mk.inj hpair
  exact .unresolved hother htag'

/-- What is reached is an entry, and so is the alias that it is reached through. -/
theorem mem_of_reach {role : Role} {inner outer : Entry}
    (h : .nested inner outer ∈ manifest.reach role) :
    inner ∈ manifest.entries ∧ outer ∈ manifest.entries := by
  obtain ⟨entry, hentry, h⟩ := List.mem_flatMap.1 h
  obtain ⟨mark, -, h⟩ := List.mem_flatMap.1 h
  split at h
  · obtain ⟨target, htarget, h⟩ := List.mem_map.1 h
    split at h
    · obtain ⟨rfl, rfl⟩ := Reach.nested.inj h
      exact ⟨(List.mem_filter.1 htarget).1, hentry⟩
    · cases h
  · cases List.mem_singleton.1 h

theorem finds_nested {role : Role} (h : finding ∈ (manifest.reach role).filterMap Reach.warning?) :
    Finds generator manifest finding := by
  obtain ⟨reached, hreached, hwarning⟩ := List.mem_filterMap.1 h
  cases reached with
  | entry => cases hwarning
  | nested inner outer =>
    obtain rfl := Option.some.inj hwarning
    obtain ⟨hinner, houter⟩ := mem_of_reach hreached
    exact .nested hinner houter

/-- Discovery adds warnings about aliases to what is reported. -/
theorem finds_of_discover {role : Role} {outcome : Except Fatal (List Declaration)}
    (h : manifest.discover role report = (report', outcome))
    (hfinding : finding ∈ report'.findings) :
    finding ∈ report.findings ∨ Finds generator manifest finding := by
  cases outcome with
  | ok declarations =>
    rw [(Manifest.declareAll_ok h).1] at hfinding
    exact (List.mem_append.1 hfinding).imp_right finds_nested
  | error fatal =>
    obtain ⟨before, entry, carrier, after, hreach, -, -, hfindings⟩ := Manifest.declareAll_stops h
    rw [hfindings] at hfinding
    refine (List.mem_append.1 hfinding).imp_right fun hmem => ?_
    have hwarned : finding ∈ (manifest.reach role).filterMap Reach.warning? := by
      rw [hreach, List.filterMap_append]
      exact List.mem_append_left _ hmem
    exact finds_nested hwarned

/-- What is discovered is declared. -/
theorem isDeclared_of_discover {role : Role} {declarations : List Declaration}
    (h : manifest.discover role report = (report', .ok declarations)) {declaration : Declaration}
    (hmem : declaration ∈ declarations) : manifest.IsDeclared declaration := by
  obtain ⟨origins, -, hdeclared, -⟩ := Manifest.discover_origins h
  obtain ⟨origin, -, entry, carrier, ⟨_, _, -, -, hentry, -⟩, -, hdeclare⟩ :=
    Manifest.exists_origin hdeclared hmem
  exact ⟨entry, List.mem_of_getElem? hentry, carrier, hdeclare⟩

/-- Validation adds what it finds of the declarations. -/
theorem finds_of_validate {declarations : List Declaration}
    (declared : ∀ declaration ∈ declarations, manifest.IsDeclared declaration)
    (hfinding : finding ∈ (validate generator.rules declarations report).1.findings) :
    finding ∈ report.findings ∨ Finds generator manifest finding := by
  rw [(validate_eq generator.rules declarations report).1] at hfinding
  refine (List.mem_append.1 hfinding).imp_right fun hfinding => ?_
  obtain ⟨declaration, hmem, hfound⟩ := List.mem_flatMap.1 hfinding
  rw [ShapeRules.findings] at hfound
  rcases generator.rules.check_spec declaration with ⟨-, hcheck⟩ | ⟨violation, hbreaks, hcheck⟩
  · rw [hcheck] at hfound
    obtain ⟨text, htext, rfl⟩ := List.mem_map.1 hfound
    unfold ShapeRules.warnings at htext
    split at htext
    · split at htext
      · cases htext
      · obtain rfl := List.mem_singleton.1 htext
        exact .notPublic (declared _ hmem)
    · cases htext
  · rw [hcheck] at hfound
    obtain rfl := List.mem_singleton.1 hfound
    exact .rejected ⟨declaration, declared _ hmem, hbreaks, rfl⟩

/-- All that a round reports is about what the manifest holds. -/
theorem finds_of_accept {outcome : Except RoundError Accepted}
    (h : generator.accept manifest report = (report', outcome))
    (hfinding : finding ∈ report'.findings) :
    finding ∈ report.findings ∨ Finds generator manifest finding := by
  have hunresolved : ∀ found ∈ (reportUnresolved manifest report).findings,
      found ∈ report.findings ∨ Finds generator manifest found := by
    have hfindings : (reportUnresolved manifest report).findings =
        report.findings ++ manifest.unresolvedWarnings := Report.foldl_warn _ _ _ report
    intro found hfound
    rw [hfindings] at hfound
    exact (List.mem_append.1 hfound).imp_right finds_unresolved
  rw [accept] at h
  rcases hproviders : manifest.discover .provider (reportUnresolved manifest report) with
    ⟨first, providers⟩
  rcases hgateways : manifest.discover .gateway first with ⟨second, gateways⟩
  have hsecond : ∀ found ∈ second.findings,
      found ∈ report.findings ∨ Finds generator manifest found := by
    intro found hfound
    rcases finds_of_discover hgateways hfound with hfound | hfound
    · rcases finds_of_discover hproviders hfound with hfound | hfound
      · exact hunresolved found hfound
      · exact .inr hfound
    · exact .inr hfound
  simp only [hproviders, hgateways] at h
  split at h
  · obtain ⟨rfl, -⟩ := Prod.mk.inj h
    rcases finds_of_validate (fun _ => isDeclared_of_discover hgateways) hfinding
      with hfound | hfound
    · rcases finds_of_validate (fun _ => isDeclared_of_discover hproviders) hfound
        with hfound | hfound
      · exact hsecond finding hfound
      · exact .inr hfound
    · exact .inr hfound
  · obtain ⟨rfl, -⟩ := Prod.mk.inj h
    exact hsecond finding hfinding

end

/-! ## What is printed of it -/

section
variable {generator : Generator} {manifest : Manifest} {finding : Finding} {crateRoot : String}

/-- A declaration is called and placed as its entry is. -/
theorem oneLine_of_isDeclared (oneLine : ∀ entry ∈ manifest.entries, entry.IsOneLine crateRoot)
    {declaration : Declaration} (declared : manifest.IsDeclared declaration) :
    (HasLineEnd declaration.path ↔ HasLineEnd crateRoot) ∧
      ¬HasLineEnd declaration.location.file := by
  obtain ⟨entry, hentry, carrier, hdeclare⟩ := declared
  rw [(parts_of_declare hdeclare).2, (bindable_of_declare hdeclare).2]
  exact ⟨(oneLine entry hentry).path, (oneLine entry hentry).file⟩

/-- What is printed of a finding has a line end exactly if the root of the crate has one, or a text
that an error quotes. -/
theorem Finds.hasLineEnd_iff (oneLine : ∀ entry ∈ manifest.entries, entry.IsOneLine crateRoot)
    (h : Finds generator manifest finding) : HasLineEnd finding.text ↔
      HasLineEnd crateRoot ∨ ∃ violation, Rejects generator manifest finding violation ∧
        ∃ text ∈ violation.quoted, HasLineEnd text := by
  have hwarning : ∀ {location : Location} {message : String},
      ¬∃ violation, Rejects generator manifest ⟨.warning, some location, message⟩ violation ∧
        ∃ text ∈ violation.quoted, HasLineEnd text := by
    rintro location message ⟨violation, ⟨declaration, -, -, hfinding⟩, -⟩
    cases hfinding
  cases h with
  | @unresolved entry tag hentry htag =>
    obtain ⟨hpath, htags, hfile⟩ := oneLine entry hentry
    rw [Finding.hasLineEnd_text rfl hfile, or_iff_left hwarning]
    rw [Finding.message, hasLineEnd_unresolved, hpath, or_iff_left (htags tag htag)]
  | @nested inner outer hinner houter =>
    obtain ⟨hpath, -, hfile⟩ := oneLine inner hinner
    rw [Finding.hasLineEnd_text rfl hfile, or_iff_left hwarning]
    rw [Finding.message, hasLineEnd_nested, hpath, (oneLine outer houter).path, or_self]
  | @notPublic declaration declared =>
    obtain ⟨hpath, hfile⟩ := oneLine_of_isDeclared oneLine declared
    rw [Finding.hasLineEnd_text rfl hfile, or_iff_left hwarning]
    rw [Finding.message, hasLineEnd_notPublic, hpath]
  | rejected h =>
    -- Both sides are about all violations that the finding may be the error about.
    have hmessage : ∀ violation, Rejects generator manifest finding violation →
        (HasLineEnd finding.text ↔
          HasLineEnd crateRoot ∨ ∃ text ∈ violation.quoted, HasLineEnd text) := by
      rintro violation ⟨declaration, declared, hbreaks, rfl⟩
      obtain ⟨hpath, hfile⟩ := oneLine_of_isDeclared oneLine declared
      rw [Finding.hasLineEnd_text rfl hfile, hasLineEnd_violationMessage,
        violation.hasLineEnd_message, Violation.path_of_describes hbreaks.describes, hpath]
    constructor
    · exact fun hline => ((hmessage _ h).1 hline).imp_right fun hquoted => ⟨_, h, hquoted⟩
    · rintro (hroot | ⟨violation, hrejects, hquoted⟩)
      · exact (hmessage _ h).2 (.inl hroot)
      · exact (hmessage violation hrejects).2 (.inr hquoted)

end

end Generator

end Bindery
