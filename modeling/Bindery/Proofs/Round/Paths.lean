import Bindery.Proofs.Round.Installation
import Bindery.Proofs.Round.Misuse
import Bindery.Proofs.Survey.Exclusion
import Bindery.Proofs.Survey.Paths
/-!
# Paths that are written back

A statement names what it registers by a path, which it reads from the text that the survey has put
together. `invalidPath_mem_iff` says when a round stops at such a text. From sources in modules with
admissible paths it never does: every path can be read, and its tokens are the names that led to the
entry, one by one (`survey_paths_written`).
-/

namespace Bindery

open Source (Path Spells operator separated word)
open Source.Grammar (IsPathName)

/-- A declaration whose path can be read has a statement. -/
theorem fragment_of_readPath {declaration : Declaration} {path : Path}
    (h : Source.readPath declaration.path = .ok path) (runtime : Path) :
    declaration.fragment runtime = .ok ⟨declaration.carrier.mark, declaration.path,
      declaration.carrier.mark.tokens
        ((Making.ofShape declaration.shape).tokens runtime path)⟩ := by
  rw [Declaration.fragment, Declaration.registration, h]
  rfl

/-- What is declared is an entry that can be bound, at its location. -/
theorem bindable_of_declare {manifest : Manifest} {entry : Entry} {carrier : Carrier}
    {declaration : Declaration} (h : manifest.declare entry carrier = .ok declaration) :
    entry.category.isBindable = true ∧ declaration.location = entry.location := by
  cases hcategory : entry.category with
  | unsupported word =>
    rw [manifest.declare_unsupported hcategory] at h
    cases h
  | type | function =>
    refine ⟨rfl, ?_⟩
    unfold Manifest.declare at h
    split at h
    · obtain rfl := Except.ok.inj h
      rfl
    · cases h

namespace Generator

section
variable {generator : Generator} {manifest : Manifest} {report report' : Report}

/-- What is accepted is declared from an entry of the manifest. -/
theorem exists_entry_of_accepted {accepted : Accepted}
    (h : generator.accept manifest report = (report', .ok accepted)) {declaration : Declaration}
    (hmem : declaration ∈ accepted.providers ++ accepted.gateway.toList) :
    ∃ entry ∈ manifest.entries, ∃ carrier, manifest.declare entry carrier = .ok declaration := by
  obtain ⟨⟨origins, -, hproviders⟩, hgateway⟩ := accept_discovered h
  obtain ⟨role, origin, entry, carrier, ⟨_, _, -, -, hentry, -⟩, -, hdeclare⟩ :
      ∃ role origin, manifest.DeclaredFrom role origin declaration := by
    rcases List.mem_append.1 hmem with hmem | hmem
    · obtain ⟨origin, -, horigin⟩ := Manifest.exists_origin hproviders hmem
      exact ⟨_, origin, horigin⟩
    · obtain ⟨origin, horigin⟩ := hgateway declaration (Option.mem_toList.1 hmem)
      exact ⟨_, origin, horigin⟩
  exact ⟨entry, List.mem_of_getElem? hentry, carrier, hdeclare⟩

/-! ## Paths that cannot be read -/

/-- A declaration with a path that cannot be read gives this cause for stopping. -/
def Unwritable (declaration : Declaration) (fatal : Fatal) : Prop :=
  ∃ fault, Source.readPath declaration.path = .error fault ∧
    fatal = .invalidPath declaration.path declaration.location fault.message

theorem mem_causes_iff {runtime : Path} {declarations : List Declaration} {fatal : Fatal} :
    fatal ∈ (fragments runtime declarations).2 ↔
      ∃ declaration ∈ declarations, Unwritable declaration fatal := by
  have hcause : ∀ declaration : Declaration,
      declaration.fragment runtime = .error fatal ↔ Unwritable declaration fatal := by
    intro declaration
    cases hpath : Source.readPath declaration.path with
    | ok path => simp [Unwritable, fragment_of_readPath hpath, hpath]
    | error fault =>
      have hfragment : declaration.fragment runtime =
          .error (.invalidPath declaration.path declaration.location fault.message) := by
        rw [Declaration.fragment, Declaration.registration, hpath]
        rfl
      simp [Unwritable, hfragment, hpath, eq_comm]
  simp only [fragments, List.mem_filterMap, List.mem_map, ← hcause]
  constructor
  · rintro ⟨result, ⟨declaration, hmem, rfl⟩, hresult⟩
    split at hresult
    · cases hresult
    · next hfragment =>
      obtain rfl := Option.some.inj hresult
      exact ⟨declaration, hmem, hfragment⟩
  · rintro ⟨declaration, hmem, hfragment⟩
    exact ⟨_, ⟨declaration, hmem, rfl⟩, by rw [hfragment]⟩

/-- No misuse of markers is a path that cannot be read. -/
theorem invalidPath_not_mem_misuses {causes : List Fatal}
    (h : generator.accept manifest report = (report', .error (.aborted causes)))
    (name : String) (location : Location) (reason : String) :
    .invalidPath name location reason ∉ causes := by
  obtain ⟨first, second, _, _, herror, hfirst, hsecond, -⟩ :=
    (accept_aborts generator manifest report).2 _ _ h
  obtain rfl := RoundError.aborted.inj herror
  rw [List.mem_append, not_or]
  constructor
  · cases hfirst with
    | unsupported stops =>
      obtain ⟨_, _, _, -, -, -, rfl⟩ := stops.1
      simp
    | none => exact List.not_mem_nil
  · cases hsecond with
    | unsupported stops =>
      obtain ⟨_, _, _, -, -, -, rfl⟩ := stops.1
      simp
    | several => simp
    | none => exact List.not_mem_nil

/-- What is accepted is assembled unless some paths cannot be read; all of these are then causes. -/
theorem assemble_cases (generator : Generator) (accepted : Accepted) :
    ∃ causes,
      (∀ fatal, fatal ∈ causes ↔ ∃ declaration ∈ accepted.providers ++ accepted.gateway.toList,
        Unwritable declaration fatal) ∧
      ((causes = [] ∧ ∃ artifacts, generator.assemble accepted = .ok artifacts) ∨
        (causes ≠ [] ∧ generator.assemble accepted = .error (.aborted causes))) := by
  refine ⟨(fragments generator.runtime accepted.providers).2 ++
    (fragments generator.runtime accepted.gateway.toList).2, fun fatal => ?_, ?_⟩
  · simp only [List.mem_append, mem_causes_iff, or_and_right, exists_or]
  · unfold assemble
    by_cases hnone : (fragments generator.runtime accepted.providers).2 ++
        (fragments generator.runtime accepted.gateway.toList).2 = []
    · -- There is one gateway at most, so that nothing else can keep the files from being made.
      have hone : (fragments generator.runtime accepted.gateway.toList).1.length ≤ 1 := by
        refine (List.length_filterMap_le _ _).trans ?_
        rw [List.length_map]
        cases accepted.gateway <;> simp
      refine .inl ⟨hnone, ?_⟩
      simp only [hnone, List.isEmpty_nil, if_true, Target.emit, if_neg (Nat.not_lt.2 hone)]
      exact ⟨_, rfl⟩
    · have hsome : ((fragments generator.runtime accepted.providers).2 ++
          (fragments generator.runtime accepted.gateway.toList).2).isEmpty = false := by
        simpa using hnone
      refine .inr ⟨hnone, ?_⟩
      simp only [hsome, Bool.false_eq_true, if_false]

/-- A round stops at a path that cannot be read exactly if it accepts a declaration with that
path. -/
theorem invalidPath_mem_iff {name reason : String} {location : Location} :
    (∃ causes, (generator.generate manifest report).2 = .error (.aborted causes) ∧
        .invalidPath name location reason ∈ causes) ↔
      ∃ accepted, (generator.accept manifest report).2 = .ok accepted ∧
        ∃ declaration ∈ accepted.providers ++ accepted.gateway.toList,
          Unwritable declaration (.invalidPath name location reason) := by
  unfold generate
  rcases haccept : generator.accept manifest report with ⟨report', error | accepted⟩
  · constructor
    · rintro ⟨causes, herror, hmem⟩
      obtain rfl := Except.error.inj herror
      exact absurd hmem (invalidPath_not_mem_misuses haccept _ _ _)
    · rintro ⟨accepted, haccepted, -⟩
      cases haccepted
  · obtain ⟨causes, hcauses, ⟨rfl, artifacts, hassemble⟩ | ⟨-, hassemble⟩⟩ :=
      assemble_cases generator accepted
    · simp only [Except.bind, hassemble, Except.ok.injEq, exists_eq_left', ← hcauses]
      simp
    · simp only [Except.bind, hassemble, Except.error.injEq, RoundError.aborted.injEq,
        Except.ok.injEq, exists_eq_left', hcauses]

end

end Generator

/-! ## Paths of surveys -/

section
variable {sources : List SourceText} {survey : Survey}

/-- Every entry of a survey was met in one of the sources. -/
theorem Survey.exists_source_of_entry (h : Survey.ofSources sources = .ok survey) {entry : Entry}
    (hmem : entry ∈ survey.entries) :
    ∃ source ∈ sources, ∃ visit ∈ source.visits, visit.recorded? = some entry ∧
      visit.site.fileModule = source.module ∧ visit.All Source.Ty.IsNamed := by
  rw [(Survey.ofSources_ok h).1] at hmem
  obtain ⟨visit, hmade, hrecorded⟩ := List.mem_filterMap.1 hmem
  have hvisit := (List.mem_filter.1 hmade).1
  obtain ⟨source, hsource, hmet⟩ := List.mem_flatMap.1 hvisit
  exact ⟨source, hsource, visit, hmet, hrecorded, SourceText.fileModule hmet,
    Survey.all_of_mem_visits hvisit⟩

/-- The paths of a survey are spelled by the names that lead to its entries: those of the module of
the file and of the inline modules, that of the type whose member an entry is, and its own. Exactly
members of implementations have a scope, and it is the path without the last name. If the names of
the modules may stand in paths, every type and every function has a statement, whatever it is
declared as, and the tokens of its path are the names, one by one; so no round stops at a path that
cannot be read. -/
theorem survey_paths_written (modules : SourceText → List String)
    (hscan : Survey.ofSources sources = .ok survey)
    (hmodules : ∀ source ∈ sources, Spells (modules source) source.module ∧
      ∀ name ∈ modules source, IsPathName name) :
    (∀ entry ∈ survey.entries, ∃ source ∈ sources, ∃ visit ∈ source.visits,
      visit.recorded? = some entry ∧
      (∃ name, visit.bearer.name? = some name ∧ entry.ident = name.text) ∧
      Spells (visit.names (modules source)) entry.path ∧
      entry.scope.isSome = visit.bearer.isMember ∧
      visit.bearer.owner?.isSome = visit.bearer.isMember ∧
      (∀ scope ∈ entry.scope, Spells (visit.names (modules source)).dropLast scope) ∧
      (entry.category.isBindable = true → ∀ declaration : Declaration,
        declaration.path = entry.path → ∀ runtime, ∃ path : Path,
          declaration.fragment runtime = .ok ⟨declaration.carrier.mark, entry.path,
            declaration.carrier.mark.tokens
              ((Making.ofShape declaration.shape).tokens runtime path)⟩ ∧
          path.tokens =
            separated (operator "::") false ((visit.names (modules source)).map word))) ∧
    ∀ (generator : Generator) (report : Report) (causes : List Fatal),
      (generator.generate survey.manifest report).2 = .error (.aborted causes) →
        ∀ name location reason, .invalidPath name location reason ∉ causes := by
  -- The text of a path is read as the path of the names that led to the entry.
  have hreads : ∀ {source : SourceText}, source ∈ sources → ∀ {visit : Visit} {entry : Entry},
      visit.All Source.Ty.IsNamed → visit.recorded? = some entry →
      entry.category.isBindable = true → Spells (visit.names (modules source)) entry.path →
      Source.readPath entry.path = .ok (.ofNames false (visit.names (modules source))) := by
    intro source hsource visit entry hall hrecorded hbindable hspells
    exact hspells.readPath
      (Visit.isPathName_of_mem_names hall hrecorded hbindable (hmodules source hsource).2)
  constructor
  · intro entry hentry
    obtain ⟨source, hsource, visit, hvisit, hrecorded, hfile, hall⟩ :=
      Survey.exists_source_of_entry hscan hentry
    obtain ⟨hname, hspells, hmember, howner, hscope⟩ :=
      Visit.spells_entry (hfile ▸ (hmodules source hsource).1) hrecorded
    refine ⟨source, hsource, visit, hvisit, hrecorded, hname, hspells, hmember, howner, hscope, ?_⟩
    intro hbindable declaration hpath runtime
    have hread := hreads hsource hall hrecorded hbindable hspells
    rw [← hpath] at hread
    refine ⟨_, ?_, hspells.tokens⟩
    rw [fragment_of_readPath hread, hpath]
  · intro generator report causes hstopped name location reason hmem
    obtain ⟨accepted, haccepted, declaration, hdeclared, fault, hfault, -⟩ :=
      Generator.invalidPath_mem_iff.1 ⟨causes, hstopped, hmem⟩
    obtain ⟨entry, hentry, carrier, hdeclare⟩ :=
      Generator.exists_entry_of_accepted (Prod.ext rfl haccepted) hdeclared
    obtain ⟨source, hsource, visit, -, hrecorded, hfile, hall⟩ :=
      Survey.exists_source_of_entry hscan (List.mem_of_mem_filter hentry)
    obtain ⟨-, hspells, -⟩ := Visit.spells_entry (hfile ▸ (hmodules source hsource).1) hrecorded
    have hread := hreads hsource hall hrecorded (bindable_of_declare hdeclare).1 hspells
    rw [(parts_of_declare hdeclare).2, hread] at hfault
    cases hfault

end

/-- A source whose names are raw, contextual or keywords: a member of a type that is named by a path
with `Self`, in an inline module called `try`. -/
def windingSource : SourceText :=
  ⟨"lib.rs", "self::r#type",
    "mod try \x7b impl super::Self::r#box<u8> \x7b " ++
      "#[provider(\"k\")] pub fn auto() \x7b\x7d \x7d \x7d"⟩

/-- The member is found under all its names, and a statement for it names them again. -/
theorem windingSource_written :
    ∃ survey entry, Survey.ofSources [windingSource] = .ok survey ∧ survey.entries = [entry] ∧
      entry.path = "self::r#type::try::r#box::auto" ∧
      entry.scope = some "self::r#type::try::r#box" ∧
      ∀ declaration : Declaration, declaration.path = entry.path → ∀ runtime, ∃ path : Path,
        declaration.fragment runtime = .ok ⟨declaration.carrier.mark, entry.path,
          declaration.carrier.mark.tokens
            ((Making.ofShape declaration.shape).tokens runtime path)⟩ := by
  have hscanned : (Survey.ofSources [windingSource]).toOption.map (fun survey =>
      survey.entries.map fun entry => (entry.path, entry.scope, entry.category.isBindable)) =
        some [("self::r#type::try::r#box::auto", some "self::r#type::try::r#box", true)] := by
    decide +kernel
  have hmodules : ∀ source ∈ [windingSource],
      Spells ["self", "r#type"] source.module ∧ ∀ name ∈ ["self", "r#type"], IsPathName name := by
    rw [List.forall_mem_singleton]
    exact ⟨⟨by decide, by decide⟩, by decide +kernel⟩
  obtain ⟨survey, hscan⟩ := Survey.exists_ok
    (Option.isSome_map.symm.trans (congrArg Option.isSome hscanned))
  rw [hscan] at hscanned
  have hentries := Option.some.inj hscanned
  obtain ⟨entry, hentry, hparts⟩ := List.map_eq_singleton_iff.1 hentries
  obtain ⟨hpath, hscope, hbindable⟩ : entry.path = _ ∧ entry.scope = _ ∧ _ = true := by
    simpa using hparts
  obtain ⟨source, -, visit, -, -, -, -, -, -, -, hwritten⟩ :=
    (survey_paths_written (fun _ => ["self", "r#type"]) hscan hmodules).1 entry
      (hentry ▸ List.mem_singleton_self _)
  refine ⟨survey, entry, hscan, hentry, hpath, hscope, fun declaration hsame runtime => ?_⟩
  obtain ⟨path, hfragment, -⟩ := hwritten hbindable declaration hsame runtime
  exact ⟨path, hfragment⟩

end Bindery
