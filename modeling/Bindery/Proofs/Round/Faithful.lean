import Bindery.Proofs.Round.Legible
import Bindery.Round
/-!
# Generated files are faithful

`assemble_faithful`: whatever the keys are, the generated files are lexed as the tokens they were
assembled from. Each unit has one line for each accepted declaration, and the line is read as the
registration of the declaration; the index includes the units that exist and names what they define.
-/

namespace Bindery

open Source (Path operator)
open Token Text

/-! ## Statements in a unit -/

/-- The tokens of a unit. -/
def Target.unitTokens (target : Target) (role : Role) (fragments : List Fragment) : Expression :=
  target.signature role ++ [.group .brace (fragments.flatMap fun fragment =>
    fragment.tokens ++ operator ";")]

/-- The line of a statement without its end. -/
def Fragment.line (fragment : Fragment) : List Char :=
  '\t' :: ((spaced fragment.tokens).toList ++ [';'])

/-- A fragment is the statement of a declaration, and is read as what the declaration says: its
mark, the way to make its delegate and its path. -/
def Target.Registers (target : Target) (declaration : Declaration) (fragment : Fragment) : Prop :=
  declaration.fragment target.runtime = .ok fragment ∧
    Registered.ofTokens? (shownPath target.runtime) fragment.tokens =
      some ⟨declaration.carrier.mark, .ofShape declaration.shape, declaration.path⟩

/-- A unit holds the statements of declarations, one for each and in their order: as it is lexed as
a whole, and line by line. -/
structure Target.Holds (target : Target) (role : Role) (declarations : List Declaration)
    (unit : Artifact) : Prop where
  name : unit.name = target.output.unitName role
  content : ∃ fragments lines,
    List.Forall₂ target.Registers declarations fragments ∧
    LexedAs unit.contents (target.unitTokens role fragments) ∧
    splitAt '\n' unit.contents.toList =
      [Artifact.header.toList, [], (spaced (target.signature role)).toList ++ " \x7b".toList] ++
        lines ++ [['\x7d'], []] ∧
    List.Forall₂ (fun fragment line =>
      LexedAs (String.ofList line) (fragment.tokens ++ operator ";")) fragments lines

/-- Whether a fragment is a legible statement that ends with a call. -/
def Fragment.IsCall (fragment : Fragment) : Prop :=
  LegibleList fragment.tokens ∧
    ∀ last ∈ fragment.tokens.getLast?, ∃ arguments, last = .group .paren arguments

theorem Target.exists_registers {target : Target} (simple : target.runtime.IsSimple)
    {declaration : Declaration} {path : Path} (hpath : path.IsSimple)
    (hdeclaration : declaration.path = shownPath path) :
    ∃ fragment, target.Registers declaration fragment ∧ fragment.IsCall := by
  have hread : Source.readPath declaration.path = .ok path := by
    rw [hdeclaration]
    exact Source.readPath_shownPath hpath
  have hfragment : declaration.fragment target.runtime = .ok ⟨declaration.carrier.mark,
      declaration.path, declaration.carrier.mark.tokens
        ((Making.ofShape declaration.shape).tokens target.runtime path)⟩ := by
    rw [Declaration.fragment, Declaration.registration, hread]
    rfl
  refine ⟨_, ⟨hfragment, ?_⟩, legible_mark _ (legible_making _ simple hpath), ?_⟩
  · rw [Registered.ofTokens?_tokens _ _ simple hpath, hdeclaration]
  · dsimp only
    cases declaration.carrier.mark with
    | provider key => exact fun last h => ⟨_, (Option.some.inj h).symm⟩
    | gateway => exact fun last h => ⟨_, (Option.some.inj h).symm⟩

theorem lexes_line {fragment : Fragment} (call : fragment.IsCall) {rest : List Char}
    (hrest : startsPunct rest = false) :
    Lexes fragment.line rest (fragment.tokens ++ operator ";") := by
  have htab : Skips ['\t'] := skips_blank (by decide)
  have hlegible : Legible (.punct ';' false) := ⟨by decide, by decide, by decide⟩
  have hend : Lexes [';'] rest (operator ";") := lexes_token hlegible hrest
  have htokens := lexes_spacedList fragment.tokens (';' :: rest) call.1 (by
    intro last hlast
    obtain ⟨arguments, rfl⟩ := call.2 last hlast
    trivial) true
  have hall := (htokens.append hend).skip htab
  simpa [Fragment.line, spaced] using hall

/-! ## Units -/

/-- The comment that begins a file is skipped with the blank line after it. -/
theorem skips_header : Skips (Artifact.header ++ "\n\n").toList := by
  have hheader : (Artifact.header ++ "\n\n").toList =
      '/' :: '/' :: (" @generated by tether-gen. Do not edit.".toList ++ ['\n']) ++ ['\n'] := by
    decide
  rw [hheader]
  exact (skips_comment (fun _ => rfl) (by decide)).append (skips_blank (by decide))

/-- The lines of statements. -/
def statementLines (fragments : List Fragment) : List Char :=
  fragments.flatMap fun fragment => fragment.line ++ ['\n']

theorem toList_statementLine (fragment : Fragment) :
    (Target.statementLine fragment).toList = fragment.line ++ ['\n'] := by
  simp [Target.statementLine, Fragment.line]

theorem toList_unit (target : Target) (role : Role) (fragments : List Fragment) :
    (target.unit role fragments).contents.toList =
      (Artifact.header ++ "\n\n").toList ++ ((spaced (target.signature role)).toList ++ (' ' ::
        ('\x7b' :: ('\n' :: statementLines fragments ++ ['\x7d']) ++ ['\n']))) := by
  have hlines : (String.join (fragments.map Target.statementLine)).toList =
      statementLines fragments := by
    rw [String.toList_join, List.flatMap_map, statementLines]
    simp only [toList_statementLine]
  simp only [Target.unit, String.toList_append, hlines]
  simp

theorem lexes_statementLines {fragments : List Fragment}
    (calls : ∀ fragment ∈ fragments, fragment.IsCall) (rest : List Char) :
    Lexes (statementLines fragments) rest
      (fragments.flatMap fun fragment => fragment.tokens ++ operator ";") := by
  induction fragments with
  | nil => exact lexes_of_skips skips_nil
  | cons fragment fragments ih =>
    have hmore := ih fun other hother => calls other (List.mem_cons_of_mem _ hother)
    have hend : startsPunct ('\n' :: (statementLines fragments ++ rest)) = false :=
      startsPunct_eq_false (by decide)
    have hline := lexes_line (calls fragment List.mem_cons_self) hend
    have hblank : Skips ['\n'] := skips_blank (by decide)
    exact (hline.skip_end hblank).append hmore

/-- A unit is lexed as the tokens it was assembled from. -/
theorem Target.lexedAs_unit {target : Target} (simple : target.runtime.IsSimple) (role : Role)
    {fragments : List Fragment} (calls : ∀ fragment ∈ fragments, fragment.IsCall) :
    LexedAs (target.unit role fragments).contents (target.unitTokens role fragments) := by
  -- From the inside out: the statements, the braces, the signature, the comment.
  have hbody : Lexes ('\n' :: statementLines fragments) ('\x7d' :: ['\n'])
      (fragments.flatMap fun fragment => fragment.tokens ++ operator ";") :=
    (lexes_statementLines calls _).skip (skips_blank (by decide))
  have hgroup : Lexes ('\x7b' :: ('\n' :: statementLines fragments ++ ['\x7d'])) ['\n']
      [.group .brace _] := lexes_group hbody fun h =>
      absurd (List.cons_prefix_cons.1 h).1 (by decide)
  have hspace : Skips [' '] := skips_blank (by decide)
  have hend : Skips ['\n'] := skips_blank (by decide)
  have hbraces : Lexes (' ' :: ('\x7b' :: ('\n' :: statementLines fragments ++ ['\x7d']) ++ ['\n']))
      [] [.group .brace _] := (hgroup.skip_end hend).skip hspace
  have hsignature := lexes_spacedList (target.signature role)
    (' ' :: ('\x7b' :: ('\n' :: statementLines fragments ++ ['\x7d']) ++ ['\n']) ++ [])
    (legible_signature simple role) (by
      intro last hlast
      obtain rfl := Option.some.inj hlast
      trivial) true
  have hall := (hsignature.append hbraces).skip skips_header
  refine Lexes.lexedAs ?_ ?_
  · rw [toList_unit, spaced, String.toList_ofList]
    exact hall
  · rw [toList_unit]
    exact fun h => absurd (Option.some.inj h) (by decide)

/-- A statement has no line end. -/
theorem lineEnd_not_mem_line {fragment : Fragment} (call : fragment.IsCall) :
    '\n' ∉ fragment.line := by
  have htokens := lineEnd_not_mem_spacedList fragment.tokens call.1 true
  simpa [Fragment.line, spaced] using htokens

theorem splitAt_statementLines {fragments : List Fragment}
    (calls : ∀ fragment ∈ fragments, fragment.IsCall) (rest : List Char) :
    splitAt '\n' (statementLines fragments ++ rest) =
      fragments.map Fragment.line ++ splitAt '\n' rest := by
  induction fragments with
  | nil => rfl
  | cons fragment fragments ih =>
    have hline := lineEnd_not_mem_line (calls fragment List.mem_cons_self)
    have hcons : statementLines (fragment :: fragments) ++ rest =
        fragment.line ++ '\n' :: (statementLines fragments ++ rest) := by simp [statementLines]
    rw [hcons, splitAt_append hline,
      ih fun other hother => calls other (List.mem_cons_of_mem _ hother)]
    rfl

/-- The lines of a unit are the comment, the head, the statements and the closing bracket. -/
theorem Target.splitAt_unit {target : Target} (simple : target.runtime.IsSimple) (role : Role)
    {fragments : List Fragment} (calls : ∀ fragment ∈ fragments, fragment.IsCall) :
    splitAt '\n' (target.unit role fragments).contents.toList =
      [Artifact.header.toList, [], (spaced (target.signature role)).toList ++ " \x7b".toList] ++
        fragments.map Fragment.line ++ [['\x7d'], []] := by
  have hsignature : '\n' ∉ (spaced (target.signature role)).toList ++ " \x7b".toList := by
    have htokens := lineEnd_not_mem_spacedList _ (legible_signature simple role) true
    simpa [spaced] using htokens
  have hlines : (target.unit role fragments).contents.toList =
      Artifact.header.toList ++ '\n' :: ([] ++ '\n' ::
        ((spaced (target.signature role)).toList ++ " \x7b".toList ++ '\n' ::
          (statementLines fragments ++ (['\x7d'] ++ '\n' :: [])))) := by
    rw [toList_unit, String.toList_append]
    simp
  rw [hlines, splitAt_append (by decide), splitAt_append List.not_mem_nil,
    splitAt_append hsignature, splitAt_statementLines calls, splitAt_append (by decide)]
  rfl

/-! ## The index -/

/-- The tokens of the file of the index. -/
def Target.indexFileTokens (target : Target) (providers interceptor : Option Artifact) :
    Expression :=
  (providers.toList ++ interceptor.toList).flatMap inclusion ++
    target.indexTokens providers interceptor

theorem lexes_inclusionLine (unit : Option Artifact) (rest : List Char) :
    Lexes (Target.inclusionLine unit).toList rest (unit.toList.flatMap Target.inclusion) := by
  cases unit with
  | none => exact lexes_of_skips skips_nil
  | some unit =>
    have htokens := lexes_spacedList (Target.inclusion unit) ('\n' :: rest)
      (Target.legible_inclusion unit) (by
        intro last hlast
        obtain rfl := Option.some.inj hlast
        exact endsBefore_cons (by decide) _ rfl) true
    have hblank : Skips ['\n'] := skips_blank (by decide)
    have hline : Lexes (spacedList true (Target.inclusion unit) ++ ['\n']) rest
        (Target.inclusion unit) := Lexes.skip_end htokens hblank
    simpa [Target.inclusionLine, spaced] using hline

/-- The file of the index is lexed as the tokens it was assembled from. -/
theorem Target.lexedAs_index {target : Target} (simple : target.runtime.IsSimple)
    (providers interceptor : Option Artifact) :
    LexedAs (target.index providers interceptor).contents
      (target.indexFileTokens providers interceptor) := by
  have hblank : Skips ['\n'] := skips_blank (by decide)
  have htokens := lexes_spacedList (target.indexTokens providers interceptor) ['\n']
    (legible_indexTokens simple providers interceptor) (by
      intro last hlast
      have hlegible := legible_indexTokens simple providers interceptor
      exact endsBefore_cons (by decide) _ (isJoint_getLast? hlegible last hlast)) true
  have hindex : Lexes
      ('\n' :: (spacedList true (target.indexTokens providers interceptor) ++ ['\n'])) [] _ :=
    (Lexes.skip_end htokens hblank).skip hblank
  have hinclusions := (lexes_inclusionLine providers _).append
    ((lexes_inclusionLine interceptor _).append hindex)
  have hall := hinclusions.skip skips_header
  refine Lexes.lexedAs ?_ ?_
  · simpa [index, indexFileTokens, spaced] using hall
  · simp only [index, String.toList_append]
    exact fun h => absurd (Option.some.inj h) (by decide)

/-! ## All files of a round -/

/-- The roles that something is accepted for, with the declarations. -/
def Accepted.inUse (accepted : Accepted) : List (Role × List Declaration) :=
  [(.provider, accepted.providers), (.gateway, accepted.gateway.toList)].filter (!·.2.isEmpty)

theorem fragments_eq {target : Target} (simple : target.runtime.IsSimple)
    {declarations : List Declaration}
    (paths : ∀ declaration ∈ declarations,
      ∃ path, path.IsSimple ∧ declaration.path = shownPath path) :
    ∃ fragments, Generator.fragments target.runtime declarations = (fragments, []) ∧
      List.Forall₂ target.Registers declarations fragments ∧
      ∀ fragment ∈ fragments, fragment.IsCall := by
  have hall : ∃ fragments, List.Forall₂ target.Registers declarations fragments ∧
      ∀ fragment ∈ fragments, fragment.IsCall := by
    induction declarations with
    | nil => exact ⟨[], .nil, fun _ h => nomatch h⟩
    | cons declaration declarations ih =>
      obtain ⟨path, hpath, hdeclaration⟩ := paths declaration List.mem_cons_self
      obtain ⟨fragment, hregisters, hcall⟩ :=
        Target.exists_registers simple hpath hdeclaration
      obtain ⟨fragments, hall, hcalls⟩ :=
        ih fun other hother => paths other (List.mem_cons_of_mem _ hother)
      refine ⟨fragment :: fragments, .cons hregisters hall, fun other hother => ?_⟩
      rcases List.mem_cons.1 hother with rfl | hother
      · exact hcall
      · exact hcalls other hother
  obtain ⟨fragments, hregisters, hcalls⟩ := hall
  exact ⟨fragments, Generator.fragments_eq_of_ok (hregisters.imp fun _ _ h => h.1), hregisters,
    hcalls⟩

theorem Target.holds_unit {target : Target} (simple : target.runtime.IsSimple) (role : Role)
    {declarations : List Declaration} {fragments : List Fragment}
    (registers : List.Forall₂ target.Registers declarations fragments)
    (calls : ∀ fragment ∈ fragments, fragment.IsCall) :
    target.Holds role declarations (target.unit role fragments) where
  name := rfl
  content := by
    refine ⟨fragments, fragments.map Fragment.line, registers, lexedAs_unit simple role calls,
      splitAt_unit simple role calls, ?_⟩
    rw [List.forall₂_map_right_iff, List.forall₂_same]
    intro fragment hfragment
    have hline : Lexes fragment.line [] _ := lexes_line (calls fragment hfragment) rfl
    refine Lexes.lexedAs (by rwa [String.toList_ofList]) ?_
    rw [String.toList_ofList]
    exact fun h => absurd (Option.some.inj h) (by decide)

theorem Target.unit?_of_registers {target : Target} (role : Role) {declarations : List Declaration}
    {fragments : List Fragment}
    (registers : List.Forall₂ target.Registers declarations fragments) :
    target.unit? role fragments =
      if declarations.isEmpty then none else some (target.unit role fragments) := by
  cases registers <;> rfl

namespace Generator

/-- The files for what is accepted are the units of the roles in use and the index of them. -/
theorem assemble_eq {generator : Generator} {accepted : Accepted}
    (runtime : generator.target.runtime.IsSimple)
    (paths : ∀ declaration ∈ accepted.providers ++ accepted.gateway.toList,
      ∃ path, path.IsSimple ∧ declaration.path = shownPath path) :
    ∃ defining intercepting : Artifact,
      generator.target.Holds .provider accepted.providers defining ∧
      generator.target.Holds .gateway accepted.gateway.toList intercepting ∧
      generator.assemble accepted =
        let providers := if accepted.providers.isEmpty then none else some defining
        let interceptor := accepted.gateway.map fun _ => intercepting
        .ok (providers.toList ++ interceptor.toList ++
          [generator.target.index providers interceptor]) := by
  have hproviders := fun declaration h => paths declaration (List.mem_append_left _ h)
  have hgateway := fun declaration h => paths declaration (List.mem_append_right _ h)
  obtain ⟨defining, hdefining, hdefines, hdefined⟩ := fragments_eq runtime hproviders
  obtain ⟨intercepting, hintercepting, hintercepts, hintercepted⟩ := fragments_eq runtime hgateway
  -- With one gateway at most, nothing is refused.
  have hone : ¬intercepting.length > 1 := by
    rw [← hintercepts.length_eq]
    cases accepted.gateway <;> simp
  have hinterceptor : (if accepted.gateway.toList.isEmpty then none
      else some (generator.target.unit .gateway intercepting)) =
      accepted.gateway.map fun _ => generator.target.unit .gateway intercepting := by
    cases accepted.gateway <;> rfl
  refine ⟨_, _, Target.holds_unit runtime .provider hdefines hdefined,
    Target.holds_unit runtime .gateway hintercepts hintercepted, ?_⟩
  have hemit : generator.target.emit defining intercepting = .ok _ := if_neg hone
  rw [Target.unit?_of_registers .provider hdefines, Target.unit?_of_registers .gateway hintercepts,
    hinterceptor] at hemit
  show (if ((fragments generator.target.runtime accepted.providers).2 ++
    (fragments generator.target.runtime accepted.gateway.toList).2).isEmpty then
      (generator.target.emit (fragments generator.target.runtime accepted.providers).1
        (fragments generator.target.runtime accepted.gateway.toList).1).mapError _ else _) = _
  rw [hdefining, hintercepting, hemit]
  rfl

/-- Decoding the generated files recovers what was accepted. For each role that something is
accepted for there is one unit, the one of the providers first; it holds the statements of the
declarations. The index includes exactly these files and names exactly their functions. -/
theorem assemble_faithful {generator : Generator} {accepted : Accepted}
    (runtime : generator.runtime.IsSimple)
    (names : [generator.config.output.providers, generator.config.output.interceptor,
      generator.config.output.bindings].Nodup)
    (paths : ∀ declaration ∈ accepted.providers ++ accepted.gateway.toList,
      ∃ path, path.IsSimple ∧ declaration.path = shownPath path) :
    ∃ units index providers interceptor,
      generator.assemble accepted = .ok (units ++ [index]) ∧
      ((units ++ [index]).map (·.name)).Nodup ∧
      List.Forall₂ (fun used unit => generator.target.Holds used.1 used.2 unit) accepted.inUse
        units ∧
      index.name = generator.config.output.bindings ∧
      units = providers.toList ++ interceptor.toList ∧
      LexedAs index.contents (generator.target.indexFileTokens providers interceptor) ∧
      Index.ofTokens? (shownPath generator.runtime)
          (generator.target.indexFileTokens providers interceptor) =
        some ⟨units.map ("/" ++ ·.name),
          if accepted.providers.isEmpty then none else some Role.provider.entryPoint,
          accepted.gateway.map fun _ => Role.gateway.entryPoint⟩ := by
  have hruntime : generator.target.runtime.IsSimple := runtime
  obtain ⟨defining, intercepting, hdefining, hintercepting, hassemble⟩ := assemble_eq hruntime paths
  refine ⟨_, _, if accepted.providers.isEmpty then none else some defining,
    accepted.gateway.map fun _ => intercepting, hassemble, ?_, ?_, rfl, rfl,
    Target.lexedAs_index runtime _ _, ?_⟩
  · refine names.sublist ?_
    have hfirst := hdefining.name
    have hsecond := hintercepting.name
    cases accepted.providers <;> cases accepted.gateway <;>
      simp_all [Target.index, Output.unitName, target]
  · unfold Accepted.inUse
    cases hproviders : accepted.providers <;> cases hgateway : accepted.gateway <;>
      simp_all
  · have hindex := Index.ofTokens?_indexTokens generator.target runtime
      (if accepted.providers.isEmpty then none else some defining)
      (accepted.gateway.map fun _ => intercepting)
    have hsame : generator.target.runtime = generator.runtime := rfl
    rw [hsame] at hindex
    rw [Target.indexFileTokens, Index.ofTokens?_inclusions, hindex, Option.map_map]
    cases accepted.providers <;> cases accepted.gateway <;> rfl

/-- Two providers with keys that a literal cannot hold as they are. -/
def sampleAccepted : Accepted where
  providers := [
    ⟨"crate::net::Ping", none, .type ⟨.public, ["Delegate"], some .unit⟩,
      ⟨.provider "\x000\"\n\\", none⟩, ⟨"src/net.rs", 3⟩⟩,
    ⟨"crate::r#try", none, .function ⟨.public, false, [], none⟩, ⟨.provider "e\u0301", none⟩,
      ⟨"src/lib.rs", 1⟩⟩]
  gateway := none

/-- Both keys and both paths are read back, each from a line of its own. -/
theorem sample_faithful :
    ∃ unit index, sample.assemble sampleAccepted = .ok [unit, index] ∧
      sample.target.Holds .provider sampleAccepted.providers unit ∧
      ∃ tokens, LexedAs index.contents tokens ∧
        Index.ofTokens? "::tether_registry" tokens =
          some ⟨["/tether_providers.rs"], some "register_providers", none⟩ := by
  have runtime : sample.runtime.IsSimple :=
    ⟨true, "tether_registry", [], rfl, by unfold Source.Grammar.IsPathName; decide +kernel⟩
  have paths : ∀ declaration ∈ sampleAccepted.providers ++ sampleAccepted.gateway.toList,
      ∃ path, path.IsSimple ∧ declaration.path = shownPath path := by
    simp only [sampleAccepted, Option.toList_none, List.append_nil, List.forall_mem_cons]
    refine ⟨
      ⟨.ofNames false ["crate", "net", "Ping"], ⟨false, "crate", ["net", "Ping"], rfl, ?_⟩, ?_⟩,
      ⟨.ofNames false ["crate", "r#try"], ⟨false, "crate", ["r#try"], rfl, ?_⟩, ?_⟩,
      fun _ h => nomatch h⟩
    · unfold Source.Grammar.IsPathName
      decide +kernel
    · decide
    · unfold Source.Grammar.IsPathName
      decide +kernel
    · decide
  obtain ⟨units, index, providers, interceptor, hassemble, -, hunits, -, -, hlexed, hindex⟩ :=
    assemble_faithful runtime (by decide) paths
  cases hunits with
  | cons hunit hnone =>
    cases hnone
    have hname := hunit.name
    refine ⟨_, index, hassemble, hunit, _, hlexed, ?_⟩
    rw [show shownPath sample.runtime = "::tether_registry" by decide] at hindex
    rw [hindex, List.map_cons, hname]
    rfl

end Generator

end Bindery
