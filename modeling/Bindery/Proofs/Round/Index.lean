import Bindery.Proofs.Round.Faithful
/-!
# What generated texts say

The text of an index is read by its lines, which include files, and by the record at its end, which
names functions; the text of a unit by its head. Neither reading looks at the path of the runtime,
so what is written is read back whatever that path is (`Index.ofText?_index`,
`Target.definedIn?_unit`).
-/

namespace Bindery

open Source (operator word)
open Token Text

/-! ## Parts of a text in the spaced form -/

theorem Token.spacedList_append (first second : List (TokenTree Token)) (glued : Bool) :
    ∃ glued', spacedList glued (first ++ second) =
      spacedList glued first ++ spacedList glued' second := by
  induction first generalizing glued with
  | nil => exact ⟨glued, rfl⟩
  | cons tree rest ih =>
    obtain ⟨glued', hrest⟩ := ih tree.isJoint
    refine ⟨glued', ?_⟩
    rw [List.cons_append, spacedList, spacedList, hrest,
      List.append_assoc _ _ (spacedList _ second)]

/-! ## The index -/

namespace Index

/-- The file that a line of an index includes. -/
def ofLine? (line : List Char) : Option String := do
  match (← Token.lex? (String.ofList line)).tokens with
  | [.leaf (.ident "include"), .leaf (.punct '!' false), .group .paren argument,
      .leaf (.punct ';' false)] => file? argument
  | _ => none

/-- The files that an index includes, one on each line between the first two blank ones. -/
def includedIn? (text : String) : Option (List String) :=
  (((splitAt '\n' text.toList).drop 2).takeWhile (!·.isEmpty)).mapM ofLine?

/-- The functions that an index says exist, in the record that it ends with. -/
def namedIn? (text : String) : Option (Option String × Option String) := do
  let record := (text.toList.reverse.takeWhile (· ≠ '\x7b')).reverse
  match (← Token.lex? (String.ofList ('\x7b' :: record))).tokens with
  | [.group .brace fields, .leaf (.punct ';' false)] => slots? fields
  | _ => none

/-- What the text of an index says. -/
def ofText? (text : String) : Option Index := do
  let (providers, interceptor) ← namedIn? text
  return ⟨← includedIn? text, providers, interceptor⟩

/-- The line of a unit without its end. -/
def line (unit : Artifact) : List Char :=
  spacedList true (Target.inclusion unit)

theorem ofLine?_line (unit : Artifact) : ofLine? (line unit) = some ("/" ++ unit.name) := by
  have hlexes : Lexes (line unit) [] (Target.inclusion unit) :=
    lexes_spacedList _ [] (Target.legible_inclusion unit) (by
      intro last hlast
      obtain rfl := Option.some.inj hlast
      rfl) true
  have hlexed : LexedAs (String.ofList (line unit)) (Target.inclusion unit) := by
    refine Lexes.lexedAs (by rwa [String.toList_ofList]) ?_
    rw [String.toList_ofList]
    exact fun h => absurd (Option.some.inj h) (by decide)
  obtain ⟨trees, htrees, htokens⟩ := Option.map_eq_some_iff.1 hlexed
  have hinclusion : Target.inclusion unit =
      [.leaf (.ident "include"), .leaf (.punct '!' false), .group .paren (argument unit),
        .leaf (.punct ';' false)] := rfl
  rw [ofLine?, htrees, Option.bind_eq_bind, Option.bind_some, htokens, hinclusion]
  exact file?_argument unit

theorem line_isEmpty (unit : Artifact) : (line unit).isEmpty = false := rfl

theorem lineEnd_not_mem_line (unit : Artifact) : '\n' ∉ line unit :=
  lineEnd_not_mem_spacedList _ (Target.legible_inclusion unit) true

theorem toList_inclusionLine (unit : Option Artifact) :
    (Target.inclusionLine unit).toList = unit.toList.flatMap (line · ++ ['\n']) := by
  cases unit with
  | none => rfl
  | some unit => simp [Target.inclusionLine, spaced, line]

theorem splitAt_lines (units : List Artifact) (rest : List Char) :
    splitAt '\n' (units.flatMap (line · ++ ['\n']) ++ rest) =
      units.map line ++ splitAt '\n' rest := by
  induction units with
  | nil => rfl
  | cons unit units ih =>
    rw [List.flatMap_cons, List.append_assoc, List.append_assoc, List.singleton_append,
      splitAt_append (lineEnd_not_mem_line unit), ih]
    rfl

/-- The files of the units are read from the lines of the index. -/
theorem includedIn?_index (target : Target) (providers interceptor : Option Artifact) :
    includedIn? (target.index providers interceptor).contents =
      some ((providers.toList ++ interceptor.toList).map ("/" ++ ·.name)) := by
  generalize hunits : providers.toList ++ interceptor.toList = units
  have htext : (target.index providers interceptor).contents.toList =
      Artifact.header.toList ++ '\n' :: ([] ++ '\n' :: (units.flatMap (line · ++ ['\n']) ++
        ([] ++ '\n' :: (spaced (target.indexTokens providers interceptor) ++ "\n").toList))) := by
    rw [← hunits, List.flatMap_append]
    simp only [Target.index, String.toList_append, toList_inclusionLine]
    simp
  have hlines : (units.map line).takeWhile (!·.isEmpty) = units.map line := by
    rw [List.takeWhile_eq_self_iff]
    intro found hfound
    obtain ⟨unit, -, rfl⟩ := List.mem_map.1 hfound
    rw [line_isEmpty]
    rfl
  have hblank : ((units.map line) ++ [] :: splitAt '\n'
      (spaced (target.indexTokens providers interceptor) ++ "\n").toList).takeWhile
        (!·.isEmpty) = units.map line := by
    rw [List.takeWhile_append_of_pos (List.takeWhile_eq_self_iff.1 hlines)]
    simp
  have hread : ∀ units : List Artifact,
      (units.map line).mapM ofLine? = some (units.map ("/" ++ ·.name)) := by
    intro units
    induction units with
    | nil => rfl
    | cons unit units ih =>
      rw [List.map_cons, List.mapM_cons, ofLine?_line, ih]
      rfl
  rw [includedIn?, htext, splitAt_append (by decide), splitAt_append List.not_mem_nil,
    splitAt_lines, splitAt_append List.not_mem_nil, List.drop_succ_cons, List.drop_succ_cons,
    List.drop_zero, hblank, hread]

/-- The record at the end of an index. -/
def record (providers interceptor : Option Artifact) : Expression :=
  [.group .brace (word "providers" ++ operator ":" ++ Target.slot .provider providers ++
    operator "," ++ (word "interceptor" ++ operator ":" ++ Target.slot .gateway interceptor ++
      operator ","))] ++ operator ";"

/-- The record depends only on which units exist. -/
theorem record_cases (property : Expression → Prop) (providers interceptor : Option Artifact)
    (h : ∀ providers ∈ [none, some ⟨"", ""⟩], ∀ interceptor ∈ [none, some ⟨"", ""⟩],
      property (record providers interceptor)) :
    property (record providers interceptor) := by
  cases providers with
  | none =>
    cases interceptor with
    | none => exact h none (by simp) none (by simp)
    | some => exact h none (by simp) (some ⟨"", ""⟩) (by simp)
  | some =>
    cases interceptor with
    | none => exact h (some ⟨"", ""⟩) (by simp) none (by simp)
    | some => exact h (some ⟨"", ""⟩) (by simp) (some ⟨"", ""⟩) (by simp)

/-- The record is written with one opening brace, at its beginning. -/
theorem spacedList_record (providers interceptor : Option Artifact) :
    ∃ fields, spacedList true (record providers interceptor) = '\x7b' :: fields ∧
      '\x7b' ∉ fields := by
  refine ⟨(spacedList true (record providers interceptor)).tail, rfl, ?_⟩
  exact record_cases (fun record => '\x7b' ∉ (spacedList true record).tail)
    providers interceptor (by decide +kernel)

theorem legible_record (providers interceptor : Option Artifact) :
    LegibleList (record providers interceptor) :=
  legible_of_isPlain (record_cases (fun record => isPlain record = true)
    providers interceptor (by decide +kernel))

/-- The functions of the units are read from the record of the index. -/
theorem namedIn?_index (target : Target) (providers interceptor : Option Artifact) :
    namedIn? (target.index providers interceptor).contents =
      some (providers.map fun _ => Role.provider.entryPoint,
        interceptor.map fun _ => Role.gateway.entryPoint) := by
  obtain ⟨fields, hfields, hbrace⟩ := spacedList_record providers interceptor
  -- Whatever is written before the record, its brace is the last one.
  obtain ⟨front, hfront⟩ : ∃ front, (target.index providers interceptor).contents.toList =
      front ++ '\x7b' :: (fields ++ ['\n']) := by
    have htokens : ∃ front : Expression, target.indexTokens providers interceptor =
        front ++ record providers interceptor := by
      refine ⟨word "pub" ++ word "static" ++ word "TETHER_BINDINGS" ++ operator ":" ++
        (target.runtime.tokens ++ absoluteName ["Bindings"]) ++ operator "=" ++
        (target.runtime.tokens ++ absoluteName ["Bindings"]), ?_⟩
      simp only [Target.indexTokens, record, List.append_assoc]
    obtain ⟨before, hbefore⟩ := htokens
    obtain ⟨glued, hglued⟩ := spacedList_append before (record providers interceptor) true
    have hrecord : ∃ space, spacedList glued (record providers interceptor) =
        space ++ '\x7b' :: fields := by
      rw [← hfields]
      cases glued with
      | true => exact ⟨[], rfl⟩
      | false => exact ⟨[' '], rfl⟩
    obtain ⟨space, hspace⟩ := hrecord
    refine ⟨(Artifact.header ++ "\n\n" ++ Target.inclusionLine providers ++
      Target.inclusionLine interceptor ++ "\n").toList ++ spacedList true before ++ space, ?_⟩
    simp only [Target.index, hbefore, spaced, String.toList_append, String.toList_ofList, hglued,
      hspace]
    simp
  have hlast : ((target.index providers interceptor).contents.toList.reverse.takeWhile
      (· ≠ '\x7b')).reverse = fields ++ ['\n'] := by
    have hall : ∀ c ∈ (fields ++ ['\n']).reverse, decide (c ≠ '\x7b') = true := by
      intro c hc
      rw [List.mem_reverse] at hc
      rw [decide_eq_true_iff]
      rintro rfl
      rcases List.mem_append.1 hc with hc | hc
      · exact hbrace hc
      · exact absurd hc (by decide)
    rw [hfront, List.reverse_append, List.reverse_cons, List.append_assoc,
      List.takeWhile_append_of_pos hall, List.singleton_append,
      List.takeWhile_cons_of_neg (by simp), List.append_nil, List.reverse_reverse]
  have hlexed : LexedAs (String.ofList ('\x7b' :: (fields ++ ['\n'])))
      (record providers interceptor) := by
    have hblank : Skips ['\n'] := skips_blank (by decide)
    have hlexes := lexes_spacedList (record providers interceptor) ['\n']
      (legible_record providers interceptor) (by
        intro last hlast
        obtain rfl := Option.some.inj hlast
        exact endsBefore_cons (by decide) _ rfl) true
    have hend := Lexes.skip_end hlexes hblank
    rw [hfields] at hend
    refine Lexes.lexedAs (by rwa [String.toList_ofList]) ?_
    rw [String.toList_ofList]
    exact fun h => absurd (Option.some.inj h) (by decide)
  obtain ⟨trees, htrees, htokens⟩ := Option.map_eq_some_iff.1 hlexed
  rw [namedIn?, hlast, htrees, Option.bind_eq_bind, Option.bind_some, htokens]
  exact slots?_fields providers interceptor

/-- The text of an index says which units exist. -/
theorem ofText?_index (target : Target) (providers interceptor : Option Artifact) :
    ofText? (target.index providers interceptor).contents =
      some ⟨(providers.toList ++ interceptor.toList).map ("/" ++ ·.name),
        providers.map fun _ => Role.provider.entryPoint,
        interceptor.map fun _ => Role.gateway.entryPoint⟩ := by
  rw [ofText?, namedIn?_index]
  simp only [Option.bind_eq_bind, Option.bind_some, includedIn?_index]
  rfl

/-- The functions that an index names, each with the role of its unit. -/
def named (index : Index) : List (Role × String) :=
  (index.providers.map (Role.provider, ·)).toList ++
    (index.interceptor.map (Role.gateway, ·)).toList

end Index

/-! ## Units -/

namespace Target

/-- What stands before the name of the function of a unit. -/
def opening : List Char :=
  (Artifact.header ++ "\n\npub fn ").toList

/-- The function that the text of a unit defines. -/
def definedIn? (text : String) : Option String :=
  if opening.isPrefixOf text.toList then
    some (String.ofList ((text.toList.drop opening.length).takeWhile (· ≠ ' ')))
  else none

/-- The text of a unit begins with the name of its function. -/
theorem toList_unit_opening (target : Target) (role : Role) (fragments : List Fragment) :
    ∃ rest, (target.unit role fragments).contents.toList =
      opening ++ (role.entryPoint.toList ++ ' ' :: rest) := by
  obtain ⟨rest, hrest⟩ : ∃ rest, (spaced (target.signature role)).toList =
      "pub fn ".toList ++ (role.entryPoint.toList ++ ' ' :: rest) := by
    refine ⟨spacedList true ((target.signature role).drop 3), ?_⟩
    cases role <;> simp [spaced, signature, word, spacedList, spacedTree, Token.text,
      TokenTree.isJoint, Token.isJoint, Role.entryPoint]
  refine ⟨rest ++ (' ' :: '\x7b' :: ('\n' :: statementLines fragments ++ ['\x7d']) ++ ['\n']), ?_⟩
  rw [toList_unit, hrest, opening]
  simp

/-- The text of a unit says which function it defines. -/
theorem definedIn?_unit (target : Target) (role : Role) (fragments : List Fragment) :
    definedIn? (target.unit role fragments).contents = some role.entryPoint := by
  obtain ⟨rest, hrest⟩ := toList_unit_opening target role fragments
  have hname : ∀ c ∈ role.entryPoint.toList, decide (c ≠ ' ') = true :=
    List.all_eq_true.1 (by cases role <;> decide)
  have hprefix : opening.isPrefixOf (opening ++ (role.entryPoint.toList ++ ' ' :: rest)) = true :=
    List.isPrefixOf_iff_prefix.2 (List.prefix_append _ _)
  rw [definedIn?, hrest, if_pos hprefix, List.drop_left, List.takeWhile_append_of_pos hname,
    List.takeWhile_cons_of_neg (by simp), List.append_nil, String.ofList_toList]

/-- The index defines no function. -/
theorem definedIn?_index (target : Target) (providers interceptor : Option Artifact) :
    definedIn? (target.index providers interceptor).contents = none := by
  obtain ⟨rest, hrest, hhead⟩ : ∃ rest, (target.index providers interceptor).contents.toList =
      (Artifact.header ++ "\n\n").toList ++ rest ∧ rest.head? ≠ some 'p' := by
    refine ⟨(inclusionLine providers ++ inclusionLine interceptor ++ "\n" ++
      spaced (target.indexTokens providers interceptor) ++ "\n").toList, ?_, ?_⟩
    · simp only [index, String.toList_append, List.append_assoc]
    · simp only [String.toList_append, Index.toList_inclusionLine]
      have hline : ∀ unit, (Index.line unit).head? = some 'i' := fun _ => rfl
      cases providers with
      | some unit =>
        have hunit := hline unit
        cases hcs : Index.line unit <;> simp_all
      | none =>
        cases interceptor with
        | some unit =>
          have hunit := hline unit
          cases hcs : Index.line unit <;> simp_all
        | none => simp
  have hopening : opening = (Artifact.header ++ "\n\n").toList ++ "pub fn ".toList := by
    simp [opening]
  rw [definedIn?, if_neg]
  intro hprefix
  rw [List.isPrefixOf_iff_prefix, hrest, hopening, List.prefix_append_right_inj] at hprefix
  obtain ⟨more, hmore⟩ := hprefix
  exact hhead (by rw [← hmore]; rfl)

/-- The text of a complete unit of a role: that of statements of declarations, of which there is at
least one. -/
def IsUnit (target : Target) (role : Role) (text : String) : Prop :=
  ∃ declarations fragments, declarations ≠ [] ∧
    List.Forall₂
      (fun (declaration : Declaration) fragment =>
        declaration.fragment target.runtime = .ok fragment)
      declarations fragments ∧
    text = (target.unit role fragments).contents

theorem IsUnit.definedIn? {target : Target} {role : Role} {text : String}
    (h : target.IsUnit role text) : definedIn? text = some role.entryPoint := by
  obtain ⟨declarations, fragments, -, -, rfl⟩ := h
  exact definedIn?_unit target role fragments

/-- Every file that an index includes is that of a role and holds a complete unit of the role, which
defines the function that the index names. What the file of a name holds is found by `read`. -/
def Backs (target : Target) (read : String → Option String) (index : Index) : Prop :=
  List.Forall₂ (fun file named => file = "/" ++ target.output.unitName named.1 ∧
    ∃ text, read (target.output.unitName named.1) = some text ∧ target.IsUnit named.1 text ∧
      definedIn? text = some named.2) index.included index.named

/-- An index is backed as well where each unit that it may include is another complete one. -/
theorem Backs.imp {target : Target} {read other : String → Option String} {index : Index}
    (h : target.Backs read index)
    (himp : ∀ role text, read (target.output.unitName role) = some text →
      target.IsUnit role text →
      ∃ text', other (target.output.unitName role) = some text' ∧ target.IsUnit role text') :
    target.Backs other index := by
  refine List.Forall₂.imp ?_ h
  rintro file ⟨role, entry⟩ ⟨hfile, text, hread, hunit, hentry⟩
  obtain ⟨text', hother, hunit'⟩ := himp role text hread hunit
  refine ⟨hfile, text', hother, hunit', ?_⟩
  rw [hunit'.definedIn?, ← hunit.definedIn?, hentry]

/-- An artifact is the unit of a role. -/
structure MakesUnit (target : Target) (role : Role) (artifact : Artifact) : Prop where
  name : artifact.name = target.output.unitName role
  contents : target.IsUnit role artifact.contents

/-- The index of units is backed where their files hold them. -/
theorem backs_index {target : Target} {providers interceptor : Option Artifact}
    (defining : ∀ unit ∈ providers, target.MakesUnit .provider unit)
    (intercepting : ∀ unit ∈ interceptor, target.MakesUnit .gateway unit)
    {read : String → Option String}
    (holds : ∀ unit ∈ providers.toList ++ interceptor.toList, read unit.name = some unit.contents) :
    ∃ index, Index.ofText? (target.index providers interceptor).contents = some index ∧
      target.Backs read index := by
  refine ⟨_, Index.ofText?_index target providers interceptor, ?_⟩
  have hbacked : ∀ role unit, target.MakesUnit role unit → read unit.name = some unit.contents →
      "/" ++ unit.name = "/" ++ target.output.unitName role ∧
        ∃ text, read (target.output.unitName role) = some text ∧ target.IsUnit role text ∧
          definedIn? text = some role.entryPoint := by
    intro role unit hunit hread
    rw [← hunit.name]
    exact ⟨rfl, _, hread, hunit.contents, hunit.contents.definedIn?⟩
  unfold Backs Index.named
  cases providers with
  | none =>
    cases interceptor with
    | none => exact .nil
    | some gateway =>
      exact .cons (hbacked _ _ (intercepting _ rfl) (holds _ (by simp))) .nil
  | some provider =>
    have hprovider := hbacked _ _ (defining _ rfl) (holds provider (by simp))
    cases interceptor with
    | none => exact .cons hprovider .nil
    | some gateway =>
      exact .cons hprovider (.cons (hbacked _ _ (intercepting _ rfl) (holds _ (by simp))) .nil)

end Target

/-! ## What a round generates -/

/-- The artifacts of a round are the units that it makes and the index of them. -/
theorem Generator.artifacts_of_generate {generator : Generator} {manifest : Manifest}
    {report report' : Report} {artifacts : List Artifact}
    (h : generator.generate manifest report = (report', .ok artifacts)) :
    ∃ providers interceptor,
      artifacts = providers.toList ++ interceptor.toList ++
        [generator.target.index providers interceptor] ∧
      (∀ unit ∈ providers, generator.target.MakesUnit .provider unit) ∧
      ∀ unit ∈ interceptor, generator.target.MakesUnit .gateway unit := by
  obtain ⟨accepted, defining, intercepting, -, hdefining, hintercepting, hemit⟩ := generate_ok h
  have hmakes : ∀ role declarations fragments,
      List.Forall₂ (fun (declaration : Declaration) fragment =>
        declaration.fragment generator.runtime = .ok fragment) declarations fragments →
      ∀ unit ∈ generator.target.unit? role fragments, generator.target.MakesUnit role unit := by
    intro role declarations fragments hwritten unit hunit
    cases hwritten with
    | nil => cases hunit
    | cons hfirst hrest =>
      obtain rfl := Option.some.inj hunit
      exact ⟨rfl, _, _, List.cons_ne_nil _ _, .cons hfirst hrest, rfl⟩
  unfold Target.emit at hemit
  split at hemit
  · cases hemit
  · obtain rfl := Except.ok.inj hemit
    exact ⟨_, _, rfl, hmakes _ _ _ hdefining, hmakes _ _ _ hintercepting⟩

end Bindery
