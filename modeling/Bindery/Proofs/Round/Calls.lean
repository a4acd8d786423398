import Bindery.Proofs.Round.Emission
import Bindery.Proofs.Round.Parameters
import Bindery.Proofs.Source.Type.Unit
import Bindery.Proofs.Survey.Signatures
/-!
# Calls of accepted functions

An accepted function is called by an adapter with the four parameters of a delegate. What the rules
look at is that a function can be seen and takes no `self`, and the types in its signature: so a
function is accepted just when its signature fits the settings (`accept_functions`). A call of it is
a direct one if the function is plain. But the rules do not look at whether a function is
asynchronous, unsafe or variadic, and accept it all the same (`qualified_accepted`).
-/

namespace Bindery

open Source (Path Signature Ty operator readPath readType separated word)

/-! ## Signatures -/

/-- A parameter has the type that is set for it, but for qualifications, lifetimes and parentheses
that erasure drops. -/
def Source.Ty.Matches (type : Ty) (param : String × String) : Prop :=
  ∃ reference, readType param.2 = .ok reference ∧ type.canonical = reference.canonical

namespace Source.Signature

/-- A function can be seen from everywhere, needs no instance, takes the parameters that are set and
returns nothing. -/
structure Fits (config : Config) (visibility : Visibility) (signature : Signature) : Prop where
  visible : visibility = .public
  noReceiver : signature.receiver = false
  params : List.Forall₂ Ty.Matches signature.params config.params.named
  output : ∀ type ∈ signature.output, type.isUnit = true

/-- Whether a function has no qualifier that makes its calls other than they look. -/
def isPlain (signature : Signature) : Bool :=
  !signature.isAsync && !signature.isUnsafe && !signature.isVariadic

/-- A call with the parameters that are set is a safe one that runs the function to its end, with
nothing to return and no further arguments. -/
structure IsDirect (config : Config) (visibility : Visibility) (signature : Signature) : Prop
    extends signature.Fits config visibility where
  isSync : signature.isAsync = false
  isSafe : signature.isUnsafe = false
  isFixed : signature.isVariadic = false

theorem Fits.isDirect_iff {config : Config} {visibility : Visibility} {signature : Signature}
    (h : signature.Fits config visibility) :
    signature.IsDirect config visibility ↔ signature.isPlain = true := by
  simp only [isPlain, Bool.and_eq_true, Bool.not_eq_true']
  constructor
  · exact fun direct => ⟨⟨direct.isSync, direct.isSafe⟩, direct.isFixed⟩
  · rintro ⟨⟨sync, safe⟩, fixed⟩
    exact ⟨h, sync, safe, fixed⟩

end Source.Signature

/-! ## The rules -/

namespace ShapeRules

variable {config : Config} {rules : ShapeRules}

/-- The rules for parameters hold just when all types are those that are set. -/
theorem params_iff (h : ofConfig config = .ok rules) (types : List Ty) :
    (types.map Ty.canonical = rules.params.map (·.2)) ↔
      List.Forall₂ Ty.Matches types config.params.named := by
  -- The types are gone through along with the settings and the rules that were made of them.
  obtain ⟨-, hrules⟩ := ofConfig_ok_iff.1 h
  generalize config.params.named = params at hrules
  generalize rules.params = expected at hrules
  induction hrules generalizing types with
  | nil => simp
  | @cons param rule params expected hrule _ ih =>
    obtain ⟨-, reference, hreference, hcanonical⟩ := hrule
    have hmatches : ∀ type : Ty, type.canonical = rule.2 ↔ type.Matches param := by
      intro type
      rw [hcanonical]
      constructor
      · exact fun htype => ⟨reference, hreference, htype⟩
      · rintro ⟨other, hother, htype⟩
        obtain rfl := Except.ok.inj (hreference.symm.trans hother)
        exact htype
    cases types with
    | nil => simp
    | cons type rest => simp [hmatches, ih]

/-- What the rules for functions ask, taken together. -/
theorem satisfies_function_iff {declaration : Declaration} {shape : FunctionShape}
    (hshape : declaration.shape = .function shape) :
    rules.Satisfies declaration ↔ shape.visibility = .public ∧ shape.receiver = false ∧
      shape.params = rules.params.map (·.2) ∧ shape.output = none := by
  have hparams : (shape.params.length = rules.params.length ∧
      ∀ index < shape.params.length, index < rules.params.length →
        rules.Matches shape.params index) ↔ shape.params = rules.params.map (·.2) := by
    constructor
    · rintro ⟨hlength, hmatches⟩
      refine List.ext_getElem? fun index => ?_
      rw [List.getElem?_map]
      by_cases hindex : index < shape.params.length
      · exact hmatches index hindex (hlength ▸ hindex)
      · rw [List.getElem?_eq_none (Nat.le_of_not_lt hindex),
          List.getElem?_eq_none (hlength ▸ Nat.le_of_not_lt hindex), Option.map_none]
    · intro hequal
      rw [hequal]
      exact ⟨List.length_map _, fun index _ _ => List.getElem?_map⟩
  unfold Satisfies
  rw [hshape, ← hparams]
  simp [Rule.order, Holds, and_assoc]

/-- No return type is left of a signature just when it is the unit type, or none is written. -/
theorem output_eq_none_iff (visibility : Visibility) {signature : Signature}
    (hnamed : signature.All Ty.IsNamed) :
    (FunctionShape.ofSignature visibility signature).output = none ↔
      ∀ type ∈ signature.output, type.isUnit = true := by
  show (signature.output.map Ty.canonical).filter (· != "()") = none ↔ _
  cases houtput : signature.output with
  | none => simp
  | some type =>
    have hunit := Source.canonical_eq_unit_iff (hnamed.output type houtput)
    simp [← hunit]

/-- A function satisfies the rules just when its signature fits the settings. -/
theorem satisfies_iff_fits (h : ofConfig config = .ok rules) {declaration : Declaration}
    {visibility : Visibility} {signature : Signature} (hnamed : signature.All Ty.IsNamed)
    (hshape : declaration.shape = .function (.ofSignature visibility signature)) :
    rules.Satisfies declaration ↔ signature.Fits config visibility := by
  have hparams := params_iff h signature.params
  have houtput := output_eq_none_iff visibility hnamed
  rw [satisfies_function_iff hshape, houtput]
  constructor
  · rintro ⟨visible, noReceiver, params, output⟩
    exact ⟨visible, noReceiver, hparams.1 params, output⟩
  · rintro ⟨visible, noReceiver, params, output⟩
    exact ⟨visible, noReceiver, hparams.2 params, output⟩

end ShapeRules

/-! ## What is accepted -/

/-- A declaration is that of the entry which a visit leaves. -/
def Manifest.MadeAt (manifest : Manifest) (visit : Visit) (declaration : Declaration) : Prop :=
  ∃ entry ∈ manifest.entries, visit.recorded? = some entry ∧
    manifest.declare entry declaration.carrier = .ok declaration

/-- What is declared as a function is the entry of one. -/
theorem category_of_declare {manifest : Manifest} {entry : Entry} {carrier : Carrier}
    {declaration : Declaration} (h : manifest.declare entry carrier = .ok declaration)
    {shape : FunctionShape} (hshape : declaration.shape = .function shape) :
    entry.category = .function shape := by
  unfold Manifest.declare at h
  split at h
  · next found hfound =>
    obtain rfl := Except.ok.inj h
    obtain rfl : found = .function shape := hshape
    unfold Manifest.shape? at hfound
    split at hfound
    · next hcategory =>
      obtain rfl := Shape.function.inj (Option.some.inj hfound)
      exact hcategory
    · obtain ⟨_, -, htype⟩ := Option.map_eq_some_iff.1 hfound
      cases htype
  · cases h

/-- A declared function was met in the sources. -/
theorem exists_visit {sources : List SourceText} {manifest : Manifest}
    (hscan : Manifest.ofSources sources = .ok manifest) {role : Role} {origin : Origin}
    {declaration : Declaration} (h : manifest.DeclaredFrom role origin declaration)
    {shape : FunctionShape} (hshape : declaration.shape = .function shape) :
    ∃ visit ∈ Survey.visits sources, ∃ visibility signature,
      manifest.MadeAt visit declaration ∧ visit.function? = some (visibility, signature) ∧
      shape = .ofSignature visibility signature := by
  obtain ⟨entry, carrier, ⟨_, _, -, -, hentry, -⟩, -, hdeclare⟩ := h
  have hmem := List.mem_of_getElem? hentry
  obtain ⟨visit, hvisit, hrecorded⟩ := Survey.exists_visit_of_entry hscan hmem
  obtain ⟨sighting, hsighting, rfl⟩ := Visit.exists_of_recorded? hrecorded
  have hcategory : sighting.category = .function shape := category_of_declare hdeclare hshape
  obtain ⟨visibility, signature, hfunction, rfl⟩ := Visit.exists_function hsighting hcategory
  rw [← (parts_of_declare hdeclare).1] at hdeclare
  exact ⟨visit, hvisit, visibility, signature,
    ⟨_, hmem, hrecorded, hdeclare⟩, hfunction, rfl⟩

/-- A fragment is the statement that registers an adapter under the mark of a declaration. The
adapter takes parameters of some names, and calls the function at the path with all of them. -/
def Declaration.Adapts (declaration : Declaration) (runtime : Path) (names : List String)
    (fragment : Fragment) : Prop :=
  ∃ path, readPath declaration.path = .ok path ∧
    fragment.tokens = declaration.carrier.mark.tokens
      (runtime.tokens ++ absoluteName ["FnDelegate", "new"] ++
        callTokens [operator "|" ++ separated (operator ",") false (names.map word) ++
          operator "|" ++ (path.tokens ++ callTokens (names.map word))])

theorem adapts_of_fragment {declaration : Declaration} {runtime : Path} {fragment : Fragment}
    (h : declaration.fragment runtime = .ok fragment) {shape : FunctionShape}
    (hshape : declaration.shape = .function shape) (params : Params) :
    declaration.Adapts runtime (params.named.map (·.1)) fragment := by
  obtain ⟨path, hpath, rfl⟩ := fragment_ok h
  refine ⟨path, hpath, ?_⟩
  rw [hshape]
  simp [Making.ofShape, Making.tokens, parameterNames, Params.named]

namespace Generator

/-- A function that is discovered was met in the sources, and it is accepted just when the signature
that it has there fits the settings: it can be seen from everywhere, needs no instance, takes the
parameters that are set and returns the unit type or nothing. The statement that it is written as
calls it with these parameters. That call is a direct one just when the function is neither
asynchronous, unsafe nor variadic, at which the rules do not look. -/
theorem accept_functions {sources : List SourceText} {manifest : Manifest} {config : Config}
    {generator : Generator} {report report' : Report} {accepted : Accepted}
    (hscan : Manifest.ofSources sources = .ok manifest) (hconfig : ofConfig config = .ok generator)
    (haccept : generator.accept manifest report = (report', .ok accepted)) :
    ∃ providers gateways,
      (manifest.discover .provider report).2 = .ok providers ∧
      (manifest.discover .gateway report).2 = .ok gateways ∧
      (∀ declaration ∈ accepted.providers ++ accepted.gateway.toList,
        declaration ∈ providers ++ gateways) ∧
      ∀ declaration ∈ providers ++ gateways, ∀ shape, declaration.shape = .function shape →
        ∃ visit ∈ Survey.visits sources, ∃ visibility signature,
          manifest.MadeAt visit declaration ∧ visit.function? = some (visibility, signature) ∧
          (declaration ∈ accepted.providers ++ accepted.gateway.toList ↔
            signature.Fits config visibility) ∧
          (signature.Fits config visibility →
            (signature.IsDirect config visibility ↔ signature.isPlain = true)) ∧
          ∀ fragment, declaration.fragment generator.runtime = .ok fragment →
            declaration.Adapts generator.runtime (config.params.named.map (·.1)) fragment := by
  obtain ⟨providers, gateways, -, hproviders, hgateways, -, haccepted, hgateway, -⟩ :=
    accept_ok haccept
  have hkept : accepted.providers ++ accepted.gateway.toList =
      (providers ++ gateways).filter (generator.rules.Satisfies ·) := by
    rw [haccepted, hgateway, List.filter_append]
  refine ⟨providers, gateways, hproviders, hgateways, fun declaration hmem => ?_, ?_⟩
  · rw [hkept] at hmem
    exact List.mem_of_mem_filter hmem
  · intro declaration hmem shape hshape
    -- What is discovered comes from the manifest, and what is in there was met in the sources.
    obtain ⟨role, origin, horigin⟩ :
        ∃ role origin, manifest.DeclaredFrom role origin declaration := by
      rcases List.mem_append.1 hmem with hmem | hmem
      · obtain ⟨_, -, horigins, -⟩ := Manifest.discover_origins (Prod.ext rfl hproviders)
        obtain ⟨origin, -, horigin⟩ := Manifest.exists_origin horigins hmem
        exact ⟨_, origin, horigin⟩
      · obtain ⟨_, -, horigins, -⟩ := Manifest.discover_origins (Prod.ext rfl hgateways)
        obtain ⟨origin, -, horigin⟩ := Manifest.exists_origin horigins hmem
        exact ⟨_, origin, horigin⟩
    obtain ⟨visit, hvisit, visibility, signature, hmade, hfunction, rfl⟩ :=
      exists_visit hscan horigin hshape
    have hnamed := Visit.all_of_function? (Survey.all_of_mem_visits hvisit).2 hfunction
    have hfits := ShapeRules.satisfies_iff_fits (rules_of_ofConfig hconfig) hnamed hshape
    refine ⟨visit, hvisit, visibility, signature, hmade, hfunction, ?_,
      fun h => h.isDirect_iff, fun fragment h => adapts_of_fragment h hshape config.params⟩
    rw [hkept, List.mem_filter, decide_eq_true_iff, hfits]
    exact and_iff_right hmem

/-! ## A sample -/

/-- A source with a function that is a provider. Its qualifiers stand before `fn`, and what is added
to its parameters behind them. -/
def providerSource (qualifiers added : String) : SourceText :=
  ⟨"lib.rs", "crate", "#[provider(\"k\")] pub " ++ qualifiers ++
    "fn f(c: Option<&Context>, m: &str, a: Option<&Value>, h: Option<&Handler>" ++ added ++
    ") \x7b\x7d"⟩

/-- Whether a function is all that is accepted from a source by default. -/
def acceptsFunction (source : SourceText) : Bool :=
  (Manifest.ofSources [source]).toOption.any fun manifest =>
    (ofConfig Config.default).toOption.any fun generator =>
      (generator.accept manifest .empty).2.toOption.any fun accepted =>
        match accepted.providers ++ accepted.gateway.toList with
        | [⟨_, _, .function _, _, _⟩] => true
        | _ => false

/-- Whether the functions that are met in a source are plain. -/
def plainFunctions (source : SourceText) : List Bool :=
  (Survey.visits [source]).filterMap fun visit => visit.function?.map (·.2.isPlain)

/-- A plain function is accepted, and its call is a direct one. -/
theorem plain_function_direct :
    ∃ manifest generator report accepted declaration visit visibility signature,
      Manifest.ofSources [providerSource "" ""] = .ok manifest ∧
      ofConfig Config.default = .ok generator ∧
      generator.accept manifest .empty = (report, .ok accepted) ∧
      declaration ∈ accepted.providers ++ accepted.gateway.toList ∧
      manifest.MadeAt visit declaration ∧ visit.function? = some (visibility, signature) ∧
      signature.IsDirect Config.default visibility := by
  have haccepts : acceptsFunction (providerSource "" "") = true := by decide +kernel
  have hplain : plainFunctions (providerSource "" "") = [true] := by decide +kernel
  unfold acceptsFunction at haccepts
  cases hscan : Manifest.ofSources [providerSource "" ""] with
  | error => rw [hscan] at haccepts; cases haccepts
  | ok manifest =>
    cases hconfig : ofConfig Config.default with
    | error => rw [hscan, hconfig] at haccepts; cases haccepts
    | ok generator =>
      rw [hscan, hconfig] at haccepts
      simp only [Except.toOption, Option.any_some] at haccepts
      rcases haccept : generator.accept manifest .empty with ⟨report, _ | accepted⟩
      · rw [haccept] at haccepts
        cases haccepts
      · rw [haccept] at haccepts
        simp only [Option.any_some] at haccepts
        split at haccepts
        · next path scope shape carrier location hone =>
          obtain ⟨providers, gateways, -, -, hdiscovered, hfunctions⟩ :=
            accept_functions hscan hconfig haccept
          have hmem : (⟨path, scope, .function shape, carrier, location⟩ : Declaration) ∈
              accepted.providers ++ accepted.gateway.toList := by
            rw [hone]
            exact List.mem_singleton_self _
          obtain ⟨visit, hvisit, visibility, signature, hmade, hfunction, hfits, hdirect, -⟩ :=
            hfunctions _ (hdiscovered _ hmem) shape rfl
          have hmet : signature.isPlain ∈ plainFunctions (providerSource "" "") :=
            List.mem_filterMap.2 ⟨visit, hvisit, by rw [hfunction]; rfl⟩
          rw [hplain, List.mem_singleton] at hmet
          exact ⟨manifest, generator, report, accepted, _, visit, visibility, signature, rfl, rfl,
            haccept, hmem, hmade, hfunction, (hdirect (hfits.1 hmem)).2 hmet⟩
        · cases haccepts

/-- The sources of a function that is asynchronous, of an unsafe and of a variadic one. -/
def qualifiedSources : List SourceText :=
  [providerSource "async " "", providerSource "unsafe " "",
    providerSource "unsafe extern \"C\" " ", ..."]

/-- A function that is asynchronous, unsafe or variadic is accepted as well. -/
theorem qualified_accepted :
    qualifiedSources.map acceptsFunction = [true, true, true] ∧
      qualifiedSources.map plainFunctions = [[false], [false], [false]] := by
  have hasync : acceptsFunction (providerSource "async " "") = true ∧
      plainFunctions (providerSource "async " "") = [false] := by
    decide +kernel
  have hunsafe : acceptsFunction (providerSource "unsafe " "") = true ∧
      plainFunctions (providerSource "unsafe " "") = [false] := by
    decide +kernel
  have hvariadic : acceptsFunction (providerSource "unsafe extern \"C\" " ", ...") = true ∧
      plainFunctions (providerSource "unsafe extern \"C\" " ", ...") = [false] := by
    decide +kernel
  simp only [qualifiedSources, List.map_cons, List.map_nil, hasync, hunsafe, hvariadic, and_self]

end Generator

end Bindery
