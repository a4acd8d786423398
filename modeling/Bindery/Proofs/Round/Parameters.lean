import Bindery.Proofs.Round.Settings
import Bindery.Proofs.Round.Validation
import Bindery.Proofs.Source.Type.Edits
import Bindery.Proofs.Source.Type.Unambiguous
/-!
# Parameters and the types that are set for them

The types of a function are compared with those of the settings by their canonical forms. That
comparison is not too strict where types differ by edits that erasure takes back, and it is never
too lax: types whose outlines differ are told apart. Not all lifetimes and parentheses are erased;
`keptPairs` has types that differ in others.
-/

namespace Bindery

open Source (Ty Signature readType)

/-- Settings give the parameter at an index a name and a type. -/
def Config.Expects (config : Config) (index : Nat) (name : String) (type : Ty) : Prop :=
  ∃ text, config.params.named[index]? = some (name, text) ∧ readType text = .ok type

namespace ShapeRules

variable {config : Config} {rules : ShapeRules} {index : Nat} {name : String}

theorem exists_of_getElem? {α β : Type} {R : α → β → Prop} {xs : List α} {ys : List β}
    (h : List.Forall₂ R xs ys) {index : Nat} {y : β} (hy : ys[index]? = some y) :
    ∃ x, xs[index]? = some x ∧ R x y := by
  induction h generalizing index with
  | nil => cases hy
  | @cons x y' xs ys hfirst _ ih =>
    cases index with
    | zero =>
      obtain rfl := Option.some.inj hy
      exact ⟨x, rfl, hfirst⟩
    | succ index => exact ih hy

/-- The rule for a parameter holds the canonical form of its type. -/
theorem exists_expects (h : ofConfig config = .ok rules) {canonical : String}
    (hrule : rules.params[index]? = some (name, canonical)) :
    ∃ type, config.Expects index name type ∧ canonical = type.canonical := by
  obtain ⟨-, hrules⟩ := ofConfig_ok_iff.1 h
  obtain ⟨⟨name', text⟩, hparam, hname, type, htype, hcanonical⟩ := exists_of_getElem? hrules hrule
  obtain rfl : name = name' := hname
  exact ⟨type, ⟨text, hparam, htype⟩, hcanonical⟩

theorem rule_of_expects (h : ofConfig config = .ok rules) {type : Ty}
    (hexpects : config.Expects index name type) :
    rules.params[index]? = some (name, type.canonical) := by
  obtain ⟨-, hrules⟩ := ofConfig_ok_iff.1 h
  obtain ⟨text, hparam, htype⟩ := hexpects
  obtain ⟨⟨name', canonical⟩, hrule, hname, type', htype', hcanonical⟩ :=
    exists_of_getElem? hrules.flip hparam
  obtain rfl : name' = name := hname
  obtain rfl := Except.ok.inj (htype.symm.trans htype')
  rw [hrule, show canonical = type.canonical from hcanonical]

/-- The parameters of a function that passes have the types that are set for them, in canonical
form. -/
theorem canonical_of_check {declaration : Declaration} {visibility : Visibility}
    {signature : Signature} (h : ofConfig config = .ok rules)
    (hshape : declaration.shape = .function (.ofSignature visibility signature))
    {warnings : List String} (hcheck : rules.check declaration = .ok warnings) {type reference : Ty}
    (htype : signature.params[index]? = some type)
    (hexpects : config.Expects index name reference) : type.canonical = reference.canonical := by
  rcases rules.check_spec declaration with ⟨hsatisfies, -⟩ | ⟨violation, -, herror⟩
  · have hmatch := hsatisfies .parameterType (by simp [hshape, Rule.order])
    rw [hshape] at hmatch
    have hrule := rule_of_expects h hexpects
    have hfound : (signature.params.map Ty.canonical)[index]? = some type.canonical := by
      rw [List.getElem?_map, htype, Option.map_some]
    have hequal : (signature.params.map Ty.canonical)[index]? = rules.params[index]?.map (·.2) :=
      hmatch index (List.getElem?_eq_some_iff.1 hfound).1 (List.getElem?_eq_some_iff.1 hrule).1
    rw [hfound, hrule] at hequal
    exact Option.some.inj hequal
  · rw [hcheck] at herror
    cases herror

/-! ## A sample -/

/-- The types that texts are read as. -/
def typesOf (texts : List String) : List Ty :=
  texts.filterMap fun text => (readType text).toOption

/-- A function whose last parameter has the type that a text is read as. The types of the others
are those that are expected by default, but for a path, a lifetime and parentheses. -/
def sampleFunction (handler : String) : Signature where
  name := ⟨"serve", 1, by decide +kernel⟩
  isAsync := false
  isUnsafe := false
  isVariadic := false
  receiver := false
  params := typesOf ["Option<&'a (tether_registry::Context)>", "&str", "Option<&Value>", handler]
  output := none

/-- The declaration of a sample function. -/
def sampleDeclaration (handler : String) : Declaration where
  path := "crate::serve"
  scope := none
  shape := .function (.ofSignature .public (sampleFunction handler))
  carrier := ⟨.provider "serve", none⟩
  location := ⟨"src/lib.rs", 1⟩

/-- What the rules that settings give say about a declaration: the violation, if there is one. -/
def checked? (config : Config) (declaration : Declaration) : Option (Option Violation) :=
  (ofConfig config).toOption.map fun rules =>
    match rules.check declaration with
    | .ok _ => none
    | .error violation => some violation

theorem exists_of_checked? {config : Config} {declaration : Declaration} {result : Option Violation}
    (h : checked? config declaration = some result) :
    ∃ rules, ofConfig config = .ok rules ∧
      ((∃ warnings, result = none ∧ rules.check declaration = .ok warnings) ∨
        ∃ violation, result = some violation ∧ rules.check declaration = .error violation) := by
  unfold checked? at h
  rcases hrules : ofConfig config with error | rules <;> rw [hrules] at h
  · cases h
  · refine ⟨rules, rfl, ?_⟩
    obtain rfl := Option.some.inj h
    dsimp only
    cases rules.check declaration with
    | ok warnings => exact .inl ⟨warnings, rfl, rfl⟩
    | error violation => exact .inr ⟨violation, rfl, rfl⟩

/-! ## Types that are not told apart -/

/-- Types that edits of qualifications, lifetimes and parentheses lead from one to the other have
the same canonical form, so a parameter that is reported is not similar to the type that is set for
it. -/
theorem similar_never_mismatched {declaration : Declaration} {visibility : Visibility}
    {signature : Signature} (hrules : ofConfig config = .ok rules)
    (hshape : declaration.shape = .function (.ofSignature visibility signature)) :
    (∀ type type' : Ty, type.Similar type' → type.canonical = type'.canonical) ∧
      ∀ (path : String) (index : Nat) (name found expected : String),
        rules.check declaration = .error (.parameterType path index name found expected) →
        ∃ type reference, signature.params[index]? = some type ∧
          config.Expects index name reference ∧ ¬type.Similar reference := by
  refine ⟨fun _ _ h => h.canonical, fun path index name found expected hcheck => ?_⟩
  rcases rules.check_spec declaration with ⟨-, hpass⟩ | ⟨violation, hbreaks, herror⟩
  · rw [hcheck] at hpass
    cases hpass
  · obtain rfl := Except.error.inj (hcheck.symm.trans herror)
    obtain ⟨-, hrule, hne, shape, hshape', hfound, -⟩ := hbreaks.describes
    obtain rfl := Shape.function.inj (hshape.symm.trans hshape')
    change (signature.params.map Ty.canonical)[index]? = some found at hfound
    rw [List.getElem?_map, Option.map_eq_some_iff] at hfound
    obtain ⟨type, htype, rfl⟩ := hfound
    obtain ⟨reference, hexpects, rfl⟩ := exists_expects hrules hrule
    exact ⟨type, reference, htype, hexpects, fun hsimilar => hne hsimilar.canonical⟩

/-- A reference to a handler with a lifetime, parentheses and a whole path. -/
def writtenHandler : Ty :=
  .reference (some "a") false
    (.paren (.path none (.mk true [.mk "tether_registry" .none, .mk "Handler" .none])))

/-- The same reference without them. -/
def plainHandler : Ty :=
  .reference none false (.path none (.mk false [.mk "Handler" .none]))

theorem writtenHandler_similar : writtenHandler.Similar plainHandler := by
  have hparen : plainHandler.Edit
      (.reference none false (.paren (.path none (.mk false [.mk "Handler" .none])))) :=
    .reference none false (.paren _)
  have hpath : Source.Path.Edit (.mk false [.mk "Handler" .none])
      (.mk true [.mk "tether_registry" .none, .mk "Handler" .none]) :=
    .qualify false true [] [.mk "tether_registry" .none] (.mk "Handler" .none)
  have hqualify : Ty.Edit
      (.reference none false (.paren (.path none (.mk false [.mk "Handler" .none]))))
      (.reference none false
        (.paren (.path none (.mk true [.mk "tether_registry" .none, .mk "Handler" .none])))) :=
    .reference none false (.inner (.path (.plain hpath)))
  have hlifetime : Ty.Edit
      (.reference none false
        (.paren (.path none (.mk true [.mk "tether_registry" .none, .mk "Handler" .none]))))
      writtenHandler := .lifetime none (some "a") false _
  exact ((Relation.EqvGen.rel _ _ hparen).trans _ _ _
    ((Relation.EqvGen.rel _ _ hqualify).trans _ _ _ (.rel _ _ hlifetime))).symm

/-- A reference to a handler is found however it is written, and a mutable one is not similar to
the optional one that is expected. -/
theorem mutable_handler_mismatched :
    writtenHandler.canonical = plainHandler.canonical ∧
      ∃ rules, ofConfig Config.default = .ok rules ∧
        rules.check (sampleDeclaration "&'a mut Handler") = .error
          (.parameterType "crate::serve" 3 "handler" "&mut Handler" "Option<&Handler>") ∧
        ∃ type reference, (sampleFunction "&'a mut Handler").params[3]? = some type ∧
          Config.default.Expects 3 "handler" reference ∧ ¬type.Similar reference := by
  have hsample : checked? Config.default (sampleDeclaration "&'a mut Handler") = some (some
      (.parameterType "crate::serve" 3 "handler" "&mut Handler" "Option<&Handler>")) := by
    decide +kernel
  obtain ⟨rules, hrules, ⟨_, hresult, -⟩ | ⟨violation, hresult, hcheck⟩⟩ :=
    exists_of_checked? hsample
  · cases hresult
  · obtain rfl := Option.some.inj hresult
    have hmatched := similar_never_mismatched hrules
      (rfl : (sampleDeclaration "&'a mut Handler").shape = _)
    exact ⟨hmatched.1 _ _ writtenHandler_similar, rules, hrules, hcheck,
      hmatched.2 _ _ _ _ _ hcheck⟩

/-- Pairs of types that differ in a lifetime or in parentheses only: as a bound of an anonymous
type, in a binder, among the arguments of a binding, as a bound of a constraint, and around a
bound. -/
def keptPairs : List (String × String) :=
  [("impl A + 'a", "impl A"), ("for<'a> fn(&'a u8)", "for<'b> fn(&'b u8)"),
    ("Box<dyn Iterator<Item<'a> = u8>>", "Box<dyn Iterator<Item<'b> = u8>>"),
    ("Box<dyn Iterator<Item: 'a + Copy>>", "Box<dyn Iterator<Item: Copy>>"),
    ("dyn (A) + B", "dyn A + B")]

/-- Settings that expect a handler of an anonymous type. -/
def anonymousHandler : Config :=
  { Config.default with params := { Params.default with handler := "impl Handler" } }

/-- Lifetimes and parentheses in these places are not erased, and a function whose type differs in
one of them is reported. -/
theorem keptPairs_differ :
    (∀ pair ∈ keptPairs, ∃ type type', readType pair.1 = .ok type ∧ readType pair.2 = .ok type' ∧
      type.canonical ≠ type'.canonical) ∧
      ∃ rules, ofConfig anonymousHandler = .ok rules ∧
        rules.check (sampleDeclaration "impl Handler + 'a") = .error
          (.parameterType "crate::serve" 3 "handler" "impl Handler+'a" "impl Handler") := by
  have hpairs : keptPairs.all (fun pair =>
      ((readType pair.1).toOption.map Ty.canonical).isSome &&
      ((readType pair.2).toOption.map Ty.canonical).isSome &&
      (readType pair.1).toOption.map Ty.canonical != (readType pair.2).toOption.map Ty.canonical) =
      true := by decide +kernel
  have hsample : checked? anonymousHandler (sampleDeclaration "impl Handler + 'a") = some (some
      (.parameterType "crate::serve" 3 "handler" "impl Handler+'a" "impl Handler")) := by
    decide +kernel
  constructor
  · intro pair hpair
    have hdiffer := List.all_eq_true.1 hpairs pair hpair
    rcases hfirst : readType pair.1 with fault | type <;>
      rcases hsecond : readType pair.2 with fault | type' <;>
      simp only [hfirst, hsecond, Except.toOption, Option.map_none, Option.map_some,
        Option.isSome_none, Option.isSome_some, Bool.false_and, Bool.and_false, Bool.true_and,
        Bool.false_eq_true, bne_iff_ne, ne_eq, Option.some.injEq] at hdiffer
    exact ⟨type, type', rfl, rfl, hdiffer⟩
  · obtain ⟨rules, hrules, ⟨_, hresult, -⟩ | ⟨violation, hresult, hcheck⟩⟩ :=
      exists_of_checked? hsample
    · cases hresult
    · obtain rfl := Option.some.inj hresult
      exact ⟨rules, hrules, hcheck⟩

/-! ## Types that are told apart -/

/-- Types with the same canonical form have the same outline, so a parameter that passes has the
outline of the type that is set for it. -/
theorem canonical_unambiguous :
    (∀ (type type' : Ty) (outline outline' : Source.Outline), type.outline? = some outline →
      type'.outline? = some outline' → type.canonical = type'.canonical → outline = outline') ∧
      ∀ (config : Config) (rules : ShapeRules), ofConfig config = .ok rules →
        ∀ (declaration : Declaration) (visibility : Visibility) (signature : Signature),
          declaration.shape = .function (.ofSignature visibility signature) →
          ∀ warnings : List String, rules.check declaration = .ok warnings →
            ∀ (index : Nat) (name : String) (type reference : Ty)
              (outline outline' : Source.Outline), signature.params[index]? = some type →
              config.Expects index name reference → type.outline? = some outline →
              reference.outline? = some outline' → outline = outline' := by
  have hinjective : ∀ (type type' : Ty) (outline outline' : Source.Outline),
      type.outline? = some outline → type'.outline? = some outline' →
      type.canonical = type'.canonical → outline = outline' := by
    intro type type' outline outline' houtline houtline' hcanonical
    have hread := Source.ofCanonical?_canonical houtline
    rw [hcanonical, Source.ofCanonical?_canonical houtline'] at hread
    exact (Option.some.inj hread).symm
  refine ⟨hinjective, ?_⟩
  intro config rules h declaration visibility signature hshape warnings hcheck index name type
    reference outline outline' htype hexpects houtline houtline'
  exact hinjective type reference outline outline' houtline houtline'
    (canonical_of_check h hshape hcheck htype hexpects)

theorem exists_outline {type? : Option Ty} (h : (type?.bind Ty.outline?).isSome = true) :
    ∃ type outline, type? = some type ∧ type.outline? = some outline := by
  obtain ⟨outline, houtline⟩ := Option.isSome_iff_exists.1 h
  obtain ⟨type, htype, houtline⟩ := Option.bind_eq_some_iff.1 houtline
  exact ⟨type, outline, htype, houtline⟩

theorem readType_of_toOption {text : String} {type : Ty}
    (h : (readType text).toOption = some type) : readType text = .ok type := by
  cases hread : readType text with
  | error fault =>
    rw [hread] at h
    cases h
  | ok found =>
    rw [hread] at h
    exact congrArg Except.ok (Option.some.inj h)

/-- A handler that is expected and one with a whole path, a lifetime and parentheses have the same
outline. -/
theorem parenthesized_handler_accepted :
    (∃ type type' outline, readType "&(dyn 'a + A + b::B)" = .ok type ∧
      readType "&'c (dyn A + B)" = .ok type' ∧ type.outline? = some outline ∧
      type'.outline? = some outline) ∧
      ∃ rules, ofConfig Config.default = .ok rules ∧
        (∃ warnings, rules.check (sampleDeclaration "Option<&'a (::b::Handler)>") = .ok warnings) ∧
        ∃ type reference outline,
          (sampleFunction "Option<&'a (::b::Handler)>").params[3]? = some type ∧
          Config.default.Expects 3 "handler" reference ∧ type.outline? = some outline ∧
          reference.outline? = some outline := by
  constructor
  · obtain ⟨type, outline, htype, houtline⟩ :
        ∃ type outline, (readType "&(dyn 'a + A + b::B)").toOption = some type ∧
          type.outline? = some outline := exists_outline (by decide +kernel)
    obtain ⟨type', outline', htype', houtline'⟩ :
        ∃ type outline, (readType "&'c (dyn A + B)").toOption = some type ∧
          type.outline? = some outline := exists_outline (by decide +kernel)
    have hcanonical : (readType "&(dyn 'a + A + b::B)").toOption.map Ty.canonical =
        (readType "&'c (dyn A + B)").toOption.map Ty.canonical := by decide +kernel
    rw [htype, htype'] at hcanonical
    obtain rfl := canonical_unambiguous.1 type type' outline outline' houtline houtline'
      (Option.some.inj hcanonical)
    exact ⟨type, type', outline, readType_of_toOption htype, readType_of_toOption htype',
      houtline, houtline'⟩
  · have hsample : checked? Config.default (sampleDeclaration "Option<&'a (::b::Handler)>") =
      some none := by decide +kernel
    obtain ⟨rules, hrules, ⟨warnings, -, hcheck⟩ | ⟨_, hresult, -⟩⟩ := exists_of_checked? hsample
    · obtain ⟨type, outline, htype, houtline⟩ :
          ∃ type outline, (sampleFunction "Option<&'a (::b::Handler)>").params[3]? = some type ∧
            type.outline? = some outline := exists_outline (by decide +kernel)
      obtain ⟨reference, outline', hreference, houtline'⟩ :
          ∃ type outline, (readType "Option<&Handler>").toOption = some type ∧
            type.outline? = some outline := exists_outline (by decide +kernel)
      have hexpects : Config.default.Expects 3 "handler" reference :=
        ⟨"Option<&Handler>", rfl, readType_of_toOption hreference⟩
      obtain rfl := canonical_unambiguous.2 _ _ hrules _ _ _ rfl _ hcheck 3 "handler" type reference
        outline outline' htype hexpects houtline houtline'
      exact ⟨rules, hrules, ⟨warnings, hcheck⟩, type, reference, outline, htype, hexpects, houtline,
        houtline'⟩
    · cases hresult

end ShapeRules

end Bindery
