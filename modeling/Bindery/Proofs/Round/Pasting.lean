import Bindery.Proofs.Round.Parameters
import Bindery.Proofs.Source.Rereading.Ordinary
import Bindery.Proofs.Source.Rereading.Returns
/-!
# Setting the types that violations show

A violation shows types in their canonical form. Such a text can be set for a parameter, and is the
canonical form of the type that it is read as, if the type is stable. There are types that are not:
without its parentheses, a sum of bounds behind a reference is no type any more.
-/

namespace Bindery

open Source (Ty Signature readType)

/-! ## Setting a parameter -/

/-- Sets the type of the parameter at an index. -/
def Params.set (params : Params) (index : Nat) (text : String) : Params :=
  match index with
  | 0 => { params with context := text }
  | 1 => { params with method := text }
  | 2 => { params with arguments := text }
  | 3 => { params with handler := text }
  | _ => params

theorem Params.named_set {params : Params} {index : Nat} {name old : String}
    (h : params.named[index]? = some (name, old)) (text : String) :
    (params.set index text).named = params.named.set index (name, text) := by
  rcases index with _ | _ | _ | _ | index
  case succ => simp [Params.named] at h
  all_goals
    obtain ⟨rfl, -⟩ := Prod.mk.inj (Option.some.inj h)
    rfl

/-- Settings with another type for the parameter at an index. -/
def Config.setParam (config : Config) (index : Nat) (text : String) : Config :=
  { config with params := config.params.set index text }

/-- Why settings are refused, if they are. -/
def Config.refusal? (config : Config) : Option ConfigError :=
  match config.check with
  | .ok () => none
  | .error cause => some cause

theorem Config.check_of_refusal? {config : Config} {cause : ConfigError}
    (h : config.refusal? = some cause) : config.check = .error cause := by
  unfold refusal? at h
  rcases hcheck : config.check with found | ⟨⟩ <;> rw [hcheck] at h
  · exact congrArg Except.error (Option.some.inj h)
  · cases h

/-- A text can be set for the parameter at an index: settings that were accepted still are, and
there are rules by which a function matches that has the text for its type there. -/
structure Config.Takes (config : Config) (index : Nat) (text : String) : Prop where
  accepted : config.check = .ok () → (config.setParam index text).check = .ok ()
  matched : ∃ rules, ShapeRules.ofConfig (config.setParam index text) = .ok rules ∧
    ∀ (declaration : Declaration) (shape : FunctionShape), declaration.shape = .function shape →
      shape.params[index]? = some text → rules.Matches shape.params index ∧
        ∀ path name found expected,
          rules.check declaration ≠ .error (.parameterType path index name found expected)

namespace ShapeRules

variable {config : Config} {rules : ShapeRules} {index : Nat} {name old text : String}

theorem forall₂_set {α β : Type} {R : α → β → Prop} {xs : List α} {ys : List β} {x : α} {y : β}
    (h : List.Forall₂ R xs ys) (hxy : R x y) (index : Nat) :
    List.Forall₂ R (xs.set index x) (ys.set index y) := by
  induction h generalizing index with
  | nil => exact .nil
  | cons hfirst hmore ih =>
    cases index with
    | zero => exact .cons hxy hmore
    | succ index => exact .cons hfirst (ih index)

theorem forM_ok_of_forall {α ε : Type} {check : α → Except ε Unit} {values : List α}
    (h : ∀ value ∈ values, check value = .ok ()) : values.forM check = .ok () := by
  induction values with
  | nil => rfl
  | cons value rest ih =>
    obtain ⟨hfirst, hmore⟩ := List.forall_mem_cons.1 h
    change ((check value).bind fun _ => rest.forM check) = .ok ()
    rw [hfirst]
    exact ih hmore

/-- Settings are accepted if each of them is what it has to be. -/
theorem check_of_admits
    (h : ∀ setting ∈ config.requirements, setting.2.1.admits setting.2.2 = true) :
    config.check = .ok () :=
  forM_ok_of_forall fun setting hsetting => if_pos (h setting hsetting)

theorem check_setParam {type : Ty} (hcheck : config.check = .ok ())
    (hname : config.params.named[index]? = some (name, old)) (hread : readType text = .ok type) :
    (config.setParam index text).check = .ok () := by
  refine check_of_admits fun setting hsetting => ?_
  have hadmits := Config.admits_of_check hcheck
  rw [Config.requirements, Config.setParam, Params.named_set hname] at hsetting
  rcases List.mem_append.1 hsetting with hother | hparam
  · exact hadmits setting (List.mem_append_left _ hother)
  · obtain ⟨⟨name', text'⟩, hmem, rfl⟩ := List.mem_map.1 hparam
    -- A parameter is one of those before, or the one that was set.
    rcases List.mem_or_eq_of_mem_set hmem with hmem | heq
    · exact hadmits _ (List.mem_append_right _ (List.mem_map.2 ⟨_, hmem, rfl⟩))
    · obtain ⟨-, rfl⟩ := Prod.mk.inj heq
      show (readType text').isOk = true
      rw [hread]
      rfl

theorem ofConfig_setParam {type : Ty} (h : ofConfig config = .ok rules)
    (hname : config.params.named[index]? = some (name, old)) (hread : readType text = .ok type) :
    ofConfig (config.setParam index text) =
      .ok { rules with params := rules.params.set index (name, type.canonical) } := by
  obtain ⟨hcontract, hrules⟩ := ofConfig_ok_iff.1 h
  refine ofConfig_ok_iff.2 ⟨hcontract, ?_⟩
  rw [Config.setParam, Params.named_set hname]
  have hrule : IsRuleOf (name, text) (name, type.canonical) := ⟨rfl, type, hread, rfl⟩
  exact forall₂_set hrules hrule index

theorem breaks_of_check {declaration : Declaration} {violation : Violation}
    (h : rules.check declaration = .error violation) : rules.Breaks declaration violation := by
  rcases rules.check_spec declaration with ⟨-, hpass⟩ | ⟨violation', hbreaks, herror⟩
  · rw [h] at hpass
    cases hpass
  · obtain rfl := Except.error.inj (h.symm.trans herror)
    exact hbreaks

/-- Where the parameter at an index is of the expected type, it is not reported. -/
theorem check_ne_of_matches {declaration : Declaration} {shape : FunctionShape}
    (hshape : declaration.shape = .function shape) (h : rules.Matches shape.params index)
    (path name found expected : String) :
    rules.check declaration ≠ .error (.parameterType path index name found expected) := by
  intro hcheck
  obtain ⟨-, hrule, hne, shape', hshape', hfound, -⟩ := (breaks_of_check hcheck).describes
  obtain rfl := Shape.function.inj (hshape.symm.trans hshape')
  rw [Matches, hfound, hrule] at h
  exact hne (Option.some.inj h)

/-- The canonical form of a stable type can be set for any parameter. -/
theorem takes_canonical {type : Ty} (h : ofConfig config = .ok rules) (hstable : type.Stable)
    (hname : config.params.named[index]? = some (name, old)) :
    config.Takes index type.canonical := by
  obtain ⟨again, hread, hcanonical⟩ := hstable.readType_canonical
  have hrules := ofConfig_setParam h hname hread
  obtain ⟨-, hforall⟩ := ofConfig_ok_iff.1 h
  have hlength : index < rules.params.length := by
    rw [← hforall.length_eq]
    exact (List.getElem?_eq_some_iff.1 hname).1
  refine ⟨fun hcheck => check_setParam hcheck hname hread, _, hrules, ?_⟩
  intro declaration shape hshape hparam
  have hmatches : ({ rules with params := rules.params.set index (name, again.canonical) } :
      ShapeRules).Matches shape.params index := by
    rw [Matches, hparam]
    simp [hlength, hcanonical]
  exact ⟨hmatches, check_ne_of_matches hshape hmatches⟩

/-! ## What violations show -/

/-- The canonical form of a stable type is read as a type of that canonical form. A violation shows
the canonical form of a type that a function has, and that of the type that is expected of it. Both
can be set for the parameter that is reported, and match there, if the types are stable; the form of
a return type can be set for any parameter. -/
theorem stable_types_pasted :
    (∀ (text : String) (type : Ty), readType text = .ok type → type.Stable →
      ∃ again, readType type.canonical = .ok again ∧ again.canonical = type.canonical) ∧
      ∀ (config : Config) (rules : ShapeRules), ofConfig config = .ok rules →
        ∀ (declaration : Declaration) (visibility : Visibility) (signature : Signature),
          declaration.shape = .function (.ofSignature visibility signature) →
          (∀ (path : String) (index : Nat) (name found expected : String),
            rules.check declaration = .error (.parameterType path index name found expected) →
            ∃ type reference, signature.params[index]? = some type ∧ type.canonical = found ∧
              config.Expects index name reference ∧ reference.canonical = expected ∧
              (type.Stable → config.Takes index found) ∧
              (reference.Stable → config.Takes index expected)) ∧
          ∀ path found : String, rules.check declaration = .error (.returnType path found) →
            ∃ type, signature.output = some type ∧ type.canonical = found ∧
              (type.Stable → ∀ index < config.params.named.length, config.Takes index found) := by
  refine ⟨fun text type _ hstable => hstable.readType_canonical, ?_⟩
  intro config rules hrules declaration visibility signature hshape
  constructor
  · intro path index name found expected hcheck
    obtain ⟨-, hrule, -, shape, hshape', hfound, -⟩ := (breaks_of_check hcheck).describes
    obtain rfl := Shape.function.inj (hshape.symm.trans hshape')
    change (signature.params.map Ty.canonical)[index]? = some found at hfound
    rw [List.getElem?_map, Option.map_eq_some_iff] at hfound
    obtain ⟨type, htype, rfl⟩ := hfound
    obtain ⟨reference, hexpects, rfl⟩ := exists_expects hrules hrule
    obtain ⟨text, hname, hread⟩ := hexpects
    exact ⟨type, reference, htype, rfl, ⟨text, hname, hread⟩, rfl,
      fun hstable => takes_canonical hrules hstable hname,
      fun hstable => takes_canonical hrules hstable hname⟩
  · intro path found hcheck
    obtain ⟨-, shape, hshape', houtput⟩ := (breaks_of_check hcheck).describes
    obtain rfl := Shape.function.inj (hshape.symm.trans hshape')
    -- The unit type is no return type, so what is found is not its form.
    change (signature.output.map Ty.canonical).filter (· != "()") = some found at houtput
    obtain ⟨houtput, -⟩ := Option.filter_eq_some_iff.1 houtput
    obtain ⟨type, htype, rfl⟩ := Option.map_eq_some_iff.1 houtput
    refine ⟨type, htype, rfl, fun hstable index hindex => ?_⟩
    exact takes_canonical hrules hstable (List.getElem?_eq_getElem hindex)

/-! ## Samples -/

theorem exists_stable {type? : Option Ty} (h : type?.any Ty.isOrdinary = true) :
    ∃ type, type? = some type ∧ type.Stable := by
  cases type? with
  | none => cases h
  | some type => exact ⟨type, rfl, type.stable_of_isOrdinary h⟩

theorem exists_error_of_checked? {declaration : Declaration} {violation : Violation}
    (h : checked? config declaration = some (some violation)) :
    ∃ rules, ofConfig config = .ok rules ∧ rules.check declaration = .error violation := by
  obtain ⟨rules, hrules, ⟨_, hresult, -⟩ | ⟨_, hresult, hcheck⟩⟩ := exists_of_checked? h
  · cases hresult
  · obtain rfl := Option.some.inj hresult
    exact ⟨rules, hrules, hcheck⟩

/-- A function that passes but for the type that it returns. -/
def returningFunction (output : String) : Signature :=
  { sampleFunction "Option<&Handler>" with output := (readType output).toOption }

/-- The declaration of a function that returns a type. -/
def returningDeclaration (output : String) : Declaration :=
  { sampleDeclaration "Option<&Handler>" with
    shape := .function (.ofSignature .public (returningFunction output)) }

/-- A reference is shown without its lifetime and path, and an array without its blank. Both texts
can be set for the handler. -/
theorem shown_handler_pasted :
    (∃ again, readType "&mut Handler" = .ok again ∧ again.canonical = "&mut Handler") ∧
      (∃ rules, ofConfig Config.default = .ok rules ∧
        rules.check (sampleDeclaration "&'a mut b::Handler") = .error
          (.parameterType "crate::serve" 3 "handler" "&mut Handler" "Option<&Handler>") ∧
        Config.default.Takes 3 "&mut Handler") ∧
      ∃ rules, ofConfig Config.default = .ok rules ∧
        rules.check (returningDeclaration "Vec<[u8; 4]>") = .error
          (.returnType "crate::serve" "Vec<[u8;4]>") ∧
        Config.default.Takes 3 "Vec<[u8;4]>" := by
  refine ⟨?_, ?_, ?_⟩
  · obtain ⟨type, htype, hstable⟩ : ∃ type, (readType "&'a mut b::Handler").toOption = some type ∧
        type.Stable := exists_stable (by decide +kernel)
    have hcanonical : (readType "&'a mut b::Handler").toOption.map Ty.canonical =
        some "&mut Handler" := by decide +kernel
    rw [htype, Option.map_some] at hcanonical
    have hpasted := stable_types_pasted.1 _ type (readType_of_toOption htype) hstable
    rwa [Option.some.inj hcanonical] at hpasted
  · have hsample : checked? Config.default (sampleDeclaration "&'a mut b::Handler") = some (some
        (.parameterType "crate::serve" 3 "handler" "&mut Handler" "Option<&Handler>")) := by
      decide +kernel
    have hshape : (sampleDeclaration "&'a mut b::Handler").shape =
        .function (.ofSignature .public (sampleFunction "&'a mut b::Handler")) := rfl
    obtain ⟨type, htype, hstable⟩ : ∃ type,
        (sampleFunction "&'a mut b::Handler").params[3]? = some type ∧ type.Stable :=
      exists_stable (by decide +kernel)
    obtain ⟨rules, hrules, hcheck⟩ := exists_error_of_checked? hsample
    obtain ⟨found, reference, hfound, -, -, -, htakes, -⟩ :=
      (stable_types_pasted.2 _ rules hrules _ _ _ hshape).1 _ _ _ _ _ hcheck
    obtain rfl := Option.some.inj (htype.symm.trans hfound)
    exact ⟨rules, hrules, hcheck, htakes hstable⟩
  · have hsample : checked? Config.default (returningDeclaration "Vec<[u8; 4]>") = some (some
        (.returnType "crate::serve" "Vec<[u8;4]>")) := by
      decide +kernel
    have hshape : (returningDeclaration "Vec<[u8; 4]>").shape =
        .function (.ofSignature .public (returningFunction "Vec<[u8; 4]>")) := rfl
    obtain ⟨type, htype, hstable⟩ : ∃ type,
        (returningFunction "Vec<[u8; 4]>").output = some type ∧ type.Stable :=
      exists_stable (by decide +kernel)
    obtain ⟨rules, hrules, hcheck⟩ := exists_error_of_checked? hsample
    obtain ⟨found, hfound, -, htakes⟩ :=
      (stable_types_pasted.2 _ rules hrules _ _ _ hshape).2 _ _ hcheck
    obtain rfl := Option.some.inj (htype.symm.trans hfound)
    exact ⟨rules, hrules, hcheck, htakes hstable 3 (by decide)⟩

/-- Without its parentheses, a sum of bounds behind a reference is no type. A violation shows it
all the same, and settings with it are refused. -/
theorem not_canonical_idempotent :
    ¬(∀ (text : String) (type : Ty), readType text = .ok type →
      ∃ again, readType type.canonical = .ok again ∧ again.canonical = type.canonical) ∧
      ∃ rules, ofConfig Config.default = .ok rules ∧
        rules.check (sampleDeclaration "&(dyn A + B)") = .error
          (.parameterType "crate::serve" 3 "handler" "&dyn A+B" "Option<&Handler>") ∧
        (Config.default.setParam 3 "&dyn A+B").check =
          .error (.invalid "handler" .type "&dyn A+B") := by
  constructor
  · intro h
    have hread : (readType "&(dyn A + B)").toOption.map Ty.canonical = some "&dyn A+B" := by
      decide +kernel
    have hfails : (readType "&dyn A+B").toOption.isNone = true := by decide +kernel
    obtain ⟨type, htype, hcanonical⟩ := Option.map_eq_some_iff.1 hread
    obtain ⟨again, hagain, -⟩ := h _ type (readType_of_toOption htype)
    rw [hcanonical] at hagain
    rw [hagain] at hfails
    cases hfails
  · have hsample : checked? Config.default (sampleDeclaration "&(dyn A + B)") = some (some
        (.parameterType "crate::serve" 3 "handler" "&dyn A+B" "Option<&Handler>")) := by
      decide +kernel
    have hrefused : (Config.default.setParam 3 "&dyn A+B").refusal? =
        some (.invalid "handler" .type "&dyn A+B") := by decide +kernel
    obtain ⟨rules, hrules, hcheck⟩ := exists_error_of_checked? hsample
    exact ⟨rules, hrules, hcheck, Config.check_of_refusal? hrefused⟩

end ShapeRules

end Bindery
