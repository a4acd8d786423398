import Bindery.Round
import Mathlib.Data.List.Forall2
/-!
# Accepted settings

Settings that are accepted are what they have to be (`Config.admits_of_check`), and so there is a
generator for them. Its rules hold the canonical forms of the types of the parameters
(`ShapeRules.ofConfig_ok_iff`).
-/

namespace Bindery

theorem mapM_ok_iff {α β ε : Type} {f : α → Except ε β} {values : List α} {results : List β} :
    values.mapM f = .ok results ↔
      List.Forall₂ (fun value result => f value = .ok result) values results := by
  induction values generalizing results with
  | nil => exact ⟨fun h => Except.ok.inj h ▸ .nil, fun h => by cases h; rfl⟩
  | cons value rest ih =>
    rw [List.mapM_cons]
    cases hvalue : f value with
    | error cause =>
      refine ⟨fun h => (nomatch h), fun h => ?_⟩
      obtain ⟨_, _, hfirst, -, -⟩ := List.forall₂_cons_left_iff.1 h
      exact nomatch hvalue.symm.trans hfirst
    | ok result =>
      cases hrest : rest.mapM f with
      | error cause =>
        refine ⟨fun h => (nomatch h), fun h => ?_⟩
        obtain ⟨_, _, -, hmore, -⟩ := List.forall₂_cons_left_iff.1 h
        exact nomatch hrest.symm.trans (ih.2 hmore)
      | ok more =>
        constructor
        · intro h
          obtain rfl := Except.ok.inj h
          exact .cons hvalue (ih.1 hrest)
        · intro h
          obtain ⟨first, others, hfirst, hmore, rfl⟩ := List.forall₂_cons_left_iff.1 h
          obtain rfl := Except.ok.inj (hvalue.symm.trans hfirst)
          obtain rfl := Except.ok.inj (hrest.symm.trans (ih.2 hmore))
          rfl

namespace Config

variable {config : Config} {text : String}

theorem forM_ok {α ε : Type} {check : α → Except ε Unit} {values : List α}
    (h : values.forM check = .ok ()) : ∀ value ∈ values, check value = .ok () := by
  induction values with
  | nil => exact fun _ hmem => nomatch hmem
  | cons value rest ih =>
    change ((check value).bind fun _ => rest.forM check) = .ok () at h
    cases hvalue : check value with
    | error cause =>
      rw [hvalue] at h
      cases h
    | ok =>
      rw [hvalue] at h
      exact List.forall_mem_cons.2 ⟨hvalue, ih h⟩

theorem forM_error {α ε : Type} {check : α → Except ε Unit} {values : List α} {error : ε}
    (h : values.forM check = .error error) : ∃ value ∈ values, check value = .error error := by
  induction values with
  | nil => cases h
  | cons value rest ih =>
    change ((check value).bind fun _ => rest.forM check) = .error error at h
    cases hvalue : check value with
    | error cause =>
      rw [hvalue] at h
      obtain rfl := Except.error.inj h
      exact ⟨value, List.mem_cons_self, hvalue⟩
    | ok =>
      rw [hvalue] at h
      obtain ⟨other, hother, herror⟩ := ih h
      exact ⟨other, List.mem_cons_of_mem _ hother, herror⟩

/-- Every setting of an accepted configuration is what it has to be. -/
theorem admits_of_check (h : config.check = .ok ()) :
    ∀ setting ∈ config.requirements, setting.2.1.admits setting.2.2 = true := by
  rintro ⟨field, expected, value⟩ hsetting
  have hone : (if expected.admits value then Except.ok ()
      else .error (ConfigError.invalid field expected value)) = .ok () := forM_ok h _ hsetting
  by_cases hadmits : expected.admits value = true
  · exact hadmits
  · rw [if_neg hadmits] at hone
    cases hone

theorem check_of_ofText (h : ofText text = .ok config) : config.check = .ok () := by
  unfold ofText at h
  split at h
  · cases h
  · split at h
    · cases h
    · next entries hentries found hfound =>
      cases hcheck : found.check with
      | error cause =>
        rw [hcheck] at h
        cases h
      | ok =>
        rw [hcheck] at h
        obtain rfl := Except.ok.inj h
        exact hcheck

end Config

namespace ShapeRules

/-- A rule of a parameter is about the canonical form of the type that is set. -/
def IsRuleOf (parameter rule : String × String) : Prop :=
  rule.1 = parameter.1 ∧
    ∃ type, Source.readType parameter.2 = .ok type ∧ rule.2 = type.canonical

theorem rule_ok_iff {name text : String} {rule : String × String} :
    (match Source.readType text with
      | .ok type => Except.ok (name, type.canonical)
      | .error _ => .error (ConfigError.invalid name .type text)) = .ok rule ↔
      IsRuleOf (name, text) rule := by
  unfold IsRuleOf
  cases Source.readType text with
  | error fault => exact ⟨fun h => (nomatch h), fun ⟨_, _, h, _⟩ => (nomatch h)⟩
  | ok type =>
    constructor
    · intro h
      obtain rfl := Except.ok.inj h
      exact ⟨rfl, type, rfl, rfl⟩
    · rintro ⟨hname, _, htype, hcanonical⟩
      obtain rfl := Except.ok.inj htype
      exact congrArg Except.ok (Prod.ext hname.symm hcanonical.symm)

/-- The rules of settings hold their contract and the canonical forms of their types. -/
theorem ofConfig_ok_iff {config : Config} {rules : ShapeRules} :
    ofConfig config = .ok rules ↔ rules.contract = config.contract ∧
      List.Forall₂ IsRuleOf config.params.named rules.params := by
  unfold ofConfig
  generalize hparams : (List.mapM _ config.params.named :
    Except ConfigError (List (String × String))) = result
  have hrules : ∀ params, result = .ok params ↔
      List.Forall₂ IsRuleOf config.params.named params := by
    intro params
    rw [← hparams, mapM_ok_iff]
    exact ⟨fun h => h.imp fun _ _ => rule_ok_iff.1, fun h => h.imp fun _ _ => rule_ok_iff.2⟩
  cases result with
  | error cause => exact ⟨fun h => (nomatch h), fun h => (nomatch (hrules _).2 h.2)⟩
  | ok params =>
    constructor
    · intro h
      obtain rfl := Except.ok.inj h
      exact ⟨rfl, (hrules _).1 rfl⟩
    · rintro ⟨hcontract, h⟩
      obtain rfl := Except.ok.inj ((hrules _).2 h)
      exact congrArg Except.ok (hcontract ▸ rfl)

end ShapeRules

/-- An accepted configuration has a generator. -/
theorem Generator.exists_ofConfig {config : Config} (h : config.check = .ok ()) :
    ∃ generator, ofConfig config = .ok generator ∧ generator.config = config := by
  have hadmits := Config.admits_of_check h
  have htypes : ∀ parameter ∈ config.params.named, (Source.readType parameter.2).isOk = true := by
    intro parameter hparameter
    exact hadmits (parameter.1, .type, parameter.2)
      (List.mem_append_right _ (List.mem_map.2 ⟨parameter, hparameter, rfl⟩))
  obtain ⟨params, hparams⟩ : ∃ params,
      List.Forall₂ ShapeRules.IsRuleOf config.params.named params := by
    generalize config.params.named = parameters at htypes
    induction parameters with
    | nil => exact ⟨[], .nil⟩
    | cons parameter rest ih =>
      obtain ⟨hparameter, hrest⟩ := List.forall_mem_cons.1 htypes
      obtain ⟨params, hparams⟩ := ih hrest
      rcases htype : Source.readType parameter.2 with fault | type
      · rw [htype] at hparameter
        cases hparameter
      · exact ⟨(parameter.1, type.canonical) :: params, .cons ⟨rfl, type, htype, rfl⟩ hparams⟩
  have hrules : ShapeRules.ofConfig config = .ok ⟨config.contract, params⟩ :=
    ShapeRules.ofConfig_ok_iff.2 ⟨rfl, hparams⟩
  have hpath : (Source.readPath config.runtime).isOk = true :=
    hadmits ("runtime", .path, config.runtime) (by simp [Config.requirements])
  rcases hruntime : Source.readPath config.runtime with fault | runtime
  · rw [hruntime] at hpath
    cases hpath
  · refine ⟨⟨config, ⟨config.contract, params⟩, runtime⟩, ?_, rfl⟩
    rw [ofConfig, hrules, hruntime]
    rfl

theorem Generator.rules_of_ofConfig {config : Config} {generator : Generator}
    (h : ofConfig config = .ok generator) : ShapeRules.ofConfig config = .ok generator.rules := by
  unfold ofConfig at h
  cases hrules : ShapeRules.ofConfig config with
  | error cause =>
    rw [hrules] at h
    cases h
  | ok rules =>
    rw [hrules] at h
    dsimp only [bind, Except.bind] at h
    split at h
    · obtain rfl := Except.ok.inj h
      rfl
    · cases h

end Bindery
