import Bindery.Proofs.Round.Acceptance
import Mathlib.Data.List.Perm.Basic
/-!
# Manifests in another order

The entries of a manifest and its implementations may change places. Everything that is looked up in
a manifest is looked up by name, so that what is reached and declared is the same up to order.
`accept_reordered`: a round accepts the same and reports the same, both up to order.
-/

namespace Bindery

open Source (Path)

/-! ## The same up to order -/

/-- Two lists have related members, each as often as the other, in any order. -/
def UpToOrder {α β : Type} (R : α → β → Prop) (first : List α) (second : List β) : Prop :=
  ∃ middle, first.Perm middle ∧ List.Forall₂ R middle second

section
variable {α β γ : Type} {R : α → β → Prop} {S : α → γ → Prop} {S' : β → γ → Prop}

/-- What stands beside the members of one list stands beside those of the other. -/
theorem forall₂_transfer {first : List α} {second : List β} {values : List γ}
    (h : List.Forall₂ R first second) (hvalues : List.Forall₂ S first values)
    (hR : ∀ a b c, R a b → S a c → S' b c) : List.Forall₂ S' second values := by
  induction h generalizing values with
  | nil =>
    cases hvalues
    exact .nil
  | cons hab _ ih =>
    cases hvalues with
    | cons hac hrest => exact .cons (hR _ _ _ hab hac) (ih hrest)

/-- Where each value has a counterpart, there is a list of counterparts. -/
theorem exists_forall₂ {first : List α} {values : List γ} (h : List.Forall₂ S first values)
    {T : α → β → Prop} {Q : γ → β → Prop} (hS : ∀ a c, S a c → ∃ b, T a b ∧ Q c b) :
    ∃ others, List.Forall₂ T first others ∧ List.Forall₂ Q values others := by
  induction h with
  | nil => exact ⟨[], .nil, .nil⟩
  | cons hac _ ih =>
    obtain ⟨others, hfirst, hvalues⟩ := ih
    obtain ⟨b, hab, hcb⟩ := hS _ _ hac
    exact ⟨b :: others, .cons hab hfirst, .cons hcb hvalues⟩

end

namespace UpToOrder

variable {α β γ : Type} {R : α → β → Prop} {first : List α} {second : List β}

theorem length_eq (h : UpToOrder R first second) : first.length = second.length := by
  obtain ⟨middle, hperm, hrelated⟩ := h
  rw [hperm.length_eq, hrelated.length_eq]

theorem append {first' : List α} {second' : List β} (h : UpToOrder R first second)
    (h' : UpToOrder R first' second') : UpToOrder R (first ++ first') (second ++ second') := by
  obtain ⟨middle, hperm, hrelated⟩ := h
  obtain ⟨middle', hperm', hrelated'⟩ := h'
  exact ⟨middle ++ middle', hperm.append hperm', List.rel_append hrelated hrelated'⟩

theorem filter (h : UpToOrder R first second) {p : α → Bool} {q : β → Bool}
    (hpq : ∀ a b, R a b → p a = q b) : UpToOrder R (first.filter p) (second.filter q) := by
  obtain ⟨middle, hperm, hrelated⟩ := h
  refine ⟨middle.filter p, hperm.filter p, List.rel_filter ?_ hrelated⟩
  intro a b hab
  simp only [hpq a b hab]

theorem map (h : UpToOrder R first second) {f : α → γ} {g : β → γ}
    (hfg : ∀ a b, R a b → f a = g b) : (first.map f).Perm (second.map g) := by
  obtain ⟨middle, hperm, hrelated⟩ := h
  have hsame : middle.map f = second.map g := by
    rw [← List.forall₂_eq_eq_eq, List.forall₂_map_left_iff, List.forall₂_map_right_iff]
    exact hrelated.imp hfg
  rw [← hsame]
  exact hperm.map f

theorem flatMap (h : UpToOrder R first second) {f : α → List γ} {g : β → List γ}
    (hfg : ∀ a b, R a b → f a = g b) : (first.flatMap f).Perm (second.flatMap g) :=
  (h.map hfg).flatten

/-- What stands beside the members of one list stands beside those of the other, in an order of its
own. -/
theorem transfer {S : α → γ → Prop} {S' : β → γ → Prop} (h : UpToOrder R first second)
    (hR : ∀ a b c, R a b → S a c → S' b c) {values : List γ}
    (hvalues : List.Forall₂ S first values) :
    ∃ others, List.Forall₂ S' second others ∧ values.Perm others := by
  obtain ⟨middle, hperm, hrelated⟩ := h
  obtain ⟨others, hothers, hpermuted⟩ := List.perm_comp_forall₂ hperm.symm hvalues
  exact ⟨others, forall₂_transfer hrelated hothers hR, hpermuted.symm⟩

/-- With a single member there is no other order. -/
theorem forall₂ (h : UpToOrder R first second) (hone : first.length ≤ 1) :
    List.Forall₂ R first second := by
  obtain ⟨middle, hperm, hrelated⟩ := h
  rcases first with _ | ⟨a, _ | ⟨b, rest⟩⟩
  · rwa [List.nil_perm.1 hperm] at hrelated
  · rwa [← List.singleton_perm.1 hperm] at hrelated
  · simp at hone

end UpToOrder

theorem eq_of_perm_of_length_le_one {α : Type} {first second : List α} (h : first.Perm second)
    (hone : first.length ≤ 1) : first = second := by
  rw [← List.forall₂_eq_eq_eq]
  exact UpToOrder.forall₂ ⟨second, h, List.forall₂_eq_eq_eq ▸ rfl⟩ hone

theorem forall₂_head? {α β : Type} {R : α → β → Prop} {first : List α} {second : List β}
    (h : List.Forall₂ R first second) : Option.Rel R first.head? second.head? := by
  cases h with
  | nil => exact .none
  | cons hab _ => exact .some hab

/-! ## Declarations up to the order of their traits -/

/-- Two shapes differ in the order of their traits at most. -/
inductive Shape.Alike : Shape → Shape → Prop
  | type {visibility : Visibility} {implements implements' : List String}
    {construction : Option Construction} (traits : implements.Perm implements') :
    Alike (.type ⟨visibility, implements, construction⟩)
      (.type ⟨visibility, implements', construction⟩)
  | function (shape : FunctionShape) : Alike (.function shape) (.function shape)

namespace Declaration

/-- Two declarations differ in the order of their traits at most. -/
structure Alike (first second : Declaration) : Prop where
  path : first.path = second.path
  scope : first.scope = second.scope
  shape : first.shape.Alike second.shape
  carrier : first.carrier = second.carrier
  location : first.location = second.location

namespace Alike

variable {first second : Declaration}

theorem key? (h : first.Alike second) : first.key? = second.key? := by
  rw [Declaration.key?, Declaration.key?, h.carrier]

theorem check (h : first.Alike second) (rules : ShapeRules) :
    rules.check first = rules.check second := by
  have hpath := h.path
  have hshape := h.shape
  rw [ShapeRules.check, ShapeRules.check]
  generalize first.shape = shape, second.shape = shape' at hshape
  cases hshape with
  | type traits => simp only [ShapeRules.checkType, hpath, traits.contains_eq]
  | function shape => simp only [hpath]

/-- A declaration satisfies the rules exactly if the check lets it pass. -/
theorem satisfies_iff_check (rules : ShapeRules) (declaration : Declaration) :
    rules.Satisfies declaration ↔ ∃ warnings, rules.check declaration = .ok warnings := by
  rcases rules.check_spec declaration with ⟨hsatisfies, hcheck⟩ | ⟨violation, hbreaks, hcheck⟩
  · exact ⟨fun _ => ⟨_, hcheck⟩, fun _ => hsatisfies⟩
  · rw [hcheck]
    exact ⟨fun h => absurd h hbreaks.not_satisfies, fun ⟨_, h⟩ => nomatch h⟩

theorem findings (h : first.Alike second) (rules : ShapeRules) :
    rules.findings first = rules.findings second := by
  rw [ShapeRules.findings, ShapeRules.findings, h.check, h.location]

theorem satisfies (h : first.Alike second) (rules : ShapeRules) :
    rules.Satisfies first ↔ rules.Satisfies second := by
  rw [satisfies_iff_check, satisfies_iff_check, h.check]

theorem fragment (h : first.Alike second) (runtime : Path) :
    first.fragment runtime = second.fragment runtime := by
  have hmaking : Making.ofShape first.shape = Making.ofShape second.shape := by
    have hshape := h.shape
    generalize first.shape = shape, second.shape = shape' at hshape
    cases hshape <;> rfl
  rw [Declaration.fragment, Declaration.fragment, Declaration.registration,
    Declaration.registration, h.path, h.location, h.carrier, hmaking]

end Alike

end Declaration

/-- What is accepted is the same up to the order of the declarations and of their traits. -/
structure Accepted.Alike (first second : Accepted) : Prop where
  providers : UpToOrder Declaration.Alike first.providers second.providers
  gateway : Option.Rel Declaration.Alike first.gateway second.gateway


/-! ## Manifests in another order -/

namespace Manifest

/-- The entries and the implementations of a manifest in another order. -/
structure Reorders (first second : Manifest) : Prop where
  entries : first.entries.Perm second.entries
  implementations : first.implementations.Perm second.implementations

namespace Reorders

variable {first second : Manifest}

theorem symm (h : first.Reorders second) : second.Reorders first :=
  ⟨h.entries.symm, h.implementations.symm⟩

theorem traitsOf (h : first.Reorders second) (ident : String) :
    (first.traitsOf ident).Perm (second.traitsOf ident) :=
  (h.implementations.filter _).map _

theorem declare (h : first.Reorders second) {entry : Entry} {carrier : Carrier}
    {declaration : Declaration} (hdeclare : first.declare entry carrier = .ok declaration) :
    ∃ other, second.declare entry carrier = .ok other ∧ declaration.Alike other := by
  have htraits := h.traitsOf entry.ident
  unfold Manifest.declare Manifest.shape? Manifest.typeShape? at *
  rcases hcategory : entry.category with ⟨visibility, unit, derivesDefault⟩ | shape | word <;>
    rw [hcategory] at hdeclare
  · obtain rfl := Except.ok.inj hdeclare
    refine ⟨_, rfl, rfl, rfl, ?_, rfl, rfl⟩
    simp only [construction?, htraits.contains_eq]
    exact .type htraits
  · obtain rfl := Except.ok.inj hdeclare
    exact ⟨_, rfl, rfl, rfl, .function shape, rfl, rfl⟩
  · cases hdeclare

theorem reachOf (h : first.Reorders second) (role : Role) (entry : Entry) :
    (first.reachOf role entry).Perm (second.reachOf role entry) := by
  refine List.Perm.flatMap_left _ fun mark _ => ?_
  split
  · exact (h.entries.filter _).map _
  · exact .refl _

theorem reach (h : first.Reorders second) (role : Role) :
    (first.reach role).Perm (second.reach role) :=
  h.entries.flatMap fun entry _ => h.reachOf role entry

theorem aliasWarnings (h : first.Reorders second) (role : Role) :
    (first.aliasWarnings role).Perm (second.aliasWarnings role) :=
  (h.reach role).filterMap _

theorem hasAlias (h : first.Reorders second) (name : String) :
    first.hasAlias name = second.hasAlias name :=
  h.entries.any_eq

theorem unresolvedWarnings (h : first.Reorders second) :
    first.unresolvedWarnings.Perm second.unresolvedWarnings := by
  unfold Manifest.unresolvedWarnings unresolvedTags
  simp only [h.hasAlias]
  exact ((h.entries.flatMap_right _).filter _).map _

/-- What is declared of a manifest is declared of it in another order. -/
theorem declares (h : first.Reorders second) {role : Role} {declarations : List Declaration}
    (hdeclares : first.Declares role declarations) :
    ∃ others, second.Declares role others ∧ UpToOrder Declaration.Alike declarations others := by
  have htargets := (h.symm.reach role).filterMap Reach.target?
  obtain ⟨middle, hmiddle, hperm⟩ := List.perm_comp_forall₂ htargets hdeclares
  obtain ⟨others, hothers, halike⟩ := exists_forall₂ hmiddle fun _ _ => h.declare
  exact ⟨others, hothers, middle, hperm.symm, halike⟩

end Reorders

end Manifest

namespace Generator

variable {generator : Generator} {manifest other : Manifest} {report report' : Report}

theorem reported_perm (rules : ShapeRules) {providers gateways providers' gateways' :
    List Declaration} (h : manifest.Reorders other)
    (hproviders : UpToOrder Declaration.Alike providers providers')
    (hgateways : UpToOrder Declaration.Alike gateways gateways') :
    (reported rules manifest providers gateways).Perm
      (reported rules other providers' gateways') :=
  ((h.unresolvedWarnings.append (h.aliasWarnings .provider)).append
    (h.aliasWarnings .gateway)).append
      ((hproviders.append hgateways).flatMap fun _ _ halike => halike.findings rules)

theorem acceptedOf_alike (rules : ShapeRules) {providers gateways providers' gateways' :
    List Declaration} (hproviders : UpToOrder Declaration.Alike providers providers')
    (hgateways : UpToOrder Declaration.Alike gateways gateways') (hone : gateways.length ≤ 1) :
    (acceptedOf rules providers gateways).Alike (acceptedOf rules providers' gateways') := by
  have hkept : ∀ declaration other : Declaration, declaration.Alike other →
      decide (rules.Satisfies declaration) = decide (rules.Satisfies other) :=
    fun _ _ halike => decide_eq_decide.2 (halike.satisfies rules)
  refine ⟨hproviders.filter hkept, forall₂_head? ((hgateways.filter hkept).forall₂ ?_)⟩
  exact Nat.le_trans (List.length_filter_le _ _) hone

/-- What is accepted of a manifest is accepted of it in another order. -/
theorem accept_reordered (h : manifest.Reorders other) {accepted : Accepted}
    (haccept : generator.accept manifest report = (report', .ok accepted)) :
    ∃ final accepted' added added', generator.accept other report = (final, .ok accepted') ∧
      accepted.Alike accepted' ∧ report'.findings = report.findings ++ added ∧
      final.findings = report.findings ++ added' ∧ added.Perm added' := by
  obtain ⟨providers, gateways, hproviders, hgateways, hone, rfl, hfindings⟩ :=
    accept_ok_iff.1 haccept
  obtain ⟨providers', hproviders', hproviding⟩ := h.declares hproviders
  obtain ⟨gateways', hgateways', hserving⟩ := h.declares hgateways
  obtain ⟨final, hfinal, hfinally⟩ := accept_of_declares generator report hproviders' hgateways'
    (hserving.length_eq ▸ hone)
  exact ⟨final, _, _, _, hfinal, acceptedOf_alike _ hproviding hserving hone, hfindings, hfinally,
    reported_perm _ h hproviding hserving⟩

end Generator

end Bindery
