import Bindery.Proofs.Round.Emission
import Bindery.Proofs.Round.Statements
/-!
# The registry that generated code sets up

`generated_registry` follows a round from the manifest to a registry: once its statements have run
on an empty registry, each name leads to the last accepted declaration of that key, in the order of
discovery, and the accepted gateway is the interceptor.
-/

namespace Bindery

open Source (Path)

/-! ## Lists that agree one by one -/

section
variable {α β : Type} {R : α → β → Prop}

theorem forall₂_getLast? {first : List α} {second : List β} (h : List.Forall₂ R first second) :
    Option.Rel R first.getLast? second.getLast? := by
  -- The last of a list is the first of it backwards, which the cases of the relation show.
  have hreverse := List.forall₂_reverse_iff.2 h
  rw [List.getLast?_eq_head?_reverse, List.getLast?_eq_head?_reverse]
  generalize first.reverse = first, second.reverse = second at hreverse
  cases hreverse with
  | nil => exact .none
  | cons hlast _ => exact .some hlast

/-- What belongs to some of the second list is in the same order in the first. -/
theorem forall₂_filter_right {first : List α} {second : List β} (h : List.Forall₂ R first second)
    (keep : β → Bool) :
    ∃ kept, kept.Sublist first ∧ List.Forall₂ R kept (second.filter keep) := by
  induction h with
  | nil => exact ⟨[], .slnil, .nil⟩
  | @cons a b first second hhead _ ih =>
    obtain ⟨kept, hsublist, hkept⟩ := ih
    by_cases hkeep : keep b
    · refine ⟨a :: kept, hsublist.cons_cons a, ?_⟩
      rw [List.filter_cons_of_pos hkeep]
      exact .cons hhead hkept
    · refine ⟨kept, hsublist.cons a, ?_⟩
      rw [List.filter_cons_of_neg hkeep]
      exact hkept

end

/-! ## What the statements of declarations do -/

/-- A definition gives the key of a declaration to the delegate of the declaration. -/
def Manifest.Defines (manifest : Manifest) (runtime : Path) (declaration : Declaration)
    (definition : String × Expression) : Prop :=
  declaration.key? = some definition.1 ∧ manifest.Instance runtime declaration definition.2

theorem mark_of_declared {manifest : Manifest} {role : Role} {origin : Origin}
    {declaration : Declaration} (h : manifest.DeclaredFrom role origin declaration) :
    declaration.carrier.mark.role = role := by
  obtain ⟨target, carrier, hreached, -, hdeclare⟩ := h
  rw [(parts_of_declare hdeclare).1]
  exact Manifest.role_of_reachedFrom hreached

theorem Mark.eq_provider {mark : Mark} (h : mark.role = .provider) :
    ∃ key, mark = .provider key := by
  cases mark with
  | provider key => exact ⟨key, rfl⟩
  | gateway => cases h

theorem Mark.eq_gateway {mark : Mark} (h : mark.role = .gateway) : mark = .gateway := by
  cases mark with
  | provider => cases h
  | gateway => rfl

/-- The statements for providers are definitions of their keys. -/
theorem definitions_of_writes {manifest : Manifest} {runtime : Path}
    {declarations : List Declaration} {fragments : List Fragment}
    (writes : List.Forall₂ (manifest.Writes runtime) declarations fragments)
    (marked : ∀ declaration ∈ declarations, declaration.carrier.mark.role = .provider) :
    ∃ definitions, fragments.mapM Fragment.definition? = some definitions ∧
      List.Forall₂ (manifest.Defines runtime) declarations definitions := by
  induction writes with
  | nil => exact ⟨[], rfl, .nil⟩
  | @cons declaration fragment declarations fragments hwrites _ ih =>
    obtain ⟨definitions, hread, hdefinitions⟩ := ih fun other hother =>
      marked other (List.mem_cons_of_mem _ hother)
    obtain ⟨key, hkey⟩ := Mark.eq_provider (marked declaration List.mem_cons_self)
    obtain ⟨-, expression, hinstance, rfl⟩ := hwrites
    have hfirst : Fragment.definition? ⟨declaration.carrier.mark, declaration.path,
        declaration.carrier.mark.tokens expression⟩ = some (key, expression) := by
      simp only [Fragment.definition?, Statement.ofTokens?_tokens, hkey, Statement.of]
    have hdeclared : declaration.key? = some key := by
      rw [Declaration.key?, Carrier.key?, hkey]
      rfl
    refine ⟨(key, expression) :: definitions, ?_, .cons ⟨hdeclared, hinstance⟩ hdefinitions⟩
    rw [List.mapM_cons, hfirst, hread]
    rfl

/-- The statements for gateways set the interceptor. -/
theorem interceptors_of_writes {manifest : Manifest} {runtime : Path}
    {declarations : List Declaration} {fragments : List Fragment}
    (writes : List.Forall₂ (manifest.Writes runtime) declarations fragments)
    (marked : ∀ declaration ∈ declarations, declaration.carrier.mark.role = .gateway) :
    ∃ delegates, fragments.mapM Fragment.interceptor? = some delegates ∧
      List.Forall₂ (manifest.Instance runtime) declarations delegates := by
  induction writes with
  | nil => exact ⟨[], rfl, .nil⟩
  | @cons declaration fragment declarations fragments hwrites _ ih =>
    obtain ⟨delegates, hread, hdelegates⟩ := ih fun other hother =>
      marked other (List.mem_cons_of_mem _ hother)
    have hgateway := Mark.eq_gateway (marked declaration List.mem_cons_self)
    obtain ⟨-, expression, hinstance, rfl⟩ := hwrites
    have hfirst : Fragment.interceptor? ⟨declaration.carrier.mark, declaration.path,
        declaration.carrier.mark.tokens expression⟩ = some expression := by
      simp only [Fragment.interceptor?, Statement.ofTokens?_tokens, hgateway, Statement.of]
    refine ⟨expression :: delegates, ?_, .cons hinstance hdelegates⟩
    rw [List.mapM_cons, hfirst, hread]
    rfl

/-! ## The registry -/

/-- A registry of expressions agrees with what was accepted: a name is bound if it is the key of a
provider, the last provider of a key is what the name leads to, and the gateway is the interceptor.
-/
structure Agrees (manifest : Manifest) (runtime : Path) (accepted : Accepted)
    (registry : Registry Expression) : Prop where
  bound : ∀ name, registry.contains name = true ↔
    ∃ declaration ∈ accepted.providers, declaration.key? = some name
  latest : ∀ name, Option.Rel (manifest.Instance runtime)
    (accepted.providers.filter (·.key? = some name)).getLast? (registry.get? name)
  intercepted : Option.Rel (manifest.Instance runtime) accepted.gateway registry.interceptor

theorem isSome_of_rel {α β : Type} {R : α → β → Prop} {first : Option α} {second : Option β}
    (h : Option.Rel R first second) : first.isSome = second.isSome := by
  cases h with
  | none => rfl
  | some => rfl

/-- What is registered of declarations makes a registry agree with them. -/
theorem agrees_install {manifest : Manifest} {runtime : Path} {accepted : Accepted}
    {bindings : Bindings Expression}
    (defined : List.Forall₂ (manifest.Defines runtime) accepted.providers
      (bindings.providers.getD []))
    (intercepted : Option.Rel (manifest.Instance runtime) accepted.gateway bindings.interceptor) :
    Agrees manifest runtime accepted (Registry.empty.install bindings) := by
  have latest : ∀ name, Option.Rel (manifest.Instance runtime)
      (accepted.providers.filter (·.key? = some name)).getLast?
      ((Registry.empty.install bindings).get? name) := by
    intro name
    rw [Registry.get?_install, Registry.get?_defineAll, Registry.get?_empty, Option.or_none]
    -- A declaration and what is defined for it belong to the same name.
    have hkept : List.Forall₂ (manifest.Defines runtime)
        (accepted.providers.filter (·.key? = some name))
        ((bindings.providers.getD []).filter (·.1 = name)) := by
      refine List.rel_filter ?_ defined
      rintro declaration definition ⟨hkey, -⟩
      simp [hkey]
    have hlast := forall₂_getLast? hkept
    generalize (accepted.providers.filter (·.key? = some name)).getLast? = declaration?,
      ((bindings.providers.getD []).filter (·.1 = name)).getLast? = definition? at hlast
    cases hlast with
    | none => exact .none
    | some hdefines => exact .some hdefines.2
  refine ⟨fun name => ?_, latest, ?_⟩
  · rw [Registry.contains, ← isSome_of_rel (latest name), List.getLast?_isSome, ne_eq,
      List.filter_eq_nil_iff]
    simp
  · have hempty : (Registry.empty : Registry Expression).interceptor = none := rfl
    rw [Registry.interceptor_install, hempty, Option.or_none]
    exact intercepted

/-- What is accepted is in the order of discovery. -/
def Accepted.Discovered (accepted : Accepted) (manifest : Manifest) : Prop :=
  (∃ origins : List Origin, origins.Pairwise Origin.Before ∧
    List.Forall₂ (manifest.DeclaredFrom .provider) origins accepted.providers) ∧
  ∀ gateway ∈ accepted.gateway, ∃ origin, manifest.DeclaredFrom .gateway origin gateway

namespace Generator

theorem accept_discovered {generator : Generator} {manifest : Manifest} {report report' : Report}
    {accepted : Accepted} (h : generator.accept manifest report = (report', .ok accepted)) :
    accepted.Discovered manifest := by
  obtain ⟨providers, gateways, -, hproviders, hgateways, -, haccepted, hgateway, -⟩ := accept_ok h
  obtain ⟨origins, hsorted, hdeclared, -⟩ := Manifest.discover_origins (Prod.ext rfl hproviders)
  obtain ⟨origins', -, hdeclared', -⟩ := Manifest.discover_origins (Prod.ext rfl hgateways)
  constructor
  · obtain ⟨kept, hsublist, hkept⟩ := forall₂_filter_right hdeclared (generator.rules.Satisfies ·)
    rw [haccepted]
    exact ⟨kept, hsorted.sublist hsublist, hkept⟩
  · intro gateway hmem
    have hdiscovered : gateway ∈ gateways := by
      have hmem : gateway ∈ accepted.gateway.toList := Option.mem_toList.2 hmem
      rw [hgateway] at hmem
      exact List.mem_of_mem_filter hmem
    obtain ⟨origin, -, horigin⟩ := Manifest.exists_origin hdeclared' hdiscovered
    exact ⟨origin, horigin⟩

/-- The statements of what is accepted are those of bindings. -/
theorem bindings_of_writes {manifest : Manifest} {runtime : Path} {accepted : Accepted}
    {defining intercepting : List Fragment} (discovered : accepted.Discovered manifest)
    (defines : List.Forall₂ (manifest.Writes runtime) accepted.providers defining)
    (intercepts : List.Forall₂ (manifest.Writes runtime) accepted.gateway.toList intercepting) :
    ∃ bindings, Bindings.ofFragments? defining intercepting = some bindings ∧
      List.Forall₂ (manifest.Defines runtime) accepted.providers (bindings.providers.getD []) ∧
      Option.Rel (manifest.Instance runtime) accepted.gateway bindings.interceptor := by
  obtain ⟨⟨origins, -, horigins⟩, hgateway⟩ := discovered
  obtain ⟨definitions, hdefinitions, hdefines⟩ := definitions_of_writes defines fun _ hmem => by
    obtain ⟨origin, -, horigin⟩ := Manifest.exists_origin horigins hmem
    exact mark_of_declared horigin
  obtain ⟨delegates, hdelegates, hinstances⟩ := interceptors_of_writes intercepts fun _ hmem => by
    obtain ⟨origin, horigin⟩ := hgateway _ (Option.mem_toList.1 hmem)
    exact mark_of_declared horigin
  refine ⟨⟨if defining.isEmpty then none else some definitions, delegates.head?⟩, ?_, ?_, ?_⟩
  · rw [Bindings.ofFragments?, hdefinitions, hdelegates]
    rfl
  -- Without statements there is no unit, but then there are no declarations either.
  · cases defining with
    | nil =>
      rw [List.forall₂_nil_right_iff.1 defines]
      exact .nil
    | cons => exact hdefines
  · cases hgiven : accepted.gateway <;> rw [hgiven] at hinstances
    · cases hinstances with
      | nil => exact .none
    · cases hinstances with
      | cons hinstance _ => exact .some hinstance

end Generator

end Bindery
