import Bindery.Proofs.Round.Installation
/-!
# Installing generated bindings again

`install_again`: a registry of any kind on which the bindings of a round are installed twice has the
same names as after the first time, and each leads to a delegate that is made in the same way. Only
the names of what the round accepted have changed at all, and the interceptor only if there is a
unit for it.
-/

namespace Bindery

open Source (Path)

/-! ## Names -/

theorem Keyed.keys_insert_of_mem {κ α : Type} [DecidableEq κ] {entries : List (κ × α)} {key : κ}
    (h : key ∈ keys entries) (value : α) : keys (insert entries key value) = keys entries := by
  induction entries with
  | nil => cases h
  | cons entry rest ih =>
    by_cases hkey : entry.1 = key
    · simp [insert, keys, hkey]
    · have hrest : key ∈ keys rest := (List.mem_cons.1 h).resolve_left (Ne.symm hkey)
      rw [insert, if_neg hkey]
      exact congrArg (entry.1 :: ·) (ih hrest)

namespace Registry

variable {δ : Type} (registry : Registry δ)

/-- Giving names delegates that have some already leaves the names as they are. -/
theorem keys_defineAll_of_contains {definitions : List (String × δ)}
    (h : ∀ definition ∈ definitions, registry.contains definition.1 = true) :
    Keyed.keys (registry.defineAll definitions).delegates = Keyed.keys registry.delegates := by
  induction definitions generalizing registry with
  | nil => rfl
  | cons definition rest ih =>
    have hmem : definition.1 ∈ Keyed.keys registry.delegates :=
      (Keyed.find?_isSome_iff _ _).1 (h definition List.mem_cons_self)
    have hrest : ∀ other ∈ rest,
        (registry.define definition.1 definition.2).contains other.1 = true := by
      intro other hother
      have hother := h other (List.mem_cons_of_mem _ hother)
      rw [contains] at hother ⊢
      rw [get?_define]
      split
      · rfl
      · exact hother
    have hdefine : Keyed.keys (registry.define definition.1 definition.2).delegates =
        Keyed.keys registry.delegates := Keyed.keys_insert_of_mem hmem definition.2
    rw [← hdefine, ← ih _ hrest]
    rfl

@[simp]
theorem dropped_defineAll (definitions : List (String × δ)) :
    (registry.defineAll definitions).dropped = registry.dropped := by
  induction definitions generalizing registry with
  | nil => rfl
  | cons definition rest ih => exact ih _

theorem dropped_install (bindings : Bindings δ) :
    (registry.install bindings).dropped = registry.dropped := by
  unfold install
  cases bindings.interceptor with
  | none => simp
  | some delegate => exact dropped_defineAll _ _

theorem delegates_install (bindings : Bindings δ) :
    (registry.install bindings).delegates =
      (registry.defineAll (bindings.providers.getD [])).delegates := by
  unfold install
  cases bindings.interceptor <;> rfl

end Registry

/-! ## Delegates that are made of expressions -/

namespace Bindings

variable {δ : Type} {source : δ → Option Expression} {bindings : Bindings Expression}
  {instances : Bindings δ}

/-- What is defined last for a name. -/
def latest? (bindings : Bindings δ) (name : String) : Option δ :=
  ((bindings.providers.getD []).filter (·.1 = name)).getLast?.map (·.2)

theorem latest?_isSome {definition : String × δ} {given : Bindings δ}
    (h : definition ∈ given.providers.getD []) : (given.latest? definition.1).isSome = true := by
  rw [latest?, Option.isSome_map, List.getLast?_isSome]
  exact List.ne_nil_of_mem (List.mem_filter.2 ⟨h, by simp⟩)

/-- Delegates that have been made of the expressions of bindings, each by itself. What a delegate
has been made of is told by `source`. -/
structure MadeInto (source : δ → Option Expression) (bindings : Bindings Expression)
    (instances : Bindings δ) : Prop where
  providers : List.Forall₂
    (fun definition made => made.1 = definition.1 ∧ source made.2 = some definition.2)
    (bindings.providers.getD []) (instances.providers.getD [])
  interceptor : Option.Rel (fun expression made => source made = some expression)
    bindings.interceptor instances.interceptor

/-- What is defined last for a name has been made of its last expression. -/
theorem MadeInto.latest? (made : bindings.MadeInto source instances) (name : String) :
    Option.Rel (fun expression made => source made = some expression)
      (bindings.latest? name) (instances.latest? name) := by
  have hkept : List.Forall₂
      (fun definition made => made.1 = definition.1 ∧ source made.2 = some definition.2)
      ((bindings.providers.getD []).filter (·.1 = name))
      ((instances.providers.getD []).filter (·.1 = name)) := by
    refine List.rel_filter ?_ made.providers
    rintro definition made ⟨hname, -⟩
    simp [hname]
  have hlast := forall₂_getLast? hkept
  rw [Bindings.latest?, Bindings.latest?]
  generalize ((bindings.providers.getD []).filter (·.1 = name)).getLast? = definition?,
    ((instances.providers.getD []).filter (·.1 = name)).getLast? = made? at hlast
  cases hlast with
  | none => exact .none
  | some hmade => exact .some hmade.2

end Bindings

namespace Registry

variable {δ : Type} {source : δ → Option Expression} {bindings : Bindings Expression}
  {instances again : Bindings δ}

/-- A name leads to what is defined last for it. Without a definition it leads where it led. -/
theorem get?_install_eq (registry : Registry δ) (given : Bindings δ) (name : String) :
    (registry.install given).get? name = (given.latest? name).or (registry.get? name) := by
  rw [get?_install, get?_defineAll, Bindings.latest?]

/-- Two registries have the same names, and what they lead to has been made in the same way. -/
structure Alike (source : δ → Option Expression) (first second : Registry δ) : Prop where
  names : second.names = first.names
  delegate : ∀ name, (second.get? name).map source = (first.get? name).map source
  interceptor : second.interceptor.map source = first.interceptor.map source

/-- What has been made of the same thing twice takes the place of itself. -/
theorem source_or_or {expression? : Option Expression} {made? again? before : Option δ}
    (made : Option.Rel (fun expression made => source made = some expression) expression? made?)
    (remade : Option.Rel (fun expression made => source made = some expression) expression?
      again?) :
    (again?.or (made?.or before)).map source = (made?.or before).map source := by
  cases made with
  | none =>
    cases remade
    rfl
  | some hmade =>
    cases remade with
    | some hremade => exact congrArg some (hremade.trans hmade.symm)

/-- Installing delegates once more that are made of the same expressions changes nothing but which
of them it is. -/
theorem alike_install (made : bindings.MadeInto source instances)
    (remade : bindings.MadeInto source again) (registry : Registry δ) :
    Alike source (registry.install instances) ((registry.install instances).install again) where
  names := by
    have hcontains : ∀ definition ∈ again.providers.getD [],
        (registry.install instances).contains definition.1 = true := by
      intro definition hmem
      have hlatest := Bindings.latest?_isSome hmem
      rw [← isSome_of_rel (remade.latest? _), isSome_of_rel (made.latest? _)] at hlatest
      rw [contains, get?_install_eq, Option.isSome_or, hlatest, Bool.true_or]
    rw [names, names, delegates_install _ again, keys_defineAll_of_contains _ hcontains]
  delegate name := by
    rw [get?_install_eq _ again, get?_install_eq]
    exact source_or_or (made.latest? name) (remade.latest? name)
  interceptor := by
    rw [interceptor_install _ again, interceptor_install]
    exact source_or_or made.interceptor remade.interceptor

end Registry

/-! ## Declarations that are installed -/

/-- A delegate has been made of an expression that makes an instance of a declaration. -/
def Manifest.Behind {δ : Type} (manifest : Manifest) (runtime : Path)
    (source : δ → Option Expression) (declaration : Declaration) (delegate : δ) : Prop :=
  ∃ expression, source delegate = some expression ∧
    manifest.Instance runtime declaration expression

/-- What becomes of a registry by installing what was accepted. -/
structure Accepted.Installed {δ : Type} (accepted : Accepted) (manifest : Manifest) (runtime : Path)
    (source : δ → Option Expression) (before after : Registry δ) : Prop where
  /-- A key leads to a delegate of the last declaration of that key. -/
  key : ∀ name, (∃ declaration ∈ accepted.providers, declaration.key? = some name) →
    ∃ declaration ∈ (accepted.providers.filter (·.key? = some name)).getLast?,
    ∃ delegate ∈ after.get? name, manifest.Behind runtime source declaration delegate
  /-- A name that is no key keeps its delegate. -/
  other : ∀ name, (∀ declaration ∈ accepted.providers, declaration.key? ≠ some name) →
    after.get? name = before.get? name
  /-- The interceptor is a delegate of the gateway. -/
  gateway : ∀ gateway ∈ accepted.gateway,
    ∃ delegate ∈ after.interceptor, manifest.Behind runtime source gateway delegate
  /-- Without a gateway the interceptor stays. -/
  noGateway : accepted.gateway = none → after.interceptor = before.interceptor
  dropped : after.dropped = before.dropped

section
variable {δ : Type} {source : δ → Option Expression} {manifest : Manifest} {runtime : Path}
  {accepted : Accepted} {bindings : Bindings Expression} {instances : Bindings δ}

theorem Accepted.Installed.trans {first second third : Registry δ}
    (h : accepted.Installed manifest runtime source first second)
    (h' : accepted.Installed manifest runtime source second third) :
    accepted.Installed manifest runtime source first third where
  key := h'.key
  other name hname := (h'.other name hname).trans (h.other name hname)
  gateway := h'.gateway
  noGateway hnone := (h'.noGateway hnone).trans (h.noGateway hnone)
  dropped := h'.dropped.trans h.dropped

/-- A delegate that is made for a declaration takes the place of an earlier one, which stays where
there is no declaration. -/
theorem behind_or {declaration? : Option Declaration} {expression? : Option Expression}
    {made? before : Option δ}
    (instanced : Option.Rel (manifest.Instance runtime) declaration? expression?)
    (made : Option.Rel (fun expression made => source made = some expression) expression? made?) :
    (∀ declaration ∈ declaration?,
      ∃ delegate ∈ made?.or before, manifest.Behind runtime source declaration delegate) ∧
    (declaration? = none → made?.or before = before) := by
  cases instanced with
  | none =>
    cases made
    exact ⟨fun _ h => (nomatch h), fun _ => rfl⟩
  | some hinstance =>
    cases made with
    | some hmade =>
      refine ⟨fun declaration h => ?_, fun h => (nomatch h)⟩
      obtain rfl := Option.some.inj h
      exact ⟨_, rfl, _, hmade, hinstance⟩

theorem installed_install
    (defined : List.Forall₂ (manifest.Defines runtime) accepted.providers
      (bindings.providers.getD []))
    (intercepted : Option.Rel (manifest.Instance runtime) accepted.gateway bindings.interceptor)
    (made : bindings.MadeInto source instances) (registry : Registry δ) :
    accepted.Installed manifest runtime source registry (registry.install instances) := by
  have hname : ∀ name,
      (∀ declaration ∈ (accepted.providers.filter (·.key? = some name)).getLast?,
        ∃ delegate ∈ (registry.install instances).get? name,
          manifest.Behind runtime source declaration delegate) ∧
      ((accepted.providers.filter (·.key? = some name)).getLast? = none →
        (registry.install instances).get? name = registry.get? name) := by
    intro name
    have hlatest := (agrees_install defined intercepted).latest name
    rw [Registry.get?_install_eq, Registry.get?_empty, Option.or_none] at hlatest
    rw [Registry.get?_install_eq]
    exact behind_or hlatest (made.latest? name)
  have hinterceptor : (∀ gateway ∈ accepted.gateway,
      ∃ delegate ∈ (registry.install instances).interceptor,
        manifest.Behind runtime source gateway delegate) ∧
      (accepted.gateway = none →
        (registry.install instances).interceptor = registry.interceptor) := by
    rw [Registry.interceptor_install]
    exact behind_or intercepted made.interceptor
  refine ⟨fun name hkey => ?_, fun name hkey => ?_, hinterceptor.1, hinterceptor.2,
    Registry.dropped_install _ _⟩
  · obtain ⟨declaration, hmem, hkey⟩ := hkey
    have hsome : (accepted.providers.filter (·.key? = some name)).getLast?.isSome = true := by
      rw [List.getLast?_isSome]
      exact List.ne_nil_of_mem (List.mem_filter.2 ⟨hmem, by simpa using hkey⟩)
    obtain ⟨last, hlast⟩ := Option.isSome_iff_exists.1 hsome
    exact ⟨last, hlast, (hname name).1 last hlast⟩
  · refine (hname name).2 ?_
    rw [List.getLast?_eq_none_iff, List.filter_eq_nil_iff]
    exact fun declaration hmem => by simpa using hkey declaration hmem

end

namespace Generator

/-- The bindings that a round writes may be installed again. Whatever a registry held before and
whatever has become of it, a second installation leaves the names and what they lead to as the first
has left them, up to the delegates being made anew; names that are no keys of the round keep their
very delegates, and so does the interceptor if the round writes no unit for it. -/
theorem install_again {generator : Generator} {manifest : Manifest} {report report' : Report}
    {artifacts : List Artifact}
    (h : generator.generate manifest report = (report', .ok artifacts)) :
    ∃ accepted defining intercepting bindings,
      generator.accept manifest report = (report', .ok accepted) ∧
      generator.target.emit defining intercepting = .ok artifacts ∧
      Bindings.ofFragments? defining intercepting = some bindings ∧
      (generator.target.unit? .gateway intercepting = none ↔ accepted.gateway = none) ∧
      ∀ (δ : Type) (source : δ → Option Expression) (registry : Registry δ)
        (first second : Bindings δ),
        bindings.MadeInto source first → bindings.MadeInto source second →
        let once := registry.install first
        let twice := once.install second
        once.Alike source twice ∧
        accepted.Installed manifest generator.runtime source registry once ∧
        accepted.Installed manifest generator.runtime source registry twice := by
  obtain ⟨accepted, defining, intercepting, haccept, hemit, hdefining, hintercepting⟩ :=
    generate_writes h
  obtain ⟨bindings, hread, hdefines, hinstance⟩ :=
    bindings_of_writes (accept_discovered haccept) hdefining hintercepting
  refine ⟨accepted, defining, intercepting, bindings, haccept, hemit, hread, ?_, ?_⟩
  · generalize accepted.gateway = gateway? at hintercepting
    cases gateway? with
    | none =>
      cases hintercepting
      exact ⟨fun _ => rfl, fun _ => rfl⟩
    | some gateway =>
      cases hintercepting
      exact ⟨fun h => (nomatch h), fun h => (nomatch h)⟩
  · intro δ source registry first second made remade
    have honce := installed_install hdefines hinstance made registry
    exact ⟨Registry.alike_install made remade registry, honce,
      honce.trans (installed_install hdefines hinstance remade _)⟩

/-- Delegates that are told apart by the number of the installation that they were made for. -/
def numbered (number : Nat) (bindings : Bindings Expression) : Bindings (Nat × Expression) where
  providers := bindings.providers.map (·.map fun (key, expression) => (key, number, expression))
  interceptor := bindings.interceptor.map (number, ·)

theorem madeInto_numbered (number : Nat) (bindings : Bindings Expression) :
    bindings.MadeInto (fun delegate => some delegate.2) (numbered number bindings) := by
  obtain ⟨providers, interceptor⟩ := bindings
  refine ⟨?_, ?_⟩
  · cases providers with
    | none => exact .nil
    | some definitions =>
      refine List.forall₂_map_right_iff.2 (List.forall₂_same.2 fun definition _ => ?_)
      exact ⟨rfl, rfl⟩
  · cases interceptor with
    | none => exact .none
    | some expression => exact .some rfl

/-- A registry with a name of its own, a delegate under a key and an interceptor. -/
def usedRegistry : Registry (Nat × Expression) :=
  ⟨[("ping", 0, []), ("own", 0, [])], some (0, []), 3⟩

/-- The name of its own keeps its delegate, the key leads to a new one, and the count stays. -/
theorem sample_install_again :
    ∃ once twice : Registry (Nat × Expression),
      twice.names = once.names ∧ twice.get? "own" = some (0, []) ∧ twice.dropped = 3 ∧
      (∃ declaration, ∃ delegate ∈ twice.get? "ping", declaration.path = "crate::Pong" ∧
        sampleManifest.Instance sample.runtime declaration delegate.2) ∧
      ∃ delegate ∈ twice.interceptor, once.interceptor.map (·.2) = some delegate.2 := by
  obtain ⟨report, artifacts, hgenerate⟩ := sample_generates
  obtain ⟨accepted, -, -, bindings, haccept, -, -, -, hinstall⟩ := install_again hgenerate
  obtain ⟨halike, -, htwice⟩ := hinstall _ _ usedRegistry _ _ (madeInto_numbered 1 bindings)
    (madeInto_numbered 2 bindings)
  have hgiven : ((accepted.providers.filter (·.key? = some "ping")).getLast?.map (·.path) =
      some "crate::Pong") ∧ (∃ declaration ∈ accepted.providers, declaration.key? = some "ping") ∧
      (∀ declaration ∈ accepted.providers, declaration.key? ≠ some "own") ∧
      accepted.gateway.isSome = true := by
    obtain rfl := Except.ok.inj (Prod.mk.inj haccept).2
    decide
  obtain ⟨hpong, hping, hown, hgateway⟩ := hgiven
  refine ⟨_, _, halike.names, htwice.other "own" hown, htwice.dropped, ?_, ?_⟩
  · obtain ⟨declaration, hlast, delegate, hdelegate, expression, hsource, hinstance⟩ :=
      htwice.key "ping" hping
    rw [Option.mem_def.1 hlast] at hpong
    obtain rfl := Option.some.inj hsource
    exact ⟨declaration, delegate, hdelegate, Option.some.inj hpong, hinstance⟩
  · obtain ⟨gateway, hgateway⟩ := Option.isSome_iff_exists.1 hgateway
    obtain ⟨delegate, hdelegate, -⟩ := htwice.gateway gateway hgateway
    refine ⟨delegate, hdelegate, ?_⟩
    have hsame := halike.interceptor
    rw [Option.mem_def.1 hdelegate] at hsame
    obtain ⟨other, hother, heq⟩ := Option.map_eq_some_iff.1 hsame.symm
    rw [hother]
    exact heq

end Generator

end Bindery
