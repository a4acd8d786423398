import Bindery.Proofs.Holdings
import Bindery.Proofs.Round.History
import Bindery.Proofs.Round.Reinstallation
import Bindery.Proofs.Round.Reordering
import Mathlib.Data.List.Sort
import Mathlib.Data.String.Basic
/-!
# What is set up from a manifest in another order

`generate_reordered`: a round is stopped for a manifest exactly if it is stopped for the same one in
another order, and where no key is used twice, the registries that are set up are the same. The
order decides only which of several declarations of a key comes last.
-/

namespace Bindery

open Source (Path)

namespace Generator

variable {generator : Generator} {manifest other : Manifest} {report report' : Report}

/-! ## Statements -/

/-- A fragment is the statement of a declaration. -/
def IsWritten (runtime : Path) (declaration : Declaration) (fragment : Fragment) : Prop :=
  declaration.fragment runtime = .ok fragment

theorem fragments_unique {runtime : Path} {declarations : List Declaration}
    {written written' : List Fragment} (h : List.Forall₂ (IsWritten runtime) declarations written)
    (h' : List.Forall₂ (IsWritten runtime) declarations written') : written = written' := by
  refine List.right_unique_forall₂' ?_ h h'
  intro declaration fragment other hfragment hother
  exact Except.ok.inj (hfragment.symm.trans hother)

/-- What can be written is written, since there is one gateway at most. -/
theorem assemble_of_fragments {accepted : Accepted} {defining intercepting : List Fragment}
    (hdefining : List.Forall₂ (IsWritten generator.runtime) accepted.providers defining)
    (hintercepting : List.Forall₂ (IsWritten generator.runtime) accepted.gateway.toList
      intercepting) :
    ∃ artifacts, generator.assemble accepted = .ok artifacts := by
  have hone : ¬intercepting.length > 1 := by
    rw [← hintercepting.length_eq]
    cases accepted.gateway <;> simp
  rw [assemble, fragments_eq_of_ok hdefining, fragments_eq_of_ok hintercepting]
  simp only [Target.emit, if_neg hone]
  exact ⟨_, rfl⟩

theorem forall₂_toList {α β : Type} {R : α → β → Prop} {first : Option α} {second : Option β}
    (h : Option.Rel R first second) : List.Forall₂ R first.toList second.toList := by
  cases h with
  | none => exact .nil
  | some hab => exact .cons hab .nil

/-- The statements for declarations that are alike are the same. -/
theorem fragments_reordered {runtime : Path} {accepted accepted' : Accepted}
    (h : accepted.Alike accepted') {defining intercepting : List Fragment}
    (hdefining : List.Forall₂ (IsWritten runtime) accepted.providers defining)
    (hintercepting : List.Forall₂ (IsWritten runtime) accepted.gateway.toList intercepting) :
    ∃ defining', defining.Perm defining' ∧
      List.Forall₂ (IsWritten runtime) accepted'.providers defining' ∧
      List.Forall₂ (IsWritten runtime) accepted'.gateway.toList intercepting := by
  have hsame : ∀ (declaration other : Declaration) fragment, declaration.Alike other →
      IsWritten runtime declaration fragment → IsWritten runtime other fragment :=
    fun _ _ _ halike hwritten => (halike.fragment runtime).symm.trans hwritten
  obtain ⟨defining', hdefining', hperm⟩ := h.providers.transfer hsame hdefining
  exact ⟨defining', hperm, hdefining',
    forall₂_transfer (forall₂_toList h.gateway) hintercepting hsame⟩

/-- What is generated from a manifest is generated from it in another order. -/
theorem exists_generated (h : manifest.Reorders other) {artifacts : List Artifact}
    (hgenerate : generator.generate manifest report = (report', .ok artifacts)) :
    ∃ final artifacts', generator.generate other report = (final, .ok artifacts') := by
  obtain ⟨accepted, defining, intercepting, haccept, hdefining, hintercepting, -⟩ :=
    generate_ok hgenerate
  obtain ⟨final, accepted', -, -, haccept', halike, -⟩ := accept_reordered h haccept
  obtain ⟨defining', -, hdefining', hintercepting'⟩ :=
    fragments_reordered halike hdefining hintercepting
  obtain ⟨artifacts', hassemble⟩ := assemble_of_fragments hdefining' hintercepting'
  refine ⟨final, artifacts', ?_⟩
  rw [generate, haccept']
  exact congrArg (Prod.mk final) hassemble

theorem aborts_iff :
    (∃ causes, (generator.generate manifest report).2 = .error (.aborted causes)) ↔
      ∀ final artifacts, generator.generate manifest report ≠ (final, .ok artifacts) := by
  rcases hgenerate : generator.generate manifest report with ⟨final, error | artifacts⟩
  · obtain ⟨causes, rfl⟩ := generate_error hgenerate
    exact ⟨fun _ _ _ h => (nomatch (Prod.mk.inj h).2), fun _ => ⟨causes, rfl⟩⟩
  · exact ⟨fun ⟨_, h⟩ => (nomatch h), fun h => absurd rfl (h final artifacts)⟩

end Generator

/-! ## Registries -/

theorem length_filter_le_one {α κ : Type} [DecidableEq κ] {items : List α} {key : α → κ}
    (h : (items.map key).Nodup) (wanted : κ) :
    (items.filter (key · = wanted)).length ≤ 1 := by
  have hcount := List.nodup_iff_count_le_one.1 h wanted
  rw [List.count, List.countP_map, List.countP_eq_length_filter] at hcount
  exact hcount

theorem mapM_some_iff {α β : Type} {f : α → Option β} {values : List α} {results : List β} :
    values.mapM f = some results ↔
      List.Forall₂ (fun value result => f value = some result) values results := by
  induction values generalizing results with
  | nil => exact ⟨fun h => Option.some.inj h ▸ .nil, fun h => by cases h; rfl⟩
  | cons value rest ih =>
    rw [List.mapM_cons]
    constructor
    · intro h
      obtain ⟨result, hvalue, h⟩ := Option.bind_eq_some_iff.1 h
      obtain ⟨more, hrest, h⟩ := Option.bind_eq_some_iff.1 h
      obtain rfl := Option.some.inj h
      exact .cons hvalue (ih.1 hrest)
    · intro h
      obtain ⟨result, more, hvalue, hrest, rfl⟩ := List.forall₂_cons_left_iff.1 h
      rw [hvalue, ih.2 hrest]
      rfl

namespace Bindings

/-- Without statements there is no unit, but then there are no definitions either. -/
theorem getD_definitions {fragments : List Fragment} {definitions : List (String × Expression)}
    (h : fragments.mapM Fragment.definition? = some definitions) :
    (if fragments.isEmpty then none else some definitions).getD [] = definitions := by
  cases fragments with
  | nil => exact Option.some.inj h
  | cons => rfl

/-- The bindings of statements in another order define the same in another order. -/
theorem ofFragments?_perm {defining defining' intercepting : List Fragment}
    {bindings bindings' : Bindings Expression} (hperm : defining.Perm defining')
    (h : ofFragments? defining intercepting = some bindings)
    (h' : ofFragments? defining' intercepting = some bindings') :
    (bindings.providers.getD []).Perm (bindings'.providers.getD []) ∧
      bindings.interceptor = bindings'.interceptor := by
  obtain ⟨definitions, hdefinitions, h⟩ := Option.bind_eq_some_iff.1 h
  obtain ⟨interceptors, hinterceptors, h⟩ := Option.bind_eq_some_iff.1 h
  obtain rfl := Option.some.inj h
  obtain ⟨definitions', hdefinitions', h'⟩ := Option.bind_eq_some_iff.1 h'
  obtain ⟨interceptors', hinterceptors', h'⟩ := Option.bind_eq_some_iff.1 h'
  obtain rfl := Option.some.inj h'
  rw [hinterceptors] at hinterceptors'
  refine ⟨?_, congrArg List.head? (Option.some.inj hinterceptors')⟩
  rw [getD_definitions hdefinitions, getD_definitions hdefinitions']
  obtain ⟨middle, hmiddle, hordered⟩ :=
    List.perm_comp_forall₂ hperm.symm (mapM_some_iff.1 hdefinitions)
  rw [mapM_some_iff.2 hmiddle] at hdefinitions'
  obtain rfl := Option.some.inj hdefinitions'
  exact hordered.symm

variable {δ : Type} {bindings bindings' : Bindings δ}

/-- Where no name is defined twice, the order of the definitions does not matter. -/
theorem latest?_perm (hperm : (bindings.providers.getD []).Perm (bindings'.providers.getD []))
    (hnodup : ((bindings.providers.getD []).map (·.1)).Nodup) (name : String) :
    bindings.latest? name = bindings'.latest? name := by
  rw [latest?, latest?,
    eq_of_perm_of_length_le_one (hperm.filter _) (length_filter_le_one hnodup name)]

end Bindings

namespace Registry

variable {δ : Type} {source : δ → Option Expression}

theorem wellKeyed_install {registry : Registry δ} (h : registry.WellKeyed) (bindings : Bindings δ) :
    (registry.install bindings).WellKeyed := by
  rw [WellKeyed, delegates_install]
  generalize bindings.providers.getD [] = definitions
  induction definitions generalizing registry with
  | nil => exact h
  | cons definition rest ih =>
    have hdefine : (registry.define definition.1 definition.2).WellKeyed :=
      Keyed.nodup_keys_insert h definition.1 definition.2
    exact ih hdefine

theorem names_eq {first second : Registry δ} (h : first.WellKeyed) (h' : second.WellKeyed)
    (hsame : ∀ name, first.contains name = second.contains name) : first.names = second.names := by
  have hperm : (Keyed.keys first.delegates).Perm (Keyed.keys second.delegates) := by
    rw [List.perm_ext_iff_of_nodup h h']
    intro name
    rw [← Keyed.find?_isSome_iff, ← Keyed.find?_isSome_iff]
    exact Bool.eq_iff_iff.1 (hsame name)
  have hordered : ∀ keys : List String,
      (keys.mergeSort fun first second => first ≤ second).Pairwise (· ≤ ·) :=
    List.pairwise_mergeSort' _
  refine List.Perm.eq_of_pairwise' (hordered _) (hordered _) ?_
  exact (List.mergeSort_perm _ _).trans (hperm.trans (List.mergeSort_perm _ _).symm)

/-- What has been made of the same thing takes the same place. -/
theorem source_or {expression? : Option Expression} {made? again? before : Option δ}
    (made : Option.Rel (fun expression made => source made = some expression) expression? made?)
    (remade : Option.Rel (fun expression made => source made = some expression) expression?
      again?) :
    (again?.or before).map source = (made?.or before).map source := by
  cases made with
  | none =>
    cases remade
    rfl
  | some hmade =>
    cases remade with
    | some hremade => exact congrArg some (hremade.trans hmade.symm)

/-- Installing delegates in another order makes the same registry, where no name is defined twice,
up to the delegates being made anew. -/
theorem alike_install_perm {bindings bindings' : Bindings Expression} {first second : Bindings δ}
    (hperm : (bindings.providers.getD []).Perm (bindings'.providers.getD []))
    (hnodup : ((bindings.providers.getD []).map (·.1)).Nodup)
    (hinterceptor : bindings.interceptor = bindings'.interceptor)
    (made : bindings.MadeInto source first) (remade : bindings'.MadeInto source second)
    {registry : Registry δ} (h : registry.WellKeyed) :
    Alike source (registry.install first) (registry.install second) := by
  have hlatest : ∀ name, Option.Rel (fun expression made => source made = some expression)
      (bindings.latest? name) (second.latest? name) := by
    intro name
    rw [Bindings.latest?_perm hperm hnodup]
    exact remade.latest? name
  refine ⟨names_eq (wellKeyed_install h _) (wellKeyed_install h _) ?_, ?_, ?_⟩
  · intro name
    rw [contains, contains, get?_install_eq, get?_install_eq, Option.isSome_or, Option.isSome_or,
      ← isSome_of_rel (hlatest name), isSome_of_rel (made.latest? name)]
  · intro name
    rw [get?_install_eq, get?_install_eq]
    exact source_or (made.latest? name) (hlatest name)
  · rw [interceptor_install, interceptor_install]
    exact source_or made.interceptor (hinterceptor ▸ remade.interceptor)

end Registry

/-! ## The whole round -/

/-- Two rounds set up the same registry, whatever registry it was before and however delegates are
made: the same names lead to delegates that are made in the same way, of declarations that are
alike. -/
structure InstallsAlike (runtime : Path) (manifest other : Manifest) (accepted accepted' : Accepted)
    (bindings bindings' : Bindings Expression) : Prop where
  latest : ∀ name, Option.Rel Declaration.Alike
    (accepted.providers.filter (·.key? = some name)).getLast?
    (accepted'.providers.filter (·.key? = some name)).getLast?
  registries : ∀ (δ : Type) (source : δ → Option Expression) (registry : Registry δ)
    (first second : Bindings δ), registry.WellKeyed →
    bindings.MadeInto source first → bindings'.MadeInto source second →
    Registry.Alike source (registry.install first) (registry.install second) ∧
    accepted.Installed manifest runtime source registry (registry.install first) ∧
    accepted'.Installed other runtime source registry (registry.install second)

theorem latest_alike {accepted accepted' : Accepted} (h : accepted.Alike accepted')
    (hkeys : (accepted.providers.map (·.key?)).Nodup) (name : String) :
    Option.Rel Declaration.Alike (accepted.providers.filter (·.key? = some name)).getLast?
      (accepted'.providers.filter (·.key? = some name)).getLast? := by
  have hfiltered : UpToOrder Declaration.Alike (accepted.providers.filter (·.key? = some name))
      (accepted'.providers.filter (·.key? = some name)) := by
    refine h.providers.filter ?_
    intro declaration other halike
    rw [halike.key?]
  exact forall₂_getLast? (hfiltered.forall₂ (length_filter_le_one hkeys (some name)))

/-- The names that are defined are the keys of the declarations. -/
theorem nodup_of_defines {manifest : Manifest} {runtime : Path} {declarations : List Declaration}
    {definitions : List (String × Expression)}
    (h : List.Forall₂ (manifest.Defines runtime) declarations definitions)
    (hkeys : (declarations.map (·.key?)).Nodup) : (definitions.map (·.1)).Nodup := by
  have hsame : declarations.map (·.key?) = (definitions.map (·.1)).map some := by
    rw [List.map_map, ← List.forall₂_eq_eq_eq, List.forall₂_map_left_iff,
      List.forall₂_map_right_iff]
    exact h.imp fun _ _ hdefines => hdefines.1
  rw [hsame] at hkeys
  exact hkeys.of_map _

namespace Generator

/-- A round does not depend on the order of a manifest but for keys that are used twice. It is
stopped for a manifest exactly if it is stopped for the same one in another order. Otherwise it
accepts the same and reports the same, both up to order, and writes the same statements up to order;
where no key is used twice, these set up the same registry. -/
theorem generate_reordered (generator : Generator) {manifest other : Manifest}
    (h : manifest.Reorders other) (report : Report) :
    ((∃ causes, (generator.generate manifest report).2 = .error (.aborted causes)) ↔
      ∃ causes, (generator.generate other report).2 = .error (.aborted causes)) ∧
    ∀ final final' artifacts artifacts',
      generator.generate manifest report = (final, .ok artifacts) →
      generator.generate other report = (final', .ok artifacts') →
      ∃ accepted accepted' added added' defining defining' intercepting bindings bindings',
        generator.accept manifest report = (final, .ok accepted) ∧
        generator.accept other report = (final', .ok accepted') ∧
        accepted.Alike accepted' ∧
        final.findings = report.findings ++ added ∧
        final'.findings = report.findings ++ added' ∧
        added.Perm added' ∧
        generator.target.emit defining intercepting = .ok artifacts ∧
        generator.target.emit defining' intercepting = .ok artifacts' ∧
        defining.Perm defining' ∧
        Bindings.ofFragments? defining intercepting = some bindings ∧
        Bindings.ofFragments? defining' intercepting = some bindings' ∧
        ((accepted.providers.map (·.key?)).Nodup →
          InstallsAlike generator.runtime manifest other accepted accepted' bindings bindings') := by
  constructor
  · rw [aborts_iff, aborts_iff]
    constructor
    · intro hnone final artifacts hgenerate
      obtain ⟨final', artifacts', hgenerated⟩ := exists_generated h.symm hgenerate
      exact hnone final' artifacts' hgenerated
    · intro hnone final artifacts hgenerate
      obtain ⟨final', artifacts', hgenerated⟩ := exists_generated h hgenerate
      exact hnone final' artifacts' hgenerated
  · intro final final' artifacts artifacts' hgenerate hgenerate'
    obtain ⟨accepted, defining, intercepting, haccept, hemit, hdefining, hintercepting⟩ :=
      generate_writes hgenerate
    obtain ⟨accepted', defining', intercepting', haccept', hemit', hdefining', hintercepting'⟩ :=
      generate_writes hgenerate'
    obtain ⟨_, _, added, added', hother, halike, hadded, hadded', hreported⟩ :=
      accept_reordered h haccept
    rw [haccept'] at hother
    obtain ⟨rfl, hsame⟩ := Prod.mk.inj hother
    obtain rfl := Except.ok.inj hsame
    obtain ⟨_, hperm, hwritten, hwritten'⟩ := fragments_reordered halike
      (hdefining.imp fun _ _ hwrites => hwrites.1) (hintercepting.imp fun _ _ hwrites => hwrites.1)
    obtain rfl := fragments_unique hwritten (hdefining'.imp fun _ _ hwrites => hwrites.1)
    obtain rfl := fragments_unique hwritten' (hintercepting'.imp fun _ _ hwrites => hwrites.1)
    obtain ⟨bindings, hread, hdefines, hinstance⟩ :=
      bindings_of_writes (accept_discovered haccept) hdefining hintercepting
    obtain ⟨bindings', hread', hdefines', hinstance'⟩ :=
      bindings_of_writes (accept_discovered haccept') hdefining' hintercepting'
    obtain ⟨hordered, hinterceptor⟩ := Bindings.ofFragments?_perm hperm hread hread'
    refine ⟨accepted, accepted', added, added', defining, _, intercepting, bindings, bindings',
      haccept, haccept', halike, hadded, hadded', hreported, hemit, hemit', hperm, hread, hread',
      fun hkeys => ⟨latest_alike halike hkeys, ?_⟩⟩
    intro δ source registry first second hregistry made remade
    exact ⟨Registry.alike_install_perm hordered (nodup_of_defines hdefines hkeys) hinterceptor made
      remade hregistry, installed_install hdefines hinstance made registry,
      installed_install hdefines' hinstance' remade registry⟩

/-- Two types, one of them reached through an alias and with an implementation that no rule asks
for, a tag that names no alias, and an interceptor. -/
def keyedManifest : Manifest where
  entries := [
    ⟨"crate::Ping", "Ping", none, .type .public true false, [.provider "ping", .tagged "Lost"],
      false, ⟨"lib.rs", 1⟩⟩,
    ⟨"crate::Pongs", "Pongs", none, .type .public true false, [.provider "pong"], true,
      ⟨"lib.rs", 2⟩⟩,
    ⟨"crate::Pong", "Pong", none, .type .private false true, [.tagged "Pongs"], false,
      ⟨"lib.rs", 3⟩⟩,
    ⟨"crate::rest", "rest", none, .function ⟨.public, false, ["Option<&Context>"], none⟩,
      [.gateway], false, ⟨"lib.rs", 4⟩⟩]
  implementations := [⟨"Delegate", "Ping"⟩, ⟨"Delegate", "Pong"⟩, ⟨"Debug", "Pong"⟩]

theorem exists_of_isOk {generator : Generator} {manifest : Manifest} {report : Report}
    (h : (generator.generate manifest report).2.isOk = true) :
    ∃ final artifacts, generator.generate manifest report = (final, .ok artifacts) := by
  rcases hgenerate : generator.generate manifest report with ⟨final, error | artifacts⟩ <;>
    rw [hgenerate] at h
  · cases h
  · exact ⟨final, artifacts, rfl⟩

/-- The same from the last to the first, so that the alias comes after what is tagged with it. -/
def reversedManifest : Manifest :=
  ⟨keyedManifest.entries.reverse, keyedManifest.implementations.reverse⟩

/-- What is accepted and reported comes up from the last to the first, the traits of a type in
another order, and the names lead to the same. -/
theorem reversed_generates :
    ∃ final final' accepted accepted' bindings bindings',
      sample.accept keyedManifest .empty = (final, .ok accepted) ∧
      sample.accept reversedManifest .empty = (final', .ok accepted') ∧
      accepted.providers.map (·.path) = ["crate::Ping", "crate::Pong"] ∧
      accepted'.providers.map (·.path) = ["crate::Pong", "crate::Ping"] ∧
      accepted.providers ≠ accepted'.providers.reverse ∧ accepted.Alike accepted' ∧
      final.findings.length = 2 ∧ final.findings.Perm final'.findings ∧
      Registry.Alike (fun delegate => some delegate.2)
        (usedRegistry.install (numbered 1 bindings))
        (usedRegistry.install (numbered 2 bindings')) := by
  have hgenerate : ∃ final artifacts,
      sample.generate keyedManifest .empty = (final, .ok artifacts) :=
    exists_of_isOk (by decide +kernel)
  have hgenerate' : ∃ final artifacts,
      sample.generate reversedManifest .empty = (final, .ok artifacts) :=
    exists_of_isOk (by decide +kernel)
  obtain ⟨final, artifacts, hgenerate⟩ := hgenerate
  obtain ⟨final', artifacts', hgenerate'⟩ := hgenerate'
  have hreorders : keyedManifest.Reorders reversedManifest :=
    ⟨(List.reverse_perm _).symm, (List.reverse_perm _).symm⟩
  obtain ⟨accepted, accepted', added, added', -, -, -, bindings, bindings', haccept, haccept',
    halike, hadded, hadded', hreported, -, -, -, -, -, hinstalls⟩ :=
    (generate_reordered sample hreorders .empty).2 _ _ _ _ hgenerate hgenerate'
  have hgiven : accepted.providers.map (·.path) = ["crate::Ping", "crate::Pong"] ∧
      accepted.providers.map (·.key?) = [some "ping", some "pong"] ∧
      final.findings.length = 2 := by
    obtain ⟨rfl, hok⟩ := Prod.mk.inj haccept
    obtain rfl := Except.ok.inj hok
    decide
  have hgiven' : accepted'.providers.map (·.path) = ["crate::Pong", "crate::Ping"] := by
    obtain rfl := Except.ok.inj (Prod.mk.inj haccept').2
    decide
  have hdiffer : accepted.providers ≠ accepted'.providers.reverse := by
    obtain rfl := Except.ok.inj (Prod.mk.inj haccept').2
    obtain rfl := Except.ok.inj (Prod.mk.inj haccept).2
    decide
  obtain ⟨hpaths, hkeys, hlength⟩ := hgiven
  obtain rfl : final.findings = added := hadded
  obtain rfl : final'.findings = added' := hadded'
  have hnodup : (accepted.providers.map (·.key?)).Nodup := by
    rw [hkeys]
    decide
  have hused : usedRegistry.WellKeyed := by
    rw [Registry.WellKeyed]
    decide
  refine ⟨final, final', accepted, accepted', bindings, bindings', haccept, haccept', hpaths,
    hgiven', hdiffer, halike, hlength, hreported, ?_⟩
  exact ((hinstalls hnodup).registries _ _ usedRegistry _ _ hused
    (madeInto_numbered 1 bindings) (madeInto_numbered 2 bindings')).1

end Generator

end Bindery
