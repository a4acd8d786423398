import Bindery.Proofs.Source.Path
import Bindery.Proofs.Survey.Signatures
/-!
# The names that lead to an entry

The path of an entry is put together from names that are read in different places: those of the
module of the file, of the inline modules, of the type that an implementation is for, and of the
item. `Visit.spells_entry` says that these names spell it, and `Visit.isPathName_of_mem_names` that
those of a type or a function may all stand in a path.
-/

namespace Bindery

open Source (Item Name Spells Ty)
open Source.Grammar (IsPathName)

/-- The names of the modules that are written inline around a site, from the outermost on. -/
def Site.inlineNames : Site → List String
  | file _ _ => []
  | inline outer name _ => outer.inlineNames ++ [name.text]

namespace Bearer

/-- The name that a bearer is declared with. -/
def name? : Bearer → Option Name
  | .item (.module _ name _) | .item (.struct _ _ name _) | .item (.enumeration _ _ name)
  | .item (.union _ _ name) | .item (.constant _ name) | .item (.static _ name)
  | .item (.trait _ name _) | .item (.typeAlias _ name) => some name
  | .item (.function _ _ signature) | .member _ (.function _ _ signature) => some signature.name
  | .member _ (.constant _ name) => some name
  | _ => none

/-- Whether a bearer is a member of a block. -/
def isMember : Bearer → Bool
  | .item _ => false
  | .member _ _ => true

/-- The name of the type that the block of a member is for. -/
def owner? : Bearer → Option String
  | .member (.implementation _ _ self _) _ => typeName? self
  | _ => none

end Bearer

/-- Whether something of a category can be bound. -/
def Category.isBindable : Category → Bool
  | .type _ _ _ | .function _ => true
  | .unsupported _ => false

namespace Visit

/-- The names that lead to a bearer, given those that lead to the module of the file. -/
def names (visit : Visit) (modules : List String) : List String :=
  modules ++ visit.site.inlineNames ++ visit.bearer.owner?.toList ++
    (visit.bearer.name?.map Name.text).toList

/-- What is sighted of a bearer is known by its name. Only a member of an implementation belongs to
a type, and the implementation has to be for a type that is a path. -/
theorem parts_of_sighting? {visit : Visit} {sighting : Survey.Sighting}
    (h : visit.sighting? = some sighting) :
    visit.bearer.name? = some sighting.name ∧ sighting.isMember = visit.bearer.isMember ∧
      sighting.container = visit.bearer.owner?.elim visit.site.module
        (visit.site.module ++ "::" ++ ·) ∧
      visit.bearer.owner?.isSome = visit.bearer.isMember := by
  obtain ⟨site, bearer⟩ := visit
  cases bearer with
  | item item =>
    cases item with
    | module attributes =>
      simp only [sighting?] at h
      split at h
      · cases h
      · cases h
        exact ⟨rfl, rfl, rfl, rfl⟩
    | implementation | foreign | other => cases h
    | _ =>
      cases h
      exact ⟨rfl, rfl, rfl, rfl⟩
  | member block member =>
    cases block with
    | implementation _ _ self =>
      cases member with
      | function | constant =>
        obtain ⟨owner, howner, rfl⟩ := Option.map_eq_some_iff.1 h
        refine ⟨rfl, rfl, ?_, ?_⟩
        · show _ = (typeName? self).elim _ _
          rw [howner]
          rfl
        · show (typeName? self).isSome = true
          rw [howner]
          rfl
      | other => cases h
    | _ => cases h

end Visit

/-! ## What the names spell -/

theorem Site.spells_module {site : Site} {modules : List String}
    (h : Spells modules site.fileModule) : Spells (modules ++ site.inlineNames) site.module := by
  induction site with
  | file =>
    rw [inlineNames, List.append_nil]
    exact h
  | inline outer name _ ih =>
    rw [inlineNames, ← List.append_assoc]
    exact (ih h).snoc name.text

namespace Visit

variable {visit : Visit} {modules : List String}

/-- The names that lead to an entry spell its path. Exactly a member has a scope, which is spelled
by the same names but for the last; it is a member of an implementation, whose type has a name. -/
theorem spells_entry (hmodules : Spells modules visit.site.fileModule) {entry : Entry}
    (h : visit.recorded? = some entry) :
    (∃ name, visit.bearer.name? = some name ∧ entry.ident = name.text) ∧
      Spells (visit.names modules) entry.path ∧
      entry.scope.isSome = visit.bearer.isMember ∧
      visit.bearer.owner?.isSome = visit.bearer.isMember ∧
      ∀ scope ∈ entry.scope, Spells (visit.names modules).dropLast scope := by
  obtain ⟨sighting, hsighting, rfl⟩ := exists_of_recorded? h
  obtain ⟨hname, hmember, hcontainer, howner⟩ := parts_of_sighting? hsighting
  have hbefore : Spells (modules ++ visit.site.inlineNames ++ visit.bearer.owner?.toList)
      sighting.container := by
    have hmodule := Site.spells_module hmodules
    rw [hcontainer]
    cases visit.bearer.owner? with
    | none =>
      rw [Option.toList_none, List.append_nil]
      exact hmodule
    | some owner => exact hmodule.snoc owner
  have hnames : visit.names modules =
      modules ++ visit.site.inlineNames ++ visit.bearer.owner?.toList ++ [sighting.name.text] := by
    rw [names, hname]
    rfl
  have hscope : (sighting.entry visit.site.path).scope =
      if sighting.isMember then some sighting.container else none := rfl
  rw [hnames, List.dropLast_concat, hscope, hmember]
  refine ⟨⟨sighting.name, hname, rfl⟩, hbefore.snoc sighting.name.text, ?_, howner, ?_⟩
  · cases visit.bearer.isMember <;> rfl
  · intro scope hmem
    cases hcase : visit.bearer.isMember with
    | false =>
      rw [hcase] at hmem
      cases hmem
    | true =>
      rw [hcase] at hmem
      obtain rfl := Option.some.inj hmem
      exact hbefore

/-- The names that lead to a module for tests spell its path. -/
theorem spells_testModule (hmodules : Spells modules visit.site.fileModule) {test : String}
    (h : visit.testModule? = some test) : Spells (visit.names modules) test := by
  unfold testModule? at h
  split at h
  · next attributes name content hbearer =>
    split at h
    · obtain rfl := Option.some.inj h
      rw [names, hbearer]
      simpa [Bearer.owner?, Bearer.name?] using (Site.spells_module hmodules).snoc name.text
    · cases h
  · cases h

/-! ## Names that may stand in a path -/

theorem isPathName_of_mem_inlineNames {site : Site} (h : site.IsNamed) {name : String}
    (hmem : name ∈ site.inlineNames) : IsPathName name := by
  induction site with
  | file => cases hmem
  | inline outer inner _ ih =>
    rcases List.mem_append.1 hmem with hmem | hmem
    · exact ih h.1 hmem
    · obtain rfl := List.mem_singleton.1 hmem
      exact h.2

theorem isPathName_of_typeName? {type : Ty} (h : type.IsNamed) {name : String}
    (hname : typeName? type = some name) : IsPathName name := by
  unfold typeName? at hname
  split at hname
  · obtain rfl := Option.some.inj hname
    exact Source.Path.IsNamed.isPathName_lastName h
  · cases hname

theorem isPathName_of_owner? {bearer : Bearer} (hall : bearer.All Ty.IsNamed) {owner : String}
    (h : bearer.owner? = some owner) : IsPathName owner := by
  unfold Bearer.owner? at h
  split at h
  · exact isPathName_of_typeName? hall.1 h
  · cases h

/-- A type or a function is declared with a name that may stand in a path. -/
theorem isPathName_of_bindable {sighting : Survey.Sighting}
    (hall : visit.bearer.All Ty.IsNamed) (h : visit.sighting? = some sighting)
    (hbindable : sighting.category.isBindable = true) : IsPathName sighting.name.text := by
  obtain ⟨site, bearer⟩ := visit
  cases bearer with
  | item item =>
    cases item with
    | struct | enumeration | union =>
      cases h
      exact hall
    | function =>
      cases h
      exact hall.name
    | module =>
      simp only [sighting?] at h
      split at h
      · cases h
      · cases h
        cases hbindable
    | implementation | foreign | other => cases h
    | _ =>
      cases h
      cases hbindable
  | member block member =>
    cases block with
    | implementation =>
      cases member with
      | function =>
        obtain ⟨_, -, rfl⟩ := Option.map_eq_some_iff.1 h
        exact hall.2.name
      | constant =>
        obtain ⟨_, -, rfl⟩ := Option.map_eq_some_iff.1 h
        cases hbindable
      | other => cases h
    | _ => cases h

/-- The names that lead to a type or a function may stand in a path, if those of the module of the
file may. -/
theorem isPathName_of_mem_names (hall : visit.All Ty.IsNamed) {entry : Entry}
    (h : visit.recorded? = some entry) (hbindable : entry.category.isBindable = true)
    (hmodules : ∀ name ∈ modules, IsPathName name) :
    ∀ name ∈ visit.names modules, IsPathName name := by
  obtain ⟨sighting, hsighting, rfl⟩ := exists_of_recorded? h
  intro name hmem
  rw [names, (parts_of_sighting? hsighting).1] at hmem
  simp only [List.mem_append, Option.mem_toList] at hmem
  rcases hmem with ((hmodule | hinline) | howner) | hname
  · exact hmodules name hmodule
  · exact isPathName_of_mem_inlineNames hall.1 hinline
  · exact isPathName_of_owner? hall.2 howner
  · obtain rfl := Option.some.inj hname
    exact isPathName_of_bindable hall.2 hsighting hbindable

end Visit

end Bindery
