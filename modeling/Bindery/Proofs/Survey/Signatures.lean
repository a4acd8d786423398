import Bindery.Proofs.Source.Names
import Bindery.Proofs.Survey.Walk
/-!
# The names and signatures that a survey comes by

A survey keeps of a function what `FunctionShape.ofSignature` keeps of its signature.
`Visit.function?` is the whole signature at a visit, and its types are types that were read. The
names of what is met, and of the modules around it, may stand in paths (`Survey.all_of_mem_visits`).
-/

namespace Bindery

open Source (Item Member Signature Ty readFile)
open Source.Grammar (Forms IsPathName)

/-- The name of a type or a function may stand in a path. The types in a signature have a property,
and so have the types that implementations are for. -/
def Bearer.All (typed : Ty → Prop) : Bearer → Prop
  | .item (.struct _ _ name _) | .item (.enumeration _ _ name) | .item (.union _ _ name) =>
    IsPathName name.text
  | .item (.function _ _ signature) => signature.All typed
  | .member (.implementation _ _ self _) declared => typed self ∧ declared.All typed
  | _ => True

/-- The names of the modules that are written inline around a site may stand in paths. -/
def Site.IsNamed : Site → Prop
  | file _ _ => True
  | inline outer name _ => outer.IsNamed ∧ IsPathName name.text

/-- The bearer and the modules around it have names that may stand in paths, and its types have a
property. -/
def Visit.All (typed : Ty → Prop) (visit : Visit) : Prop :=
  visit.site.IsNamed ∧ visit.bearer.All typed

namespace Visit

/-- The function that a visit is to a survey, and how far it can be seen. What implements a trait is
as visible as the trait. -/
def function? (visit : Visit) : Option (Visibility × Signature) :=
  match visit.bearer with
  | .item (.function _ visibility signature) => some (visibility, signature)
  | .member (.implementation _ interface self _) (.function _ visibility signature) =>
    (typeName? self).map fun _ => (if interface.isSome then .public else visibility, signature)
  | _ => none

/-- What is sighted as a function has the shape of one. -/
theorem exists_function {visit : Visit} {sighting : Survey.Sighting} {shape : FunctionShape}
    (h : visit.sighting? = some sighting) (hshape : sighting.category = .function shape) :
    ∃ visibility signature, visit.function? = some (visibility, signature) ∧
      shape = .ofSignature visibility signature := by
  obtain ⟨site, bearer⟩ := visit
  cases bearer with
  | item item =>
    cases item with
    | function attributes visibility signature =>
      cases h
      obtain rfl := Category.function.inj hshape
      exact ⟨visibility, signature, rfl, rfl⟩
    | module attributes =>
      simp only [sighting?] at h
      split at h
      · cases h
      · cases h
        cases hshape
    | implementation | foreign | other => cases h
    | _ =>
      cases h
      cases hshape
  | member block member =>
    cases block with
    | implementation _ interface self =>
      cases member with
      | function attributes visibility signature =>
        obtain ⟨owner, howner, rfl⟩ := Option.map_eq_some_iff.1 h
        obtain rfl := Category.function.inj hshape
        exact ⟨_, signature, Option.map_eq_some_iff.2 ⟨owner, howner, rfl⟩, rfl⟩
      | constant =>
        obtain ⟨owner, -, rfl⟩ := Option.map_eq_some_iff.1 h
        cases hshape
      | other => cases h
    | _ => cases h

theorem all_of_function? {typed : Ty → Prop} {visit : Visit} (hall : visit.bearer.All typed)
    {visibility : Visibility} {signature : Signature}
    (h : visit.function? = some (visibility, signature)) : signature.All typed := by
  unfold function? at h
  split at h
  · next hbearer =>
    rw [hbearer] at hall
    obtain ⟨-, rfl⟩ := Prod.mk.inj (Option.some.inj h)
    exact hall
  · next hbearer =>
    rw [hbearer] at hall
    obtain ⟨_, -, hfound⟩ := Option.map_eq_some_iff.1 h
    obtain ⟨-, rfl⟩ := Prod.mk.inj hfound
    exact hall.2
  · cases h

end Visit

/-! ## All visits -/

theorem mem_visitsOfItems {site : Site} {items : List Item} {visit : Visit} :
    visit ∈ visitsOfItems site items ↔ ∃ item ∈ items, visit ∈ visitsOfItem site item := by
  induction items with
  | nil => simp [visitsOfItems]
  | cons item rest ih => simp [visitsOfItems, ih]

/-- What is met of an item consists of the names and types of the item. -/
theorem forms_visits (typed : Ty → Prop) :
    let met (item : Item) : Prop :=
      ∀ site : Site, site.IsNamed → ∀ visit ∈ visitsOfItem site item, visit.All typed
    Forms typed met True met where
  closed item hclosed hname site hsite visit hvisit := by
    cases item with
    | trait | foreign =>
      rcases List.mem_cons.1 hvisit with rfl | hvisit
      · exact ⟨hsite, trivial⟩
      · obtain ⟨member, -, rfl⟩ := List.mem_map.1 hvisit
        exact ⟨hsite, trivial⟩
    | module | struct | function | implementation => cases hclosed
    | _ =>
      obtain rfl := List.mem_singleton.1 hvisit
      exact ⟨hsite, hname⟩
  module attributes name content hname hcontent site hsite visit hvisit := by
    rcases List.mem_cons.1 hvisit with rfl | hvisit
    · exact ⟨hsite, trivial⟩
    · cases content with
      | none => cases hvisit
      | some items =>
        obtain ⟨item, hitem, hmet⟩ := mem_visitsOfItems.1 hvisit
        exact hcontent items rfl item hitem (.inline site name _) ⟨hsite, hname⟩ visit hmet
  struct _ _ _ _ _ hname site hsite visit hvisit := by
    obtain rfl := List.mem_singleton.1 hvisit
    exact ⟨hsite, hname⟩
  function _ _ _ hsignature site hsite visit hvisit := by
    obtain rfl := List.mem_singleton.1 hvisit
    exact ⟨hsite, hsignature⟩
  implementation _ _ _ members hself hmembers site hsite visit hvisit := by
    rcases List.mem_cons.1 hvisit with rfl | hvisit
    · exact ⟨hsite, trivial⟩
    · obtain ⟨member, hmember, rfl⟩ := List.mem_map.1 hvisit
      exact ⟨hsite, hself, hmembers member hmember⟩

/-- What is met in sources consists of names and types that were read. -/
theorem Survey.all_of_mem_visits {sources : List SourceText} {visit : Visit}
    (h : visit ∈ Survey.visits sources) : visit.All Ty.IsNamed := by
  obtain ⟨source, -, hvisit⟩ := List.mem_flatMap.1 h
  unfold SourceText.visits at hvisit
  split at hvisit
  · next items hread =>
    obtain ⟨item, hitem, hmet⟩ := mem_visitsOfItems.1 hvisit
    have hall := Source.property_of_readFile (forms_visits Ty.IsNamed) hread item hitem
    exact hall (.file source.file source.module) trivial visit hmet
  · cases hvisit

end Bindery
