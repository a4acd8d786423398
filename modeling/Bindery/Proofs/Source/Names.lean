import Bindery.Proofs.Source.Items
import Bindery.Proofs.Source.Types
/-!
# The names of what is read

Every name of a path that is read may stand in a path (`namesPath_of_readTrees`), and so may every
name of a type that an item of a file is an implementation for (`namesItems_of_readFile`).
-/

namespace Bindery.Source

open Token (isIdent)

namespace Grammar

/-- Whether a type that is a path has names that may stand in one. -/
def NamesType (type : Ty) : Prop :=
  ∀ path, type = .path none path → NamesPath path

theorem namesType_of_isNamed {type : Ty} (h : type.IsNamed) : NamesType type := by
  rintro path rfl
  exact h.1

mutual

/-- Whether the implementations in an item are for types whose names may stand in paths. -/
def NamesItem : Item → Prop
  | .module _ _ content => NamesContent content
  | .implementation _ _ self _ => NamesType self
  | _ => True

/-- The same of the items of a module, if they are written inline. -/
def NamesContent : Option (List Item) → Prop
  | none => True
  | some items => NamesItems items

/-- The same of all items of a list. -/
def NamesItems : List Item → Prop
  | [] => True
  | item :: rest => NamesItem item ∧ NamesItems rest

end

theorem namesItems_of_forall {items : List Item} (h : ∀ item ∈ items, NamesItem item) :
    NamesItems items := by
  induction items with
  | nil => trivial
  | cons item rest ih =>
    have hrest := ih fun other hother => h other (List.mem_cons_of_mem _ hother)
    exact ⟨h item List.mem_cons_self, hrest⟩

theorem namesItem_of_mem {items : List Item} (h : NamesItems items) {item : Item}
    (hitem : item ∈ items) : NamesItem item := by
  induction items with
  | nil => cases hitem
  | cons first rest ih =>
    rcases List.mem_cons.1 hitem with rfl | hitem
    · exact h.1
    · exact ih h.2 hitem

/-- The types that implementations are for are all that has to be looked at. -/
theorem forms_names : Forms Ty.IsNamed NamesItem True NamesItem where
  closed item h _ := by cases item <;> trivial
  module _ _ content _ h := by
    cases content with
    | none => trivial
    | some items => exact namesItems_of_forall (h items rfl)
  struct _ _ _ _ _ _ := trivial
  function _ _ _ _ := trivial
  implementation _ _ _ _ hself _ := namesType_of_isNamed hself

end Grammar

open Grammar

/-! ## What is read of a text -/

theorem property_of_readTrees {α : Type} {property : α → Prop} {grammar : Rules → Grammar α}
    {trees : Trees} (h : Yields (grammar (Rules.for trees)) property) {value : α}
    (hread : readTrees grammar trees = .ok value) : property value := by
  unfold readTrees at hread
  cases hwhole : whole none (grammar (Rules.for trees)) trees with
  | error fault =>
    rw [hwhole] at hread
    cases hread
  | ok result =>
    rw [hwhole] at hread
    obtain rfl := Except.ok.inj hread
    exact yields_whole h hwhole

/-- A path that is read consists of names that may stand in it. -/
theorem namesPath_of_readTrees {trees : Trees} {path : Path}
    (h : readTrees anyPath trees = .ok path) : NamesPath path :=
  (property_of_readTrees (yields_pathWith _ _) h).1

theorem colon_not_mem_lastName {path : Path} (h : NamesPath path) :
    ':' ∉ path.lastName.toList := by
  rw [Path.lastName_eq]
  cases hlast : path.names.getLast? with
  | none => decide
  | some name => exact Token.colon_not_mem_of_isIdent (h name (List.mem_of_getLast? hlast)).1

/-- What holds of all items on account of their parts holds of the items of a file. -/
theorem property_of_readFile {property : Item → Prop}
    (forms : Forms Ty.IsNamed property True property) {text : String} {items : List Item}
    (h : readFile text = .ok items) : ∀ item ∈ items, property item := by
  unfold readFile read at h
  split at h
  · have hitems := yields_fileItems (fun _ htype => yields_typeWith htype) forms
    exact property_of_readTrees (hitems _) h
  · cases h

/-- The types that a file has implementations for have names that may stand in paths. -/
theorem namesItems_of_readFile {text : String} {items : List Item}
    (h : readFile text = .ok items) : NamesItems items :=
  namesItems_of_forall (property_of_readFile forms_names h)

end Bindery.Source
