import Bindery.Survey
/-!
# What is noted of an item

Noting an item either leaves its entry, if a marker is on it (`note_ok`), or fails at a marker that
is malformed (`note_error`).
-/

namespace Bindery

open Source (Attribute)

namespace Saying

/-- What an attribute says, if it is understood. -/
def ofAttribute? (attr : Attribute) : Option Saying :=
  (ofAttribute attr).toOption

/-- The marker that a saying is. -/
def marker? : Saying → Option Marker
  | .marker found => some found
  | _ => none

end Saying

namespace Survey.Sighting

/-- The markers of an item, in the order of its attributes. -/
def markers (sighting : Sighting) : List Marker :=
  sighting.attributes.filterMap fun attr => (Saying.ofAttribute? attr).bind Saying.marker?

/-- Whether an item is declared as an alias. -/
def isAlias (sighting : Sighting) : Bool :=
  (sighting.attributes.map Saying.ofAttribute?).contains (some .isAlias)

/-- Whether an item is a unit struct. -/
def isUnit (sighting : Sighting) : Bool :=
  match sighting.category with
  | .type _ unit _ => unit
  | _ => false

/-- The entry of an item. -/
def entry (sighting : Sighting) (file : String) : Entry where
  path := sighting.container ++ "::" ++ sighting.name.text
  ident := sighting.name.text
  scope := if sighting.isMember then some sighting.container else none
  category := sighting.category
  markers := sighting.markers
  isAlias := sighting.isAlias
  location := sighting.location file

/-- The entry of an item, if it carries a marker or is an alias. -/
def recorded? (sighting : Sighting) (file : String) : Option Entry :=
  if sighting.markers.isEmpty && !sighting.isAlias then none else some (sighting.entry file)

end Survey.Sighting

namespace Survey

/-! ## Noting -/

theorem exists_ok {α ε : Type} {result : Except ε α} (h : result.toOption.isSome = true) :
    ∃ value, result = .ok value := by
  cases result with
  | error => cases h
  | ok value => exact ⟨value, rfl⟩

/-- The results of a list, one by one, if there are any. -/
theorem mapM_ok {α β ε : Type} {f : α → Except ε β} {items : List α} {results : List β}
    (h : items.mapM f = .ok results) : items.map f = results.map .ok := by
  induction items generalizing results with
  | nil =>
    obtain rfl := Except.ok.inj h
    rfl
  | cons item rest ih =>
    rw [List.mapM_cons] at h
    cases hfirst : f item with
    | error => rw [hfirst] at h; cases h
    | ok first =>
      cases hrest : rest.mapM f with
      | error => rw [hfirst, hrest] at h; cases h
      | ok more =>
        rw [hfirst, hrest] at h
        obtain rfl := Except.ok.inj h
        rw [List.map_cons, List.map_cons, hfirst, ih hrest]

/-- An item of a list at which there is no result. -/
theorem mapM_error {α β ε : Type} {f : α → Except ε β} {items : List α} {error : ε}
    (h : items.mapM f = .error error) : ∃ item ∈ items, f item = .error error := by
  induction items with
  | nil => cases h
  | cons item rest ih =>
    rw [List.mapM_cons] at h
    cases hfirst : f item with
    | error =>
      rw [hfirst] at h
      obtain rfl := Except.error.inj h
      exact ⟨item, List.mem_cons_self, hfirst⟩
    | ok first =>
      cases hrest : rest.mapM f with
      | ok => rw [hfirst, hrest] at h; cases h
      | error =>
        rw [hfirst, hrest] at h
        obtain ⟨found, hfound, hfault⟩ := ih (hrest.trans h)
        exact ⟨found, .tail _ hfound, hfault⟩

/-- The sayings are those of the attributes, all of which are understood. -/
theorem sayings_ok {file : String} {sighting : Sighting} {said : List Saying}
    (h : sayings file sighting = .ok said) :
    sighting.attributes.map Saying.ofAttribute? = said.map some := by
  have hsaid := congrArg (List.map Except.toOption) (mapM_ok h)
  rw [List.map_map, List.map_map] at hsaid
  refine Eq.trans (List.map_congr_left fun attr _ => ?_) hsaid
  show (Saying.ofAttribute attr).toOption = ((Saying.ofAttribute attr).mapError _).toOption
  cases Saying.ofAttribute attr <;> rfl

/-- Noting an item whose attributes are all understood. -/
theorem note_of_sayings {file : String} {sighting : Sighting} {said : List Saying}
    (h : sayings file sighting = .ok said) :
    note file sighting =
      if sighting.isAlias && !sighting.isUnit then
        .error (.malformed "marker_alias" (sighting.location file)
          (.notUnitStruct sighting.name.text))
      else .ok ⟨(sighting.recorded? file).toList, [], []⟩ := by
  have hsaid := sayings_ok h
  -- What is looked for among the sayings are the markers of the item and whether it is an alias.
  have hmarkers : said.filterMap Saying.marker? = sighting.markers := by
    have hmap := congrArg (List.filterMap (·.bind Saying.marker?)) hsaid
    rw [List.filterMap_map, List.filterMap_map] at hmap
    exact hmap.symm
  have halias : said.contains .isAlias = sighting.isAlias := by
    rw [Sighting.isAlias, hsaid, Bool.eq_iff_iff, List.contains_iff_mem, List.contains_iff_mem]
    simp
  have hnote : note file sighting =
      if (said.filterMap Saying.marker?).isEmpty && !said.contains .isAlias then .ok empty
      else if said.contains .isAlias && !sighting.isUnit then
        .error (.malformed "marker_alias" (sighting.location file)
          (.notUnitStruct sighting.name.text))
      else .ok { empty with entries := [{ sighting.entry file with
        markers := said.filterMap Saying.marker?, isAlias := said.contains .isAlias }] } := by
    rw [note, h]
    rfl
  have hentry : { sighting.entry file with
      markers := sighting.markers, isAlias := sighting.isAlias } = sighting.entry file := rfl
  rw [hnote, hmarkers, halias, hentry, Sighting.recorded?]
  cases sighting.isAlias <;> cases sighting.markers.isEmpty <;> cases sighting.isUnit <;> rfl

/-- What noting leaves: the entry, if there is one. All attributes have been understood, and an
alias is a unit struct. -/
theorem note_ok {file : String} {sighting : Sighting} {survey : Survey}
    (h : note file sighting = .ok survey) :
    survey = ⟨(sighting.recorded? file).toList, [], []⟩ ∧
      (∀ attr ∈ sighting.attributes, (Saying.ofAttribute? attr).isSome) ∧
      (sighting.isAlias = true → sighting.isUnit = true) := by
  cases hsayings : sayings file sighting with
  | error =>
    rw [note, hsayings] at h
    cases h
  | ok said =>
    rw [note_of_sayings hsayings] at h
    split at h
    · cases h
    · next hunit =>
      refine ⟨(Except.ok.inj h).symm, ?_, fun halias => by simpa [halias] using hunit⟩
      intro attr hattr
      have hmem : Saying.ofAttribute? attr ∈ sighting.attributes.map Saying.ofAttribute? :=
        List.mem_map_of_mem hattr
      rw [sayings_ok hsayings] at hmem
      obtain ⟨saying, -, hsaying⟩ := List.mem_map.1 hmem
      exact hsaying ▸ rfl

/-- Noting fails at a malformed marker only. -/
theorem note_error {file : String} {sighting : Sighting} {error : SurveyError}
    (h : note file sighting = .error error) :
    ∃ name cause, error = .malformed name (sighting.location file) cause := by
  cases hsayings : sayings file sighting with
  | error =>
    rw [note, hsayings] at h
    obtain rfl := Except.error.inj h
    obtain ⟨attr, -, hattr⟩ := mapM_error hsayings
    cases hsaying : Saying.ofAttribute attr with
    | ok => rw [hsaying] at hattr; cases hattr
    | error cause =>
      rw [hsaying] at hattr
      exact ⟨_, cause, (Except.error.inj hattr).symm⟩
  | ok said =>
    rw [note_of_sayings hsayings] at h
    split at h
    · exact ⟨_, _, (Except.error.inj h).symm⟩
    · cases h

end Survey

end Bindery
