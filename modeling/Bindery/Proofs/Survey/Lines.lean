import Bindery.Proofs.Round.Modules
import Bindery.Proofs.Source.Keeping.Items
import Bindery.Proofs.Survey.Aliases
/-!
# Line ends in what a survey notes

Identifiers hold no line end, and so the paths and tags of entries hold none but those of the module
of the file (`Entry.IsOneLine`). The types of a function are written with the tokens of the source,
and of these only a literal may hold one (`exists_literal_of_entry`).
-/

namespace Bindery

open Source (Item IsLiteralOf Path Signature Ty contentOf)

/-- Whether a text goes on after the end of a line. -/
def HasLineEnd (text : String) : Prop :=
  '\n' ∈ text.toList

instance (text : String) : Decidable (HasLineEnd text) :=
  inferInstanceAs (Decidable ('\n' ∈ text.toList))

theorem hasLineEnd_append (first second : String) :
    HasLineEnd (first ++ second) ↔ HasLineEnd first ∨ HasLineEnd second := by
  unfold HasLineEnd
  rw [String.toList_append, List.mem_append]

theorem not_hasLineEnd_of_isIdent {name : String} (h : Token.isIdent name = true) :
    ¬HasLineEnd name := by
  intro hmem
  rcases Token.isIdentContinue_of_isIdent h hmem with hc | hc
  · exact absurd hc (by decide)
  · exact absurd hc (by decide)

theorem not_hasLineEnd_lastName {path : Path} (h : Source.Grammar.NamesPath path) :
    ¬HasLineEnd path.lastName := by
  rw [Path.lastName_eq]
  cases hlast : path.names.getLast? with
  | none => decide
  | some name => exact not_hasLineEnd_of_isIdent (h name (List.mem_of_getLast? hlast)).1

theorem lineEnd_not_mem_toDigits (n : Nat) : '\n' ∉ Nat.toDigits 10 n := by
  intro h
  have hdigit := Nat.isDigit_of_mem_toDigits (by decide) (by decide) h
  exact absurd hdigit (by decide)

/-! ## Names and tags -/

/-- The names of modules hold no line end, and those of the module of the file stay. -/
theorem Site.hasLineEnd_module (site : Site) :
    HasLineEnd site.module ↔ HasLineEnd site.fileModule := by
  induction site with
  | file => rfl
  | inline outer name _ ih =>
    have hseparator : ¬HasLineEnd "::" := by decide
    have hname := not_hasLineEnd_of_isIdent name.isIdent
    simp only [Site.module, hasLineEnd_append, hseparator, hname, or_false]
    exact ih

/-- Only the root of the crate may bring a line end into what an entry is called and tagged with. -/
structure Entry.IsOneLine (crateRoot : String) (entry : Entry) : Prop where
  path : HasLineEnd entry.path ↔ HasLineEnd crateRoot
  tags : ∀ tag ∈ entry.tags, ¬HasLineEnd tag
  file : ¬HasLineEnd entry.location.file

/-- What is noted at a visit is called as the module of the file is, and by names. -/
theorem Visit.isOneLine {visit : Visit} {entry : Entry} (h : visit.recorded? = some entry)
    (hall : visit.All Ty.IsNamed) (hfile : ¬HasLineEnd visit.site.path) :
    entry.IsOneLine visit.site.fileModule := by
  obtain ⟨sighting, hsighting, rfl⟩ := exists_of_recorded? h
  obtain ⟨-, -, hcontainer, -⟩ := parts_of_sighting? hsighting
  have hseparator : ¬HasLineEnd "::" := by decide
  have hname := not_hasLineEnd_of_isIdent sighting.name.isIdent
  constructor
  · have howner : HasLineEnd sighting.container ↔ HasLineEnd visit.site.module := by
      rw [hcontainer]
      cases howner : visit.bearer.owner? with
      | none => rfl
      | some owner =>
        have howner := not_hasLineEnd_of_isIdent (isPathName_of_owner? hall.2 howner).1
        simp [hasLineEnd_append, hseparator, howner]
    simp only [Survey.Sighting.entry, hasLineEnd_append, hseparator, hname, or_false]
    exact howner.trans visit.site.hasLineEnd_module
  · intro tag htag
    rw [tags_entry] at htag
    obtain ⟨path, hpath, rfl⟩ := List.mem_map.1 htag
    obtain ⟨attr, -, hattr⟩ := List.mem_filterMap.1 hpath
    exact not_hasLineEnd_lastName (namesPath_of_tagPath? hattr)
  · exact hfile

/-! ## The types of functions -/

section
variable {literal : String → Prop}

/-- A function that is met of something that fits has a head that fits. -/
def Visit.Fits (literal : String → Prop) (visit : Visit) : Prop :=
  ∀ visibility signature, visit.function? = some (visibility, signature) →
    Source.FitsSignature literal signature

mutual

/-- What is met of an item that fits does so as well. -/
theorem fits_of_mem_visitsOfItem : ∀ {item : Item} {site : Site}, item.Fits literal →
    ∀ visit ∈ visitsOfItem site item, visit.Fits literal
  | .module _ _ content, site, h, visit, hvisit => by
    rcases List.mem_cons.1 hvisit with rfl | hvisit
    · intro visibility signature hfunction
      cases hfunction
    · exact fits_of_mem_visitsOfContent h visit hvisit
  | .implementation _ _ _ members, site, h, visit, hvisit => by
    rcases List.mem_cons.1 hvisit with rfl | hvisit
    · intro visibility signature hfunction
      cases hfunction
    · obtain ⟨member, hmember, rfl⟩ := List.mem_map.1 hvisit
      intro visibility signature hfunction
      cases member with
      | function =>
        obtain ⟨_, -, hfound⟩ := Option.map_eq_some_iff.1 hfunction
        obtain ⟨-, rfl⟩ := Prod.mk.inj hfound
        exact h _ hmember
      | constant | other => cases hfunction
  | .trait _ _ _, site, h, visit, hvisit
  | .foreign _ _, site, h, visit, hvisit => by
    rcases List.mem_cons.1 hvisit with rfl | hvisit
    · intro visibility signature hfunction
      cases hfunction
    · obtain ⟨member, -, rfl⟩ := List.mem_map.1 hvisit
      intro visibility signature hfunction
      cases hfunction
  | .function _ _ _, site, h, visit, hvisit => by
    obtain rfl := List.mem_singleton.1 hvisit
    intro visibility signature hfunction
    cases hfunction
    exact h
  | .struct _ _ _ _, site, h, visit, hvisit
  | .enumeration _ _ _, site, h, visit, hvisit
  | .union _ _ _, site, h, visit, hvisit
  | .constant _ _, site, h, visit, hvisit
  | .static _ _, site, h, visit, hvisit
  | .typeAlias _ _, site, h, visit, hvisit
  | .other _, site, h, visit, hvisit => by
    obtain rfl := List.mem_singleton.1 hvisit
    intro visibility signature hfunction
    cases hfunction

theorem fits_of_mem_visitsOfContent : ∀ {content : Option (List Item)} {site : Site},
    Source.FitsContent literal content →
    ∀ visit ∈ visitsOfContent site content, visit.Fits literal
  | none, _, _, _, hvisit => nomatch hvisit
  | some _, _, h, visit, hvisit => fits_of_mem_visitsOfItems h visit hvisit

theorem fits_of_mem_visitsOfItems : ∀ {items : List Item} {site : Site},
    Source.FitsItems literal items → ∀ visit ∈ visitsOfItems site items, visit.Fits literal
  | [], _, _, _, hvisit => nomatch hvisit
  | _ :: _, _, h, visit, hvisit => by
    rcases List.mem_append.1 hvisit with hvisit | hvisit
    · exact fits_of_mem_visitsOfItem h.1 visit hvisit
    · exact fits_of_mem_visitsOfItems h.2 visit hvisit

end

/-- What is met in a source fits, where the literals are those of its text. -/
theorem fits_of_mem_visits {source : SourceText} {visit : Visit} (h : visit ∈ source.visits) :
    visit.Fits (IsLiteralOf (contentOf source.text)) := by
  unfold SourceText.visits at h
  split at h
  · next items hread => exact fits_of_mem_visitsOfItems (Source.fits_readFile hread) visit h
  · cases h

end

/-- The types that the shape of a function consists of, as they are shown. -/
def FunctionShape.types (shape : FunctionShape) : List String :=
  shape.params ++ shape.output.toList

theorem exists_type_of_mem_types {visibility : Visibility} {signature : Signature} {text : String}
    (h : text ∈ (FunctionShape.ofSignature visibility signature).types) {literal : String → Prop}
    (fits : Source.FitsSignature literal signature) :
    ∃ type : Ty, type.Fits literal ∧ text = type.canonical := by
  rcases List.mem_append.1 h with h | h
  · obtain ⟨type, htype, rfl⟩ := List.mem_map.1 h
    exact ⟨type, Source.Grammar.fitsTypes_iff.1 fits.1 type htype, rfl⟩
  · obtain ⟨hmap, -⟩ := Option.filter_eq_some_iff.1 (Option.mem_toList.1 h)
    obtain ⟨type, htype, rfl⟩ := Option.map_eq_some_iff.1 hmap
    have houtput := fits.2
    rw [htype] at houtput
    exact ⟨type, houtput, rfl⟩

/-- A type of a function that an entry is has a line end only if a literal of the source has. -/
theorem exists_literal_of_entry {source : SourceText} {visit : Visit} {entry : Entry}
    (hvisit : visit ∈ source.visits) (hentry : visit.recorded? = some entry)
    {shape : FunctionShape} (hshape : entry.category = .function shape) {text : String}
    (htext : text ∈ shape.types) (h : HasLineEnd text) :
    ∃ literal, IsLiteralOf (contentOf source.text) literal ∧ HasLineEnd literal := by
  obtain ⟨sighting, hsighting, rfl⟩ := Visit.exists_of_recorded? hentry
  obtain ⟨visibility, signature, hfunction, rfl⟩ := Visit.exists_function hsighting hshape
  obtain ⟨type, hfits, rfl⟩ :=
    exists_type_of_mem_types htext (fits_of_mem_visits hvisit visibility signature hfunction)
  exact Ty.literal_of_lineEnd hfits h

end Bindery
