import Bindery.Proofs.Round.Installation
import Bindery.Proofs.Source.Names
import Bindery.Proofs.Source.Path
import Bindery.Proofs.Survey.Walk
import Bindery.Proofs.Token.Word
/-!
# What a tag reaches

A tag is written with a path and keeps its last name. `tag_reaches` says what discovery makes of it:
the item is declared once for each mark of each alias of that name, and through no other alias. If
the alias at the path is the only one of its name, the tag reaches that alias and no other. Of two
aliases of one name in different modules each is reached by a tag with the path of the other
(`namesake_reached`).
-/

namespace Bindery

open Source (Attribute Path colon_not_mem_lastName)
open Source.Grammar (NamesPath)
open Token (isIdent)

/-! ## Last names -/

/-- The text after the last colon. -/
theorem append_colon_inj {first second name other : List Char} (hname : ':' ∉ name)
    (hother : ':' ∉ other) (h : first ++ ':' :: name = second ++ ':' :: other) : name = other := by
  rw [List.append_eq_append_iff] at h
  rcases h with ⟨between, -, h⟩ | ⟨between, -, h⟩
  · cases between with
    | nil => exact (List.cons.inj h).2
    | cons c more =>
      obtain ⟨-, rfl⟩ := List.cons.inj h
      exact absurd (by simp) hname
  · cases between with
    | nil => exact (List.cons.inj h).2.symm
    | cons c more =>
      obtain ⟨-, rfl⟩ := List.cons.inj h
      exact absurd (by simp) hother

namespace Source.Path

/-- A path as it is shown ends in its last name, after a separator unless it is that name alone. -/
theorem exists_shownPath (path : Path) :
    shownPath path = path.lastName ∨
      ∃ outer, (shownPath path).toList = outer ++ ':' :: path.lastName.toList := by
  rw [shownPath, lastName_eq]
  rcases List.eq_nil_or_concat path.names with hnames | ⟨init, last, hnames⟩
  · rw [hnames]
    cases path.absolute with
    | false => exact .inl rfl
    | true => exact .inr ⟨[':'], by simp⟩
  · rw [hnames, List.concat_eq_append, List.getLast?_concat]
    cases init with
    | nil =>
      cases path.absolute with
      | false => exact .inl (by simp)
      | true => exact .inr ⟨[':'], by simp⟩
    | cons first more =>
      right
      rw [List.cons_append, intercalate_eq, shownNames_append]
      refine ⟨(if path.absolute then "::" else "").toList ++ first.toList ++
        (shownNames more).toList ++ [':'], ?_⟩
      simp [shownNames, String.toList_append]

end Source.Path

/-- Two paths that are shown alike end in the same name. -/
theorem lastName_of_shownPath {path : Path} (hpath : NamesPath path) {container name : String}
    (hname : ':' ∉ name.toList) (h : shownPath path = container ++ "::" ++ name) :
    path.lastName = name := by
  have hshown : (shownPath path).toList = (container.toList ++ [':']) ++ ':' :: name.toList := by
    rw [h]
    simp [String.toList_append]
  rcases path.exists_shownPath with hwhole | ⟨outer, houter⟩
  · rw [hwhole] at hshown
    have hcolon : ':' ∈ path.lastName.toList := by
      rw [hshown]
      simp
    exact absurd hcolon (colon_not_mem_lastName hpath)
  · rw [houter] at hshown
    exact String.ext (append_colon_inj (colon_not_mem_lastName hpath) hname hshown)

/-! ## Tags -/

/-- The path that a tag is written with. -/
def tagPath? (attr : Attribute) : Option Path :=
  if attr.path.lastName = "tagged" then (readArguments attr Source.Grammar.anyPath).toOption
  else none

/-- The name that a marker tags its item with. -/
def Marker.tagName? : Marker → Option String
  | .tagged name => some name
  | _ => none

theorem namesPath_of_tagPath? {attr : Attribute} {path : Path} (h : tagPath? attr = some path) :
    NamesPath path := by
  rw [tagPath?] at h
  split at h
  · rw [readArguments] at h
    split at h
    · cases h
    · cases h
    · next args _ =>
      cases hread : Source.readTrees Source.Grammar.anyPath args with
      | error => rw [hread] at h; cases h
      | ok read =>
        rw [hread] at h
        obtain rfl := Option.some.inj h
        exact Source.namesPath_of_readTrees hread
  · cases h

/-- What an attribute tags its item with. -/
theorem tagName_of_attribute (attr : Attribute) :
    ((Saying.ofAttribute? attr).bind Saying.marker?).bind Marker.tagName? =
      (tagPath? attr).map Path.lastName := by
  rw [Saying.ofAttribute?, Saying.ofAttribute, tagPath?]
  split
  · next hname =>
    rw [if_neg (by simp [hname])]
    cases readArguments attr fun _ => Source.Grammar.string with
    | error => rfl
    | ok key =>
      simp only [bind, Except.bind]
      split <;> rfl
  · next hname =>
    rw [if_neg (by simp [hname])]
    cases checkBare attr <;> rfl
  · next hname =>
    rw [if_pos hname]
    cases readArguments attr Source.Grammar.anyPath <;> rfl
  · next hname =>
    rw [if_neg (by simp [hname])]
    cases checkBare attr <;> rfl
  · next hname _ =>
    rw [if_neg hname]
    rfl

/-- The tags of an entry are the last names of the paths of its tags. -/
theorem tags_entry (sighting : Survey.Sighting) (file : String) :
    (sighting.entry file).tags = (sighting.attributes.filterMap tagPath?).map Path.lastName := by
  have htags : (sighting.entry file).tags = sighting.markers.filterMap Marker.tagName? := rfl
  rw [htags, Survey.Sighting.markers, List.filterMap_filterMap, List.map_filterMap]
  simp only [tagName_of_attribute]

/-! ## What is reached through aliases -/

namespace Manifest

/-- Of the origins at an alias, those of a target are the marks of the alias if the target is tagged
with its name, and none if it is not. -/
theorem reachedFrom_outer {manifest : Manifest} {role : Role} {outer entry : Entry}
    {position mark target : Nat} (houter : manifest.entries[position]? = some outer)
    (halias : outer.isAlias = true) (htarget : manifest.entries[target]? = some entry) :
    (∃ carrier, manifest.ReachedFrom role ⟨position, mark, target⟩ entry carrier) ↔
      outer.ident ∈ entry.tags ∧ mark < (outer.marks role).length := by
  constructor
  · rintro ⟨carrier, found, foundMark, hfound, hmark, -, hcase⟩
    obtain rfl : outer = found := Option.some.inj (houter.symm.trans hfound)
    rcases hcase with ⟨-, htagged, -⟩ | ⟨hplain, -, -⟩
    · refine ⟨?_, (List.getElem?_eq_some_iff.1 hmark).1⟩
      simpa [Entry.isTagged] using htagged
    · rw [halias] at hplain
      cases hplain
  · rintro ⟨htagged, hmark⟩
    refine ⟨⟨(outer.marks role)[mark], some outer.path⟩, outer, _, houter,
      List.getElem?_eq_getElem hmark, htarget, .inl ⟨halias, ?_, rfl⟩⟩
    simpa [Entry.isTagged] using htagged

/-- What discovery makes of an item that has tags of some names: it is declared for each mark of
each alias of such a name, with the alias recorded, and through no other alias. -/
structure ReachesByTags (manifest : Manifest) (role : Role) (declarations : List Declaration)
    (target : Nat) (entry : Entry) (names : List String) (origins : List Origin) : Prop where
  sorted : origins.Pairwise Origin.Before
  declared : List.Forall₂ (manifest.DeclaredFrom role) origins declarations
  through : ∀ position outer, manifest.entries[position]? = some outer → outer.isAlias = true →
    ∀ mark, ⟨position, mark, target⟩ ∈ origins ↔
      outer.ident ∈ names ∧ mark < (outer.marks role).length
  recorded : ∀ origin declaration, (origin, declaration) ∈ origins.zip declarations →
    origin.target = target → ∀ outer, manifest.entries[origin.carrier]? = some outer →
      outer.isAlias = true → declaration.path = entry.path ∧
        ∃ mark, (outer.marks role)[origin.mark]? = some mark ∧
          declaration.carrier = ⟨mark, some outer.path⟩

/-- Discovery goes by the tags of an item. -/
theorem exists_reachesByTags {manifest : Manifest} {role : Role} {report report' : Report}
    {declarations : List Declaration}
    (h : manifest.discover role report = (report', .ok declarations)) {target : Nat} {entry : Entry}
    (htarget : manifest.entries[target]? = some entry) (hplain : entry.isAlias = false) :
    ∃ origins, manifest.ReachesByTags role declarations target entry entry.tags origins := by
  obtain ⟨origins, hsorted, hdeclared, hall⟩ := discover_origins h
  refine ⟨origins, hsorted, hdeclared, ?_, ?_⟩
  · intro position outer houter halias mark
    rw [← reachedFrom_outer houter halias htarget]
    constructor
    · intro hmem
      obtain ⟨-, -, found, carrier, hreached, -, -⟩ := exists_of_mem_left hdeclared hmem
      obtain ⟨_, _, _, _, hfound, _⟩ := id hreached
      obtain rfl : entry = found := Option.some.inj (htarget.symm.trans hfound)
      exact ⟨carrier, hreached⟩
    · rintro ⟨carrier, hreached⟩
      obtain ⟨declaration, horigin⟩ := exists_declared h hreached hplain
      exact hall _ declaration horigin
  · intro origin declaration hmem horigin outer houter halias
    obtain ⟨found, carrier, hreached, -, hdeclare⟩ := List.forall₂_zip hdeclared hmem
    obtain ⟨carried, mark, hcarried, hmark, hfound, hcase⟩ := hreached
    obtain rfl : outer = carried := Option.some.inj (houter.symm.trans hcarried)
    rw [horigin] at hfound
    obtain rfl : entry = found := Option.some.inj (htarget.symm.trans hfound)
    obtain ⟨hcarrier, hpath⟩ := parts_of_declare hdeclare
    rcases hcase with ⟨-, -, rfl⟩ | ⟨hdirect, -, -⟩
    · exact ⟨hpath, mark, hmark, hcarrier⟩
    · rw [halias] at hdirect
      cases hdirect

/-- Whether a path is that of an alias, and no other alias has its name. -/
def IsOnlyAlias (manifest : Manifest) (path : Path) : Prop :=
  ∃ (position : Nat) (outer : Entry), manifest.entries[position]? = some outer ∧
    outer.isAlias = true ∧ shownPath path = outer.path ∧
    ∀ (otherPosition : Nat) (other : Entry), manifest.entries[otherPosition]? = some other →
      other.isAlias = true → other.ident = outer.ident → otherPosition = position

end Manifest

/-! ## Sources with tags -/

section
variable {sources : List SourceText} {manifest : Manifest}

/-- An entry is named by the last name of its path. -/
theorem lastName_of_entry (hscan : Manifest.ofSources sources = .ok manifest) {entry : Entry}
    (hentry : entry ∈ manifest.entries) {path : Path} (hpath : NamesPath path)
    (h : shownPath path = entry.path) : path.lastName = entry.ident := by
  obtain ⟨visit, -, hvisit⟩ := Survey.exists_visit_of_entry hscan hentry
  obtain ⟨sighting, -, rfl⟩ := Visit.exists_of_recorded? hvisit
  exact lastName_of_shownPath hpath (Token.colon_not_mem_of_isIdent sighting.name.isIdent) h

theorem tags_of_visit {visit : Visit} {entry : Entry} (h : visit.recorded? = some entry) :
    entry.tags = (visit.bearer.attributes.filterMap tagPath?).map Path.lastName := by
  obtain ⟨sighting, hsighting, rfl⟩ := Visit.exists_of_recorded? h
  rw [tags_entry, (Visit.sighting?_cases hsighting).1]

/-- What the names of a registry lead to that a round sets up: something declared under that key. -/
theorem Generator.registry_origins {generator : Generator} {report report' : Report}
    {artifacts : List Artifact}
    (h : generator.generate manifest report = (report', .ok artifacts)) :
    ∃ defining intercepting bindings,
      generator.target.emit defining intercepting = .ok artifacts ∧
      Bindings.ofFragments? defining intercepting = some bindings ∧
      ∀ name delegate, (Registry.empty.install bindings).get? name = some delegate →
        ∃ origin declaration, manifest.DeclaredFrom .provider origin declaration ∧
          declaration.key? = some name ∧
          manifest.Instance generator.runtime declaration delegate := by
  obtain ⟨accepted, defining, intercepting, haccept, hemit, hdefining, hintercepting⟩ :=
    generate_writes h
  have hdiscovered := accept_discovered haccept
  obtain ⟨bindings, hread, hdefines, hinstance⟩ :=
    bindings_of_writes hdiscovered hdefining hintercepting
  refine ⟨defining, intercepting, bindings, hemit, hread, fun name delegate hget => ?_⟩
  -- A name leads to what the latest declaration with this key was made for.
  have hlatest := (agrees_install hdefines hinstance).latest name
  rw [hget] at hlatest
  generalize hlast : (accepted.providers.filter (·.key? = some name)).getLast? = last at hlatest
  cases hlatest with
  | @some declaration _ hmade =>
    obtain ⟨hmem, hkey⟩ := List.mem_filter.1 (List.mem_of_getLast? hlast)
    obtain ⟨origins, -, horigins⟩ := hdiscovered.1
    obtain ⟨origin, -, horigin⟩ := Manifest.exists_origin horigins hmem
    exact ⟨origin, declaration, horigin, by simpa using hkey, hmade⟩

/-- What a key leads to is the item only if it is a key of the item or of an alias that a tag of the
item names. -/
theorem key_of_target {target : Nat} {entry : Entry}
    (htarget : manifest.entries[target]? = some entry) {origin : Origin} {declaration : Declaration}
    (h : manifest.DeclaredFrom .provider origin declaration) (horigin : origin.target = target)
    {name : String} (hkey : declaration.key? = some name) :
    name ∈ entry.keys ∨ ∃ outer ∈ manifest.entries, outer.isAlias = true ∧
      outer.ident ∈ entry.tags ∧ name ∈ outer.keys := by
  obtain ⟨found, carrier, ⟨outer, mark, houter, hmark, hfound, hcase⟩, -, hdeclare⟩ := h
  rw [horigin] at hfound
  obtain rfl : entry = found := Option.some.inj (htarget.symm.trans hfound)
  have hname : name ∈ outer.keys := by
    obtain ⟨key, hmem, rfl⟩ := List.mem_map.1 (List.mem_of_getElem? hmark)
    rw [Declaration.key?, (parts_of_declare hdeclare).1] at hkey
    rcases hcase with ⟨-, -, rfl⟩ | ⟨-, -, rfl⟩ <;>
    · obtain rfl := Option.some.inj hkey
      exact hmem
  -- The item was reached through an alias, or at its own position.
  rcases hcase with ⟨halias, htagged, -⟩ | ⟨-, hposition, -⟩
  · exact .inr ⟨outer, List.mem_of_getElem? houter, halias, by simpa [Entry.isTagged] using htagged,
      hname⟩
  · rw [← hposition, horigin, htarget] at houter
    obtain rfl := Option.some.inj houter
    exact .inl hname

/-- A tag reaches the aliases of the last name of its path. An item is declared once for each mark
of each alias that one of its tags names so, and through no other alias, and no key of any other
alias leads to it at run time; the alias at the path of a tag is among them. If it is the only one
of its name, for each tag, they are the aliases at the paths of the tags. -/
theorem tag_reaches (hscan : Manifest.ofSources sources = .ok manifest) {visit : Visit}
    {entry : Entry} (hvisit : visit.recorded? = some entry) {target : Nat}
    (htarget : manifest.entries[target]? = some entry) (hplain : entry.isAlias = false) :
    let paths := visit.bearer.attributes.filterMap tagPath?
    (∀ path ∈ paths, ∀ outer ∈ manifest.entries, shownPath path = outer.path →
        path.lastName = outer.ident) ∧
      (∀ role report report' declarations,
        manifest.discover role report = (report', .ok declarations) →
          ∃ origins, manifest.ReachesByTags role declarations target entry (paths.map Path.lastName)
              origins ∧
            ((∀ path ∈ paths, manifest.IsOnlyAlias path) →
              ∀ position outer, manifest.entries[position]? = some outer → outer.isAlias = true →
                ∀ mark, ⟨position, mark, target⟩ ∈ origins ↔
                  (∃ path ∈ paths, shownPath path = outer.path) ∧
                    mark < (outer.marks role).length)) ∧
      ∀ (generator : Generator) report report' artifacts,
        generator.generate manifest report = (report', .ok artifacts) →
          ∃ defining intercepting bindings,
            generator.target.emit defining intercepting = .ok artifacts ∧
            Bindings.ofFragments? defining intercepting = some bindings ∧
            ∀ name delegate, (Registry.empty.install bindings).get? name = some delegate →
              ∃ origin declaration, manifest.DeclaredFrom .provider origin declaration ∧
                declaration.key? = some name ∧
                manifest.Instance generator.runtime declaration delegate ∧
                (origin.target = target → name ∈ entry.keys ∨
                  ∃ outer ∈ manifest.entries, outer.isAlias = true ∧
                    outer.ident ∈ paths.map Path.lastName ∧ name ∈ outer.keys) := by
  intro paths
  have htags : entry.tags = paths.map Path.lastName := tags_of_visit hvisit
  have hnames : ∀ path ∈ paths, ∀ outer ∈ manifest.entries, shownPath path = outer.path →
      path.lastName = outer.ident := by
    intro path hpath outer houter hshown
    obtain ⟨attr, -, hattr⟩ := List.mem_filterMap.1 hpath
    exact lastName_of_entry hscan houter (namesPath_of_tagPath? hattr) hshown
  refine ⟨hnames, ?_, ?_⟩
  · intro role report report' declarations hdiscover
    obtain ⟨origins, hreaches⟩ := Manifest.exists_reachesByTags hdiscover htarget hplain
    rw [htags] at hreaches
    refine ⟨origins, hreaches, fun honly position outer houter halias mark => ?_⟩
    rw [hreaches.through position outer houter halias mark, and_congr_left_iff]
    intro _
    rw [List.mem_map]
    constructor
    · rintro ⟨path, hpath, hlast⟩
      -- The alias at the path is the only one of the name, and so this one.
      obtain ⟨place, only, hfound, -, hshown, hunique⟩ := honly path hpath
      have hident : only.ident = outer.ident :=
        (hnames path hpath only (List.mem_of_getElem? hfound) hshown).symm.trans hlast
      obtain rfl := hunique position outer houter halias hident.symm
      obtain rfl : outer = only := Option.some.inj (houter.symm.trans hfound)
      exact ⟨path, hpath, hshown⟩
    · rintro ⟨path, hpath, hshown⟩
      exact ⟨path, hpath, hnames path hpath outer (List.mem_of_getElem? houter) hshown⟩
  · intro generator report report' artifacts hgenerate
    obtain ⟨defining, intercepting, bindings, hemit, hread, hroutes⟩ :=
      Generator.registry_origins hgenerate
    refine ⟨defining, intercepting, bindings, hemit, hread, fun name delegate hget => ?_⟩
    obtain ⟨origin, declaration, horigin, hkey, hinstance⟩ := hroutes name delegate hget
    refine ⟨origin, declaration, horigin, hkey, hinstance, fun hposition => ?_⟩
    rw [← htags]
    exact key_of_target htarget horigin hposition hkey

end

/-- A source with an alias in a module and an item that is tagged with it. -/
def taggedSources : List SourceText :=
  [⟨"lib.rs", "crate", "mod a \x7b #[marker_alias] #[provider(\"k\")] pub struct R; \x7d " ++
    "#[tagged(crate::a::R)] pub struct C;"⟩]

/-- The one mark of the alias reaches the item. -/
theorem taggedSources_reached :
    ∃ manifest report declarations entry origins,
      Manifest.ofSources taggedSources = .ok manifest ∧
      manifest.discover .provider .empty = (report, .ok declarations) ∧
      manifest.ReachesByTags .provider declarations 1 entry ["R"] origins ∧
      ⟨0, 0, 1⟩ ∈ origins := by
  have hfacts : (Manifest.ofSources taggedSources).toOption.any (fun manifest =>
      (manifest.discover .provider .empty).2.toOption.isSome &&
      (manifest.entries[0]?.any fun outer =>
        outer.isAlias && outer.ident == "R" && (outer.marks .provider).length == 1) &&
      manifest.entries[1]?.any fun entry =>
        !entry.isAlias && (Survey.visits taggedSources).any fun visit =>
          visit.recorded? == some entry &&
            (visit.bearer.attributes.filterMap tagPath?).map Path.lastName == ["R"]) = true := by
    decide +kernel
  cases hscan : Manifest.ofSources taggedSources with
  | error => rw [hscan] at hfacts; cases hfacts
  | ok manifest =>
    rw [hscan] at hfacts
    simp only [Except.toOption, Option.any_some, Bool.and_eq_true, Option.any_eq_true,
      List.any_eq_true, Bool.not_eq_true', beq_iff_eq] at hfacts
    obtain ⟨⟨hdiscover, outer, houter, ⟨halias, hident⟩, hmarks⟩, entry, hentry, hplain, visit, -,
      hvisit, hnames⟩ := hfacts
    obtain ⟨declarations, hdeclarations⟩ := Survey.exists_ok hdiscover
    obtain ⟨-, hreach, -⟩ := tag_reaches hscan hvisit hentry hplain
    obtain ⟨origins, hreaches, -⟩ := hreach _ _ _ _ (Prod.ext rfl hdeclarations)
    rw [hnames] at hreaches
    refine ⟨manifest, _, declarations, entry, origins, rfl, Prod.ext rfl hdeclarations, hreaches,
      ?_⟩
    rw [hreaches.through 0 outer houter halias]
    exact ⟨by simp [hident], by simp [hmarks]⟩

/-- A source with two aliases of one name, and an item that is tagged with the first. -/
def namesakeSources : List SourceText :=
  [⟨"lib.rs", "crate", "mod a \x7b #[marker_alias] #[provider(\"a\")] pub struct R; \x7d " ++
    "mod b \x7b #[marker_alias] #[provider(\"b\")] pub struct R; \x7d " ++
    "#[tagged(crate::a::R)] pub struct C;"⟩]

/-- The item is declared under the key of the second alias as well, with that alias recorded. -/
theorem namesake_reached :
    ((Survey.visits namesakeSources).any fun visit =>
      (visit.recorded?.any (·.path == "crate::C")) &&
        (visit.bearer.attributes.filterMap tagPath?).map shownPath == ["crate::a::R"]) = true ∧
      (((Manifest.ofSources namesakeSources).toOption.bind fun manifest =>
          (manifest.discover .provider .empty).2.toOption).map
        (·.map fun declaration => (declaration.path, declaration.key?, declaration.carrier.via))) =
        some [("crate::C", some "a", some "crate::a::R"),
          ("crate::C", some "b", some "crate::b::R")] := by
  decide +kernel

end Bindery
