import Bindery.Proofs.Source.Path
import Bindery.Proofs.Source.Yields
import Bindery.Proofs.Token.Word
import Bindery.Source.Reading
import Bindery.Source.Type.Erasure
/-!
# What holds of the types that are read

Most kinds of types are written with a mark or a keyword of their own. The others are named: a path
consists of names that may stand in a path, and so does the path of some bound of a trait object.
`IsNamed` says so, and `yields_typeWith` that it is so of every type that is read, whatever stands
inside it.
-/

namespace Bindery.Source

open Token (isIdent)

/-- Whether all names of a path may stand in one. -/
def Grammar.NamesPath (path : Path) : Prop :=
  ∀ name ∈ path.names, IsPathName name

/-- A path consists of names that may stand in it, and of at least one. -/
def Path.IsNamed (path : Path) : Prop :=
  Grammar.NamesPath path ∧ path.names ≠ []

/-- A bound is a trait with a name. -/
def Bound.IsNamed : Bound → Prop
  | .trait _ _ path => path.IsNamed
  | _ => False

/-- Some token of a type tells it from parentheses: its own mark or keyword, or else a name. Tokens
of no other kind of type begin with `dyn`, if there are any. -/
def Ty.IsNamed : Ty → Prop
  | .path none name => name.IsNamed
  | .object false bounds _ => ∃ bound ∈ bounds, bound.IsNamed
  | .paren inner => inner.IsNamed
  | .function head _ _ _ _ => .token (.ident "fn") ∈ head
  | .verbatim tokens => tokens = [] ∨ ∃ more, tokens = .leaf (.ident "dyn") :: more
  | _ => True

theorem Path.lastName_eq (path : Path) : path.lastName = path.names.getLast?.getD "" := by
  rw [names, List.getLast?_map]
  rfl

theorem Path.IsNamed.isPathName_lastName {path : Path} (h : path.IsNamed) :
    Grammar.IsPathName path.lastName := by
  rw [lastName_eq, List.getLast?_eq_some_getLast h.2]
  exact h.1 _ (List.getLast_mem h.2)

theorem Path.IsNamed.isIdent_lastName {path : Path} (h : path.IsNamed) :
    isIdent path.lastName = true :=
  h.isPathName_lastName.1

namespace Grammar

/-! ## Paths -/

/-- An identifier may stand in a path. -/
theorem yields_pathName : Yields ident fun name => IsPathName name.text :=
  yields_ident.imp fun name hname => ⟨name.isIdent, fun hmem => absurd hmem hname⟩

/-- So may some words, where they stand ahead. -/
theorem yieldsAt_pathWord {words : List String} {stream : Stream}
    (hwords : ∀ word ∈ words, word ∈ pathWords) (h : Ahead.anyWord words stream.rest = true) :
    YieldsAt stream anyIdent fun name => IsPathName name.text := by
  intro name after hrun
  exact ⟨name.isIdent, fun _ => hwords _ (yieldsAt_anyIdent h name after hrun)⟩

theorem anyWord_singleton (word : String) (trees : Trees) :
    Ahead.anyWord [word] trees = Ahead.word word trees :=
  Bool.or_false _

theorem yields_pathSegment (rules : Rules) (expression : Bool) :
    Yields (pathSegment rules expression) fun segment => IsPathName segment.name := by
  have hplain : ∀ name : Name, IsPathName name.text → Yields (do
      if ← ahead (Ahead.angleArgs expression) then
        return Segment.mk name.text (.angle (← angleArgs rules))
      else return .mk name.text .none) fun segment => IsPathName segment.name :=
    fun name hname => .after fun _ => .ite (.after fun _ => .pure hname) (.pure hname)
  unfold pathSegment
  refine .ahead fun stream => ?_
  -- Words that are segments by themselves come first, then `Self`, then any other name.
  split
  · next hword =>
    exact (yieldsAt_pathWord (by decide) hword).bindYields fun name hname => .pure hname
  · refine Yields.at (.ahead fun stream => ?_) stream
    split
    · next hself =>
      rw [← anyWord_singleton] at hself
      exact (yieldsAt_pathWord (by decide) hself).bindYields hplain
    · exact Yields.at (yields_pathName.bind hplain) stream

theorem yields_pathWith (rules : Rules) (expression : Bool) :
    Yields (pathWith rules expression) Path.IsNamed := by
  unfold pathWith
  refine .after fun absolute => (yields_pathSegment rules expression).bind fun first hfirst => ?_
  have hmore : Yields (many do
      if ← ahead Ahead.moreSegments then
        op "::"
        return some (← pathSegment rules expression)
      else return none) fun segments => ∀ segment ∈ segments, IsPathName segment.name := by
    refine yields_many (.after fun _ => .ite (.after fun _ => ?_) .none)
    exact (yields_pathSegment rules expression).bind fun segment hsegment => .some hsegment
  refine hmore.bind fun more hmore => .pure ⟨?_, List.cons_ne_nil _ _⟩
  intro name hname
  obtain ⟨segment, hsegment, rfl⟩ := List.mem_map.1 hname
  rcases List.mem_cons.1 hsegment with rfl | hsegment
  · exact hfirst
  · exact hmore segment hsegment

/-- A path without a self type consists of names that may stand in it. -/
theorem yields_qualifiedPath (rules : Rules) (expression : Bool) :
    Yields (qualifiedPath rules expression) fun path => path.1 = none → path.2.IsNamed := by
  unfold qualifiedPath
  refine .after fun plain => .ite ?_ (.after fun _ => .after fun _ => .after fun cast => .ite ?_ ?_)
  · exact (yields_pathWith rules expression).bind fun path hpath => .pure fun _ => hpath
  all_goals
    refine .after fun cast => .after fun _ => .after fun _ => .after fun _ => .after fun _ => ?_
    -- With a self type the first component is never empty.
    split
    · exact Yields.pure (by intro h; cases h)
    · exact Yields.pure (by intro h; cases h)

/-! ## Bounds -/

theorem names_withCall (args : Args) (path : Path) :
    (Path.withCall args path).names = path.names := by
  obtain ⟨absolute, segments⟩ := path
  rcases List.eq_nil_or_concat segments with rfl | ⟨front, last, rfl⟩
  · rfl
  · simp [Path.withCall, Path.names, Path.segments, Segment.name]

/-- A trait that a bound of a trait object names, whose modifiers leave it a trait. -/
theorem yields_traitBound (rules : Rules) :
    Yields (traitBound rules objectContext) fun bound =>
      bound.1 = false ∧ bound.2.2.IsNamed := by
  unfold traitBound
  refine (yields_recording (?head : Yields _ fun kept => kept = false)).bind fun result hkept => ?_
  case head =>
    refine .after fun binds => .after fun conditional => .after fun constant => ?_
    -- Trait objects take neither of the modifiers that make a bound anything but a trait.
    cases conditional with
    | true => exact .after fun _ => .throw_bind _ _
    | false =>
      cases constant with
      | true => exact .after fun _ => .throw_bind _ _
      | false => exact .after fun _ => .join fun _ => .pure rfl
  refine (yields_pathWith rules false).bind fun path hpath => .after fun trees => .ite ?_ ?_
  · refine .after fun _ => .after fun args => .pure ⟨hkept, ?_⟩
    rw [Path.IsNamed, NamesPath, names_withCall]
    exact hpath
  · exact .pure ⟨hkept, hpath⟩

/-- A bound of a trait object is a lifetime, or a trait with a name. -/
theorem yields_boundWith (rules : Rules) :
    Yields (boundWith rules objectContext) fun bound =>
      bound.isLifetime = true ∨ bound.IsNamed := by
  unfold boundWith
  refine .after fun trees => .ite (.after fun _ => .pure (.inl rfl)) (.ite ?_ ?_)
  · exact .after fun _ => .throw _
  · refine (yields_spanning (.ite ?_ (yields_traitBound rules))).bind fun result hresult => ?_
    · exact yields_within .paren (yields_traitBound rules)
    · obtain ⟨⟨kept, head, path⟩, taken⟩ := result
      obtain ⟨rfl, hpath⟩ : kept = false ∧ path.IsNamed := hresult
      exact .pure (.inr hpath)

/-- Among the bounds of a trait object there is a trait with a name. -/
theorem yields_objectBounds (rules : Rules) (plus : Bool) :
    Yields (objectBounds rules plus) fun result => ∃ bound ∈ result.1, bound.IsNamed := by
  have hbounds : Yields (boundsWith rules objectContext plus) fun result =>
      ∀ bound ∈ result.1, bound.isLifetime = true ∨ bound.IsNamed := by
    unfold boundsWith
    refine Yields.bind (yields_loop ?step (fun _ h => absurd h List.not_mem_nil) :
      Yields _ fun state => ∀ bound ∈ state.1, bound.isLifetime = true ∨ bound.IsNamed) ?rest
    case rest =>
      exact fun state hstate => .pure fun bound hbound => hstate bound (List.mem_reverse.1 hbound)
    case step =>
      rintro ⟨bounds, more⟩ hbounds
      refine .ite .none (.after fun _ => .ite .none ?_)
      refine (yields_boundWith rules).bind fun bound hbound => ?_
      have hall : ∀ found ∈ bound :: bounds, found.isLifetime = true ∨ found.IsNamed :=
        List.forall_mem_cons.2 ⟨hbound, hbounds⟩
      exact .ite (.after fun _ => .some hall) (.after fun _ => .some hall)
  refine hbounds.bind fun result hresult => ?_
  obtain ⟨bounds, trailing⟩ := result
  refine .dite (fun htrait => .pure ?_) fun _ => .throw _
  obtain ⟨bound, hmem, htrait⟩ := List.any_eq_true.1 htrait
  refine ⟨bound, hmem, (hresult bound hmem).resolve_left fun hlifetime => ?_⟩
  cases bound with
  | lifetime => cases htrait
  | trait | verbatim => cases hlifetime

theorem yields_moreBounds (rules : Rules) (strict : Bool) {first : Bound} (h : first.IsNamed) :
    Yields (moreBounds rules strict first) Ty.IsNamed := by
  unfold moreBounds
  refine Yields.bind (yields_loop ?step ?start : Yields _ fun state => first ∈ state.1) ?rest
  case start => exact List.mem_cons_self
  case rest =>
    intro state hstate
    exact .pure ⟨first, List.mem_reverse.2 hstate, h⟩
  case step =>
    rintro ⟨bounds, more⟩ hbounds
    refine .ite .none (.after fun _ => .ite .none (.after fun _ => .ite (.some hbounds) ?_))
    exact .after fun _ => .some (.tail _ hbounds)

/-! ## Kinds of types -/

theorem isNamed_of_asParenthesizedBound? {type : Ty} {bound : Bound} (h : type.IsNamed)
    (hbound : Ty.asParenthesizedBound? type = some bound) : bound.IsNamed := by
  unfold Ty.asParenthesizedBound? at hbound
  split at hbound
  · obtain rfl := Option.some.inj hbound
    exact h
  · next found =>
    obtain ⟨named, hmem, hnamed⟩ := h
    obtain rfl := List.mem_singleton.1 hmem
    split at hbound <;>
    · obtain rfl := Option.some.inj hbound
      exact hnamed
  · cases hbound

/-- What parentheses enclose is named where it has to be. -/
def Enclosed.IsNamed : Enclosed → Prop
  | .bounds bound => bound.IsNamed
  | .object type => type.IsNamed
  | .tuple _ _ => True
  | .one type => type.IsNamed

section
variable {rules : Rules} (htype : ∀ plus, Yields (rules.type plus) Ty.IsNamed)
include htype

theorem yields_enclosed : Yields (enclosed rules) Enclosed.IsNamed := by
  unfold enclosed
  refine .after fun trees => .ite (.pure trivial) (.ite ?object (.ite ?bounds ?one))
  case object => exact (yields_objectBounds rules true).bind fun bounds hbounds => .pure hbounds
  case bounds => exact (yields_traitBound rules).bind fun bound hbound => .pure hbound.2
  case one =>
    refine (htype true).bind fun first hfirst => .after fun more => .ite ?_ (.pure hfirst)
    exact .after fun _ => .after fun _ => .pure trivial

theorem yields_parenType (plus : Bool) : Yields (parenType rules plus) Ty.IsNamed := by
  unfold parenType
  refine (yields_within _ (yields_enclosed htype)).bind fun inside hinside => ?_
  split
  · exact .pure trivial
  · exact .pure hinside
  · exact yields_moreBounds rules true hinside
  · refine .after fun more => .ite ?_ (.pure hinside)
    split
    · next hbound =>
      exact yields_moreBounds rules true (isNamed_of_asParenthesizedBound? hinside hbound)
    · exact .pure hinside

omit htype in
theorem yields_pathType (plus : Bool) (binder : Option (List Piece)) :
    Yields (pathType rules plus binder) Ty.IsNamed := by
  unfold pathType
  refine (yields_qualifiedPath rules false).bind fun qualified hqualified => ?_
  obtain ⟨owner, path⟩ := qualified
  refine .after fun trees => ?_
  cases owner with
  | some owner => exact .pure trivial
  | none =>
    have hpath : path.IsNamed := hqualified rfl
    refine .ite (.pure hpath) (.ite ?_ (.ite (.ite ?_ ?_) (.pure hpath)))
    · exact .after fun _ => .pure trivial
    · exact yields_moreBounds rules false hpath
    · exact .pure ⟨_, List.mem_singleton_self _, hpath⟩

omit htype in
/-- The keyword of a function pointer is recorded. -/
theorem yields_functionType (binder : List Piece) :
    Yields (functionType rules binder) Ty.IsNamed := by
  have hkeyword : Leaves (keyword "fn") fun stream =>
      .token (.ident "fn") ∈ stream.taken.reverse := by
    intro stream _ after hrun
    obtain ⟨-, before, hbefore⟩ := exists_of_keyword hrun
    rw [List.mem_reverse, hbefore]
    exact List.mem_cons_self
  have hhead : Yields (recording functionQualifiers) fun result =>
      .token (.ident "fn") ∈ result.2 := by
    refine recording_of_leaves (.after fun _ => .after fun _ => .ite (.after fun _ => ?_) hkeyword)
    exact .ite (.after fun _ => hkeyword) hkeyword
  refine hhead.bind fun head hfn => .after fun _ => .after fun _ => .pure ?_
  exact List.mem_append_right _ hfn

omit htype in
/-- A trait object with a star is kept with its keyword in front. -/
theorem yields_dynType (plus : Bool) : Yields (dynType rules plus) Ty.IsNamed := by
  unfold dynType
  intro stream type after hrun
  -- Nothing has to be known of how far the trees reach: if there is one, it is the keyword.
  obtain ⟨⟨value, trees⟩, between, hspanning, hrun⟩ := exists_of_run_bind hrun
  obtain ⟨count, inside, rfl, hgrammar⟩ := exists_of_spanning hspanning
  obtain ⟨_, _, hkeyword, -⟩ := exists_of_run_bind hgrammar
  obtain ⟨⟨line, rest, hrest⟩, -⟩ := exists_of_keyword hkeyword
  rw [show stream.rest = _ from hrest] at hrun
  dsimp only at hrun
  split at hrun
  · cases hrun
    cases count with
    | zero => exact .inl rfl
    | succ count => exact .inr ⟨_, rfl⟩
  · cases hrun
    trivial

/-- A type that is read is named where it has to be, if the types inside it are. -/
theorem yields_typeWith (plus : Bool) : Yields (typeWith rules plus) Ty.IsNamed := by
  unfold typeWith
  refine .after fun bound => .after fun trees => .join fun _ => ?_
  refine .ite (yields_parenType htype _) (.ite (yields_functionType _) (.ite (yields_pathType _ _)
    (.ite (yields_dynType _) (.ite ?slice (.ite ?pointer (.ite ?reference (.ite ?never
      (.ite ?anonymous (.ite ?inferred (.ite ?object (yields_expected _ _)))))))))))
  case slice =>
    refine yields_within _ (.after fun _ => .after fun _ => .ite ?_ (.pure trivial))
    exact .after fun _ => .pure trivial
  case pointer =>
    refine .after fun _ => .after fun _ => .ite ?_ (.ite ?_ (yields_expected _ _))
    · exact .after fun _ => .after fun _ => .pure trivial
    · exact .after fun _ => .after fun _ => .pure trivial
  case reference =>
    exact .after fun _ => .after fun _ => .after fun _ => .after fun _ => .pure trivial
  case never => exact .after fun _ => .pure trivial
  case anonymous => exact .after fun _ => .after fun _ => .ite (.pure trivial) (.throw _)
  case inferred => exact .after fun _ => .pure trivial
  case object => exact (yields_objectBounds rules true).bind fun bounds hbounds => .pure hbounds

end

end Grammar

end Bindery.Source
