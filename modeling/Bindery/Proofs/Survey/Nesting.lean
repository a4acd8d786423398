import Bindery.Proofs.Source.Path
import Mathlib.Data.List.Basic
/-!
# Modules in modules

Whether something lies in a module is told from the texts of two paths. Where names without colons
spell both, this comes to comparing the names (`isInside_iff_names`).
-/

namespace Bindery

open Source (Path Spells)

/-- A name goes up to the colon behind it. -/
theorem prefix_colon_iff {first second more rest : List Char} (hfirst : ':' ∉ first)
    (hsecond : ':' ∉ second) :
    first ++ ':' :: more <+: second ++ ':' :: rest ↔ first = second ∧ more <+: rest := by
  have htake : ∀ {name : List Char}, ':' ∉ name → ∀ after : List Char,
      (name ++ ':' :: after).takeWhile (· ≠ ':') = name := by
    intro name hname after
    rw [List.takeWhile_append_of_pos fun c hc => by simpa using ne_of_mem_of_not_mem hc hname]
    simp
  constructor
  · rintro ⟨tail, h⟩
    have hnames := congrArg (List.takeWhile (· ≠ ':')) h
    rw [List.append_assoc, List.cons_append, htake hfirst, htake hsecond] at hnames
    obtain rfl := hnames
    rw [List.append_assoc] at h
    obtain ⟨-, hrest⟩ := List.cons.inj (List.append_cancel_left h)
    exact ⟨rfl, tail, hrest⟩
  · rintro ⟨rfl, tail, rfl⟩
    exact ⟨tail, by simp⟩

/-- Names with a double colon behind each. -/
def closedNames (names : List String) : List Char :=
  names.flatMap fun name => name.toList ++ [':', ':']

theorem closedNames_prefix_iff {first second : List String}
    (hfirst : ∀ name ∈ first, ':' ∉ name.toList) (hsecond : ∀ name ∈ second, ':' ∉ name.toList) :
    closedNames first <+: closedNames second ↔ first <+: second := by
  induction first generalizing second with
  | nil => simp [closedNames]
  | cons name more ih =>
    obtain ⟨hname, hmore⟩ := List.forall_mem_cons.1 hfirst
    cases second with
    | nil => simp [closedNames]
    | cons other rest =>
      obtain ⟨hother, hrest⟩ := List.forall_mem_cons.1 hsecond
      have hclosed : ∀ (name : String) (names : List String),
          closedNames (name :: names) = name.toList ++ ':' :: ':' :: closedNames names := by
        simp [closedNames]
      rw [hclosed, hclosed, prefix_colon_iff hname hother, List.cons_prefix_cons,
        List.cons_prefix_cons, String.toList_inj, ih hmore hrest, eq_self, true_and]

/-- What names spell has double colons between the names. -/
theorem Source.Spells.closed {names : List String} {text : String} (h : Spells names text) :
    text.toList ++ [':', ':'] = closedNames names := by
  obtain ⟨hnonempty, rfl⟩ := h
  obtain ⟨first, more, rfl⟩ := List.exists_cons_of_ne_nil hnonempty
  induction more generalizing first with
  | nil => simp [closedNames]
  | cons second more ih =>
    have hmore := ih second (List.cons_ne_nil _ _)
    rw [Path.intercalate_eq] at hmore
    rw [Path.intercalate_eq, Path.shownNames, closedNames, List.flatMap_cons, ← closedNames,
      ← hmore]
    simp [String.toList_append]

/-- One module lies in another exactly if the names that lead to the other are the first of those
that lead to it. -/
theorem isInside_iff_names {outer inner : List String} {module path : String}
    (hmodule : Spells outer module) (hpath : Spells inner path)
    (houter : ∀ name ∈ outer, ':' ∉ name.toList) (hinner : ∀ name ∈ inner, ':' ∉ name.toList) :
    Survey.isInside module path = true ↔ outer <+: inner := by
  rw [Survey.isInside, Bool.or_eq_true, beq_iff_eq, List.isPrefixOf_iff_prefix]
  constructor
  · intro h
    rw [← closedNames_prefix_iff houter hinner, ← hmodule.closed, ← hpath.closed]
    rcases h with rfl | hstart
    · exact List.prefix_refl _
    · exact hstart.trans (List.prefix_append _ _)
  · rintro ⟨more, rfl⟩
    obtain ⟨first, rest, rfl⟩ := List.exists_cons_of_ne_nil hmodule.1
    have hlonger : path = module ++ Path.shownNames more := by
      rw [hpath.2, hmodule.2, List.cons_append, Path.intercalate_eq, Path.intercalate_eq,
        Path.shownNames_append, String.append_assoc]
    cases more with
    | nil => exact .inl (hlonger.trans (by simp [Path.shownNames]))
    | cons name more =>
      refine .inr ⟨name.toList ++ (Path.shownNames more).toList, ?_⟩
      rw [hlonger, Path.shownNames]
      simp [String.toList_append]

end Bindery
