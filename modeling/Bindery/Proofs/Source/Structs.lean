import Bindery.Expansion
import Bindery.Proofs.Source.Items
/-!
# Structs among items

A struct can be read by itself and as one of many kinds of items. Both ways of reading begin with
the attributes and the visibility, and the word behind them decides: where `struct` stands, an item
is read as the struct (`run_undecorated_struct`), and elsewhere there is no struct. So a unit struct
is known as one whichever way its trees are read (`isUnitStruct_of_item`), and a member of an
implementation is none (`isUnitStruct_of_member`).
-/

namespace Bindery.Source

/-- Whether an item is a unit struct. -/
def Item.isUnitStruct : Item → Bool
  | .struct _ _ _ unit => unit
  | _ => false

namespace Grammar

theorem readTrees_ok_iff {α : Type} {grammar : Rules → Grammar α} {trees : Trees} {value : α} :
    readTrees grammar trees = .ok value ↔
      ∃ after, (grammar (Rules.for trees)).run ⟨trees, []⟩ = .ok (value, after) ∧
        after.rest.isEmpty = true := by
  rw [readTrees, whole]
  cases hrun : (grammar (Rules.for trees)).run ⟨trees, []⟩ with
  | error fault => simp [bind, Except.bind]
  | ok result =>
    obtain ⟨found, after⟩ := result
    cases hrest : after.rest.isEmpty
    · simp only [bind, Except.bind, hrest]
      constructor
      · intro h
        cases h
      · rintro ⟨other, hother, hempty⟩
        obtain ⟨-, rfl⟩ := Prod.mk.inj (Except.ok.inj hother)
        rw [hrest] at hempty
        cases hempty
    · simp only [bind, Except.bind, hrest]
      constructor
      · intro h
        obtain rfl := Except.ok.inj h
        exact ⟨after, rfl, hrest⟩
      · rintro ⟨other, hother, -⟩
        obtain ⟨rfl, -⟩ := Prod.mk.inj (Except.ok.inj hother)
        rfl

/-! ## The word behind the visibility -/

section
variable (rules : Rules) (attributes : List Attribute) (visibility : Visibility)

/-- Where the word `struct` stands, an item is a struct. -/
theorem run_undecorated_struct (line : Nat) (rest : Trees) (taken : List Piece) :
    (undecorated rules attributes visibility).run ⟨.leaf ⟨.ident "struct", line⟩ :: rest, taken⟩ =
      (structItem rules attributes visibility).run
        ⟨.leaf ⟨.ident "struct", line⟩ :: rest, taken⟩ := rfl

/-- Where another word stands, there is no struct. -/
theorem run_structItem_error {stream : Stream} (h : Ahead.word "struct" stream.rest = false) :
    ∃ fault, (structItem rules attributes visibility).run stream = .error fault := by
  have hkeyword : ∃ fault, (keyword "struct").run stream = .error fault := by
    have hahead : (ahead (Ahead.word "struct")).run stream = .ok (false, stream) := by
      rw [← h]
      rfl
    rw [keyword, run_bind_of_ok hahead]
    exact ⟨_, rfl⟩
  obtain ⟨fault, hfault⟩ := hkeyword
  refine ⟨fault, ?_⟩
  rw [structItem, StateT.run_bind, hfault]
  rfl

/-- Where another word stands, an item is no struct. -/
theorem isUnitStruct_of_undecorated {stream after : Stream} {item : Item}
    (h : Ahead.word "struct" stream.rest = false)
    (hrun : (undecorated rules attributes visibility).run stream = .ok (item, after)) :
    item.isUnitStruct = false := by
  have forms : Forms (fun _ => True) (fun _ => True) (Ahead.word "struct" stream.rest = true)
      (·.isUnitStruct = false) := by
    refine ⟨fun item hitem _ => ?_, fun _ _ _ _ _ => rfl, fun hword => ?_, fun _ _ _ _ => rfl,
      fun _ _ _ _ _ _ => rfl⟩
    · cases item <;> first | rfl | cases hitem
    · rw [h] at hword
      cases hword
  exact yieldsAt_undecorated forms (fun _ _ _ _ => trivial) (fun _ _ _ _ _ => trivial) attributes
    visibility item after hrun

end

end Grammar

open Grammar

/-! ## Reading a struct by itself -/

section
variable {trees : Trees} {attributes : List Attribute} {visibility : Visibility}
  {first second : Stream}

theorem run_structOnly
    (hattributes : (outerAttributes (Rules.for trees)).run ⟨trees, []⟩ = .ok (attributes, first))
    (hvisibility : Grammar.visibility.run first = .ok (visibility, second)) :
    (structOnly (Rules.for trees)).run ⟨trees, []⟩ =
      (structItem (Rules.for trees) attributes visibility).run second := by
  rw [structOnly, run_bind_of_ok hattributes, run_bind_of_ok hvisibility]

theorem isUnitStruct_eq_false
    (hattributes : (outerAttributes (Rules.for trees)).run ⟨trees, []⟩ = .ok (attributes, first))
    (hvisibility : Grammar.visibility.run first = .ok (visibility, second))
    (hword : Ahead.word "struct" second.rest = false) :
    MarkerAttribute.isUnitStruct trees = false := by
  obtain ⟨fault, hfault⟩ := run_structItem_error (Rules.for trees) attributes visibility hword
  unfold MarkerAttribute.isUnitStruct
  split
  · next hread =>
    obtain ⟨after, hrun, -⟩ := readTrees_ok_iff.1 hread
    rw [run_structOnly hattributes hvisibility, hfault] at hrun
    cases hrun
  · rfl

end

/-- A unit struct is known as one by itself just when the item is one. -/
theorem isUnitStruct_of_item {trees : Trees} {item : Item}
    (h : readTrees itemWith trees = .ok item) :
    MarkerAttribute.isUnitStruct trees = item.isUnitStruct := by
  obtain ⟨after, hrun, hrest⟩ := readTrees_ok_iff.1 h
  rw [itemWith_eq] at hrun
  obtain ⟨attributes, first, hattributes, hrun⟩ := exists_of_run_bind hrun
  obtain ⟨visibility, second, hvisibility, hrun⟩ := exists_of_run_bind hrun
  cases hword : Ahead.word "struct" second.rest with
  | true =>
    have hstruct := run_structOnly hattributes hvisibility
    obtain ⟨rest, taken⟩ := second
    obtain ⟨line, rest, rfl⟩ := exists_of_word hword
    rw [run_undecorated_struct, ← hstruct] at hrun
    rw [MarkerAttribute.isUnitStruct, readTrees_ok_iff.2 ⟨after, hrun, hrest⟩]
    cases item <;> rfl
  | false =>
    rw [isUnitStruct_eq_false hattributes hvisibility hword,
      isUnitStruct_of_undecorated _ _ _ hword hrun]

/-- A member of an implementation is no struct by itself. -/
theorem isUnitStruct_of_member {trees : Trees} {member : Member}
    (h : readTrees implementationMember trees = .ok member) :
    MarkerAttribute.isUnitStruct trees = false := by
  obtain ⟨after, hrun, -⟩ := readTrees_ok_iff.1 h
  unfold implementationMember at hrun
  obtain ⟨attributes, first, hattributes, hrun⟩ := exists_of_run_bind hrun
  obtain ⟨visibility, second, hvisibility, hrun⟩ := exists_of_run_bind hrun
  refine isUnitStruct_eq_false hattributes hvisibility (Bool.eq_false_iff.2 fun hword => ?_)
  -- The word `struct` begins no member, whatever is ahead behind it.
  obtain ⟨rest, taken⟩ := second
  obtain ⟨line, rest, rfl⟩ := exists_of_word hword
  cases visibility <;> cases hrun

end Bindery.Source
