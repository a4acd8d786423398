import Bindery.Proofs.Registry
import Mathlib.Data.List.Perm.Basic
import Mathlib.Tactic.Abel
import Mathlib.Algebra.Order.Group.Multiset
/-!
# Where delegates go

A registry holds a delegate for each name that has one, and the interceptor. What changes put into a
registry is afterwards in its seat, or has been handed back by the change that displaced it, or was
displaced by an installation, which hands nothing back: `balance`. In each seat is what was put
there last, unless it was taken away later: `at?_foldl_apply`.
-/

namespace Bindery

namespace Keyed

variable {κ α : Type} [DecidableEq κ]

/-! ## The values of keyed lists -/

/-- The values, in any order. -/
def values (entries : List (κ × α)) : Multiset α :=
  ↑(entries.map (·.2))

omit [DecidableEq κ] in
theorem values_cons (entry : κ × α) (rest : List (κ × α)) :
    values (entry :: rest) = entry.2 ::ₘ values rest := rfl

/-- The values are what is found for the keys. -/
theorem filterMap_find?_keys {entries : List (κ × α)} (h : (keys entries).Nodup) :
    (keys entries).filterMap (find? entries) = entries.map (·.2) := by
  induction entries with
  | nil => rfl
  | cons entry rest ih =>
    obtain ⟨hnot, hrest⟩ := List.nodup_cons.1 h
    have hkeys : (keys rest).filterMap (find? (entry :: rest)) =
        (keys rest).filterMap (find? rest) := by
      refine List.filterMap_congr fun key hkey => if_neg ?_
      rintro rfl
      exact hnot hkey
    rw [keys, List.map_cons, List.filterMap_cons, find?, if_pos rfl, List.map_cons]
    exact congrArg _ (hkeys.trans (ih hrest))

/-- A key that is given a value loses its earlier one. -/
theorem values_insert (entries : List (κ × α)) (key : κ) (value : α) :
    values (insert entries key value) + ↑(find? entries key).toList = value ::ₘ values entries := by
  induction entries with
  | nil => rfl
  | cons entry rest ih =>
    by_cases h : entry.1 = key
    · simpa [insert, find?, h, values_cons] using Multiset.add_comm _ {entry.2}
    · rw [insert, find?, if_neg h, if_neg h, values_cons, values_cons, Multiset.cons_add, ih,
        Multiset.cons_swap]

/-- A key that is taken away loses its value. -/
theorem values_erase {entries : List (κ × α)} (h : (keys entries).Nodup) (key : κ) :
    values (erase entries key) + ↑(find? entries key).toList = values entries := by
  induction entries with
  | nil => rfl
  | cons entry rest ih =>
    obtain ⟨hnot, hrest⟩ := List.nodup_cons.1 h
    by_cases hk : entry.1 = key
    · subst hk
      have hother : ∀ other ∈ rest, other.1 ≠ entry.1 := fun other hother heq =>
        hnot (List.mem_map.2 ⟨other, hother, heq⟩)
      have herase : erase (entry :: rest) entry.1 = rest := by
        rw [erase, List.filter_cons_of_neg (by simp),
          List.filter_eq_self.2 fun other h => by simpa using hother other h]
      simpa [herase, find?, values_cons] using Multiset.add_comm _ {entry.2}
    · have herase : erase (entry :: rest) key = entry :: erase rest key :=
        List.filter_cons_of_pos (by simpa using hk)
      rw [herase, find?, if_neg hk, values_cons, values_cons, Multiset.cons_add, ih hrest]

end Keyed

/-! ## Seats -/

/-- Where a registry can hold a delegate. -/
inductive Seat where
  | name (name : String)
  | interceptor
  deriving DecidableEq

namespace Change

variable {δ : Type}

/-- The seat that a change is about. Installations and drops are not about one seat. -/
def seat? : Change δ → Option Seat
  | define name _ | remove name => some (.name name)
  | setInterceptor _ | clearInterceptor => some .interceptor
  | install _ | drop => none

/-- The delegate that a change puts into its seat. -/
def given? : Change δ → Option δ
  | define _ delegate | setInterceptor delegate => some delegate
  | remove _ | clearInterceptor | install _ | drop => none

/-- Whether a change registers bindings. -/
def isInstall : Change δ → Bool
  | install _ => true
  | _ => false

/-- The changes of single seats that a change comes to, in their order. -/
def parts : Change δ → List (Change δ)
  | install bindings =>
    (bindings.providers.getD []).map (fun (name, delegate) => define name delegate) ++
      bindings.interceptor.toList.map setInterceptor
  | change => [change]

theorem isInstall_of_mem_parts {change part : Change δ} (h : part ∈ change.parts) :
    part.isInstall = false := by
  cases change with
  | install bindings =>
    rcases List.mem_append.1 h with h | h <;> obtain ⟨_, -, rfl⟩ := List.mem_map.1 h <;> rfl
  | define | remove | setInterceptor | clearInterceptor | drop =>
    obtain rfl := List.mem_singleton.1 h
    rfl

/-- The last change that is about a seat. -/
def last? (changes : List (Change δ)) (seat : Seat) : Option (Change δ) :=
  changes.reverse.find? (·.seat? = some seat)

theorem last?_concat (changes : List (Change δ)) (change : Change δ) (seat : Seat) :
    last? (changes ++ [change]) seat =
      if change.seat? = some seat then some change else last? changes seat := by
  by_cases h : change.seat? = some seat <;> simp [last?, h]

theorem last?_eq_some_iff {changes : List (Change δ)} {seat : Seat} {change : Change δ} :
    last? changes seat = some change ↔
      change.seat? = some seat ∧ ∃ earlier later, changes = earlier ++ change :: later ∧
        ∀ other ∈ later, other.seat? ≠ some seat := by
  simp only [last?, List.find?_eq_some_iff_append, decide_eq_true_eq]
  refine and_congr_right fun _ => ⟨?_, ?_⟩
  · rintro ⟨later, earlier, heq, hlater⟩
    refine ⟨earlier.reverse, later.reverse, ?_, fun other hother => ?_⟩
    · simpa using congrArg List.reverse heq
    · simpa using hlater other (List.mem_reverse.1 hother)
  · rintro ⟨earlier, later, rfl, hlater⟩
    refine ⟨later.reverse, earlier.reverse, by simp, fun other hother => ?_⟩
    simpa using hlater other (List.mem_reverse.1 hother)

/-- The delegates that changes put into seats. -/
def givens (changes : List (Change δ)) : List δ :=
  (changes.flatMap parts).filterMap given?

end Change

namespace Registry

variable {δ : Type} (registry : Registry δ)

/-- The delegate in a seat. -/
def at? (registry : Registry δ) : Seat → Option δ
  | .name name => registry.get? name
  | .interceptor => registry.interceptor

/-- The delegates that a registry holds: one for each name that has one, and the interceptor. -/
def held (registry : Registry δ) : Multiset δ :=
  ↑(registry.names.filterMap registry.get?) + ↑registry.interceptor.toList

/-- What changes hand back that are made one after the other. -/
def handedBack (registry : Registry δ) : List (Change δ) → List δ
  | [] => []
  | change :: rest =>
    (registry.displaced? change).toList ++ (registry.apply change).handedBack rest

/-- What installations displace among changes that are made one after the other. -/
def forgotten (registry : Registry δ) : List (Change δ) → List δ
  | [] => []
  | change :: rest =>
    (if change.isInstall then registry.handedBack change.parts else []) ++
      (registry.apply change).forgotten rest

/-! ## Single seats -/

theorem apply_parts (change : Change δ) :
    change.parts.foldl apply registry = registry.apply change := by
  cases change with
  | install bindings =>
    obtain ⟨providers, interceptor⟩ := bindings
    have hdefined :
        ((providers.getD []).map fun (name, delegate) => Change.define name delegate).foldl apply
          registry = registry.defineAll (providers.getD []) := by
      rw [List.foldl_map, defineAll]
      rfl
    rw [Change.parts, List.foldl_append, hdefined]
    cases interceptor <;> rfl
  | define | remove | setInterceptor | clearInterceptor | drop => rfl

theorem apply_flatMap_parts (changes : List (Change δ)) :
    (changes.flatMap Change.parts).foldl apply registry = changes.foldl apply registry := by
  induction changes generalizing registry with
  | nil => rfl
  | cons change rest ih =>
    rw [List.flatMap_cons, List.foldl_append, apply_parts, ih]
    rfl

/-- A change of a single seat puts there what it is given. Every other seat stays as it is. -/
theorem at?_apply {change : Change δ} (h : change.isInstall = false) (seat : Seat) :
    (registry.apply change).at? seat =
      if change.seat? = some seat then change.given? else registry.at? seat := by
  cases change with
  | install => cases h
  | define name delegate =>
    cases seat with
    | name other => simp [apply, at?, Change.seat?, Change.given?, eq_comm]
    | interceptor => simp [apply, at?, Change.seat?]
  | remove name =>
    cases seat with
    | name other =>
      simp [apply, at?, Change.seat?, Change.given?, eq_comm]
    | interceptor => simp [apply, at?, Change.seat?, remove]
  | setInterceptor | clearInterceptor | drop => cases seat <;> rfl

/-- A change leaves every seat as it is that none of its parts is about. -/
theorem at?_apply_of_ne {change : Change δ} {seat : Seat}
    (h : ∀ part ∈ change.parts, part.seat? ≠ some seat) :
    (registry.apply change).at? seat = registry.at? seat := by
  rw [← apply_parts]
  have hparts : ∀ part ∈ change.parts, part.isInstall = false := fun _ =>
    Change.isInstall_of_mem_parts
  generalize change.parts = parts at h hparts
  induction parts generalizing registry with
  | nil => rfl
  | cons part rest ih =>
    rw [List.foldl_cons, ih _ (fun other hother => h other (List.mem_cons_of_mem _ hother))
      (fun other hother => hparts other (List.mem_cons_of_mem _ hother)),
      at?_apply _ (hparts part List.mem_cons_self), if_neg (h part List.mem_cons_self)]

/-- After changes of single seats, the last one about a seat decides what is there. -/
theorem at?_foldl_apply {parts : List (Change δ)} (hparts : ∀ part ∈ parts, part.isInstall = false)
    (seat : Seat) :
    (parts.foldl apply registry).at? seat =
      ((Change.last? parts seat).map Change.given?).getD (registry.at? seat) := by
  induction parts using List.reverseRecOn with
  | nil => rfl
  | append_singleton parts part ih =>
    rw [List.foldl_concat, at?_apply _ (hparts part (by simp)),
      ih fun other hother => hparts other (List.mem_append_left _ hother), Change.last?_concat]
    split <;> rfl

/-! ## All seats -/

/-- Each name has one delegate at most. -/
def WellKeyed (registry : Registry δ) : Prop :=
  (Keyed.keys registry.delegates).Nodup

theorem wellKeyed_empty : (empty : Registry δ).WellKeyed :=
  List.nodup_nil

variable {registry}

theorem wellKeyed_apply (h : registry.WellKeyed) {change : Change δ}
    (hpart : change.isInstall = false) : (registry.apply change).WellKeyed := by
  cases change with
  | install => cases hpart
  | define name delegate => exact Keyed.nodup_keys_insert h name delegate
  | remove name => exact Keyed.nodup_keys_erase h name
  | setInterceptor | clearInterceptor | drop => exact h

theorem held_eq (h : registry.WellKeyed) :
    registry.held = Keyed.values registry.delegates + ↑registry.interceptor.toList := by
  have hnames : (registry.names.filterMap registry.get?).Perm (registry.delegates.map (·.2)) := by
    rw [← Keyed.filterMap_find?_keys h]
    exact (List.mergeSort_perm _ _).filterMap _
  exact congrArg (· + (registry.interceptor.toList : Multiset δ)) (Multiset.coe_eq_coe.2 hnames)

/-- A change of a single seat hands back what it displaces, and the rest stays. -/
theorem held_apply (h : registry.WellKeyed) {change : Change δ}
    (hpart : change.isInstall = false) :
    (registry.apply change).held + ↑(registry.displaced? change).toList =
      ↑change.given?.toList + registry.held := by
  rw [held_eq (wellKeyed_apply h hpart), held_eq h]
  cases change with
  | install => cases hpart
  | define name delegate =>
    have hvalues := Keyed.values_insert registry.delegates name delegate
    rw [add_right_comm]
    exact (congrArg (· + (registry.interceptor.toList : Multiset δ)) hvalues).trans
      (Multiset.cons_add _ _ _)
  | remove name =>
    have hvalues := Keyed.values_erase h name
    rw [add_right_comm]
    exact (congrArg (· + (registry.interceptor.toList : Multiset δ)) hvalues).trans
      (zero_add _).symm
  | setInterceptor delegate => exact (add_right_comm _ _ _).trans (add_comm _ _)
  | clearInterceptor => simp [apply, clearInterceptor, displaced?, Change.given?]
  | drop => exact (add_zero _).trans (zero_add _).symm

/-- What is put into seats one after the other is held afterwards or has been handed back, along
with what was held before. -/
theorem held_parts (h : registry.WellKeyed) {parts : List (Change δ)}
    (hparts : ∀ part ∈ parts, part.isInstall = false) :
    (parts.foldl apply registry).WellKeyed ∧
      (parts.foldl apply registry).held + ↑(registry.handedBack parts) =
        ↑(parts.filterMap Change.given?) + registry.held := by
  induction parts generalizing registry with
  | nil => exact ⟨h, (add_zero _).trans (zero_add _).symm⟩
  | cons part rest ih =>
    have hpart := hparts part List.mem_cons_self
    obtain ⟨hkeyed, hbalance⟩ := ih (wellKeyed_apply h hpart)
      fun other hother => hparts other (List.mem_cons_of_mem _ hother)
    have hgiven : (part :: rest).filterMap Change.given? =
        part.given?.toList ++ rest.filterMap Change.given? := by
      cases hp : part.given? <;> simp [hp]
    refine ⟨hkeyed, ?_⟩
    rw [handedBack, hgiven, List.foldl_cons, ← Multiset.coe_add, ← Multiset.coe_add, add_left_comm,
      hbalance, add_left_comm, add_comm _ (registry.apply part).held, held_apply h hpart]
    abel

/-- What a change hands back and what it forgets is what its parts displace. -/
theorem displaced?_append_forgotten (registry : Registry δ) (change : Change δ) :
    (registry.displaced? change).toList ++
      (if change.isInstall then registry.handedBack change.parts else []) =
        registry.handedBack change.parts := by
  cases change with
  | install => rfl
  | define | remove | setInterceptor | clearInterceptor | drop => rfl

/-- What changes put into seats is held afterwards, or has been handed back, or was displaced by an
installation, along with what was held before. -/
theorem balance (h : registry.WellKeyed) (changes : List (Change δ)) :
    (changes.foldl apply registry).held + ↑(registry.handedBack changes) +
      ↑(registry.forgotten changes) = ↑(Change.givens changes) + registry.held := by
  induction changes generalizing registry with
  | nil => exact (add_zero _).trans ((add_zero _).trans (zero_add _).symm)
  | cons change rest ih =>
    have hpart : ∀ part ∈ change.parts, part.isInstall = false := fun _ =>
      Change.isInstall_of_mem_parts
    obtain ⟨hkeyed, hparts⟩ := held_parts h hpart
    rw [apply_parts] at hkeyed hparts
    have hgivens : Change.givens (change :: rest) =
        change.parts.filterMap Change.given? ++ Change.givens rest := by
      rw [Change.givens, List.flatMap_cons, List.filterMap_append, Change.givens]
    rw [handedBack, forgotten, hgivens, List.foldl_cons]
    simp only [← Multiset.coe_add]
    calc
      _ = ((rest.foldl apply (registry.apply change)).held +
            ↑((registry.apply change).handedBack rest) +
            ↑((registry.apply change).forgotten rest)) +
          (((registry.displaced? change).toList : Multiset δ) +
            ↑(if change.isInstall then registry.handedBack change.parts else [])) := by abel
      _ = (↑(Change.givens rest) + (registry.apply change).held) +
          ↑(registry.handedBack change.parts) := by
        rw [ih hkeyed, Multiset.coe_add, displaced?_append_forgotten]
      _ = ↑(Change.givens rest) + (↑(change.parts.filterMap Change.given?) + registry.held) := by
        rw [add_assoc, hparts]
      _ = _ := by abel

theorem forgotten_eq_nil {changes : List (Change δ)}
    (h : ∀ change ∈ changes, change.isInstall = false) : registry.forgotten changes = [] := by
  induction changes generalizing registry with
  | nil => rfl
  | cons change rest ih =>
    rw [forgotten, h change List.mem_cons_self,
      ih fun other hother => h other (List.mem_cons_of_mem _ hother)]
    rfl

/-! ## Accounts -/

/-- How a registry accounts for the changes that have made it of an empty one. -/
structure Accounts (changes : List (Change δ)) (registry : Registry δ) : Prop where
  /-- What was put into seats is held, or has been handed back, or was displaced by an
  installation. -/
  balance : (Change.givens changes : Multiset δ) =
    registry.held + ↑(empty.handedBack changes) + ↑(empty.forgotten changes)
  /-- Without installations, all that was displaced has been handed back. -/
  forgets : (∀ change ∈ changes, change.isInstall = false) → empty.forgotten changes = []
  /-- A name has the delegate that it was given last, unless the name was removed later. -/
  name : ∀ name delegate, registry.get? name = some delegate ↔
    ∃ earlier later, changes.flatMap Change.parts = earlier ++ .define name delegate :: later ∧
      ∀ other ∈ later, other.seat? ≠ some (.name name)
  /-- The interceptor is the one that was set last, unless it was cleared later. -/
  interceptor : ∀ delegate, registry.interceptor = some delegate ↔
    ∃ earlier later, changes.flatMap Change.parts = earlier ++ .setInterceptor delegate :: later ∧
      ∀ other ∈ later, other.seat? ≠ some .interceptor
  /-- A change leaves all other seats as they are. -/
  elsewhere : ∀ earlier change later, changes = earlier ++ change :: later →
    ∀ seat, (∀ part ∈ change.parts, part.seat? ≠ some seat) →
      ((earlier ++ [change]).foldl apply empty).at? seat = (earlier.foldl apply empty).at? seat

theorem eq_define {change : Change δ} {name : String} {delegate : δ} :
    change.seat? = some (.name name) ∧ change.given? = some delegate ↔
      change = .define name delegate := by
  cases change <;> simp [Change.seat?, Change.given?]

theorem eq_setInterceptor {change : Change δ} {delegate : δ} :
    change.seat? = some .interceptor ∧ change.given? = some delegate ↔
      change = .setInterceptor delegate := by
  cases change <;> simp [Change.seat?, Change.given?]

/-- After changes of an empty registry, the delegate in a seat is what was put there last. -/
theorem at?_eq_some_iff {changes : List (Change δ)} {seat : Seat} {delegate : δ} :
    (changes.foldl apply empty).at? seat = some delegate ↔
      ∃ part, (part.seat? = some seat ∧ part.given? = some delegate) ∧
        ∃ earlier later, changes.flatMap Change.parts = earlier ++ part :: later ∧
          ∀ other ∈ later, other.seat? ≠ some seat := by
  have hparts : ∀ part ∈ changes.flatMap Change.parts, part.isInstall = false := by
    intro part hpart
    obtain ⟨change, -, hpart⟩ := List.mem_flatMap.1 hpart
    exact Change.isInstall_of_mem_parts hpart
  have hempty : (empty : Registry δ).at? seat = none := by cases seat <;> rfl
  have hjoin : ∀ last : Option (Change δ), (last.map Change.given?).getD none =
      last.bind Change.given? := by rintro (_ | _) <;> rfl
  rw [← apply_flatMap_parts, at?_foldl_apply _ hparts, hempty, hjoin, Option.bind_eq_some_iff]
  simp only [Change.last?_eq_some_iff]
  exact exists_congr fun part => and_right_comm

theorem accounts (changes : List (Change δ)) : Accounts changes (changes.foldl apply empty) where
  balance := by
    have h := balance wellKeyed_empty changes
    have hempty : (empty : Registry δ).held = 0 := held_eq wellKeyed_empty
    rw [hempty, add_zero] at h
    exact h.symm
  forgets := forgotten_eq_nil
  name name delegate := by
    rw [← at?, at?_eq_some_iff]
    simp only [eq_define, exists_eq_left]
  interceptor delegate := by
    rw [← at?, at?_eq_some_iff]
    simp only [eq_setInterceptor, exists_eq_left]
  elsewhere earlier change later _ seat h := by
    rw [List.foldl_concat]
    exact at?_apply_of_ne _ h

end Registry

end Bindery
