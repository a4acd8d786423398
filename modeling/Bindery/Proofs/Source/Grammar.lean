import Bindery.Source.Grammar
/-!
# Grammars that succeed

`Reads grammar trees value rest`: the grammar takes the trees in front of `rest` and yields the
value, whatever was taken before. What a repeated step reads is described tree by tree (`Repeats`),
and the bound on the repetitions never ends it early (`Repeats.many`).
-/

namespace Bindery.Source

open Token (isIdent)

namespace Grammar

/-- A grammar takes the trees in front of `rest` and yields the value. -/
def Reads {α : Type} (grammar : Grammar α) (trees : Trees) (value : α) (rest : Trees) : Prop :=
  ∀ taken, ∃ taken', grammar.run ⟨trees, taken⟩ = .ok (value, ⟨rest, taken'⟩)

namespace Reads

variable {α β : Type} {trees rest : Trees}

theorem pure (value : α) : Reads (pure value) trees value trees := fun taken => ⟨taken, rfl⟩

theorem bind {grammar : Grammar α} {next : α → Grammar β} {middle : Trees} {value : α} {result : β}
    (first : Reads grammar trees value middle) (second : Reads (next value) middle result rest) :
    Reads (grammar >>= next) trees result rest := by
  intro taken
  obtain ⟨taken', hfirst⟩ := first taken
  obtain ⟨taken'', hsecond⟩ := second taken'
  refine ⟨taken'', ?_⟩
  rw [StateT.run_bind, hfirst]
  exact hsecond

theorem ahead (p : Trees → Bool) : Reads (Grammar.ahead p) trees (p trees) trees :=
  fun taken => ⟨taken, rfl⟩

theorem look : Reads Grammar.look trees trees trees := fun taken => ⟨taken, rfl⟩

theorem op {text : String} (h : Ahead.op text trees = true) :
    Reads (Grammar.op text) trees () (trees.drop text.length) := by
  intro taken
  refine ⟨opPieces text ++ taken, ?_⟩
  show StateT.run (if Ahead.op text trees then _ else _) _ = _
  rw [if_pos h]
  rfl

theorem op?_true {text : String} (h : Ahead.op text trees = true) :
    Reads (Grammar.op? text) trees true (trees.drop text.length) := by
  refine (Reads.ahead (Ahead.op text)).bind ?_
  rw [if_pos h]
  exact (Reads.op h).bind (.pure true)

theorem op?_false {text : String} (h : Ahead.op text trees = false) :
    Reads (Grammar.op? text) trees false trees := by
  refine (Reads.ahead (Ahead.op text)).bind ?_
  rw [h, if_neg (by decide)]
  exact .pure false

theorem anyIdent {name : String} (h : isIdent name = true) (line : Nat) :
    Reads Grammar.anyIdent (.leaf ⟨.ident name, line⟩ :: rest) ⟨name, line, h⟩ rest := by
  refine Reads.look.bind ?_
  show Reads (if h : isIdent name then _ else _) _ _ _
  rw [dif_pos h]
  intro taken
  exact ⟨[.token (.ident name)] ++ taken, rfl⟩

theorem ident {name : String} (h : isIdent name = true) (hkeyword : name ∉ Ahead.keywords)
    (line : Nat) :
    Reads Grammar.ident (.leaf ⟨.ident name, line⟩ :: rest) ⟨name, line, h⟩ rest := by
  refine Reads.look.bind ?_
  show Reads (if Ahead.keywords.contains name then _ else _) _ _ _
  rw [if_neg (by simpa using hkeyword)]
  exact .anyIdent h line

end Reads

/-- A step that is repeated yields the values one after the other, each from at least one tree, and
then none. -/
inductive Repeats {α : Type} (step : Grammar (Option α)) : Trees → List α → Trees → Prop where
  | last {trees rest : Trees} (last : Reads step trees none rest) : Repeats step trees [] rest
  | more {trees middle rest : Trees} {value : α} {values : List α}
      (first : Reads step trees (some value) middle) (shorter : middle.length < trees.length)
      (more : Repeats step middle values rest) : Repeats step trees (value :: values) rest

theorem Repeats.length_le {α : Type} {step : Grammar (Option α)} {trees rest : Trees}
    {values : List α} (h : Repeats step trees values rest) : values.length ≤ trees.length := by
  induction h with
  | last => exact Nat.zero_le _
  | more _ shorter _ ih =>
    rw [List.length_cons]
    omega

theorem Repeats.iterate {α : Type} {step : Grammar (Option α)} {trees rest : Trees}
    {values : List α} (h : Repeats step trees values rest) {fuel : Nat}
    (hfuel : values.length < fuel) (before : List α) :
    Reads (Grammar.iterate (fun values => do return (← step).map (· :: values)) fuel before) trees
      (values.reverse ++ before) rest := by
  induction h generalizing fuel before with
  | last last =>
    obtain ⟨fuel, rfl⟩ := Nat.exists_eq_add_one_of_ne_zero (Nat.ne_of_gt hfuel)
    have hstep : Reads (do return (← step).map (· :: before)) _ (none : Option (List α)) _ :=
      last.bind (.pure none)
    exact hstep.bind (.pure before)
  | @more _ _ _ value values first _ _ ih =>
    obtain ⟨fuel, rfl⟩ := Nat.exists_eq_add_one_of_ne_zero (Nat.ne_of_gt (Nat.zero_lt_of_lt hfuel))
    rw [List.reverse_cons, List.append_assoc]
    have hstep : Reads (do return (← step).map (· :: before)) _ (some (value :: before)) _ :=
      first.bind (.pure (some (value :: before)))
    exact hstep.bind (ih (Nat.lt_of_succ_lt_succ hfuel) (value :: before))

theorem Repeats.many {α : Type} {step : Grammar (Option α)} {trees rest : Trees} {values : List α}
    (h : Repeats step trees values rest) : Reads (Grammar.many step) trees values rest := by
  have hloop := h.iterate (Nat.lt_succ_of_le h.length_le) []
  rw [List.append_nil] at hloop
  have hvalues : Reads (loop [] fun values => do return (← step).map (· :: values)) trees
      values.reverse rest := Reads.look.bind hloop
  have hall : Reads (Grammar.many step) trees values.reverse.reverse rest := hvalues.bind (.pure _)
  rwa [List.reverse_reverse] at hall

end Grammar

end Bindery.Source
