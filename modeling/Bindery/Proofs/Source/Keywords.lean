import Bindery.Proofs.Source.Path
/-!
# Keywords among the names of a path

A grammar that takes a step as long as it can also stops at the fault of a step (`Breaks.many`). So
a path of identifiers is not read if one of them is a keyword that cannot stand in a path, and the
fault is that of the first such keyword (`readPath_of_reserved`).
-/

namespace Bindery.Source

open Token (isIdent)

namespace Grammar

/-! ## Grammars that fail -/

/-- A grammar fails on trees with a fault, whatever was taken before. -/
def Fails {α : Type} (grammar : Grammar α) (trees : Trees) (fault : Fault) : Prop :=
  ∀ taken, grammar.run ⟨trees, taken⟩ = .error fault

section
variable {α β : Type} {grammar : Grammar α} {next : α → Grammar β} {trees middle : Trees}
  {fault : Fault}

theorem Fails.bind (h : Fails grammar trees fault) : Fails (grammar >>= next) trees fault := by
  intro taken
  rw [StateT.run_bind, h taken]
  rfl

/-- What is read in front of a failure does not change it. -/
theorem Reads.bindFails {value : α} (first : Reads grammar trees value middle)
    (second : Fails (next value) middle fault) : Fails (grammar >>= next) trees fault := by
  intro taken
  obtain ⟨taken', hfirst⟩ := first taken
  rw [StateT.run_bind, hfirst]
  exact second taken'

end

theorem fails_throw {α : Type} (fault : Fault) (trees : Trees) :
    Fails (throw fault : Grammar α) trees fault :=
  fun _ => rfl

/-- A step that is repeated yields something from at least one tree, any number of times, and then
fails. -/
inductive Breaks {α : Type} (step : Grammar (Option α)) (fault : Fault) : Trees → Prop where
  | here {trees : Trees} (fails : Fails step trees fault) : Breaks step fault trees
  | later {trees middle : Trees} {value : α} (first : Reads step trees (some value) middle)
      (shorter : middle.length < trees.length) (later : Breaks step fault middle) :
      Breaks step fault trees

namespace Breaks

variable {α : Type} {step : Grammar (Option α)} {fault : Fault} {trees : Trees}

theorem iterate (h : Breaks step fault trees) {fuel : Nat} (hfuel : trees.length < fuel)
    (before : List α) :
    Fails (Grammar.iterate (fun values => do return (← step).map (· :: values)) fuel before) trees
      fault := by
  induction h generalizing fuel before with
  | here fails =>
    obtain ⟨fuel, rfl⟩ := Nat.exists_eq_add_one_of_ne_zero (Nat.ne_of_gt (Nat.zero_lt_of_lt hfuel))
    have hstep : Fails (do return (← step).map (· :: before)) _ fault := fails.bind
    exact hstep.bind
  | @later _ _ value first shorter _ ih =>
    obtain ⟨fuel, rfl⟩ := Nat.exists_eq_add_one_of_ne_zero (Nat.ne_of_gt (Nat.zero_lt_of_lt hfuel))
    have hstep : Reads (do return (← step).map (· :: before)) _ (some (value :: before)) _ :=
      first.bind (.pure (some (value :: before)))
    exact hstep.bindFails (ih (by omega) (value :: before))

theorem many (h : Breaks step fault trees) : Fails (Grammar.many step) trees fault := by
  have hloop : Fails (loop [] fun values => do return (← step).map (· :: values)) trees fault :=
    Reads.look.bindFails (h.iterate (Nat.lt_succ_self _) [])
  exact hloop.bind

end Breaks

/-! ## Keywords -/

/-- Whether a name is a keyword that cannot stand in a path. -/
def isReserved (name : String) : Bool :=
  Ahead.keywords.contains name && !pathWords.contains name

/-- An identifier may stand in a path unless it is reserved. -/
theorem isPathName_iff {name : String} (h : isIdent name = true) :
    IsPathName name ↔ isReserved name = false := by
  simp [IsPathName, isReserved, h]

theorem fails_pathSegment {name : String} (h : isReserved name = true) (rules : Rules) (line : Nat)
    (rest : Trees) :
    Fails (pathSegment rules false) (.leaf ⟨.ident name, line⟩ :: rest) (.keyword name) := by
  obtain ⟨hkeyword, hword⟩ : name ∈ Ahead.keywords ∧ name ∉ pathWords := by
    simpa [isReserved] using h
  have hwords : Ahead.anyWord ["super", "self", "crate", "try"]
      (.leaf ⟨.ident name, line⟩ :: rest) = false := by
    simp_all [Ahead.anyWord, Ahead.word, pathWords]
  have hself : Ahead.word "Self" (.leaf ⟨.ident name, line⟩ :: rest) = false := by
    simp_all [Ahead.word, pathWords]
  have hident : Fails ident (.leaf ⟨.ident name, line⟩ :: rest) (.keyword name) := by
    refine Reads.look.bindFails ?_
    show Fails (if Ahead.keywords.contains name then _ else _) _ _
    rw [if_pos (by simpa using hkeyword)]
    exact fails_throw _ _
  refine (Reads.ahead _).bindFails ?_
  rw [hwords, if_neg (by decide)]
  refine (Reads.ahead _).bindFails ?_
  rw [hself, if_neg (by decide)]
  exact hident.bind

/-- The further names of a path break off at the first that is reserved. -/
theorem breaks_names (rules : Rules) {names : List String} {trees : Trees}
    (hnames : ∀ name ∈ names, isIdent name = true) (h : trees.tokens = absoluteName names)
    {name : String} (hfind : names.find? isReserved = some name) :
    Breaks (do
        if ← ahead Ahead.moreSegments then
          op "::"
          return some (← pathSegment rules false)
        else return none) (.keyword name) trees := by
  induction names generalizing trees with
  | nil => cases hfind
  | cons first more ih =>
    obtain ⟨hfirst, hmore⟩ := List.forall_mem_cons.1 hnames
    rw [absoluteName_cons] at h
    obtain ⟨_, _, rfl, hcolon⟩ := exists_of_tokens_cons h
    obtain ⟨_, _, rfl, hname⟩ := exists_of_tokens_cons hcolon
    obtain ⟨line, rest, rfl, hrest⟩ := exists_of_tokens_cons hname
    cases hreserved : isReserved first with
    | true =>
      rw [List.find?_cons_of_pos hreserved] at hfind
      obtain rfl := Option.some.inj hfind
      have hsegment := fails_pathSegment hreserved rules line rest
      exact .here ((Reads.ahead _).bindFails ((Reads.op rfl).bindFails hsegment.bind))
    | false =>
      rw [List.find?_cons_of_neg (by simp [hreserved])] at hfind
      have hsegment := reads_pathSegment ((isPathName_iff hfirst).2 hreserved) rules line
        (angleArgs_absoluteName hrest)
      refine .later ((Reads.ahead _).bind ((Reads.op rfl).bind (hsegment.bind (.pure _)))) ?_
        (ih hmore hrest hfind)
      simp only [List.length_cons]
      omega

end Grammar

open Grammar

/-- A path of identifiers cannot be read if one of them is reserved: the first such name is the
fault. -/
theorem readPath_of_reserved {names : List String} {text name : String} (h : Spells names text)
    (hnames : ∀ name ∈ names, isIdent name = true) (hfind : names.find? isReserved = some name) :
    readPath text = .error (.keyword name) := by
  obtain ⟨first, more, rfl⟩ := List.exists_cons_of_ne_nil h.1
  obtain ⟨hfirst, hmore⟩ := List.forall_mem_cons.1 hnames
  obtain ⟨trees, hlex, htokens⟩ := exists_lex_shownPath hnames
  rw [h.shownPath] at hlex
  rw [Path.tokens_ofNames] at htokens
  obtain ⟨line, rest, rfl, hrest⟩ := exists_of_tokens_cons htokens
  have hfails : ∀ rules, Fails (anyPath rules) (.leaf ⟨.ident first, line⟩ :: rest)
      (.keyword name) := by
    intro rules
    refine (Reads.op?_false rfl).bindFails ?_
    cases hreserved : isReserved first with
    | true =>
      rw [List.find?_cons_of_pos hreserved] at hfind
      obtain rfl := Option.some.inj hfind
      exact (fails_pathSegment hreserved rules line rest).bind
    | false =>
      rw [List.find?_cons_of_neg (by simp [hreserved])] at hfind
      have hsegment := reads_pathSegment ((isPathName_iff hfirst).2 hreserved) rules line
        (angleArgs_absoluteName hrest)
      exact hsegment.bindFails (breaks_names rules hmore hrest hfind).many.bind
  rw [readPath, read, hlex]
  show readTrees anyPath _ = _
  rw [readTrees, whole, hfails _ []]
  rfl

end Bindery.Source
