import Bindery.Proofs.Source.Type.Decoding
import Mathlib.Data.List.Forall2
/-!
# Canonical forms are unambiguous

A canonical form shows the whole outline of a type: reading takes the tokens that erasure leaves, in
front of anything that may follow a type, and finds the outline (`Shows`). There is one lemma for
each kind of type, and `Ty.shows` puts them together.
-/

namespace Bindery.Source

open Token (EndsWord compactList isIdent)
open Outline

variable {tokens : List (TokenTree Token)} {rest : List Char}

/-- Reading takes the tokens of a type in front of whatever may follow a type, and finds its
outline. -/
structure Shows (tokens : List (TokenTree Token)) (outline : Outline) : Prop where
  opening : Opening tokens
  reads : ∀ {fuel : Nat} {rest : List Char} (afterWord : Bool),
    (compactList false tokens).length < fuel → Follows tokens rest →
    read? fuel (compactList afterWord tokens ++ rest) = some (outline, rest)

/-- Reading takes the tokens of a name with its arguments. -/
structure ShowsNamed (tokens : List (TokenTree Token)) (named : Outline.Named) : Prop where
  begins : ∃ name more, tokens = .leaf (.ident name) :: more ∧ Grammar.IsPathName name ∧
    AfterName more
  reads : ∀ {fuel : Nat} {rest : List Char} (afterWord : Bool),
    (compactList false tokens).length ≤ fuel → FollowsName tokens rest →
    named? (read? fuel) fuel (compactList afterWord tokens ++ rest) = some (named, rest)

/-- Reading takes the tokens of a trait among bounds. -/
structure ShowsBound (tokens : List (TokenTree Token)) (named : Outline.Named) : Prop where
  begins : ∃ tree more, tokens = tree :: more ∧
    (tree.isWord = true ∨ ∃ body, tree = .group .paren body)
  reads : ∀ {fuel : Nat} {rest : List Char} (afterWord : Bool),
    (compactList false tokens).length ≤ fuel → FollowsName tokens rest →
    bound? (read? fuel) fuel (compactList afterWord tokens ++ rest) = some (named, rest)

/-! ## Lists -/

theorem exists_succ {n fuel : Nat} (h : n < fuel) : ∃ more, fuel = more + 1 :=
  Nat.exists_eq_succ_of_ne_zero (Nat.ne_of_gt (Nat.zero_lt_of_lt h))

section
variable {α : Type} {item : Nat → List Char → Option (α × List Char)}

/-- Reading takes the tokens of an item in front of whatever may follow it in a list. -/
structure ShowsItem (item : Nat → List Char → Option (α × List Char))
    (tokens : List (TokenTree Token)) (value : α) : Prop where
  begins : BeginsItem tokens
  reads : ∀ {fuel : Nat} {c : Char} {rest : List Char},
    (compactList false tokens).length < fuel → c ∈ stops →
    item fuel (compactList false tokens ++ c :: rest) = some (value, c :: rest)

theorem compactList_between (afterWord : Bool) (c : Char) (joint : Bool)
    (first second : List (TokenTree Token)) :
    compactList afterWord (first ++ [.leaf (.punct c joint)] ++ second) =
      compactList afterWord first ++ c :: compactList false second := by
  rw [List.append_assoc, compactList_append, List.singleton_append, compactList_mark]

theorem compactList_separated (afterWord : Bool) (c : Char) (tokens : List (TokenTree Token))
    {trailing : Bool} {items : List (List (TokenTree Token))} (h : trailing = true ∨ items ≠ []) :
    compactList afterWord (separated [.leaf (.punct c false)] trailing (tokens :: items)) =
      compactList afterWord tokens ++
        c :: compactList false (separated [.leaf (.punct c false)] trailing items) := by
  rw [separated_cons _ _ h, compactList_between]

theorem items?_more {item : List Char → Option (α × List Char)} {close c : Char} (h : c ≠ close)
    {cs text : List Char} {value : α} (hitem : item (c :: cs) = some (value, ',' :: text))
    (fuel : Nat) : items? item close (fuel + 1) (c :: cs) =
      (items? item close fuel text).map fun (rest, cs) => (value :: rest, cs) := by
  rw [items?, if_neg (by simpa using h), hitem, Option.bind_eq_bind, Option.bind_some]
  show (items? item close fuel text).bind _ = _
  cases items? item close fuel text <;> rfl

theorem items?_last {item : List Char → Option (α × List Char)} {close c : Char} (h : c ≠ close)
    (hclose : close ≠ ',') {cs rest : List Char} {value : α}
    (hitem : item (c :: cs) = some (value, close :: rest)) (fuel : Nat) :
    items? item close (fuel + 1) (c :: cs) = some ([value], rest) := by
  rw [items?, if_neg (by simpa using h), hitem]
  simp [hclose]

/-- Items with commas between them are read up to the bracket that closes the list. The list and its
items have a fuel of their own; the length of the text is enough for both. -/
theorem items?_separated {close : Char} (hclose : close ∈ [')', '>'])
    {items : List (List (TokenTree Token))} {values : List α}
    (h : List.Forall₂ (ShowsItem item) items values) (trailing : Bool) {fuel bound : Nat}
    (hfuel : (compactList false (separated (operator ",") trailing items)).length < fuel)
    (hbound : (compactList false (separated (operator ",") trailing items)).length < bound) :
    items? (item bound) close fuel
      (compactList false (separated (operator ",") trailing items) ++ close :: rest) =
      some (values, rest) := by
  have hstop : close ∈ stops := (by decide : [')', '>'] ⊆ stops) hclose
  induction h generalizing fuel with
  | nil =>
    obtain ⟨fuel, rfl⟩ := exists_succ hfuel
    simp [separated, items?]
  | @cons tokens value items values first others ih =>
    obtain ⟨fuel, rfl⟩ := exists_succ hfuel
    obtain ⟨c, cs, hbegins, hc⟩ := first.begins
    have hne : c ≠ close := by
      rintro rfl
      exact hc hclose
    by_cases hmore : trailing = true ∨ items ≠ []
    · have htext : compactList false (separated (operator ",") trailing (tokens :: items)) =
          compactList false tokens ++
            ',' :: compactList false (separated (operator ",") trailing items) :=
        compactList_separated false ',' tokens hmore
      rw [htext] at hfuel hbound ⊢
      rw [List.length_append, List.length_cons] at hfuel hbound
      have hread : ∀ rest, item bound (compactList false tokens ++ ',' :: rest) =
          some (value, ',' :: rest) := fun rest => first.reads (by omega) (by decide)
      rw [List.append_assoc, List.cons_append]
      simp only [hbegins, List.cons_append] at hread ⊢
      rw [items?_more hne (hread _), ih (by omega) (by omega)]
      rfl
    · obtain ⟨rfl, rfl⟩ : trailing = false ∧ items = [] := by simpa using hmore
      cases others
      have hread : item bound (compactList false tokens ++ close :: rest) =
        some (value, close :: rest) := first.reads hbound hstop
      have hcomma : close ≠ ',' := by
        rintro rfl
        exact absurd hclose (by decide)
      show items? (item bound) close (fuel + 1) (compactList false tokens ++ close :: rest) = _
      rw [hbegins, List.cons_append] at hread ⊢
      exact items?_last hne hcomma hread fuel

end

theorem exists_cons_of_separated {items : List (List (TokenTree Token))}
    {traits : List Outline.Named} (h : List.Forall₂ ShowsBound items traits) (hne : items ≠ []) :
    ∃ tree more, separated (operator "+") false items = tree :: more ∧
      (tree.isWord = true ∨ ∃ body, tree = .group .paren body) := by
  cases h with
  | nil => exact absurd rfl hne
  | @cons tokens named items traits first others =>
    obtain ⟨tree, more, rfl, hbegins⟩ := first.begins
    by_cases hmore : items = []
    · subst hmore
      exact ⟨tree, more, rfl, hbegins⟩
    · rw [separated_cons _ _ (.inr hmore)]
      exact ⟨tree, _, rfl, hbegins⟩

/-- Traits with plus signs between them are read up to what follows them. -/
theorem sum?_separated {items : List (List (TokenTree Token))} {traits : List Outline.Named}
    (h : List.Forall₂ ShowsBound items traits) (hne : items ≠ []) (afterWord : Bool)
    {fuel bound : Nat}
    (hfuel : (compactList false (separated (operator "+") false items)).length < fuel)
    (hbound : (compactList false (separated (operator "+") false items)).length ≤ bound)
    (follows : Follows (separated (operator "+") false items) rest) :
    sum? (bound? (read? bound) bound) fuel
      (compactList afterWord (separated (operator "+") false items) ++ rest) =
      some (traits, rest) := by
  induction h generalizing fuel afterWord with
  | nil => exact absurd rfl hne
  | @cons tokens named items traits first others ih =>
    obtain ⟨fuel, rfl⟩ := exists_succ hfuel
    by_cases hmore : items = []
    · subst hmore
      cases others
      -- The last bound is followed by what follows the type, which is no plus sign.
      have hread : bound? (read? bound) bound (compactList afterWord tokens ++ rest) =
        some (named, rest) := first.reads afterWord hbound follows.1
      show sum? _ (fuel + 1) (compactList afterWord tokens ++ rest) = _
      rw [sum?, hread]
      have hplus := follows.2
      cases rest with
      | nil => rfl
      | cons c rest =>
        simp_all
    · have htext : ∀ afterWord,
          compactList afterWord (separated (operator "+") false (tokens :: items)) =
            compactList afterWord tokens ++
              '+' :: compactList false (separated (operator "+") false items) :=
        fun afterWord => compactList_separated afterWord '+' tokens (.inr hmore)
      rw [separated_cons _ _ (.inr hmore)] at follows
      rw [htext] at hfuel hbound ⊢
      rw [List.length_append, List.length_cons] at hfuel hbound
      have hread : bound? (read? bound) bound (compactList afterWord tokens ++ '+' ::
          (compactList false (separated (operator "+") false items) ++ rest)) =
          some (named, '+' :: (compactList false (separated (operator "+") false items) ++ rest)) :=
        first.reads afterWord (by omega) ⟨fun _ => (mark_spec (by decide) _).2.2, by simp⟩
      rw [List.append_assoc, List.cons_append, sum?, hread, Option.bind_eq_bind, Option.bind_some]
      show (sum? _ fuel (compactList false (separated (operator "+") false items) ++
        rest)).bind _ = _
      rw [ih hmore false (by omega) (by omega) (follows.of_append _ ?_)]
      · rfl
      · obtain ⟨tree, more, hbegins, -⟩ := exists_cons_of_separated others hmore
        rw [hbegins]
        exact List.cons_ne_nil _ _

/-! ## Names -/

/-- A generic argument is read, given how types are. -/
abbrev ShowsArgument (tokens : List (TokenTree Token)) (arg : Outline.Argument) : Prop :=
  ShowsItem (fun fuel => argument? (read? fuel)) tokens arg

theorem Shows.argument {outline : Outline} (h : Shows tokens outline) :
    ShowsArgument tokens (.type outline) := by
  refine ⟨h.opening.beginsItem, fun {fuel c rest} hfuel hc => ?_⟩
  have follows : Follows tokens (c :: rest) := follows_stop hc rest
  rw [argument?, h.opening.value?_eq_none follows.1.1, h.reads false hfuel follows]
  rfl

theorem ShowsValue.argument {text : String} (h : ShowsValue tokens text) :
    ShowsArgument tokens (.value text) := by
  refine ⟨h.begins, fun {fuel c rest} _ hc => ?_⟩
  rw [argument?, h.reads hc]

theorem Shows.item {outline : Outline} (h : Shows tokens outline) :
    ShowsItem read? tokens outline :=
  ⟨h.opening.beginsItem, fun hfuel hc => h.reads false hfuel (follows_stop hc _)⟩

theorem named?_name {name : String} (ident : isIdent name = true) (ends : EndsWord rest)
    (hangle : rest.head? ≠ some '<') (type : List Char → Option (Outline × List Char)) (fuel : Nat)
    (afterWord : Bool) :
    named? type fuel ((if afterWord then [' '] else []) ++ (name.toList ++ rest)) =
      some (.mk name [], rest) := by
  rw [named?, unspaced_word ident, word?_append ident ends, Option.bind_eq_bind, Option.bind_some]
  dsimp only
  split
  · exact absurd rfl hangle
  · rfl

theorem named?_args {name : String} (ident : isIdent name = true)
    (type : List Char → Option (Outline × List Char)) (fuel : Nat) (afterWord : Bool) :
    named? type fuel ((if afterWord then [' '] else []) ++ (name.toList ++ '<' :: rest)) =
      (items? (argument? type) '>' fuel rest).map fun (args, cs) => (.mk name args, cs) := by
  rw [named?, unspaced_word ident, word?_append ident (mark_spec (by decide) _).2.2,
    Option.bind_eq_bind, Option.bind_some]
  show (items? _ '>' fuel rest).bind _ = _
  cases items? (argument? type) '>' fuel rest <;> rfl

theorem showsNamed {name : String} (hname : Grammar.IsPathName name)
    {args : List (List (TokenTree Token))} {values : List Outline.Argument}
    (h : List.Forall₂ ShowsArgument args values) :
    ShowsNamed (word name ++ argsOf args) (.mk name values) := by
  have ident := hname.1
  cases h with
  | nil =>
    refine ⟨⟨name, [], rfl, hname, fun _ h => nomatch h⟩, fun {fuel rest} afterWord _ follows => ?_⟩
    have htext : compactList afterWord (word name ++ argsOf []) ++ rest =
        (if afterWord then [' '] else []) ++ (name.toList ++ rest) := by
      simp [word, argsOf]
    rw [htext]
    exact named?_name ident (follows.1 rfl) follows.2 _ fuel afterWord
  | @cons first value args values hfirst hothers =>
    have htext : ∀ afterWord, compactList afterWord (word name ++ argsOf (first :: args)) =
        (if afterWord then [' '] else []) ++ (name.toList ++ '<' ::
          (compactList false (separated (operator ",") false (first :: args)) ++ ['>'])) := by
      intro afterWord
      show compactList afterWord (.leaf (.ident name) :: .leaf (.punct '<' false) ::
        (separated (operator ",") false (first :: args) ++ [.leaf (.punct '>' false)])) = _
      simp [compactList_append]
    refine ⟨⟨name, _, rfl, hname, ?_⟩, fun {fuel rest} afterWord hfuel _ => ?_⟩
    · rintro tree ⟨⟩
      exact .inr (.inl ⟨false, rfl⟩)
    · simp only [htext, Bool.false_eq_true, if_false, List.nil_append, List.length_append,
        List.length_cons, List.length_nil] at hfuel
      have hitems : items? (argument? (read? fuel)) '>' fuel
          (compactList false (separated (operator ",") false (first :: args)) ++ '>' :: rest) =
          some (value :: values, rest) :=
        items?_separated (by decide) (.cons hfirst hothers) false (by omega) (by omega)
      simp only [htext, List.append_assoc, List.cons_append, List.nil_append]
      rw [named?_args ident, hitems]
      rfl

/-! ## The kinds of types -/

theorem shows_never : Shows [.leaf (.punct '!' false)] .never := by
  refine ⟨.mark '!' false [] (by decide), fun {fuel rest} afterWord hfuel _ => ?_⟩
  obtain ⟨fuel, rfl⟩ := exists_succ hfuel
  rw [compactList_mark]
  rfl

theorem read?_reference (fuel : Nat) (cs : List Char) :
    read? (fuel + 1) ('&' :: cs) = match after? "mut" cs with
      | some cs => (read? fuel cs).map fun (target, cs) => (.reference true target, cs)
      | none => (read? fuel cs).map fun (target, cs) => (.reference false target, cs) :=
  rfl

theorem shows_reference {outline : Outline} (h : Shows tokens outline) :
    Shows (.leaf (.punct '&' false) :: tokens) (.reference false outline) := by
  refine ⟨.mark '&' false _ (by decide), fun {fuel rest} afterWord hfuel follows => ?_⟩
  obtain ⟨fuel, rfl⟩ := exists_succ hfuel
  have hrest := follows.of_append [_] h.opening.ne_nil
  rw [compactList_mark] at hfuel ⊢
  rw [List.cons_append, read?_reference, h.opening.after?_mut hrest.1.1,
    h.reads false (Nat.lt_of_succ_lt_succ hfuel) hrest]
  rfl

theorem shows_reference_mut {outline : Outline} (h : Shows tokens outline) :
    Shows (.leaf (.punct '&' false) :: .leaf (.ident "mut") :: tokens)
      (.reference true outline) := by
  refine ⟨.mark '&' false _ (by decide), fun {fuel rest} afterWord hfuel follows => ?_⟩
  obtain ⟨fuel, rfl⟩ := exists_succ hfuel
  have hrest := follows.of_append [_, _] h.opening.ne_nil
  rw [compactList_mark] at hfuel ⊢
  have hlength := (length_compactList_tail_le _ tokens).trans_lt (Nat.lt_of_succ_lt_succ hfuel)
  rw [List.cons_append, read?_reference, h.opening.after?_word hrest.1.1 (by decide +kernel),
    if_pos rfl]
  dsimp only
  rw [h.reads true hlength hrest]
  rfl

theorem read?_pointer (fuel : Nat) (cs : List Char) :
    read? (fuel + 1) ('*' :: cs) = match after? "mut" cs with
      | some cs => (read? fuel cs).map fun (target, cs) => (.pointer true target, cs)
      | none => do
        let (target, cs) ← read? fuel (← after? "const" cs)
        return (.pointer false target, cs) :=
  rfl

theorem shows_pointer {outline : Outline} (h : Shows tokens outline) (mutable : Bool) :
    Shows (.leaf (.punct '*' false) ::
        .leaf (.ident (if mutable then "mut" else "const")) :: tokens)
      (.pointer mutable outline) := by
  refine ⟨.mark '*' false _ (by decide), fun {fuel rest} afterWord hfuel follows => ?_⟩
  obtain ⟨fuel, rfl⟩ := exists_succ hfuel
  have hrest := follows.of_append [_, _] h.opening.ne_nil
  rw [compactList_mark] at hfuel ⊢
  have hlength := (length_compactList_tail_le _ tokens).trans_lt (Nat.lt_of_succ_lt_succ hfuel)
  have hword : ∀ word, after? word (compactList false
      (.leaf (.ident (if mutable then "mut" else "const")) :: tokens) ++ rest) = _ :=
    h.opening.after?_word hrest.1.1 (by cases mutable <;> decide +kernel)
  rw [List.cons_append, read?_pointer, hword, hword]
  cases mutable with
  | true =>
    rw [if_pos (if_pos rfl)]
    dsimp only
    rw [h.reads true hlength hrest]
    rfl
  | false =>
    rw [if_neg (by decide), if_pos (if_neg (by decide)), Option.bind_eq_bind, Option.bind_some,
      h.reads true hlength hrest]
    rfl

/-- What stands inside the brackets of a group is read up to the closing one. -/
theorem compactList_group_append (afterWord : Bool) (delimiter : Delimiter)
    (body : List (TokenTree Token)) (rest : List Char) :
    compactList afterWord [.group delimiter body] ++ rest =
      delimiter.opening :: (compactList false body ++ delimiter.closing :: rest) := by
  simp

theorem length_compactList_group (delimiter : Delimiter) (body : List (TokenTree Token)) :
    (compactList false [.group delimiter body]).length = (compactList false body).length + 2 := by
  simp

theorem read?_bracket (fuel : Nat) (cs : List Char) :
    read? (fuel + 1) ('[' :: cs) = (read? fuel cs).bind fun (element, cs) =>
      bracketed? element cs :=
  rfl

theorem shows_slice {outline : Outline} (h : Shows tokens outline) :
    Shows [.group .bracket tokens] (.slice outline) := by
  refine ⟨.group .bracket tokens [] (by decide), fun {fuel rest} afterWord hfuel _ => ?_⟩
  obtain ⟨fuel, rfl⟩ := exists_succ hfuel
  rw [length_compactList_group] at hfuel
  have follows : Follows tokens (']' :: rest) := follows_stop (by decide) rest
  rw [compactList_group_append]
  show read? (fuel + 1) ('[' :: (compactList false tokens ++ ']' :: rest)) = _
  rw [read?_bracket, h.reads false (by omega) follows]
  rfl

theorem shows_array {outline : Outline} {code : List (TokenTree Token)} {length : String}
    (h : Shows tokens outline) (hlength : ShowsValue code length) :
    Shows [.group .bracket (tokens ++ [.leaf (.punct ';' false)] ++ code)]
      (.array outline length) := by
  refine ⟨.group .bracket _ [] (by decide), fun {fuel rest} afterWord hfuel _ => ?_⟩
  obtain ⟨fuel, rfl⟩ := exists_succ hfuel
  have htext := compactList_between false ';' false tokens code
  rw [length_compactList_group, htext, List.length_append, List.length_cons] at hfuel
  have follows : Follows tokens (';' :: (compactList false code ++ ']' :: rest)) :=
    follows_stop (by decide) _
  have hvalue : value? (compactList false code ++ ']' :: rest) = some (length, ']' :: rest) :=
    hlength.reads (by decide)
  rw [compactList_group_append, htext, List.append_assoc, List.cons_append]
  show read? (fuel + 1)
    ('[' :: (compactList false tokens ++ ';' :: (compactList false code ++ ']' :: rest))) = _
  rw [read?_bracket, h.reads false (by omega) follows, Option.bind_some]
  show (value? (compactList false code ++ ']' :: rest)).bind _ = _
  rw [hvalue]
  rfl

theorem read?_paren (fuel : Nat) (cs : List Char) :
    read? (fuel + 1) ('(' :: cs) =
      (items? (read? fuel) ')' fuel cs).map fun (elements, cs) => (.tuple elements, cs) :=
  rfl

theorem shows_tuple {items : List (List (TokenTree Token))} {outlines : List Outline}
    (h : List.Forall₂ Shows items outlines) (trailing : Bool) :
    Shows [.group .paren (separated (operator ",") trailing items)] (.tuple outlines) := by
  refine ⟨.group .paren _ [] (by decide), fun {fuel rest} afterWord hfuel _ => ?_⟩
  obtain ⟨fuel, rfl⟩ := exists_succ hfuel
  rw [length_compactList_group] at hfuel
  have hitems : items? (read? fuel) ')' fuel
      (compactList false (separated (operator ",") trailing items) ++ ')' :: rest) =
      some (outlines, rest) :=
    items?_separated (by decide) (h.imp fun _ _ => Shows.item) trailing (by omega) (by omega)
  rw [compactList_group_append]
  show read? (fuel + 1) ('(' :: (compactList false _ ++ ')' :: rest)) = _
  rw [read?_paren, hitems]
  rfl

/-! ## Paths and trait objects -/

/-- A type that begins with a word is a trait object or a path. -/
theorem read?_word {name : String} (ident : isIdent name = true) (ends : EndsWord rest)
    (fuel : Nat) (afterWord : Bool) :
    read? (fuel + 1) ((if afterWord then [' '] else []) ++ (name.toList ++ rest)) =
      if name = "dyn" then
        (sum? (bound? (read? fuel) fuel) fuel rest).map fun (traits, cs) => (.object traits, cs)
      else (named? (read? fuel) fuel (name.toList ++ rest)).map fun (named, cs) =>
        (.path named, cs) := by
  obtain ⟨c, tail, hname, hstart⟩ := Token.exists_cons_of_isIdent ident
  have hdyn := after?_append ident ends "dyn"
  rw [read?, unspaced_word ident]
  have hmark : ∀ c ∈ openings, ∀ cs, name.toList ++ rest ≠ c :: cs := by
    rintro d hd cs h
    rw [hname, List.cons_append] at h
    obtain rfl := (List.cons.inj h).1
    exact not_mem_marks_of_isIdentStart hstart (opening_spec hd).1
  split
  · next h => exact absurd h (hmark '!' (by decide) _)
  · next h => exact absurd h (hmark '&' (by decide) _)
  · next h => exact absurd h (hmark '*' (by decide) _)
  · next h => exact absurd h (hmark '[' (by decide) _)
  · next h => exact absurd h (hmark '(' (by decide) _)
  · next h => exact absurd h (hmark '<' (by decide) _)
  · rw [hdyn]
    by_cases h : name = "dyn"
    · rw [if_pos h, if_pos h]
    · rw [if_neg h, if_neg h]

theorem ShowsNamed.ne_nil {named : Named} (h : ShowsNamed tokens named) : tokens ≠ [] := by
  obtain ⟨name, more, rfl, -⟩ := h.begins
  exact List.cons_ne_nil _ _

/-- The words that a name of a path is not. -/
theorem not_mem_of_isPathName {name : String} (h : Grammar.IsPathName name) :
    name ∉ ["mut", "true", "false", "dyn"] := by
  intro hmem
  have hall : ["mut", "true", "false", "dyn"].all (fun name =>
      name ∈ Grammar.Ahead.keywords ∧ name ∉ Grammar.pathWords) = true := by decide +kernel
  obtain ⟨hkeyword, hother⟩ := of_decide_eq_true (List.all_eq_true.1 hall name hmem)
  exact hother (h.2 hkeyword)

theorem ShowsNamed.opening {named : Named} (h : ShowsNamed tokens named) : Opening tokens := by
  obtain ⟨name, more, rfl, hname, after⟩ := h.begins
  refine .word name more hname.1 (fun hmem => not_mem_of_isPathName hname ?_) after
  exact (by decide : ["mut", "true", "false"] ⊆ ["mut", "true", "false", "dyn"]) hmem

theorem shows_path {named : Named} (h : ShowsNamed tokens named) : Shows tokens (.path named) := by
  refine ⟨h.opening, fun {fuel rest} afterWord hfuel follows => ?_⟩
  obtain ⟨fuel, rfl⟩ := exists_succ hfuel
  have hnamed := h.reads false (Nat.le_of_lt_succ hfuel) follows.1
  obtain ⟨name, more, rfl, hname, after⟩ := h.begins
  have hdyn : name ≠ "dyn" := by
    rintro rfl
    exact not_mem_of_isPathName hname (by decide)
  have hends : EndsWord (compactList true more ++ rest) := by
    refine after.endsWord ?_
    rintro rfl
    exact follows.1.1 rfl
  rw [compactList_name, List.append_assoc, List.append_assoc] at hnamed ⊢
  rw [read?_word hname.1 hends, if_neg hdyn]
  simp only [Bool.false_eq_true, if_false, List.nil_append] at hnamed
  rw [hnamed]
  rfl

theorem read?_angle (fuel : Nat) (cs : List Char) :
    read? (fuel + 1) ('<' :: cs) = (read? fuel cs).bind fun (self, cs) =>
      qualified? (read? fuel) fuel self cs :=
  rfl

/-- A path of a self type. -/
theorem shows_self {outline : Outline} {named : Named} {path : List (TokenTree Token)}
    (h : Shows tokens outline) (hpath : ShowsNamed path named) :
    Shows (.leaf (.punct '<' false) :: (tokens ++ [.leaf (.punct '>' false)] ++ path))
      (.qualified outline false named) := by
  refine ⟨.mark '<' false _ (by decide), fun {fuel rest} afterWord hfuel follows => ?_⟩
  obtain ⟨fuel, rfl⟩ := exists_succ hfuel
  have hrest : Follows path rest :=
    (follows.of_append [_] (List.append_ne_nil_of_right_ne_nil _ hpath.ne_nil)).of_append _
      hpath.ne_nil
  rw [compactList_mark, compactList_between] at hfuel ⊢
  rw [List.length_cons, List.length_append, List.length_cons] at hfuel
  have hself : Follows tokens ('>' :: (compactList false path ++ rest)) :=
    follows_stop (by decide) _
  rw [List.cons_append, List.append_assoc, List.cons_append, read?_angle,
    h.reads false (by omega) hself, Option.bind_some]
  show (named? (read? fuel) fuel (compactList false path ++ rest)).bind _ = _
  rw [hpath.reads false (by omega) hrest.1]
  rfl

theorem qualified?_cast {path : List Char} (hpath : EndsWord path) (afterWord : Bool)
    (type : List Char → Option (Outline × List Char)) (fuel : Nat) (self : Outline) :
    qualified? type fuel self ((if afterWord then [' '] else []) ++ ("as".toList ++ path)) =
      (named? type fuel path).bind fun (named, cs) =>
        if cs.head? = some '>' then some (.qualified self true named, cs.tail) else none := by
  have hafter := (after?_append (by decide +kernel) hpath "as").trans (if_pos rfl)
  have hunspaced : unspaced ((if afterWord then [' '] else []) ++ ("as".toList ++ path)) =
      "as".toList ++ path := unspaced_word (by decide +kernel) afterWord path
  unfold qualified?
  split
  · next h => cases afterWord <;> cases h
  · rw [hunspaced, hafter]
    rfl

/-- A path of a self type that is cast to a trait. -/
theorem shows_cast {outline : Outline} {named : Named} {path : List (TokenTree Token)}
    (h : Shows tokens outline) (hpath : ShowsNamed path named) :
    Shows (.leaf (.punct '<' false) ::
        (tokens ++ (.leaf (.ident "as") :: (path ++ [.leaf (.punct '>' false)]))))
      (.qualified outline true named) := by
  refine ⟨.mark '<' false _ (by decide), fun {fuel rest} afterWord hfuel follows => ?_⟩
  obtain ⟨fuel, rfl⟩ := exists_succ hfuel
  have htext : compactList false (tokens ++ (.leaf (.ident "as") ::
      (path ++ [.leaf (.punct '>' false)]))) = compactList false tokens ++
        ((if endsWord false tokens then [' '] else []) ++
          ("as".toList ++ (compactList true path ++ ['>']))) := by
    simp [compactList_append]
  have hlength := length_compactList_false_le true path
  rw [compactList_mark, htext] at hfuel ⊢
  simp only [List.length_cons, List.length_append] at hfuel
  -- Behind a word there is a blank, and only then would `as` lengthen the self type.
  have hself : Follows tokens ((if endsWord false tokens then [' '] else []) ++
      ("as".toList ++ (compactList true path ++ '>' :: rest))) := by
    cases hends : endsWord false tokens with
    | true => exact follows_stop (by decide) _
    | false =>
      refine ⟨⟨fun h => ?_, ?_⟩, ?_⟩
      · rw [hends] at h
        cases h
      · rintro ⟨⟩
      · rintro ⟨⟩
  have hpathRest : FollowsName path ('>' :: rest) := (follows_stop (by decide) rest).1
  simp only [List.cons_append, List.append_assoc, List.nil_append]
  rw [read?_angle, h.reads false (by omega) hself, Option.bind_some]
  dsimp only
  rw [qualified?_cast (hpath.opening.wordEnds hpathRest.1),
    hpath.reads true (by omega) hpathRest]
  rfl

/-! ## Bounds -/

theorem bound?_group (type : List Char → Option (Outline × List Char)) (fuel : Nat)
    (cs : List Char) : bound? type fuel ('(' :: cs) =
      (named? type fuel cs).bind fun (named, cs) =>
        if cs.head? = some ')' then some (named, cs.tail) else none :=
  rfl

theorem ShowsNamed.bound {named : Named} (h : ShowsNamed tokens named) :
    ShowsBound tokens named := by
  obtain ⟨name, more, htokens, hname, after⟩ := h.begins
  refine ⟨⟨_, more, htokens, .inl rfl⟩, fun {fuel rest} afterWord hfuel follows => ?_⟩
  rw [bound?, h.opening.unspaced_eq follows.1]
  split
  · next hparen =>
    obtain ⟨c, cs, hname, hstart⟩ := Token.exists_cons_of_isIdent hname.1
    rw [htokens, compactList_name, hname] at hparen
    obtain rfl : c = '(' := (List.cons.inj hparen).1
    exact absurd hstart (by decide)
  · exact h.reads false hfuel follows

theorem ShowsNamed.parenthesized {named : Named} (h : ShowsNamed tokens named) :
    ShowsBound [.group .paren tokens] named := by
  refine ⟨⟨_, [], rfl, .inr ⟨tokens, rfl⟩⟩, fun {fuel rest} afterWord hfuel _ => ?_⟩
  rw [length_compactList_group] at hfuel
  have follows : FollowsName tokens (')' :: rest) := (follows_stop (by decide) rest).1
  rw [compactList_group_append]
  show bound? _ fuel ('(' :: (compactList false tokens ++ ')' :: rest)) = _
  rw [bound?_group, h.reads false (by omega) follows]
  rfl

theorem shows_object {items : List (List (TokenTree Token))} {traits : List Named}
    (h : List.Forall₂ ShowsBound items traits) (hne : items ≠ []) :
    Shows (.leaf (.ident "dyn") :: separated (operator "+") false items) (.object traits) := by
  obtain ⟨tree, more, htokens, hbegins⟩ := exists_cons_of_separated h hne
  have after : AfterName (separated (operator "+") false items) := by
    rw [htokens]
    rintro tree ⟨⟩
    exact hbegins.imp_right .inr
  have ident : isIdent "dyn" = true := by decide +kernel
  refine ⟨.word "dyn" _ ident (by decide) after, fun {fuel rest} afterWord hfuel follows => ?_⟩
  obtain ⟨fuel, rfl⟩ := exists_succ hfuel
  have hrest := follows.of_append [_] (by rw [htokens]; exact List.cons_ne_nil _ _)
  have hends : EndsWord (compactList true (separated (operator "+") false items) ++ rest) := by
    refine after.endsWord fun hnil => ?_
    rw [htokens] at hnil
    cases hnil
  have hlength := length_compactList_false_le true (separated (operator "+") false items)
  rw [compactList_name] at hfuel ⊢
  have hdyn : "dyn".toList.length = 3 := rfl
  simp only [List.length_append, hdyn] at hfuel
  rw [List.append_assoc, List.append_assoc, read?_word ident hends, if_pos rfl,
    sum?_separated h hne true (by omega) (by omega) hrest]
  rfl

/-! ## All types -/

theorem qualify_self (type tokens : List (TokenTree Token)) :
    qualify (some (type, 0)) (false, [tokens]) =
      .leaf (.punct '<' false) :: (type ++ [.leaf (.punct '>' false)] ++ tokens) := by
  simp [qualify, separated, operator, operatorChars]

theorem qualify_cast (type tokens : List (TokenTree Token)) (position : Nat) :
    qualify (some (type, position + 1)) (false, [tokens]) =
      .leaf (.punct '<' false) ::
        (type ++ (.leaf (.ident "as") :: (tokens ++ [.leaf (.punct '>' false)]))) := by
  simp [qualify, separated, operator, operatorChars, word]

mutual

theorem Ty.shows : (type : Ty) → {outline : Outline} → type.outline? = some outline →
    Shows type.erase.tokens outline
  | .path none whole, _, h => by
    simp only [Ty.outline?, Option.bind_eq_bind, Option.bind_eq_some_iff] at h
    obtain ⟨named, hnamed, h⟩ := h
    obtain rfl := Option.some.inj h
    obtain ⟨tokens, htokens, hshows⟩ := whole.shows hnamed
    rw [Ty.erase, Ty.tokens, htokens]
    exact shows_path hshows
  | .path (some (.mk self position)) whole, _, h => by
    simp only [Ty.outline?, Option.bind_eq_bind, Option.bind_eq_some_iff] at h
    obtain ⟨outline, houtline, named, hnamed, h⟩ := h
    obtain rfl := Option.some.inj h
    obtain ⟨tokens, htokens, hshows⟩ := whole.shows hnamed
    have hself := self.shows houtline
    rw [Ty.erase, Ty.tokens, htokens]
    -- The bracket around the self type closes before the only segment or after it.
    cases position with
    | zero =>
      have hpath := shows_self hself hshows
      rw [← qualify_self] at hpath
      exact hpath
    | succ position =>
      have hcast := shows_cast hself hshows
      rw [← qualify_cast _ _ position] at hcast
      exact hcast
  | .reference _ mutable target, _, h => by
    simp only [Ty.outline?, Option.bind_eq_bind, Option.bind_eq_some_iff] at h
    obtain ⟨outline, houtline, h⟩ := h
    obtain rfl := Option.some.inj h
    have htarget := target.shows houtline
    cases mutable with
    | false => exact shows_reference htarget
    | true => exact shows_reference_mut htarget
  | .pointer mutable target, _, h => by
    simp only [Ty.outline?, Option.bind_eq_bind, Option.bind_eq_some_iff] at h
    obtain ⟨outline, houtline, h⟩ := h
    obtain rfl := Option.some.inj h
    exact shows_pointer (target.shows houtline) mutable
  | .slice element, _, h => by
    simp only [Ty.outline?, Option.bind_eq_bind, Option.bind_eq_some_iff] at h
    obtain ⟨outline, houtline, h⟩ := h
    obtain rfl := Option.some.inj h
    exact shows_slice (element.shows houtline)
  | .array element length, _, h => by
    simp only [Ty.outline?, Option.bind_eq_bind, Option.bind_eq_some_iff] at h
    obtain ⟨outline, houtline, text, htext, h⟩ := h
    obtain rfl := Option.some.inj h
    exact shows_array (element.shows houtline) (showsValue_of_literal? htext)
  | .tuple elements trailing, _, h => by
    simp only [Ty.outline?, Option.bind_eq_bind, Option.bind_eq_some_iff] at h
    obtain ⟨outlines, houtlines, h⟩ := h
    obtain rfl := Option.some.inj h
    exact shows_tuple (types_show elements houtlines) _
  | .paren inner, _, h => inner.shows h
  | .never, _, h => by
    obtain rfl := Option.some.inj h
    exact shows_never
  | .object true bounds _, _, h => by
    simp only [Ty.outline?, Option.bind_eq_bind, Option.bind_eq_some_iff] at h
    obtain ⟨traits, htraits, h⟩ := h
    have hbounds := bounds_show bounds htraits
    cases htraits' : traits with
    | nil =>
      rw [htraits'] at h
      cases h
    | cons named more =>
      rw [htraits'] at h hbounds
      obtain rfl := Option.some.inj h
      refine shows_object hbounds ?_
      intro hnil
      rw [hnil] at hbounds
      cases hbounds

theorem types_show : (types : List Ty) → {outlines : List Outline} →
    outlineTypes? types = some outlines →
    List.Forall₂ Shows (tyListTokens (eraseTypes types)) outlines
  | [], _, h => by
    obtain rfl := Option.some.inj h
    exact .nil
  | type :: rest, _, h => by
    simp only [outlineTypes?, Option.bind_eq_bind, Option.bind_eq_some_iff] at h
    obtain ⟨outline, houtline, outlines, houtlines, h⟩ := h
    obtain rfl := Option.some.inj h
    exact .cons (type.shows houtline) (types_show rest houtlines)

theorem Path.shows : (path : Path) → {named : Named} → path.outline? = some named →
    ∃ tokens, nameTokens .asWritten path.erase = (false, [tokens]) ∧ ShowsNamed tokens named
  | .mk _ segments, _, h => by
    obtain ⟨tokens, htokens, hshows⟩ := segments_show segments h
    exact ⟨tokens, congrArg (Prod.mk false) htokens, hshows⟩

theorem segments_show : (segments : List Segment) → {named : Named} →
    outlineSegments? segments = some named →
    ∃ tokens, segmentTokens .asWritten (eraseSegments segments) = [tokens] ∧
      ShowsNamed tokens named
  | [], _, h => nomatch h
  | [.mk name args], _, h => by
    simp only [outlineSegments?] at h
    split at h
    · next hname =>
      simp only [Option.bind_eq_bind, Option.bind_eq_some_iff] at h
      obtain ⟨values, hvalues, h⟩ := h
      obtain rfl := Option.some.inj h
      obtain ⟨items, hitems, hshows⟩ := args_show args hvalues
      refine ⟨word name ++ argsOf items, ?_, showsNamed hname hshows⟩
      rw [← hitems]
      rfl
    · cases h
  | .mk _ _ :: next :: rest, _, h => segments_show (next :: rest) h

theorem args_show : (args : Args) → {values : List Outline.Argument} →
    outlineArgs? args = some values →
    ∃ items, argsTokens .asWritten (eraseArgs args) = argsOf items ∧
      List.Forall₂ ShowsArgument items values
  | .none, _, h => by
    obtain rfl := Option.some.inj h
    exact ⟨[], rfl, .nil⟩
  | .angle (.mk _ args _), _, h => by
    obtain ⟨items, hitems, hshows⟩ := argList_show args h
    exact ⟨items, argsTokens_erase hitems _ _, hshows⟩

theorem argList_show : (args : List Arg) → {values : List Outline.Argument} →
    outlineArgList? args = some values →
    ∃ items, argTokens (eraseArgList false args) = items.map (Prod.mk false) ∧
      List.Forall₂ ShowsArgument items values
  | [], _, h => by
    obtain rfl := Option.some.inj h
    exact ⟨[], rfl, .nil⟩
  | .lifetime _ :: rest, _, h => argList_show rest h
  | .type type :: rest, _, h => by
    simp only [outlineArgList?, Option.bind_eq_bind, Option.bind_eq_some_iff] at h
    obtain ⟨outline, houtline, values, hvalues, h⟩ := h
    obtain rfl := Option.some.inj h
    obtain ⟨items, hitems, hshows⟩ := argList_show rest hvalues
    exact ⟨_ :: items, congrArg (_ :: ·) hitems, .cons (type.shows houtline).argument hshows⟩
  | .value code :: rest, _, h => by
    simp only [outlineArgList?, Option.bind_eq_bind, Option.bind_eq_some_iff] at h
    obtain ⟨text, htext, values, hvalues, h⟩ := h
    obtain rfl := Option.some.inj h
    obtain ⟨items, hitems, hshows⟩ := argList_show rest hvalues
    exact ⟨_ :: items, congrArg (_ :: ·) hitems,
      .cons (showsValue_of_literal? htext).argument hshows⟩

theorem bounds_show : (bounds : List Bound) → {traits : List Named} →
    outlineBounds? bounds = some traits →
    List.Forall₂ ShowsBound (boundTokens (eraseBounds false bounds)) traits
  | [], _, h => by
    obtain rfl := Option.some.inj h
    exact .nil
  | .lifetime _ :: rest, _, h => bounds_show rest h
  | .trait parens [] whole :: rest, _, h => by
    simp only [outlineBounds?, Option.bind_eq_bind, Option.bind_eq_some_iff] at h
    obtain ⟨named, hnamed, traits, htraits, h⟩ := h
    obtain rfl := Option.some.inj h
    obtain ⟨tokens, htokens, hshows⟩ := whole.shows hnamed
    refine .cons ?_ (bounds_show rest htraits)
    have hinside : codeTokens (eraseCode []) ++ qualify none (nameTokens .asWritten whole.erase) =
      tokens := by
      rw [htokens]
      rfl
    rw [Bound.erase, Bound.tokens, hinside]
    split
    · exact hshows.parenthesized
    · exact hshows.bound

end

/-! ## Canonical forms -/

/-- The canonical form of a type shows its outline. -/
theorem ofCanonical?_canonical {type : Ty} {outline : Outline} (h : type.outline? = some outline) :
    ofCanonical? type.canonical = some outline := by
  have hshows := type.shows h
  have hread := hshows.reads false (Nat.lt_succ_self _) follows_nil
  rw [List.append_nil] at hread
  rw [ofCanonical?, Ty.canonical, Token.compact, String.toList_ofList, hread]
  rfl

end Bindery.Source
