import Bindery.Proofs.Source.Type.Erased
import Bindery.Proofs.Source.Type.Outline
/-!
# The parts of a canonical form

The compact form of a type has no parentheses around it and hardly any blanks. Words, literals and
the way a type begins still show where each part of it ends: no mark belongs to a word or to a
literal (`mark_spec`), and neither is lengthened by what may stand behind a type (`stop_spec`).
-/

namespace Bindery.Source

open Token (compactList compactTree EndsWord EndsLiteral IsLiteral isIdent literalLength?)
open Text (isIdentStart isIdentContinue isDigit)
open Outline

variable {tokens : List (TokenTree Token)} {rest : List Char}

/-! ## The compact form, part by part -/

/-- Whether a word comes last, where one comes before or not. -/
def endsWord (afterWord : Bool) : List (TokenTree Token) → Bool
  | [] => afterWord
  | tree :: rest => endsWord tree.isWord rest

theorem compactList_append (first second : List (TokenTree Token)) (afterWord : Bool) :
    compactList afterWord (first ++ second) =
      compactList afterWord first ++ compactList (endsWord afterWord first) second := by
  induction first generalizing afterWord with
  | nil => rfl
  | cons tree more ih =>
    simp only [List.cons_append, compactList, ih, endsWord, List.append_assoc]

theorem endsWord_append (first second : List (TokenTree Token)) (afterWord : Bool) :
    endsWord afterWord (first ++ second) = endsWord (endsWord afterWord first) second := by
  induction first generalizing afterWord with
  | nil => rfl
  | cons tree more ih => exact ih tree.isWord

@[simp]
theorem compactList_mark (afterWord : Bool) (c : Char) (joint : Bool)
    (more : List (TokenTree Token)) :
    compactList afterWord (.leaf (.punct c joint) :: more) = c :: compactList false more := by
  simp [compactList, compactTree, TokenTree.isWord, Token.isWord, Token.text]

@[simp]
theorem compactList_name (afterWord : Bool) (name : String) (more : List (TokenTree Token)) :
    compactList afterWord (.leaf (.ident name) :: more) =
      (if afterWord then [' '] else []) ++ (name.toList ++ compactList true more) := by
  simp [compactList, compactTree, TokenTree.isWord, Token.isWord, Token.text]

@[simp]
theorem compactList_group (afterWord : Bool) (delimiter : Delimiter)
    (body more : List (TokenTree Token)) :
    compactList afterWord (.group delimiter body :: more) =
      delimiter.opening ::
        (compactList false body ++ delimiter.closing :: compactList false more) := by
  simp [compactList, compactTree, TokenTree.isWord]

@[simp]
theorem compactList_nil (afterWord : Bool) : compactList afterWord [] = [] :=
  rfl

theorem length_compactList_false_le (afterWord : Bool) (tokens : List (TokenTree Token)) :
    (compactList false tokens).length ≤ (compactList afterWord tokens).length := by
  cases tokens with
  | nil => exact Nat.le_refl _
  | cons tree more => simp [compactList]

theorem length_compactList_tail_le (tree : TokenTree Token) (more : List (TokenTree Token)) :
    (compactList false more).length ≤ (compactList false (tree :: more)).length := by
  rw [compactList, List.length_append]
  exact (length_compactList_false_le tree.isWord more).trans (Nat.le_add_left _ _)

/-! ## Words -/

theorem word?_append {name : String} (ident : isIdent name = true) (ends : EndsWord rest) :
    word? (name.toList ++ rest) = some (name, rest) := by
  rw [word?, Token.identLength?_append ident ends, Option.map_some, List.take_left, List.drop_left,
    String.ofList_toList]

theorem after?_append {name : String} (ident : isIdent name = true) (ends : EndsWord rest)
    (word : String) :
    after? word (name.toList ++ rest) = if name = word then some rest else none := by
  rw [after?, word?_append ident ends]
  rfl

/-- No word begins with a mark. -/
theorem word?_eq_none {c : Char} (h : isIdentStart c = false) : word? (c :: rest) = none := by
  have hraw : c ≠ 'r' := by
    rintro rfl
    exact absurd h (by decide)
  unfold word? Token.identLength?
  split
  · next hc => exact absurd (List.cons.inj hc).1 hraw
  · simp [Token.wordLength?, h]

theorem unspaced_of_ne {c : Char} (h : c ≠ ' ') : unspaced (c :: rest) = c :: rest := by
  unfold unspaced
  split <;> simp_all

theorem unspaced_word {name : String} (ident : isIdent name = true) (afterWord : Bool)
    (rest : List Char) :
    unspaced ((if afterWord then [' '] else []) ++ (name.toList ++ rest)) =
      name.toList ++ rest := by
  cases afterWord with
  | true => rfl
  | false =>
    obtain ⟨c, tail, hname, hstart⟩ := Token.exists_cons_of_isIdent ident
    rw [hname]
    refine unspaced_of_ne ?_
    rintro rfl
    exact absurd hstart (by decide)

/-! ## Marks and stops -/

/-- The characters that no word and no literal begins with, and that end a word. -/
def marks : List Char :=
  ['!', '&', '*', '<', '(', '[', '-', '+', ')', '>', ' ']

theorem mark_spec {c : Char} (h : c ∈ marks) (rest : List Char) :
    literalLength? (c :: rest) = none ∧ isIdentStart c = false ∧ EndsWord (c :: rest) := by
  have hall : marks.all (fun c => isDigit c = false ∧ Token.digitValue? c = none ∧
      isIdentStart c = false ∧ isIdentContinue c = false ∧
      c ∉ ['"', 'r', 'b', 'c', '\x27', '#']) = true := by decide
  obtain ⟨hdigit, hvalue, hstart, hcontinue, hother⟩ :=
    of_decide_eq_true (List.all_eq_true.1 hall c h)
  simp only [List.mem_cons, List.not_mem_nil, or_false, not_or] at hother
  have hquoted : Token.quotedLiteral? (c :: rest) = none := by
    unfold Token.quotedLiteral?
    split <;> simp_all
  refine ⟨?_, hstart, ?_⟩
  · rw [literalLength?, hquoted]
    exact Token.number_eq_none hdigit (by simp [hvalue])
  · intro d hd
    obtain rfl := Option.some.inj hd
    exact ⟨hcontinue, by simp_all⟩

theorem not_mem_marks_of_isIdentStart {c : Char} (h : isIdentStart c = true) : c ∉ marks := by
  intro hmark
  rw [(mark_spec hmark []).2.1] at h
  cases h

/-- The characters that a type begins with where no word does. -/
def openings : List Char :=
  ['!', '&', '*', '<', '(', '[']

theorem opening_spec {c : Char} (h : c ∈ openings) : c ∈ marks ∧ c ∉ ['-', ')', '>', ' '] := by
  have hall : openings.all (fun c => c ∈ marks ∧ c ∉ ['-', ')', '>', ' ']) = true := by decide
  exact of_decide_eq_true (List.all_eq_true.1 hall c h)

/-- The characters that may stand behind a type. -/
def stops : List Char :=
  [',', ')', '>', ']', ';', ' ']

theorem stop_spec {c : Char} (h : c ∈ stops) (rest : List Char) :
    EndsWord (c :: rest) ∧ EndsLiteral (c :: rest) ∧ c ≠ '<' ∧ c ≠ '+' := by
  have hall : stops.all (fun c => isIdentContinue c = false ∧
      c ∉ ['"', '\x27', '#', '<', '+', '.', '-']) = true := by decide
  obtain ⟨hcontinue, hother⟩ := of_decide_eq_true (List.all_eq_true.1 hall c h)
  simp only [List.mem_cons, List.not_mem_nil, or_false, not_or] at hother
  refine ⟨fun d hd => ?_, fun d hd => ?_, by simp_all, by simp_all⟩ <;>
  · obtain rfl := Option.some.inj hd
    exact ⟨hcontinue, by simp_all⟩

/-- Tokens begin with what does not close the list that they stand in. -/
def BeginsItem (tokens : List (TokenTree Token)) : Prop :=
  ∃ c cs, compactList false tokens = c :: cs ∧ c ∉ [')', '>']

/-! ## Literals -/

/-- No literal begins with a word. -/
theorem literalLength?_word {name : String} (ident : isIdent name = true) (ends : EndsWord rest) :
    literalLength? (name.toList ++ rest) = none := by
  have hleaf := Token.leaf?_ident ident ends
  unfold Token.leaf? at hleaf
  split at hleaf
  · cases hleaf
  · assumption

theorem literalLength?_isLiteral {text : String} (h : IsLiteral text) {c : Char} (hc : c ∈ stops)
    (rest : List Char) : literalLength? (text.toList ++ c :: rest) = some text.toList.length :=
  Token.literalLength?_append (stop_spec hc rest).2.1 h

/-- A literal does not begin with a mark. -/
theorem exists_cons_of_isLiteral {text : String} (h : IsLiteral text) :
    ∃ c cs, text.toList = c :: cs ∧ c ∉ marks := by
  cases htext : text.toList with
  | nil =>
    rw [IsLiteral, htext] at h
    cases h
  | cons c cs =>
    refine ⟨c, cs, rfl, fun hmark => ?_⟩
    rw [IsLiteral, htext, (mark_spec hmark cs).1] at h
    cases h

theorem value?_of_ne {cs : List Char} (h : cs.head? ≠ some '-') :
    value? cs = match literalLength? cs with
      | some length => some (String.ofList (cs.take length), cs.drop length)
      | none => (word? cs).bind fun (name, cs) =>
        if name = "true" ∨ name = "false" then some (name, cs) else none := by
  unfold value?
  split
  · next hsign =>
    split at hsign
    · exact absurd rfl h
    · obtain ⟨rfl, rfl⟩ := Prod.mk.inj hsign
      simp only [String.empty_append]
      rfl

theorem value?_word {name : String} (ident : isIdent name = true) (ends : EndsWord rest) :
    value? (name.toList ++ rest) =
      if name = "true" ∨ name = "false" then some (name, rest) else none := by
  rw [value?_of_ne, literalLength?_word ident ends, word?_append ident ends]
  · rfl
  · obtain ⟨c, cs, hname, hstart⟩ := Token.exists_cons_of_isIdent ident
    rw [hname]
    rintro ⟨⟩
    exact absurd hstart (by decide)

/-- Reading takes a literal in front of what may follow it. -/
structure ShowsValue (tokens : List (TokenTree Token)) (text : String) : Prop where
  begins : BeginsItem tokens
  reads : ∀ {c rest}, c ∈ stops →
    value? (compactList false tokens ++ c :: rest) = some (text, c :: rest)

theorem showsValue_literal {text : String} (h : IsLiteral text) :
    ShowsValue [.leaf (.literal text)] text := by
  have htokens : compactList false [.leaf (.literal text)] = text.toList := by
    simp [compactList, compactTree, Token.text]
  obtain ⟨c, cs, htext, hmark⟩ := exists_cons_of_isLiteral h
  refine ⟨⟨c, cs, htokens.trans htext, fun hc => hmark ?_⟩, fun {d rest} hd => ?_⟩
  · exact (by decide : [')', '>'] ⊆ marks) hc
  · rw [htokens, value?_of_ne, literalLength?_isLiteral h hd]
    · simp only [List.take_left, List.drop_left, String.ofList_toList]
    · rw [htext]
      rintro ⟨⟩
      exact hmark (by decide)

theorem showsValue_negative {text : String} (h : IsLiteral text) (joint : Bool) :
    ShowsValue [.leaf (.punct '-' joint), .leaf (.literal text)] ("-" ++ text) := by
  have htokens : compactList false [.leaf (.punct '-' joint), .leaf (.literal text)] =
      '-' :: text.toList := by
    simp [compactList, compactTree, TokenTree.isWord, Token.isWord, Token.text]
  refine ⟨⟨'-', _, htokens, by decide⟩, fun {d rest} hd => ?_⟩
  rw [htokens, List.cons_append]
  simp only [value?, literalLength?_isLiteral h hd, List.take_left, List.drop_left,
    String.ofList_toList]

theorem showsValue_truth {name : String} (h : name = "true" ∨ name = "false") :
    ShowsValue [.leaf (.ident name)] name := by
  have ident : isIdent name = true := by rcases h with rfl | rfl <;> decide +kernel
  have htokens : compactList false [.leaf (.ident name)] = name.toList := by simp
  obtain ⟨c, cs, hname, hstart⟩ := Token.exists_cons_of_isIdent ident
  refine ⟨⟨c, cs, htokens.trans hname, fun hc => ?_⟩, fun {d rest} hd => ?_⟩
  · exact not_mem_marks_of_isIdentStart hstart ((by decide : [')', '>'] ⊆ marks) hc)
  · rw [htokens, value?_word ident (stop_spec hd rest).1, if_pos h]

theorem showsValue_of_literal? {code : List Piece} {text : String} (h : literal? code = some text) :
    ShowsValue (codeTokens (eraseCode code)) text := by
  unfold literal? at h
  split at h
  · split at h
    · obtain rfl := Option.some.inj h
      exact showsValue_literal ‹_›
    · cases h
  · split at h
    · obtain rfl := Option.some.inj h
      exact showsValue_negative ‹_› _
    · cases h
  · split at h
    · obtain rfl := Option.some.inj h
      exact showsValue_truth ‹_›
    · cases h
  · cases h

/-! ## How a type begins and ends -/

/-- What may stand behind the first word of a type. -/
def AfterName (more : List (TokenTree Token)) : Prop :=
  ∀ tree ∈ more.head?, tree.isWord = true ∨ (∃ joint, tree = .leaf (.punct '<' joint)) ∨
    ∃ body, tree = .group .paren body

/-- What stands behind the first word of a type ends that word. -/
theorem AfterName.endsWord {more : List (TokenTree Token)} (h : AfterName more)
    (hrest : more = [] → EndsWord rest) : EndsWord (compactList true more ++ rest) := by
  cases more with
  | nil => exact hrest rfl
  | cons tree more =>
    rcases h tree rfl with hword | ⟨joint, rfl⟩ | ⟨body, rfl⟩
    · rw [compactList, hword]
      exact (mark_spec (c := ' ') (by decide) _).2.2
    · rw [compactList_mark]
      exact (mark_spec (by decide) _).2.2
    · rw [compactList_group]
      exact (mark_spec (by decide) _).2.2

/-- Tokens begin like those of a type. A word in front of them ends where they begin. -/
inductive Opening : List (TokenTree Token) → Prop
  | mark (c : Char) (joint : Bool) (more : List (TokenTree Token)) :
    c ∈ ['!', '&', '*', '<'] → Opening (.leaf (.punct c joint) :: more)
  | group (delimiter : Delimiter) (body more : List (TokenTree Token)) :
    delimiter ≠ .brace → Opening (.group delimiter body :: more)
  | word (name : String) (more : List (TokenTree Token)) : isIdent name = true →
    name ∉ ["mut", "true", "false"] → AfterName more → Opening (.leaf (.ident name) :: more)

/-- A text ends a name: it does not lengthen it and does not give it arguments. -/
def FollowsName (tokens : List (TokenTree Token)) (rest : List Char) : Prop :=
  (endsWord false tokens = true → EndsWord rest) ∧ rest.head? ≠ some '<'

/-- A text may follow a type: it does not lengthen it. -/
def Follows (tokens : List (TokenTree Token)) (rest : List Char) : Prop :=
  FollowsName tokens rest ∧ rest.head? ≠ some '+'

theorem follows_stop {c : Char} (h : c ∈ stops) (rest : List Char) :
    Follows tokens (c :: rest) := by
  obtain ⟨hword, -, hangle, hplus⟩ := stop_spec h rest
  exact ⟨⟨fun _ => hword, by simpa using hangle⟩, by simpa using hplus⟩

theorem follows_nil : Follows tokens [] :=
  ⟨⟨fun _ _ h => (nomatch h), (nomatch ·)⟩, (nomatch ·)⟩

/-- Only the last tokens matter for what follows. -/
theorem endsWord_of_ne_nil (h : tokens ≠ []) (afterWord afterWord' : Bool) :
    endsWord afterWord tokens = endsWord afterWord' tokens := by
  cases tokens with
  | nil => exact absurd rfl h
  | cons tree more => rfl

theorem FollowsName.of_append (front : List (TokenTree Token)) (h : tokens ≠ [])
    (follows : FollowsName (front ++ tokens) rest) : FollowsName tokens rest := by
  refine ⟨fun hends => follows.1 ?_, follows.2⟩
  rw [endsWord_append, endsWord_of_ne_nil h _ false, hends]

theorem Follows.of_append (front : List (TokenTree Token)) (h : tokens ≠ [])
    (follows : Follows (front ++ tokens) rest) : Follows tokens rest :=
  ⟨follows.1.of_append front h, follows.2⟩

namespace Opening

/-- The text of a type begins with a mark or with a word, in front of which a blank may stand. -/
theorem text (h : Opening tokens) (ends : endsWord false tokens = true → EndsWord rest) :
    (∃ c ∈ openings, ∃ cs, ∀ afterWord,
      compactList afterWord tokens ++ rest = c :: cs) ∨
    ∃ name cs, isIdent name = true ∧ name ∉ ["mut", "true", "false"] ∧ EndsWord cs ∧
      ∀ afterWord, compactList afterWord tokens ++ rest =
        (if afterWord then [' '] else []) ++ (name.toList ++ cs) := by
  cases h with
  | mark c joint more hc =>
    refine .inl ⟨c, ?_, compactList false more ++ rest, fun afterWord => by simp⟩
    exact (by decide : ['!', '&', '*', '<'] ⊆ openings) hc
  | group delimiter body more hdelimiter =>
    refine .inl ⟨delimiter.opening, ?_,
      compactList false body ++ delimiter.closing :: (compactList false more ++ rest),
      fun afterWord => by simp⟩
    cases delimiter <;> first | decide | exact absurd rfl hdelimiter
  | word name more ident hname after =>
    refine .inr ⟨name, compactList true more ++ rest, ident, hname, after.endsWord ?_,
      fun afterWord => by simp⟩
    rintro rfl
    exact ends rfl

theorem ne_nil (h : Opening tokens) : tokens ≠ [] := by
  cases h <;> exact List.cons_ne_nil _ _

theorem unspaced_eq (h : Opening tokens) (ends : endsWord false tokens = true → EndsWord rest)
    (afterWord : Bool) :
    unspaced (compactList afterWord tokens ++ rest) = compactList false tokens ++ rest := by
  rcases h.text ends with ⟨c, hc, cs, htext⟩ | ⟨name, cs, ident, -, -, htext⟩
  · rw [htext, htext]
    refine unspaced_of_ne ?_
    rintro rfl
    exact (opening_spec hc).2 (by decide)
  · rw [htext, htext, unspaced_word ident]
    rfl

theorem wordEnds (h : Opening tokens) (ends : endsWord false tokens = true → EndsWord rest) :
    EndsWord (compactList true tokens ++ rest) := by
  rcases h.text ends with ⟨c, hc, cs, htext⟩ | ⟨name, cs, -, -, -, htext⟩
  · rw [htext]
    exact (mark_spec (opening_spec hc).1 cs).2.2
  · rw [htext]
    exact (mark_spec (c := ' ') (by decide) _).2.2

theorem after?_mut (h : Opening tokens) (ends : endsWord false tokens = true → EndsWord rest) :
    after? "mut" (compactList false tokens ++ rest) = none := by
  rcases h.text ends with ⟨c, hc, cs, htext⟩ | ⟨name, cs, ident, hname, hcs, htext⟩
  · have hmark := mark_spec (opening_spec hc).1 cs
    rw [htext, after?, word?_eq_none hmark.2.1]
    rfl
  · have hmut : name ≠ "mut" := by
      rintro rfl
      exact hname (by decide)
    rw [htext]
    exact (after?_append ident hcs "mut").trans (if_neg hmut)

theorem value?_eq_none (h : Opening tokens)
    (ends : endsWord false tokens = true → EndsWord rest) :
    value? (compactList false tokens ++ rest) = none := by
  rcases h.text ends with ⟨c, hc, cs, htext⟩ | ⟨name, cs, ident, hname, hcs, htext⟩
  · have hmark := mark_spec (opening_spec hc).1 cs
    rw [htext, value?_of_ne, hmark.1, word?_eq_none hmark.2.1]
    · rfl
    · rintro ⟨⟩
      exact (opening_spec hc).2 (by decide)
  · have htruth : ¬(name = "true" ∨ name = "false") := by
      rintro (rfl | rfl) <;> exact hname (by decide)
    rw [htext]
    exact (value?_word ident hcs).trans (if_neg htruth)

/-- A word in front of a type ends before it. -/
theorem after?_word (h : Opening tokens) (ends : endsWord false tokens = true → EndsWord rest)
    {name : String} (ident : isIdent name = true) (word : String) :
    after? word (compactList false (.leaf (.ident name) :: tokens) ++ rest) =
      if name = word then some (compactList true tokens ++ rest) else none := by
  rw [compactList_name, List.append_assoc, List.append_assoc]
  exact after?_append ident (h.wordEnds ends) word

theorem beginsItem (h : Opening tokens) : BeginsItem tokens := by
  have hnil : endsWord false tokens = true → EndsWord [] := fun _ _ hc => nomatch hc
  rcases h.text hnil with ⟨c, hc, cs, htext⟩ | ⟨name, cs, ident, -, -, htext⟩
  · refine ⟨c, cs, (List.append_nil _).symm.trans (htext false), fun hclose => ?_⟩
    exact (opening_spec hc).2 ((by decide : [')', '>'] ⊆ ['-', ')', '>', ' ']) hclose)
  · obtain ⟨c, tail, hname, hstart⟩ := Token.exists_cons_of_isIdent ident
    refine ⟨c, tail ++ cs, ?_, fun hclose => ?_⟩
    · rw [← List.append_nil (compactList false tokens), htext, hname]
      rfl
    · exact not_mem_marks_of_isIdentStart hstart ((by decide : [')', '>'] ⊆ marks) hclose)

end Opening

end Bindery.Source
