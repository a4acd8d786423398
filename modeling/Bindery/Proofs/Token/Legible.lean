import Bindery.Proofs.Text.Quoted
import Bindery.Proofs.Token.Lexing
import Bindery.Proofs.Token.Word
import Bindery.Token.Printer
/-!
# What is written is lexed back

A legible tree holds identifiers, punctuation and quoted texts, so that nothing in it could be
written another way. In the spaced form such trees are lexed as they are (`lexes_spacedList`), in
front of whatever ends the last of them.
-/

namespace Bindery.Token

open Text

variable {rest : List Char}

/-! ## Written trees -/

/-- Whether a token is one that a text can hold as it is written. -/
def Legible : Token → Prop
  | .ident name => isIdent name = true
  | .punct char _ => char ∈ punctuation ∧ char ≠ '/' ∧ char ≠ '\x27'
  | .literal text => ∃ value, text = quote value

/-- Whether a punctuation character comes first. -/
def BeginsPunct (trees : List (TokenTree Token)) : Prop :=
  ∃ char joint rest, trees = .leaf (.punct char joint) :: rest

mutual

/-- Whether a tree is one that a text can hold as it is written. -/
def LegibleTree : TokenTree Token → Prop
  | .leaf token => Legible token
  | .group _ body => LegibleList body

/-- Whether trees are legible, and a punctuation character that is joined to the next one has a
next one. -/
def LegibleList : List (TokenTree Token) → Prop
  | [] => True
  | tree :: rest =>
    LegibleTree tree ∧ (tree.isJoint = true → BeginsPunct rest) ∧ LegibleList rest

end

/-- Whether what is written of a tree ends where `rest` begins. -/
def EndsBefore (rest : List Char) : TokenTree Token → Prop
  | .leaf (.punct _ joint) => startsPunct rest = joint
  | .leaf _ => EndsWord rest
  | .group _ _ => True

/-- Blanks and closing brackets end every tree that nothing has to be joined to. -/
theorem endsBefore_cons {c : Char} (hc : c ∈ [' ', '\n', ')', ']', '\x7d']) (rest : List Char)
    {tree : TokenTree Token} (h : tree.isJoint = false) : EndsBefore (c :: rest) tree := by
  have hother : [' ', '\n', ')', ']', '\x7d'].all (fun c => c ∉ punctuation ∧
      isIdentContinue c = false ∧ c ≠ '"' ∧ c ≠ '\x27' ∧ c ≠ '#') = true := by decide
  obtain ⟨hpunct, hends⟩ := of_decide_eq_true (List.all_eq_true.1 hother c hc)
  have hword : EndsWord (c :: rest) := by
    intro d hd
    obtain rfl := Option.some.inj hd
    exact hends
  cases tree with
  | group => trivial
  | leaf token =>
    cases token with
    | punct char joint =>
      obtain rfl : joint = false := h
      exact startsPunct_eq_false hpunct
    | ident | literal => exact hword

theorem startsPunct_of_mem {c : Char} {rest : List Char} (hpunct : c ∈ punctuation)
    (hslash : c ≠ '/') : startsPunct (c :: rest) = true := by
  unfold startsPunct
  split <;> simp_all

/-- What starts with punctuation is lexed as it is. -/
theorem leaf?_of_startsPunct {c : Char} {rest : List Char} (hstarts : startsPunct (c :: rest) = true)
    (hquote : c ≠ '\x27') : leaf? (c :: rest) = some (.punct c (startsPunct rest), 1) := by
  have hpunct : c ∈ punctuation := by
    by_contra hother
    rw [startsPunct_eq_false hother] at hstarts
    cases hstarts
  have hother : punctuation.all (fun c => c ≠ '\x27' → isDigit c = false ∧ digitValue? c = none ∧
      c ∉ ['"', 'r', 'b', 'c', '\x27']) = true := by decide
  obtain ⟨hdigit, hvalue, hquotes⟩ := of_decide_eq_true (List.all_eq_true.1 hother c hpunct) hquote
  simp only [List.mem_cons, List.not_mem_nil, or_false, not_or] at hquotes
  have hquoted : quotedLiteral? (c :: rest) = none := by
    unfold quotedLiteral?
    split <;> simp_all
  have hliteral : literalLength? (c :: rest) = none := by
    rw [literalLength?, hquoted]
    exact number_eq_none hdigit (by simp [hvalue])
  have hpunct? : punct? (c :: rest) = some (.punct c (startsPunct rest)) := by
    unfold punct?
    split
    · next hc => exact absurd (List.cons.inj hc).1 hquote
    · next hc =>
      obtain ⟨rfl, rfl⟩ := List.cons.inj hc
      rw [hstarts]
      rfl
    · next hc => cases hc
  rw [leaf?, hliteral, hpunct?]

theorem leaf?_punct {c : Char} {rest : List Char} (hpunct : c ∈ punctuation) (hslash : c ≠ '/')
    (hquote : c ≠ '\x27') : leaf? (c :: rest) = some (.punct c (startsPunct rest), 1) :=
  leaf?_of_startsPunct (startsPunct_of_mem hpunct hslash) hquote

theorem leaf?_literal (value : String) {rest : List Char} (hrest : EndsWord rest) :
    leaf? ((quote value).toList ++ rest) =
      some (.literal (quote value), (quote value).toList.length) := by
  have hcs : (quote value).toList ++ rest = '"' :: (escape value.toList ++ '"' :: rest) := by
    simp [quote]
  have hquoted : quotedLiteral? ((quote value).toList ++ rest) =
      some (quote value).toList.length := by
    rw [hcs]
    exact quotedLength?_quote value rest
  have hsuffix : suffixLength rest = 0 := by
    unfold suffixLength
    cases rest with
    | nil => rfl
    | cons c rest =>
      have hc : isIdentStart c = false := by
        have hcontinue := (hrest c rfl).1
        simp only [isIdentContinue, Bool.or_eq_false_iff] at hcontinue
        exact hcontinue.1.1
      simp [wordLength?, hc]
  have hliteral : literalLength? ((quote value).toList ++ rest) =
      some (quote value).toList.length := by
    rw [literalLength?, hquoted]
    simp only [withSuffix, List.drop_left, hsuffix, Nat.add_zero]
  rw [leaf?, hliteral]
  simp only [List.take_left, String.ofList_toList]

/-- No blank begins an identifier. -/
theorem isBlank_of_isIdentStart {c : Char} (h : isIdentStart c = true) : isBlank c = false := by
  have hcodes : ∀ code ∈ [0x20, 0x09, 0x0A, 0x0B, 0x0C, 0x0D, 0x85, 0xA0, 0x1680, 0x2000, 0x2001,
      0x2002, 0x2003, 0x2004, 0x2005, 0x2006, 0x2007, 0x2008, 0x2009, 0x200A, 0x200E, 0x200F,
      0x2028, 0x2029, 0x202F, 0x205F, 0x3000], isIdentStart (Char.ofNat code) = false := by
    decide +kernel
  rw [Bool.eq_false_iff]
  intro hblank
  -- The blanks are these characters and no others.
  have hcode := hcodes c.toNat (by
    simp only [isBlank, Bool.or_eq_true, Bool.and_eq_true, beq_iff_eq, decide_eq_true_eq] at hblank
    simp only [List.mem_cons, List.not_mem_nil, or_false]
    omega)
  rw [Char.ofNat_toNat, h] at hcode
  cases hcode

theorem beginsLeaf_of_isIdentStart {c : Char} (h : isIdentStart c = true) : BeginsLeaf c := by
  have hother : ['/', '(', ')', '[', ']', '\x7b', '\x7d'].all (!isIdentStart ·) = true := by decide
  refine ⟨isBlank_of_isIdentStart h, fun hmem => ?_⟩
  simpa [h] using List.all_eq_true.1 hother c hmem

theorem lexes_token {token : Token} (legible : Legible token)
    (ends : EndsBefore rest (.leaf token)) : Lexes token.text rest [.leaf token] := by
  cases token with
  | ident name =>
    have hleaf := leaf?_ident legible ends
    obtain ⟨c, tail, hname, hstart⟩ := exists_cons_of_isIdent legible
    rw [Token.text, hname]
    rw [hname] at hleaf
    exact lexes_leaf (beginsLeaf_of_isIdentStart hstart) hleaf
  | punct c joint =>
    obtain ⟨hpunct, hslash, hquote⟩ := legible
    obtain rfl : startsPunct rest = joint := ends
    have hbegins : punctuation.all (fun c => c ≠ '/' → isBlank c = false ∧
        c ∉ ['/', '(', ')', '[', ']', '\x7b', '\x7d']) = true := by decide
    have hleaf := of_decide_eq_true (List.all_eq_true.1 hbegins c hpunct) hslash
    exact lexes_leaf hleaf (leaf?_punct hpunct hslash hquote)
  | literal text =>
    obtain ⟨value, rfl⟩ := legible
    have hleaf := leaf?_literal value ends
    have htext : (quote value).toList = '"' :: (escape value.toList ++ ['"']) := by simp [quote]
    rw [Token.text, htext]
    rw [htext] at hleaf
    exact lexes_leaf ⟨by decide, by decide⟩ hleaf

/-- What is written of a legible tree begins with no slash. -/
theorem head?_spacedTree {tree : TokenTree Token} (legible : LegibleTree tree) :
    ∃ c cs, spacedTree tree = c :: cs ∧ c ≠ '/' := by
  cases tree with
  | group delimiter body =>
    rw [spacedTree]
    refine ⟨_, _, rfl, ?_⟩
    cases delimiter <;> decide
  | leaf token =>
    rw [LegibleTree] at legible
    rw [spacedTree]
    cases token with
    | ident name =>
      obtain ⟨c, tail, hname, hstart⟩ := exists_cons_of_isIdent legible
      refine ⟨c, tail, hname, ?_⟩
      rintro rfl
      exact absurd hstart (by decide)
    | punct c joint => exact ⟨c, [], rfl, legible.2.1⟩
    | literal text =>
      obtain ⟨value, rfl⟩ := legible
      exact ⟨'"', escape value.toList ++ ['"'], by simp [Token.text, quote], by decide⟩

/-- What is written of a joined character's successor begins with punctuation. -/
theorem startsPunct_spacedList {trees : List (TokenTree Token)} (begins : BeginsPunct trees)
    (legible : LegibleList trees) (rest : List Char) :
    startsPunct (spacedList true trees ++ rest) = true := by
  obtain ⟨c, joint, more, rfl⟩ := begins
  obtain ⟨⟨hpunct, hslash, -⟩, -⟩ := legible
  exact startsPunct_of_mem hpunct hslash

theorem isJoint_getLast? {trees : List (TokenTree Token)} (legible : LegibleList trees) :
    ∀ last ∈ trees.getLast?, last.isJoint = false := by
  induction trees with
  | nil => exact fun _ h => nomatch h
  | cons tree more ih =>
    obtain ⟨-, hjoint, hmore⟩ := legible
    cases more with
    | nil =>
      intro last hlast
      obtain rfl := Option.some.inj hlast
      rw [Bool.eq_false_iff]
      intro h
      obtain ⟨_, _, _, hnext⟩ := hjoint h
      cases hnext
    | cons next more => exact fun last h => ih hmore last h

/-- Where the next tree of a list is written, the one before it has ended. -/
theorem endsBefore_spacedList {tree next : TokenTree Token} {more : List (TokenTree Token)}
    (legible : LegibleList (tree :: next :: more)) (rest : List Char) :
    EndsBefore (spacedList tree.isJoint (next :: more) ++ rest) tree := by
  obtain ⟨-, hjoint, hmore⟩ := legible
  cases h : tree.isJoint with
  | false =>
    rw [spacedList, if_neg (by decide), List.append_assoc, List.append_assoc, List.singleton_append]
    exact endsBefore_cons (by decide) _ h
  | true =>
    have hstarts := startsPunct_spacedList (hjoint h) hmore rest
    cases tree with
    | group => trivial
    | leaf token =>
      cases token with
      | punct char joint =>
        obtain rfl : joint = true := h
        exact hstarts
      | ident | literal => cases h

mutual

/-- A legible tree is lexed as it is written. -/
theorem lexes_spacedTree (tree : TokenTree Token) (rest : List Char) (legible : LegibleTree tree)
    (ends : EndsBefore rest tree) : Lexes (spacedTree tree) rest [tree] := by
  cases tree with
  | leaf token => exact lexes_token legible ends
  | group delimiter body =>
    have hspace : Skips (if delimiter = .brace then [' '] else []) := by
      cases delimiter with
      | brace => exact skips_blank (by decide)
      | paren | bracket => exact skips_nil
    have hbehind :
        Skips (if body.isEmpty then [] else if delimiter = .brace then [' '] else []) := by
      cases body with
      | nil => exact skips_nil
      | cons => exact hspace
    have hends : ∀ last ∈ body.getLast?, EndsBefore
        ((if body.isEmpty then [] else if delimiter = .brace then [' '] else []) ++
          delimiter.closing :: rest) last := by
      intro last hlast
      have hjoint := isJoint_getLast? legible last hlast
      cases body with
      | nil => cases hlast
      | cons =>
        cases delimiter with
        | paren | bracket | brace => exact endsBefore_cons (by decide) _ hjoint
    have hbody := (lexes_spacedList body _ legible hends true).skip_end hbehind
    have hall := hbody.skip hspace
    rw [← List.append_assoc] at hall
    refine lexes_group hall ?_
    -- A slash behind the bracket could begin the spelling of a token that is lacking.
    cases delimiter with
    | brace => exact fun h => absurd (List.cons_prefix_cons.1 h).1 (by decide)
    | paren | bracket =>
      cases body with
      | nil => exact fun h => absurd (List.prefix_nil.1 h) (List.cons_ne_nil _ _)
      | cons first more =>
        obtain ⟨c, cs, hfirst, hslash⟩ := head?_spacedTree legible.1
        intro h
        rw [spacedList, hfirst] at h
        exact hslash (List.cons_prefix_cons.1 h).1.symm

/-- Legible trees are lexed as they are written, in front of what ends the last of them. -/
theorem lexes_spacedList (trees : List (TokenTree Token)) (rest : List Char)
    (legible : LegibleList trees) (ends : ∀ last ∈ trees.getLast?, EndsBefore rest last)
    (glued : Bool) : Lexes (spacedList glued trees) rest trees := by
  cases trees with
  | nil => exact lexes_of_skips skips_nil
  | cons tree more =>
    have hspace : Skips (if glued then [] else [' ']) := by
      cases glued with
      | true => exact skips_nil
      | false => exact skips_blank (by decide)
    have hends : EndsBefore (spacedList tree.isJoint more ++ rest) tree := by
      cases more with
      | nil => exact ends tree rfl
      | cons next more => exact endsBefore_spacedList legible rest
    have hlast : ∀ last ∈ more.getLast?, EndsBefore rest last := by
      cases more with
      | nil => exact fun _ h => nomatch h
      | cons next more => exact fun last h => ends last h
    have htree := (lexes_spacedTree tree _ legible.1 hends).skip hspace
    exact htree.append (lexes_spacedList more rest legible.2.2 hlast tree.isJoint)

end

/-! ## Line ends -/

theorem lineEnd_not_mem_text {token : Token} (legible : Legible token) : '\n' ∉ token.text := by
  cases token with
  | ident name =>
    intro hmem
    rcases isIdentContinue_of_isIdent legible hmem with h | h <;> exact absurd h (by decide)
  | punct c joint =>
    intro hmem
    obtain rfl := List.mem_singleton.1 hmem
    exact absurd legible.1 (by decide)
  | literal text =>
    obtain ⟨value, rfl⟩ := legible
    exact lineEnd_not_mem_quote value

mutual

theorem lineEnd_not_mem_spacedTree (tree : TokenTree Token) (legible : LegibleTree tree) :
    '\n' ∉ spacedTree tree := by
  cases tree with
  | leaf token => exact lineEnd_not_mem_text legible
  | group delimiter body =>
    have hbody := lineEnd_not_mem_spacedList body legible true
    have hspace : '\n' ∉ (if delimiter = .brace then [' '] else []) := by
      cases delimiter <;> decide
    have hbehind :
        '\n' ∉ (if body.isEmpty then [] else if delimiter = .brace then [' '] else []) := by
      cases body with
      | nil => exact List.not_mem_nil
      | cons => exact hspace
    have hopening : '\n' ≠ delimiter.opening := by cases delimiter <;> decide
    have hclosing : '\n' ≠ delimiter.closing := by cases delimiter <;> decide
    rw [spacedTree]
    simp only [List.mem_cons, List.mem_append, List.not_mem_nil, or_false, not_or]
    exact ⟨hopening, ⟨⟨hspace, hbody⟩, hbehind⟩, hclosing⟩

/-- Legible trees are written on one line. -/
theorem lineEnd_not_mem_spacedList (trees : List (TokenTree Token)) (legible : LegibleList trees)
    (glued : Bool) : '\n' ∉ spacedList glued trees := by
  cases trees with
  | nil => exact List.not_mem_nil
  | cons tree more =>
    have htree := lineEnd_not_mem_spacedTree tree legible.1
    have hmore := lineEnd_not_mem_spacedList more legible.2.2 tree.isJoint
    have hspace : '\n' ∉ (if glued then [] else [' ']) := by cases glued <;> decide
    rw [spacedList]
    simp only [List.mem_append, not_or]
    exact ⟨⟨hspace, htree⟩, hmore⟩

end

end Bindery.Token
