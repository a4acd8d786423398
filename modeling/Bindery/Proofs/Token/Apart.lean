import Bindery.Proofs.Token.Leaves
import Bindery.Proofs.Token.Literal
/-!
# Trees that stay apart without blanks

Without blanks between them, tokens may run into each other: a slash and a star begin a comment, and
a quote behind a word may make a character of it. Where nothing of that kind happens (`apart`), the
compact form of trees is lexed as the same trees, up to which punctuation characters are joined
(`lexedAs_compact`).
-/

namespace Bindery.Token

open Text

/-! ## Joined again -/

mutual

/-- A tree in front of a text. A punctuation character is joined to one that follows directly; the
quote of a lifetime always is. -/
def rejoinTree (after : List Char) : TokenTree Token → TokenTree Token
  | .leaf (.ident name) => .leaf (.ident name)
  | .leaf (.punct c _) => .leaf (.punct c (c == '\x27' || startsPunct after))
  | .leaf (.literal text) => .leaf (.literal text)
  | .group delimiter body => .group delimiter (rejoin body)

/-- Trees with their punctuation characters joined as they are without blanks. -/
def rejoin : List (TokenTree Token) → List (TokenTree Token)
  | [] => []
  | tree :: rest => rejoinTree (compactList tree.isWord rest) tree :: rejoin rest

end

/-! ## What stays apart -/

/-- The words that are no words of their own in front of a hash. -/
def rawMarks : List String :=
  ["r", "br", "cr"]

/-- Whether a token ends where a text goes on. -/
def endsAt (after : List Char) : Token → Bool
  | .ident name => isIdent name && match after.head? with
    | none => true
    | some '\x27' => name != "b"
    | some '#' => !rawMarks.contains name
    | some c => !isIdentContinue c && c != '"'
  | .punct '/' _ => after.head? != some '/' && after.head? != some '*'
  | .punct '\x27' _ => startsLifetime after
  | .punct c _ => punctuation.contains c
  | .literal text => text != "" && literalLength? (text.toList ++ after) == some text.toList.length

mutual

/-- Whether a tree, and every tree inside it, ends where a text goes on. -/
def apartTree (after : List Char) : TokenTree Token → Bool
  | .leaf token => endsAt after token
  | .group _ body => apart body

/-- Whether the trees of a list, and those inside them, stay apart in the compact form. -/
def apart : List (TokenTree Token) → Bool
  | [] => true
  | tree :: rest => apartTree (compactList tree.isWord rest) tree && apart rest

end

/-- Nothing or a closing bracket follows. -/
def Closes (rest : List Char) : Prop :=
  ∀ c ∈ rest.head?, c ∈ [')', ']', '\x7d']

variable {rest : List Char}

theorem Closes.spec (closes : Closes rest) {c : Char} (h : rest.head? = some c) :
    isIdentContinue c = false ∧ c ∉ punctuation ∧ c ≠ '"' := by
  have hall : [')', ']', '\x7d'].all (fun c => isIdentContinue c = false ∧ c ∉ punctuation ∧
      c ≠ '"') = true := by decide
  exact of_decide_eq_true (List.all_eq_true.1 hall c (closes c h))

theorem Closes.endsWord (closes : Closes rest) : EndsWord rest := by
  intro c hc
  obtain ⟨hcontinue, hpunct, hquote⟩ := closes.spec hc
  refine ⟨hcontinue, hquote, ?_, ?_⟩ <;> rintro rfl <;> exact hpunct (by decide)

theorem Closes.endsLiteral (closes : Closes rest) : EndsLiteral rest := by
  intro c hc
  obtain ⟨hcontinue, hpunct, -⟩ := closes.spec hc
  refine ⟨hcontinue, fun hmem => hpunct ?_⟩
  have hall : ['.', '+', '-', '#'].all punctuation.contains = true := by decide
  exact List.contains_iff_mem.1 (List.all_eq_true.1 hall c hmem)

theorem Closes.startsPunct (closes : Closes rest) : Token.startsPunct rest = false := by
  cases rest with
  | nil => rfl
  | cons c rest => exact startsPunct_eq_false (closes.spec rfl).2.1

theorem startsPunct_cons_cons (c d : Char) (cs : List Char) :
    startsPunct (c :: d :: cs) =
      (!(c == '/' && (d == '/' || d == '*')) && punctuation.contains c) := by
  unfold startsPunct
  split
  · simp_all
  · simp_all
  · next hslash hstar h =>
    obtain ⟨rfl, rfl⟩ := List.cons.inj h
    by_cases hc : c = '/'
    · subst hc
      have hd : d ≠ '/' ∧ d ≠ '*' :=
        ⟨fun hd => hslash cs rfl (hd ▸ rfl), fun hd => hstar cs rfl (hd ▸ rfl)⟩
      simp [hd]
    · simp [hc]
  · next h => cases h

/-- What closes neither begins nor ends a punctuation character. -/
theorem startsPunct_append (closes : Closes rest) (cs : List Char) :
    startsPunct (cs ++ rest) = startsPunct cs := by
  rcases cs with _ | ⟨c, _ | ⟨d, cs⟩⟩
  · exact closes.startsPunct
  · cases rest with
    | nil => rfl
    | cons d rest =>
      have hd := (closes.spec rfl : _ ∧ d ∉ punctuation ∧ _).2.1
      have hslash : d ≠ '/' ∧ d ≠ '*' := by
        constructor <;> rintro rfl <;> exact hd (by decide)
      have hsingle : startsPunct [c] = punctuation.contains c := by
        unfold startsPunct
        split <;> simp_all
      rw [List.singleton_append, startsPunct_cons_cons, hsingle]
      simp [hslash]
  · rw [List.cons_append, List.cons_append, startsPunct_cons_cons, startsPunct_cons_cons]

/-! ## Identifiers -/

theorem rawLength?_of_head? {flavor : Flavor} {n : Nat} {cs : List Char}
    (h : ∀ c ∈ cs.head?, c ≠ '"' ∧ c ≠ '#') : rawLength? flavor n cs = none := by
  refine rawLength?_eq_none ?_
  rw [dropWhile_hash fun c hc => (h c hc).2]
  exact fun hc => (h _ hc).1 rfl

/-- What looks like no mark of a quoted literal. -/
structure Unquoted (c : Char) (behind : List Char) : Prop where
  plain : c ≠ '"' ∧ c ≠ '\x27' ∧ behind.head? ≠ some '"'
  single : c = 'b' → behind.head? ≠ some '\x27'
  hash : c = 'r' → behind.head? ≠ some '#'
  raw : c = 'b' ∨ c = 'c' → ∀ more, behind = 'r' :: more → ∀ d ∈ more.head?, d ≠ '"' ∧ d ≠ '#'

theorem Unquoted.quotedLiteral? {c : Char} {behind : List Char} (h : Unquoted c behind) :
    Token.quotedLiteral? (c :: behind) = none := by
  have hinj : ∀ {d more}, c :: behind = d :: more → c = d ∧ behind = more := List.cons.inj
  unfold Token.quotedLiteral?
  split
  · next heq => exact absurd (hinj heq).1 h.plain.1
  · next heq =>
    obtain ⟨rfl, rfl⟩ := hinj heq
    refine rawLength?_of_head? fun d hd => ⟨?_, ?_⟩ <;> rintro rfl
    · exact h.plain.2.2 hd
    · exact h.hash rfl hd
  · next heq => exact absurd (by rw [(hinj heq).2]; rfl) h.plain.2.2
  · next heq => exact rawLength?_of_head? (h.raw (.inl (hinj heq).1) _ (hinj heq).2)
  · next heq => exact absurd (by rw [(hinj heq).2]; rfl) (h.single (hinj heq).1)
  · next heq => exact absurd (by rw [(hinj heq).2]; rfl) h.plain.2.2
  · next heq => exact rawLength?_of_head? (h.raw (.inr (hinj heq).1) _ (hinj heq).2)
  · next heq => exact absurd (hinj heq).1 h.plain.2.1
  · rfl

theorem Unquoted.startsQuoted {c : Char} {behind : List Char} (h : Unquoted c behind) :
    Token.startsQuoted (c :: behind) = false := by
  have hraw : c = 'b' ∨ c = 'c' → ∀ d more, behind = 'r' :: d :: more → d ≠ '"' ∧ d ≠ '#' :=
    fun hc d more heq => h.raw hc _ heq d rfl
  obtain ⟨⟨-, -, hquote⟩, hsingle, hhash, -⟩ := h
  unfold Token.startsQuoted
  split <;> simp_all

/-- A word in front of a quote or a hash is no mark of a quoted literal, but for a few words. -/
theorem unquoted_of_mark {c mark : Char} {tail : List Char} (more : List Char)
    (hstart : isIdentStart c = true) (hcontinue : ∀ d ∈ tail, isIdentContinue d = true)
    (hmark : mark = '\x27' ∧ c :: tail ≠ ['b'] ∨
      mark = '#' ∧ c :: tail ∉ [['r'], ['b', 'r'], ['c', 'r']]) :
    Unquoted c (tail ++ mark :: more) := by
  have hgoes : ∀ d ∈ tail, d ≠ '"' ∧ d ≠ '#' ∧ d ≠ '\x27' := by
    intro d hd
    refine ⟨?_, ?_, ?_⟩ <;> rintro rfl <;> exact absurd (hcontinue _ hd) (by decide)
  have hother : mark ≠ '"' ∧ mark ≠ 'r' := by
    rcases hmark with ⟨rfl, -⟩ | ⟨rfl, -⟩ <;> decide
  refine ⟨⟨?_, ?_, ?_⟩, ?_, ?_, ?_⟩
  · rintro rfl
    exact absurd hstart (by decide)
  · rintro rfl
    exact absurd hstart (by decide)
  · cases tail with
    | nil => simpa using hother.1
    | cons d tail => simpa using (hgoes d List.mem_cons_self).1
  · rintro rfl
    cases tail with
    | nil => rcases hmark with ⟨-, hmark⟩ | ⟨rfl, -⟩ <;> simp_all
    | cons d tail => simpa using (hgoes d List.mem_cons_self).2.2
  · rintro rfl
    cases tail with
    | nil => rcases hmark with ⟨rfl, -⟩ | ⟨-, hmark⟩ <;> simp_all
    | cons d tail => simpa using (hgoes d List.mem_cons_self).2.1
  · intro hc behind heq d hd
    rcases tail with _ | ⟨e, _ | ⟨f, tail⟩⟩
    · exact absurd (List.cons.inj heq).1 hother.2
    · obtain ⟨rfl, rfl⟩ := List.cons.inj heq
      obtain rfl := Option.some.inj hd
      refine ⟨hother.1, ?_⟩
      rintro rfl
      rcases hmark with ⟨hmark, -⟩ | ⟨-, hmark⟩
      · exact absurd hmark (by decide)
      · rcases hc with rfl | rfl <;> exact hmark (by decide)
    · obtain ⟨rfl, rfl⟩ := List.cons.inj heq
      obtain rfl := Option.some.inj hd
      have hf := hgoes f (.tail _ List.mem_cons_self)
      exact ⟨hf.1, hf.2.1⟩

/-- An identifier that ends where a text goes on is lexed as one. -/
theorem leaf?_ident_of_endsAt {name : String} {after : List Char} (closes : Closes rest)
    (h : endsAt after (.ident name) = true) :
    leaf? (name.toList ++ (after ++ rest)) = some (.ident name, name.toList.length) := by
  obtain ⟨hident, hends⟩ := Bool.and_eq_true_iff.1 h
  cases after with
  | nil => exact leaf?_ident hident closes.endsWord
  | cons c after =>
    have hmark : ∀ {mark : Char}, mark = c → isIdentContinue mark = false →
        (mark = '\x27' ∧ name.toList ≠ ['b'] ∨
          mark = '#' ∧ name.toList ∉ [['r'], ['b', 'r'], ['c', 'r']]) →
        leaf? (name.toList ++ (c :: after ++ rest)) = some (.ident name, name.toList.length) := by
      rintro mark rfl hcontinue hmark
      refine leaf?_of_identLength? hident (identLength?_of_head? hident ?_ ?_) fun hword => ?_
      · rintro d hd
        obtain rfl := Option.some.inj hd
        exact hcontinue
      · rintro hname hd
        obtain rfl : mark = '#' := Option.some.inj hd
        rcases hmark with ⟨hmark, -⟩ | ⟨-, hmark⟩
        · exact absurd hmark (by decide)
        · exact hmark (by simp [hname])
      · obtain ⟨first, tail, hname, hstart, htail⟩ := hword
        rw [hname] at hmark ⊢
        have hunquoted := unquoted_of_mark (after ++ rest) hstart htail hmark
        exact ⟨hunquoted.quotedLiteral?, hunquoted.startsQuoted⟩
    have hname : ∀ text : String, name ≠ text → name.toList ≠ text.toList :=
      fun text hne heq => hne (String.toList_inj.1 heq)
    simp only [List.head?_cons] at hends
    split at hends
    · next heq => cases heq
    · next heq =>
      refine hmark (Option.some.inj heq).symm (by decide) (.inl ⟨rfl, ?_⟩)
      exact hname "b" (by simpa using hends)
    · next heq =>
      refine hmark (Option.some.inj heq).symm (by decide) (.inr ⟨rfl, ?_⟩)
      simp only [rawMarks, Bool.not_eq_true', List.contains_eq_mem, decide_eq_false_iff_not,
        List.mem_cons, List.not_mem_nil, or_false, not_or] at hends
      simp only [List.mem_cons, List.not_mem_nil, or_false, not_or]
      exact ⟨hname "r" hends.1, hname "br" hends.2.1, hname "cr" hends.2.2⟩
    · next hsingle hhash heq =>
      obtain rfl := Option.some.inj heq
      simp only [Bool.and_eq_true, Bool.not_eq_true', bne_iff_ne, ne_eq] at hends
      refine leaf?_ident hident fun d hd => ?_
      obtain rfl := Option.some.inj hd
      exact ⟨hends.1, hends.2, hsingle, hhash⟩

/-! ## Lifetimes -/

theorem wordLength?_append_of_closes (closes : Closes rest) (cs : List Char) :
    wordLength? (cs ++ rest) = wordLength? cs := by
  cases cs with
  | nil =>
    cases rest with
    | nil => rfl
    | cons c rest => simp [wordLength?, closes.endsLiteral.isIdentStart.1]
  | cons c cs =>
    rw [List.cons_append, wordLength?, wordLength?,
      takeWhile_append_of_head? fun d hd => (closes.spec hd).1]

theorem identLength?_append_of_closes (closes : Closes rest) {cs : List Char} {length : Nat}
    (h : identLength? cs = some length) :
    identLength? (cs ++ rest) = some length ∧ length ≤ cs.length := by
  unfold identLength? at h
  split at h
  · next more =>
    obtain ⟨word, hword, h⟩ := Option.bind_eq_some_iff.1 h
    have hle := (isWord_of_wordLength? hword).2
    rw [List.cons_append, List.cons_append, identLength?, wordLength?_append_of_closes closes, hword]
    simp only [Option.bind_eq_bind, Option.bind_some, List.take_append_of_le_length hle]
    refine ⟨h, ?_⟩
    split at h
    · cases h
    · have := Option.some.inj h
      simp only [List.length_cons]
      omega
  · next hraw =>
    refine ⟨?_, (isWord_of_wordLength? h).2⟩
    have hword : wordLength? (cs ++ rest) = some length := by
      rw [wordLength?_append_of_closes closes, h]
    unfold identLength?
    split
    · next more hcs =>
      -- The hash is none of what closes, so that it stands in the text itself.
      rcases cs with _ | ⟨c, _ | ⟨d, cs⟩⟩
      · cases h
      · have hrest : rest = '#' :: more := (List.cons.inj hcs).2
        exact absurd (by decide) (closes.spec (congrArg List.head? hrest)).2.1
      · obtain ⟨rfl, hbehind⟩ := List.cons.inj hcs
        obtain ⟨rfl, -⟩ := List.cons.inj hbehind
        exact absurd rfl (hraw cs)
    · exact hword

/-- A lifetime begins with an identifier that no quote follows, and no hash unless it is raw. -/
theorem startsLifetime_iff {cs : List Char} :
    startsLifetime cs = true ↔ ∃ length, identLength? cs = some length ∧
      (cs.drop length).head? ≠ some '\x27' ∧
      ((cs.drop length).head? = some '#' → ∃ more, cs = 'r' :: '#' :: more) := by
  unfold startsLifetime
  cases hlength : identLength? cs with
  | none => simp
  | some length =>
    simp only [Option.some.injEq, exists_eq_left']
    split
    · next hhead => simp [hhead]
    · next hhead =>
      split
      · simp [hhead]
      · next hraw => simpa [hhead] using hraw
    · next hquote hhash => simp_all

theorem startsLifetime_append (closes : Closes rest) {cs : List Char}
    (h : startsLifetime cs = true) : startsLifetime (cs ++ rest) = true := by
  obtain ⟨length, hlength, hquote, hhash⟩ := startsLifetime_iff.1 h
  obtain ⟨happend, hle⟩ := identLength?_append_of_closes closes hlength
  refine startsLifetime_iff.2 ⟨length, happend, ?_⟩
  rw [List.drop_append_of_le_length hle]
  cases hdrop : cs.drop length with
  | nil =>
    have hother : ∀ mark ∈ punctuation, rest.head? ≠ some mark :=
      fun mark hmark hhead => (closes.spec hhead).2.1 hmark
    exact ⟨hother _ (by decide), fun hhead => absurd hhead (hother _ (by decide))⟩
  | cons c behind =>
    rw [hdrop] at hquote hhash
    refine ⟨hquote, fun hhead => ?_⟩
    obtain ⟨more, rfl⟩ := hhash hhead
    exact ⟨more ++ rest, rfl⟩

/-- No character stands where a lifetime does. -/
theorem singleLength?_of_startsLifetime {flavor : Flavor} {n : Nat} {cs : List Char}
    (h : startsLifetime cs = true) : singleLength? flavor n cs = none := by
  obtain ⟨length, hlength, hquote, -⟩ := startsLifetime_iff.1 h
  cases cs with
  | nil => rfl
  | cons c cs =>
    have hident := isIdent_of_identLength? hlength
    obtain ⟨length, rfl⟩ : ∃ before, length = before + 1 := by
      cases length with
      | zero => exact absurd (show isIdent "" = true from hident) (by decide)
      | succ before => exact ⟨before, rfl⟩
    have hstart : isIdentStart c = true := by
      obtain ⟨first, tail, htext, hstart⟩ := exists_cons_of_isIdent hident
      rw [String.toList_ofList, List.take_succ_cons] at htext
      rwa [(List.cons.inj htext).1]
    have hescape : c ≠ '\\' := by
      rintro rfl
      exact absurd hstart (by decide)
    have hnext : cs.head? ≠ some '\x27' := by
      intro hhead
      obtain ⟨behind, rfl⟩ := List.head?_eq_some_iff.1 hhead
      cases length with
      | zero => exact hquote hhead
      | succ length =>
        have hmem : '\x27' ∈ (String.ofList ((c :: '\x27' :: behind).take (length + 2))).toList := by
          simp
        rcases isIdentContinue_of_isIdent hident hmem with hc | hc <;> exact absurd hc (by decide)
    rw [singleLength?_cons, singleInside?, if_neg hescape]
    split
    · rfl
    · rw [Option.bind_some, List.drop_zero, if_neg hnext]

theorem leaf?_quote {cs : List Char} (h : startsLifetime cs = true) :
    leaf? ('\x27' :: cs) = some (.punct '\x27' true, 1) := by
  have hliteral : literalLength? ('\x27' :: cs) = none := by
    rw [literalLength?, quotedLiteral?, singleLength?_of_startsLifetime h]
    exact number_eq_none (by decide) (by decide)
  rw [leaf?, hliteral, punct?, if_pos h]

/-! ## The compact form -/

/-- A literal begins with a digit, with a quote or with the mark of a quoted literal. -/
theorem begins_of_literalLength? {c : Char} {cs : List Char} {length : Nat}
    (h : literalLength? (c :: cs) = some length) :
    isDigit c = true ∨ c ∈ ['"', 'r', 'b', 'c', '\x27'] := by
  by_contra hother
  simp only [List.mem_cons, List.not_mem_nil, or_false, not_or, Bool.not_eq_true] at hother
  have hquoted : quotedLiteral? (c :: cs) = none := by
    unfold quotedLiteral?
    split <;> simp_all
  have hnone : (floatLength? (c :: cs) <|> intLength? (c :: cs)) = none :=
    number_eq_none hother.1 fun value hvalue => digitValue?_of_not_isDigit hother.1 hvalue
  rw [literalLength?, hquoted] at h
  cases hnone.symm.trans h

theorem beginsLeaf_of_isDigit {c : Char} (h : isDigit c = true) : BeginsLeaf c := by
  simp only [isDigit, Bool.and_eq_true, decide_eq_true_eq] at h
  have hlow : 0x30 ≤ c.toNat := h.1
  have hhigh : c.toNat ≤ 0x39 := h.2
  constructor
  · simp only [isBlank, Bool.or_eq_false_iff, Bool.and_eq_false_iff, beq_eq_false_iff_ne,
      decide_eq_false_iff_not]
    omega
  · intro hmem
    have hall : ['/', '(', ')', '[', ']', '\x7b', '\x7d'].all
        (fun c => c.toNat < 0x30 ∨ 0x39 < c.toNat) = true := by decide
    have := of_decide_eq_true (List.all_eq_true.1 hall c hmem)
    omega

theorem beginsLeaf_of_literalLength? {c : Char} {cs : List Char} {length : Nat}
    (h : literalLength? (c :: cs) = some length) : BeginsLeaf c := by
  have hall : ['"', 'r', 'b', 'c', '\x27'].all (fun c => isBlank c = false ∧
      c ∉ ['/', '(', ')', '[', ']', '\x7b', '\x7d']) = true := by decide
  rcases begins_of_literalLength? h with hdigit | hmark
  · exact beginsLeaf_of_isDigit hdigit
  · exact (decide_eq_true_iff.1 (List.all_eq_true.1 hall c hmark) :)

theorem beginsLeaf_of_mem_punctuation {c : Char} (h : c ∈ punctuation) (hslash : c ≠ '/') :
    BeginsLeaf c := by
  have hall : punctuation.all (fun c => c ≠ '/' → isBlank c = false ∧
      c ∉ ['/', '(', ')', '[', ']', '\x7b', '\x7d']) = true := by decide
  exact of_decide_eq_true (List.all_eq_true.1 hall c h) hslash

/-- A slash that begins no comment is lexed as it is. -/
theorem lexes_slash {more : List Char} (hslash : more.head? ≠ some '/')
    (hstar : more.head? ≠ some '*') :
    Lexes ['/'] more [.leaf (.punct '/' (startsPunct more))] := by
  have hstarts : startsPunct ('/' :: more) = true := by
    cases more with
    | nil => decide
    | cons c more =>
      have hc : c ≠ '/' ∧ c ≠ '*' :=
        ⟨fun hc => hslash (congrArg some hc), fun hc => hstar (congrArg some hc)⟩
      rw [startsPunct_cons_cons]
      simp [hc, punctuation]
  have hskim : skim .blank 0 ('/' :: more) = 0 := by
    cases more with
    | nil => rfl
    | cons c more =>
      have hc : c ≠ '/' ∧ c ≠ '*' :=
        ⟨fun hc => hslash (congrArg some hc), fun hc => hstar (congrArg some hc)⟩
      have hblank : isBlank '/' = false := by decide
      simp [skim, hc, hblank]
  have hdoc : docComment? ('/' :: more) = none := by
    unfold docComment?
    split <;> simp_all
  refine lexes_of_lexed? (List.cons_ne_nil _ _) ?_ fun line => ?_
  · exact hskim
  · rw [List.singleton_append]
    unfold lexed?
    rw [hdoc]
    simp only [leaf?_of_startsPunct hstarts (by decide)]
    rfl

theorem lexes_of_endsAt {token : Token} {after : List Char} (closes : Closes rest)
    (h : endsAt after token = true) :
    Lexes token.text (after ++ rest) [rejoinTree after (.leaf token)] := by
  cases token with
  | ident name =>
    obtain ⟨c, tail, hname, hstart⟩ := exists_cons_of_isIdent (Bool.and_eq_true_iff.1 h).1
    have hleaf := leaf?_ident_of_endsAt closes h
    rw [Token.text, hname]
    rw [hname] at hleaf
    exact lexes_leaf (beginsLeaf_of_isIdentStart hstart) hleaf
  | literal text =>
    simp only [endsAt, Bool.and_eq_true, bne_iff_ne, ne_eq, beq_iff_eq] at h
    obtain ⟨hne, hlength⟩ := h
    have happend := literalLength?_append_of_le closes.endsLiteral hlength (by simp)
    rw [List.append_assoc] at happend
    cases htext : text.toList with
    | nil => exact absurd (String.toList_inj.1 htext) hne
    | cons c tail =>
      have hleaf : leaf? (text.toList ++ (after ++ rest)) =
          some (.literal text, text.toList.length) := by
        rw [leaf?, happend]
        simp only [List.take_left, String.ofList_toList]
      rw [htext] at hlength hleaf
      rw [Token.text, htext]
      exact lexes_leaf (beginsLeaf_of_literalLength? hlength) hleaf
  | punct c joint =>
    have hjoint := startsPunct_append closes after
    unfold endsAt at h
    split at h
    · next heq => cases heq
    · next heq =>
      cases heq
      simp only [Bool.and_eq_true, bne_iff_ne, ne_eq] at h
      -- A slash begins a comment if a slash or an asterisk follows it, be it in another token.
      have hother : ∀ mark ∈ ['/', '*'], after.head? ≠ some mark →
          (after ++ rest).head? ≠ some mark := by
        intro mark hmark hafter
        cases after with
        | cons => exact hafter
        | nil =>
          intro hhead
          have hall : ['/', '*'].all punctuation.contains = true := by decide
          exact (closes.spec hhead).2.1
            (List.contains_iff_mem.1 (List.all_eq_true.1 hall mark hmark))
      have hslash := lexes_slash (hother '/' (by decide) h.1) (hother '*' (by decide) h.2)
      rw [hjoint] at hslash
      exact hslash
    · next heq =>
      cases heq
      exact lexes_leaf ⟨by decide, by decide⟩ (leaf?_quote (startsLifetime_append closes h))
    · next hslash hquote heq =>
      cases heq
      have hmem := List.contains_iff_mem.1 h
      have hc : c ≠ '/' ∧ c ≠ '\x27' := ⟨fun hc => hslash (by rw [hc]), fun hc => hquote (by rw [hc])⟩
      have hleaf : leaf? (c :: (after ++ rest)) = some (.punct c (startsPunct (after ++ rest)), 1) :=
        leaf?_punct hmem hc.1 hc.2
      have hjoined : (c == '\x27' || startsPunct after) = startsPunct (after ++ rest) := by
        rw [hjoint]
        simp [hc.2]
      rw [rejoinTree, hjoined]
      exact lexes_leaf (beginsLeaf_of_mem_punctuation hmem hc.1) hleaf
    · next heq => cases heq

/-- The first character of trees that stay apart begins neither a comment nor the mark of a byte
order. -/
theorem head_compactList {trees : List (TokenTree Token)} (h : apart trees = true) :
    ¬['/', '*'] <+: compactList false trees ∧ (compactList false trees).head? ≠ some '\ufeff' := by
  cases trees with
  | nil => simp [compactList]
  | cons tree more =>
    obtain ⟨htree, -⟩ := Bool.and_eq_true_iff.1 h
    rw [compactList, Bool.false_and, if_neg (by decide), List.nil_append]
    have hother : ∀ {c : Char} {cs : List Char}, c ≠ '/' → c ≠ '\ufeff' →
        ¬['/', '*'] <+: c :: cs ∧ (c :: cs).head? ≠ some '\ufeff' := by
      intro c cs hslash hmark
      exact ⟨fun hprefix => hslash (List.cons_prefix_cons.1 hprefix).1.symm,
        fun hhead => hmark (Option.some.inj hhead)⟩
    rcases tree with ⟨name | ⟨c, joint⟩ | text⟩ | ⟨delimiter, body⟩
    · obtain ⟨c, tail, hname, hstart⟩ := exists_cons_of_isIdent (Bool.and_eq_true_iff.1 htree).1
      rw [compactTree, Token.text, hname]
      refine hother ?_ ?_ <;> rintro rfl <;> exact absurd hstart (by decide +kernel)
    · by_cases hslash : c = '/'
      · subst hslash
        have hends : endsAt (compactList false more) (.punct '/' joint) = true := htree
        simp only [endsAt, Bool.and_eq_true, bne_iff_ne, ne_eq] at hends
        refine ⟨fun hprefix => hends.2 ?_, fun hhead => absurd (Option.some.inj hhead) (by decide)⟩
        obtain ⟨behind, heq⟩ := (List.cons_prefix_cons.1 hprefix).2
        exact congrArg List.head? heq.symm
      · refine hother hslash ?_
        rintro rfl
        exact absurd htree (by simp [apartTree, endsAt, punctuation])
    · have hends : endsAt (compactList true more) (.literal text) = true := htree
      simp only [endsAt, Bool.and_eq_true, bne_iff_ne, ne_eq, beq_iff_eq] at hends
      rw [compactTree, Token.text]
      cases htext : text.toList with
      | nil => exact absurd (String.toList_inj.1 htext) hends.1
      | cons c tail =>
        have hlength := hends.2
        rw [htext] at hlength
        have hbegins := begins_of_literalLength? hlength
        refine hother ?_ ?_ <;> rintro rfl <;> exact absurd hbegins (by decide)
    · cases delimiter <;> exact hother (by decide) (by decide)

mutual

theorem lexes_compactTree (tree : TokenTree Token) (after rest : List Char)
    (h : apartTree after tree = true) (closes : Closes rest) :
    Lexes (compactTree tree) (after ++ rest) [rejoinTree after tree] := by
  cases tree with
  | leaf token => exact lexes_of_endsAt closes h
  | group delimiter body =>
    have hclosing : Closes (delimiter.closing :: (after ++ rest)) := by
      intro c hc
      obtain rfl := Option.some.inj hc
      cases delimiter <;> decide
    exact lexes_group (lexes_compactList body false _ h hclosing) (head_compactList h).1

/-- Trees that stay apart are lexed as they are without blanks. -/
theorem lexes_compactList (trees : List (TokenTree Token)) (afterWord : Bool) (rest : List Char)
    (h : apart trees = true) (closes : Closes rest) :
    Lexes (compactList afterWord trees) rest (rejoin trees) := by
  cases trees with
  | nil => exact lexes_of_skips skips_nil
  | cons tree more =>
    obtain ⟨htree, hmore⟩ := Bool.and_eq_true_iff.1 h
    have hspace : Skips (if afterWord && tree.isWord then [' '] else []) := by
      split
      · exact skips_blank (by decide)
      · exact skips_nil
    have hfirst := (lexes_compactTree tree _ rest htree closes).skip hspace
    exact hfirst.append (lexes_compactList more tree.isWord rest hmore closes)

end

/-- The compact form of trees that stay apart is lexed as these trees. -/
theorem lexedAs_compact {trees : List (TokenTree Token)} (h : apart trees = true) :
    LexedAs (compact trees) (rejoin trees) := by
  have hcompact : (compact trees).toList = compactList false trees := String.toList_ofList
  refine Lexes.lexedAs ?_ ?_
  · rw [hcompact]
    exact lexes_compactList trees false [] h fun _ hc => nomatch hc
  · rw [hcompact]
    exact (head_compactList h).2

end Bindery.Token
