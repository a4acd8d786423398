import Bindery.Token.Lexer
import Mathlib.Data.List.TakeWhile
/-!
# Words and identifiers

A word is a character that may begin an identifier with any number of characters that may continue
one. An identifier is a word, or a word after the mark of raw identifiers. `leaf?_ident`: an
identifier is lexed as the token it is, whatever stands behind it, as long as that does not lengthen
it (`EndsWord`).
-/

namespace Bindery.Token

open Text

/-- Whether characters form a word. -/
def IsWord (cs : List Char) : Prop :=
  ∃ c rest, cs = c :: rest ∧ isIdentStart c = true ∧ ∀ d ∈ rest, isIdentContinue d = true

/-- A text does not go on with what would lengthen a word or make a literal of it. -/
def EndsWord (rest : List Char) : Prop :=
  ∀ c ∈ rest.head?, isIdentContinue c = false ∧ c ≠ '"' ∧ c ≠ '\x27' ∧ c ≠ '#'

/-! ## Words -/

theorem takeWhile_of_head? {p : Char → Bool} {rest : List Char}
    (h : ∀ c ∈ rest.head?, p c = false) : rest.takeWhile p = [] := by
  cases rest with
  | nil => rfl
  | cons c rest => rw [List.takeWhile_cons_of_neg (by simp [h c rfl])]

/-- A word is as long as it goes. -/
theorem wordLength?_append {cs rest : List Char} (word : IsWord cs)
    (h : ∀ c ∈ rest.head?, isIdentContinue c = false) :
    wordLength? (cs ++ rest) = some cs.length := by
  obtain ⟨c, tail, rfl, hstart, hcontinue⟩ := word
  have htail : (tail ++ rest).takeWhile isIdentContinue = tail := by
    rw [List.takeWhile_append_of_pos hcontinue, takeWhile_of_head? h, List.append_nil]
  rw [List.cons_append, wordLength?, if_pos hstart, htail, List.length_cons, Nat.add_comm]

/-- What stands at the head as a word is one. -/
theorem isWord_of_wordLength? {cs : List Char} {length : Nat} (h : wordLength? cs = some length) :
    IsWord (cs.take length) ∧ length ≤ cs.length := by
  cases cs with
  | nil => cases h
  | cons c cs =>
    rw [wordLength?] at h
    split at h
    · next hstart =>
      obtain rfl := Option.some.inj h
      refine ⟨⟨c, cs.takeWhile isIdentContinue, ?_, hstart, ?_⟩, ?_⟩
      · rw [Nat.add_comm, List.take_succ_cons]
        congr 1
        exact (List.prefix_iff_eq_take.1 (List.takeWhile_prefix _)).symm
      · exact fun d hd => List.mem_takeWhile_imp hd
      · have := (List.takeWhile_prefix (l := cs) isIdentContinue).length_le
        rw [List.length_cons]
        omega
    · cases h

/-- An identifier is a word, which may have the mark of raw identifiers in front. -/
theorem isIdent_cases {text : String} (h : isIdent text = true) :
    IsWord text.toList ∨
      ∃ word, text.toList = 'r' :: '#' :: word ∧ IsWord word ∧
        neverRaw.contains (String.ofList word) = false := by
  rw [isIdent, beq_iff_eq] at h
  generalize text.toList = cs at h
  unfold identLength? at h
  split at h
  · next rest =>
    right
    obtain ⟨length, hlength, h⟩ := Option.bind_eq_some_iff.1 h
    split at h
    · cases h
    · next hraw =>
      obtain ⟨hword, -⟩ := isWord_of_wordLength? hlength
      have hall : rest.take length = rest := by
        apply List.take_of_length_le
        have := Option.some.inj h
        simp only [List.length_cons] at this
        omega
      rw [hall] at hword hraw
      exact ⟨rest, rfl, hword, by simpa using hraw⟩
  · left
    obtain ⟨hword, -⟩ := isWord_of_wordLength? h
    rwa [List.take_length] at hword

theorem IsWord.isIdentContinue {cs : List Char} (word : IsWord cs) {c : Char} (h : c ∈ cs) :
    Text.isIdentContinue c = true := by
  obtain ⟨first, rest, rfl, hstart, hcontinue⟩ := word
  rcases List.mem_cons.1 h with rfl | h
  · exact isIdentContinue_of_isIdentStart hstart
  · exact hcontinue c h

/-- The characters of an identifier are those of words, and the hash of raw identifiers. -/
theorem isIdentContinue_of_isIdent {text : String} (h : isIdent text = true) {c : Char}
    (hc : c ∈ text.toList) : isIdentContinue c = true ∨ c = '#' := by
  rcases isIdent_cases h with hword | ⟨word, htext, hword, -⟩
  · exact .inl (hword.isIdentContinue hc)
  · rw [htext] at hc
    simp only [List.mem_cons] at hc
    rcases hc with rfl | rfl | hc
    · exact .inl (by decide)
    · exact .inr rfl
    · exact .inl (hword.isIdentContinue hc)

/-- An identifier begins with a letter. -/
theorem exists_cons_of_isIdent {text : String} (h : isIdent text = true) :
    ∃ c tail, text.toList = c :: tail ∧ isIdentStart c = true := by
  rcases isIdent_cases h with ⟨c, tail, htext, hstart, -⟩ | ⟨word, htext, -⟩
  · exact ⟨c, tail, htext, hstart⟩
  · exact ⟨'r', _, htext, by decide⟩

theorem ne_nil_of_isIdent {text : String} (h : isIdent text = true) : text.toList ≠ [] := by
  obtain ⟨c, tail, htext, -⟩ := exists_cons_of_isIdent h
  simp [htext]

theorem colon_not_mem_of_isIdent {text : String} (h : isIdent text = true) :
    ':' ∉ text.toList := by
  intro hmem
  rcases isIdentContinue_of_isIdent h hmem with hc | hc
  · exact absurd hc (by decide)
  · exact absurd hc (by decide)

/-! ## No other token begins where a word does -/

theorem not_mem_punctuation {c : Char} (h : isIdentStart c = true) : c ∉ punctuation := by
  have hnone : punctuation.all (fun p => !isIdentStart p) = true := by decide
  intro hmem
  simpa [h] using List.all_eq_true.1 hnone c hmem

theorem startsPunct_eq_false {c : Char} {rest : List Char} (h : c ∉ punctuation) :
    startsPunct (c :: rest) = false := by
  unfold startsPunct
  split <;> simp_all

theorem punct?_eq_none {c : Char} {rest : List Char} (h : c ∉ punctuation) :
    punct? (c :: rest) = none := by
  unfold punct?
  split
  · next hc =>
    exact absurd (by decide) ((List.cons.inj hc).1 ▸ h)
  · next hc =>
    obtain ⟨rfl, rfl⟩ := List.cons.inj hc
    rw [startsPunct_eq_false h]
    rfl
  · rfl

/-- A raw string needs a quote after its hash marks. -/
theorem rawLength?_eq_none {flavor : Flavor} {n : Nat} {cs : List Char}
    (h : (cs.dropWhile (· == '#')).head? ≠ some '"') : rawLength? flavor n cs = none := by
  have hdrop : cs.drop (cs.takeWhile (· == '#')).length = cs.dropWhile (· == '#') := by
    have hleft : (cs.takeWhile (· == '#') ++ cs.dropWhile (· == '#')).drop
        (cs.takeWhile (· == '#')).length = cs.dropWhile (· == '#') := List.drop_left
    rwa [List.takeWhile_append_dropWhile] at hleft
  unfold rawLength?
  simp only [hdrop]
  split
  · next hc => simp [hc] at h
  · rfl

/-- What follows the first character of a word is neither a quote nor a hash. -/
theorem head?_tail_append {tail rest : List Char} (hcontinue : ∀ d ∈ tail, isIdentContinue d = true)
    (hrest : EndsWord rest) : ∀ c ∈ (tail ++ rest).head?, c ≠ '"' ∧ c ≠ '\x27' ∧ c ≠ '#' := by
  cases tail with
  | nil => exact fun c hc => (hrest c hc).2
  | cons d tail =>
    intro c hc
    obtain rfl : d = c := Option.some.inj hc
    have hd := hcontinue d List.mem_cons_self
    refine ⟨?_, ?_, ?_⟩ <;> rintro rfl <;> exact absurd hd (by decide)

theorem dropWhile_hash {cs : List Char} (h : ∀ c ∈ cs.head?, c ≠ '#') :
    cs.dropWhile (· == '#') = cs := by
  cases cs with
  | nil => rfl
  | cons c cs => rw [List.dropWhile_cons_of_neg (by simpa using h c rfl)]

/-- No raw string stands where a word goes on. -/
theorem rawLength?_tail {flavor : Flavor} {n : Nat} {tail rest : List Char}
    (hcontinue : ∀ d ∈ tail, isIdentContinue d = true) (hrest : EndsWord rest) :
    rawLength? flavor n (tail ++ rest) = none := by
  have hhead := head?_tail_append hcontinue hrest
  refine rawLength?_eq_none ?_
  rw [dropWhile_hash fun c hc => (hhead c hc).2.2]
  exact fun hc => (hhead _ hc).1 rfl

/-- What follows an `r` in a word is the rest of the word. -/
theorem tail_after_r {tail rest more : List Char}
    (hcontinue : ∀ d ∈ tail, isIdentContinue d = true) (hrest : EndsWord rest)
    (h : tail ++ rest = 'r' :: more) :
    ∃ tail', (∀ d ∈ tail', isIdentContinue d = true) ∧ more = tail' ++ rest := by
  cases tail with
  | nil =>
    rw [List.nil_append] at h
    exact absurd (hrest 'r' (by rw [h]; rfl)).1 (by decide)
  | cons d tail =>
    exact ⟨tail, fun d hd => hcontinue d (List.mem_cons_of_mem _ hd), (List.cons.inj h).2.symm⟩

/-- A word does not look like a quoted literal. -/
theorem quotedLiteral?_word {cs rest : List Char} (word : IsWord cs) (hrest : EndsWord rest) :
    quotedLiteral? (cs ++ rest) = none := by
  obtain ⟨c, tail, rfl, hstart, hcontinue⟩ := word
  have hhead := head?_tail_append hcontinue hrest
  -- After a prefix such as `b`, an `r` belongs to the word as well.
  have hafter : ∀ flavor n more, tail ++ rest = 'r' :: more → rawLength? flavor n more = none := by
    intro flavor n more h
    obtain ⟨tail', hcontinue', rfl⟩ := tail_after_r hcontinue hrest h
    exact rawLength?_tail hcontinue' hrest
  rw [List.cons_append]
  unfold quotedLiteral?
  split <;> rename_i h
  · exact absurd ((List.cons.inj h).1 ▸ hstart) (by decide)
  · exact (List.cons.inj h).2 ▸ rawLength?_tail hcontinue hrest
  · exact absurd rfl (hhead '"' (by rw [(List.cons.inj h).2]; rfl)).1
  · exact hafter _ _ _ (List.cons.inj h).2
  · exact absurd rfl (hhead '\x27' (by rw [(List.cons.inj h).2]; rfl)).2.1
  · exact absurd rfl (hhead '"' (by rw [(List.cons.inj h).2]; rfl)).1
  · exact hafter _ _ _ (List.cons.inj h).2
  · exact absurd ((List.cons.inj h).1 ▸ hstart) (by decide)
  · rfl

theorem startsQuoted_word {cs rest : List Char} (word : IsWord cs) (hrest : EndsWord rest) :
    startsQuoted (cs ++ rest) = false := by
  obtain ⟨c, tail, rfl, -, hcontinue⟩ := word
  have hhead := head?_tail_append hcontinue hrest
  have hafter : ∀ d more, tail ++ rest = 'r' :: d :: more → d ≠ '"' ∧ d ≠ '\x27' ∧ d ≠ '#' := by
    intro d more h
    obtain ⟨tail', hcontinue', htail'⟩ := tail_after_r hcontinue hrest h
    exact head?_tail_append hcontinue' hrest d (by rw [← htail']; rfl)
  rw [List.cons_append]
  generalize tail ++ rest = more at *
  unfold startsQuoted
  split <;> simp_all

theorem isDigit_of_isIdentStart {c : Char} (h : isIdentStart c = true) : isDigit c = false := by
  rw [Bool.eq_false_iff]
  intro hd
  simp only [isDigit, Bool.and_eq_true, decide_eq_true_eq] at hd
  have hle : c.toNat ≤ 0x39 := hd.2
  simp only [isIdentStart, isLetter, Bool.or_eq_true, Bool.and_eq_true, decide_eq_true_eq,
    beq_iff_eq] at h
  rcases h with ((⟨h, -⟩ | ⟨h, -⟩) | rfl) | ⟨h, -⟩
  · have : 0x61 ≤ c.toNat := h
    omega
  · have : 0x41 ≤ c.toNat := h
    omega
  · exact absurd hle (by decide)
  · omega

theorem digitValue?_of_isIdentStart {c : Char} (h : isIdentStart c = true) :
    ∀ value ∈ digitValue? c, 10 ≤ value := by
  intro value hvalue
  rw [digitValue?, isDigit_of_isIdentStart h] at hvalue
  simp only [Bool.false_eq_true, if_false] at hvalue
  split at hvalue
  · next hc =>
    have : 0x61 ≤ c.toNat := hc.1
    obtain rfl := Option.some.inj hvalue
    omega
  split at hvalue
  · next hc =>
    have : 0x41 ≤ c.toNat := hc.1
    obtain rfl := Option.some.inj hvalue
    omega
  · cases hvalue

/-- No number begins with what is no decimal digit. -/
theorem number_eq_none {c : Char} {rest : List Char} (hdigit : isDigit c = false)
    (hvalue : ∀ value ∈ digitValue? c, 10 ≤ value) :
    (floatLength? (c :: rest) <|> intLength? (c :: rest)) = none := by
  have hfloat : floatLength? (c :: rest) = none := by simp [floatLength?, hdigit]
  have hdigits : intDigits? 10 true 0 (c :: rest) = none := by
    rw [intDigits?]
    split
    · rfl
    split
    · next value hc =>
      have hten := hvalue value hc
      -- A decimal number ends before a letter, and here it has no digit yet.
      rw [if_neg (by omega), if_pos (.inr rfl)]
    · rfl
  have hzero : c ≠ '0' := by
    rintro rfl
    exact absurd hdigit (by decide)
  have hint : intLength? (c :: rest) = none := by
    unfold intLength?
    split
    · next hc => exact absurd (List.cons.inj hc).1 hzero
    · next hc => exact absurd (List.cons.inj hc).1 hzero
    · next hc => exact absurd (List.cons.inj hc).1 hzero
    · rw [hdigits]
      rfl
  rw [hfloat, hint]
  rfl

/-! ## Identifiers as tokens -/

/-- An identifier is lexed up to where no word goes on. -/
theorem identLength?_of_head? {name : String} {rest : List Char} (h : isIdent name = true)
    (hrest : ∀ c ∈ rest.head?, isIdentContinue c = false)
    (hraw : name.toList = ['r'] → rest.head? ≠ some '#') :
    identLength? (name.toList ++ rest) = some name.toList.length := by
  rcases isIdent_cases h with hword | ⟨word, htext, hword, hnever⟩
  · unfold identLength?
    split
    · next hc =>
      obtain ⟨c, tail, htext, -, hcontinue⟩ := hword
      rw [htext, List.cons_append] at hc
      obtain ⟨rfl, hbehind⟩ := List.cons.inj hc
      cases tail with
      | nil => exact absurd (congrArg List.head? hbehind) (hraw htext)
      | cons d tail =>
        have hd := hcontinue d List.mem_cons_self
        rw [(List.cons.inj hbehind).1] at hd
        exact absurd hd (by decide)
    · exact wordLength?_append hword hrest
  · rw [htext, List.cons_append, List.cons_append, identLength?, wordLength?_append hword hrest]
    simp only [Option.bind_eq_bind, Option.bind_some, List.take_left, hnever]
    simp only [Bool.false_eq_true, if_false, List.length_cons]
    congr 1
    omega

/-- An identifier is lexed up to its end. -/
theorem identLength?_append {name : String} {rest : List Char} (h : isIdent name = true)
    (hrest : EndsWord rest) :
    identLength? (name.toList ++ rest) = some name.toList.length :=
  identLength?_of_head? h (fun c hc => (hrest c hc).1) fun _ hc => (hrest '#' hc).2.2.2 rfl

/-- An identifier is lexed as the token it is where a word does not look like a quoted literal. -/
theorem leaf?_of_identLength? {name : String} {rest : List Char} (h : isIdent name = true)
    (hlength : identLength? (name.toList ++ rest) = some name.toList.length)
    (hunquoted : IsWord name.toList → quotedLiteral? (name.toList ++ rest) = none ∧
      startsQuoted (name.toList ++ rest) = false) :
    leaf? (name.toList ++ rest) = some (.ident name, name.toList.length) := by
  -- Neither a word nor the mark of raw identifiers is taken for the head of a quoted literal.
  have hsafe : (quotedLiteral? (name.toList ++ rest) = none ∧
      startsQuoted (name.toList ++ rest) = false) ∧
      ∃ c more, name.toList ++ rest = c :: more ∧ isIdentStart c = true := by
    rcases isIdent_cases h with hword | ⟨word, htext, hword, -⟩
    · refine ⟨hunquoted hword, ?_⟩
      obtain ⟨c, tail, htail, hstart, -⟩ := hword
      exact ⟨c, tail ++ rest, by rw [htail, List.cons_append], hstart⟩
    · obtain ⟨c, tail, rfl, hstart, -⟩ := hword
      have hquote : c ≠ '"' ∧ c ≠ '#' := by
        constructor <;> rintro rfl <;> exact absurd hstart (by decide)
      rw [htext]
      refine ⟨⟨?_, ?_⟩, 'r', '#' :: c :: (tail ++ rest), rfl, by decide⟩
      · show rawLength? .text 1 ('#' :: c :: (tail ++ rest)) = none
        refine rawLength?_eq_none ?_
        rw [List.dropWhile_cons_of_pos (by decide),
          List.dropWhile_cons_of_neg (by simpa using hquote.2)]
        simpa using hquote.1
      · show startsQuoted ('r' :: '#' :: c :: (tail ++ rest)) = false
        unfold startsQuoted
        split <;> simp_all
  obtain ⟨⟨hquoted, hstarts⟩, c, more, hcs, hstart⟩ := hsafe
  have hliteral : literalLength? (name.toList ++ rest) = none := by
    rw [literalLength?, hquoted, hcs]
    exact number_eq_none (isDigit_of_isIdentStart hstart) (digitValue?_of_isIdentStart hstart)
  have hpunct : punct? (name.toList ++ rest) = none := by
    rw [hcs]
    exact punct?_eq_none (not_mem_punctuation hstart)
  rw [leaf?, hliteral, hpunct]
  simp only [hstarts, hlength, Bool.false_eq_true, if_false, Option.map_some, List.take_left,
    String.ofList_toList]

/-- An identifier is lexed as the token it is. -/
theorem leaf?_ident {name : String} {rest : List Char} (h : isIdent name = true)
    (hrest : EndsWord rest) :
    leaf? (name.toList ++ rest) = some (.ident name, name.toList.length) :=
  leaf?_of_identLength? h (identLength?_append h hrest) fun hword =>
    ⟨quotedLiteral?_word hword hrest, startsQuoted_word hword hrest⟩

end Bindery.Token
