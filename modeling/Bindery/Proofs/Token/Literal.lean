import Bindery.Proofs.Token.Word
/-!
# Literals that end where they end

What stands behind a literal does not change it, unless it could go on as a part of it
(`EndsLiteral`). A text that is a literal on its own is therefore lexed as one in front of
everything else (`literalLength?_append`).
-/

namespace Bindery.Token

open Text

/-- A text does not go on with what would lengthen a literal. -/
def EndsLiteral (rest : List Char) : Prop :=
  ∀ c ∈ rest.head?, isIdentContinue c = false ∧ c ∉ ['.', '+', '-', '#']

variable {rest : List Char}

theorem EndsLiteral.isIdentStart {c : Char} (ends : EndsLiteral (c :: rest)) :
    Text.isIdentStart c = false ∧ isDigit c = false ∧ c ≠ '_' := by
  have hcontinue := (ends c rfl).1
  simp only [isIdentContinue, Bool.or_eq_false_iff] at hcontinue
  obtain ⟨⟨hstart, hdigit⟩, -⟩ := hcontinue
  refine ⟨hstart, hdigit, ?_⟩
  rintro rfl
  exact absurd hstart (by decide)

/-- No digit of any base stands where a literal has ended. -/
theorem EndsLiteral.digitValue? {c : Char} (ends : EndsLiteral (c :: rest)) :
    Token.digitValue? c = none := by
  obtain ⟨hstart, hdigit, -⟩ := ends.isIdentStart
  have hletter : isLetter c = false := by
    simp only [Text.isIdentStart, Bool.or_eq_false_iff] at hstart
    exact hstart.1.1
  simp only [isLetter, Bool.or_eq_false_iff, Bool.and_eq_false_iff, decide_eq_false_iff_not]
    at hletter
  have hlower : ¬('a' ≤ c ∧ c ≤ 'f') := by
    rintro ⟨hle, hge⟩
    rcases hletter.1 with h | h
    · exact h hle
    · exact h (Char.le_trans hge (by decide))
  have hupper : ¬('A' ≤ c ∧ c ≤ 'F') := by
    rintro ⟨hle, hge⟩
    rcases hletter.2 with h | h
    · exact h hle
    · exact h (Char.le_trans hge (by decide))
  simp [Token.digitValue?, hdigit, hlower, hupper]

/-! ## Suffixes -/

theorem takeWhile_append_of_head? {p : Char → Bool} (h : ∀ c ∈ rest.head?, p c = false)
    (cs : List Char) : (cs ++ rest).takeWhile p = cs.takeWhile p := by
  rw [List.takeWhile_append, takeWhile_of_head? h, List.append_nil]
  split
  · next hall => exact (List.takeWhile_prefix p).eq_of_length hall |>.symm
  · rfl

theorem suffixLength_append (ends : EndsLiteral rest) (cs : List Char) :
    suffixLength (cs ++ rest) = suffixLength cs := by
  unfold suffixLength
  cases cs with
  | nil =>
    cases rest with
    | nil => rfl
    | cons c rest => simp [wordLength?, ends.isIdentStart.1]
  | cons c cs =>
    rw [List.cons_append, wordLength?, wordLength?,
      takeWhile_append_of_head? fun d hd => (ends d hd).1]

theorem suffixLength_le (cs : List Char) : suffixLength cs ≤ cs.length := by
  unfold suffixLength
  cases h : wordLength? cs with
  | none => exact Nat.zero_le _
  | some length => exact (isWord_of_wordLength? h).2

theorem withSuffix_append (ends : EndsLiteral rest) {cs : List Char} {length : Nat}
    (h : length ≤ cs.length) : withSuffix (cs ++ rest) length = withSuffix cs length := by
  rw [withSuffix, withSuffix, List.drop_append_of_le_length h, suffixLength_append ends]

/-! ## Numbers -/

theorem intDigits?_append (ends : EndsLiteral rest) (base : Nat) (empty : Bool) (n : Nat)
    (cs : List Char) : intDigits? base empty n (cs ++ rest) = intDigits? base empty n cs := by
  induction cs generalizing empty n with
  | nil =>
    cases rest with
    | nil => rfl
    | cons c rest => simp [intDigits?, ends.isIdentStart.2.2, ends.digitValue?]
  | cons c cs ih => simp only [List.cons_append, intDigits?, ih]

theorem intDigits?_le {base n length : Nat} {empty : Bool} {cs : List Char}
    (h : intDigits? base empty n cs = some length) : length ≤ n + cs.length := by
  induction cs generalizing empty n with
  | nil =>
    cases empty with
    | true => cases h
    | false => exact Nat.le_of_eq (Option.some.inj h).symm
  | cons c cs ih =>
    rw [List.length_cons]
    have hrest : ∀ empty, intDigits? base empty (n + 1) cs = some length →
        length ≤ n + (cs.length + 1) := fun empty h => by have := ih h; omega
    unfold intDigits? at h
    split at h
    · split at h
      · cases h
      · exact hrest _ h
    · split at h
      · split at h
        · exact hrest _ h
        · split at h
          · cases h
          · have := Option.some.inj h
            omega
      · split at h
        · cases h
        · have := Option.some.inj h
          omega

theorem exponentLength?_append (ends : EndsLiteral rest) (before : Option Nat)
    (signed valued : Bool) (n : Nat) (cs : List Char) :
    exponentLength? before signed valued n (cs ++ rest) =
      exponentLength? before signed valued n cs := by
  induction cs generalizing signed valued n with
  | nil =>
    cases rest with
    | nil => rfl
    | cons c rest =>
      have hsign := (ends c rfl).2
      simp only [List.mem_cons, List.not_mem_nil, or_false, not_or] at hsign
      simp [exponentLength?, hsign, ends.isIdentStart]
  | cons c cs ih => simp only [List.cons_append, exponentLength?, ih]

theorem exponentLength?_le {before : Option Nat} {signed valued : Bool} {n length : Nat}
    {cs : List Char} (h : exponentLength? before signed valued n cs = some length)
    (hbefore : ∀ m ∈ before, m ≤ n) : length ≤ n + cs.length := by
  induction cs generalizing signed valued n with
  | nil =>
    cases valued with
    | true => exact Nat.le_of_eq (Option.some.inj h).symm
    | false => exact hbefore _ h
  | cons c cs ih =>
    rw [List.length_cons]
    have hstop : before = some length → length ≤ n + (cs.length + 1) := fun h => by
      have := hbefore _ h
      omega
    have hhere : some n = some length → length ≤ n + (cs.length + 1) := fun h => by
      have := Option.some.inj h
      omega
    have hrest : ∀ signed valued, exponentLength? before signed valued (n + 1) cs = some length →
        length ≤ n + (cs.length + 1) := fun signed valued h => by
      have := ih h fun m hm => Nat.le_succ_of_le (hbefore m hm)
      omega
    unfold exponentLength? at h
    split at h
    · split at h
      · exact hhere h
      · split at h
        · exact hstop h
        · exact hrest _ _ h
    · split at h
      · exact hrest _ _ h
      · split at h
        · exact hrest _ _ h
        · split at h
          · exact hhere h
          · exact hstop h

theorem floatDigits?_append (ends : EndsLiteral rest) (pointed : Bool) (n : Nat) (cs : List Char) :
    floatDigits? pointed n (cs ++ rest) = floatDigits? pointed n cs := by
  induction cs generalizing pointed n with
  | nil =>
    cases rest with
    | nil => rfl
    | cons c rest =>
      have hother := (ends c rfl).2
      simp only [List.mem_cons, List.not_mem_nil, or_false, not_or] at hother
      have hexponent : c ≠ 'e' ∧ c ≠ 'E' := by
        constructor <;> rintro rfl <;> exact absurd ends.isIdentStart.1 (by decide)
      simp [floatDigits?, hother, hexponent, ends.isIdentStart]
  | cons c cs ih =>
    have hnext : (cs ++ rest).head?.any (fun d => d == '.' || Text.isIdentStart d) =
        cs.head?.any (fun d => d == '.' || Text.isIdentStart d) := by
      cases cs with
      | nil =>
        cases rest with
        | nil => rfl
        | cons d rest =>
          have hother := (ends d rfl).2
          simp only [List.mem_cons, List.not_mem_nil, or_false, not_or] at hother
          simp [hother, ends.isIdentStart]
      | cons => rfl
    simp only [List.cons_append, floatDigits?, ih, exponentLength?_append ends, hnext]

theorem floatDigits?_le {pointed : Bool} {n length : Nat} {cs : List Char}
    (h : floatDigits? pointed n cs = some length) : length ≤ n + cs.length := by
  induction cs generalizing pointed n with
  | nil =>
    cases pointed with
    | true => exact Nat.le_of_eq (Option.some.inj h).symm
    | false => cases h
  | cons c cs ih =>
    rw [List.length_cons]
    have hrest : ∀ pointed, floatDigits? pointed (n + 1) cs = some length →
        length ≤ n + (cs.length + 1) := fun pointed h => by have := ih h; omega
    unfold floatDigits? at h
    split at h
    · exact hrest _ h
    · split at h
      · split at h
        · cases h
        · exact hrest _ h
      · split at h
        · have := exponentLength?_le h (by cases pointed <;> simp)
          omega
        · split at h
          · have := Option.some.inj h
            omega
          · cases h

theorem closeNumber?_append (ends : EndsLiteral rest) {cs : List Char} {n : Nat}
    (h : n ≤ cs.length) : closeNumber? (cs ++ rest) n = closeNumber? cs n := by
  have hlength : n + suffixLength (cs.drop n) ≤ cs.length := by
    have := suffixLength_le (cs.drop n)
    rw [List.length_drop] at this
    omega
  have hhead : ∀ cs : List Char, (cs ++ rest).head?.any isIdentContinue =
      cs.head?.any isIdentContinue := by
    intro cs
    cases cs with
    | nil =>
      cases rest with
      | nil => rfl
      | cons c rest => simp [(ends c rfl).1]
    | cons => rfl
  simp only [closeNumber?, List.drop_append_of_le_length h, suffixLength_append ends,
    List.drop_append_of_le_length hlength, hhead]

theorem floatLength?_append (ends : EndsLiteral rest) (cs : List Char) :
    floatLength? (cs ++ rest) = floatLength? cs := by
  have hhead : (cs ++ rest).head?.any isDigit = cs.head?.any isDigit := by
    cases cs with
    | nil =>
      cases rest with
      | nil => rfl
      | cons c rest => simp [ends.isIdentStart]
    | cons => rfl
  unfold floatLength?
  rw [hhead, floatDigits?_append ends]
  split
  · cases hdigits : floatDigits? false 0 cs with
    | none => rfl
    | some length =>
      have hle := floatDigits?_le hdigits
      exact closeNumber?_append ends (by omega)
  · rfl

/-- The digits of an integer at the head of a text, after the mark of their base. -/
def intHead? (cs : List Char) : Option Nat :=
  match cs with
  | '0' :: 'x' :: rest => intDigits? 16 true 2 rest
  | '0' :: 'o' :: rest => intDigits? 8 true 2 rest
  | '0' :: 'b' :: rest => intDigits? 2 true 2 rest
  | _ => intDigits? 10 true 0 cs

theorem intLength?_eq (cs : List Char) :
    intLength? cs = (intHead? cs).bind fun length => closeNumber? cs length := by
  unfold intLength? intHead?
  dsimp only
  split <;> simp_all

theorem intHead?_append (ends : EndsLiteral rest) (cs : List Char) :
    intHead? (cs ++ rest) = intHead? cs := by
  rcases cs with _ | ⟨c, _ | ⟨d, cs⟩⟩
  · have hnone : intHead? rest = intDigits? 10 true 0 rest := by
      unfold intHead?
      split
      · exact absurd ends.isIdentStart.2.1 (by decide)
      · exact absurd ends.isIdentStart.2.1 (by decide)
      · exact absurd ends.isIdentStart.2.1 (by decide)
      · rfl
    exact hnone.trans (intDigits?_append ends 10 true 0 [])
  · -- A base is marked by a letter, and none stands behind the digit.
    have hsingle : intHead? ([c] ++ rest) = intDigits? 10 true 0 ([c] ++ rest) := by
      have hletter : ∀ d more, [c] ++ rest = '0' :: d :: more → Text.isIdentStart d = false := by
        intro d more h
        obtain ⟨-, rfl⟩ := List.cons.inj h
        exact ends.isIdentStart.1
      unfold intHead?
      split
      · next h => exact absurd (hletter _ _ h) (by decide)
      · next h => exact absurd (hletter _ _ h) (by decide)
      · next h => exact absurd (hletter _ _ h) (by decide)
      · rfl
    have hhere : intHead? [c] = intDigits? 10 true 0 [c] := by
      unfold intHead?
      split <;> simp_all
    rw [hsingle, intDigits?_append ends, hhere]
  · have hmark : ∀ tail, intHead? (c :: d :: tail) =
        if c = '0' ∧ d = 'x' then intDigits? 16 true 2 tail
        else if c = '0' ∧ d = 'o' then intDigits? 8 true 2 tail
        else if c = '0' ∧ d = 'b' then intDigits? 2 true 2 tail
        else intDigits? 10 true 0 ([c, d] ++ tail) := by
      intro tail
      unfold intHead?
      split
      · next h => simp_all
      · next h => simp_all
      · next h => simp_all
      · next hx ho hb =>
        rw [if_neg (by rintro ⟨rfl, rfl⟩; exact hx _ rfl),
          if_neg (by rintro ⟨rfl, rfl⟩; exact ho _ rfl),
          if_neg (by rintro ⟨rfl, rfl⟩; exact hb _ rfl)]
        rfl
    rw [List.cons_append, List.cons_append, hmark, hmark, ← List.append_assoc]
    simp only [intDigits?_append ends]

theorem intHead?_le {cs : List Char} {length : Nat} (h : intHead? cs = some length) :
    length ≤ cs.length := by
  unfold intHead? at h
  split at h
  · have := intDigits?_le h
    simp only [List.length_cons]
    omega
  · have := intDigits?_le h
    simp only [List.length_cons]
    omega
  · have := intDigits?_le h
    simp only [List.length_cons]
    omega
  · have := intDigits?_le h
    omega

theorem intLength?_append (ends : EndsLiteral rest) (cs : List Char) :
    intLength? (cs ++ rest) = intLength? cs := by
  rw [intLength?_eq, intLength?_eq, intHead?_append ends]
  cases hhead : intHead? cs with
  | none => rfl
  | some length => exact closeNumber?_append ends (intHead?_le hhead)

/-! ## What quotes enclose -/

theorem quotedLength?_append {flavor : Flavor} {mode : Mode} {n length : Nat} {cs : List Char}
    (h : quotedLength? flavor mode n cs = some length) (rest : List Char) :
    quotedLength? flavor mode n (cs ++ rest) = some length := by
  induction cs generalizing mode n with
  | nil => cases h
  | cons c cs ih =>
    rw [quotedLength?] at h
    rw [List.cons_append, quotedLength?]
    split at h
    · exact ih h
    · exact ih h
    · exact h
    · cases h

theorem escapeLength?_append {flavor : Flavor} {mode : Mode} {n length : Nat} {cs : List Char}
    (h : escapeLength? flavor mode n cs = some length) (rest : List Char) :
    escapeLength? flavor mode n (cs ++ rest) = some length := by
  induction cs generalizing mode n with
  | nil => cases h
  | cons c cs ih =>
    rw [escapeLength?] at h
    rw [List.cons_append, escapeLength?]
    split at h
    · exact h
    · cases h
    · cases h
    · exact ih h
    · cases h
    · cases h

theorem hashes_append (hash : rest.head? ≠ some '#') (count : Nat) (cs : List Char) :
    hashes count (cs ++ rest) = hashes count cs := by
  induction cs generalizing count with
  | nil =>
    cases count with
    | zero => rfl
    | succ count =>
      cases rest with
      | nil => rfl
      | cons c rest =>
        have hc : c ≠ '#' := fun hc => hash (congrArg some hc)
        simp [hashes, hc]
  | cons c cs ih =>
    cases count with
    | zero => rfl
    | succ count => rw [List.cons_append, hashes, hashes, ih]

theorem rawBody?_append (hash : rest.head? ≠ some '#') {flavor : Flavor} {count n length : Nat}
    {cs : List Char} (h : rawBody? flavor count n cs = some length) :
    rawBody? flavor count n (cs ++ rest) = some length := by
  induction cs generalizing n with
  | nil => cases h
  | cons c cs ih =>
    have hline : cs.head? = some '
' → (cs ++ rest).head? = some '
' := by
      intro hcs
      cases cs with
      | nil => cases hcs
      | cons => exact hcs
    rw [rawBody?] at h
    rw [List.cons_append, rawBody?, hashes_append hash]
    split at h
    · next hclose => rw [if_pos hclose]; exact h
    · next hopen =>
      rw [if_neg hopen]
      split at h
      · next hcarriage =>
        rw [if_pos hcarriage]
        split at h
        · next hfeed => rw [if_pos (hline hfeed)]; exact ih h
        · cases h
      · next hcarriage =>
        rw [if_neg hcarriage]
        split at h
        · next hallows => rw [if_pos hallows]; exact ih h
        · cases h

theorem rawLength?_append (hash : rest.head? ≠ some '#') {flavor : Flavor} {n length : Nat}
    {cs : List Char} (h : rawLength? flavor n cs = some length) :
    rawLength? flavor n (cs ++ rest) = some length := by
  have hhash : ∀ c ∈ rest.head?, (c == '#') = false := by
    intro c hc
    rw [beq_eq_false_iff_ne]
    rintro rfl
    exact hash hc
  unfold rawLength? at h ⊢
  dsimp only at h ⊢
  rw [takeWhile_append_of_head? hhash]
  split at h
  · next body hbody =>
    have hle : (cs.takeWhile (· == '#')).length ≤ cs.length :=
      (List.takeWhile_prefix _).length_le
    rw [List.drop_append_of_le_length hle, hbody]
    change (if _ then _ else _) = _
    split at h
    · next hcount =>
      rw [if_pos hcount]
      exact rawBody?_append hash h
    · cases h
  · cases h

/-- The length of the character or byte between single quotes. -/
def singleInside? (flavor : Flavor) (c : Char) (cs : List Char) : Option Nat :=
  if c = '\\' then escapeLength? flavor .escape 0 cs
  else if flavor = .bytes ∧ 0x80 ≤ c.toNat then none
  else some 0

theorem singleLength?_cons (flavor : Flavor) (n : Nat) (c : Char) (cs : List Char) :
    singleLength? flavor n (c :: cs) = (singleInside? flavor c cs).bind fun length =>
      if (cs.drop length).head? = some '\x27' then some (n + 1 + length + 1) else none := by
  unfold singleInside?
  rw [singleLength?]
  split
  · rfl
  · split <;> rfl

theorem singleLength?_append {flavor : Flavor} {n length : Nat} {cs : List Char}
    (h : singleLength? flavor n cs = some length) (rest : List Char) :
    singleLength? flavor n (cs ++ rest) = some length := by
  cases cs with
  | nil => cases h
  | cons c cs =>
    rw [List.cons_append]
    rw [singleLength?_cons] at h ⊢
    obtain ⟨inside, hinside, hquote⟩ := Option.bind_eq_some_iff.1 h
    refine Option.bind_eq_some_iff.2 ⟨inside, ?_, ?_⟩
    · unfold singleInside? at hinside ⊢
      split at hinside
      · next hescape =>
        rw [if_pos hescape]
        exact escapeLength?_append hinside rest
      · next hplain =>
        rw [if_neg hplain]
        exact hinside
    -- The closing quote stands within the text, and so it does in a longer one.
    · split at hquote
      · next hhead =>
        have hle : inside ≤ cs.length := by
          by_contra hlong
          rw [List.drop_of_length_le (by omega)] at hhead
          cases hhead
        rw [List.drop_append_of_le_length hle, List.head?_append, hhead, Option.some_or, if_pos rfl]
        exact hquote
      · cases hquote

theorem quotedLiteral?_append (hash : rest.head? ≠ some '#') {cs : List Char} {length : Nat}
    (h : quotedLiteral? cs = some length) : quotedLiteral? (cs ++ rest) = some length := by
  unfold quotedLiteral? at h
  split at h
  · exact quotedLength?_append h rest
  · exact rawLength?_append hash h
  · exact quotedLength?_append h rest
  · exact rawLength?_append hash h
  · exact singleLength?_append h rest
  · exact quotedLength?_append h rest
  · exact rawLength?_append hash h
  · exact singleLength?_append h rest
  · cases h

/-! ## Literals -/

/-- A text is one literal. -/
def IsLiteral (text : String) : Prop :=
  literalLength? text.toList = some text.toList.length

instance (text : String) : Decidable (IsLiteral text) :=
  inferInstanceAs (Decidable (_ = _))

/-- Where a number stands, no quoted literal does. -/
theorem quotedLiteral?_digit {c : Char} {cs : List Char} (h : isDigit c = true) :
    quotedLiteral? (c :: cs) = none := by
  have hquote : ∀ d ∈ ['"', 'r', 'b', 'c', '\x27'], c ≠ d := by
    have hnone : ['"', 'r', 'b', 'c', '\x27'].all (!isDigit ·) = true := by decide
    rintro d hd rfl
    simpa [h] using List.all_eq_true.1 hnone c hd
  simp only [List.mem_cons, List.not_mem_nil, or_false, forall_eq_or_imp, forall_eq] at hquote
  unfold quotedLiteral?
  split <;> simp_all

theorem digitValue?_of_not_isDigit {c : Char} {value : Nat} (hdigit : isDigit c = false)
    (h : digitValue? c = some value) : 10 ≤ value := by
  rw [digitValue?, hdigit] at h
  simp only [Bool.false_eq_true, if_false] at h
  split at h
  · next hc =>
    have : 0x61 ≤ c.toNat := hc.1
    have := Option.some.inj h
    omega
  split at h
  · next hc =>
    have : 0x41 ≤ c.toNat := hc.1
    have := Option.some.inj h
    omega
  · cases h

/-- What does not lengthen a literal may follow the text that it stands in. -/
theorem literalLength?_append_of_le (ends : EndsLiteral rest) {cs : List Char} {length : Nat}
    (h : literalLength? cs = some length) (hle : length ≤ cs.length) :
    literalLength? (cs ++ rest) = some length := by
  have hash : rest.head? ≠ some '#' := fun hc => (ends '#' hc).2 (by decide)
  unfold literalLength? at h ⊢
  cases hquoted : quotedLiteral? cs with
  | some quoted =>
    rw [hquoted] at h
    have hlength : withSuffix cs quoted = length := Option.some.inj h
    have hquotedLe : quoted ≤ cs.length := by
      refine Nat.le_trans ?_ hle
      rw [← hlength, withSuffix]
      omega
    rw [quotedLiteral?_append hash hquoted]
    exact congrArg some ((withSuffix_append ends hquotedLe).trans hlength)
  | none =>
    rw [hquoted] at h
    have hnumber : quotedLiteral? (cs ++ rest) = none := by
      cases cs with
      | nil => cases h
      | cons c cs =>
        refine quotedLiteral?_digit ?_
        by_contra hdigit
        rw [Bool.not_eq_true] at hdigit
        have hnone : (floatLength? (c :: cs) <|> intLength? (c :: cs)) = none :=
          number_eq_none hdigit fun value hvalue => digitValue?_of_not_isDigit hdigit hvalue
        exact nomatch hnone.symm.trans h
    rw [hnumber, floatLength?_append ends, intLength?_append ends]
    exact h

/-- A literal is lexed as one in front of what does not lengthen it. -/
theorem literalLength?_append (ends : EndsLiteral rest) {cs : List Char}
    (h : literalLength? cs = some cs.length) :
    literalLength? (cs ++ rest) = some cs.length :=
  literalLength?_append_of_le ends h (Nat.le_refl _)

end Bindery.Token
