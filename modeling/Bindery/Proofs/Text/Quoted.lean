import Bindery.Token.Literal
import Mathlib.Algebra.Group.Nat.Defs
/-!
# Quoting keeps the text

`stringValue?_quote`: a text that is written as a string literal is what the literal stands for,
whatever characters are in it. `quotedLength?_quote`: the literal ends with its own closing quote,
whatever stands behind it, and it has no line end (`lineEnd_not_mem_quote`).
-/

namespace Bindery.Text

/-! ## Runs of the reading -/

/-- What the reading makes of characters that neither close the quotes nor are refused: the text
they stand for, and the mode they leave it in. -/
inductive Reads : Mode → List Char → List Char → Mode → Prop where
  | nil (mode : Mode) : Reads mode [] [] mode
  | emit {mode next last : Mode} {c d : Char} {cs ds : List Char}
      (head : step .text mode c = .emit d next) (tail : Reads next cs ds last) :
      Reads mode (c :: cs) (d :: ds) last
  | quiet {mode next last : Mode} {c : Char} {cs ds : List Char}
      (head : step .text mode c = .quiet next) (tail : Reads next cs ds last) :
      Reads mode (c :: cs) ds last

namespace Reads

variable {mode middle last : Mode} {cs cs' ds ds' : List Char}

theorem trans (first : Reads mode cs ds middle) (second : Reads middle cs' ds' last) :
    Reads mode (cs ++ cs') (ds ++ ds') last := by
  induction first with
  | nil => exact second
  | emit head _ ih => exact .emit head (ih second)
  | quiet head _ ih => exact .quiet head (ih second)

theorem unquote? (reads : Reads mode cs ds last) (rest : List Char) :
    Text.unquote? mode (cs ++ rest) = (Text.unquote? last rest).map (ds ++ ·) := by
  induction reads with
  | nil => simp
  | emit head _ ih =>
    rw [List.cons_append, Text.unquote?, head]
    simp only [ih, Option.map_map]
    rfl
  | quiet head _ ih =>
    rw [List.cons_append, Text.unquote?, head]
    exact ih

theorem quotedLength? (reads : Reads mode cs ds last) (n : Nat) (rest : List Char) :
    Text.quotedLength? .text mode n (cs ++ rest) =
      Text.quotedLength? .text last (n + cs.length) rest := by
  induction reads generalizing n with
  | nil => simp
  | emit head _ ih | quiet head _ ih =>
    rw [List.cons_append, Text.quotedLength?, head, List.length_cons]
    exact (ih (n + 1)).trans (by rw [Nat.add_assoc, Nat.add_comm 1])

end Reads

/-! ## Code points -/

theorem hexValue?_hexDigit : ∀ digit < 16, hexValue? (hexDigit digit) = some digit := by decide

/-- One digit of a code point is read. -/
theorem reads_hexDigit {value digit digits : Nat} (hdigit : digit < 16) (hdigits : digits < 6) :
    Reads (.code value digits) [hexDigit digit] []
      (.code (16 * value + digit) (digits + 1)) := by
  refine .quiet ?_ (.nil _)
  simp only [step, hexValue?_hexDigit digit hdigit, if_neg (Nat.ne_of_lt hdigits)]

/-- The digits of a number are read. Further digits are put behind those of its sixteenth, so the
induction is on the number that is left. -/
theorem reads_hexDigits (fuel number width : Nat) (after : List Char)
    (hfuel : number < fuel) (hwidth : number < 16 ^ width) (hpos : 0 < width) (hsix : width ≤ 6) :
    ∃ text digits, hexDigits.go number fuel after = text ++ after ∧ 0 < digits ∧ digits ≤ width ∧
      Reads (.code 0 0) text [] (.code number digits) := by
  induction fuel generalizing number width after with
  | zero => omega
  | succ fuel ih =>
    rw [hexDigits.go]
    by_cases hlast : number < 16
    · rw [if_pos hlast]
      have hread : Reads (.code 0 0) [hexDigit number] [] (.code (16 * 0 + number) 1) :=
        reads_hexDigit hlast (by decide)
      rw [Nat.mul_zero, Nat.zero_add] at hread
      exact ⟨[hexDigit number], 1, rfl, Nat.one_pos, hpos, hread⟩
    · rw [if_neg hlast]
      obtain ⟨width, rfl⟩ := Nat.exists_eq_add_one_of_ne_zero (Nat.ne_of_gt hpos)
      have hshort : number / 16 < 16 ^ width := by
        rw [Nat.pow_succ] at hwidth
        omega
      have hrest : 0 < width := by
        rcases Nat.eq_zero_or_pos width with rfl | h
        · simp at hwidth
          omega
        · exact h
      obtain ⟨text, digits, htext, hdigits, hle, hread⟩ := ih (number / 16) width
        (hexDigit (number % 16) :: after) (by omega) hshort hrest (by omega)
      refine ⟨text ++ [hexDigit (number % 16)], digits + 1, ?_, Nat.succ_pos _, by omega, ?_⟩
      · rw [htext, List.append_assoc]
        rfl
      · have hlow : number % 16 < 16 := Nat.mod_lt _ (by decide)
        have hdigit := hread.trans (reads_hexDigit hlow (by omega))
        rwa [Nat.div_add_mod] at hdigit

theorem reads_codePoint (c : Char) : Reads .plain (codePoint c) [c] .plain := by
  have hvalid : c.toNat < 0xD800 ∨ (0xDFFF < c.toNat ∧ c.toNat < 0x110000) := c.valid
  obtain ⟨text, digits, htext, hdigits, -, hread⟩ := reads_hexDigits (c.toNat + 1) c.toNat 6 []
    (Nat.lt_succ_self _) (by omega) (by decide) (Nat.le_refl _)
  have hclose : step .text (.code c.toNat digits) '\x7d' = .emit c .plain := by
    have hhex : hexValue? '\x7d' = none := by decide
    simp [step, hhex, Nat.ne_of_gt hdigits, codeStep, hvalid, Char.ofNat_toNat]
  rw [List.append_nil] at htext
  rw [codePoint, hexDigits, htext]
  exact .quiet rfl (.quiet rfl (.quiet rfl (hread.trans (.emit hclose (.nil _)))))

/-! ## Characters and texts -/

theorem reads_escapeChar (c : Char) : Reads .plain (escapeChar c) [c] .plain := by
  have hshort : ∀ d, step .text .escape d = .emit c .plain → Reads .plain ['\\', d] [c] .plain :=
    fun d h => .quiet rfl (.emit h (.nil _))
  unfold escapeChar
  split
  · next h => subst h; exact hshort '0' rfl
  split
  · next h => subst h; exact hshort 't' rfl
  split
  · next h => subst h; exact hshort 'r' rfl
  split
  · next h => subst h; exact hshort 'n' rfl
  split
  · next h => subst h; exact hshort '\\' rfl
  split
  · next h => subst h; exact hshort '"' rfl
  next hreturn _ hbackslash hquote =>
  split
  · refine .emit ?_ (.nil _)
    simp [step, plainStep, hreturn, hbackslash, hquote]
  · exact reads_codePoint c

/-- What is written between quotes is read. -/
theorem reads_escape (cs : List Char) : Reads .plain (escape cs) cs .plain := by
  induction cs with
  | nil => exact .nil _
  | cons c cs ih =>
    unfold escape
    split
    · next hnul =>
      subst hnul
      have hshort : Reads .plain ['\\', '0'] ['\x00'] .plain := .quiet rfl (.emit rfl (.nil _))
      have hlong : Reads .plain ['\\', 'x', '0', '0'] ['\x00'] .plain :=
        .quiet rfl (.quiet rfl (.quiet rfl (.emit rfl (.nil _))))
      -- What follows a NUL decides how it is written.
      cases cs with
      | nil => exact hshort
      | cons d cs =>
        dsimp only
        split
        · exact hlong.trans ih
        · exact hshort.trans ih
    · exact (reads_escapeChar c).trans ih

/-! ## Line ends -/

theorem lineEnd_not_mem_hexDigits (fuel number : Nat) (after : List Char) (h : '\n' ∉ after) :
    '\n' ∉ hexDigits.go number fuel after := by
  have hdigit : ∀ digit < 16, '\n' ≠ hexDigit digit := by decide
  induction fuel generalizing number after with
  | zero => exact h
  | succ fuel ih =>
    rw [hexDigits.go]
    split
    · next hlast => simp [h, hdigit number hlast]
    · exact ih _ _ (by simp [h, hdigit (number % 16) (Nat.mod_lt _ (by decide))])

/-- A character is never written as a line end. -/
theorem lineEnd_not_mem_escapeChar (c : Char) : '\n' ∉ escapeChar c := by
  have hcode : '\n' ∉ codePoint c := by
    have := lineEnd_not_mem_hexDigits (c.toNat + 1) c.toNat [] (by simp)
    simp [codePoint, hexDigits, this]
  unfold escapeChar
  split
  · decide
  split
  · decide
  split
  · decide
  split
  · decide
  next hlineEnd =>
  split
  · decide
  split
  · decide
  split
  · simpa using Ne.symm hlineEnd
  · exact hcode

theorem lineEnd_not_mem_escape (cs : List Char) : '\n' ∉ escape cs := by
  induction cs with
  | nil => simp [escape]
  | cons c cs ih =>
    unfold escape
    split
    · cases cs with
      | nil => simp
      | cons d cs =>
        dsimp only
        split <;> simp [ih]
    · simp [lineEnd_not_mem_escapeChar, ih]

theorem lineEnd_not_mem_quote (text : String) : '\n' ∉ (quote text).toList := by
  simp [quote, lineEnd_not_mem_escape]

/-- A literal ends with its own closing quote. -/
theorem quotedLength?_quote (text : String) (rest : List Char) :
    quotedLength? .text .plain 1 (escape text.toList ++ '"' :: rest) =
      some (quote text).toList.length := by
  rw [(reads_escape text.toList).quotedLength?]
  simp [quotedLength?, step, plainStep, quote, Nat.add_comm]

end Bindery.Text

namespace Bindery.Token

/-- A quoted text is the literal that stands for it. -/
theorem stringValue?_quote (text : String) : stringValue? (Text.quote text) = some text := by
  unfold stringValue? Text.quote
  simp only [String.toList_ofList, (Text.reads_escape _).unquote?]
  simp [Text.unquote?, Text.step, Text.plainStep]

end Bindery.Token
