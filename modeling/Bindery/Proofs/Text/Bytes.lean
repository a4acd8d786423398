import Mathlib.Data.String.Basic
/-!
# Texts are ordered like their bytes

`lt_iff_bytes_lt`: of two texts the smaller one has the smaller UTF-8 bytes, compared from the first
byte to the last. So it does not matter whether texts are put in order by their characters or by
what is stored of them.
-/

namespace Bindery.Text

/-- The UTF-8 bytes of a text. -/
def bytes (text : String) : List UInt8 :=
  text.toUTF8.data.toList

theorem bytes_eq (text : String) : bytes text = text.toList.flatMap String.utf8EncodeChar := by
  rw [bytes, String.toUTF8_eq_toByteArray, ← String.utf8Encode_toList, List.utf8Encode,
    List.toList_data_toByteArray]

/-! ## Lists of bytes -/

/-- Two lists of bytes differ at some byte, and the first list has the smaller one there. -/
inductive Before : List UInt8 → List UInt8 → Prop
  | head {x y : UInt8} {xs ys : List UInt8} (h : x < y) : Before (x :: xs) (y :: ys)
  | tail (x : UInt8) {xs ys : List UInt8} (h : Before xs ys) : Before (x :: xs) (x :: ys)

/-- What follows the byte at which they differ does not matter. -/
theorem Before.append_lt {xs ys : List UInt8} (h : Before xs ys) (more more' : List UInt8) :
    xs ++ more < ys ++ more' := by
  induction h with
  | head h => exact List.Lex.rel h
  | tail x _ ih => exact List.Lex.cons ih

theorem byte_lt {first second : Nat} (h : first < second) (bound : second < 256) :
    UInt8.ofNat first < UInt8.ofNat second :=
  (UInt8.ofNat_lt_iff_lt (h.trans bound) bound).2 h

/-! ## Bytes of characters -/

/-- The last digits of a number in base 64, each on top of 128. -/
def trail : Nat → Nat → List UInt8
  | 0, _ => []
  | count + 1, number => UInt8.ofNat (number / 64 ^ count % 64 + 128) :: trail count number

/-- Of two numbers whose first digits agree, the smaller one has the smaller last digits. -/
theorem before_trail {count first second : Nat} (h : first < second)
    (same : first / 64 ^ count = second / 64 ^ count) :
    Before (trail count first) (trail count second) := by
  induction count with
  | zero =>
    rw [Nat.pow_zero, Nat.div_one, Nat.div_one] at same
    exact absurd same h.ne
  | succ count ih =>
    rw [Nat.pow_succ, ← Nat.div_div_eq_div_mul, ← Nat.div_div_eq_div_mul] at same
    have hle : first / 64 ^ count ≤ second / 64 ^ count := Nat.div_le_div_right h.le
    rcases hle.lt_or_eq with hlt | heq
    · exact .head (byte_lt (by omega) (by omega))
    · rw [trail, trail, heq]
      exact .tail _ (ih heq)

/-- Of two numbers that are written with as many digits behind the first byte, the smaller one comes
first. -/
theorem before_number {lead count first second : Nat} (h : first < second)
    (bound : second / 64 ^ count + lead < 256) :
    Before (UInt8.ofNat (first / 64 ^ count + lead) :: trail count first)
      (UInt8.ofNat (second / 64 ^ count + lead) :: trail count second) := by
  have hle : first / 64 ^ count ≤ second / 64 ^ count := Nat.div_le_div_right h.le
  rcases hle.lt_or_eq with hlt | heq
  · exact .head (byte_lt (by omega) bound)
  · rw [heq]
    exact .tail _ (before_trail h heq)

/-- How many digits a number has behind its first byte, and from where on the first byte counts. -/
inductive Width : Nat → Nat → Nat → Prop
  | one {number} (below : number < 0x80) : Width 0 0 number
  | two {number} (above : 0x80 ≤ number) (below : number < 0x800) : Width 1 192 number
  | three {number} (above : 0x800 ≤ number) (below : number < 0x10000) : Width 2 224 number
  | four {number} (above : 0x10000 ≤ number) (below : number < 0x110000) : Width 3 240 number

/-- A character is written as the number that it is. -/
theorem utf8EncodeChar_eq (c : Char) : ∃ count lead, Width count lead c.toNat ∧
    String.utf8EncodeChar c = UInt8.ofNat (c.toNat / 64 ^ count + lead) :: trail count c.toNat := by
  have hvalid : c.toNat < 0x110000 := by
    rcases c.valid with h | ⟨-, h⟩
    · exact h.trans (by decide)
    · exact h
  simp only [String.utf8EncodeChar, Char.toNat_val]
  generalize c.toNat = number at hvalid
  split
  · next h => exact ⟨0, 0, .one (by omega), by simp [trail]⟩
  split
  · next h h' =>
    refine ⟨1, 192, .two (by omega) (by omega), ?_⟩
    rw [Nat.mod_eq_of_lt (by omega : number / 64 < 32)]
    simp [trail]
  split
  · next h h' h'' =>
    refine ⟨2, 224, .three (by omega) (by omega), ?_⟩
    rw [Nat.mod_eq_of_lt (by omega : number / 4096 < 16)]
    simp [trail]
  · next h h' h'' =>
    refine ⟨3, 240, .four (by omega) (by omega), ?_⟩
    rw [Nat.mod_eq_of_lt (by omega : number / 262144 < 8)]
    simp [trail]

/-- The smaller one of two characters comes first with its bytes. An encoding that is longer begins
with a greater byte. -/
theorem before_utf8EncodeChar {first second : Char} (h : first < second) :
    Before (String.utf8EncodeChar first) (String.utf8EncodeChar second) := by
  obtain ⟨count, lead, hwidth, heq⟩ := utf8EncodeChar_eq first
  obtain ⟨count', lead', hwidth', heq'⟩ := utf8EncodeChar_eq second
  have hlt : first.toNat < second.toNat := h
  rw [heq, heq']
  generalize first.toNat = v at hlt hwidth
  generalize second.toNat = w at hlt hwidth'
  cases hwidth <;> cases hwidth' <;> first
    | exact before_number hlt (by omega)
    | exact .head (byte_lt (by omega) (by omega))

/-- Of two texts the smaller one has the smaller bytes. -/
theorem bytes_lt {first second : String} (h : first < second) : bytes first < bytes second := by
  rw [bytes_eq, bytes_eq]
  have hlt : first.toList < second.toList := String.lt_iff_toList_lt.1 h
  generalize first.toList = cs at hlt
  generalize second.toList = ds at hlt
  induction hlt with
  | @nil c cs =>
    obtain ⟨_, _, -, heq⟩ := utf8EncodeChar_eq c
    rw [List.flatMap_cons, heq]
    exact List.Lex.nil
  | rel h => exact (before_utf8EncodeChar h).append_lt _ _
  | cons _ ih => exact List.Lex.append_left _ ih _

theorem lt_iff_bytes_lt {first second : String} : first < second ↔ bytes first < bytes second := by
  refine ⟨bytes_lt, fun h => ?_⟩
  rcases lt_trichotomy first second with hlt | rfl | hgt
  · exact hlt
  · exact absurd h (List.lt_irrefl _)
  · exact absurd h (List.lt_asymm (bytes_lt hgt))

end Bindery.Text
