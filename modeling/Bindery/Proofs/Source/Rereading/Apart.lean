import Bindery.Proofs.Source.Rereading
/-!
# Tokens that are put together stay apart

What follows tokens decides whether they stay apart, but only by its first character. Most tokens
stay apart in front of any others that begin with no quote and no hash (`Joins`).
-/

namespace Bindery.Source.Grammar

open Token (isIdent apart apartTree endsAt compactList punctuation)

variable {name : String} {tokens rest body : List (TokenTree Token)}

/-- Whether neither a quote nor a hash stands at the head, which could go on with a word. -/
def Unmarked (tokens : List (TokenTree Token)) : Prop :=
  mark? tokens ≠ some '\x27' ∧ mark? tokens ≠ some '#'

instance (tokens : List (TokenTree Token)) : Decidable (Unmarked tokens) :=
  inferInstanceAs (Decidable (_ ∧ _))

theorem Unmarked.append (h : Unmarked tokens) (hne : tokens ≠ []) (more : List (TokenTree Token)) :
    Unmarked (tokens ++ more) := by
  rwa [Unmarked, mark?_append hne]

/-- Tokens that stay apart in front of all that do and that begin with no such mark. -/
def Joins (tokens : List (TokenTree Token)) : Prop :=
  ∀ rest, Unmarked rest → apart rest = true → apart (tokens ++ rest) = true

theorem Joins.nil : Joins [] :=
  fun _ _ h => h

theorem Joins.apart (h : Joins tokens) : apart tokens = true := by
  have hnil := h [] (by decide) rfl
  rwa [List.append_nil] at hnil

theorem Joins.append (h : Joins tokens) (hrest : Joins rest) (hmark : rest ≠ [] → Unmarked rest) :
    Joins (tokens ++ rest) := by
  intro more hmore hapart
  rw [List.append_assoc]
  refine h _ ?_ (hrest more hmore hapart)
  by_cases hne : rest = []
  · rwa [hne, List.nil_append]
  · exact (hmark hne).append hne more

/-! ## Words -/

theorem mem_punctuation_of_endsAt {after : List Char} {c : Char} {joint : Bool}
    (h : endsAt after (.punct c joint) = true) : c ∈ punctuation := by
  unfold endsAt at h
  split at h
  · next heq => cases heq
  · next heq => cases heq; decide
  · next heq => cases heq; decide
  · next heq =>
    cases heq
    exact List.contains_iff_mem.1 h
  · next heq => cases heq

/-- What stands directly behind a word is a blank, a bracket or a mark. -/
theorem head_behind_word {c : Char} (h : apart tokens = true)
    (hc : (compactList true tokens).head? = some c) :
    c ∈ [' ', '(', '[', '\x7b'] ∨ c ∈ punctuation ∧ mark? tokens = some c := by
  rcases tokens with _ | ⟨⟨name | ⟨d, joint⟩ | text⟩ | ⟨delimiter, body⟩, more⟩
  · cases hc
  · obtain rfl : ' ' = c := Option.some.inj hc
    exact .inl (by decide)
  · obtain rfl : d = c := Option.some.inj hc
    exact .inr ⟨mem_punctuation_of_endsAt (Bool.and_eq_true_iff.1 h).1, rfl⟩
  · obtain rfl : ' ' = c := Option.some.inj hc
    exact .inl (by decide)
  · obtain rfl : delimiter.opening = c := Option.some.inj hc
    cases delimiter <;> exact .inl (by decide)

theorem apart_word (hname : isIdent name = true) (h : apart rest = true)
    (hmark : Unmarked rest ∨ name ∉ ["b", "r", "br", "cr"]) : apart (word name ++ rest) = true := by
  refine Bool.and_eq_true_iff.2 ⟨?_, h⟩
  show endsAt (compactList true rest) (.ident name) = true
  rw [endsAt, hname, Bool.true_and]
  cases hhead : (compactList true rest).head? with
  | none => rfl
  | some c =>
    have hbehind := head_behind_word h hhead
    -- A quote or a hash behind a word is the mark of what follows.
    have hother : c ∈ ['\x27', '#'] → name ∉ ["b", "r", "br", "cr"] := by
      intro hc
      have hmarked : mark? rest = some c := by
        rcases hbehind with hplain | ⟨-, hmarked⟩
        · simp only [List.mem_cons, List.not_mem_nil, or_false] at hc
          rcases hc with rfl | rfl <;> exact absurd hplain (by decide)
        · exact hmarked
      refine hmark.resolve_left fun hunmarked => ?_
      simp only [List.mem_cons, List.not_mem_nil, or_false] at hc
      rcases hc with rfl | rfl
      · exact hunmarked.1 hmarked
      · exact hunmarked.2 hmarked
    split
    · rfl
    · next heq =>
      cases heq
      have := hother (by decide)
      simp_all
    · next heq =>
      cases heq
      have := hother (by decide)
      simp_all [Token.rawMarks]
    · next heq =>
      cases heq
      have hall : ([' ', '(', '[', '\x7b'] ++ punctuation).all
          (fun c => !Text.isIdentContinue c && c != '"') = true := by decide
      refine List.all_eq_true.1 hall c (List.mem_append.2 ?_)
      exact hbehind.imp_right And.left

theorem Joins.word (hname : isIdent name = true) : Joins (word name) :=
  fun _ hmark h => apart_word hname h (.inl hmark)

/-! ## Marks and groups -/

theorem apart_operatorChars {cs : List Char}
    (hcs : ∀ c ∈ cs, c ∈ punctuation ∧ c ≠ '/' ∧ c ≠ '\x27') (h : apart rest = true) :
    apart (operatorChars cs ++ rest) = true := by
  have hends : ∀ c joint after, c ∈ punctuation ∧ c ≠ '/' ∧ c ≠ '\x27' →
      endsAt after (.punct c joint) = true := by
    rintro c joint after ⟨hc, hslash, hquote⟩
    unfold endsAt
    split <;> simp_all
  induction cs with
  | nil => exact h
  | cons c cs ih =>
    obtain ⟨hc, hmore⟩ := List.forall_mem_cons.1 hcs
    cases cs with
    | nil => exact Bool.and_eq_true_iff.2 ⟨hends c _ _ hc, h⟩
    | cons d cs => exact Bool.and_eq_true_iff.2 ⟨hends c _ _ hc, ih hmore⟩

theorem apart_operator {text : String} (hmark : isMark text = true) (h : apart rest = true) :
    apart (operator text ++ rest) = true := by
  refine apart_operatorChars (fun c hc => ?_) h
  simp only [isMark, Bool.and_eq_true, bne_iff_ne, ne_eq, List.all_eq_true,
    List.contains_iff_mem] at hmark
  exact ⟨(hmark.2 c hc).1.1, (hmark.2 c hc).1.2, (hmark.2 c hc).2⟩

theorem Joins.mark {text : String} (hmark : isMark text = true) : Joins (operator text) :=
  fun _ _ h => apart_operator hmark h

theorem Joins.group {delimiter : Delimiter} (h : Token.apart body = true) :
    Joins [.group delimiter body] :=
  fun _ _ hrest => Bool.and_eq_true_iff.2 ⟨h, hrest⟩

/-- An operator may be followed by anything that stays apart. -/
theorem Joins.behindOperator {text : String} (hmark : isMark text = true) (h : Joins tokens) :
    Joins (operator text ++ tokens) := by
  intro more hmore hapart
  rw [List.append_assoc]
  exact apart_operator hmark (h more hmore hapart)

/-! ## Lifetimes and literals -/

/-- What stands directly behind a word, where no quote and no hash does, is part of no word. -/
theorem ends_behind_word {c : Char} (h : apart tokens = true) (hmark : Unmarked tokens)
    (hc : (compactList true tokens).head? = some c) :
    Text.isIdentContinue c = false ∧ c ≠ '\x27' ∧ c ≠ '#' := by
  have hall : ([' ', '(', '[', '\x7b'] ++ punctuation).all
      (fun c => !Text.isIdentContinue c) = true := by decide
  have hbehind := head_behind_word h hc
  refine ⟨?_, ?_, ?_⟩
  · simpa using List.all_eq_true.1 hall c (List.mem_append.2 (hbehind.imp_right And.left))
  · rintro rfl
    exact hbehind.elim (by decide) fun hmarked => hmark.1 hmarked.2
  · rintro rfl
    exact hbehind.elim (by decide) fun hmarked => hmark.2 hmarked.2

/-- A name begins a lifetime where no quote follows it, and no hash. -/
theorem Joins.lifetime (hname : isIdent name = true) : Joins (lifetimeTokens name) := by
  intro more hmore hapart
  refine Bool.and_eq_true_iff.2 ⟨?_, apart_word hname hapart (.inl hmore)⟩
  show Token.startsLifetime (name.toList ++ compactList true more) = true
  have hends : ∀ c ∈ (compactList true more).head?, _ := fun c hc =>
    ends_behind_word hapart hmore hc
  refine Token.startsLifetime_iff.2 ⟨name.toList.length, ?_, ?_, ?_⟩
  · exact Token.identLength?_of_head? hname (fun c hc => (hends c hc).1) fun _ hc =>
      (hends _ hc).2.2 rfl
  · rw [List.drop_left]
    exact fun hc => (hends _ hc).2.1 rfl
  · rw [List.drop_left]
    exact fun hc => absurd rfl (hends _ hc).2.2

/-- A literal is a text that is lexed as one on its own. -/
def IsLiteral (text : String) : Prop :=
  text ≠ "" ∧ Token.literalLength? text.toList = some text.toList.length

instance (text : String) : Decidable (IsLiteral text) :=
  inferInstanceAs (Decidable (_ ∧ _))

/-- A literal stays apart in front of what does not go on with a number. -/
theorem apart_literal {text : String} (htext : IsLiteral text) (h : apart rest = true)
    (hmark : ∀ c ∈ mark? rest, c ∉ ['.', '+', '-', '#']) :
    apart (.leaf (.literal text) :: rest) = true := by
  refine Bool.and_eq_true_iff.2 ⟨?_, h⟩
  show endsAt (compactList true rest) (.literal text) = true
  have hends : Token.EndsLiteral (compactList true rest) := by
    intro c hc
    have hbehind := head_behind_word h hc
    have hall : ([' ', '(', '[', '\x7b'] ++ punctuation).all
        (fun c => !Text.isIdentContinue c) = true := by decide
    refine ⟨by simpa using List.all_eq_true.1 hall c (List.mem_append.2 (hbehind.imp_right And.left)),
      fun hmem => ?_⟩
    rcases hbehind with hplain | ⟨-, hmarked⟩
    · simp only [List.mem_cons, List.not_mem_nil, or_false] at hmem
      rcases hmem with rfl | rfl | rfl | rfl <;> exact absurd hplain (by decide)
    · exact hmark c hmarked hmem
  have hlength := Token.literalLength?_append_of_le hends htext.2 (Nat.le_refl _)
  simp [endsAt, htext.1, hlength]

/-! ## Lists -/

/-- Items stay apart in front of what each of them may stand in front of, if a separator is such. -/
theorem apart_items {separator : String} {items : List (List (TokenTree Token))}
    {p : List (TokenTree Token) → Prop} (hmark : isMark separator = true)
    (hseparator : ∀ more, p (operator separator ++ more))
    (hitems : ∀ item ∈ items, ∀ rest, p rest → apart rest = true → apart (item ++ rest) = true)
    (trailing : Bool) (hrest : items ≠ [] → trailing = true ∨ p rest) (h : apart rest = true) :
    apart (separated (operator separator) trailing items ++ rest) = true := by
  induction items with
  | nil => exact h
  | cons item items ih =>
    obtain ⟨hitem, hmore⟩ := List.forall_mem_cons.1 hitems
    by_cases hbetween : trailing = true ∨ items ≠ []
    · rw [separated_cons _ _ hbetween, List.append_assoc, List.append_assoc]
      refine hitem _ (hseparator _) (apart_operator hmark (ih hmore fun _ => ?_))
      exact hrest (List.cons_ne_nil _ _)
    · simp only [not_or, Bool.not_eq_true, ne_eq, not_not] at hbetween
      obtain ⟨rfl, rfl⟩ := hbetween
      have hsingle : separated (operator separator) false [item] = item := by simp [separated]
      rw [hsingle]
      exact hitem rest ((hrest (List.cons_ne_nil _ _)).resolve_left (by decide)) h

theorem Joins.items {separator : String} {items : List (List (TokenTree Token))}
    (hmark : isMark separator = true) (hseparator : ∀ more, Unmarked (operator separator ++ more))
    (hitems : ∀ item ∈ items, Joins item) (trailing : Bool) :
    Joins (separated (operator separator) trailing items) :=
  fun _ hmore hapart => apart_items hmark hseparator hitems trailing (fun _ => .inr hmore) hapart

theorem Joins.listed {ι : Type} {separator : String} {items : List ι}
    {tokens : ι → List (TokenTree Token)} (hseparator : separator ∈ [",", "+"])
    (hitems : ∀ item ∈ items, Joins (tokens item)) (trailing : Bool) :
    Joins (separated (operator separator) trailing (items.map tokens)) := by
  simp only [List.mem_cons, List.not_mem_nil, or_false] at hseparator
  refine .items ?_ (fun more => ?_) (List.forall_mem_map.2 hitems) trailing
  · rcases hseparator with rfl | rfl <;> decide
  · rcases hseparator with rfl | rfl <;>
      exact Unmarked.append (by decide) (List.cons_ne_nil _ _) more

end Bindery.Source.Grammar
