import Bindery.Proofs.Source.Type.Decoding
import Bindery.Proofs.Source.Types
/-!
# The unit type

The unit type is known by its canonical form, a pair of parentheses. Parentheses are dropped from a
canonical form and lists of types may be empty, so that other types could be mistaken for it. Those
that are read are not: each has a token that is written with another character (`HasText`), unless
it is the empty tuple (`canonical_eq_unit_iff`).
-/

namespace Bindery.Source

open Token (compactList isIdent)

/-- Whether a type is the empty tuple, in parentheses or not. -/
def Ty.isUnit : Ty → Bool
  | .tuple [] _ => true
  | .paren inner => inner.isUnit
  | _ => false

/-! ## Text that is more than parentheses -/

/-- Some character of tokens is no parenthesis. -/
def HasText (tokens : List (TokenTree Token)) : Prop :=
  ∀ afterWord, ∃ c ∈ compactList afterWord tokens, c ∉ ['(', ')']

section
variable {tokens : List (TokenTree Token)}

theorem HasText.append (h : HasText tokens) (more : List (TokenTree Token)) :
    HasText (tokens ++ more) := by
  intro afterWord
  obtain ⟨c, hc, htext⟩ := h afterWord
  rw [compactList_append]
  exact ⟨c, List.mem_append_left _ hc, htext⟩

theorem HasText.prepend (h : HasText tokens) (front : List (TokenTree Token)) :
    HasText (front ++ tokens) := by
  intro afterWord
  obtain ⟨c, hc, htext⟩ := h (endsWord afterWord front)
  rw [compactList_append]
  exact ⟨c, List.mem_append_right _ hc, htext⟩

theorem hasText_mark {c : Char} (h : c ∉ ['(', ')']) (joint : Bool)
    (more : List (TokenTree Token)) : HasText (.leaf (.punct c joint) :: more) :=
  fun _ => ⟨c, by simp, h⟩

theorem hasText_operator {text : String} {c : Char} {rest : List Char} (h : text.toList = c :: rest)
    (hc : c ∉ ['(', ')']) : HasText (operator text) := by
  rw [operator, h]
  cases rest with
  | nil => exact hasText_mark hc _ _
  | cons => exact hasText_mark hc _ _

theorem hasText_name {name : String} (ident : isIdent name = true)
    (more : List (TokenTree Token)) : HasText (.leaf (.ident name) :: more) := by
  intro afterWord
  obtain ⟨c, cs, hname, hstart⟩ := Token.exists_cons_of_isIdent ident
  refine ⟨c, by simp [hname], fun hc => not_mem_marks_of_isIdentStart hstart ?_⟩
  exact (by decide : ['(', ')'] ⊆ marks) hc

theorem hasText_bracket (body more : List (TokenTree Token)) :
    HasText (.group .bracket body :: more) :=
  fun _ => ⟨'[', by simp [Delimiter.opening], by decide⟩

theorem HasText.group (h : HasText tokens) (delimiter : Delimiter) :
    HasText [.group delimiter tokens] := by
  intro afterWord
  obtain ⟨c, hc, htext⟩ := h false
  exact ⟨c, by simp [hc], htext⟩

theorem HasText.separated {item : List (TokenTree Token)} (h : HasText item)
    (separator : List (TokenTree Token)) (trailing : Bool) {items : List (List (TokenTree Token))}
    (hmem : item ∈ items) : HasText (separated separator trailing items) := by
  induction items with
  | nil => cases hmem
  | cons first rest ih =>
    cases rest with
    | nil =>
      obtain rfl := List.mem_singleton.1 hmem
      rw [Source.separated]
      split
      · exact h.append _
      · exact h
    | cons second more =>
      rw [Source.separated]
      · rcases List.mem_cons.1 hmem with rfl | hmem
        · exact (h.append _).append _
        · exact (ih hmem).prepend _
      · exact List.cons_ne_nil _ _

/-- A list of several items, or of one with a separator at its end, has the separator. -/
theorem HasText.separator {separator : List (TokenTree Token)} (h : HasText separator)
    {trailing : Bool} {first : List (TokenTree Token)} {rest : List (List (TokenTree Token))}
    (hseveral : trailing = true ∨ rest ≠ []) :
    HasText (Source.separated separator trailing (first :: rest)) := by
  cases rest with
  | nil =>
    rw [Source.separated, if_pos (hseveral.resolve_right fun hne => hne rfl)]
    exact h.prepend _
  | cons second more =>
    rw [Source.separated]
    · exact (h.prepend _).append _
    · exact List.cons_ne_nil _ _

end

/-! ## What is read has text -/

theorem hasText_path {path : Path} (h : path.IsNamed) :
    HasText (qualify none (nameTokens .asWritten path.erase)) := by
  obtain ⟨absolute, segments⟩ := path
  rcases List.eq_nil_or_concat segments with rfl | ⟨front, ⟨name, args⟩, rfl⟩
  · exact absurd rfl h.2
  · have hname : isIdent name = true := by
      have hlast := h.isIdent_lastName
      simpa [Path.lastName, Path.segments, Segment.name] using hlast
    have herased : Path.erase (.mk absolute (front ++ [.mk name args])) =
        .mk false [.mk name (eraseArgs args)] := by
      rw [Path.erase, eraseSegments_append]
    rw [List.concat_eq_append, herased]
    exact hasText_name hname _

theorem hasText_qualified (owner : List (TokenTree Token) × Nat)
    (path : Bool × List (List (TokenTree Token))) : HasText (qualify (some owner) path) := by
  have hopen : HasText (operator "<") := hasText_operator rfl (by decide)
  simp only [qualify]
  split
  · exact (((hopen.append _).append _).append _).append _
  · exact (((((hopen.append _).append _).append _).append _).append _).append _

theorem hasText_bound {bound : Bound} (h : bound.IsNamed) : HasText bound.erase.tokens := by
  cases bound with
  | lifetime | verbatim => cases h
  | trait parens head path =>
    have hinside := (hasText_path h).prepend (codeTokens (eraseCode head))
    rw [Bound.erase, Bound.tokens]
    cases parens with
    | false => exact hinside
    | true => exact hinside.group .paren

theorem not_isLifetime_of_isNamed {bound : Bound} (h : bound.IsNamed) :
    bound.isLifetime = false := by
  cases bound with
  | lifetime | verbatim => cases h
  | trait => rfl

/-- The bounds of a trait object keep the one with a name. -/
theorem hasText_bounds {bounds : List Bound} (h : ∃ bound ∈ bounds, bound.IsNamed) :
    HasText (separated (operator "+") false (boundTokens (eraseBounds false bounds))) := by
  obtain ⟨bound, hmem, hnamed⟩ := h
  refine (hasText_bound hnamed).separated _ _ ?_
  rw [boundTokens_eraseBounds]
  refine List.mem_map_of_mem (List.mem_filter.2 ⟨hmem, ?_⟩)
  simp [not_isLifetime_of_isNamed hnamed]

theorem hasText_code {code : List Piece} {name : String} (ident : isIdent name = true)
    (h : .token (.ident name) ∈ code) : HasText (codeTokens (eraseCode code)) := by
  obtain ⟨front, back, rfl⟩ := List.append_of_mem h
  rw [codeTokens_eraseCode, List.flatMap_append, List.flatMap_cons]
  exact HasText.prepend (hasText_name ident _) _

/-- A tuple with elements has a comma. -/
theorem hasText_elements (first : Ty) (rest : List Ty) (trailing : Bool) :
    HasText (separated (operator ",") (trailing || (eraseTypes (first :: rest)).length == 1)
      (tyListTokens (eraseTypes (first :: rest)))) := by
  rw [eraseTypes_length, tyListTokens_eraseTypes]
  refine HasText.separator (hasText_operator rfl (by decide)) ?_
  cases rest with
  | nil => exact .inl (by simp)
  | cons second more => exact .inr (List.cons_ne_nil _ _)

/-- The tokens of a type that is read are more than parentheses, or none, if it is not the unit
type. -/
theorem hasText_erase : ∀ type : Ty, type.IsNamed → type.isUnit = false →
    type.erase.tokens = [] ∨ HasText type.erase.tokens
  | .path none path, h, _ => .inr (hasText_path h)
  | .path (some (.mk _ _)) _, _, _ => .inr (hasText_qualified _ _)
  | .reference _ _ _, _, _ =>
    .inr ((((hasText_operator rfl (by decide)).append _).append _).append _)
  | .pointer _ _, _, _ => .inr (((hasText_operator rfl (by decide)).append _).append _)
  | .slice _, _, _ => .inr (hasText_bracket _ _)
  | .array _ _, _, _ => .inr (hasText_bracket _ _)
  | .tuple [] _, _, h => nomatch h
  | .tuple (first :: rest) trailing, _, _ => .inr ((hasText_elements first rest trailing).group _)
  -- Parentheses leave no tokens, so that everything rests on what they enclose.
  | .paren inner, h, hunit => hasText_erase inner h hunit
  | .never, _, _ => .inr (hasText_operator rfl (by decide))
  | .inferred, _, _ => .inr (hasText_name (by decide) _)
  | .object false bounds _, h, _ => .inr (hasText_bounds h)
  | .object true _ _, _, _ => .inr ((hasText_name (by decide) _).append _)
  | .anonymous _ _, _, _ => .inr ((hasText_name (by decide) _).append _)
  | .function _ _ _ _ _, h, _ => .inr (((hasText_code (by decide) h).append _).append _)
  | .invocation _ _ _, _, _ => .inr (((hasText_operator rfl (by decide)).prepend _).append _)
  | .verbatim _, .inl h, _ => .inl h
  | .verbatim _, .inr ⟨_, h⟩, _ => .inr (h ▸ hasText_name (by decide) _)

theorem tokens_of_isUnit : ∀ type : Ty, type.isUnit = true →
    type.erase.tokens = [.group .paren []]
  | .tuple [] _, _ => rfl
  | .paren inner, h => tokens_of_isUnit inner h

/-- Of the types that are read the unit type alone has its canonical form. -/
theorem canonical_eq_unit_iff {type : Ty} (h : type.IsNamed) :
    type.canonical = "()" ↔ type.isUnit = true := by
  constructor
  · intro hcanonical
    have htext : compactList false type.erase.tokens = ['(', ')'] := by
      rw [Ty.canonical, Token.compact] at hcanonical
      have := congrArg String.toList hcanonical
      rwa [String.toList_ofList] at this
    cases hunit : type.isUnit with
    | true => rfl
    | false =>
      rcases hasText_erase type h hunit with hnil | hchar
      · rw [hnil] at htext
        cases htext
      · obtain ⟨c, hc, hother⟩ := hchar false
        rw [htext] at hc
        exact absurd hc hother
  · intro hunit
    rw [Ty.canonical, tokens_of_isUnit type hunit]
    rfl

end Bindery.Source
