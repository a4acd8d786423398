import Bindery.Source.Type.Erasure
/-!
# What erasure leaves of lists and paths

Erasure goes through the lists of a type one by one. What it leaves of each is the list without its
lifetimes, or with them, and each item in it erased.
-/

namespace Bindery.Source

/-- Whether a generic argument is a lifetime. -/
def Arg.isLifetime : Arg → Bool
  | lifetime _ => true
  | _ => false

/-- A generic argument with what is inside it erased. -/
def Arg.erase : Arg → Arg
  | .lifetime name => .lifetime name
  | .type held => .type held.erase
  | .value code => .value (eraseCode code)
  | .typeBinding name args held => .typeBinding name (eraseInner args) held.erase
  | .valueBinding name args code => .valueBinding name (eraseInner args) (eraseCode code)
  | .constraint name args bounds trailing =>
    .constraint name (eraseInner args) (eraseBounds true bounds) trailing

/-- The tokens of a generic argument, and whether it is a lifetime. -/
def Arg.tokens : Arg → Bool × List (TokenTree Token)
  | .lifetime name => (true, lifetimeTokens name)
  | .type held => (false, held.tokens)
  | .value code => (false, codeTokens code)
  | .typeBinding name args held =>
    (false, word name ++ optionalAngleTokens args ++ operator "=" ++ held.tokens)
  | .valueBinding name args code =>
    (false, word name ++ optionalAngleTokens args ++ operator "=" ++ codeTokens code)
  | .constraint name args bounds trailing =>
    (false, word name ++ optionalAngleTokens args ++ operator ":" ++
      separated (operator "+") trailing (boundTokens bounds))

/-- The tokens of a parameter with its type erased. -/
def Param.erasedTokens : Param → List (TokenTree Token)
  | .mk head type => codeTokens (eraseCode head) ++ type.erase.tokens

/-- The tokens of a part of code that is erased. -/
def Piece.erasedTokens (piece : Piece) : List (TokenTree Token) :=
  codeTokens (eraseCode [piece])

/-! ## Lists -/

theorem tyListTokens_eraseTypes (types : List Ty) :
    tyListTokens (eraseTypes types) = types.map fun type => type.erase.tokens := by
  induction types with
  | nil => rfl
  | cons type rest ih => rw [eraseTypes, tyListTokens, ih, List.map_cons]

theorem eraseTypes_length (types : List Ty) : (eraseTypes types).length = types.length := by
  induction types with
  | nil => rfl
  | cons type rest ih => rw [eraseTypes, List.length_cons, ih, List.length_cons]

theorem boundTokens_eraseBounds (keep : Bool) (bounds : List Bound) :
    boundTokens (eraseBounds keep bounds) =
      (bounds.filter (keep || !·.isLifetime)).map fun bound => bound.erase.tokens := by
  induction bounds with
  | nil => rfl
  | cons bound rest ih =>
    rw [eraseBounds, List.filter_cons]
    split
    · rw [boundTokens, ih, List.map_cons]
    · exact ih

theorem eraseArgList_eq (keep : Bool) (args : List Arg) :
    eraseArgList keep args = (args.filter (keep || !·.isLifetime)).map Arg.erase := by
  induction args with
  | nil => rfl
  | cons arg rest ih =>
    cases arg with
    | lifetime name => cases keep <;> simp [eraseArgList, Arg.isLifetime, Arg.erase, ih]
    | type | value | typeBinding | valueBinding | constraint =>
      simp [eraseArgList, Arg.isLifetime, Arg.erase, ih]

theorem argTokens_eq (args : List Arg) : argTokens args = args.map Arg.tokens := by
  induction args with
  | nil => rfl
  | cons arg rest ih => cases arg <;> simp [argTokens, Arg.tokens, ih]

theorem paramTokens_eraseParams (params : List Param) :
    paramTokens (eraseParams params) = params.map Param.erasedTokens := by
  induction params with
  | nil => rfl
  | cons param rest ih =>
    obtain ⟨head, type⟩ := param
    rw [eraseParams, paramTokens, ih, List.map_cons, Param.erasedTokens]

theorem codeTokens_eraseCode (code : List Piece) :
    codeTokens (eraseCode code) = code.flatMap Piece.erasedTokens := by
  induction code with
  | nil => rfl
  | cons piece rest ih =>
    rw [List.flatMap_cons, ← ih]
    cases piece with
    | token | group | type | path | bound => simp [Piece.erasedTokens, eraseCode, codeTokens]
    | args args =>
      obtain ⟨colons, args, trailing⟩ := args
      simp [Piece.erasedTokens, eraseCode, codeTokens]

/-! ## Separators -/

/-- A separator stands behind every item that is not the last. -/
theorem separated_cons (separator item : List (TokenTree Token)) {trailing : Bool}
    {items : List (List (TokenTree Token))} (h : trailing = true ∨ items ≠ []) :
    separated separator trailing (item :: items) =
      item ++ separator ++ separated separator trailing items := by
  cases items with
  | cons next items => rw [separated]; exact List.cons_ne_nil _ _
  | nil =>
    obtain rfl : trailing = true := h.resolve_right (absurd rfl)
    simp [separated]

/-- A list between separators begins with its first item. -/
theorem separated_head (separator : List (TokenTree Token)) (trailing : Bool)
    (item : List (TokenTree Token)) (items : List (List (TokenTree Token))) :
    ∃ behind, separated separator trailing (item :: items) = item ++ behind := by
  by_cases h : trailing = true ∨ items ≠ []
  · rw [separated_cons _ _ h, List.append_assoc]
    exact ⟨_, rfl⟩
  · simp only [not_or, Bool.not_eq_true, ne_eq, Decidable.not_not] at h
    obtain ⟨rfl, rfl⟩ := h
    exact ⟨[], by simp [separated]⟩

theorem separated_append (separator : List (TokenTree Token)) (trailing : Bool)
    (first : List (List (TokenTree Token))) {second : List (List (TokenTree Token))}
    (hne : second ≠ []) :
    separated separator true first ++ separated separator trailing second =
      separated separator trailing (first ++ second) := by
  induction first with
  | nil => rfl
  | cons item first ih =>
    rw [List.cons_append, separated_cons _ _ (.inl rfl), separated_cons _ _ (.inr (by simp [hne])),
      List.append_assoc, ih]

theorem separated_close (separator item : List (TokenTree Token))
    (items : List (List (TokenTree Token))) :
    separated separator false (item :: items) ++ separator =
      separated separator true (item :: items) := by
  induction items generalizing item with
  | nil => rfl
  | cons next items ih =>
    rw [separated_cons _ _ (.inr (List.cons_ne_nil _ _)), List.append_assoc, ih,
      separated_cons _ item (.inl rfl)]

/-- The lifetimes among the items come first. A comma at the end of a lifetime that comes last is
then one between two items, so that another stands at the end. -/
theorem lifetimesFirst_eq (trailing : Bool) (items : List (Bool × List (TokenTree Token))) :
    lifetimesFirst trailing items = separated (operator ",")
      (trailing || (items.getLast?.any (·.1) && items.any (!·.1)))
      ((items.filter (·.1) ++ items.filter (!·.1)).map (·.2)) := by
  have hlast : (items.getLast?.map (·.1)).getD false = items.getLast?.any (·.1) := by
    cases items.getLast? <;> rfl
  have hothers : items.any (!·.1) = !(items.filter (!·.1)).isEmpty := by
    rw [Bool.eq_iff_iff]
    simp
  have hmem : ∀ item ∈ items.getLast?, item ∈ items := fun item => List.mem_of_getLast?
  have hlifetimes : items.filter (·.1) = [] → items.getLast?.any (·.1) = false := by
    intro hempty
    cases hitem : items.getLast? with
    | none => rfl
    | some item => exact Bool.eq_false_iff.2 (List.filter_eq_nil_iff.1 hempty item (hmem item hitem))
  have hplain : items.filter (!·.1) = [] → items.filter (·.1) ≠ [] →
      items.getLast?.any (·.1) = true := by
    intro hempty hne
    cases hitem : items.getLast? with
    | none => simp_all
    | some item => simpa using List.filter_eq_nil_iff.1 hempty item (hmem item hitem)
  rw [lifetimesFirst, hlast, hothers, List.map_append]
  generalize items.getLast?.any (·.1) = last at *
  generalize items.filter (·.1) = lifetimes at *
  generalize items.filter (!·.1) = others at *
  cases lifetimes with
  | nil =>
    obtain rfl := hlifetimes rfl
    simp [separated]
  | cons lifetime lifetimes =>
    cases others with
    | nil =>
      obtain rfl := hplain rfl (List.cons_ne_nil _ _)
      simp [separated]
    | cons other others =>
      have hbetween : separated (operator ",") true ((lifetime :: lifetimes).map (·.2)) ++
          separated (operator ",") (trailing || last) ((other :: others).map (·.2)) =
            separated (operator ",") (trailing || last) (((lifetime :: lifetimes).map (·.2)) ++
              (other :: others).map (·.2)) :=
        separated_append _ _ _ (by simp)
      cases trailing <;> cases last <;>
        simp_all [separated_close]

theorem lifetimesFirst_map (items : List (List (TokenTree Token))) :
    lifetimesFirst false (items.map (Prod.mk false)) = separated (operator ",") false items := by
  have hlifetimes : (items.map (Prod.mk false)).filter (·.1) = [] := by simp
  have hothers : (items.map (Prod.mk false)).filter (!·.1) = items.map (Prod.mk false) := by simp
  have hlast : ((items.map (Prod.mk false)).getLast?.map (·.1)).getD false = false := by
    cases h : items.getLast? <;> simp [h]
  have hitems : (items.map (Prod.mk false)).map (·.2) = items := by simp [Function.comp_def]
  simp only [lifetimesFirst, hlifetimes, hothers, hlast, hitems]
  simp [separated]

/-! ## Paths -/

theorem eraseSegments_cons (segment : Segment) {rest : List Segment} (h : rest ≠ []) :
    eraseSegments (segment :: rest) = eraseSegments rest := by
  rw [eraseSegments]
  rintro name args -
  exact h

theorem eraseSegments_append (front : List Segment) (name : String) (args : Args) :
    eraseSegments (front ++ [.mk name args]) = [.mk name (eraseArgs args)] := by
  induction front with
  | nil => rfl
  | cons segment rest ih => rw [List.cons_append, eraseSegments_cons segment (by simp), ih]

theorem eraseSegments_length_le (segments : List Segment) :
    (eraseSegments segments).length ≤ 1 := by
  induction segments with
  | nil => exact Nat.zero_le _
  | cons segment rest ih =>
    cases rest with
    | nil =>
      cases segment
      exact Nat.le_refl 1
    | cons next more =>
      rw [eraseSegments_cons segment (List.cons_ne_nil _ _)]
      exact ih

/-- The tokens of generic arguments, none of which is a lifetime. -/
def argsOf : List (List (TokenTree Token)) → List (TokenTree Token)
  | [] => []
  | args => operator "<" ++ separated (operator ",") false args ++ operator ">"

/-- What erasure leaves of the arguments of a segment, where `items` are left of them. -/
theorem argsTokens_erase {args : List Arg} {items : List (List (TokenTree Token))}
    (h : argTokens (eraseArgList false args) = items.map (Prod.mk false)) (colons trailing : Bool) :
    argsTokens .asWritten (eraseArgs (.angle (.mk colons args trailing))) = argsOf items := by
  rw [eraseArgs]
  cases hargs : eraseArgList false args with
  | nil =>
    rw [hargs] at h
    obtain rfl : items = [] := List.map_eq_nil_iff.1 h.symm
    rfl
  | cons arg more =>
    rw [hargs] at h
    cases items with
    | nil => cases arg <;> cases h
    | cons item items =>
      dsimp only [List.isEmpty_cons]
      rw [if_neg Bool.false_ne_true, argsTokens, angleTokens, h, lifetimesFirst_map]
      rfl

end Bindery.Source
