import Bindery.Proofs.Source.Type.Erased
import Mathlib.Logic.Relation
/-!
# Edits that a canonical form does not show

An edit changes the qualification of one path, the lifetimes of one reference, path or trait object,
or the parentheses around one type, anywhere inside a type. Erasure leaves the same tokens before
and after (`Ty.Edit.tokens`), so types that any number of edits lead from one to the other have the
same canonical form (`Ty.Similar.canonical`).
-/

namespace Bindery.Source

/-! ## Edits -/

mutual

/-- A single edit of a type, at any depth, in the direction that adds. -/
inductive Ty.Edit : Ty → Ty → Prop
  /-- Parentheses around a type. -/
  | paren (type : Ty) : Ty.Edit type (.paren type)
  /-- The lifetime of a reference. -/
  | lifetime (name name' : Option String) (mutable : Bool) (target : Ty) :
    Ty.Edit (.reference name mutable target) (.reference name' mutable target)
  /-- The lifetimes among the bounds of a trait object. -/
  | bounds (keyword trailing trailing' : Bool) (bounds bounds' : List Bound) :
    bounds.filter (!·.isLifetime) = bounds'.filter (!·.isLifetime) →
    Ty.Edit (.object keyword bounds trailing) (.object keyword bounds' trailing')
  /-- The lifetimes that make a trait object of a path without a keyword. -/
  | bare (path : Path) (bounds : List Bound) (trailing : Bool) :
    bounds.filter (!·.isLifetime) = [.trait false [] path] →
    Ty.Edit (.path none path) (.object false bounds trailing)
  | path {owner owner' : Option Owner} {path path' : Path} :
    Qualified.Edit owner path owner' path' → Ty.Edit (.path owner path) (.path owner' path')
  | reference (name : Option String) (mutable : Bool) {target target' : Ty} :
    Ty.Edit target target' →
    Ty.Edit (.reference name mutable target) (.reference name mutable target')
  | pointer (mutable : Bool) {target target' : Ty} :
    Ty.Edit target target' → Ty.Edit (.pointer mutable target) (.pointer mutable target')
  | slice {element element' : Ty} :
    Ty.Edit element element' → Ty.Edit (.slice element) (.slice element')
  | array (length : List Piece) {element element' : Ty} :
    Ty.Edit element element' → Ty.Edit (.array element length) (.array element' length)
  | length (element : Ty) {length length' : List Piece} :
    Code.Edit length length' → Ty.Edit (.array element length) (.array element length')
  | tuple (before after : List Ty) (trailing : Bool) {element element' : Ty} :
    Ty.Edit element element' →
    Ty.Edit (.tuple (before ++ element :: after) trailing)
      (.tuple (before ++ element' :: after) trailing)
  | inner {type type' : Ty} : Ty.Edit type type' → Ty.Edit (.paren type) (.paren type')
  | object (keyword : Bool) (before after : List Bound) (trailing : Bool) {bound bound' : Bound} :
    Bound.Edit bound bound' →
    Ty.Edit (.object keyword (before ++ bound :: after) trailing)
      (.object keyword (before ++ bound' :: after) trailing)
  | anonymous (before after : List Bound) (trailing : Bool) {bound bound' : Bound} :
    Bound.Edit bound bound' →
    Ty.Edit (.anonymous (before ++ bound :: after) trailing)
      (.anonymous (before ++ bound' :: after) trailing)
  | head (params : List Param) (trailing : Bool) (tail : List Piece) (output : Option Ty)
      {head head' : List Piece} :
    Code.Edit head head' →
    Ty.Edit (.function head params trailing tail output)
      (.function head' params trailing tail output)
  | paramHead (head tail : List Piece) (before after : List Param) (trailing : Bool)
      (output : Option Ty) (type : Ty) {inside inside' : List Piece} :
    Code.Edit inside inside' →
    Ty.Edit (.function head (before ++ .mk inside type :: after) trailing tail output)
      (.function head (before ++ .mk inside' type :: after) trailing tail output)
  | param (head tail inside : List Piece) (before after : List Param) (trailing : Bool)
      (output : Option Ty) {type type' : Ty} :
    Ty.Edit type type' →
    Ty.Edit (.function head (before ++ .mk inside type :: after) trailing tail output)
      (.function head (before ++ .mk inside type' :: after) trailing tail output)
  | tail (head : List Piece) (params : List Param) (trailing : Bool) (output : Option Ty)
      {tail tail' : List Piece} :
    Code.Edit tail tail' →
    Ty.Edit (.function head params trailing tail output)
      (.function head params trailing tail' output)
  | output (head : List Piece) (params : List Param) (trailing : Bool) (tail : List Piece)
      {type type' : Ty} :
    Ty.Edit type type' →
    Ty.Edit (.function head params trailing tail (some type))
      (.function head params trailing tail (some type'))
  | invocation (delimiter : Delimiter) (body : List (TokenTree Token)) {path path' : Path} :
    Path.Edit path path' →
    Ty.Edit (.invocation path delimiter body) (.invocation path' delimiter body)

/-- A single edit of a path with the self type that may lead it. The names of the trait that the
self type is cast to may be more or fewer. -/
inductive Qualified.Edit : Option Owner → Path → Option Owner → Path → Prop
  | self (position : Nat) (path : Path) {type type' : Ty} :
    Ty.Edit type type' →
    Qualified.Edit (some (.mk type position)) path (some (.mk type' position)) path
  | plain {path path' : Path} : Path.Edit path path' → Qualified.Edit none path none path'
  | cast (type : Ty) (position position' : Nat) {path path' : Path} :
    (position = 0 ↔ position' = 0) → Path.Edit path path' →
    Qualified.Edit (some (.mk type position)) path (some (.mk type position')) path'

/-- A single edit of a path. -/
inductive Path.Edit : Path → Path → Prop
  /-- What stands in front of the last segment. -/
  | qualify (absolute absolute' : Bool) (front front' : List Segment) (last : Segment) :
    Path.Edit (.mk absolute (front ++ [last])) (.mk absolute' (front' ++ [last]))
  | last (absolute : Bool) (front : List Segment) (name : String) {args args' : Args} :
    Args.Edit args args' →
    Path.Edit (.mk absolute (front ++ [.mk name args])) (.mk absolute (front ++ [.mk name args']))

/-- A single edit of the arguments of a path segment. -/
inductive Args.Edit : Args → Args → Prop
  /-- The lifetimes among generic arguments. -/
  | lifetimes (colons colons' trailing trailing' : Bool) (args args' : List Arg) :
    args.filter (!·.isLifetime) = args'.filter (!·.isLifetime) →
    Args.Edit (.angle (.mk colons args trailing)) (.angle (.mk colons' args' trailing'))
  /-- Generic arguments that are lifetimes and nothing else. -/
  | none (colons trailing : Bool) (args : List Arg) : args.filter (!·.isLifetime) = [] →
    Args.Edit .none (.angle (.mk colons args trailing))
  | angle {args args' : AngleArgs} :
    AngleArgs.Edit args args' → Args.Edit (.angle args) (.angle args')
  | input (before after : List Ty) (trailing : Bool) (output : Option Ty) {type type' : Ty} :
    Ty.Edit type type' →
    Args.Edit (.call (before ++ type :: after) trailing output)
      (.call (before ++ type' :: after) trailing output)
  | output (inputs : List Ty) (trailing : Bool) {type type' : Ty} :
    Ty.Edit type type' →
    Args.Edit (.call inputs trailing (some type)) (.call inputs trailing (some type'))

/-- A single edit inside generic arguments. -/
inductive AngleArgs.Edit : AngleArgs → AngleArgs → Prop
  | arg (colons : Bool) (before after : List Arg) (trailing : Bool) {arg arg' : Arg} :
    Arg.Edit arg arg' →
    AngleArgs.Edit (.mk colons (before ++ arg :: after) trailing)
      (.mk colons (before ++ arg' :: after) trailing)

/-- A single edit of a generic argument that is no lifetime. -/
inductive Arg.Edit : Arg → Arg → Prop
  | type {type type' : Ty} : Ty.Edit type type' → Arg.Edit (.type type) (.type type')
  | value {code code' : List Piece} : Code.Edit code code' → Arg.Edit (.value code) (.value code')
  | typeBinding (name : String) (args : Option AngleArgs) {type type' : Ty} :
    Ty.Edit type type' → Arg.Edit (.typeBinding name args type) (.typeBinding name args type')
  | typeBindingArgs (name : String) (type : Ty) {args args' : AngleArgs} :
    AngleArgs.Edit args args' →
    Arg.Edit (.typeBinding name (some args) type) (.typeBinding name (some args') type)
  | valueBinding (name : String) (args : Option AngleArgs) {code code' : List Piece} :
    Code.Edit code code' → Arg.Edit (.valueBinding name args code) (.valueBinding name args code')
  | valueBindingArgs (name : String) (code : List Piece) {args args' : AngleArgs} :
    AngleArgs.Edit args args' →
    Arg.Edit (.valueBinding name (some args) code) (.valueBinding name (some args') code)
  | constraint (name : String) (args : Option AngleArgs) (before after : List Bound)
      (trailing : Bool) {bound bound' : Bound} :
    Bound.Edit bound bound' →
    Arg.Edit (.constraint name args (before ++ bound :: after) trailing)
      (.constraint name args (before ++ bound' :: after) trailing)
  | constraintArgs (name : String) (bounds : List Bound) (trailing : Bool)
      {args args' : AngleArgs} :
    AngleArgs.Edit args args' →
    Arg.Edit (.constraint name (some args) bounds trailing)
      (.constraint name (some args') bounds trailing)

/-- A single edit of a bound that is a trait. -/
inductive Bound.Edit : Bound → Bound → Prop
  | head (parens : Bool) (path : Path) {head head' : List Piece} :
    Code.Edit head head' → Bound.Edit (.trait parens head path) (.trait parens head' path)
  | path (parens : Bool) (head : List Piece) {path path' : Path} :
    Path.Edit path path' → Bound.Edit (.trait parens head path) (.trait parens head path')

/-- A single edit of code. -/
inductive Code.Edit : List Piece → List Piece → Prop
  | piece (before after : List Piece) {piece piece' : Piece} :
    Piece.Edit piece piece' →
    Code.Edit (before ++ piece :: after) (before ++ piece' :: after)

/-- A single edit of a part of code. -/
inductive Piece.Edit : Piece → Piece → Prop
  | group (delimiter : Delimiter) {body body' : List Piece} :
    Code.Edit body body' → Piece.Edit (.group delimiter body) (.group delimiter body')
  | type {type type' : Ty} : Ty.Edit type type' → Piece.Edit (.type type) (.type type')
  | path (style : PathStyle) {owner owner' : Option Owner} {path path' : Path} :
    Qualified.Edit owner path owner' path' →
    Piece.Edit (.path owner path style) (.path owner' path' style)
  | args {args args' : AngleArgs} :
    AngleArgs.Edit args args' → Piece.Edit (.args args) (.args args')
  | bound {bound bound' : Bound} :
    Bound.Edit bound bound' → Piece.Edit (.bound bound) (.bound bound')

end

/-! ## What is left of an edit -/

theorem qualify_position {type : List (TokenTree Token)} {position position' : Nat}
    (h : position = 0 ↔ position' = 0) {path : Bool × List (List (TokenTree Token))}
    (single : path.2.length ≤ 1) :
    qualify (some (type, position)) path = qualify (some (type, position')) path := by
  have htake : path.2.take position = path.2.take position' ∧
      path.2.drop position = path.2.drop position' := by
    by_cases hzero : position = 0
    · rw [hzero, h.1 hzero]
      exact ⟨rfl, rfl⟩
    · have hzero' : position' ≠ 0 := fun h' => hzero (h.2 h')
      rw [List.take_of_length_le (by omega), List.take_of_length_le (by omega),
        List.drop_of_length_le (by omega), List.drop_of_length_le (by omega)]
      exact ⟨rfl, rfl⟩
  simp only [qualify, htake.1, htake.2]

theorem segmentTokens_length (style : PathStyle) (segments : List Segment) :
    (segmentTokens style segments).length = segments.length := by
  induction segments with
  | nil => rfl
  | cons segment rest ih =>
    cases segment
    rw [segmentTokens, List.length_cons, ih, List.length_cons]

theorem nameTokens_erase_length_le (style : PathStyle) (path : Path) :
    (nameTokens style path.erase).2.length ≤ 1 := by
  obtain ⟨absolute, segments⟩ := path
  rw [Path.erase, nameTokens, segmentTokens_length]
  exact eraseSegments_length_le segments

/-- What generic arguments have in common where the same tokens are left of them. -/
structure AngleArgs.SameTokens (args args' : AngleArgs) : Prop where
  segment : ∀ style, argsTokens style (eraseArgs (.angle args)) =
    argsTokens style (eraseArgs (.angle args'))
  inner : optionalAngleTokens (eraseInner (some args)) =
    optionalAngleTokens (eraseInner (some args'))
  call : (Piece.args args).erasedTokens = (Piece.args args').erasedTokens

mutual

theorem Ty.Edit.tokens {type type' : Ty} : Ty.Edit type type' →
    type.erase.tokens = type'.erase.tokens
  | .paren type => rfl
  | .lifetime name name' mutable target => rfl
  | .bounds keyword trailing trailing' bounds bounds' h => by
    simp only [Ty.erase, Ty.tokens, boundTokens_eraseBounds, Bool.false_or, h]
  | .bare path bounds trailing h => by
    simp only [Ty.erase, Ty.tokens, boundTokens_eraseBounds, Bool.false_or, h]
    simp [Bound.erase, Bound.tokens, eraseCode, codeTokens, separated, eraseOwner, ownerTokens]
  | .path h => by
    simp only [Ty.erase, Ty.tokens]
    exact Qualified.Edit.tokens h _
  | .reference name mutable h => by simp only [Ty.erase, Ty.tokens, Ty.Edit.tokens h]
  | .pointer mutable h => by simp only [Ty.erase, Ty.tokens, Ty.Edit.tokens h]
  | .slice h => by simp only [Ty.erase, Ty.tokens, Ty.Edit.tokens h]
  | .array length h => by simp only [Ty.erase, Ty.tokens, Ty.Edit.tokens h]
  | .length element h => by simp only [Ty.erase, Ty.tokens, Code.Edit.tokens h]
  | .tuple before after trailing h => by
    simp only [Ty.erase, Ty.tokens, tyListTokens_eraseTypes, eraseTypes_length, List.map_append,
      List.map_cons, List.length_append, List.length_cons, Ty.Edit.tokens h]
  | .inner h => by simp only [Ty.erase, Ty.Edit.tokens h]
  | .object keyword before after trailing h => by
    obtain ⟨htokens, htrait, htrait'⟩ := Bound.Edit.tokens h
    simp only [Ty.erase, Ty.tokens, boundTokens_eraseBounds, List.filter_append, List.filter_cons,
      htrait, htrait', List.map_append, List.map_cons, htokens, Bool.not_false, Bool.or_true,
      if_true]
  | .anonymous before after trailing h => by
    obtain ⟨htokens, htrait, htrait'⟩ := Bound.Edit.tokens h
    simp only [Ty.erase, Ty.tokens, boundTokens_eraseBounds, List.filter_append, List.filter_cons,
      htrait, htrait', List.map_append, List.map_cons, htokens, Bool.not_false, Bool.or_true,
      if_true]
  | .head params trailing tail output h => by
    simp only [Ty.erase, Ty.tokens, Code.Edit.tokens h]
  | .paramHead head tail before after trailing output type h => by
    simp only [Ty.erase, Ty.tokens, paramTokens_eraseParams, List.map_append, List.map_cons,
      Param.erasedTokens, Code.Edit.tokens h]
  | .param head tail inside before after trailing output h => by
    simp only [Ty.erase, Ty.tokens, paramTokens_eraseParams, List.map_append, List.map_cons,
      Param.erasedTokens, Ty.Edit.tokens h]
  | .tail head params trailing output h => by
    simp only [Ty.erase, Ty.tokens, Code.Edit.tokens h]
  | .output head params trailing tail h => by
    simp only [Ty.erase, Ty.tokens, eraseOutput, outputTokens, Ty.Edit.tokens h]
  | .invocation delimiter body h => by
    simp only [Ty.erase, Ty.tokens, Path.Edit.tokens h]

theorem Qualified.Edit.tokens {owner owner' : Option Owner} {path path' : Path} :
    Qualified.Edit owner path owner' path' → ∀ style,
      qualify (ownerTokens (eraseOwner owner)) (nameTokens style path.erase) =
        qualify (ownerTokens (eraseOwner owner')) (nameTokens style path'.erase)
  | .self position path h => fun style => by
    simp only [eraseOwner, ownerTokens, Ty.Edit.tokens h]
  | .plain h => fun style => by rw [Path.Edit.tokens h style]
  | .cast type position position' hposition h => fun style => by
    rw [Path.Edit.tokens h style]
    exact qualify_position hposition (nameTokens_erase_length_le style _)

theorem Path.Edit.tokens {path path' : Path} : Path.Edit path path' → ∀ style,
    nameTokens style path.erase = nameTokens style path'.erase
  | .qualify absolute absolute' front front' last => fun style => by
    cases last
    simp only [Path.erase, eraseSegments_append]
  | .last absolute front name h => fun style => by
    simp only [Path.erase, eraseSegments_append, nameTokens, segmentTokens,
      Args.Edit.tokens h style]

theorem Args.Edit.tokens {args args' : Args} : Args.Edit args args' → ∀ style,
    argsTokens style (eraseArgs args) = argsTokens style (eraseArgs args')
  | .lifetimes colons colons' trailing trailing' args args' h => fun style => by
    simp only [eraseArgs, eraseArgList_eq, Bool.false_or, h]
  | .none colons trailing args h => fun style => by
    simp [eraseArgs, eraseArgList_eq, h]
  | .angle h => (AngleArgs.Edit.tokens h).segment
  | .input before after trailing output h => fun style => by
    simp only [eraseArgs, argsTokens, tyListTokens_eraseTypes, List.map_append, List.map_cons,
      Ty.Edit.tokens h]
  | .output inputs trailing h => fun style => by
    simp only [eraseArgs, argsTokens, eraseOutput, outputTokens, Ty.Edit.tokens h]

theorem AngleArgs.Edit.tokens {args args' : AngleArgs} : AngleArgs.Edit args args' →
    AngleArgs.SameTokens args args'
  | @AngleArgs.Edit.arg colons before after trailing arg arg' h => by
    obtain ⟨htokens, hother, hother'⟩ := Arg.Edit.tokens h
    have hargs : ∀ keep, argTokens (eraseArgList keep (before ++ arg :: after)) =
        argTokens (eraseArgList keep (before ++ arg' :: after)) := by
      intro keep
      simp only [argTokens_eq, eraseArgList_eq, List.filter_append, List.filter_cons, hother,
        hother', List.map_append, List.map_cons, htokens, Bool.not_false, Bool.or_true, if_true]
    have hsome : ∀ other, other.isLifetime = false →
        (eraseArgList false (before ++ other :: after)).isEmpty = false := by
      intro other hlifetime
      simp [eraseArgList_eq, hlifetime]
    constructor
    · intro style
      simp only [eraseArgs, hsome arg hother, hsome arg' hother', Bool.false_eq_true, if_false,
        argsTokens, angleTokens, hargs]
    · simp only [eraseInner, optionalAngleTokens, angleTokens, hargs]
    · simp only [Piece.erasedTokens, eraseCode, codeTokens, Piece.tokens, angleTokens, hargs]

theorem Arg.Edit.tokens {arg arg' : Arg} : Arg.Edit arg arg' →
    arg.erase.tokens = arg'.erase.tokens ∧ arg.isLifetime = false ∧ arg'.isLifetime = false
  | .type h => ⟨by simp only [Arg.erase, Arg.tokens, Ty.Edit.tokens h], rfl, rfl⟩
  | .value h => ⟨by simp only [Arg.erase, Arg.tokens, Code.Edit.tokens h], rfl, rfl⟩
  | .typeBinding name args h => ⟨by simp only [Arg.erase, Arg.tokens, Ty.Edit.tokens h], rfl, rfl⟩
  | .typeBindingArgs name type h => ⟨by
      simp only [Arg.erase, Arg.tokens, (AngleArgs.Edit.tokens h).inner], rfl, rfl⟩
  | .valueBinding name args h =>
    ⟨by simp only [Arg.erase, Arg.tokens, Code.Edit.tokens h], rfl, rfl⟩
  | .valueBindingArgs name code h => ⟨by
      simp only [Arg.erase, Arg.tokens, (AngleArgs.Edit.tokens h).inner], rfl, rfl⟩
  | .constraint name args before after trailing h => by
    obtain ⟨htokens, htrait, htrait'⟩ := Bound.Edit.tokens h
    refine ⟨?_, rfl, rfl⟩
    simp only [Arg.erase, Arg.tokens, boundTokens_eraseBounds, List.filter_append,
      List.filter_cons, htrait, htrait', List.map_append, List.map_cons, htokens, Bool.not_false,
      Bool.or_true, if_true]
  | .constraintArgs name bounds trailing h => ⟨by
      simp only [Arg.erase, Arg.tokens, (AngleArgs.Edit.tokens h).inner], rfl, rfl⟩

theorem Bound.Edit.tokens {bound bound' : Bound} : Bound.Edit bound bound' →
    bound.erase.tokens = bound'.erase.tokens ∧ bound.isLifetime = false ∧ bound'.isLifetime = false
  | .head parens path h => ⟨by simp only [Bound.erase, Bound.tokens, Code.Edit.tokens h], rfl, rfl⟩
  | .path parens head h =>
    ⟨by simp only [Bound.erase, Bound.tokens, Path.Edit.tokens h], rfl, rfl⟩

theorem Code.Edit.tokens {code code' : List Piece} : Code.Edit code code' →
    codeTokens (eraseCode code) = codeTokens (eraseCode code')
  | .piece before after h => by
    simp only [codeTokens_eraseCode, List.flatMap_append, List.flatMap_cons, Piece.Edit.tokens h]

theorem Piece.Edit.tokens {piece piece' : Piece} : Piece.Edit piece piece' →
    piece.erasedTokens = piece'.erasedTokens
  | .group delimiter h => by
    simp only [Piece.erasedTokens, eraseCode, codeTokens, Piece.tokens, Code.Edit.tokens h]
  | .type h => by
    simp only [Piece.erasedTokens, eraseCode, codeTokens, Piece.tokens, Ty.Edit.tokens h]
  | .path style h => by
    simp only [Piece.erasedTokens, eraseCode, codeTokens, Piece.tokens,
      Qualified.Edit.tokens h style]
  | .args h => (AngleArgs.Edit.tokens h).call
  | .bound h => by
    simp only [Piece.erasedTokens, eraseCode, codeTokens, Piece.tokens, (Bound.Edit.tokens h).1]

end

/-- Types that any number of edits lead from one to the other, each adding or removing. -/
def Ty.Similar : Ty → Ty → Prop :=
  Relation.EqvGen Ty.Edit

/-- Similar types have the same canonical form. -/
theorem Ty.Similar.canonical {type type' : Ty} (h : Ty.Similar type type') :
    type.canonical = type'.canonical := by
  induction h with
  | rel _ _ hedit => exact congrArg Token.compact hedit.tokens
  | refl => rfl
  | symm _ _ _ ih => exact ih.symm
  | trans _ _ _ _ _ ih ih' => exact ih.trans ih'

end Bindery.Source
