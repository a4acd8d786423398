import Bindery.Proofs.Source.Rereading.Stable
/-!
# Stable types are read back

The canonical form of a type is read back if its tokens stay apart and if rules that are deep enough
read them (`Returns`). Each kind of type has that from its parts, and a stable type by recursion
over them. So its canonical form is read as a type of the same canonical form.
-/

namespace Bindery

/-! ## Sizes -/

namespace TokenTree

variable {α : Type} {trees first second body : List (TokenTree α)}

@[simp] theorem sizeList_nil : sizeList ([] : List (TokenTree α)) = 0 := rfl

@[simp] theorem sizeList_leaf (token : α) : sizeList (leaf token :: trees) = 1 + sizeList trees :=
    rfl

@[simp] theorem sizeList_group (delimiter : Delimiter) :
    sizeList (group delimiter body :: trees) = sizeList body + 1 + sizeList trees := rfl

@[simp] theorem sizeList_append : sizeList (first ++ second) = sizeList first + sizeList second := by
  induction first with
  | nil => simp
  | cons tree first ih =>
    show size tree + sizeList (first ++ second) = size tree + sizeList first + sizeList second
    rw [ih, Nat.add_assoc]

end TokenTree

namespace Source.Grammar

open Token (isIdent)
open TokenTree (sizeList)

@[simp] theorem sizeList_word (name : String) : sizeList (word name) = 1 := rfl

@[simp] theorem sizeList_operator (text : String) : sizeList (operator text) = text.toList.length := by
  rw [operator]
  induction text.toList with
  | nil => rfl
  | cons c cs ih =>
    cases cs with
    | nil => rfl
    | cons d cs =>
      rw [operatorChars, TokenTree.sizeList_leaf, ih, List.length_cons (a := c), Nat.add_comm]
      exact List.cons_ne_nil _ _

theorem sizeList_le_separated {item : List (TokenTree Token)} {items : List (List (TokenTree Token))}
    (hitem : item ∈ items) (separator : List (TokenTree Token)) (trailing : Bool) :
    sizeList item ≤ sizeList (separated separator trailing items) := by
  induction items with
  | nil => cases hitem
  | cons first items ih =>
    by_cases h : trailing = true ∨ items ≠ []
    · rw [separated_cons _ _ h, TokenTree.sizeList_append, TokenTree.sizeList_append]
      rcases List.mem_cons.1 hitem with rfl | hmem
      · omega
      · have := ih hmem
        omega
    · simp only [not_or, Bool.not_eq_true, ne_eq, not_not] at h
      obtain ⟨rfl, rfl⟩ := h
      obtain rfl := List.mem_singleton.1 hitem
      simp [separated]

/-! ## Depth -/

section depth

variable {inner outer : List (TokenTree Token)} {property : Rules → Prop} {depth : Nat}

/-- Tokens inside others are short enough for the rules one level below those for all of them. -/
theorem DeepEnough.inside (h : DeepEnough inner property) (hdepth : 8 * sizeList outer ≤ depth)
    (hsize : sizeList inner < sizeList outer) : property (.upTo depth) :=
  h depth (by omega)

theorem DeepEnough.grow (h : DeepEnough inner property) (hsize : sizeList inner ≤ sizeList outer) :
    DeepEnough outer property :=
  fun depth hdepth => h depth (by omega)

theorem DeepEnough.step
    (h : ∀ depth, 8 * sizeList outer ≤ depth → property (.upTo (depth + 1))) :
    DeepEnough outer property := by
  intro depth hdepth
  obtain ⟨depth, rfl⟩ := Nat.exists_eq_add_of_le' (show 1 ≤ depth by omega)
  exact h depth (by omega)

theorem DeepEnough.imp {other : Rules → Prop} (h : DeepEnough inner property)
    (himp : ∀ rules, property rules → other rules) : DeepEnough inner other :=
  fun depth hdepth => himp _ (h depth hdepth)

end depth

/-! ## References, pointers and lists -/

/-- A type is read back wherever its canonical form may stand. -/
structure Returns (type : Ty) : Prop where
  opens : opensType type.erase.tokens = true
  joins : Joins type.erase.tokens
  reads : ∀ plus, plus = true ∨ type.isTight = true →
    DeepEnough type.erase.tokens (TypeRereads · plus type)

section types

variable {type target element : Ty}

theorem unmarked_of_opensType {tokens : List (TokenTree Token)} (h : opensType tokens = true) :
    Unmarked tokens := by
  have hmark := mark?_of_opensType h
  constructor <;> intro heq <;> rw [heq] at hmark <;> exact absurd hmark (by decide)

theorem returns_reference (h : Returns target) (htight : target.isTight = true)
    (lifetime : Option String) (mutable : Bool) : Returns (.reference lifetime mutable target) := by
  have htokens : (Ty.reference lifetime mutable target).erase.tokens =
      operator "&" ++ ((if mutable then word "mut" else []) ++ target.erase.tokens) := by
    simp [Ty.erase, Ty.tokens]
  have hmutable : Joins (if mutable then word "mut" else []) := by
    cases mutable with
    | true => exact .word (by decide)
    | false => exact .nil
  refine ⟨by rw [htokens]; rfl, ?_, fun plus _ => .step fun depth hdepth => ?_⟩
  · rw [htokens]
    exact .behindOperator (by decide)
      (hmutable.append h.joins fun _ => unmarked_of_opensType h.opens)
  · refine .reference h.opens ((h.reads false (.inr htight)).inside hdepth ?_) lifetime mutable
    simp only [htokens, TokenTree.sizeList_append, sizeList_operator]
    simp
    omega

theorem returns_pointer (h : Returns target) (htight : target.isTight = true) (mutable : Bool) :
    Returns (.pointer mutable target) := by
  have htokens : (Ty.pointer mutable target).erase.tokens =
      operator "*" ++ (word (if mutable then "mut" else "const") ++ target.erase.tokens) := by
    simp [Ty.erase, Ty.tokens]
  have hword : Token.isIdent (if mutable then "mut" else "const") = true := by
    cases mutable <;> decide
  refine ⟨by rw [htokens]; rfl, ?_, fun plus _ => .step fun depth hdepth => ?_⟩
  · rw [htokens]
    exact .behindOperator (by decide)
      (.append (.word hword) h.joins fun _ => unmarked_of_opensType h.opens)
  · refine .pointer ((h.reads false (.inr htight)).inside hdepth ?_) mutable
    simp only [htokens, TokenTree.sizeList_append, sizeList_operator]
    simp
    omega

theorem returns_never : Returns .never :=
  ⟨rfl, .mark (by decide), fun _ _ => .step fun _ _ => .never⟩

theorem returns_inferred : Returns .inferred :=
  ⟨rfl, .word (by decide), fun _ _ => .step fun _ _ => .inferred⟩

theorem returns_slice (h : Returns element) : Returns (.slice element) := by
  refine ⟨rfl, .group h.joins.apart, fun plus _ => .step fun depth hdepth => ?_⟩
  exact .slice ((h.reads true (.inl rfl)).inside hdepth (by simp [Ty.erase, Ty.tokens]))

theorem returns_array {length : List Piece} (h : Returns element) (hlength : StableLength length) :
    Returns (.array element length) := by
  have htokens : (Ty.array element length).erase.tokens =
      [.group .bracket (element.erase.tokens ++ (operator ";" ++ codeTokens (eraseCode length)))] := by
    simp [Ty.erase, Ty.tokens]
  refine ⟨rfl, ?_, fun plus _ => .step fun depth hdepth => .array ?_ ?_⟩
  · rw [htokens]
    refine .group (h.joins _ ?_ (apart_operator (by decide) hlength.apart))
    exact Unmarked.append (by decide) (List.cons_ne_nil _ _) _
  · refine (h.reads true (.inl rfl)).inside hdepth ?_
    rw [htokens, TokenTree.sizeList_group, TokenTree.sizeList_append]
    omega
  · refine hlength.reads.inside hdepth ?_
    rw [htokens, TokenTree.sizeList_group, TokenTree.sizeList_append, TokenTree.sizeList_append]
    omega

theorem joins_types {types : List Ty} (h : ∀ type ∈ types, Returns type) (trailing : Bool) :
    Joins (separated (operator ",") trailing (types.map (·.erase.tokens))) :=
  .listed (by decide) (fun type htype => (h type htype).joins) trailing

theorem returns_tuple {elements : List Ty} (h : ∀ element ∈ elements, Returns element)
    (trailing : Bool) : Returns (.tuple elements trailing) := by
  have htokens := tokens_tuple elements trailing
  refine ⟨by rw [htokens]; rfl, ?_, fun plus _ => .step fun depth hdepth => ?_⟩
  · rw [htokens]
    exact .group (joins_types h _).apart
  · refine .tuple (fun element helement => ⟨(h element helement).opens, ?_⟩) trailing
    refine ((h element helement).reads true (.inl rfl)).inside hdepth ?_
    rw [htokens]
    have hmem := List.mem_map_of_mem (f := fun type : Ty => type.erase.tokens) helement
    exact Nat.lt_succ_of_le (sizeList_le_separated hmem _ _)

end types

/-! ## Generic arguments -/

/-- A generic argument is read back in front of what ends it. -/
structure ArgReturns (arg : Arg) : Prop where
  apart : ∀ rest, ArgEnds rest → Token.apart rest = true →
    Token.apart (arg.erase.tokens.2 ++ rest) = true
  reads : DeepEnough arg.erase.tokens.2 (ArgRereads · arg)

section arguments

variable {name : String} {args : List Arg} {arg : Arg} {type : Ty}

theorem ArgEnds.unmarked {rest : List (TokenTree Token)} (ends : ArgEnds rest) : Unmarked rest := by
  have hmark := ends.mark?
  constructor <;> intro heq <;> rw [heq] at hmark <;> exact absurd hmark (by decide)

theorem argReturns_lifetime (hname : isIdent name = true) : ArgReturns (.lifetime name) :=
  ⟨fun rest ends hrest => Joins.lifetime hname rest ends.unmarked hrest,
    fun _ _ => .lifetime _ name⟩

theorem argReturns_type (h : Returns type) : ArgReturns (.type type) :=
  ⟨fun rest ends hrest => h.joins rest ends.unmarked hrest,
    (h.reads true (.inl rfl)).imp fun _ hreads => .type h.opens hreads⟩

theorem argReturns_value {code : List Piece} (h : StableValue code) : ArgReturns (.value code) :=
  ⟨h.apart, h.reads.imp fun _ hreads => .value hreads⟩

theorem joins_angleOf (h : ∀ arg ∈ args, ArgReturns arg) (colons trailing : Bool) :
    Joins (angleOf colons args trailing) := by
  intro more _ hmore
  have hargs : Token.apart (separated (operator ",") trailing (args.map (·.erase.tokens.2)) ++
      (operator ">" ++ more)) = true := by
    refine apart_items (by decide) ArgEnds.comma ?_ trailing (fun _ => .inr (.closing more))
      (apart_operator (by decide) hmore)
    exact List.forall_mem_map.2 fun arg harg => (h arg harg).apart
  rw [angleOf]
  simp only [List.append_assoc]
  have hopen : Token.apart (operator "<" ++ _) = true := apart_operator (by decide) hargs
  cases colons with
  | true => exact apart_operator (by decide) hopen
  | false => exact hopen

theorem unmarked_angleOf (colons : Bool) (args : List Arg) (trailing : Bool) :
    Unmarked (angleOf colons args trailing) := by
  cases colons <;> exact ⟨nofun, nofun⟩

theorem sizeList_lt_angleOf (harg : arg ∈ args) (colons trailing : Bool) :
    sizeList arg.erase.tokens.2 < sizeList (angleOf colons args trailing) := by
  have hmem := List.mem_map_of_mem (f := fun arg : Arg => arg.erase.tokens.2) harg
  have hle := sizeList_le_separated hmem (operator ",") trailing
  simp only [angleOf, TokenTree.sizeList_append]
  have hopen : sizeList (operator "<") = 1 := rfl
  omega

/-! ## Bindings -/

/-- The name of a binding with its arguments is read back. -/
structure InnerReturns (name : String) (args : Option AngleArgs) : Prop where
  isName : IsPathName name
  joins : Joins (word name ++ optionalAngleTokens (eraseInner args))
  reads : DeepEnough (word name ++ optionalAngleTokens (eraseInner args))
    (BindingRereads · name args)

theorem innerReturns {inner : Option AngleArgs} (hname : IsPathName name) (htry : name ≠ "try")
    (hinner : ∀ colons args trailing, inner = some (.mk colons args trailing) →
      (name = "Self" ∨ name ∉ pathWords) ∧ ∀ arg ∈ args, ArgReturns arg) :
    InnerReturns name inner := by
  have htokens : ∀ colons args trailing, inner = some (.mk colons args trailing) →
      optionalAngleTokens (eraseInner inner) =
        angleOf colons (ordered args) (trailing || displaced args) := by
    rintro colons args trailing rfl
    rw [eraseInner, optionalAngleTokens, angleTokens_erase]
  refine ⟨hname, .append (.word hname.1) ?_ fun hne => ?_, .step fun depth hdepth more stops => ?_⟩
  · rcases inner with _ | ⟨colons, args, trailing⟩
    · exact .nil
    · rw [htokens colons args trailing rfl]
      exact joins_angleOf (fun arg harg => (hinner _ _ _ rfl).2 arg (mem_ordered.1 harg)) _ _
  · rcases inner with _ | ⟨colons, args, trailing⟩
    · exact absurd rfl hne
    · rw [htokens colons args trailing rfl]
      exact unmarked_angleOf _ _ _
  · have hargs := @argsReread_inner (.upTo depth) inner ?_
    · refine (rereads_pathType hname htry hargs ?_ stops).imp ?_
      · intro hne
        rcases inner with _ | ⟨colons, args, trailing⟩
        · exact absurd rfl hne
        · exact (hinner _ _ _ rfl).1
      · rintro _ _ ⟨args, rfl, again, hagain, hbare⟩
        refine ⟨again, ?_, hbare⟩
        rcases hagain with ⟨rfl, rfl⟩ | ⟨inner, rfl, rfl⟩ <;> rfl
    · rintro colons args trailing rfl arg harg
      refine ((hinner _ _ _ rfl).2 arg harg).reads.inside hdepth ?_
      have hlt := sizeList_lt_angleOf (mem_ordered.2 harg) colons (trailing || displaced args)
      rw [htokens _ _ _ rfl, TokenTree.sizeList_append]
      omega

theorem InnerReturns.apart {inner : Option AngleArgs} (h : InnerReturns name inner) {text : String}
    (htext : text ∈ ["=", ":"]) {held rest : List (TokenTree Token)}
    (hheld : Token.apart (held ++ rest) = true) :
    Token.apart (word name ++ optionalAngleTokens (eraseInner inner) ++ (operator text ++ held) ++
      rest) = true := by
  simp only [List.mem_cons, List.not_mem_nil, or_false] at htext
  rw [List.append_assoc, List.append_assoc (operator text)]
  rcases htext with rfl | rfl
  · refine h.joins _ ?_ (apart_operator (by decide) hheld)
    exact Unmarked.append (by decide) (List.cons_ne_nil _ _) _
  · refine h.joins _ ?_ (apart_operator (by decide) hheld)
    exact Unmarked.append (by decide) (List.cons_ne_nil _ _) _

theorem argReturns_typeBinding {inner : Option AngleArgs} (hinner : InnerReturns name inner)
    (h : Returns type) : ArgReturns (.typeBinding name inner type) := by
  have htokens : (Arg.typeBinding name inner type).erase.tokens.2 =
      word name ++ optionalAngleTokens (eraseInner inner) ++ (operator "=" ++ type.erase.tokens) :=
    List.append_assoc _ _ _
  refine ⟨fun rest ends hrest => ?_, fun depth hdepth => ?_⟩
  · rw [htokens]
    exact hinner.apart (by decide) (h.joins rest ends.unmarked hrest)
  · rw [htokens] at hdepth
    refine .typeBinding hinner.isName (hinner.reads.grow ?_ depth hdepth) h.opens
      ((h.reads true (.inl rfl)).grow ?_ depth hdepth)
    all_goals
      simp only [TokenTree.sizeList_append]
      omega

theorem argReturns_valueBinding {inner : Option AngleArgs} {code : List Piece}
    (hinner : InnerReturns name inner) (h : StableValue code) :
    ArgReturns (.valueBinding name inner code) := by
  have htokens : (Arg.valueBinding name inner code).erase.tokens.2 =
      word name ++ optionalAngleTokens (eraseInner inner) ++
        (operator "=" ++ codeTokens (eraseCode code)) :=
    List.append_assoc _ _ _
  refine ⟨fun rest ends hrest => ?_, fun depth hdepth => ?_⟩
  · rw [htokens]
    exact hinner.apart (by decide) (h.apart rest ends hrest)
  · rw [htokens] at hdepth
    refine .valueBinding hinner.isName (hinner.reads.grow ?_ depth hdepth)
      (h.reads.grow ?_ depth hdepth)
    all_goals
      simp only [TokenTree.sizeList_append]
      omega

end arguments

/-! ## Paths -/

/-- The arguments of the last segment of a path are read back. -/
structure ArgsReturn (name : String) (args : Args) : Prop where
  joins : Joins (argsTokens .asWritten (eraseArgs args))
  begins : mark? (argsTokens .asWritten (eraseArgs args)) ∈ [none, some '<']
  reads : DeepEnough (argsTokens .asWritten (eraseArgs args)) (TraitArgsReread · name args)

section paths

variable {name : String} {args : Args} {path : Path}

theorem ArgsReturn.unmarked (h : ArgsReturn name args) :
    Unmarked (argsTokens .asWritten (eraseArgs args)) := by
  have hmark := h.begins
  constructor <;> intro heq <;> rw [heq] at hmark <;> exact absurd hmark (by decide)

theorem argsReturn_none : ArgsReturn name .none :=
  ⟨.nil, by decide, fun _ _ => .plain (absurd rfl) (.none rfl)⟩

theorem argsReturn_angle {args : List Arg} (hname : name = "Self" ∨ name ∉ pathWords)
    (h : ∀ arg ∈ args, ArgReturns arg) (colons trailing : Bool) :
    ArgsReturn name (.angle (.mk colons args trailing)) := by
  have htokens := argsTokens_written args colons trailing
  have hwritten : ∀ arg ∈ written args, ArgReturns arg := fun arg harg =>
    h arg (List.mem_of_mem_filter harg)
  by_cases hne : written args = []
  · rw [hne] at htokens
    refine ⟨by rw [htokens]; exact .nil, by rw [htokens]; decide, fun depth hdepth => ?_⟩
    refine .plain (fun hne => absurd htokens hne) (argsReread_written ?_ colons trailing)
    simp [hne]
  · rw [argsOf_eq_angleOf hne] at htokens
    refine ⟨by rw [htokens]; exact joins_angleOf hwritten _ _,
      by rw [htokens]; exact List.mem_cons_of_mem _ List.mem_cons_self, fun depth hdepth => ?_⟩
    refine .plain (fun _ => hname) (argsReread_written (fun arg harg => ?_) colons trailing)
    refine (hwritten arg harg).reads.grow ?_ depth hdepth
    rw [htokens]
    exact Nat.le_of_lt (sizeList_lt_angleOf harg _ _)

theorem joins_output {output : Option Ty} (h : ∀ type ∈ output, Returns type) :
    Joins (outputTokens (eraseOutput output)) := by
  cases output with
  | none => exact .nil
  | some type => exact .behindOperator (by decide) (h type rfl).joins

theorem unmarked_output (output : Option Ty) : Unmarked (outputTokens (eraseOutput output)) := by
  cases output <;> exact ⟨nofun, nofun⟩

theorem sizeList_output {output : Option Ty} {type : Ty} (htype : type ∈ output) :
    sizeList type.erase.tokens < sizeList (outputTokens (eraseOutput output)) := by
  obtain rfl := Option.mem_def.1 htype
  simp [eraseOutput, outputTokens]

theorem argsReturn_call {inputs : List Ty} {output : Option Ty}
    (hinputs : ∀ type ∈ inputs, Returns type)
    (houtput : ∀ type ∈ output, Returns type ∧ type.isTight = true) (trailing : Bool) :
    ArgsReturn name (.call inputs trailing output) := by
  have htokens : argsTokens .asWritten (eraseArgs (.call inputs trailing output)) =
      [.group .paren (separated (operator ",") trailing (inputs.map (·.erase.tokens)))] ++
        outputTokens (eraseOutput output) := by
    rw [eraseArgs, argsTokens, tyListTokens_eraseTypes]
  have hjoins := joins_output fun type htype => (houtput type htype).1
  refine ⟨?_, by rw [htokens]; exact List.mem_cons_self, fun depth hdepth => ?_⟩
  · rw [htokens]
    exact .append (.group (joins_types hinputs _).apart) hjoins fun _ => unmarked_output output
  · rw [htokens] at hdepth
    refine .call (fun type htype => ⟨(hinputs type htype).opens, ?_⟩) fun type htype => ?_
    · refine ((hinputs type htype).reads true (.inl rfl)).grow ?_ depth hdepth
      have hmem := List.mem_map_of_mem (f := fun type : Ty => type.erase.tokens) htype
      have hle := sizeList_le_separated hmem (operator ",") trailing
      simp only [TokenTree.sizeList_append, TokenTree.sizeList_group]
      omega
    · refine ((houtput type htype).1.reads false (.inr (houtput type htype).2)).grow ?_ depth hdepth
      have hlt := sizeList_output htype
      rw [TokenTree.sizeList_append]
      omega

/-- The last segment of a path is read back. -/
structure PathReturns (path : Path) (name : String) (args : Args) : Prop where
  erased : path.erase = .mk false [.mk name (eraseArgs args)]
  last : path.segments.getLast? = some (.mk name args)
  isName : IsPathName name
  args : ArgsReturn name args

theorem PathReturns.tokens (h : PathReturns path name args) :
    qualify none (nameTokens .asWritten path.erase) =
      word name ++ argsTokens .asWritten (eraseArgs args) := by
  rw [h.erased, tokens_single]

theorem PathReturns.joins (h : PathReturns path name args) :
    Joins (word name ++ argsTokens .asWritten (eraseArgs args)) :=
  .append (.word h.isName.1) h.args.joins fun _ => h.args.unmarked

theorem PathReturns.isType_iff (h : PathReturns path name args) :
    path.isType = true ↔ name ≠ "try" ∧ args.isCall = false := by
  rw [Path.isType, h.last]
  simp [Segment.name, Segment.args]

/-- A path that may be a type takes no arguments of a call. -/
theorem PathReturns.pathRereads (h : PathReturns path name args) (htype : path.isType = true) :
    DeepEnough (argsTokens .asWritten (eraseArgs args)) (PathRereads · path name args) := by
  refine h.args.reads.imp fun rules hargs => ?_
  cases hargs with
  | plain takes hargs => exact ⟨h.erased, h.isName, takes, hargs⟩
  | call => cases (h.isType_iff.1 htype).2

theorem opensType_word {rest : List (TokenTree Token)} (hname : name ∉ ["true", "false", "mut"])
    (hrest : mark? rest ≠ some ':') : opensType (word name ++ rest) = true := by
  simp only [List.mem_cons, List.not_mem_nil, or_false, not_or] at hname
  simp [word, opensType, hname, hrest]

theorem IsPathName.opens (hname : IsPathName name) {rest : List (TokenTree Token)}
    (hrest : mark? rest ≠ some ':') : opensType (word name ++ rest) = true := by
  refine opensType_word (fun hmem => ?_) hrest
  simp only [List.mem_cons, List.not_mem_nil, or_false] at hmem
  rcases hmem with rfl | rfl | rfl <;> exact absurd hname.2 (by decide)

theorem PathReturns.opens (h : PathReturns path name args) :
    opensType (word name ++ argsTokens .asWritten (eraseArgs args)) = true := by
  refine h.isName.opens fun heq => ?_
  have hmark := h.args.begins
  rw [heq] at hmark
  exact absurd hmark (by decide)

theorem returns_path (h : PathReturns path name args) (htype : path.isType = true) :
    Returns (.path none path) := by
  have htokens : (Ty.path none path).erase.tokens =
      word name ++ argsTokens .asWritten (eraseArgs args) := h.tokens
  refine ⟨by rw [htokens]; exact h.opens, by rw [htokens]; exact h.joins,
    fun plus _ => .step fun depth hdepth => ?_⟩
  refine .ofPath ((h.pathRereads htype).inside hdepth ?_) (h.isType_iff.1 htype).1
  rw [htokens, TokenTree.sizeList_append, sizeList_word]
  omega

theorem returns_invocation {body : List (TokenTree Token)} (h : PathReturns path name args)
    (htype : path.isType = true) (hplain : path.isPlain = true) (hbody : Token.apart body = true)
    (delimiter : Delimiter) : Returns (.invocation path delimiter body) := by
  have hlast := List.all_eq_true.1 hplain _ (List.mem_of_getLast? h.last)
  obtain rfl : args = .none := by
    cases args with
    | none => rfl
    | angle | call => cases hlast
  have htokens : (Ty.invocation path delimiter body).erase.tokens =
      word name ++ (operator "!" ++ [.group delimiter body]) := by
    rw [Ty.erase, Ty.tokens, h.erased]
    rfl
  refine ⟨by rw [htokens]; exact h.isName.opens nofun, ?_, fun plus _ => .step fun depth _ => ?_⟩
  · rw [htokens]
    exact .append (.word h.isName.1) (.behindOperator (by decide) (.group hbody)) fun _ =>
      ⟨nofun, nofun⟩
  · exact .invocation h.isName (h.isType_iff.1 htype).1 h.erased delimiter body

end paths

/-! ## Bounds -/

/-- A bound is read back where the context allows it. -/
structure BoundReturns (context : BoundContext) (bound : Bound) : Prop where
  joins : Joins bound.erase.tokens
  reads : DeepEnough bound.erase.tokens fun rules =>
    BoundRereads (boundWith rules context) context bound
  trait : ∀ parens head path, bound = .trait parens head path →
    StableHead (codeTokens (eraseCode head)) ∧ ∃ name args, PathReturns path name args

section bounds

variable {name : String} {args : Args} {path : Path} {context : BoundContext}
  {tokens : List (TokenTree Token)} {head : List Piece}

theorem StableHead.joins (h : StableHead tokens) : Joins tokens := by
  cases h with
  | nothing => exact .nil
  | relaxed => exact .mark (by decide)
  | binder h => exact h.joins

theorem StableHead.reads (h : StableHead tokens) : DeepEnough tokens (HeadRereads · tokens) := by
  cases h with
  | nothing => exact fun _ _ => .nothing
  | relaxed => exact fun _ _ => .relaxed
  | binder h => exact h.reads.imp fun _ => .binder

theorem boundReturns_lifetime (hname : isIdent name = true) :
    BoundReturns context (.lifetime name) :=
  ⟨.lifetime hname, fun _ _ => .lifetime _ context name, nofun⟩

theorem boundReturns_verbatim {pieces : List Piece} (h : StableBound context pieces) :
    BoundReturns context (.verbatim pieces) :=
  ⟨h.joins, h.reads, nofun⟩

theorem boundReturns_trait (hhead : StableHead (codeTokens (eraseCode head)))
    (h : PathReturns path name args) (parens : Bool) :
    BoundReturns context (.trait parens head path) := by
  have htokens : (Bound.trait parens head path).erase.tokens =
      if parens then [.group .paren (codeTokens (eraseCode head) ++
          (word name ++ argsTokens .asWritten (eraseArgs args)))]
      else codeTokens (eraseCode head) ++ (word name ++ argsTokens .asWritten (eraseArgs args)) := by
    rw [Bound.erase, Bound.tokens, h.tokens]
  -- The parentheses stand around the head too.
  have hinside : Joins (codeTokens (eraseCode head) ++
      (word name ++ argsTokens .asWritten (eraseArgs args))) :=
    .append hhead.joins h.joins fun _ => ⟨nofun, nofun⟩
  refine ⟨?_, fun depth hdepth => ?_, ?_⟩
  · rw [htokens]
    cases parens with
    | true => exact .group hinside.apart
    | false => exact hinside
  · have hsize : sizeList (codeTokens (eraseCode head)) +
        sizeList (argsTokens .asWritten (eraseArgs args)) ≤
          sizeList (Bound.trait parens head path).erase.tokens := by
      rw [htokens]
      cases parens with
      | true =>
        simp only [if_pos, TokenTree.sizeList_group, TokenTree.sizeList_append]
        omega
      | false =>
        simp only [Bool.false_eq_true, if_false, TokenTree.sizeList_append]
        omega
    exact .trait h.erased h.isName (hhead.reads.grow (by omega) depth hdepth)
      (h.args.reads.grow (by omega) depth hdepth)
  · rintro _ _ _ ⟨⟩
    exact ⟨hhead, name, args, h⟩

variable {bounds : List Bound}

theorem joins_bounds (h : ∀ bound ∈ bounds, BoundReturns context bound) (trailing : Bool) :
    Joins (separated (operator "+") trailing (bounds.map (·.erase.tokens))) :=
  .listed (by decide) (fun bound hbound => (h bound hbound).joins) trailing

theorem argReturns_constraint {inner : Option AngleArgs}
    (hinner : InnerReturns name inner)
    (h : ∀ bound ∈ bounds, BoundReturns parameterContext bound) (trailing : Bool) :
    ArgReturns (.constraint name inner bounds trailing) := by
  have htokens : (Arg.constraint name inner bounds trailing).erase.tokens.2 =
      word name ++ optionalAngleTokens (eraseInner inner) ++ (operator ":" ++
        separated (operator "+") trailing (bounds.map (·.erase.tokens))) := by
    rw [Arg.erase, Arg.tokens, boundTokens_eraseBounds, List.append_assoc]
    simp
  refine ⟨fun rest ends hrest => ?_, .step fun depth hdepth => ?_⟩
  · rw [htokens]
    exact hinner.apart (by decide) (joins_bounds h _ rest ends.unmarked hrest)
  · rw [htokens] at hdepth
    have hbounds : ∀ bound ∈ bounds,
        BoundRereads (Rules.upTo (depth + 1)).bound parameterContext bound := by
      intro bound hbound
      refine (h bound hbound).reads.inside hdepth ?_
      have hmem := List.mem_map_of_mem (f := fun bound : Bound => bound.erase.tokens) hbound
      have hle := sizeList_le_separated hmem (operator "+") trailing
      simp only [TokenTree.sizeList_append, sizeList_word]
      omega
    refine .constraint hinner.isName (hinner.reads _ ?_) hbounds trailing
    simp only [TokenTree.sizeList_append] at hdepth ⊢
    have hmark : sizeList (operator ":") = 1 := rfl
    omega

/-! ## Trait objects and anonymous types -/

theorem isSingle_length {keyword : Bool} (h : isSingle keyword bounds = true) :
    bounds.length = 1 := by
  unfold isSingle at h
  split at h <;> simp_all

theorem BoundReturns.mark {bound : Bound} (h : BoundReturns context bound) :
    bound.erase.tokens ≠ [] ∧ mark? bound.erase.tokens ∈ [none, some '?', some '\x27'] := by
  have hreads := h.reads _ (Nat.le_refl _)
  exact ⟨hreads.ne_nil, hreads.mark⟩

/-- Bounds begin with no colon, so that a word in front of them begins no path. -/
theorem opensType_bounds (hname : name ∉ ["true", "false", "mut"])
    (h : ∀ bound ∈ bounds, BoundReturns context bound) (trailing : Bool) :
    opensType (word name ++ separated (operator "+") trailing (bounds.map (·.erase.tokens))) = true := by
  refine opensType_word hname ?_
  cases bounds with
  | nil => exact nofun
  | cons bound bounds =>
    obtain ⟨hne, hmark⟩ := (h bound List.mem_cons_self).mark
    rw [List.map_cons, ← List.append_nil (separated _ _ _), mark?_separated hne]
    exact fun heq => absurd (heq ▸ hmark) (by decide)

theorem sizeList_bound {bound : Bound} (hbound : bound ∈ bounds) (trailing : Bool) :
    sizeList bound.erase.tokens ≤
      sizeList (separated (operator "+") trailing (bounds.map (·.erase.tokens))) :=
  sizeList_le_separated (List.mem_map_of_mem (f := fun bound : Bound => bound.erase.tokens) hbound) _ _

theorem joins_keyword (hname : isIdent name = true ∧ name ∉ ["b", "r", "br", "cr"])
    (h : Joins tokens) :
    Joins (word name ++ tokens) := by
  intro rest hrest hapart
  rw [List.append_assoc]
  exact apart_word hname.1 (h rest hrest hapart) (.inr hname.2)

theorem returns_dyn (h : ∀ bound ∈ kept bounds, BoundReturns objectContext bound)
    (hne : kept bounds ≠ []) (trailing : Bool) : Returns (.object true bounds trailing) := by
  have htokens := tokens_object true bounds trailing
  rw [if_pos rfl] at htokens
  refine ⟨by rw [htokens]; exact opensType_bounds (by decide) h false,
    by rw [htokens]; exact joins_keyword (by decide) (joins_bounds h false),
    fun plus hplus => .step fun depth hdepth => ?_⟩
  -- The word alone makes the bounds shorter than the type.
  refine .dyn hne (fun bound hbound => (h bound hbound).reads.inside hdepth ?_)
    (hplus.imp_right isSingle_length) trailing
  have hle := sizeList_bound hbound false
  rw [htokens, TokenTree.sizeList_append, sizeList_word]
  omega

theorem returns_anonymous (h : ∀ bound ∈ bounds, BoundReturns anonymousContext bound)
    (htrait : bounds.any Bound.isTrait = true) (trailing : Bool) :
    Returns (.anonymous bounds trailing) := by
  have htokens : (Ty.anonymous bounds trailing).erase.tokens =
      word "impl" ++ separated (operator "+") trailing (bounds.map (·.erase.tokens)) := by
    rw [Ty.erase, Ty.tokens, boundTokens_eraseBounds]
    simp
  refine ⟨by rw [htokens]; exact opensType_bounds (by decide) h trailing,
    by rw [htokens]; exact joins_keyword (by decide) (joins_bounds h trailing),
    fun plus hplus => .step fun depth hdepth => ?_⟩
  refine .anonymous (fun bound hbound => (h bound hbound).reads.inside hdepth ?_) htrait ?_
  · have hle := sizeList_bound hbound trailing
    rw [htokens, TokenTree.sizeList_append, sizeList_word]
    omega
  · exact hplus.imp_right fun htight => by simpa [Ty.isTight] using htight

theorem sizeList_more {more : List Bound} {bound : Bound} (hbound : bound ∈ more) :
    sizeList bound.erase.tokens <
      sizeList (more.flatMap fun bound => operator "+" ++ bound.erase.tokens) := by
  induction more with
  | nil => cases hbound
  | cons first more ih =>
    have hmark : sizeList (operator "+") = 1 := rfl
    rw [List.flatMap_cons, TokenTree.sizeList_append, TokenTree.sizeList_append]
    rcases List.mem_cons.1 hbound with rfl | hmem
    · omega
    · have hlt := ih hmem
      omega

/-- What stands in front of a trait is nothing, or what `for` binds, unless it is a question
mark. -/
theorem StableHead.binds (h : StableHead tokens) (hrelaxed : tokens ≠ operator "?") :
    tokens = [] ∨ DeepEnough tokens (BinderRereads · tokens) := by
  cases h with
  | nothing => exact .inl rfl
  | relaxed => exact absurd rfl hrelaxed
  | binder h => exact .inr h.reads

theorem returns_path_sum {more : List Bound} (hkept : kept bounds = .trait false head path :: more)
    (hhead : StableHead (codeTokens (eraseCode head)))
    (hrelaxed : codeTokens (eraseCode head) ≠ operator "?") (h : PathReturns path name args)
    (htype : path.isType = true) (hbounds : ∀ bound ∈ kept bounds, BoundReturns objectContext bound)
    (trailing : Bool) : Returns (.object false bounds trailing) := by
  have hobject : (Ty.object false bounds trailing).erase.tokens =
      separated (operator "+") false ((kept bounds).map (·.erase.tokens)) :=
    tokens_object false bounds trailing
  have htokens : (Ty.object false bounds trailing).erase.tokens =
      codeTokens (eraseCode head) ++ (word name ++ (argsTokens .asWritten (eraseArgs args) ++
        more.flatMap fun bound => operator "+" ++ bound.erase.tokens)) := by
    rw [hobject, hkept, separated_sum, Bound.erase, Bound.tokens, h.tokens]
    simp
  have hsize := congrArg sizeList htokens
  simp only [TokenTree.sizeList_append, sizeList_word] at hsize
  have hbinds := hhead.binds hrelaxed
  refine ⟨?_, by rw [hobject]; exact joins_bounds hbounds false,
    fun plus hplus => .step fun depth hdepth => ?_⟩
  · rw [htokens]
    rcases hbinds with hnil | hbinder
    · rw [hnil, List.nil_append]
      refine h.isName.opens fun heq => ?_
      by_cases hargs : argsTokens .asWritten (eraseArgs args) = []
      · rw [hargs] at heq
        cases more <;> cases heq
      · rw [mark?_append hargs] at heq
        have hmark := h.args.begins
        rw [heq] at hmark
        exact absurd hmark (by decide)
    · obtain ⟨behind, hbegins⟩ := (hbinder _ (Nat.le_refl _)).begins
      rw [hbegins, List.append_assoc, List.append_assoc]
      exact opensType_word (by decide) nofun
  · refine .sum hkept ((h.pathRereads htype).inside hdepth (by omega)) (h.isType_iff.1 htype).1
      (hbinds.imp_right fun hbinder => hbinder.inside hdepth (by omega)) (fun bound hbound => ?_)
      (hplus.imp_right fun htight => ?_) trailing
    · have hlt := sizeList_more hbound
      exact (hbounds bound (by rw [hkept]; exact .tail _ hbound)).reads.inside hdepth (by omega)
    · have hlength := isSingle_length htight
      rw [hkept, List.length_cons] at hlength
      exact List.length_eq_zero_iff.1 (by omega)

theorem returns_parenthesized_sum {more : List Bound}
    (hkept : kept bounds = .trait true head path :: more)
    (hhead : StableHead (codeTokens (eraseCode head))) (h : PathReturns path name args)
    (hleads : codeTokens (eraseCode head) = operator "?" ∨ more ≠ [] ∧ path.isType = true)
    (hbounds : ∀ bound ∈ kept bounds, BoundReturns objectContext bound) (trailing : Bool) :
    Returns (.object false bounds trailing) := by
  have hobject : (Ty.object false bounds trailing).erase.tokens =
      separated (operator "+") false ((kept bounds).map (·.erase.tokens)) :=
    tokens_object false bounds trailing
  have htokens := tokens_parenSum hkept h.tokens trailing
  have hsize := congrArg sizeList htokens
  simp only [TokenTree.sizeList_append, TokenTree.sizeList_group, TokenTree.sizeList_nil,
    sizeList_word] at hsize
  refine ⟨by rw [htokens]; rfl, by rw [hobject]; exact joins_bounds hbounds false,
    fun plus hplus => ?_⟩
  obtain rfl : plus = true := hplus.resolve_right fun htight => by
    rw [Ty.isTight, hkept] at htight
    cases more <;> cases htight
  by_cases hrelaxed : codeTokens (eraseCode head) = operator "?"
  · refine .step fun depth hdepth => ?_
    refine .relaxedSum hkept hrelaxed h.erased h.isName (h.args.reads.inside hdepth (by omega))
      (fun bound hbound => ?_) trailing
    have hlt := sizeList_more hbound
    exact (hbounds bound (by rw [hkept]; exact .tail _ hbound)).reads.inside hdepth (by omega)
  · obtain ⟨hne, htype⟩ := hleads.resolve_left hrelaxed
    intro depth hdepth
    obtain ⟨depth, rfl⟩ := Nat.exists_eq_add_of_le' (show 2 ≤ depth by omega)
    refine .parenSum hkept hne (h.pathRereads htype depth (by omega)) (h.isType_iff.1 htype).1
      ((hhead.binds hrelaxed).imp_right fun hbinder => hbinder depth (by omega))
      (fun bound hbound => ?_) trailing
    have hlt := sizeList_more hbound
    exact (hbounds bound (by rw [hkept]; exact .tail _ hbound)).reads _ (by omega)

theorem returns_sum (h : ∀ bound ∈ kept bounds, BoundReturns objectContext bound)
    (hleads : LeadsSum (kept bounds)) (trailing : Bool) :
    Returns (.object false bounds trailing) := by
  generalize hkept : kept bounds = sum at hleads
  rcases sum with _ | ⟨_ | ⟨_ | _, head, path⟩ | _, more⟩
  case cons.trait.false =>
    obtain ⟨hhead, name, args, hpath⟩ :=
      (h _ (by rw [hkept]; exact List.mem_cons_self)).trait _ _ _ rfl
    exact returns_path_sum hkept hhead hleads.2 hpath hleads.1 h trailing
  case cons.trait.true =>
    obtain ⟨hhead, name, args, hpath⟩ :=
      (h _ (by rw [hkept]; exact List.mem_cons_self)).trait _ _ _ rfl
    exact returns_parenthesized_sum hkept hhead hpath hleads h trailing
  all_goals exact hleads.elim

end bounds

/-! ## Function pointers -/

/-- A parameter of a function pointer is read back. -/
structure ParamReturns (first : Bool) (param : Param) : Prop where
  joins : Joins param.erasedTokens
  reads : DeepEnough param.erasedTokens (ParamRereads · first param)

/-- The parameters of a function pointer are read back; only the first of them stands first. -/
def ParamsReturn (first : Bool) : List Param → Prop
  | [] => True
  | param :: params => ParamReturns first param ∧ ∀ other ∈ params, ParamReturns false other

section functions

variable {first trailing : Bool} {type : Ty} {head tail : List Piece} {params : List Param}
  {output : Option Ty} {tokens : List (TokenTree Token)} {name : Option String}

theorem joins_paramName (hname : ∀ text ∈ name, IsParamName first text) :
    Joins (paramName name) := by
  cases name with
  | none => exact .nil
  | some name => exact .append (.word (hname name rfl).1) (.mark (by decide)) fun _ => by decide

theorem unmarked_paramName (hne : paramName name ≠ []) : Unmarked (paramName name) := by
  cases name with
  | none => exact absurd rfl hne
  | some name => exact ⟨nofun, nofun⟩

theorem paramReturns_of_type (hhead : StableName first (codeTokens (eraseCode head)))
    (h : Returns type) : ParamReturns first (.mk head type) := by
  generalize hhead' : codeTokens (eraseCode head) = tokens at hhead
  obtain @⟨attributes, name, hattributes, hname⟩ := hhead
  have htokens : (Param.mk head type).erasedTokens =
      attributes ++ paramName name ++ type.erase.tokens := by
    rw [Param.erasedTokens, hhead']
  refine ⟨?_, fun depth hdepth => ?_⟩
  · rw [htokens]
    exact (hattributes.joins.append (joins_paramName hname) unmarked_paramName).append h.joins
      fun _ => unmarked_of_opensType h.opens
  · rw [htokens] at hdepth
    refine .ofType hhead' (hattributes.reads.grow ?_ depth hdepth) hname h.opens
      ((h.reads true (.inl rfl)).grow ?_ depth hdepth)
    all_goals
      simp only [TokenTree.sizeList_append]
      omega

theorem ParamsReturn.mem (h : ParamsReturn first params) {param : Param} (hparam : param ∈ params) :
    ∃ first, ParamReturns first param := by
  cases params with
  | nil => cases hparam
  | cons other params =>
    rcases List.mem_cons.1 hparam with rfl | hmem
    · exact ⟨first, h.1⟩
    · exact ⟨false, h.2 param hmem⟩

theorem ParamsReturn.all (h : ParamsReturn false params) :
    ∀ param ∈ params, ParamReturns false param := by
  cases params with
  | nil => simp
  | cons param params => exact List.forall_mem_cons.2 h

theorem ParamsReturn.reads (h : ParamsReturn first params) (depth : Nat)
    (hdepth : ∀ param ∈ params, 8 * (sizeList param.erasedTokens + 1) ≤ depth) :
    ParamsReread (.upTo depth) first params := by
  cases params with
  | nil => trivial
  | cons param params =>
    obtain ⟨hfirst, hmore⟩ := List.forall_mem_cons.1 hdepth
    exact ⟨h.1.reads depth hfirst, fun other hother =>
      (h.2 other hother).reads depth (hmore other hother)⟩

theorem joins_dots (hname : ∀ text ∈ name, IsParamName first text) (comma : Bool) :
    Joins (dotsTokens name comma) := by
  refine .append (joins_paramName hname) (.behindOperator (by decide) ?_) fun _ => ?_
  · cases comma with
    | true => exact .mark (by decide)
    | false => exact .nil
  · cases comma <;> decide

theorem StableTail.joins (h : StableTail tokens) : Joins tokens := by
  cases h with
  | nothing => exact .nil
  | @dots attributes name hattributes hname comma =>
    refine hattributes.joins.append (joins_dots hname comma) fun _ => ?_
    cases name <;> exact ⟨nofun, nofun⟩

theorem StableTail.reads (h : StableTail tokens) : DeepEnough tokens (TailRereads · tokens) := by
  cases h with
  | nothing => exact fun _ _ => .nothing
  | dots hattributes hname comma =>
    refine fun depth hdepth => .dots (hattributes.reads.grow ?_ depth hdepth) hname comma
    rw [TokenTree.sizeList_append]
    omega

theorem unmarked_convention (convention : Option (Option String)) :
    Unmarked (conventionTokens convention ++ word "fn") := by
  rcases convention with _ | _ | literal <;> constructor <;> rintro ⟨⟩

theorem joins_qualifiers (isUnsafe : Bool) {convention : Option (Option String)}
    (hconvention : ∀ literal ∈ convention, ∀ text ∈ literal, IsLiteral text) :
    Joins (qualifierTokens isUnsafe convention) := by
  have hfn : Joins (word "fn") := .word (by decide)
  have hlast : Joins (conventionTokens convention ++ word "fn") := by
    rcases convention with _ | _ | literal
    · exact hfn
    · exact .append (.word (by decide)) hfn fun _ => by decide
    · have hliteral : Joins (.leaf (.literal literal) :: word "fn") := fun more hmore hapart =>
        apart_literal (hconvention _ rfl literal rfl) (hfn more hmore hapart) (by rintro _ ⟨⟩)
      rw [conventionTokens, List.append_assoc]
      exact .append (.word (by decide)) hliteral fun _ => by constructor <;> rintro ⟨⟩
  cases isUnsafe with
  | true =>
    exact .append (.word (by decide)) hlast fun _ => unmarked_convention convention
  | false => exact hlast

theorem unmarked_qualifiers (isUnsafe : Bool) (convention : Option (Option String)) :
    Unmarked (qualifierTokens isUnsafe convention) := by
  rcases isUnsafe with _ | _ <;> rcases convention with _ | _ | literal <;> exact ⟨nofun, nofun⟩

theorem StableQualifiers.joins (h : StableQualifiers tokens) : Joins tokens := by
  obtain @⟨binder, isUnsafe, convention, hbinder, hconvention⟩ := h
  have hqualifiers := joins_qualifiers isUnsafe fun literal hliteral text htext =>
    (hconvention literal hliteral text htext).1
  rcases hbinder with rfl | hbinder
  · exact hqualifiers
  · exact hbinder.joins.append hqualifiers fun _ => unmarked_qualifiers _ _

theorem StableQualifiers.reads (h : StableQualifiers tokens) :
    DeepEnough tokens (FunctionHead · tokens) := by
  obtain @⟨binder, isUnsafe, convention, hbinder, hconvention⟩ := h
  refine fun depth hdepth => .mk isUnsafe (hbinder.imp_right fun hbinder => ?_)
    fun literal hliteral text htext => (hconvention literal hliteral text htext).2
  refine hbinder.reads.grow ?_ depth hdepth
  rw [TokenTree.sizeList_append]
  omega

/-- A function pointer begins with a word that begins no path. -/
theorem FunctionHead.opens {rules : Rules} (h : FunctionHead rules tokens)
    (more : List (TokenTree Token)) (hmore : mark? more ≠ some ':') :
    opensType (tokens ++ more) = true := by
  obtain @⟨binder, isUnsafe, convention, hbinder, -⟩ := h
  rcases hbinder with rfl | hbinder
  · rcases isUnsafe with _ | _ <;> rcases convention with _ | _ | literal
    case false.none => exact opensType_word (by decide) hmore
    all_goals rfl
  · obtain ⟨behind, rfl⟩ := hbinder.begins
    rw [List.append_assoc, List.append_assoc, List.append_assoc]
    exact opensType_word (by decide) nofun

theorem returns_function (hhead : StableQualifiers (codeTokens (eraseCode head)))
    (hparams : ParamsReturn true params) (htail : StableTail (codeTokens (eraseCode tail)))
    (hseparate : codeTokens (eraseCode tail) ≠ [] → trailing = true ∨ params = [])
    (houtput : ∀ type ∈ output, Returns type ∧ type.isTight = true) :
    Returns (.function head params trailing tail output) := by
  have htokens := @tokens_function head tail params output trailing
  have hinside : Token.apart (separated (operator ",") trailing (params.map Param.erasedTokens) ++
      codeTokens (eraseCode tail)) = true := by
    refine apart_items (p := Unmarked) (by decide) (fun more => ?_) ?_ trailing (fun hne => ?_)
      htail.joins.apart
    · exact Unmarked.append (by decide) (List.cons_ne_nil _ _) more
    · refine List.forall_mem_map.2 fun param hparam => ?_
      obtain ⟨first, hparam⟩ := hparams.mem hparam
      exact hparam.joins
    · by_cases hnil : codeTokens (eraseCode tail) = []
      · exact .inr (by rw [hnil]; decide)
      · exact .inl ((hseparate hnil).resolve_right fun hparams => hne (by rw [hparams]; rfl))
  have hjoins := joins_output fun type htype => (houtput type htype).1
  refine ⟨?_, ?_, fun plus _ => .step fun depth hdepth => ?_⟩
  · rw [htokens]
    exact (hhead.reads _ (Nat.le_refl _)).opens _ nofun
  · rw [htokens]
    exact hhead.joins.append (.append (.group hinside) hjoins fun _ => unmarked_output output)
      fun _ => ⟨nofun, nofun⟩
  · have hsize := congrArg sizeList htokens
    simp only [TokenTree.sizeList_append, TokenTree.sizeList_group, TokenTree.sizeList_nil] at hsize
    refine .function (hhead.reads.inside hdepth (by omega))
      (hparams.reads depth fun param hparam => ?_)
      (htail.reads.inside hdepth (by omega)) hseparate fun type htype => ?_
    · have hle := sizeList_le_separated (List.mem_map_of_mem (f := Param.erasedTokens) hparam)
        (operator ",") trailing
      omega
    · have hlt := sizeList_output htype
      exact ((houtput type htype).1.reads false (.inr (houtput type htype).2)).inside hdepth (by omega)

theorem returns_verbatim (h : StableVerbatim tokens) : Returns (.verbatim tokens) :=
  ⟨h.opens, h.joins, fun plus _ => h.reads plus⟩

end functions

end Grammar

/-! ## Stable types -/

open Grammar

mutual

/-- A stable type is read back wherever its canonical form may stand. -/
theorem Ty.Stable.returns : (type : Ty) → type.Stable → Returns type
  | .path none path, ⟨h, htype⟩ => by
    obtain ⟨name, args, hpath⟩ := Path.Stable.returns path h
    exact returns_path hpath htype
  | .reference lifetime mutable target, ⟨h, htight⟩ =>
    returns_reference (Ty.Stable.returns target h) htight lifetime mutable
  | .pointer mutable target, ⟨h, htight⟩ =>
    returns_pointer (Ty.Stable.returns target h) htight mutable
  | .slice element, h => returns_slice (Ty.Stable.returns element h)
  | .array element length, ⟨h, hlength⟩ => returns_array (Ty.Stable.returns element h) hlength
  | .tuple elements trailing, h => returns_tuple (StableTypes.returns elements h) trailing
  | .paren inner, h => by
    have hinner := Ty.Stable.returns inner h
    exact ⟨hinner.opens, hinner.joins, hinner.reads⟩
  | .never, _ => returns_never
  | .inferred, _ => returns_inferred
  | .object keyword bounds trailing, ⟨h, hne, hleads⟩ => by
    have hbounds := StableBounds.returns objectContext bounds h
    have hkept : ∀ bound ∈ kept bounds, BoundReturns objectContext bound := fun bound hbound =>
      hbounds bound (List.mem_of_mem_filter hbound)
    cases keyword with
    | true => exact returns_dyn hkept hne trailing
    | false => exact returns_sum hkept (hleads.resolve_left (by decide)) trailing
  | .anonymous bounds trailing, ⟨h, htrait⟩ =>
    returns_anonymous (StableBounds.returns anonymousContext bounds h) htrait trailing
  | .function head params trailing tail output, ⟨hhead, hparams, htail, hseparate, houtput⟩ =>
    returns_function hhead (StableParams.returns true params hparams) htail hseparate
      (StableOutput.returns output houtput)
  | .invocation path delimiter body, ⟨⟨h, htype, hplain⟩, hbody⟩ => by
    obtain ⟨name, args, hpath⟩ := Path.Stable.returns path h
    exact returns_invocation hpath htype hplain hbody delimiter
  | .verbatim tokens, h => returns_verbatim h

theorem StableTypes.returns : (types : List Ty) → StableTypes types → ∀ type ∈ types, Returns type
  | [], _ => by simp
  | type :: rest, ⟨h, hrest⟩ =>
    List.forall_mem_cons.2 ⟨Ty.Stable.returns type h, StableTypes.returns rest hrest⟩

theorem StableOutput.returns : (output : Option Ty) → StableOutput output →
    ∀ type ∈ output, Returns type ∧ type.isTight = true
  | none, _ => nofun
  | some type, ⟨h, htight⟩ => by
    rintro _ ⟨⟩
    exact ⟨Ty.Stable.returns type h, htight⟩

theorem Path.Stable.returns : (path : Path) → path.Stable → ∃ name args, PathReturns path name args
  | .mk absolute segments, h => by
    obtain ⟨name, args, herased, hlast, hname, hargs⟩ := StableSegments.returns segments h
    exact ⟨name, args, congrArg (Path.mk false) herased, hlast, hname, hargs⟩

theorem StableSegments.returns : (segments : List Segment) → StableSegments segments →
    ∃ name args, eraseSegments segments = [.mk name (eraseArgs args)] ∧
      segments.getLast? = some (.mk name args) ∧ IsPathName name ∧ ArgsReturn name args
  | [.mk name args], ⟨hname, h⟩ => ⟨name, args, rfl, rfl, hname, Args.Stable.returns name args h⟩
  | .mk _ _ :: next :: rest, h => by
    obtain ⟨name, args, herased, hlast, hname, hargs⟩ := StableSegments.returns (next :: rest) h
    exact ⟨name, args, herased, by rw [List.getLast?_cons_cons, hlast], hname, hargs⟩

theorem Args.Stable.returns (name : String) : (args : Args) → args.Stable name → ArgsReturn name args
  | .none, _ => argsReturn_none
  | .angle (.mk colons args trailing), ⟨hname, h⟩ =>
    argsReturn_angle hname (StableArgs.returns args h) colons trailing
  | .call inputs trailing output, ⟨hinputs, houtput⟩ =>
    argsReturn_call (StableTypes.returns inputs hinputs)
      (StableOutput.returns output houtput) trailing

theorem StableArgs.returns : (args : List Arg) → StableArgs args → ∀ arg ∈ args, ArgReturns arg
  | [], _ => by simp
  | .lifetime name :: rest, ⟨hname, hrest⟩ =>
    List.forall_mem_cons.2 ⟨argReturns_lifetime hname, StableArgs.returns rest hrest⟩
  | .type type :: rest, ⟨h, hrest⟩ =>
    List.forall_mem_cons.2 ⟨argReturns_type (Ty.Stable.returns type h), StableArgs.returns rest hrest⟩
  | .value code :: rest, ⟨h, hrest⟩ =>
    List.forall_mem_cons.2 ⟨argReturns_value h, StableArgs.returns rest hrest⟩
  | .typeBinding name args type :: rest, ⟨⟨hinner, h⟩, hrest⟩ =>
    List.forall_mem_cons.2 ⟨argReturns_typeBinding (StableInner.returns name args hinner)
      (Ty.Stable.returns type h), StableArgs.returns rest hrest⟩
  | .valueBinding name args code :: rest, ⟨⟨hinner, h⟩, hrest⟩ =>
    List.forall_mem_cons.2 ⟨argReturns_valueBinding (StableInner.returns name args hinner) h,
      StableArgs.returns rest hrest⟩
  | .constraint name args bounds trailing :: rest, ⟨⟨hinner, h⟩, hrest⟩ =>
    List.forall_mem_cons.2 ⟨argReturns_constraint (StableInner.returns name args hinner)
      (StableBounds.returns parameterContext bounds h) trailing, StableArgs.returns rest hrest⟩

theorem StableInner.returns (name : String) : (args : Option AngleArgs) → StableInner name args →
    InnerReturns name args
  | none, ⟨hname, htry⟩ => innerReturns hname htry nofun
  | some (.mk colons args trailing), ⟨⟨hname, htry⟩, htakes, h⟩ => by
    have hargs := StableArgs.returns args h
    refine innerReturns hname htry ?_
    rintro _ _ _ ⟨⟩
    exact ⟨htakes, hargs⟩

theorem Bound.Stable.returns (context : BoundContext) : (bound : Bound) → bound.Stable context →
    BoundReturns context bound
  | .lifetime _, hname => boundReturns_lifetime hname
  | .trait parens head path, ⟨hhead, h⟩ => by
    obtain ⟨name, args, hpath⟩ := Path.Stable.returns path h
    exact boundReturns_trait hhead hpath parens
  | .verbatim _, h => boundReturns_verbatim h

theorem StableBounds.returns (context : BoundContext) : (bounds : List Bound) →
    StableBounds context bounds → ∀ bound ∈ bounds, BoundReturns context bound
  | [], _ => by simp
  | bound :: rest, ⟨h, hrest⟩ =>
    List.forall_mem_cons.2 ⟨Bound.Stable.returns context bound h, StableBounds.returns context rest hrest⟩

theorem StableParams.returns (first : Bool) : (params : List Param) → StableParams first params →
    ParamsReturn first params
  | [], _ => trivial
  | .mk head type :: rest, ⟨h, hrest⟩ => by
    refine ⟨?_, (StableParams.returns false rest hrest).all⟩
    rcases h with ⟨hhead, h⟩ | h
    · exact paramReturns_of_type hhead (Ty.Stable.returns type h)
    · exact ⟨h.joins, h.reads⟩

end

end Source

/-! ## Reading the canonical form -/

namespace TokenTree

variable {α β : Type}

mutual

theorem size_map (f : α → β) : ∀ tree : TokenTree α, size (tree.map f) = size tree
  | leaf _ => rfl
  | group _ body => congrArg (· + 1) (sizeList_mapList f body)

theorem sizeList_mapList (f : α → β) : ∀ trees : List (TokenTree α),
    sizeList (mapList f trees) = sizeList trees
  | [] => rfl
  | tree :: rest => congrArg₂ (· + ·) (size_map f tree) (sizeList_mapList f rest)

end

end TokenTree

namespace Source

open Grammar

/-- Trees are as many as the tokens that they were written of. -/
theorem Grammar.Written.sizeList {tokens : List (TokenTree Token)} {trees : Trees}
    (h : Written tokens trees) : TokenTree.sizeList trees = TokenTree.sizeList tokens := by
  have hbare := congrArg TokenTree.sizeList (Token.bare_rejoin tokens)
  rw [bare, bare, TokenTree.sizeList_mapList, TokenTree.sizeList_mapList] at hbare
  rw [← hbare, ← show trees.tokens = Token.rejoin tokens from h, Trees.tokens,
    TokenTree.sizeList_mapList]

/-- The canonical form of a stable type is read as a type of that canonical form. -/
theorem Ty.Stable.readType_canonical {type : Ty} (h : type.Stable) :
    ∃ again, readType type.canonical = .ok again ∧ again.canonical = type.canonical := by
  have hreturns := Ty.Stable.returns type h
  obtain ⟨trees, hlex, hwritten⟩ :=
    Option.map_eq_some_iff.1 (Token.lexedAs_compact hreturns.joins.apart)
  -- `readType` takes rules as deep as the trees are many, and they are as many as the tokens.
  have hsize := Written.sizeList hwritten
  have hreads : TypeRereads (Rules.for trees) true type :=
    hreturns.reads true (.inl rfl) _ (by rw [hsize])
  obtain ⟨again, pieces, behind, hbare, hbehind, hrun⟩ :=
    hreads [] stops_nil trees (by rwa [List.append_nil])
  obtain rfl := hbehind.nil
  refine ⟨again, ?_, Token.compact_eq_of_bare hbare⟩
  rw [readType, read, Ty.canonical, hlex]
  show readTrees _ trees = _
  rw [readTrees, whole, hrun]
  rfl

end Source

end Bindery
