import Bindery.Proofs.Source.Rereading.Paths
/-!
# Bounds are read back

A list of bounds is read back if each of them is (`BoundRereads`), whichever rule reads the list. A
bound is a lifetime, or a trait: what stands in front of its path, the path, and the arguments of a
call behind it.
-/

namespace Bindery.Source

/-- Whether a bound is a trait, as an anonymous type needs one. -/
def Bound.isTrait : Bound → Bool
  | trait _ _ _ => true
  | verbatim (.token (.ident "use") :: _) => false
  | verbatim _ => true
  | lifetime _ => false

/-- How a bound is written, but for what is joined, and what it is. -/
def Bound.spelled (bound : Bound) : List (TokenTree Token) × Bool × Bool :=
  (bare bound.erase.tokens, bound.isLifetime, bound.isTrait)

namespace Grammar

open Token (isIdent)

variable {rules : Rules} {name : String} {tokens rest : List (TokenTree Token)}

/-! ## Lists of bounds -/

/-- A bound is read back in front of what may follow it. -/
structure BoundRereads (grammar : Grammar Bound) (context : BoundContext) (bound : Bound) :
    Prop where
  stands : ∀ more, Ahead.bound context (front (bound.erase.tokens ++ more)) = true
  mark : mark? bound.erase.tokens ∈ [none, some '?', some '\x27']
  reads : ∀ more, Stops false more → Rereads grammar bound.erase.tokens more
    fun again _ => again.spelled = bound.spelled

variable {grammar : Grammar Bound} {context : BoundContext} {bound : Bound}

theorem BoundRereads.ne_nil (h : BoundRereads grammar context bound) : bound.erase.tokens ≠ [] := by
  intro hnil
  have hstands := h.stands []
  rw [hnil] at hstands
  rcases context with ⟨_ | _, _⟩ <;> exact nomatch hstands

theorem BoundRereads.op (h : BoundRereads grammar context bound) {text : String}
    (htext : text.toList.head? ∉ [none, some '?', some '\x27']) (more : List (TokenTree Token)) :
    Ahead.op text (front (bound.erase.tokens ++ more)) = false :=
  op_of_mark? (mark?_append h.ne_nil more) fun heq => htext (heq ▸ h.mark)

/-- What `boundList` repeats. -/
def boundListStep (stop : Trees → Bool) (grammar : Grammar Bound) :
    List Bound × Bool → Grammar (Option (List Bound × Bool)) := fun (bounds, more) => do
  if !more || (← ahead stop) then return none
  let bound ← grammar
  return some (bound :: bounds, ← op? "+")

/-- The bounds of a constraint are read back in front of what ends the argument. -/
theorem rereads_boundList {bounds : List Bound}
    (hbounds : ∀ bound ∈ bounds, BoundRereads grammar context bound) (trailing : Bool)
    (ends : ArgEnds rest) :
    Rereads (boundList Ahead.endsConstraint grammar)
      (separated (operator "+") trailing (bounds.map (·.erase.tokens))) rest fun found _ =>
        found.1.map Bound.spelled = bounds.map Bound.spelled ∧
          found.2 = (trailing && !bounds.isEmpty) := by
  have hends : Ahead.endsConstraint (front rest) = true := by
    cases ends <;> rfl
  have hgoes : ∀ bound ∈ bounds, ∀ more,
      Ahead.endsConstraint (front (bound.erase.tokens ++ more)) = false :=
        fun bound hbound more => by
    simp [Ahead.endsConstraint, Ahead.anyOp, (hbounds bound hbound).op]
  have hdone : ∀ values more, Rereads (boundListStep Ahead.endsConstraint grammar (values, more)) []
      rest fun next pieces => next = none ∧ pieces = [] := by
    intro values more
    refine .ahead (f := true) hends ?_
    rw [Bool.or_true, if_pos rfl]
    exact .pure ⟨rfl, rfl⟩
  have hloop : Loops (boundListStep Ahead.endsConstraint grammar) ([], true)
      (separated (operator "+") trailing (bounds.map (·.erase.tokens))) rest fun last _ => ∃ found,
        List.Forall₂ (fun bound again => again.spelled = bound.spelled) bounds found ∧
          last = (found.reverse ++ [], trailing || bounds.isEmpty) := by
    refine .items (fun bound hbound => (hbounds bound hbound).ne_nil) ?more ?last
      (fun values => hdone values false) (fun _ value values => hdone _ true)
        (fun _ => hdone _ true)
    case more =>
      intro _ bound hbound values behind
      refine .ahead (f := false) (by rw [List.append_assoc, hgoes bound hbound]) ?_
      rw [Bool.or_false, if_neg (by decide)]
      refine .bind ((hbounds bound hbound).reads _ (stops_sum behind)) fun again _ hagain => ?_
      refine (Rereads.op?_true (by decide)).bindAll ?_
      rintro _ _ ⟨rfl, -⟩
      exact .pure ⟨again, hagain, rfl⟩
    case last =>
      intro _ bound hbound values
      refine .ahead (f := false) (hgoes bound hbound _) ?_
      rw [Bool.or_false, if_neg (by decide)]
      refine .bindAll ((hbounds bound hbound).reads _ ends.stops.loosen) fun again _ hagain => ?_
      refine (Rereads.op?_false (ends.op (by decide))).bindAll ?_
      rintro _ _ ⟨rfl, -⟩
      exact .pure ⟨again, hagain, rfl⟩
  refine hloop.loop.bindAll ?_
  rintro _ pieces ⟨found, hfound, rfl⟩
  refine .pure ⟨?_, ?_⟩
  · simpa using map_eq_of_forall₂ hfound fun _ _ h => h
  · cases hfound <;> simp

theorem Stops.endsBounds {plus : Bool} (stops : Stops plus rest) (context : BoundContext) :
    Ahead.bound context (front rest) = false := by
  have hrelaxed : Ahead.op "?" (front rest) = false := stops.op rfl (by decide)
  simp [Ahead.bound, stops.anyIdent, stops.colons, stops.lifetime, stops.group, stops.word,
    hrelaxed]

/-- What `boundsWith` repeats. -/
def boundsStep (rules : Rules) (context : BoundContext) (plus : Bool) :
    List Bound × Bool → Grammar (Option (List Bound × Bool)) := fun (bounds, more) => do
  if !more then return none
  if !bounds.isEmpty && !(← ahead (Ahead.bound context)) then return none
  let bound ← boundWith rules context
  let more ← if plus then op? "+" else pure false
  return some (bound :: bounds, more)

/-- The bounds of a type are read back, several of them or a plus sign at their end only where a
plus sign cannot belong to something else. -/
theorem rereads_boundsWith {bounds : List Bound} {plus trailing : Bool}
    (hbounds : ∀ bound ∈ bounds, BoundRereads (boundWith rules context) context bound)
    (hplus : plus = true ∧ bounds ≠ [] ∨ trailing = false ∧ bounds.length = 1)
    (stops : Stops plus rest) :
    Rereads (boundsWith rules context plus)
      (separated (operator "+") trailing (bounds.map (·.erase.tokens))) rest fun found _ =>
        found.1.map Bound.spelled = bounds.map Bound.spelled ∧ found.2 = trailing := by
  have hne : bounds ≠ [] := by
    rcases hplus with ⟨-, hne⟩ | ⟨-, hlength⟩
    · exact hne
    · rintro rfl
      cases hlength
  have hloop : Loops (boundsStep rules context plus) ([], true)
      (separated (operator "+") trailing (bounds.map (·.erase.tokens))) rest fun last _ => ∃ found,
        List.Forall₂ (fun bound again => again.spelled = bound.spelled) bounds found ∧
          last = (found.reverse ++ [], trailing || bounds.isEmpty) := by
    refine .items (fun bound hbound => (hbounds bound hbound).ne_nil) ?more ?last
      (fun values => .pure ⟨rfl, rfl⟩) ?closed (fun hnil => absurd hnil hne)
    case more =>
      intro hseveral bound hbound values behind
      have hsum : plus = true := by
        rcases hplus with ⟨hsum, -⟩ | ⟨hclosed, hlength⟩
        · exact hsum
        · simp [hclosed, hlength] at hseveral
      refine .ahead (f := true) (by rw [List.append_assoc, (hbounds bound hbound).stands]) ?_
      rw [Bool.not_true, Bool.and_false, if_neg (by decide)]
      refine .bind ((hbounds bound hbound).reads _ (stops_sum behind)) fun again _ hagain => ?_
      rw [if_pos hsum]
      refine (Rereads.op?_true (by decide)).bindAll ?_
      rintro _ _ ⟨rfl, -⟩
      exact .pure ⟨again, hagain, rfl⟩
    case last =>
      intro _ bound hbound values
      refine .ahead (f := true) ((hbounds bound hbound).stands _) ?_
      rw [Bool.not_true, Bool.and_false, if_neg (by decide)]
      refine .bindAll ((hbounds bound hbound).reads _ stops.loosen) fun again _ hagain => ?_
      cases hsum : plus with
      | false => exact .pure ⟨again, hagain, rfl⟩
      | true =>
        refine (Rereads.op?_false (stops.sum hsum)).bindAll ?_
        rintro _ _ ⟨rfl, -⟩
        exact .pure ⟨again, hagain, rfl⟩
    -- Behind a plus sign at the end, the loop looks for another bound and finds none.
    case closed =>
      intro _ value values
      refine .ahead (f := false) (stops.endsBounds context) ?_
      exact .pure ⟨rfl, rfl⟩
  refine hloop.loop.bindAll ?_
  rintro _ pieces ⟨found, hfound, rfl⟩
  refine .pure ⟨?_, ?_⟩
  · simpa using map_eq_of_forall₂ hfound fun _ _ h => h
  · simp [hne]

/-- What `moreBounds` repeats. -/
def moreBoundsStep (rules : Rules) (strict : Bool) :
    List Bound × Bool → Grammar (Option (List Bound × Bool)) := fun (bounds, more) => do
  if !more then return none
  if !(← op? "+") then return none
  if !strict && !(← ahead (Ahead.bound objectContext)) then return some (bounds, false)
  return some ((← boundWith rules objectContext) :: bounds, true)

/-- Further bounds are read back, each behind a plus sign. -/
theorem rereads_moreBounds {bounds : List Bound} (strict : Bool) (first : Bound)
    (hbounds : ∀ bound ∈ bounds, BoundRereads (boundWith rules objectContext) objectContext bound)
    (stops : Stops true rest) :
    Rereads (moreBounds rules strict first)
      (bounds.flatMap fun bound => operator "+" ++ bound.erase.tokens) rest fun found _ =>
        ∃ more, found = .object false (first :: more) false ∧
          more.map Bound.spelled = bounds.map Bound.spelled := by
  have hloop : ∀ values, Loops (moreBoundsStep rules strict) (values, true)
      (bounds.flatMap fun bound => operator "+" ++ bound.erase.tokens) rest fun last _ => ∃ found,
        List.Forall₂ (fun bound again => again.spelled = bound.spelled) bounds found ∧
          last = (found.reverse ++ values, true) := by
    induction bounds with
    | nil =>
      refine fun values => .done ?_ ⟨[], .nil, rfl⟩
      refine (Rereads.op?_false (stops.sum rfl)).bindAll ?_
      rintro _ _ ⟨rfl, rfl⟩
      exact .pure ⟨rfl, rfl⟩
    | cons bound bounds ih =>
      obtain ⟨hbound, hmore⟩ := List.forall_mem_cons.1 hbounds
      intro values
      rw [List.flatMap_cons]
      refine .more (m := fun found _ => ∃ again, again.spelled = bound.spelled ∧
        found = (again :: values, true)) (List.cons_ne_nil _ _) ?_ ?_
      · refine .bind (.op?_true (by decide)) ?_
        rintro _ _ ⟨rfl, -⟩
        refine .ahead (f := true) (hbound.stands _) ?_
        rw [Bool.not_true, Bool.and_false, if_neg (by decide)]
        refine .bindAll (hbound.reads _ ?_) fun again _ hagain =>
          .pure ⟨_, rfl, again, hagain, rfl⟩
        cases bounds with
        | nil => exact stops.loosen
        | cons => exact stops_sum _
      · rintro _ _ ⟨again, hagain, rfl⟩ fuel hfuel
        refine (ih hmore (again :: values) fuel hfuel).imp ?_
        rintro _ _ ⟨found, hfound, rfl⟩
        exact ⟨again :: found, .cons hagain hfound, by simp⟩
  refine (hloop [first]).loop.bindAll ?_
  rintro _ _ ⟨found, hfound, rfl⟩
  refine .pure ⟨found, by simp, ?_⟩
  exact map_eq_of_forall₂ hfound fun _ _ h => h

/-! ## Calls -/

/-- Types between commas are read back up to the end of their brackets. -/
theorem rereads_types {types : List Ty}
    (htypes : ∀ type ∈ types, opensType type.erase.tokens = true ∧ TypeRereads rules true type)
    (trailing : Bool) :
    Rereads (terminated (rules.type true))
      (separated (operator ",") trailing (types.map (·.erase.tokens))) [] fun found _ =>
        (found.1.map fun type => bare type.erase.tokens) =
          (types.map fun type => bare type.erase.tokens) ∧
        found.2 = (trailing && !types.isEmpty) := by
  have hgoes : ∀ type ∈ types, type.erase.tokens ≠ [] := fun type htype =>
    ne_nil_of_opensType (htypes type htype).1
  refine (rereads_separatedBy trailing (by decide) rfl
    (fun more => isEmpty_front _) fun type htype => ⟨hgoes type htype, fun more => ?_,
      fun more hmore => (htypes type htype).2 more ?_⟩).imp ?_
  · rw [isEmpty_front]
    simp [hgoes type htype]
  · rcases hmore with rfl | ⟨behind, rfl⟩
    · exact stops_nil
    · exact (ArgEnds.comma behind).stops
  · rintro found _ ⟨hfound, hclosed⟩
    exact ⟨map_eq_of_forall₂ hfound fun _ _ h => h, hclosed⟩

theorem rereads_returnType {plus : Bool} {output : Option Ty}
    (houtput : ∀ type ∈ output, TypeRereads rules plus type) (stops : Stops plus rest) :
    Rereads (returnType rules plus) (outputTokens (eraseOutput output)) rest fun again _ =>
      bare (outputTokens (eraseOutput again)) = bare (outputTokens (eraseOutput output)) := by
  cases output with
  | none =>
    refine .bindNone (.op?_false (stops.op rfl (by decide))) ?_
    rintro _ _ ⟨rfl, -⟩
    exact .pure rfl
  | some type =>
    refine .bind (.op?_true (by decide)) ?_
    rintro _ _ ⟨rfl, -⟩
    refine .bindAll (houtput type rfl rest stops) fun again _ hagain => .pure ?_
    simp only [eraseOutput, outputTokens, bare_append, hagain]

theorem separated_nonempty (separator : List (TokenTree Token)) (trailing : Bool)
    (items : List (List (TokenTree Token))) :
    separated separator (trailing && !items.isEmpty) items = separated separator trailing items := by
  cases items with
  | nil => rfl
  | cons => rw [List.isEmpty_cons, Bool.not_false, Bool.and_true]

theorem bare_call {inputs again : List Ty} {output result : Option Ty} (trailing : Bool)
    (hinputs : (again.map fun type => bare type.erase.tokens) =
      inputs.map fun type => bare type.erase.tokens)
    (houtput : bare (outputTokens (eraseOutput result)) = bare (outputTokens (eraseOutput output))) :
    bare (argsTokens .asWritten (eraseArgs (.call again (trailing && !inputs.isEmpty) result))) =
      bare (argsTokens .asWritten (eraseArgs (.call inputs trailing output))) := by
  have hitems : (inputs.isEmpty) = (inputs.map fun type =>
    bare type.erase.tokens).isEmpty := by simp
  simp only [eraseArgs, argsTokens, tyListTokens_eraseTypes, bare_group, bare_separated,
    List.map_map, Function.comp_def, hinputs, houtput, List.singleton_append, hitems,
    separated_nonempty]

/-- The arguments of a call are read back. -/
theorem rereads_callArgs {inputs : List Ty} {output : Option Ty} {trailing : Bool}
    (hinputs : ∀ type ∈ inputs, opensType type.erase.tokens = true ∧ TypeRereads rules true type)
    (houtput : ∀ type ∈ output, TypeRereads rules false type) (stops : Stops false rest) :
    Rereads (callArgs rules) (argsTokens .asWritten (eraseArgs (.call inputs trailing output))) rest
      fun again _ => bare (argsTokens .asWritten (eraseArgs again)) =
        bare (argsTokens .asWritten (eraseArgs (.call inputs trailing output))) := by
  rw [eraseArgs, argsTokens, tyListTokens_eraseTypes]
  refine .bind (.within (rereads_types hinputs trailing)) ?_
  rintro ⟨again, closed⟩ _ ⟨_, ⟨hagain, hclosed⟩, -⟩
  refine .bindAll (rereads_returnType houtput stops) fun result _ hresult => .pure ?_
  rw [show closed = (trailing && !inputs.isEmpty) from hclosed, bare_call trailing hagain hresult]
  rw [eraseArgs, argsTokens, tyListTokens_eraseTypes]

/-! ## Traits -/

/-- The parameters that `for` binds are read back. -/
structure BinderRereads (rules : Rules) (tokens : List (TokenTree Token)) : Prop where
  begins : ∃ more, tokens = word "for" ++ (operator "<" ++ more)
  reads : ∀ more, Rereads (binder rules) tokens more fun _ pieces =>
    bare (codeTokens (eraseCode pieces.reverse)) = bare tokens

/-- What stands in front of the path of a trait is read back: nothing, a question mark, or what
`for` binds. -/
inductive HeadRereads (rules : Rules) : List (TokenTree Token) → Prop where
  | nothing : HeadRereads rules []
  | relaxed : HeadRereads rules (operator "?")
  | binder {tokens : List (TokenTree Token)} (h : BinderRereads rules tokens) :
    HeadRereads rules tokens

theorem rereads_binder?_false (h : Ahead.word "for" (front rest) = false) :
    Rereads (binder? rules) [] rest fun found pieces => found = false ∧ pieces = [] := by
  refine .ahead (f := false) h ?_
  rw [if_neg (by decide)]
  exact .pure ⟨rfl, rfl⟩

theorem BinderRereads.binder? (h : BinderRereads rules tokens) :
    Rereads (binder? rules) tokens rest fun found pieces => found = true ∧
      bare (codeTokens (eraseCode pieces.reverse)) = bare tokens := by
  obtain ⟨more, hbegins⟩ := h.begins
  refine .ahead (f := true) (by rw [hbegins]; rfl) ?_
  rw [if_pos rfl]
  refine .bindAll (h.reads rest) fun _ pieces hpieces => .pure ⟨rfl, ?_⟩
  simpa using hpieces

/-- The arguments of a trait are read back. -/
inductive TraitArgsReread (rules : Rules) (name : String) : Args → Prop where
  | plain {args : Args}
      (takes : argsTokens .asWritten (eraseArgs args) ≠ [] → name = "Self" ∨ name ∉ pathWords)
      (h : ArgsReread rules (fun again => bare (argsTokens .asWritten (eraseArgs again)) =
          bare (argsTokens .asWritten (eraseArgs args))) (argsTokens .asWritten (eraseArgs args))) :
      TraitArgsReread rules name args
  | call {inputs : List Ty} {trailing : Bool} {output : Option Ty}
      (hinputs : ∀ type ∈ inputs, opensType type.erase.tokens = true ∧ TypeRereads rules true type)
      (houtput : ∀ type ∈ output, TypeRereads rules false type) :
      TraitArgsReread rules name (.call inputs trailing output)

/-- The path of a trait with its arguments, those of a call after the path. -/
def traitPath (rules : Rules) (verbatim : Bool) (head : List Piece) :
    Grammar (Bool × List Piece × Path) := do
  let path ← pathWith rules false
  let trees ← look
  if Path.takesCall path && (Ahead.group .paren trees ||
      Ahead.op "::" trees && Ahead.group .paren (Ahead.skip (Ahead.skip trees))) then
    let _ ← op? "::"
    return (verbatim, head, Path.withCall (← callArgs rules) path)
  else return (verbatim, head, path)

theorem rereads_traitPath {args : Args} (hname : IsPathName name)
    (hargs : TraitArgsReread rules name args) (verbatim : Bool) (head : List Piece)
    (stops : Stops false rest) :
    Rereads (traitPath rules verbatim head)
      (word name ++ argsTokens .asWritten (eraseArgs args)) rest fun found _ =>
        ∃ path, found = (verbatim, head, path) ∧
          bare (qualify none (nameTokens .asWritten path.erase)) =
            bare (word name ++ argsTokens .asWritten (eraseArgs args)) := by
  cases hargs with
  | plain takes h =>
    refine .bindAll (rereads_pathWith hname h takes stops.endsName) ?_
    rintro _ _ ⟨again, rfl, hagain⟩
    refine .look fun trees hwritten => ?_
    have hparen : Ahead.group .paren trees = false :=
      (hwritten.eq (Ahead.group .paren)).trans (stops.group .paren)
    have hcolons : Ahead.op "::" trees = false := (hwritten.eq (Ahead.op "::")).trans stops.colons
    rw [hparen, hcolons, Bool.false_and, Bool.or_false, Bool.and_false, if_neg (by decide)]
    refine .pure ⟨_, rfl, ?_⟩
    rw [Path.erase, eraseSegments, tokens_single, bare_append, bare_append, hagain]
  | @call inputs trailing output hinputs houtput =>
    have hends : EndsName (argsTokens .asWritten (eraseArgs (.call inputs trailing output)) ++ rest) :=
      ⟨op_of_mark? (d := none) rfl (by decide), op_of_mark? (d := none) rfl (by decide)⟩
    have hpath : Rereads (pathWith rules false) (word name ++ [])
        (argsTokens .asWritten (eraseArgs (.call inputs trailing output)) ++ rest) fun path _ =>
          ∃ args, path = .mk false [.mk name args] ∧ args = .none :=
      rereads_pathWith hname (.none rfl) (absurd rfl) hends
    rw [List.append_nil] at hpath
    refine .bind hpath ?_
    rintro _ _ ⟨_, rfl, rfl⟩
    refine .look fun trees hwritten => ?_
    have htakes : Path.takesCall (.mk false [.mk name .none]) = true := rfl
    have hparen : Ahead.group .paren trees = true := hwritten.eq (Ahead.group .paren)
    rw [htakes, hparen, Bool.true_or, Bool.and_true, if_pos rfl]
    refine .bindNone (.op?_false hends.colons) fun _ _ _ => ?_
    refine .bindAll (rereads_callArgs hinputs houtput stops) fun again _ hagain =>
      .pure ⟨.mk false [.mk name again], rfl, ?_⟩
    rw [Path.erase, eraseSegments, tokens_single, bare_append, bare_append, hagain]

theorem rereads_traitBound {args : Args} {head : List (TokenTree Token)} (hname : IsPathName name)
    (hhead : HeadRereads rules head) (hargs : TraitArgsReread rules name args)
    (stops : Stops false rest) :
    Rereads (traitBound rules context)
      (head ++ (word name ++ argsTokens .asWritten (eraseArgs args))) rest fun found _ =>
        found.1 = false ∧
          bare (codeTokens (eraseCode found.2.1) ++
              qualify none (nameTokens .asWritten found.2.2.erase)) =
            bare (head ++ (word name ++ argsTokens .asWritten (eraseArgs args))) := by
  have hfor : name ≠ "for" := IsPathName.ne_of_mem hname (by decide) (by decide)
  have hconst : name ≠ "const" := IsPathName.ne_of_mem hname (by decide) (by decide)
  refine .bind (.recording (p := fun verbatim pieces => verbatim = false ∧
    bare (codeTokens (eraseCode pieces)) = bare head) ?head) ?path
  case head =>
    rw [List.append_assoc]
    cases hhead with
    | nothing =>
      refine .bindNone (rereads_binder?_false (by simpa [word_word] using hfor)) ?_
      rintro _ _ ⟨rfl, rfl⟩
      refine .ahead (f := false) rfl (.ahead (f := false) (by simpa [word_word] using hconst) ?_)
      rw [if_neg (by decide), if_neg (by decide)]
      refine .bindNone (.op?_false (op_word _ _ _)) ?_
      rintro _ _ ⟨rfl, rfl⟩
      exact .pure ⟨rfl, rfl⟩
    | relaxed =>
      refine .bindNone (rereads_binder?_false rfl) ?_
      rintro _ _ ⟨rfl, rfl⟩
      refine .ahead (f := false) rfl (.ahead (f := false) rfl ?_)
      rw [if_neg (by decide), if_neg (by decide)]
      refine .bindAll (.op?_true (by decide)) ?_
      rintro _ _ ⟨rfl, rfl⟩
      exact .pure ⟨rfl, rfl⟩
    | binder h =>
      refine .bindAll h.binder? ?_
      rintro _ _ ⟨rfl, hpieces⟩
      refine .ahead (f := false) rfl (.ahead (f := false) (by simpa [word_word] using hconst) ?_)
      rw [if_neg (by decide), if_neg (by decide)]
      refine .bindNone (.op?_false (op_word _ _ _)) ?_
      rintro _ _ ⟨rfl, rfl⟩
      exact .pure ⟨rfl, by simpa using hpieces⟩
  case path =>
    rintro ⟨_, pieces⟩ _ ⟨⟨rfl, hpieces⟩, rfl⟩
    refine (rereads_traitPath hname hargs false pieces stops).imp ?_
    rintro _ _ ⟨path, rfl, hpath⟩
    refine ⟨rfl, ?_⟩
    rw [bare_append, bare_append, hpieces, hpath]

/-! ## One bound -/

theorem BoundRereads.lifetime (rules : Rules) (context : BoundContext) (name : String) :
    BoundRereads (boundWith rules context) context (.lifetime name) := by
  have hlifetime : ∀ more, Ahead.lifetime (front ((Bound.lifetime name).erase.tokens ++ more)) = true :=
    fun _ => rfl
  refine ⟨fun more => by simp [Ahead.bound, hlifetime], ?_, fun more _ => ?_⟩
  · have hmark : mark? (Bound.lifetime name).erase.tokens = some '\x27' := rfl
    rw [hmark]
    decide
  · refine .look fun trees hwritten => ?_
    rw [(hwritten.eq Ahead.lifetime).trans (hlifetime more), if_pos rfl]
    refine (Rereads.lifetime name).bindAll ?_
    rintro _ _ ⟨rfl, -⟩
    exact .pure rfl

/-- What a trait begins with, where it is not between parentheses. -/
theorem HeadRereads.begins {head : List (TokenTree Token)} (hhead : HeadRereads rules head)
    (hname : IsPathName name) (more : List (TokenTree Token)) :
    (∀ context, Ahead.bound context (front (head ++ (word name ++ more))) = true) ∧
      mark? (head ++ (word name ++ more)) ∈ [none, some '?'] ∧
      Ahead.word "use" (front (head ++ (word name ++ more))) = false ∧
      Ahead.lifetime (front (head ++ (word name ++ more))) = false ∧
      Ahead.group .paren (front (head ++ (word name ++ more))) = false := by
  have huse : name ≠ "use" := IsPathName.ne_of_mem hname (by decide) (by decide)
  have hword : ∀ (first : String) (more : List (TokenTree Token)) (context : BoundContext),
      Ahead.bound context (front (word first ++ more)) = true := fun _ _ _ => rfl
  cases hhead with
  | nothing => exact ⟨hword _ _, by simp [word, mark?], by simpa [word_word] using huse, rfl, rfl⟩
  | relaxed =>
    have hop : ∀ more, Ahead.op "?" (front (operator "?" ++ more)) = true := op_front (by decide)
    exact ⟨fun _ => by simp [Ahead.bound, hop], by simp [operator, operatorChars, mark?], rfl, rfl, rfl⟩
  | binder h =>
    obtain ⟨behind, rfl⟩ := h.begins
    rw [List.append_assoc]
    exact ⟨hword _ _, by simp [word, mark?], rfl, rfl, rfl⟩

theorem spelled_trait {head found : List Piece} {path again : Path} (parens : Bool)
    (h : bare (codeTokens (eraseCode found) ++ qualify none (nameTokens .asWritten again.erase)) =
      bare (codeTokens (eraseCode head) ++ qualify none (nameTokens .asWritten path.erase))) :
    (Bound.trait parens found again).spelled = (Bound.trait parens head path).spelled := by
  cases parens with
  | true => exact congrArg (fun inside => ([TokenTree.group .paren inside], false, true)) h
  | false => exact congrArg (fun inside => (inside, false, true)) h

theorem BoundRereads.trait {head : List Piece} {path : Path} {args : Args} {parens : Bool}
    (hpath : path.erase = .mk false [.mk name (eraseArgs args)]) (hname : IsPathName name)
    (hhead : HeadRereads rules (codeTokens (eraseCode head)))
    (hargs : TraitArgsReread rules name args) :
    BoundRereads (boundWith rules context) context (.trait parens head path) := by
  have hinside : qualify none (nameTokens .asWritten path.erase) =
      word name ++ argsTokens .asWritten (eraseArgs args) := by
    rw [hpath, tokens_single]
  have hbound : ∀ more, Stops false more → Rereads (traitBound rules context)
      (codeTokens (eraseCode head) ++ qualify none (nameTokens .asWritten path.erase)) more
      fun found _ => found.1 = false ∧ ∀ parens,
        (Bound.trait parens found.2.1 found.2.2).spelled = (Bound.trait parens head path).spelled := by
    intro more stops
    rw [hinside]
    refine (rereads_traitBound hname hhead hargs stops).imp ?_
    rintro found _ ⟨hverbatim, hfound⟩
    exact ⟨hverbatim, fun parens => spelled_trait parens (by rw [hinside]; exact hfound)⟩
  cases parens with
  | true =>
    refine ⟨fun _ => rfl, by rw [Bound.erase, Bound.tokens, if_pos rfl]; exact List.mem_cons_self,
      fun more stops => ?_⟩
    refine .look fun trees hwritten => ?_
    have hlifetime : Ahead.lifetime trees = false := hwritten.eq Ahead.lifetime
    have huse : Ahead.word "use" trees = false := hwritten.eq (Ahead.word "use")
    have hparen : Ahead.group .paren trees = true := hwritten.eq (Ahead.group .paren)
    rw [hlifetime, huse, hparen, if_neg (by decide), if_neg (by decide)]
    refine .bindAll (.spanning (p := fun found => found.1 = false ∧ ∀ parens,
      (Bound.trait parens found.2.1 found.2.2).spelled = (Bound.trait parens head path).spelled) ?_) ?_
    · refine (Rereads.within (hbound [] stops_nil)).imp ?_
      rintro _ _ ⟨_, hfound, -⟩
      exact hfound
    · rintro ⟨⟨_, found, again⟩, taken⟩ _ ⟨⟨⟨rfl, hfound⟩, -⟩, -⟩
      exact .pure (hfound true)
  | false =>
    have htokens : ∀ more, (Bound.trait false head path).erase.tokens ++ more =
        codeTokens (eraseCode head) ++ (word name ++
          (argsTokens .asWritten (eraseArgs args) ++ more)) := by
      intro more
      simp [Bound.erase, Bound.tokens, hinside]
    have hbegins := fun more => hhead.begins hname (argsTokens .asWritten (eraseArgs args) ++ more)
    simp only [← htokens] at hbegins
    refine ⟨fun more => (hbegins more).1 context, ?_, fun more stops => ?_⟩
    · have hmark := (hbegins []).2.1
      rw [List.append_nil] at hmark
      simp only [List.mem_cons, List.not_mem_nil, or_false] at hmark ⊢
      tauto
    obtain ⟨-, -, huse, hlifetime, hparen⟩ := hbegins more
    refine .look fun trees hwritten => ?_
    rw [(hwritten.eq Ahead.lifetime).trans hlifetime, (hwritten.eq (Ahead.word "use")).trans huse,
      (hwritten.eq (Ahead.group .paren)).trans hparen, if_neg (by decide), if_neg (by decide)]
    refine .bindAll (.spanning (p := fun found => found.1 = false ∧ ∀ parens,
      (Bound.trait parens found.2.1 found.2.2).spelled = (Bound.trait parens head path).spelled) ?_) ?_
    · exact hbound more stops
    · rintro ⟨⟨_, found, again⟩, taken⟩ _ ⟨⟨⟨rfl, hfound⟩, -⟩, -⟩
      exact .pure (hfound false)

end Grammar

end Bindery.Source
