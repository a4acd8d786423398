import Bindery.Proofs.Source.Rereading.Bounds
/-!
# Generic arguments are read back

Arguments between brackets are read back if each of them is (`ArgRereads`). Those of a segment are
written without the lifetimes. Those of a binding keep them, and are written with the lifetimes
first.
-/

namespace Bindery.Source

/-- How a generic argument is written, but for what is joined, and whether it is a lifetime. -/
def Arg.spelled (arg : Arg) : Bool × List (TokenTree Token) :=
  (arg.isLifetime, bare arg.erase.tokens.2)

theorem Arg.tokens_erase (arg : Arg) : arg.erase.tokens = (arg.isLifetime, arg.erase.tokens.2) := by
  cases arg <;> rfl

namespace Grammar

open Token (isIdent)

variable {rules : Rules} {name : String} {tokens rest : List (TokenTree Token)}

/-! ## Arguments between brackets -/

/-- A generic argument is read back in front of what ends it. -/
structure ArgRereads (rules : Rules) (arg : Arg) : Prop where
  ne_nil : arg.erase.tokens.2 ≠ []
  begins : mark? arg.erase.tokens.2 ∉ [some '<', some '=', some '>']
  reads : ∀ more, ArgEnds more → Rereads (genericArgument rules) arg.erase.tokens.2 more
    fun again _ => again.spelled = arg.spelled

theorem ArgRereads.op {arg : Arg} (h : ArgRereads rules arg) {text : String}
    (htext : text.toList.head? ∈ [some '<', some '=', some '>']) (more : List (TokenTree Token)) :
    Ahead.op text (front (arg.erase.tokens.2 ++ more)) = false :=
  op_of_mark? (mark?_append h.ne_nil more) fun heq => h.begins (heq ▸ htext)

/-- Generic arguments between angle brackets, all of them with what is inside erased. -/
def angleOf (colons : Bool) (args : List Arg) (trailing : Bool) : List (TokenTree Token) :=
  (if colons then operator "::" else []) ++ operator "<" ++
    separated (operator ",") trailing (args.map (·.erase.tokens.2)) ++ operator ">"

theorem rereads_angleArgs {args : List Arg} (hargs : ∀ arg ∈ args, ArgRereads rules arg)
    (colons trailing : Bool) :
    Rereads (angleArgs rules) (angleOf colons args trailing) rest fun found _ =>
      ∃ again, found = .mk colons again (trailing && !args.isEmpty) ∧
        again.map Arg.spelled = args.map Arg.spelled := by
  have hcolons : ∀ more, Rereads (op? "::") (if colons then operator "::" else [])
      (operator "<" ++ more) fun found _ => found = colons := by
    intro more
    cases colons with
    | true => exact (Rereads.op?_true (by decide)).imp fun _ _ h => h.1
    | false => exact (Rereads.op?_false (op_of_mark? (d := some '<') rfl (by decide))).imp fun _ _ h => h.1
  rw [angleOf, List.append_assoc, List.append_assoc]
  refine .bind (hcolons _) ?_
  rintro _ _ rfl
  refine .bind (Rereads.op (by decide)) fun _ _ _ => ?_
  refine .bind (rereads_separatedBy trailing (by decide) (op_front (by decide) rest)
    (fun more => op_of_mark? (d := some ',') rfl (by decide)) fun arg harg =>
      ⟨(hargs arg harg).ne_nil,
      fun more => (hargs arg harg).op (by decide) more, fun more hmore =>
        (hargs arg harg).reads more ?_⟩) ?_
  · rcases hmore with rfl | ⟨behind, rfl⟩
    · exact .closing _
    · exact .comma _
  · rintro ⟨again, closed⟩ _ ⟨hagain, hclosed⟩
    refine (Rereads.op (by decide)).bindAll fun _ _ _ => .pure ⟨again, ?_, ?_⟩
    · rw [show closed = (trailing && !args.isEmpty) from hclosed]
    · exact map_eq_of_forall₂ hagain fun _ _ h => h

/-- Arguments in angle brackets stand ahead behind a name. -/
theorem angleArgs_angleOf {args : List Arg} (hargs : ∀ arg ∈ args, ArgRereads rules arg)
    (colons trailing : Bool) (rest : List (TokenTree Token)) :
    Ahead.angleArgs false (front (angleOf colons args trailing ++ rest)) = true := by
  cases colons with
  | true => rfl
  | false =>
    have hinside : ∀ text : String, text.toList.head? ∈ [some '<', some '='] → Ahead.op text (front
        (separated (operator ",") trailing (args.map (·.erase.tokens.2)) ++ operator ">" ++ rest)) =
          false := by
      intro text htext
      cases args with
      | nil =>
        refine op_of_mark? (d := some '>') rfl fun heq => ?_
        rw [← heq] at htext
        exact absurd htext (by decide)
      | cons arg more =>
        obtain ⟨behind, hbehind⟩ := separated_head (operator ",") trailing arg.erase.tokens.2
          (more.map (·.erase.tokens.2))
        rw [List.map_cons, hbehind, List.append_assoc, List.append_assoc]
        refine (hargs arg List.mem_cons_self).op ?_ _
        simp only [List.mem_cons, List.not_mem_nil, or_false] at htext ⊢
        tauto
    have hless : Ahead.op "<" (front (angleOf false args trailing ++ rest)) = true := by
      rw [angleOf, if_neg (by decide), List.nil_append, List.append_assoc, List.append_assoc]
      exact op_front (by decide) _
    have hequal : Ahead.op "<=" (front (angleOf false args trailing ++ rest)) = false :=
      op_of_op (t := "=") rfl rfl (by decide) (hinside _ (by decide))
    have hshift : Ahead.op "<<=" (front (angleOf false args trailing ++ rest)) = false :=
      op_of_op (t := "<=") rfl rfl (by decide) (hinside _ (by decide))
    simp only [Ahead.angleArgs, hless, hequal, hshift]
    rfl

/-! ## The arguments of a segment -/

theorem isLifetime_of_spelled {args again : List Arg} (h : again.map Arg.spelled = args.map Arg.spelled)
    (hargs : ∀ arg ∈ args, arg.isLifetime = false) : ∀ arg ∈ again, arg.isLifetime = false := by
  intro arg harg
  have hmem : arg.spelled ∈ args.map Arg.spelled := h ▸ List.mem_map_of_mem harg
  obtain ⟨other, hother, heq⟩ := List.mem_map.1 hmem
  rw [← hargs other hother]
  exact (congrArg Prod.fst heq).symm

theorem bare_of_spelled {args again : List Arg}
    (h : again.map Arg.spelled = args.map Arg.spelled) :
    (again.map (·.erase.tokens.2)).map bare = (args.map (·.erase.tokens.2)).map bare := by
  have hsecond := congrArg (List.map Prod.snd) h
  simpa [Function.comp_def, Arg.spelled] using hsecond

/-- The arguments of a segment that are written of it. -/
def written (args : List Arg) : List Arg :=
  args.filter (!·.isLifetime)

theorem argsTokens_written (args : List Arg) (colons trailing : Bool) :
    argsTokens .asWritten (eraseArgs (.angle (.mk colons args trailing))) =
      argsOf ((written args).map (·.erase.tokens.2)) := by
  refine argsTokens_erase ?_ colons trailing
  rw [eraseArgList_eq, argTokens_eq, List.map_map, List.map_map]
  refine List.map_congr_left fun arg harg => ?_
  have hplain : arg.isLifetime = false := by simpa using List.of_mem_filter harg
  rw [Function.comp_apply, Function.comp_apply, ← hplain]
  exact arg.tokens_erase

theorem argsOf_eq_angleOf {args : List Arg} (hne : args ≠ []) :
    argsOf (args.map (·.erase.tokens.2)) = angleOf false args false := by
  obtain ⟨arg, args, rfl⟩ := List.exists_cons_of_ne_nil hne
  rfl

theorem bare_angleOf {args again : List Arg} (h : again.map Arg.spelled = args.map Arg.spelled)
    (colons trailing : Bool) :
    bare (angleOf colons again trailing) = bare (angleOf colons args trailing) := by
  simp only [angleOf, bare_append, bare_separated, bare_of_spelled h]

/-- The arguments of the last segment of a path are read back. -/
theorem argsReread_written {args : List Arg} (hargs : ∀ arg ∈ written args, ArgRereads rules arg)
    (colons trailing : Bool) :
    ArgsReread rules (fun again => bare (argsTokens .asWritten (eraseArgs again)) =
        bare (argsTokens .asWritten (eraseArgs (.angle (.mk colons args trailing)))))
      (argsTokens .asWritten (eraseArgs (.angle (.mk colons args trailing)))) := by
  rw [argsTokens_written]
  have hplain : ∀ arg ∈ written args, arg.isLifetime = false := fun arg harg => by
    simpa using List.of_mem_filter harg
  generalize written args = args at hargs hplain ⊢
  by_cases hne : args = []
  · subst hne
    exact .none rfl
  · rw [argsOf_eq_angleOf hne]
    refine .angle (angleArgs_angleOf hargs false false) fun rest => ?_
    refine (rereads_angleArgs hargs false false).imp ?_
    rintro _ _ ⟨again, rfl, hagain⟩
    have hall : written again = again := List.filter_eq_self.2 fun arg harg => by
      simp [isLifetime_of_spelled hagain hplain arg harg]
    have hagain' : again ≠ [] := by
      rintro rfl
      exact hne (List.map_eq_nil_iff.1 hagain.symm)
    rw [argsTokens_written, hall, argsOf_eq_angleOf hagain', bare_angleOf hagain]

/-! ## The arguments of a binding -/

/-- Generic arguments with the lifetimes first. -/
def ordered (args : List Arg) : List Arg :=
  args.filter (·.isLifetime) ++ args.filter (!·.isLifetime)

theorem mem_ordered {arg : Arg} {args : List Arg} : arg ∈ ordered args ↔ arg ∈ args := by
  simp only [ordered, List.mem_append, List.mem_filter]
  cases arg.isLifetime <;> simp

/-- Whether a lifetime that comes last has to be written before another argument. -/
def displaced (args : List Arg) : Bool :=
  args.getLast?.any (·.isLifetime) && args.any (!·.isLifetime)

theorem angleTokens_erase (colons : Bool) (args : List Arg) (trailing : Bool) :
    angleTokens .asWritten (.mk colons (eraseArgList true args) trailing) =
      angleOf colons (ordered args) (trailing || displaced args) := by
  have htokens : argTokens (eraseArgList true args) =
      args.map fun arg => (arg.isLifetime, arg.erase.tokens.2) := by
    rw [eraseArgList_eq, argTokens_eq, List.map_map]
    simp only [Bool.true_or, List.filter_true]
    exact List.map_congr_left fun arg _ => arg.tokens_erase
  rw [angleTokens, htokens, lifetimesFirst_eq, angleOf]
  simp only [displaced, ordered, List.getLast?_map, Option.any_map, List.any_map, List.filter_map,
    List.map_append, List.map_map, Function.comp_def]

theorem pairwise_ordered (args : List Arg) :
    (ordered args).Pairwise fun first second => second.isLifetime = true → first.isLifetime = true := by
  refine List.pairwise_append.2 ⟨?_, ?_, ?_⟩
  · exact List.pairwise_of_forall_mem_list fun first hfirst _ _ _ => by
      simpa using List.of_mem_filter hfirst
  · refine List.pairwise_of_forall_mem_list fun _ _ second hsecond h => ?_
    have := List.of_mem_filter hsecond
    simp_all
  · exact fun first hfirst _ _ _ => by simpa using List.of_mem_filter hfirst

theorem ordered_eq_self {args : List Arg}
    (h : args.Pairwise fun first second => second.isLifetime = true → first.isLifetime = true) :
    ordered args = args ∧ displaced args = false := by
  induction h with
  | nil => exact ⟨rfl, rfl⟩
  | @cons arg args hfirst hmore ih =>
    obtain ⟨hordered, hdisplaced⟩ := ih
    by_cases harg : arg.isLifetime = true
    · constructor
      · rw [← hordered]
        simp [ordered, harg]
      · cases args with
        | nil => simp [displaced, harg]
        | cons next more => simpa [displaced, harg] using hdisplaced
    · have hplain : ∀ second ∈ arg :: args, second.isLifetime = false := by
        simp only [List.forall_mem_cons, Bool.not_eq_true] at harg ⊢
        exact ⟨harg, fun second hsecond => Bool.eq_false_iff.2 fun h =>
          absurd (hfirst second hsecond h) (by simp [harg])⟩
      constructor
      · rw [ordered, List.filter_eq_nil_iff.2 (by simpa using hplain),
          List.filter_eq_self.2 (by simpa using hplain), List.nil_append]
      · rw [displaced, Bool.and_eq_false_iff]
        left
        cases hlast : (arg :: args).getLast? with
        | none => rfl
        | some last => exact hplain last (List.mem_of_getLast? hlast)

/-- The arguments of a binding, which keep their lifetimes, are read back. -/
theorem argsReread_inner {args : Option AngleArgs}
    (hargs : ∀ colons inner trailing, args = some (.mk colons inner trailing) →
      ∀ arg ∈ inner, ArgRereads rules arg) :
    ArgsReread rules (fun found => ∃ again, (found = .none ∧ again = none ∨
        ∃ inner, found = .angle inner ∧ again = some inner) ∧
        bare (optionalAngleTokens (eraseInner again)) = bare (optionalAngleTokens (eraseInner args)))
      (optionalAngleTokens (eraseInner args)) := by
  rcases args with _ | ⟨colons, args, trailing⟩
  · exact .none ⟨none, .inl ⟨rfl, rfl⟩, rfl⟩
  · have hinner : ∀ arg ∈ ordered args, ArgRereads rules arg := fun arg harg =>
      hargs colons args trailing rfl arg (mem_ordered.1 harg)
    rw [eraseInner, optionalAngleTokens, angleTokens_erase]
    refine .angle (angleArgs_angleOf hinner _ _) fun rest => ?_
    refine (rereads_angleArgs hinner _ _).imp ?_
    rintro _ _ ⟨again, rfl, hagain⟩
    refine ⟨_, .inr ⟨_, rfl, rfl⟩, ?_⟩
    have hpairwise : again.Pairwise fun first second =>
        second.isLifetime = true → first.isLifetime = true := by
      have hflags : again.map Arg.isLifetime = (ordered args).map Arg.isLifetime := by
        simpa [Function.comp_def, Arg.spelled] using congrArg (List.map Prod.fst) hagain
      have hmap : ((ordered args).map Arg.isLifetime).Pairwise fun first second =>
          second = true → first = true := List.pairwise_map.2 (pairwise_ordered args)
      rw [← hflags] at hmap
      exact List.pairwise_map.1 hmap
    obtain ⟨hordered, hdisplaced⟩ := ordered_eq_self hpairwise
    rw [eraseInner, optionalAngleTokens, angleTokens_erase, hordered, hdisplaced, Bool.or_false,
      bare_angleOf hagain]
    cases ordered args with
    | nil => rfl
    | cons => rw [List.isEmpty_cons, Bool.not_false, Bool.and_true]

/-! ## One generic argument -/

theorem ArgRereads.lifetime (rules : Rules) (name : String) :
    ArgRereads rules (.lifetime name) := by
  have hmark : mark? (Arg.lifetime name).erase.tokens.2 = some '\x27' := rfl
  refine ⟨List.cons_ne_nil _ _, by rw [hmark]; decide, fun more ends => ?_⟩
  refine .look fun trees hwritten => ?_
  have hlifetime : Ahead.lifetime trees = true := hwritten.eq Ahead.lifetime
  have hsum : Ahead.op "+" (Ahead.skip trees) = false :=
    (hwritten.eq_skip (Ahead.op "+")).trans (ends.stops.sum rfl)
  rw [hlifetime, hsum, Bool.not_false, Bool.and_true, if_pos rfl]
  refine (Rereads.lifetime name).bindAll ?_
  rintro _ _ ⟨rfl, -⟩
  exact .pure rfl

/-- A type among the arguments, in front of what ends them. -/
theorem ArgRereads.type {held : Ty} (hopens : opensType held.erase.tokens = true)
    (hreads : TypeRereads rules true held) : ArgRereads rules (.type held) := by
  refine ⟨ne_nil_of_opensType hopens, fun hmark => ?_, fun more ends => ?_⟩
  · have hother := mark?_of_opensType hopens
    simp only [List.mem_cons, List.not_mem_nil, or_false] at hmark hother
    rcases hmark with h | h | h <;> simp_all [Arg.erase, Arg.tokens]
  · refine .look fun trees hwritten => ?_
    have hlifetime : Ahead.lifetime trees = false :=
      (hwritten.eq Ahead.lifetime).trans (lifetime_of_opensType hopens more)
    have hvalue : Ahead.valueArgument trees = false :=
      (hwritten.eq Ahead.valueArgument).trans (valueArgument_of_opensType hopens more)
    rw [hlifetime, hvalue, Bool.false_and, if_neg (by decide)]
    refine .bindAll (hreads more ends.stops) fun again _ hagain => ?_
    have hspelled : (Arg.type again).spelled = (Arg.type held).spelled :=
      congrArg (Prod.mk false) hagain
    -- Neither an equals sign nor a colon follows, so that a name is a type as well.
    cases Ty.asBinding? again with
    | none => exact .pure hspelled
    | some binding =>
      refine .bindNone (.op?_false (ends.op (by decide))) ?_
      rintro _ _ ⟨rfl, rfl⟩
      refine .bindNone (.op?_false (ends.op (by decide))) ?_
      rintro _ _ ⟨rfl, rfl⟩
      exact .pure hspelled

/-- The code of an argument is read back as a value, in front of what ends it. -/
structure ValueRereads (rules : Rules) (code : List Piece) : Prop where
  stands : ∀ more, Ahead.valueArgument (front (codeTokens (eraseCode code) ++ more)) = true
  reads : ∀ more, ArgEnds more → Rereads (valueArgument rules) (codeTokens (eraseCode code)) more
    fun again _ => bare (codeTokens (eraseCode again)) = bare (codeTokens (eraseCode code))

theorem mark?_of_valueArgument (h : Ahead.valueArgument (front tokens) = true) :
    tokens ≠ [] ∧ mark? tokens ∈ [none, some '-'] := by
  rcases tokens with _ | ⟨⟨name | ⟨c, joint⟩ | _⟩ | ⟨delimiter, body⟩, second⟩
  · exact absurd h (by decide)
  · exact ⟨List.cons_ne_nil _ _, by simp [mark?]⟩
  · refine ⟨List.cons_ne_nil _ _, ?_⟩
    rw [front_punct] at h
    unfold Ahead.valueArgument Ahead.literal at h
    split at h <;> simp_all [mark?, Ahead.group]
  · exact ⟨List.cons_ne_nil _ _, by simp [mark?]⟩
  · exact ⟨List.cons_ne_nil _ _, by simp [mark?]⟩

theorem ValueRereads.mark? {code : List Piece} (h : ValueRereads rules code) :
    codeTokens (eraseCode code) ≠ [] ∧ mark? (codeTokens (eraseCode code)) ∈ [none, some '-'] :=
  mark?_of_valueArgument (List.append_nil (codeTokens _) ▸ h.stands [])

theorem ArgRereads.value {code : List Piece} (hcode : ValueRereads rules code) :
    ArgRereads rules (.value code) := by
  obtain ⟨hne, hmark⟩ := hcode.mark?
  refine ⟨hne, fun hother => ?_, fun more ends => ?_⟩
  · simp only [List.mem_cons, List.not_mem_nil, or_false] at hmark hother
    rcases hother with h | h | h <;> simp_all [Arg.erase, Arg.tokens]
  · refine .look fun trees hwritten => ?_
    have hlifetime : Ahead.lifetime trees = false := by
      refine (hwritten.eq Ahead.lifetime).trans (lifetime_of_mark? fun hquote => ?_)
      exact absurd ((hquote.symm.trans (mark?_append hne more)) ▸ hmark) (by decide)
    have hvalue : Ahead.valueArgument trees = true :=
      (hwritten.eq Ahead.valueArgument).trans (hcode.stands more)
    rw [hlifetime, hvalue, Bool.false_and, if_neg (by decide), if_pos rfl]
    exact .bindAll (hcode.reads more ends) fun again _ hagain =>
      .pure (congrArg (Prod.mk false) hagain)

/-! ## Bindings -/

/-- The name of a binding and its arguments are read back as a type, in front of what follows it. -/
def BindingRereads (rules : Rules) (name : String) (args : Option AngleArgs) : Prop :=
  ∀ more, Stops true more →
    Rereads (rules.type true) (word name ++ optionalAngleTokens (eraseInner args)) more
      fun type _ => ∃ again, Ty.asBinding? type = some (name, again) ∧
        bare (optionalAngleTokens (eraseInner again)) = bare (optionalAngleTokens (eraseInner args))

theorem IsPathName.plain (hname : IsPathName name) : name ≠ "true" ∧ name ≠ "false" := by
  constructor <;> rintro rfl <;> exact absurd hname.2 (by decide)

theorem Written.word {trees : Trees} (h : Written (word name ++ rest) trees)
    (hname : IsPathName name) :
    Ahead.lifetime trees = false ∧ Ahead.valueArgument trees = false := by
  refine ⟨h.eq Ahead.lifetime, (h.eq Ahead.valueArgument).trans ?_⟩
  have hliteral : Ahead.literal (front (Source.word name ++ rest)) =
      (name == "true" || name == "false") := rfl
  simp [Ahead.valueArgument, hliteral, hname.plain]
  rfl

/-- What follows a name with its arguments, where it may be that of a binding. -/
def bindingTail (rules : Rules) (type : Ty) (name : String) (args : Option AngleArgs) :
    Grammar Arg := do
  if ← op? "=" then
    if ← ahead Ahead.valueArgument then
      return .valueBinding name args (← valueArgument rules)
    else return .typeBinding name args (← rules.type true)
  else if ← op? ":" then
    let (bounds, trailing) ← boundList Ahead.endsConstraint rules.bound
    return .constraint name args bounds trailing
  else return .type type

theorem rereads_binding {args : Option AngleArgs} (hname : IsPathName name)
    (hbinding : BindingRereads rules name args) {property : Arg → Prop}
    (hstops : Stops true (tokens ++ rest))
    (htail : ∀ type again,
      bare (optionalAngleTokens (eraseInner again)) = bare (optionalAngleTokens (eraseInner args)) →
      Rereads (bindingTail rules type name again) tokens rest fun arg _ => property arg) :
    Rereads (genericArgument rules) (word name ++ optionalAngleTokens (eraseInner args) ++ tokens)
      rest fun arg _ => property arg := by
  refine .look fun trees hwritten => ?_
  rw [List.append_assoc, List.append_assoc] at hwritten
  obtain ⟨hlifetime, hvalue⟩ := Written.word hwritten hname
  rw [hlifetime, hvalue, Bool.false_and, if_neg (by decide), if_neg (by decide)]
  refine .bind (hbinding _ hstops) ?_
  rintro type _ ⟨again, hagain, hinner⟩
  rw [hagain]
  exact htail type again hinner

/-- A binding with an equals sign is read back if what stands behind the sign is. -/
theorem rereads_equal {args : Option AngleArgs} (hname : IsPathName name)
    (hbinding : BindingRereads rules name args) {property : Arg → Prop}
    (hheld : ∀ again,
      bare (optionalAngleTokens (eraseInner again)) = bare (optionalAngleTokens (eraseInner args)) →
      Rereads (do
        if ← ahead Ahead.valueArgument then
          return .valueBinding name again (← valueArgument rules)
        else return .typeBinding name again (← rules.type true)) tokens rest
        fun arg _ => property arg) :
    Rereads (genericArgument rules)
      (word name ++ optionalAngleTokens (eraseInner args) ++ (operator "=" ++ tokens)) rest
      fun arg _ => property arg := by
  refine rereads_binding hname hbinding ?_ ?_
  · exact stops_of_mark (by decide) fun h => absurd h (by decide)
  intro _ again hinner
  refine .bind (.op?_true (by decide)) ?_
  rintro _ _ ⟨rfl, -⟩
  rw [if_pos rfl]
  exact hheld again hinner

theorem ArgRereads.typeBinding {args : Option AngleArgs} {held : Ty} (hname : IsPathName name)
    (hbinding : BindingRereads rules name args) (hopens : opensType held.erase.tokens = true)
    (hreads : TypeRereads rules true held) : ArgRereads rules (.typeBinding name args held) := by
  have htokens : (Arg.typeBinding name args held).erase.tokens.2 =
      word name ++ optionalAngleTokens (eraseInner args) ++ (operator "=" ++ held.erase.tokens) :=
    List.append_assoc _ _ _
  refine ⟨List.cons_ne_nil _ _, by simp [Arg.erase, Arg.tokens, word, mark?], fun more ends => ?_⟩
  rw [htokens]
  refine rereads_equal hname hbinding fun again hinner => ?_
  refine .ahead (valueArgument_of_opensType hopens more) ?_
  rw [if_neg (by decide)]
  refine .bindAll (hreads more ends.stops) fun type _ htype => .pure ?_
  refine congrArg (Prod.mk false) ?_
  simp only [Arg.erase, Arg.tokens, bare_append, hinner, htype]

theorem ArgRereads.valueBinding {args : Option AngleArgs} {code : List Piece}
    (hname : IsPathName name) (hbinding : BindingRereads rules name args)
    (hcode : ValueRereads rules code) : ArgRereads rules (.valueBinding name args code) := by
  have htokens : (Arg.valueBinding name args code).erase.tokens.2 =
      word name ++ optionalAngleTokens (eraseInner args) ++
        (operator "=" ++ codeTokens (eraseCode code)) :=
    List.append_assoc _ _ _
  refine ⟨List.cons_ne_nil _ _, by simp [Arg.erase, Arg.tokens, word, mark?], fun more ends => ?_⟩
  rw [htokens]
  refine rereads_equal hname hbinding fun again hinner => ?_
  refine .ahead (hcode.stands more) ?_
  rw [if_pos rfl]
  refine .bindAll (hcode.reads more ends) fun again _ hcode => .pure ?_
  refine congrArg (Prod.mk false) ?_
  simp only [Arg.erase, Arg.tokens, bare_append, hinner, hcode]

theorem ArgRereads.constraint {args : Option AngleArgs} {bounds : List Bound} (hname : IsPathName name)
    (hbinding : BindingRereads rules name args)
    (hbounds : ∀ bound ∈ bounds, BoundRereads rules.bound context bound) (trailing : Bool) :
    ArgRereads rules (.constraint name args bounds trailing) := by
  have htokens : (Arg.constraint name args bounds trailing).erase.tokens.2 =
      word name ++ optionalAngleTokens (eraseInner args) ++ (operator ":" ++
        separated (operator "+") trailing (bounds.map (·.erase.tokens))) := by
    rw [Arg.erase, Arg.tokens, boundTokens_eraseBounds, List.append_assoc]
    simp
  refine ⟨List.cons_ne_nil _ _, by simp [Arg.erase, Arg.tokens, word, mark?], fun more ends => ?_⟩
  rw [htokens]
  refine rereads_binding hname hbinding ?_ ?_
  · refine stops_of_mark (by decide) fun _ => ?_
    change mark? (separated _ trailing _ ++ more) ≠ _
    cases bounds with
    | nil => exact fun heq => absurd (heq ▸ ends.mark?) (by decide)
    | cons bound bounds =>
      have hbound := hbounds bound List.mem_cons_self
      rw [List.map_cons, mark?_separated hbound.ne_nil]
      exact fun heq => absurd (heq ▸ hbound.mark) (by decide)
  intro _ again hinner
  refine .bindNone (.op?_false (op_of_mark? (d := some ':') rfl (by decide))) ?_
  rintro _ _ ⟨rfl, -⟩
  rw [if_neg (by decide)]
  refine .bind (.op?_true (by decide)) ?_
  rintro _ _ ⟨rfl, -⟩
  rw [if_pos rfl]
  refine .bindAll (rereads_boundList hbounds trailing ends) ?_
  rintro ⟨found, closed⟩ _ ⟨hfound, hclosed⟩
  refine .pure (congrArg (Prod.mk false) ?_)
  rw [Arg.erase, Arg.tokens, Arg.erase, Arg.tokens, boundTokens_eraseBounds, boundTokens_eraseBounds]
  have hwritten : (found.map fun bound => bare bound.erase.tokens) =
      bounds.map fun bound => bare bound.erase.tokens := by
    simpa [Function.comp_def, Bound.spelled] using congrArg (List.map Prod.fst) hfound
  rw [show closed = (trailing && !bounds.isEmpty) from hclosed]
  simp only [Bool.true_or, List.filter_true, bare_append, bare_separated, List.map_map,
    Function.comp_def, hinner, hwritten]
  cases bounds with
  | nil => rfl
  | cons => rw [List.isEmpty_cons, Bool.not_false, Bool.and_true]

end Grammar

end Bindery.Source
