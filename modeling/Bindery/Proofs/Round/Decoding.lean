import Bindery.Proofs.Round.Statements
import Bindery.Proofs.Source.Path
/-!
# Reading generated code back

What a statement registers and what an index includes is read from their tokens alone. A statement
is read as the mark, the way to make the delegate and the path that it was written for
(`Registered.ofTokens?_tokens`), and an index as the files of its units and the functions they
define (`Index.ofTokens?_tokens`).
-/

namespace Bindery

open Source (Path operator word)
open Source.Path Source.Grammar

/-! ## Paths among other tokens -/

/-- The names at the head of tokens, each after a double colon, and the tokens after them. -/
def takeNames : Expression → String × Expression
  | .leaf (.punct ':' true) :: .leaf (.punct ':' false) :: .leaf (.ident name) :: rest =>
    ("::" ++ name ++ (takeNames rest).1, (takeNames rest).2)
  | tokens => ("", tokens)

/-- The path at the head of tokens, and the tokens after it. -/
def takePath : Expression → String × Expression
  | .leaf (.ident name) :: rest => (name ++ (takeNames rest).1, (takeNames rest).2)
  | tokens => takeNames tokens

/-- Whether no further name of a path stands at the head. -/
def EndsPath (tokens : Expression) : Prop :=
  takeNames tokens = ("", tokens)

theorem endsPath_nil : EndsPath [] := rfl

theorem endsPath_call (arguments : List Expression) : EndsPath (callTokens arguments) := rfl

theorem endsPath_word (name : String) (rest : Expression) : EndsPath (word name ++ rest) := rfl

theorem takeNames_absoluteName (names : List String) {rest : Expression} (h : EndsPath rest) :
    takeNames (absoluteName names ++ rest) = (shownNames names, rest) := by
  induction names with
  | nil => exact h
  | cons name names ih =>
    rw [absoluteName_cons, List.cons_append, List.cons_append, List.cons_append, takeNames, ih]
    rfl

/-- A path of names is taken with the names after it. -/
theorem takePath_names {path : Path} (simple : path.IsSimple) (names : List String)
    {rest : Expression} (h : EndsPath rest) :
    takePath (path.tokens ++ (absoluteName names ++ rest)) =
      (shownPath path ++ shownNames names, rest) := by
  obtain ⟨absolute, first, more, rfl, -⟩ := simple
  have hmore : takeNames (absoluteName more ++ (absoluteName names ++ rest)) =
      (shownNames more ++ shownNames names, rest) := by
    rw [← List.append_assoc, ← absoluteName_append, takeNames_absoluteName _ h,
      shownNames_append]
  rw [shownPath_ofNames, tokens_ofNames]
  cases absolute with
  | false =>
    show takePath (.leaf (.ident first) :: (absoluteName more ++ (absoluteName names ++ rest))) = _
    rw [takePath, hmore]
    simp [String.append_assoc]
  | true =>
    show takeNames (.leaf (.punct ':' true) :: .leaf (.punct ':' false) :: .leaf (.ident first) ::
      (absoluteName more ++ (absoluteName names ++ rest))) = _
    rw [takeNames, hmore]
    simp [String.append_assoc]

theorem takePath_tokens {path : Path} (simple : path.IsSimple) {rest : Expression}
    (h : EndsPath rest) : takePath (path.tokens ++ rest) = (shownPath path, rest) := by
  have htake := takePath_names simple [] h
  rwa [shownNames, String.append_empty] at htake

/-! ## Delegates -/

/-- The tokens after a list of names with commas between them. -/
def afterListed? : List String → Expression → Option Expression
  | [name], .leaf (.ident found) :: rest => if found = name then some rest else none
  | name :: names, .leaf (.ident found) :: .leaf (.punct ',' false) :: rest =>
    if found = name then afterListed? names rest else none
  | _, _ => none

/-- The tokens after the parameters that a delegate hands on. -/
def afterParameters? : Expression → Option Expression :=
  afterListed? ["context", "method", "arguments", "handler"]

/-- The function that is called with all parameters, after the bar that ends them. -/
def called? : Expression → Option String
  | .leaf (.punct '|' false) :: call =>
    match takePath call with
    | (path, [.group .paren arguments]) =>
      match afterParameters? arguments with
      | some [] => some path
      | _ => none
    | _ => none
  | _ => none

/-- The function that a closure calls with all of its parameters. -/
def forwarded? : Expression → Option String
  | .leaf (.punct '|' false) :: more => (afterParameters? more).bind called?
  | _ => none

/-- The default value of a path, which a cast to the trait of default values names. -/
def Making.ofCast? : String × Expression → Option (Making × String)
  | (path, .leaf (.ident "as") :: rest) =>
    match Statement.afterNames? ["core", "default", "Default"] rest with
    | some [.leaf (.punct '>' false), .leaf (.punct ':' true), .leaf (.punct ':' false),
        .leaf (.ident "default"), .group .paren []] => some (.default, path)
    | _ => none
  | _ => none

/-- A path on its own, or the function that an adapter of the runtime is called with. -/
def Making.ofPath? (runtime : String) : String × Expression → Option (Making × String)
  | (path, []) => some (.named, path)
  | (adapter, [.group .paren function]) =>
    if adapter = runtime ++ "::FnDelegate::new" then
      (forwarded? function).map fun path => (.adapted, path)
    else none
  | _ => none

/-- How an expression makes a delegate, and from which path. -/
def Making.ofTokens? (runtime : String) : Expression → Option (Making × String)
  | .leaf (.punct '<' false) :: cast => ofCast? (takePath cast)
  | tokens => ofPath? runtime (takePath tokens)

theorem Making.ofTokens?_path (runtime : String) {path : Path} (simple : path.IsSimple)
    (rest : Expression) :
    Making.ofTokens? runtime (path.tokens ++ rest) =
      ofPath? runtime (takePath (path.tokens ++ rest)) := by
  obtain ⟨absolute, first, more, rfl, -⟩ := simple
  rw [tokens_ofNames]
  cases absolute <;> rfl

theorem afterParameters?_parameterNames (rest : Expression) :
    afterParameters? (Source.separated (operator ",") false parameterNames ++ rest) = some rest :=
  rfl

/-- The function that a delegate forwards to is read. -/
theorem forwarded?_tokens {path : Path} (simple : path.IsSimple) :
    forwarded? (operator "|" ++ Source.separated (operator ",") false parameterNames ++
      operator "|" ++ path.tokens ++ callTokens parameterNames) = some (shownPath path) := by
  have hcall : called? (operator "|" ++ (path.tokens ++ callTokens parameterNames)) =
      some (shownPath path) := by
    have hend := afterParameters?_parameterNames []
    rw [List.append_nil] at hend
    show (match takePath (path.tokens ++ callTokens parameterNames) with
      | (path, [.group .paren arguments]) =>
        match afterParameters? arguments with
        | some [] => some path
        | _ => none
      | _ => none) = _
    rw [takePath_tokens simple (endsPath_call _)]
    simp only [callTokens, hend]
  simp only [List.append_assoc]
  show (afterParameters? (Source.separated (operator ",") false parameterNames ++
    (operator "|" ++ (path.tokens ++ callTokens parameterNames)))).bind called? = _
  rw [afterParameters?_parameterNames]
  exact hcall

/-- The expression that makes a delegate is read as the way it was made from its path. -/
theorem Making.ofTokens?_tokens (making : Making) {runtime path : Path}
    (hruntime : runtime.IsSimple) (hpath : path.IsSimple) :
    Making.ofTokens? (shownPath runtime) (making.tokens runtime path) =
      some (making, shownPath path) := by
  cases making with
  | named =>
    have hread := ofTokens?_path (shownPath runtime) hpath []
    rw [takePath_tokens hpath endsPath_nil, List.append_nil] at hread
    exact hread
  | default =>
    simp only [Making.tokens, List.append_assoc]
    show ofCast? (takePath (path.tokens ++ _)) = _
    rw [takePath_tokens hpath (endsPath_word _ _)]
    rfl
  | adapted =>
    simp only [Making.tokens]
    rw [List.append_assoc, ofTokens?_path _ hruntime, takePath_names hruntime _ (endsPath_call _)]
    have hadapter : shownPath runtime ++ shownNames ["FnDelegate", "new"] =
        shownPath runtime ++ "::FnDelegate::new" := rfl
    show (if _ = _ then _ else _) = _
    rw [if_pos hadapter]
    exact congrArg (Option.map _) (forwarded?_tokens hpath)

/-! ## Statements -/

/-- What a statement registers: under which mark, how the delegate is made, and from which path. -/
structure Registered where
  mark : Mark
  making : Making
  path : String
  deriving DecidableEq

/-- What the statement that tokens are registers. -/
def Registered.ofTokens? (runtime : String) (tokens : Expression) : Option Registered := do
  match ← Statement.ofTokens? tokens with
  | .define key delegate =>
    let (making, path) ← Making.ofTokens? runtime delegate
    return ⟨.provider key, making, path⟩
  | .setInterceptor delegate =>
    let (making, path) ← Making.ofTokens? runtime delegate
    return ⟨.gateway, making, path⟩

/-- A statement is read as the registration it was written for. -/
theorem Registered.ofTokens?_tokens (mark : Mark) (making : Making) {runtime path : Path}
    (hruntime : runtime.IsSimple) (hpath : path.IsSimple) :
    Registered.ofTokens? (shownPath runtime) (mark.tokens (making.tokens runtime path)) =
      some ⟨mark, making, shownPath path⟩ := by
  have hmaking := Making.ofTokens?_tokens making hruntime hpath
  cases mark with
  | provider key =>
    simp only [Registered.ofTokens?, Statement.ofTokens?_tokens, Statement.of, Option.bind_eq_bind,
      Option.bind_some, hmaking]
    rfl
  | gateway =>
    simp only [Registered.ofTokens?, Statement.ofTokens?_tokens, Statement.of, Option.bind_eq_bind,
      Option.bind_some, hmaking]
    rfl

/-! ## The index -/

/-- What an index says: the files it includes, below the output directory, and the functions that
exist. -/
structure Index where
  included : List String
  providers : Option String
  interceptor : Option String
  deriving DecidableEq

namespace Index

/-- The file that the argument of an inclusion names below the output directory. -/
def file? : Expression → Option String
  | [.leaf (.ident "concat"), .leaf (.punct '!' false), .group .paren
      [.leaf (.ident "env"), .leaf (.punct '!' false), .group .paren [.leaf (.literal directory)],
        .leaf (.punct ',' false), .leaf (.literal file)]] => do
    if (← Token.stringValue? directory) = "OUT_DIR" then Token.stringValue? file else none
  | _ => none

/-- The function that a field of the index says exists, and the tokens after the field. -/
def slot? (name : String) : Expression → Option (Option String × Expression)
  | .leaf (.ident found) :: .leaf (.punct ':' false) :: value =>
    if found = name then
      match Statement.afterNames? ["core", "option", "Option", "None"] value with
      | some (.leaf (.punct ',' false) :: rest) => some (none, rest)
      | _ =>
        match Statement.afterNames? ["core", "option", "Option", "Some"] value with
        | some (.group .paren [.leaf (.ident entry)] :: .leaf (.punct ',' false) :: rest) =>
          some (some entry, rest)
        | _ => none
    else none
  | _ => none

/-- The functions that the fields of the index say exist. -/
def slots? (fields : Expression) : Option (Option String × Option String) := do
  let (providers, rest) ← slot? "providers" fields
  match ← slot? "interceptor" rest with
  | (interceptor, []) => some (providers, interceptor)
  | _ => none

/-- What the value of the index says, after its type. -/
def value? (type : String) : Expression → Option Index
  | .leaf (.punct '=' false) :: value =>
    match takePath value with
    | (found, [.group .brace fields, .leaf (.punct ';' false)]) =>
      if found = type then
        (slots? fields).map fun (providers, interceptor) => ⟨[], providers, interceptor⟩
      else none
    | _ => none
  | _ => none

/-- An index that includes more files in front. -/
def including (files : List String) (index : Index) : Index :=
  { index with included := files ++ index.included }

/-- What the index that tokens are says. -/
def ofTokens? (runtime : String) : Expression → Option Index
  | .leaf (.ident "include") :: .leaf (.punct '!' false) :: .group .paren argument ::
      .leaf (.punct ';' false) :: rest =>
    (file? argument).bind fun file => (ofTokens? runtime rest).map (including [file])
  | .leaf (.ident "pub") :: .leaf (.ident "static") :: .leaf (.ident "TETHER_BINDINGS") ::
      .leaf (.punct ':' false) :: rest =>
    match takePath rest with
    | (type, rest) => if type = runtime ++ "::Bindings" then value? type rest else none
  | _ => none

/-- The argument of an inclusion. -/
def argument (unit : Artifact) : Expression :=
  [.leaf (.ident "concat"), .leaf (.punct '!' false), .group .paren
    [.leaf (.ident "env"), .leaf (.punct '!' false),
      .group .paren [.leaf (.literal (Text.quote "OUT_DIR"))], .leaf (.punct ',' false),
      .leaf (.literal (Text.quote ("/" ++ unit.name)))]]

theorem file?_argument (unit : Artifact) : file? (argument unit) = some ("/" ++ unit.name) := by
  simp only [argument, file?, Token.stringValue?_quote, Option.bind_eq_bind, Option.bind_some,
    if_pos]

/-- The file of an inclusion is read. -/
theorem ofTokens?_inclusion (runtime : String) (unit : Artifact) (rest : Expression) :
    ofTokens? runtime (Target.inclusion unit ++ rest) =
      (ofTokens? runtime rest).map (including ["/" ++ unit.name]) := by
  have htokens : Target.inclusion unit ++ rest =
      .leaf (.ident "include") :: .leaf (.punct '!' false) :: .group .paren (argument unit) ::
        .leaf (.punct ';' false) :: rest := rfl
  rw [htokens, ofTokens?, file?_argument]
  rfl

/-- The files of all inclusions are read in their order. -/
theorem ofTokens?_inclusions (runtime : String) (units : List Artifact) (rest : Expression) :
    ofTokens? runtime (units.flatMap Target.inclusion ++ rest) =
      (ofTokens? runtime rest).map (including (units.map ("/" ++ ·.name))) := by
  induction units with
  | nil =>
    rw [List.flatMap_nil, List.nil_append]
    cases ofTokens? runtime rest <;> rfl
  | cons unit units ih =>
    rw [List.flatMap_cons, List.append_assoc, ofTokens?_inclusion, ih]
    cases ofTokens? runtime rest <;> rfl

/-- The tokens of a field say whether there is a unit. -/
theorem slot?_field (name : String) (role : Role) (unit : Option Artifact) (rest : Expression) :
    slot? name (word name ++ operator ":" ++ Target.slot role unit ++ operator "," ++ rest) =
      some (unit.map fun _ => role.entryPoint, rest) := by
  simp only [List.append_assoc]
  show (if name = name then _ else _) = _
  rw [if_pos rfl]
  cases unit <;> rfl

theorem slots?_fields (providers interceptor : Option Artifact) :
    slots? (word "providers" ++ operator ":" ++ Target.slot .provider providers ++ operator "," ++
      (word "interceptor" ++ operator ":" ++ Target.slot .gateway interceptor ++ operator ",")) =
      some (providers.map fun _ => Role.provider.entryPoint,
        interceptor.map fun _ => Role.gateway.entryPoint) := by
  have hinterceptor := slot?_field "interceptor" .gateway interceptor []
  rw [List.append_nil] at hinterceptor
  rw [slots?, slot?_field]
  simp only [Option.bind_eq_bind, Option.bind_some, hinterceptor]

/-- The index is read as the functions of the units that exist. -/
theorem ofTokens?_indexTokens (target : Target) (simple : target.runtime.IsSimple)
    (providers interceptor : Option Artifact) :
    ofTokens? (shownPath target.runtime) (target.indexTokens providers interceptor) =
      some ⟨[], providers.map fun _ => Role.provider.entryPoint,
        interceptor.map fun _ => Role.gateway.entryPoint⟩ := by
  have hfields := slots?_fields providers interceptor
  have htype : shownPath target.runtime ++ shownNames ["Bindings"] =
      shownPath target.runtime ++ "::Bindings" := rfl
  have hassign : ∀ rest, EndsPath (operator "=" ++ rest) := fun _ => rfl
  have hgroup : ∀ body rest, EndsPath ([.group .brace body] ++ rest) := fun _ _ => rfl
  simp only [Target.indexTokens, List.append_assoc] at hfields ⊢
  -- The type stands on both sides of the equals sign.
  show (match takePath (target.runtime.tokens ++ _) with
    | (type, rest) =>
      if type = shownPath target.runtime ++ "::Bindings" then value? type rest else none) = _
  rw [takePath_names simple _ (hassign _)]
  dsimp only
  rw [if_pos htype]
  show (match takePath (target.runtime.tokens ++ _) with
    | (found, [.group .brace fields, .leaf (.punct ';' false)]) =>
      if found = _ then
        (slots? fields).map fun (providers, interceptor) => (⟨[], providers, interceptor⟩ : Index)
      else none
    | _ => none) = _
  rw [takePath_names simple _ (hgroup _ _)]
  show (if shownPath target.runtime ++ shownNames ["Bindings"] = _ then _ else _) = _
  rw [if_pos rfl, hfields]
  rfl

end Index

end Bindery
