import Bindery.Artifact
import Bindery.Proofs.Registry
import Bindery.Proofs.Text.Quoted
/-!
# What statements do when they run

A statement of generated code is read back from its tokens. It defines a delegate or sets the
interceptor, and `Bindings.ofFragments?` collects what the statements of a round do: the bindings
that the generated index stands for.
-/

namespace Bindery

/-- An expression of generated code. -/
abbrev Expression := List (TokenTree Token)

/-- What a statement does with the registry. -/
inductive Statement where
  | define (key : String) (delegate : Expression)
  | setInterceptor (delegate : Expression)

namespace Statement

/-! ## Reading -/

/-- The tokens after a name and the double colon before it. -/
def afterName? (name : String) : Expression → Option Expression
  | .leaf (.punct ':' true) :: .leaf (.punct ':' false) :: .leaf (.ident found) :: rest =>
    if found = name then some rest else none
  | _ => none

/-- The tokens after an absolute path of names. -/
def afterNames? (names : List String) (tokens : Expression) : Option Expression :=
  names.foldlM (fun tokens name => afterName? name tokens) tokens

/-- What is made shared: the argument of `::std::sync::Arc::new`. -/
def shared? (tokens : Expression) : Option Expression :=
  match afterNames? ["std", "sync", "Arc", "new"] tokens with
  | some [.group .paren argument] => some argument
  | _ => none

/-- The statement that tokens are. -/
def ofTokens? : Expression → Option Statement
  | [.leaf (.ident "registry"), .leaf (.punct '.' false), .leaf (.ident "define"),
      .group .paren (.leaf (.literal key) :: .leaf (.punct ',' false) :: argument)] => do
    return .define (← Token.stringValue? key) (← shared? argument)
  | [.leaf (.ident "registry"), .leaf (.punct '.' false), .leaf (.ident "set_interceptor"),
      .group .paren argument] => (shared? argument).map .setInterceptor
  | _ => none

/-- The statement that registers a delegate under a mark. -/
def of (delegate : Expression) : Mark → Statement
  | .provider key => .define key delegate
  | .gateway => .setInterceptor delegate

theorem afterNames?_absoluteName (names : List String) (rest : Expression) :
    afterNames? names (absoluteName names ++ rest) = some rest := by
  induction names with
  | nil => rfl
  | cons name names ih =>
    have hname : afterName? name (absoluteName (name :: names) ++ rest) =
        some (absoluteName names ++ rest) := by
      show afterName? name (.leaf (.punct ':' true) :: .leaf (.punct ':' false) ::
        .leaf (.ident name) :: (absoluteName names ++ rest)) = _
      rw [afterName?, if_pos rfl]
    rw [afterNames?, List.foldlM_cons, hname]
    exact ih

/-- What is written for a mark is read back. -/
theorem ofTokens?_tokens (mark : Mark) (delegate : Expression) :
    ofTokens? (mark.tokens delegate) = some (of delegate mark) := by
  have hshared : shared? (absoluteName ["std", "sync", "Arc", "new"] ++ callTokens [delegate]) =
      some delegate := by
    rw [shared?, afterNames?_absoluteName]
    rfl
  cases mark with
  | provider key =>
    show ofTokens? [.leaf (.ident "registry"), .leaf (.punct '.' false), .leaf (.ident "define"),
      .group .paren (.leaf (.literal (Text.quote key)) :: .leaf (.punct ',' false) ::
        (absoluteName ["std", "sync", "Arc", "new"] ++ callTokens [delegate]))] = _
    simp only [ofTokens?, Token.stringValue?_quote, hshared]
    rfl
  | gateway =>
    show ofTokens? [.leaf (.ident "registry"), .leaf (.punct '.' false),
      .leaf (.ident "set_interceptor"),
      .group .paren (absoluteName ["std", "sync", "Arc", "new"] ++ callTokens [delegate])] = _
    simp only [ofTokens?, hshared]
    rfl

/-- Runs a statement. -/
def run (registry : Registry Expression) : Statement → Registry Expression
  | define key delegate => registry.define key delegate
  | setInterceptor delegate => registry.setInterceptor delegate

end Statement

/-! ## The statements of a round -/

/-- What a fragment defines, if its statement is a definition. -/
def Fragment.definition? (fragment : Fragment) : Option (String × Expression) :=
  match Statement.ofTokens? fragment.tokens with
  | some (.define key delegate) => some (key, delegate)
  | _ => none

/-- The delegate that a fragment makes the interceptor, if its statement does so. -/
def Fragment.interceptor? (fragment : Fragment) : Option Expression :=
  match Statement.ofTokens? fragment.tokens with
  | some (.setInterceptor delegate) => some delegate
  | _ => none

/-- The bindings that the index of a round stands for. The function of a unit that is lacking is
lacking as well, and the function of the providers runs their definitions in order. -/
def Bindings.ofFragments? (providers gateways : List Fragment) : Option (Bindings Expression) := do
  let definitions ← providers.mapM Fragment.definition?
  let interceptors ← gateways.mapM Fragment.interceptor?
  return ⟨if providers.isEmpty then none else some definitions, interceptors.head?⟩

end Bindery
