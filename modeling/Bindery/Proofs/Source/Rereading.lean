import Bindery.Proofs.Source.Type.Erased
import Bindery.Proofs.Source.Yields
import Bindery.Proofs.Token.Apart
/-!
# Grammars that read back what was written

Trees are written without blanks, and lexed again. They stand on other lines then, and punctuation
may be joined where it was not (`Written`). `Rereads grammar tokens rest property`: in front of
`rest`, the grammar takes what was written of the tokens, and a property holds of its value and of
the pieces that it recorded. What a repeated step reads is followed from state to state (`Loops`).
-/

namespace Bindery

/-! ## Trees without what is joined -/

/-- A token that does not say whether the next one follows directly. -/
def Token.unjoined : Token → Token
  | .punct c _ => .punct c false
  | token => token

/-- Trees that do not say what is joined. -/
def bare (trees : List (TokenTree Token)) : List (TokenTree Token) :=
  TokenTree.mapList Token.unjoined trees

variable {first second rest body : List (TokenTree Token)}

@[simp] theorem bare_nil : bare [] = [] := rfl

theorem bare_cons (tree : TokenTree Token) : bare (tree :: rest) = tree.map Token.unjoined :: bare rest :=
  rfl

@[simp] theorem bare_word (name : String) :
    bare (.leaf (.ident name) :: rest) = .leaf (.ident name) :: bare rest := rfl

@[simp] theorem bare_punct (c : Char) (joint : Bool) :
    bare (.leaf (.punct c joint) :: rest) = .leaf (.punct c false) :: bare rest := rfl

@[simp] theorem bare_literal (text : String) :
    bare (.leaf (.literal text) :: rest) = .leaf (.literal text) :: bare rest := rfl

@[simp] theorem bare_group (delimiter : Delimiter) :
    bare (.group delimiter body :: rest) = .group delimiter (bare body) :: bare rest := rfl

theorem bare_append : bare (first ++ second) = bare first ++ bare second := by
  induction first with
  | nil => rfl
  | cons tree first ih => rw [List.cons_append, bare_cons, ih, bare_cons, List.cons_append]

namespace Token

mutual

theorem compactTree_bare : ∀ tree : TokenTree Token,
    compactTree (tree.map Token.unjoined) = compactTree tree
  | .leaf (.ident _) => rfl
  | .leaf (.punct _ _) => rfl
  | .leaf (.literal _) => rfl
  | .group delimiter body => by
    rw [TokenTree.map, compactTree, compactTree, ← bare, compactList_bare body]

/-- Nothing is written of what is joined. -/
theorem compactList_bare : ∀ (trees : List (TokenTree Token)) (afterWord : Bool),
    compactList afterWord (bare trees) = compactList afterWord trees
  | [], _ => rfl
  | tree :: rest, afterWord => by
    have hword : (tree.map Token.unjoined).isWord = tree.isWord := by
      rcases tree with ⟨_ | _ | _⟩ | _ <;> rfl
    rw [bare_cons, compactList, compactList, hword, compactTree_bare tree, compactList_bare rest]

end

theorem compact_eq_of_bare (h : bare first = bare second) : compact first = compact second := by
  rw [compact, compact, ← compactList_bare first, h, compactList_bare]

mutual

theorem bare_rejoinTree (after : List Char) : ∀ tree : TokenTree Token,
    (rejoinTree after tree).map Token.unjoined = tree.map Token.unjoined
  | .leaf (.ident _) => rfl
  | .leaf (.punct _ _) => rfl
  | .leaf (.literal _) => rfl
  | .group delimiter body => congrArg (TokenTree.group delimiter) (bare_rejoin body)

theorem bare_rejoin : ∀ trees : List (TokenTree Token), bare (rejoin trees) = bare trees
  | [] => rfl
  | tree :: rest => by
    rw [rejoin, bare_cons, bare_cons, bare_rejoinTree _ tree, bare_rejoin rest]

end

theorem rejoin_length : ∀ trees : List (TokenTree Token), (rejoin trees).length = trees.length
  | [] => rfl
  | tree :: rest => by rw [rejoin, List.length_cons, rejoin_length rest, List.length_cons]

theorem drop_rejoin_append (first second : List (TokenTree Token)) :
    (rejoin (first ++ second)).drop first.length = rejoin second := by
  induction first with
  | nil => rfl
  | cons tree first ih => rw [List.cons_append, rejoin, List.length_cons, List.drop_succ_cons, ih]

end Token

namespace TokenTree

variable {α β γ : Type}

mutual

theorem map_map (f : α → β) (g : β → γ) : ∀ tree : TokenTree α,
    (tree.map f).map g = tree.map (g ∘ f)
  | leaf _ => rfl
  | group delimiter body => congrArg (group delimiter) (mapList_mapList f g body)

theorem mapList_mapList (f : α → β) (g : β → γ) : ∀ trees : List (TokenTree α),
    mapList g (mapList f trees) = mapList (g ∘ f) trees
  | [] => rfl
  | tree :: rest => by
    rw [mapList, mapList, mapList, map_map f g tree, mapList_mapList f g rest]

end

theorem mapList_eq_map (f : α → β) (trees : List (TokenTree α)) :
    mapList f trees = trees.map (map f) := by
  induction trees with
  | nil => rfl
  | cons tree rest ih => rw [mapList, ih, List.map_cons]

end TokenTree

namespace Source.Grammar

open Token (isIdent rejoin)

theorem bare_separated (separator : List (TokenTree Token)) (trailing : Bool)
    (items : List (List (TokenTree Token))) :
    bare (separated separator trailing items) =
      separated (bare separator) trailing (items.map bare) := by
  induction items with
  | nil => rfl
  | cons item items ih =>
    cases items with
    | nil => cases trailing <;> simp [separated, bare_append]
    | cons next items =>
      rw [separated, bare_append, bare_append, ih]
      · rfl
      · exact List.cons_ne_nil _ _

/-! ## What was written -/

/-- Trees are what is lexed of tokens that were written without blanks. -/
def Written (tokens : List (TokenTree Token)) (trees : Trees) : Prop :=
  trees.tokens = rejoin tokens

/-- Trees that all stand on no line. -/
def unlined (trees : Trees) : Trees :=
  TokenTree.mapList (fun lexeme => ⟨lexeme.token, 0⟩) trees

/-- Trees as they are lexed, on no line. -/
def front (tokens : List (TokenTree Token)) : Trees :=
  TokenTree.mapList (fun token => ⟨token, 0⟩) (rejoin tokens)

theorem Written.unlined {tokens : List (TokenTree Token)} {trees : Trees}
    (h : Written tokens trees) : unlined trees = front tokens := by
  rw [Written, Trees.tokens] at h
  rw [front, ← h, TokenTree.mapList_mapList]
  rfl

theorem Written.length {tokens : List (TokenTree Token)} {trees : Trees}
    (h : Written tokens trees) : trees.length = tokens.length := by
  have hlength := congrArg List.length h
  rwa [Token.rejoin_length, Trees.tokens, TokenTree.mapList_eq_map, List.length_map] at hlength

theorem Written.drop {trees : Trees} (h : Written (first ++ second) trees) :
    Written second (trees.drop first.length) := by
  have hdrop := congrArg (List.drop first.length) h
  rwa [Token.drop_rejoin_append, Trees.tokens, TokenTree.mapList_eq_map, ← List.map_drop,
    ← TokenTree.mapList_eq_map] at hdrop

theorem Written.bare_take {trees : Trees} (h : Written (first ++ second) trees) :
    bare (Trees.tokens (trees.take first.length)) = bare first := by
  have htake : Trees.tokens (trees.take first.length) =
      (rejoin (first ++ second)).take first.length := by
    rw [← h, Trees.tokens, Trees.tokens, TokenTree.mapList_eq_map, TokenTree.mapList_eq_map,
      List.map_take]
  have hbare := Token.bare_rejoin (first ++ second)
  rw [bare, bare, TokenTree.mapList_eq_map, TokenTree.mapList_eq_map] at hbare
  rw [htake, bare, bare, TokenTree.mapList_eq_map, TokenTree.mapList_eq_map, List.map_take, hbare,
    List.map_append, List.take_left' (List.length_map _)]

theorem Written.nil {trees : Trees} (h : Written [] trees) : trees = [] :=
  List.eq_nil_of_length_eq_zero h.length

theorem Written.leaf {token : Token} {trees : Trees} (h : Written (.leaf token :: rest) trees) :
    ∃ lexeme behind, trees = .leaf lexeme :: behind ∧
      .leaf lexeme.token = Token.rejoinTree (Token.compactList token.isWord rest) (.leaf token) ∧
      Written rest behind := by
  rcases trees with _ | ⟨lexeme | ⟨delimiter, body⟩, behind⟩
  · cases h
  · obtain ⟨htoken, hrest⟩ := List.cons.inj h
    exact ⟨lexeme, behind, rfl, htoken, hrest⟩
  · obtain ⟨htoken, -⟩ := List.cons.inj h
    rcases token with _ | _ | _ <;> cases htoken

theorem Written.group {delimiter : Delimiter} {trees : Trees}
    (h : Written (.group delimiter body :: rest) trees) :
    ∃ inside behind, trees = .group delimiter inside :: behind ∧ Written body inside ∧
      Written rest behind := by
  rcases trees with _ | ⟨lexeme | ⟨found, inside⟩, behind⟩
  · cases h
  · obtain ⟨htoken, -⟩ := List.cons.inj h
    cases htoken
  · obtain ⟨htoken, hrest⟩ := List.cons.inj h
    obtain ⟨rfl, hbody⟩ := TokenTree.group.inj htoken
    exact ⟨inside, behind, rfl, hbody, hrest⟩

/-! ## Looking ahead -/

section front

@[simp] theorem front_nil : front [] = [] := rfl

@[simp] theorem front_word (name : String) :
    front (.leaf (.ident name) :: rest) = .leaf ⟨.ident name, 0⟩ :: front rest := rfl

@[simp] theorem front_literal (text : String) :
    front (.leaf (.literal text) :: rest) = .leaf ⟨.literal text, 0⟩ :: front rest := rfl

@[simp] theorem front_punct (c : Char) (joint : Bool) :
    front (.leaf (.punct c joint) :: rest) =
      .leaf ⟨.punct c (c == '\x27' || Token.startsPunct (Token.compactList false rest)), 0⟩ ::
        front rest := rfl

@[simp] theorem front_group (delimiter : Delimiter) :
    front (.group delimiter body :: rest) = .group delimiter (front body) :: front rest := rfl

end front

/-- What does not depend on the lines that trees stand on. -/
class Blind {α : Type} (p : Trees → α) : Prop where
  eq_unlined : ∀ trees, p (unlined trees) = p trees

theorem Written.eq {α : Type} {tokens : List (TokenTree Token)} {trees : Trees}
    (h : Written tokens trees) (p : Trees → α) [Blind p] : p trees = p (front tokens) :=
  (Blind.eq_unlined trees).symm.trans (congrArg p h.unlined)

section blind

variable {trees : Trees}

theorem unlined_leaf (token : Token) (line : Nat) :
    unlined (.leaf ⟨token, line⟩ :: trees) = .leaf ⟨token, 0⟩ :: unlined trees := rfl

theorem unlined_group (delimiter : Delimiter) (inside : Trees) :
    unlined (.group delimiter inside :: trees) = .group delimiter (unlined inside) :: unlined trees :=
  rfl

theorem opChars_unlined (cs : List Char) (trees : Trees) :
    Ahead.opChars cs (unlined trees) = Ahead.opChars cs trees := by
  induction cs generalizing trees with
  | nil => rfl
  | cons c cs ih =>
    rcases trees with _ | ⟨⟨_ | ⟨d, _ | _⟩ | _, line⟩ | ⟨delimiter, inside⟩, behind⟩ <;>
      cases cs <;> simp [Ahead.opChars, unlined_leaf, unlined_group, ih] <;> rfl

@[simp] theorem op_unlined (text : String) (trees : Trees) :
    Ahead.op text (unlined trees) = Ahead.op text trees :=
  opChars_unlined _ _

@[simp] theorem word_unlined (name : String) (trees : Trees) :
    Ahead.word name (unlined trees) = Ahead.word name trees := by
  rcases trees with _ | ⟨⟨_ | _ | _, line⟩ | ⟨delimiter, inside⟩, behind⟩ <;> rfl

@[simp] theorem anyIdent_unlined (trees : Trees) :
    Ahead.anyIdent (unlined trees) = Ahead.anyIdent trees := by
  rcases trees with _ | ⟨⟨_ | _ | _, line⟩ | ⟨delimiter, inside⟩, behind⟩ <;> rfl

@[simp] theorem ident_unlined (trees : Trees) :
    Ahead.ident (unlined trees) = Ahead.ident trees := by
  rcases trees with _ | ⟨⟨_ | _ | _, line⟩ | ⟨delimiter, inside⟩, behind⟩ <;> rfl

@[simp] theorem group_unlined (delimiter : Delimiter) (trees : Trees) :
    Ahead.group delimiter (unlined trees) = Ahead.group delimiter trees := by
  rcases trees with _ | ⟨⟨_ | _ | _, line⟩ | ⟨delimiter, inside⟩, behind⟩ <;> rfl

@[simp] theorem string_unlined (trees : Trees) :
    Ahead.string (unlined trees) = Ahead.string trees := by
  rcases trees with _ | ⟨⟨_ | _ | _, line⟩ | ⟨delimiter, inside⟩, behind⟩ <;> rfl

@[simp] theorem isEmpty_unlined (trees : Trees) : (unlined trees).isEmpty = trees.isEmpty := by
  cases trees <;> rfl

@[simp] theorem lifetime_unlined (trees : Trees) :
    Ahead.lifetime (unlined trees) = Ahead.lifetime trees := by
  rcases trees with _ | ⟨⟨_ | ⟨c, joint⟩ | _, line⟩ | ⟨delimiter, inside⟩, behind⟩
  · rfl
  · rfl
  · by_cases hc : c = '\x27'
    · subst hc
      rcases joint with _ | _ <;> rcases behind with _ | ⟨⟨_ | _ | _, _⟩ | _, _⟩ <;> rfl
    · rw [unlined_leaf]
      unfold Ahead.lifetime
      split <;> simp_all
  · rfl
  · rfl

@[simp] theorem literal_unlined (trees : Trees) :
    Ahead.literal (unlined trees) = Ahead.literal trees := by
  rcases trees with _ | ⟨⟨_ | ⟨c, joint⟩ | _, line⟩ | ⟨delimiter, inside⟩, behind⟩
  · rfl
  · rfl
  · by_cases hc : c = '-'
    · subst hc
      rcases behind with _ | ⟨⟨_ | _ | _, _⟩ | _, _⟩ <;> rfl
    · rw [unlined_leaf]
      unfold Ahead.literal
      split <;> simp_all
  · rfl
  · rfl

@[simp] theorem skip_unlined (trees : Trees) :
    Ahead.skip (unlined trees) = unlined (Ahead.skip trees) := by
  rcases trees with _ | ⟨⟨_ | ⟨c, joint⟩ | _, line⟩ | ⟨delimiter, inside⟩, behind⟩
  · rfl
  · rfl
  · by_cases hc : c = '\x27'
    · subst hc
      rcases joint with _ | _ <;> rcases behind with _ | ⟨⟨_ | _ | _, _⟩ | _, _⟩ <;> rfl
    · rw [unlined_leaf]
      unfold Ahead.skip
      split <;> simp_all
  · rfl
  · rfl

@[simp] theorem anyOp_unlined (texts : List String) (trees : Trees) :
    Ahead.anyOp texts (unlined trees) = Ahead.anyOp texts trees := by
  simp [Ahead.anyOp]

@[simp] theorem anyWord_unlined (names : List String) (trees : Trees) :
    Ahead.anyWord names (unlined trees) = Ahead.anyWord names trees := by
  simp [Ahead.anyWord]

instance (text : String) : Blind (Ahead.op text) := ⟨op_unlined text⟩
instance (name : String) : Blind (Ahead.word name) := ⟨word_unlined name⟩
instance (texts : List String) : Blind (Ahead.anyOp texts) := ⟨anyOp_unlined texts⟩
instance (names : List String) : Blind (Ahead.anyWord names) := ⟨anyWord_unlined names⟩
instance (delimiter : Delimiter) : Blind (Ahead.group delimiter) := ⟨group_unlined delimiter⟩
instance : Blind Ahead.anyIdent := ⟨anyIdent_unlined⟩
instance : Blind Ahead.ident := ⟨ident_unlined⟩
instance : Blind Ahead.lifetime := ⟨lifetime_unlined⟩
instance : Blind Ahead.literal := ⟨literal_unlined⟩
instance : Blind Ahead.string := ⟨string_unlined⟩
instance : Blind (List.isEmpty : Trees → Bool) := ⟨isEmpty_unlined⟩

end blind

theorem Written.eq_skip {α : Type} {tokens : List (TokenTree Token)} {trees : Trees}
    (h : Written tokens trees) (p : Trees → α) [Blind p] :
    p (Ahead.skip trees) = p (Ahead.skip (front tokens)) := by
  rw [← h.unlined, skip_unlined]
  exact (Blind.eq_unlined _).symm

theorem isEmpty_front (tokens : List (TokenTree Token)) :
    (front tokens).isEmpty = tokens.isEmpty := by
  rcases tokens with _ | ⟨⟨_ | _ | _⟩ | _, _⟩ <;> rfl

theorem word_word (first second : String) (more : List (TokenTree Token)) :
    Ahead.word first (front (word second ++ more)) = (second == first) := rfl

/-! ## Marks -/

variable {tokens : List (TokenTree Token)}

/-- The punctuation character at the head. -/
def mark? : List (TokenTree Token) → Option Char
  | .leaf (.punct c _) :: _ => some c
  | _ => none

theorem mark?_append (hne : tokens ≠ []) (more : List (TokenTree Token)) :
    mark? (tokens ++ more) = mark? tokens := by
  obtain ⟨tree, tokens, rfl⟩ := List.exists_cons_of_ne_nil hne
  rcases tree with ⟨_ | _ | _⟩ | _ <;> rfl

/-- No operator stands ahead that begins with another character. -/
theorem op_of_mark? {text : String} {d : Option Char} (hmark : mark? tokens = d)
    (h : d ≠ text.toList.head?) : Ahead.op text (front tokens) = false := by
  subst hmark
  rw [Ahead.op]
  generalize text.toList = cs at h ⊢
  rcases tokens with _ | ⟨⟨_ | ⟨e, _⟩ | _⟩ | _, _⟩
  case cons.leaf.punct =>
    rcases cs with _ | ⟨c, _ | ⟨_, _⟩⟩
    · rfl
    · have hne : c ≠ e := fun heq => h (congrArg some heq.symm)
      simp [Ahead.opChars, hne]
    · have hne : c ≠ e := fun heq => h (congrArg some heq.symm)
      rw [front_punct]
      unfold Ahead.opChars
      split <;> simp_all
  all_goals rcases cs with _ | ⟨_, _ | _⟩ <;> rfl

/-- Where the second character does not follow, the operator does not stand ahead. -/
theorem op_of_op {text t : String} {c : Char} {cs : List Char} {joint : Bool}
    {more : List (TokenTree Token)} (htext : text.toList = c :: cs) (hbehind : t.toList = cs)
    (hcs : cs ≠ []) (h : Ahead.op t (front more) = false) :
    Ahead.op text (front (.leaf (.punct c joint) :: more)) = false := by
  rw [Ahead.op, hbehind] at h
  rw [Ahead.op, htext, front_punct]
  unfold Ahead.opChars
  split <;> simp_all

theorem lifetime_of_mark? (h : mark? tokens ≠ some '\x27') :
    Ahead.lifetime (front tokens) = false := by
  rcases tokens with _ | ⟨⟨_ | ⟨c, _⟩ | _⟩ | _, _⟩
  case cons.leaf.punct =>
    have hc : c ≠ '\x27' := fun heq => h (congrArg some heq)
    rw [front_punct]
    unfold Ahead.lifetime
    split <;> simp_all
  all_goals rfl

theorem mark?_separated {separator item : List (TokenTree Token)} (hne : item ≠ [])
    (trailing : Bool) (items : List (List (TokenTree Token))) (more : List (TokenTree Token)) :
    mark? (separated separator trailing (item :: items) ++ more) = mark? item := by
  obtain ⟨behind, hbehind⟩ := separated_head separator trailing item items
  rw [hbehind, List.append_assoc, mark?_append hne]

/-! ## Reading back -/

/-- In front of `rest`, a grammar takes what was written of the tokens. A property holds of its
value and of the pieces that it recorded, the last one first. -/
def Rereads {α : Type} (grammar : Grammar α) (tokens rest : List (TokenTree Token))
    (property : α → List Piece → Prop) : Prop :=
  ∀ trees, Written (tokens ++ rest) trees → ∃ value pieces behind, property value pieces ∧
    Written rest behind ∧
    ∀ taken, grammar.run ⟨trees, taken⟩ = .ok (value, ⟨behind, pieces ++ taken⟩)

namespace Rereads

variable {α β : Type} {a b rest : List (TokenTree Token)} {property : α → List Piece → Prop}

theorem pure {value : α} (h : property value []) : Rereads (pure value) [] rest property :=
  fun trees hwritten => ⟨value, [], trees, h, hwritten, fun _ => rfl⟩

theorem imp {grammar : Grammar α} {other : α → List Piece → Prop}
    (h : Rereads grammar a rest property)
    (himp : ∀ value pieces, property value pieces → other value pieces) :
    Rereads grammar a rest other := by
  intro trees hwritten
  obtain ⟨value, pieces, behind, hproperty, hrun⟩ := h trees hwritten
  exact ⟨value, pieces, behind, himp value pieces hproperty, hrun⟩

theorem bind {grammar : Grammar β} {next : β → Grammar α} {m : β → List Piece → Prop}
    (first : Rereads grammar a (b ++ rest) m)
    (second : ∀ value pieces, m value pieces →
      Rereads (next value) b rest fun result more => property result (more ++ pieces)) :
    Rereads (grammar >>= next) (a ++ b) rest property := by
  intro trees hwritten
  rw [List.append_assoc] at hwritten
  obtain ⟨value, pieces, between, hmiddle, hbetween, hfirst⟩ := first trees hwritten
  obtain ⟨result, more, behind, hproperty, hbehind, hsecond⟩ :=
    second value pieces hmiddle between hbetween
  refine ⟨result, more ++ pieces, behind, hproperty, hbehind, fun taken => ?_⟩
  rw [run_bind_of_ok (hfirst taken), hsecond, List.append_assoc]

/-- Where the first grammar takes all. -/
theorem bindAll {grammar : Grammar β} {next : β → Grammar α} {m : β → List Piece → Prop}
    (first : Rereads grammar a rest m)
    (second : ∀ value pieces, m value pieces →
      Rereads (next value) [] rest fun result more => property result (more ++ pieces)) :
    Rereads (grammar >>= next) a rest property := by
  have h : Rereads (grammar >>= next) (a ++ []) rest property := bind first second
  rwa [List.append_nil] at h

/-- Where the first grammar takes nothing. -/
theorem bindNone {grammar : Grammar β} {next : β → Grammar α} {m : β → List Piece → Prop}
    (first : Rereads grammar [] (a ++ rest) m)
    (second : ∀ value pieces, m value pieces →
      Rereads (next value) a rest fun result more => property result (more ++ pieces)) :
    Rereads (grammar >>= next) a rest property :=
  bind (a := []) first second

theorem look {next : Trees → Grammar α}
    (h : ∀ trees, Written (a ++ rest) trees → Rereads (next trees) a rest property) :
    Rereads (Grammar.look >>= next) a rest property := by
  intro trees hwritten
  obtain ⟨value, pieces, behind, hproperty, hbehind, hrun⟩ := h trees hwritten trees hwritten
  refine ⟨value, pieces, behind, hproperty, hbehind, fun taken => ?_⟩
  exact hrun taken

theorem ahead {p : Trees → Bool} [Blind p] {next : Bool → Grammar α} {f : Bool}
    (hfound : p (front (a ++ rest)) = f) (h : Rereads (next f) a rest property) :
    Rereads (Grammar.ahead p >>= next) a rest property := by
  intro trees hwritten
  obtain ⟨value, pieces, behind, hproperty, hbehind, hrun⟩ := h trees hwritten
  refine ⟨value, pieces, behind, hproperty, hbehind, fun taken => ?_⟩
  rw [← hfound, ← hwritten.eq p] at hrun
  exact hrun taken

theorem map {grammar : Grammar β} {form : β → α}
    (h : Rereads grammar a rest fun value pieces => property (form value) pieces) :
    Rereads (form <$> grammar) a rest property := by
  rw [map_eq_pure_bind]
  exact h.bindAll fun value pieces hvalue => .pure hvalue

end Rereads

/-! ## Taking trees -/

/-- Whether a text is an operator of which no part begins a comment or a lifetime. -/
def isMark (text : String) : Bool :=
  text != "" && text.toList.all fun c => Token.punctuation.contains c && c != '/' && c != '\x27'

theorem operatorChars_length (cs : List Char) : (operatorChars cs).length = cs.length := by
  induction cs with
  | nil => rfl
  | cons c cs ih =>
    cases cs with
    | nil => rfl
    | cons => exact congrArg (· + 1) ih

theorem startsPunct_operatorChars {c : Char} (hc : c ∈ Token.punctuation ∧ c ≠ '/')
    (cs : List Char) (rest : List (TokenTree Token)) :
    Token.startsPunct (Token.compactList false (operatorChars (c :: cs) ++ rest)) = true := by
  cases cs <;> exact Token.startsPunct_of_mem hc.1 hc.2

theorem opChars_front {cs : List Char} (hne : cs ≠ [])
    (h : ∀ c ∈ cs, c ∈ Token.punctuation ∧ c ≠ '/' ∧ c ≠ '\x27')
    (rest : List (TokenTree Token)) :
    Ahead.opChars cs (front (operatorChars cs ++ rest)) = true := by
  induction cs with
  | nil => exact absurd rfl hne
  | cons c cs ih =>
    obtain ⟨⟨-, -, hquote⟩, hcs⟩ := List.forall_mem_cons.1 h
    cases cs with
    | nil => simp [operatorChars, Ahead.opChars, hquote]
    | cons d cs =>
      have hd := hcs d List.mem_cons_self
      have hstarts := startsPunct_operatorChars ⟨hd.1, hd.2.1⟩ cs rest
      rw [operatorChars, List.cons_append, front_punct, hstarts, Bool.or_true, Ahead.opChars,
        ih (List.cons_ne_nil _ _) hcs]
      · simp [hquote]
      · exact List.cons_ne_nil _ _
      · exact List.cons_ne_nil _ _

theorem op_front {text : String} (h : isMark text = true) (rest : List (TokenTree Token)) :
    Ahead.op text (front (operator text ++ rest)) = true := by
  simp only [isMark, Bool.and_eq_true, bne_iff_ne, ne_eq, List.all_eq_true,
    List.contains_iff_mem] at h
  refine opChars_front (fun hnil => h.1 (String.toList_inj.1 hnil)) (fun c hc => ?_) rest
  exact ⟨(h.2 c hc).1.1, (h.2 c hc).1.2, (h.2 c hc).2⟩

namespace Rereads

theorem op {text : String} (h : isMark text = true) :
    Rereads (Grammar.op text) (operator text) rest fun _ pieces => pieces = opPieces text := by
  intro trees hwritten
  have hahead : Ahead.op text trees = true := by
    rw [hwritten.eq (Ahead.op text)]
    exact op_front h rest
  have hlength : (operator text).length = text.length := operatorChars_length _
  refine ⟨(), opPieces text, trees.drop text.length, rfl, hlength ▸ hwritten.drop, fun taken => ?_⟩
  show StateT.run (if Ahead.op text trees then _ else _) _ = _
  rw [if_pos hahead]
  rfl

theorem op?_true {text : String} (h : isMark text = true) :
    Rereads (Grammar.op? text) (operator text) rest fun found pieces =>
      found = true ∧ pieces = opPieces text := by
  refine .ahead (op_front h rest) ?_
  rw [if_pos rfl]
  refine (Rereads.op h).bindAll fun _ pieces hpieces => .pure ⟨rfl, hpieces⟩

theorem op?_false {text : String} (h : Ahead.op text (front rest) = false) :
    Rereads (Grammar.op? text) [] rest fun found pieces => found = false ∧ pieces = [] := by
  refine .ahead (f := false) h ?_
  rw [if_neg (by decide)]
  exact .pure ⟨rfl, rfl⟩

theorem anyIdent {name : String} (h : isIdent name = true) :
    Rereads Grammar.anyIdent (word name) rest fun found pieces =>
      found.text = name ∧ pieces = [.token (.ident name)] := by
  intro trees hwritten
  obtain ⟨⟨token, line⟩, behind, rfl, htoken, hbehind⟩ := hwritten.leaf
  obtain rfl : token = .ident name := TokenTree.leaf.inj htoken
  refine ⟨⟨name, line, h⟩, [.token (.ident name)], behind, ⟨rfl, rfl⟩, hbehind, fun taken => ?_⟩
  show StateT.run (if h : isIdent name then _ else _) _ = _
  rw [dif_pos h]
  rfl

theorem ident {name : String} (h : isIdent name = true) (hkeyword : name ∉ Ahead.keywords) :
    Rereads Grammar.ident (word name) rest fun found pieces =>
      found.text = name ∧ pieces = [.token (.ident name)] := by
  refine .look fun trees hwritten => ?_
  obtain ⟨⟨token, line⟩, behind, rfl, htoken, -⟩ := hwritten.leaf
  obtain rfl : token = .ident name := TokenTree.leaf.inj htoken
  show Rereads (if Ahead.keywords.contains name then _ else _) _ _ _
  rw [if_neg (by simpa using hkeyword)]
  exact .anyIdent h

theorem keyword {name : String} (h : isIdent name = true) :
    Rereads (Grammar.keyword name) (word name) rest fun _ pieces =>
      pieces = [.token (.ident name)] := by
  refine .ahead (f := true) (by simp [word, Ahead.word]) ?_
  rw [if_pos rfl]
  exact (Rereads.anyIdent h).bindAll fun _ pieces hpieces => .pure hpieces.2

theorem keyword?_true {name : String} (h : isIdent name = true) :
    Rereads (Grammar.keyword? name) (word name) rest fun found pieces =>
      found = true ∧ pieces = [.token (.ident name)] := by
  refine .ahead (f := true) (by simp [word, Ahead.word]) ?_
  rw [if_pos rfl]
  exact (Rereads.anyIdent h).bindAll fun _ pieces hpieces => .pure ⟨rfl, hpieces.2⟩

theorem keyword?_false {name : String} (h : Ahead.word name (front rest) = false) :
    Rereads (Grammar.keyword? name) [] rest fun found pieces => found = false ∧ pieces = [] := by
  refine .ahead (f := false) h ?_
  rw [if_neg (by decide)]
  exact .pure ⟨rfl, rfl⟩

theorem lifetime (name : String) :
    Rereads Grammar.lifetime (lifetimeTokens name) rest fun found pieces =>
      found = name ∧ pieces = [.token (.ident name), .token (.punct '\x27' true)] := by
  intro trees hwritten
  obtain ⟨⟨quote, line⟩, between, rfl, hquote, hbetween⟩ := hwritten.leaf
  obtain ⟨⟨token, line'⟩, behind, rfl, htoken, hbehind⟩ := hbetween.leaf
  obtain rfl : quote = .punct '\x27' true := TokenTree.leaf.inj hquote
  obtain rfl : token = .ident name := TokenTree.leaf.inj htoken
  exact ⟨name, _, behind, ⟨rfl, rfl⟩, hbehind, fun taken => rfl⟩

theorem lifetime?_none (h : Ahead.lifetime (front rest) = false) :
    Rereads Grammar.lifetime? [] rest fun found pieces => found = none ∧ pieces = [] := by
  refine .ahead (f := false) h ?_
  rw [if_neg (by decide)]
  exact .pure ⟨rfl, rfl⟩

theorem string {text : String} (h : (Token.stringValue? text).isSome = true) :
    Rereads Grammar.string [.leaf (.literal text)] rest fun _ pieces =>
      pieces = [.token (.literal text)] := by
  obtain ⟨value, hvalue⟩ := Option.isSome_iff_exists.1 h
  intro trees hwritten
  obtain ⟨⟨token, line⟩, behind, rfl, htoken, hbehind⟩ := hwritten.leaf
  obtain rfl : token = .literal text := TokenTree.leaf.inj htoken
  refine ⟨value, [.token (.literal text)], behind, rfl, hbehind, fun taken => ?_⟩
  have hlook : ∀ stream : Stream, StateT.run Grammar.look stream = .ok (stream.rest, stream) :=
    fun _ => rfl
  rw [Grammar.string, run_bind_of_ok (hlook _)]
  simp only [hvalue]
  rfl

/-- What stands between brackets is read as a stream of its own. -/
theorem within {grammar : Grammar α} {delimiter : Delimiter} {body : List (TokenTree Token)}
    (h : Rereads grammar body [] property) :
    Rereads (Grammar.within delimiter grammar) [.group delimiter body] rest fun value pieces =>
      ∃ inner, property value inner ∧ pieces = [.group delimiter inner.reverse] := by
  intro trees hwritten
  obtain ⟨inside, behind, rfl, hinside, hbehind⟩ := hwritten.group
  rw [← List.append_nil body] at hinside
  obtain ⟨value, inner, left, hproperty, hleft, hrun⟩ := h inside hinside
  obtain rfl := hleft.nil
  refine ⟨value, _, behind, ⟨inner, hproperty, rfl⟩, hbehind, fun taken => ?_⟩
  have hwhole : whole (some delimiter) grammar inside = .ok (value, inner.reverse) := by
    unfold whole
    rw [hrun]
    simp only [List.append_nil]
    rfl
  show StateT.run (if delimiter = delimiter then _ else _) _ = _
  rw [if_pos rfl, hwhole]
  rfl

theorem anyGroup {delimiter : Delimiter} {body : List (TokenTree Token)} :
    Rereads Grammar.anyGroup [.group delimiter body] rest fun found _ =>
      found.1 = delimiter ∧ Written body found.2 := by
  intro trees hwritten
  obtain ⟨inside, behind, rfl, hinside, hbehind⟩ := hwritten.group
  exact ⟨(delimiter, inside), _, behind, ⟨rfl, hinside⟩, hbehind, fun taken => rfl⟩

/-- What is recorded is what the grammar took, in its order. -/
theorem recording {grammar : Grammar α} {p : α → List Piece → Prop}
    (h : Rereads grammar a rest fun value pieces => p value pieces.reverse) :
    Rereads (Grammar.recording grammar) a rest fun result pieces =>
      p result.1 result.2 ∧ pieces = [] := by
  intro trees hwritten
  obtain ⟨value, inner, behind, hproperty, hbehind, hrun⟩ := h trees hwritten
  refine ⟨(value, inner.reverse), [], behind, ⟨hproperty, rfl⟩, hbehind, fun taken => ?_⟩
  have hclear := hrun []
  rw [List.append_nil] at hclear
  show StateT.run (grammar >>= fun value => do
    let inner := (← get).taken
    modify fun stream => { stream with taken := taken }
    return (value, inner.reverse)) ⟨trees, []⟩ = _
  rw [run_bind_of_ok hclear]
  rfl

/-- The trees that a grammar spans are those that it takes. -/
theorem spanning {grammar : Grammar α} {p : α → Prop}
    (h : Rereads grammar a rest fun value _ => p value) :
    Rereads (Grammar.spanning grammar) a rest fun result pieces =>
      (p result.1 ∧ bare (Trees.tokens result.2) = bare a) ∧ pieces = [] := by
  intro trees hwritten
  obtain ⟨⟨value, inner⟩, pieces, behind, ⟨hproperty, rfl⟩, hbehind, hrun⟩ :=
    recording (p := fun value _ => p value) h trees hwritten
  refine ⟨(value, trees.take a.length), [], behind, ⟨⟨hproperty, hwritten.bare_take⟩, rfl⟩, hbehind,
    fun taken => ?_⟩
  have hlength : trees.length - behind.length = a.length := by
    rw [hwritten.length, hbehind.length, List.length_append, Nat.add_sub_cancel]
  show StateT.run (Grammar.recording grammar >>= fun found => do
    let after ← Grammar.look
    return (found.1, trees.take (trees.length - after.length))) ⟨trees, taken⟩ = _
  rw [run_bind_of_ok (hrun taken), ← hlength]
  rfl

theorem run_glimpse_ok {grammar : Grammar α} {stream : Stream} {result : α × Stream}
    (h : grammar.run stream = .ok result) :
    (glimpse grammar).run stream = .ok (some result, stream) := by
  rw [glimpse]
  simp only [StateT.run_bind, StateT.run_get, pure_bind, h]
  rfl

theorem run_glimpse_error {grammar : Grammar α} {stream : Stream} {fault : Fault}
    (h : grammar.run stream = .error fault) : (glimpse grammar).run stream = .ok (none, stream) := by
  rw [glimpse]
  simp only [StateT.run_bind, StateT.run_get, pure_bind, h]
  rfl

theorem attempt_some {grammar : Grammar α} (h : Rereads grammar a rest property) :
    Rereads (Grammar.attempt grammar) a rest fun found pieces =>
      ∃ value, found = some value ∧ property value pieces := by
  intro trees hwritten
  obtain ⟨value, pieces, behind, hproperty, hbehind, hrun⟩ := h trees hwritten
  refine ⟨some value, pieces, behind, ⟨value, rfl, hproperty⟩, hbehind, fun taken => ?_⟩
  show StateT.run (glimpse grammar >>= _) _ = _
  have hglimpse : (glimpse grammar).run ⟨trees, taken⟩ =
      .ok (some (value, ⟨behind, pieces ++ taken⟩), ⟨trees, taken⟩) := run_glimpse_ok (hrun taken)
  rw [run_bind_of_ok hglimpse]
  rfl

/-- Where a grammar does not read what stands ahead, nothing is taken. -/
theorem attempt_none {grammar : Grammar α}
    (h : ∀ trees, Written rest trees → ∀ taken, ∃ fault, grammar.run ⟨trees, taken⟩ = .error fault) :
    Rereads (Grammar.attempt grammar) [] rest fun found pieces => found = none ∧ pieces = [] := by
  intro trees hwritten
  refine ⟨none, [], trees, ⟨rfl, rfl⟩, hwritten, fun taken => ?_⟩
  obtain ⟨fault, hrun⟩ := h trees hwritten taken
  show StateT.run (glimpse grammar >>= _) _ = _
  rw [run_bind_of_ok (run_glimpse_error hrun)]
  rfl

end Rereads

/-! ## Repetition -/

/-- From a state on, a repeated step takes the tokens in front of `rest` and comes to a state with a
property. -/
def Loops {σ : Type} (step : σ → Grammar (Option σ)) (state : σ)
    (tokens rest : List (TokenTree Token)) (property : σ → List Piece → Prop) : Prop :=
  ∀ fuel, tokens.length < fuel → Rereads (iterate step fuel state) tokens rest property

namespace Loops

variable {σ : Type} {step : σ → Grammar (Option σ)} {state : σ}
  {a b rest : List (TokenTree Token)} {property : σ → List Piece → Prop}

theorem done (h : Rereads (step state) [] rest fun next pieces => next = none ∧ pieces = [])
    (hstate : property state []) : Loops step state [] rest property := by
  intro fuel hfuel
  obtain ⟨fuel, rfl⟩ := Nat.exists_eq_add_one_of_ne_zero (Nat.ne_of_gt hfuel)
  refine h.bindAll ?_
  rintro _ _ ⟨rfl, rfl⟩
  exact .pure hstate

theorem more {m : σ → List Piece → Prop} (hne : a ≠ [])
    (first : Rereads (step state) a (b ++ rest) fun next pieces =>
      ∃ found, next = some found ∧ m found pieces)
    (second : ∀ found pieces, m found pieces →
      Loops step found b rest fun last more => property last (more ++ pieces)) :
    Loops step state (a ++ b) rest property := by
  intro fuel hfuel
  obtain ⟨fuel, rfl⟩ := Nat.exists_eq_add_one_of_ne_zero (Nat.ne_of_gt (Nat.zero_lt_of_lt hfuel))
  refine first.bind ?_
  rintro _ pieces ⟨found, rfl, hmiddle⟩
  have ha := List.length_pos_iff.2 hne
  rw [List.length_append] at hfuel
  exact second found pieces hmiddle fuel (by omega)

theorem loop (h : Loops step state a rest property) :
    Rereads (Grammar.loop state step) a rest property := by
  refine .look fun trees hwritten => ?_
  refine h _ ?_
  rw [hwritten.length, List.length_append]
  omega

end Loops

/-- A step reads items with separators between them, each time saying whether a separator stood
behind the item. -/
theorem Loops.items {α ι : Type} {step : List α × Bool → Grammar (Option (List α × Bool))}
    {separator : List (TokenTree Token)} {trailing : Bool} {items : List ι}
    {tokens : ι → List (TokenTree Token)} {rest : List (TokenTree Token)} {reads : ι → α → Prop}
    {values : List α} (hne : ∀ i ∈ items, tokens i ≠ [])
    (hmore : trailing = true ∨ items.length ≠ 1 → ∀ i ∈ items, ∀ values behind,
      Rereads (step (values, true)) (tokens i ++ separator) behind
        fun next _ => ∃ value, reads i value ∧ next = some (value :: values, true))
    (hlast : trailing = false → ∀ i ∈ items, ∀ values, Rereads (step (values, true)) (tokens i) rest
      fun next _ => ∃ value, reads i value ∧ next = some (value :: values, false))
    (hstop : ∀ values, Rereads (step (values, false)) [] rest fun next pieces =>
      next = none ∧ pieces = [])
    (hclosed : trailing = true → ∀ value values, Rereads (step (value :: values, true)) [] rest
      fun next pieces => next = none ∧ pieces = [])
    (hempty : items = [] → Rereads (step (values, true)) [] rest fun next pieces =>
      next = none ∧ pieces = []) :
    Loops step (values, true) (separated separator trailing (items.map tokens)) rest fun last _ =>
      ∃ found, List.Forall₂ reads items found ∧
        last = (found.reverse ++ values, trailing || items.isEmpty) := by
  induction items generalizing values with
  | nil => exact .done (hempty rfl) ⟨[], .nil, by simp⟩
  | cons i more ih =>
    obtain ⟨hi, hothers⟩ := List.forall_mem_cons.1 hne
    -- With a separator behind it, an item is followed by what is left of the list.
    by_cases hbetween : trailing = true ∨ more ≠ []
    · have hseveral : trailing = true ∨ (i :: more).length ≠ 1 := by simpa using hbetween
      rw [List.map_cons, separated_cons _ _ (by simpa using hbetween)]
      refine .more (m := fun found _ => ∃ value, reads i value ∧ found = (value :: values, true))
        (by simp [hi]) ?_ ?_
      · refine (hmore hseveral i List.mem_cons_self values _).imp ?_
        rintro _ _ ⟨value, hvalue, rfl⟩
        exact ⟨_, rfl, value, hvalue, rfl⟩
      · rintro _ pieces ⟨value, hvalue, rfl⟩ fuel hfuel
        refine (ih hothers (fun _ j hj => hmore hseveral j (List.mem_cons_of_mem _ hj))
          (fun h j hj => hlast h j (List.mem_cons_of_mem _ hj))
          (fun hnil => hclosed (hbetween.resolve_right (absurd hnil)) value values) fuel hfuel).imp ?_
        rintro last _ ⟨found, hfound, rfl⟩
        refine ⟨value :: found, .cons hvalue hfound, ?_⟩
        rcases hbetween with rfl | hnext
        · simp
        · simp [List.isEmpty_eq_false_iff.2 hnext]
    · simp only [not_or, Bool.not_eq_true, ne_eq, not_not] at hbetween
      obtain ⟨rfl, rfl⟩ := hbetween
      have hsingle : separated separator false ([i].map tokens) = tokens i ++ [] := by
        simp [separated]
      rw [hsingle]
      -- The last item has nothing behind it, and the loop stops because no separator was read.
      refine .more (m := fun found _ => ∃ value, reads i value ∧ found = (value :: values, false))
        hi ?_ ?_
      · refine (hlast rfl i List.mem_cons_self values).imp ?_
        rintro _ _ ⟨value, hvalue, rfl⟩
        exact ⟨_, rfl, value, hvalue, rfl⟩
      · rintro _ pieces ⟨value, hvalue, rfl⟩
        exact .done (hstop _) ⟨[value], .cons hvalue .nil, by simp⟩

theorem map_eq_of_forall₂ {α β γ : Type} {reads : α → β → Prop} {f : α → γ} {g : β → γ}
    {items : List α} {values : List β} (h : List.Forall₂ reads items values)
    (heq : ∀ item value, reads item value → g value = f item) : values.map g = items.map f := by
  induction h with
  | nil => rfl
  | cons hreads _ ih => rw [List.map_cons, List.map_cons, heq _ _ hreads, ih]

/-- What `separatedBy` repeats. -/
def separatedStep {α : Type} (separator : String) (stop : Trees → Bool) (item : Grammar α) :
    List α × Bool → Grammar (Option (List α × Bool)) := fun (values, more) => do
  if !more || (← ahead stop) then return none
  let value ← item
  if ← ahead stop then return some (value :: values, false)
  op separator
  return some (value :: values, true)

/-- Items between separators are read back if each of them is, in front of a separator and in front
of what follows the list. -/
theorem rereads_separatedBy {α ι : Type} {separator : String} {stop : Trees → Bool} [Blind stop]
    {item : Grammar α} {items : List ι} {tokens : ι → List (TokenTree Token)}
    {rest : List (TokenTree Token)} {reads : ι → α → Prop} (trailing : Bool)
    (hmark : isMark separator = true) (hstop : stop (front rest) = true)
    (hseparator : ∀ more, stop (front (operator separator ++ more)) = false)
    (hitems : ∀ i ∈ items, tokens i ≠ [] ∧ (∀ more, stop (front (tokens i ++ more)) = false) ∧
      ∀ more, (more = rest ∨ ∃ behind, more = operator separator ++ behind) →
        Rereads item (tokens i) more fun value _ => reads i value) :
    Rereads (separatedBy separator stop item)
      (separated (operator separator) trailing (items.map tokens)) rest fun result _ =>
        List.Forall₂ reads items result.1 ∧ result.2 = (trailing && !items.isEmpty) := by
  have hdone : ∀ values more, Rereads (separatedStep separator stop item (values, more)) [] rest
      fun next pieces => next = none ∧ pieces = [] := by
    intro values more
    refine .ahead (f := true) hstop ?_
    rw [Bool.or_true, if_pos rfl]
    exact .pure ⟨rfl, rfl⟩
  have hloop : Loops (separatedStep separator stop item) ([], true)
      (separated (operator separator) trailing (items.map tokens)) rest fun last _ =>
        ∃ found, List.Forall₂ reads items found ∧
        last = (found.reverse ++ [], trailing || items.isEmpty) := by
    refine .items (fun i hi => (hitems i hi).1) ?more ?last (fun values => hdone values false)
      (fun _ value values => hdone _ true) (fun _ => hdone _ true)
    case more =>
      intro _ i hi values behind
      obtain ⟨-, hgoes, hitem⟩ := hitems i hi
      refine .ahead (f := false) (by rw [List.append_assoc, hgoes]) ?_
      rw [Bool.or_false, if_neg (by decide)]
      refine .bind (hitem _ (.inr ⟨_, rfl⟩)) fun value _ hvalue => ?_
      refine .ahead (f := false) (hseparator _) ?_
      rw [if_neg (by decide)]
      exact (Rereads.op hmark).bindAll fun _ _ _ => .pure ⟨value, hvalue, rfl⟩
    case last =>
      intro _ i hi values
      obtain ⟨-, hgoes, hitem⟩ := hitems i hi
      refine .ahead (f := false) (hgoes _) ?_
      rw [Bool.or_false, if_neg (by decide)]
      refine .bindAll (hitem _ (.inl rfl)) fun value _ hvalue => ?_
      refine .ahead (f := true) hstop ?_
      rw [if_pos rfl]
      exact .pure ⟨value, hvalue, rfl⟩
  refine hloop.loop.bindAll ?_
  rintro _ pieces ⟨found, hfound, rfl⟩
  refine .pure ⟨?_, ?_⟩
  · simpa using hfound
  · cases hfound <;> simp

end Source.Grammar

end Bindery
