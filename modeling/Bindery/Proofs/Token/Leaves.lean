import Bindery.Proofs.Token.Word
import Bindery.Proofs.Token.Legible
/-!
# The tokens at the leaves

Whatever stands in token trees stands at their leaves. In a text that is lexed every word is an
identifier and every mark a punctuation character (`fitsList_of_lex?`), so that only its literals
can hold anything else, such as a line end (`literal_of_lineEnd`).
-/

namespace Bindery

namespace TokenTree

variable {α β : Type}

mutual

/-- The tokens of a tree, whatever groups they stand in. -/
def leaves : TokenTree α → List α
  | leaf token => [token]
  | group _ body => leavesList body

/-- The tokens of a list of trees. -/
def leavesList : List (TokenTree α) → List α
  | [] => []
  | tree :: rest => leaves tree ++ leavesList rest

end

theorem leavesList_append (first second : List (TokenTree α)) :
    leavesList (first ++ second) = leavesList first ++ leavesList second := by
  induction first with
  | nil => rfl
  | cons tree rest ih => rw [List.cons_append, leavesList, ih, leavesList, List.append_assoc]

mutual

theorem leaves_map (f : α → β) : ∀ tree : TokenTree α, (tree.map f).leaves = tree.leaves.map f
  | leaf _ => rfl
  | group _ body => leavesList_mapList f body

theorem leavesList_mapList (f : α → β) : ∀ trees : List (TokenTree α),
    leavesList (mapList f trees) = (leavesList trees).map f
  | [] => rfl
  | tree :: rest => by
    rw [mapList, leavesList, leavesList, List.map_append, leaves_map f tree,
      leavesList_mapList f rest]

end

/-- What is cut out of trees has no tokens of its own. -/
theorem leavesList_sublist {first second : List (TokenTree α)} (h : first.Sublist second) :
    (leavesList first).Sublist (leavesList second) := by
  induction h with
  | slnil => exact .slnil
  | cons tree _ ih => exact ih.trans (List.sublist_append_right _ _)
  | cons_cons tree _ ih => exact ih.append_left _

end TokenTree

open TokenTree (leaves leavesList leavesList_append)

namespace Token

open Text

/-! ## Tokens that fit into a text -/

/-- Whether a token can stand in a text whose literals have a property. -/
def Fits (literal : String → Prop) : Token → Prop
  | .ident name => isIdent name = true
  | .punct c _ => c ∈ punctuation
  | .literal text => literal text

/-- Whether all tokens of some trees fit. -/
def FitsList (literal : String → Prop) (trees : List (TokenTree Token)) : Prop :=
  ∀ token ∈ leavesList trees, token.Fits literal

section
variable {literal other : String → Prop} {first second body : List (TokenTree Token)}

theorem fitsList_nil : FitsList literal [] :=
  fun _ h => nomatch h

theorem fitsList_append :
    FitsList literal (first ++ second) ↔ FitsList literal first ∧ FitsList literal second := by
  unfold FitsList
  rw [leavesList_append]
  exact List.forall_mem_append

theorem fitsList_leaf {token : Token} :
    FitsList literal (.leaf token :: second) ↔ token.Fits literal ∧ FitsList literal second :=
  List.forall_mem_cons

theorem fitsList_group {delimiter : Delimiter} :
    FitsList literal (.group delimiter body :: second) ↔
      FitsList literal body ∧ FitsList literal second := by
  have hgroup : FitsList literal [.group delimiter body] ↔ FitsList literal body := by
    rw [FitsList, leavesList, leavesList, List.append_nil]
    rfl
  exact (fitsList_append : FitsList literal ([.group delimiter body] ++ second) ↔ _).trans
    (and_congr_left' hgroup)

theorem FitsList.imp (h : FitsList literal first)
    (himp : ∀ text, .literal text ∈ leavesList first → literal text → other text) :
    FitsList other first := by
  intro token htoken
  have hfits := h token htoken
  cases token with
  | ident | punct => exact hfits
  | literal text => exact himp text htoken hfits

end

/-! ## What is lexed -/

/-- Nesting puts no tokens in. -/
theorem forall_leaves_of_nest? {property : Lexeme → Prop} {items : List Lexed}
    {stack : List (Delimiter × Trees)} {trees result : Trees}
    (hitems : ∀ lexeme, .leaf lexeme ∈ items → property lexeme)
    (hstack : ∀ opened ∈ stack, ∀ lexeme ∈ leavesList opened.2, property lexeme)
    (htrees : ∀ lexeme ∈ leavesList trees, property lexeme)
    (h : nest? items stack trees = some result) :
    ∀ lexeme ∈ leavesList result, property lexeme := by
  have hreverse : ∀ trees : Trees, (∀ lexeme ∈ leavesList trees, property lexeme) →
      ∀ lexeme ∈ leavesList trees.reverse, property lexeme := by
    intro trees
    induction trees with
    | nil => exact id
    | cons tree rest ih =>
      intro hall
      obtain ⟨htree, hrest⟩ := List.forall_mem_append.1 hall
      rw [List.reverse_cons, leavesList_append, leavesList, leavesList, List.append_nil]
      exact List.forall_mem_append.2 ⟨ih hrest, htree⟩
  induction items generalizing stack trees with
  | nil =>
    cases stack with
    | nil =>
      obtain rfl := Option.some.inj h
      exact hreverse trees htrees
    | cons => cases h
  | cons item rest ih =>
    have hrest : ∀ lexeme, .leaf lexeme ∈ rest → property lexeme :=
      fun lexeme hmem => hitems lexeme (List.mem_cons_of_mem _ hmem)
    cases item with
    | leaf lexeme =>
      have htrees : ∀ found ∈ leavesList (.leaf lexeme :: trees), property found :=
        List.forall_mem_cons.2 ⟨hitems lexeme List.mem_cons_self, htrees⟩
      exact ih hrest hstack htrees h
    | opening delimiter =>
      have hnone : ∀ found ∈ leavesList ([] : Trees), property found := fun _ hmem => nomatch hmem
      exact ih hrest (List.forall_mem_cons.2 ⟨htrees, hstack⟩) hnone h
    | closing delimiter =>
      cases stack with
      | nil => cases h
      | cons opened stack =>
        obtain ⟨opened, outer⟩ := opened
        obtain ⟨houter, hstack⟩ := List.forall_mem_cons.1 hstack
        rw [nest?] at h
        split at h
        · have hgroup : ∀ found ∈ leavesList (.group delimiter trees.reverse :: outer),
              property found :=
            List.forall_mem_append.2 ⟨hreverse trees htrees, houter⟩
          exact ih hrest hstack hgroup h
        · cases h

/-- A word that stands at the head of a text is an identifier. -/
theorem isIdent_of_identLength? {cs : List Char} {length : Nat}
    (h : identLength? cs = some length) : isIdent (String.ofList (cs.take length)) = true := by
  have hword : ∀ {cs : List Char} {length : Nat}, wordLength? cs = some length →
      wordLength? (cs.take length) = some (cs.take length).length := by
    intro cs length hlength
    have happend : wordLength? (cs.take length ++ []) = some (cs.take length).length :=
      wordLength?_append (isWord_of_wordLength? hlength).1 (fun _ h => nomatch h)
    rwa [List.append_nil] at happend
  rw [isIdent, beq_iff_eq, String.toList_ofList]
  unfold identLength? at h
  split at h
  · next rest =>
    obtain ⟨length, hlength, h⟩ := Option.bind_eq_some_iff.1 h
    split at h
    · cases h
    · next hraw =>
      obtain rfl := Option.some.inj h
      rw [Nat.add_comm, List.take_succ_cons, List.take_succ_cons, identLength?, hword hlength]
      simp only [Option.bind_eq_bind, Option.bind_some, List.take_length]
      rw [if_neg hraw]
      simp only [List.length_cons]
      congr 1
      omega
  · next hraw =>
    have hlength := hword h
    unfold identLength?
    split
    · next more hmore =>
      -- A text whose beginning has the mark of raw identifiers has it as well.
      have happend := List.take_append_drop length cs
      rw [hmore] at happend
      exact absurd happend.symm (hraw _)
    · exact hlength

theorem fits_of_punct? {cs : List Char} {token : Token} (h : punct? cs = some token) :
    token.Fits fun _ => True := by
  unfold punct? at h
  split at h
  · split at h
    · obtain rfl := Option.some.inj h
      have hquote : '\x27' ∈ punctuation := by decide
      exact hquote
    · cases h
  · next c rest _ =>
    split at h
    · next hpunct =>
      obtain rfl := Option.some.inj h
      unfold startsPunct at hpunct
      split at hpunct
      · cases hpunct
      · cases hpunct
      · next c _ _ _ hcons =>
        obtain ⟨rfl, -⟩ := List.cons.inj hcons
        exact List.contains_iff_mem.1 hpunct
      · cases hpunct
    · cases h
  · cases h

theorem fits_of_leaf? {cs : List Char} {token : Token} {length : Nat}
    (h : leaf? cs = some (token, length)) : token.Fits fun _ => True := by
  unfold leaf? at h
  split at h
  · obtain ⟨rfl, -⟩ := Prod.mk.inj (Option.some.inj h)
    trivial
  · split at h
    · next hpunct =>
      obtain ⟨rfl, -⟩ := Prod.mk.inj (Option.some.inj h)
      exact fits_of_punct? hpunct
    · split at h
      · cases h
      · obtain ⟨length, hlength, hword⟩ := Option.map_eq_some_iff.1 h
        obtain ⟨rfl, -⟩ := Prod.mk.inj hword
        exact isIdent_of_identLength? hlength

theorem fits_docAttribute (line : Nat) (inner : Bool) (text : List Char) (lexeme : Lexeme)
    (h : .leaf lexeme ∈ docAttribute line inner text) : lexeme.token.Fits fun _ => True := by
  have hword : isIdent "doc" = true := by decide
  cases inner with
  | false =>
    simp only [docAttribute, Bool.false_eq_true, if_false, List.append_nil, List.cons_append,
      List.nil_append, List.mem_cons, Lexed.leaf.injEq, List.not_mem_nil, or_false, reduceCtorEq,
      false_or] at h
    rcases h with rfl | rfl | rfl | rfl <;> simp [Fits, punctuation, hword]
  | true =>
    simp only [docAttribute, if_true, List.cons_append, List.nil_append, List.mem_cons,
      Lexed.leaf.injEq, List.not_mem_nil, or_false, reduceCtorEq, false_or] at h
    rcases h with rfl | rfl | rfl | rfl | rfl <;> simp [Fits, punctuation, hword]

theorem fits_of_lexed? {line length : Nat} {cs : List Char} {items : List Lexed}
    (h : lexed? line cs = some (items, length)) :
    ∀ lexeme, .leaf lexeme ∈ items → lexeme.token.Fits fun _ => True := by
  unfold lexed? at h
  split at h
  · next inner text _ _ =>
    obtain ⟨rfl, -⟩ := Prod.mk.inj (Option.some.inj h)
    exact fits_docAttribute line inner text
  · split at h
    · split at h
      · obtain ⟨rfl, -⟩ := Prod.mk.inj (Option.some.inj h)
        intro lexeme hmem
        obtain rfl := Lexed.leaf.inj (List.mem_singleton.1 hmem)
        trivial
      · obtain ⟨rfl, -⟩ := Prod.mk.inj (Option.some.inj h)
        intro lexeme hmem
        cases List.mem_singleton.1 hmem
    case h_7 => 
      obtain ⟨⟨token, length⟩, hleaf, hitems⟩ := Option.map_eq_some_iff.1 h
      obtain ⟨rfl, -⟩ := Prod.mk.inj hitems
      intro lexeme hmem
      obtain rfl := Lexed.leaf.inj (List.mem_singleton.1 hmem)
      exact fits_of_leaf? hleaf
    all_goals
      obtain ⟨rfl, -⟩ := Prod.mk.inj (Option.some.inj h)
      intro lexeme hmem
      cases List.mem_singleton.1 hmem

theorem fits_of_lexAll? {fuel line : Nat} {cs : List Char} {found items : List Lexed}
    (hfound : ∀ lexeme, .leaf lexeme ∈ found → lexeme.token.Fits fun _ => True)
    (h : lexAll? fuel line cs found = some items) :
    ∀ lexeme, .leaf lexeme ∈ items → lexeme.token.Fits fun _ => True := by
  induction fuel generalizing line cs found with
  | zero => cases h
  | succ fuel ih =>
    rw [lexAll?] at h
    split at h
    · obtain rfl := Option.some.inj h
      exact fun lexeme hmem => hfound lexeme (List.mem_reverse.1 hmem)
    · split at h
      · cases h
      · next hlexed =>
        refine ih (fun lexeme hmem => ?_) h
        rcases List.mem_append.1 hmem with hmem | hmem
        · exact fits_of_lexed? hlexed lexeme (List.mem_reverse.1 hmem)
        · exact hfound lexeme hmem

/-- In a text that is lexed, words are identifiers and marks are punctuation characters. -/
theorem fitsList_of_lex? {text : String} {trees : Trees} (h : lex? text = some trees) :
    FitsList (fun text => .literal text ∈ leavesList trees.tokens) trees.tokens := by
  unfold lex? at h
  obtain ⟨items, hitems, htrees⟩ := Option.bind_eq_some_iff.1 h
  have hnone : ∀ lexeme, .leaf lexeme ∈ ([] : List Lexed) → lexeme.token.Fits fun _ => True :=
    fun _ hmem => nomatch hmem
  have hempty : ∀ lexeme ∈ leavesList ([] : Trees), lexeme.token.Fits fun _ => True :=
    fun _ hmem => nomatch hmem
  have hall : ∀ lexeme ∈ leavesList trees, lexeme.token.Fits fun _ => True :=
    forall_leaves_of_nest? (fits_of_lexAll? hnone hitems) (List.forall_mem_nil _) hempty htrees
  have hfits : FitsList (fun _ => True) trees.tokens := by
    unfold FitsList Trees.tokens
    rw [TokenTree.leavesList_mapList]
    exact List.forall_mem_map.2 hall
  exact hfits.imp fun text hmem _ => hmem

/-! ## Line ends -/

/-- A token that fits holds a line end only as a literal that does. -/
theorem literal_of_lineEnd {literal : String → Prop} {token : Token} (fits : token.Fits literal)
    (h : '\n' ∈ token.text) : ∃ text, token = .literal text ∧ '\n' ∈ text.toList := by
  cases token with
  | ident name =>
    rcases isIdentContinue_of_isIdent fits h with h | h <;> exact absurd h (by decide)
  | punct c joint =>
    obtain rfl := List.mem_singleton.1 h
    have hmark : '\n' ∉ punctuation := by decide
    exact absurd fits hmark
  | literal text => exact ⟨text, rfl, h⟩

mutual

theorem mem_compactTree_lineEnd : ∀ tree : TokenTree Token,
    '\n' ∈ compactTree tree ↔ ∃ token ∈ leaves tree, '\n' ∈ token.text
  | .leaf token => by simp [compactTree, leaves]
  | .group delimiter body => by
    have hopening : '\n' ≠ delimiter.opening := by cases delimiter <;> decide
    have hclosing : '\n' ≠ delimiter.closing := by cases delimiter <;> decide
    simp [compactTree, leaves, hopening, hclosing, mem_compactList_lineEnd body]

/-- The compact form holds a line end where one of its tokens does. -/
theorem mem_compactList_lineEnd : ∀ (trees : List (TokenTree Token)) (afterWord : Bool),
    '\n' ∈ compactList afterWord trees ↔ ∃ token ∈ leavesList trees, '\n' ∈ token.text
  | [], _ => by simp [compactList, leavesList]
  | tree :: rest, afterWord => by
    have hspace : '\n' ∉ (if afterWord && tree.isWord then [' '] else []) := by
      split <;> decide
    simp only [compactList, leavesList, List.mem_append, hspace, false_or,
      mem_compactTree_lineEnd tree, mem_compactList_lineEnd rest, or_and_right, exists_or]

end

/-- The compact form of tokens that fit is one line, but for the line ends of literals. -/
theorem lineEnd_mem_compact_iff {literal : String → Prop} {trees : List (TokenTree Token)}
    (fits : FitsList literal trees) : '\n' ∈ (compact trees).toList ↔
      ∃ text, .literal text ∈ leavesList trees ∧ '\n' ∈ text.toList := by
  rw [compact, String.toList_ofList, mem_compactList_lineEnd]
  constructor
  · rintro ⟨token, hmem, hline⟩
    obtain ⟨text, rfl, htext⟩ := literal_of_lineEnd (fits token hmem) hline
    exact ⟨text, hmem, htext⟩
  · rintro ⟨text, hmem, hline⟩
    exact ⟨_, hmem, hline⟩

end Token

end Bindery
