import Bindery.Token.Lexer
import Bindery.Token.Printer
import Mathlib.Data.List.Basic
/-!
# Texts that are lexed piece by piece

`Lexes text rest tokens`: in front of `rest`, lexing takes `text` as the tokens and goes on with
`rest`. Pieces of a text compose (`Lexes.append`), blanks and comments add nothing (`Lexes.skip`),
and brackets make a group of what stands between them (`lexes_group`). The whole of such a text has
the trees of its tokens (`Lexes.lexedAs`).
-/

namespace Bindery.Token

open Text

/-! ## Blanks and comments -/

/-- The same place, where the count began `k` earlier. -/
def Skim.later (k : Nat) : Skim → Skim
  | blank => .blank
  | line => .line
  | block depth start => .block depth (start + k)

/-- Where the skipping begins only moves its count. -/
theorem skim_later (k : Nat) (mode : Skim) (n : Nat) (cs : List Char) :
    skim (mode.later k) (n + k) cs = skim mode n cs + k := by
  have hadd : ∀ n i, n + k + i = n + i + k := fun n i => Nat.add_right_comm n k i
  fun_induction skim mode n cs
  case case2 mode n h => cases mode <;> simp_all [skim, Skim.later]
  case case9 n c rest ih => by_cases hc : c = '\n' <;> simp_all [skim, Skim.later]
  case case11 depth start n rest ih => by_cases hdepth : depth = 1 <;> simp_all [skim, Skim.later]
  all_goals simp_all [skim, Skim.later]

theorem skim_blank_add (n : Nat) (cs : List Char) : skim .blank n cs = skim .blank 0 cs + n := by
  have h := skim_later n .blank 0 cs
  rwa [Nat.zero_add] at h

theorem skim_line (n : Nat) {comment : List Char} (h : '\n' ∉ comment) (rest : List Char) :
    skim .line n (comment ++ '\n' :: rest) = skim .blank (n + comment.length + 1) rest := by
  induction comment generalizing n with
  | nil => simp [skim]
  | cons c comment ih =>
    obtain ⟨hc, hcomment⟩ := List.ne_and_not_mem_of_not_mem_cons h
    rw [List.cons_append, skim, if_neg (Ne.symm hc), ih _ hcomment, List.length_cons]
    congr 1
    omega

theorem skim_eq_zero {c : Char} {rest : List Char} (hblank : isBlank c = false) (hslash : c ≠ '/') :
    skim .blank 0 (c :: rest) = 0 := by
  unfold skim
  split <;> simp_all

theorem skim_cons {c : Char} (hblank : isBlank c = true) (rest : List Char) :
    skim .blank 0 (c :: rest) = skim .blank 0 rest + 1 := by
  have hslash : c ≠ '/' := by
    rintro rfl
    exact absurd hblank (by decide)
  rw [← skim_blank_add, skim.eq_def .blank 0 (c :: rest)]
  split <;> simp_all

/-- Whether skipping takes all of a text. -/
def Skips (text : List Char) : Prop :=
  ∀ rest, skim .blank 0 (text ++ rest) = text.length + skim .blank 0 rest

theorem skips_nil : Skips [] := fun _ => (Nat.zero_add _).symm

theorem Skips.append {first second : List Char} (hfirst : Skips first) (hsecond : Skips second) :
    Skips (first ++ second) := by
  intro rest
  rw [List.append_assoc, hfirst, hsecond, List.length_append, Nat.add_assoc]

theorem skips_blank {c : Char} (hblank : isBlank c = true) : Skips [c] := by
  intro rest
  rw [List.singleton_append, skim_cons hblank, Nat.add_comm, List.length_singleton]

/-- A comment that documents nothing is skipped with the end of its line. -/
theorem skips_comment {comment : List Char} (hdoc : ∀ rest, isLineDoc (comment ++ rest) = false)
    (hline : '\n' ∉ comment) : Skips ('/' :: '/' :: (comment ++ ['\n'])) := by
  intro rest
  have hassoc : comment ++ ['\n'] ++ rest = comment ++ '\n' :: rest := by simp
  rw [List.cons_append, List.cons_append, hassoc, skim, hdoc, if_neg (by decide),
    skim_line _ hline, skim_blank_add]
  simp only [List.length_cons, List.length_append, List.length_nil]
  omega

/-- What is skipped only moves the lines. -/
theorem lexAll?_skip {text : List Char} (h : Skips text) (fuel line : Nat) (rest : List Char)
    (found : List Lexed) :
    lexAll? fuel line (text ++ rest) found =
      lexAll? fuel (line + text.count '\n') rest found := by
  cases fuel with
  | zero => rfl
  | succ fuel =>
    have hlines : lineEnds (text.length + skim .blank 0 rest) (text ++ rest) =
        text.count '\n' + lineEnds (skim .blank 0 rest) rest := by
      rw [lineEnds, List.take_length_add_append, List.count_append, lineEnds]
    rw [lexAll?, lexAll?, h rest, hlines, List.drop_length_add_append, Nat.add_assoc]

/-! ## Nesting -/

mutual

/-- The tokens and brackets of a tree in their order. -/
def flatten : TokenTree Lexeme → List Lexed
  | .leaf lexeme => [.leaf lexeme]
  | .group delimiter body => .opening delimiter :: (flattenList body ++ [.closing delimiter])

/-- The tokens and brackets of a list of trees in their order. -/
def flattenList : Trees → List Lexed
  | [] => []
  | tree :: rest => flatten tree ++ flattenList rest

end

theorem flattenList_append (first second : Trees) :
    flattenList (first ++ second) = flattenList first ++ flattenList second := by
  induction first with
  | nil => rfl
  | cons tree rest ih => rw [List.cons_append, flattenList, ih, flattenList, List.append_assoc]

mutual

theorem nest?_flatten (tree : TokenTree Lexeme) (rest : List Lexed)
    (stack : List (Delimiter × Trees)) (trees : Trees) :
    nest? (flatten tree ++ rest) stack trees = nest? rest stack (tree :: trees) := by
  cases tree with
  | leaf lexeme => rfl
  | group delimiter body =>
    have hbody := nest?_flattenList body (.closing delimiter :: rest)
      ((delimiter, trees) :: stack) []
    rw [List.append_nil] at hbody
    rw [flatten, List.cons_append, List.append_assoc, nest?, List.singleton_append, hbody, nest?,
      if_pos rfl, List.reverse_reverse]

/-- Nesting finds the trees whose tokens and brackets it is given. -/
theorem nest?_flattenList (body : Trees) (rest : List Lexed) (stack : List (Delimiter × Trees))
    (trees : Trees) :
    nest? (flattenList body ++ rest) stack trees = nest? rest stack (body.reverse ++ trees) := by
  cases body with
  | nil => rfl
  | cons tree body =>
    rw [flattenList, List.append_assoc, nest?_flatten tree, nest?_flattenList body,
      List.reverse_cons, List.append_assoc, List.singleton_append]

end

/-! ## Texts and the tokens they are lexed as -/

/-- In front of `rest`, a text is lexed as tokens, on whatever line it stands. -/
def Lexes (text rest : List Char) (tokens : List (TokenTree Token)) : Prop :=
  ∀ line, ∃ (trees : Trees) (line' rounds : Nat), trees.tokens = tokens ∧ rounds ≤ text.length ∧
    ∀ fuel found, lexAll? (fuel + rounds) line (text ++ rest) found =
      lexAll? fuel line' rest ((flattenList trees).reverse ++ found)

variable {text first second rest : List Char} {tokens more : List (TokenTree Token)}

theorem lexes_of_skips (h : Skips text) : Lexes text rest [] := fun line =>
  ⟨[], line + text.count '\n', 0, rfl, Nat.zero_le _, fun fuel found =>
    lexAll?_skip h fuel line rest found⟩

theorem tokens_append (first second : Trees) :
    Trees.tokens (first ++ second) = first.tokens ++ second.tokens := by
  induction first with
  | nil => rfl
  | cons tree trees ih =>
    exact congrArg (TokenTree.map Lexeme.token tree :: ·) ih

theorem Lexes.append (hfirst : Lexes first (second ++ rest) tokens)
    (hsecond : Lexes second rest more) : Lexes (first ++ second) rest (tokens ++ more) := by
  intro line
  obtain ⟨trees, line', rounds, rfl, hrounds, hlex⟩ := hfirst line
  obtain ⟨trees', line'', rounds', rfl, hrounds', hlex'⟩ := hsecond line'
  refine ⟨trees ++ trees', line'', rounds' + rounds, tokens_append _ _, ?_, fun fuel found => ?_⟩
  · rw [List.length_append]
    omega
  · rw [List.append_assoc, ← Nat.add_assoc, hlex, hlex', flattenList_append, List.reverse_append,
      List.append_assoc]

/-- Blanks in front are skipped. -/
theorem Lexes.skip (hskips : Skips first) (h : Lexes second rest tokens) :
    Lexes (first ++ second) rest tokens :=
  (lexes_of_skips hskips).append h

/-- Blanks behind are skipped. -/
theorem Lexes.skip_end (h : Lexes first (second ++ rest) tokens) (hskips : Skips second) :
    Lexes (first ++ second) rest tokens := by
  have hskip : Lexes second rest [] := lexes_of_skips hskips
  have happend := h.append hskip
  rwa [List.append_nil] at happend

/-! ## One tree -/

/-- One round of lexing where no blank stands. -/
theorem lexAll?_step {cs : List Char} {items : List Lexed} {length line : Nat} (hcs : cs ≠ [])
    (hskim : skim .blank 0 cs = 0) (hlexed : lexed? line cs = some (items, length)) (fuel : Nat)
    (found : List Lexed) :
    lexAll? (fuel + 1) line cs found =
      lexAll? fuel (line + lineEnds length cs) (cs.drop length) (items.reverse ++ found) := by
  have hline : line + lineEnds 0 cs = line := rfl
  rw [lexAll?]
  simp only [hskim, hline, List.drop_zero]
  cases cs with
  | nil => exact absurd rfl hcs
  | cons c cs =>
    rw [hlexed]

/-- Whether a character begins neither a blank nor a comment nor a bracket. -/
def BeginsLeaf (c : Char) : Prop :=
  isBlank c = false ∧ c ∉ ['/', '(', ')', '[', ']', '\x7b', '\x7d']

/-- Where a token stands at the head, it takes a round of its own. -/
theorem lexes_of_lexed? {token : Token} (htext : text ≠ [])
    (hskim : skim .blank 0 (text ++ rest) = 0)
    (hlexed : ∀ line, lexed? line (text ++ rest) = some ([.leaf ⟨token, line⟩], text.length)) :
    Lexes text rest [.leaf token] := by
  intro line
  refine ⟨[.leaf ⟨token, line⟩], line + lineEnds text.length (text ++ rest), 1, rfl,
    List.length_pos_iff.2 htext, fun fuel found => ?_⟩
  rw [lexAll?_step (List.append_ne_nil_of_left_ne_nil htext _) hskim (hlexed line), List.drop_left]
  rfl

theorem lexes_leaf {c : Char} {tail : List Char} {token : Token} (hbegins : BeginsLeaf c)
    (hleaf : leaf? (c :: tail ++ rest) = some (token, (c :: tail).length)) :
    Lexes (c :: tail) rest [.leaf token] := by
  obtain ⟨hblank, hother⟩ := hbegins
  simp only [List.mem_cons, List.not_mem_nil, or_false, not_or] at hother
  have hdoc : docComment? (c :: tail ++ rest) = none := by
    rw [List.cons_append]
    unfold docComment?
    split <;> simp_all
  refine lexes_of_lexed? (List.cons_ne_nil _ _) (skim_eq_zero hblank hother.1) fun line => ?_
  unfold lexed?
  rw [hdoc]
  dsimp only
  split <;> simp_all

theorem placeholder_eq : placeholder = '(' :: (['/', '*'] ++ "ERROR*/)".toList) := by decide

/-- A closing bracket ends a round of its own. -/
theorem lexed?_closing (line : Nat) (delimiter : Delimiter) (rest : List Char) :
    lexed? line (delimiter.closing :: rest) = some ([.closing delimiter], 1) := by
  cases delimiter <;> rfl

/-- An opening bracket does as well, unless it begins the spelling of a token that is lacking. -/
theorem lexed?_opening (line : Nat) (delimiter : Delimiter) {rest : List Char}
    (h : ¬['/', '*'] <+: rest) :
    lexed? line (delimiter.opening :: rest) = some ([.opening delimiter], 1) := by
  cases delimiter with
  | bracket | brace => rfl
  | paren =>
    have hplaceholder : placeholder.isPrefixOf ('(' :: rest) = false := by
      rw [Bool.eq_false_iff]
      intro hprefix
      have hrest := List.isPrefixOf_iff_prefix.1 hprefix
      rw [placeholder_eq] at hrest
      exact h (List.IsPrefix.trans ⟨_, rfl⟩ (List.cons_prefix_cons.1 hrest).2)
    unfold lexed?
    simp [docComment?, Delimiter.opening, hplaceholder]

theorem lexes_group {delimiter : Delimiter} {body : List Char}
    (h : Lexes body (delimiter.closing :: rest) tokens) (hbody : ¬['/', '*'] <+: body) :
    Lexes (delimiter.opening :: (body ++ [delimiter.closing])) rest [.group delimiter tokens] := by
  intro line
  have hopening : isBlank delimiter.opening = false ∧ delimiter.opening ≠ '/' ∧
      delimiter.opening ≠ '\n' := by cases delimiter <;> decide
  have hclosing : isBlank delimiter.closing = false ∧ delimiter.closing ≠ '/' ∧
      delimiter.closing ≠ '\n' := by cases delimiter <;> decide
  have hstar : '*' ≠ delimiter.closing := by cases delimiter <;> decide
  have hhead : ¬['/', '*'] <+: body ++ delimiter.closing :: rest := by
    rcases body with _ | ⟨c, _ | ⟨d, body⟩⟩
    · simp [List.cons_prefix_cons, Ne.symm hclosing.2.1]
    · simp [List.cons_prefix_cons, hstar]
    · simpa [List.cons_prefix_cons] using hbody
  obtain ⟨trees, line', rounds, rfl, hrounds, hlex⟩ := h line
  refine ⟨[.group delimiter trees], line', rounds + 2, rfl, ?_, fun fuel found => ?_⟩
  · simp only [List.length_cons, List.length_append, List.length_nil]
    omega
  · have hassoc : delimiter.opening :: (body ++ [delimiter.closing]) ++ rest =
        delimiter.opening :: (body ++ delimiter.closing :: rest) := by simp
    have hopened : lineEnds 1 (delimiter.opening :: (body ++ delimiter.closing :: rest)) = 0 := by
      simp [lineEnds, hopening.2.2]
    have hclosed : lineEnds 1 (delimiter.closing :: rest) = 0 := by
      simp [lineEnds, hclosing.2.2]
    -- Each bracket takes a round of its own, around those of the body.
    have hfuel : fuel + (rounds + 2) = fuel + 1 + rounds + 1 := by omega
    rw [hassoc, hfuel, lexAll?_step (List.cons_ne_nil _ _) (skim_eq_zero hopening.1 hopening.2.1)
      (lexed?_opening _ _ hhead), hopened]
    show lexAll? (fuel + 1 + rounds) line (body ++ delimiter.closing :: rest) _ = _
    rw [hlex, lexAll?_step (List.cons_ne_nil _ _) (skim_eq_zero hclosing.1 hclosing.2.1)
      (lexed?_closing _ _ _), hclosed]
    simp [flattenList, flatten]

/-! ## The whole text -/

/-- Whether lexing gives the tokens of a text. -/
def LexedAs (text : String) (tokens : List (TokenTree Token)) : Prop :=
  (lex? text).map Trees.tokens = some tokens

/-- A text that is lexed as tokens up to its end has their trees. -/
theorem Lexes.lexedAs {text : String} (h : Lexes text.toList [] tokens)
    (hmark : text.toList.head? ≠ some '\ufeff') : LexedAs text tokens := by
  obtain ⟨trees, line, rounds, rfl, hrounds, hlex⟩ := h 1
  have hdrop : dropMark text.toList = text.toList := by
    unfold dropMark
    split
    · next hcs => exact absurd (by rw [hcs]; rfl) hmark
    · rfl
  have hlexed : lexAll? (text.toList.length + 1) 1 text.toList [] = some (flattenList trees) := by
    -- No text takes more rounds than it has characters.
    have hfuel : text.toList.length + 1 = text.toList.length - rounds + 1 + rounds := by omega
    have hall := hlex (text.toList.length - rounds + 1) []
    rw [List.append_nil, List.append_nil] at hall
    rw [hfuel, hall]
    simp [lexAll?, skim]
  have hnest := nest?_flattenList trees [] [] []
  rw [List.append_nil, List.append_nil] at hnest
  rw [LexedAs, Token.lex?]
  simp only [hdrop, hlexed, Option.bind_eq_bind, Option.bind_some, hnest, nest?,
    List.reverse_reverse, Option.map_some]

end Bindery.Token
