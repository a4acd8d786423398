import Bindery.Proofs.Source.Grammar
import Bindery.Proofs.Token.Legible
import Bindery.Registration
import Bindery.Survey
/-!
# Paths of names

A path that consists of names alone is shown as the names with double colons between them. This text
is lexed as the tokens of the path (`lexes_shownPath`) and read as the path (`readPath_shownPath`).
What names spell is the text of such a path (`Spells.readPath`).
-/

namespace Bindery.Source

open Token (isIdent)

namespace Grammar

/-! ## Segments -/

/-- The words that are no identifiers and still may be segments of a path. -/
def pathWords : List String :=
  ["super", "self", "Self", "crate", "try"]

/-- Whether a text may be a segment of a path. -/
def IsPathName (name : String) : Prop :=
  isIdent name = true ∧ (name ∈ Ahead.keywords → name ∈ pathWords)

instance (name : String) : Decidable (IsPathName name) :=
  inferInstanceAs (Decidable (_ ∧ _))

/-- A name in a path is read with what follows it as its arguments, unless it is a word that has
none. -/
theorem reads_pathSegment_of {name : String} (h : IsPathName name) (rules : Rules) (line : Nat)
    {expression : Bool} {trees rest : Trees} {segment : Segment}
    (hsegment : Reads (do
      if ← ahead (Ahead.angleArgs expression) then
        return Segment.mk name (.angle (← angleArgs rules))
      else return .mk name .none) trees segment rest)
    (hwords : name ∈ ["super", "self", "crate", "try"] → segment = .mk name .none ∧ trees = rest) :
    Reads (pathSegment rules expression) (.leaf ⟨.ident name, line⟩ :: trees) segment rest := by
  obtain ⟨hident, hkeyword⟩ := h
  refine (Reads.ahead _).bind ?_
  -- Words that are segments by themselves come first, then `Self`, then any other name.
  by_cases hword : name ∈ ["super", "self", "crate", "try"]
  · have hahead : Ahead.anyWord ["super", "self", "crate", "try"]
        (.leaf ⟨.ident name, line⟩ :: trees) = true := by
      simpa [Ahead.anyWord, Ahead.word] using hword
    obtain ⟨rfl, rfl⟩ := hwords hword
    rw [if_pos hahead]
    exact (Reads.anyIdent hident line).bind (.pure _)
  · have hahead : Ahead.anyWord ["super", "self", "crate", "try"]
        (.leaf ⟨.ident name, line⟩ :: trees) = false := by
      simpa [Ahead.anyWord, Ahead.word] using hword
    rw [hahead, if_neg (by decide)]
    refine (Reads.ahead _).bind ?_
    by_cases hself : name = "Self"
    · have hahead : Ahead.word "Self" (.leaf ⟨.ident name, line⟩ :: trees) = true := by
        simpa [Ahead.word] using hself
      rw [if_pos hahead]
      exact (Reads.anyIdent hident line).bind hsegment
    · have hahead : Ahead.word "Self" (.leaf ⟨.ident name, line⟩ :: trees) = false := by
        simpa [Ahead.word] using hself
      rw [hahead, if_neg (by decide)]
      have hfree : name ∉ Ahead.keywords := by
        intro hmem
        have := hkeyword hmem
        simp_all [pathWords]
      exact (Reads.ident hident hfree line).bind hsegment

theorem reads_pathSegment {name : String} (h : IsPathName name) (rules : Rules) (line : Nat)
    {expression : Bool} {rest : Trees} (hrest : Ahead.angleArgs expression rest = false) :
    Reads (pathSegment rules expression) (.leaf ⟨.ident name, line⟩ :: rest) (.mk name .none)
      rest := by
  refine reads_pathSegment_of h rules line ?_ fun _ => ⟨rfl, rfl⟩
  refine (Reads.ahead _).bind ?_
  rw [hrest, if_neg (by decide)]
  exact .pure _

theorem exists_of_tokens_cons {trees : Trees} {token : Token} {tokens : List (TokenTree Token)}
    (h : trees.tokens = .leaf token :: tokens) :
    ∃ line rest, trees = .leaf ⟨token, line⟩ :: rest ∧ Trees.tokens rest = tokens := by
  rcases trees with _ | ⟨⟨⟨found, line⟩⟩ | _, rest⟩
  · cases h
  · obtain ⟨hhead, hrest⟩ := List.cons.inj h
    obtain rfl : found = token := TokenTree.leaf.inj hhead
    exact ⟨line, rest, rfl, hrest⟩
  · cases (List.cons.inj h).1

theorem absoluteName_cons (name : String) (names : List String) :
    absoluteName (name :: names) =
      .leaf (.punct ':' true) :: .leaf (.punct ':' false) :: .leaf (.ident name) ::
        absoluteName names := rfl

theorem absoluteName_append (first second : List String) :
    absoluteName (first ++ second) = absoluteName first ++ absoluteName second :=
  List.flatMap_append

/-- Nothing that looks like generic arguments follows a name in a path of names. -/
theorem angleArgs_absoluteName {names : List String} {trees : Trees}
    (h : trees.tokens = absoluteName names) : Ahead.angleArgs false trees = false := by
  cases names with
  | nil =>
    obtain rfl : trees = [] := by
      cases trees with
      | nil => rfl
      | cons => cases h
    rfl
  | cons name names =>
    rw [absoluteName_cons] at h
    obtain ⟨_, _, rfl, hcolon⟩ := exists_of_tokens_cons h
    obtain ⟨_, _, rfl, hname⟩ := exists_of_tokens_cons hcolon
    obtain ⟨_, _, rfl, -⟩ := exists_of_tokens_cons hname
    rfl

/-- The further names of a path. -/
theorem repeats_names (rules : Rules) {names : List String} {trees : Trees}
    (hnames : ∀ name ∈ names, IsPathName name) (h : trees.tokens = absoluteName names) :
    Repeats (do
        if ← ahead Ahead.moreSegments then
          op "::"
          return some (← pathSegment rules false)
        else return none) trees (names.map (Segment.mk · .none)) [] := by
  induction names generalizing trees with
  | nil =>
    obtain rfl : trees = [] := by
      cases trees with
      | nil => rfl
      | cons => cases h
    exact .last ((Reads.ahead _).bind (.pure none))
  | cons name names ih =>
    rw [absoluteName_cons] at h
    obtain ⟨_, _, rfl, hcolon⟩ := exists_of_tokens_cons h
    obtain ⟨_, _, rfl, hname⟩ := exists_of_tokens_cons hcolon
    obtain ⟨line, rest, rfl, hrest⟩ := exists_of_tokens_cons hname
    have hsegment := reads_pathSegment (hnames name List.mem_cons_self) rules line
      (angleArgs_absoluteName hrest)
    refine .more ((Reads.ahead _).bind ((Reads.op rfl).bind (hsegment.bind (.pure _)))) ?_
      (ih (fun other hother => hnames other (List.mem_cons_of_mem _ hother)) hrest)
    simp only [List.length_cons]
    omega

end Grammar

/-! ## Paths of names -/

namespace Path

/-- A path of names. -/
def ofNames (absolute : Bool) (names : List String) : Path :=
  .mk absolute (names.map (Segment.mk · .none))

/-- Whether a path consists of names alone, at least one, each of which may stand in a path. -/
def IsSimple (path : Path) : Prop :=
  ∃ absolute first more, path = ofNames absolute (first :: more) ∧
    ∀ name ∈ first :: more, Grammar.IsPathName name

theorem segmentTokens_ofNames (names : List String) :
    segmentTokens .asWritten (names.map (Segment.mk · .none)) = names.map word := by
  induction names with
  | nil => rfl
  | cons name names ih =>
    rw [List.map_cons, segmentTokens, ih, argsTokens, List.append_nil, List.map_cons]

theorem separated_words (first : String) (more : List String) :
    separated (operator "::") false ((first :: more).map word) =
      word first ++ absoluteName more := by
  induction more generalizing first with
  | nil => rfl
  | cons second more ih =>
    have hstep : separated (operator "::") false ((first :: second :: more).map word) =
        word first ++ operator "::" ++
          separated (operator "::") false ((second :: more).map word) := rfl
    rw [hstep, ih, List.append_assoc]
    rfl

theorem tokens_ofNames (absolute : Bool) (first : String) (more : List String) :
    (ofNames absolute (first :: more)).tokens =
      (if absolute then operator "::" else []) ++ (word first ++ absoluteName more) := by
  rw [← separated_words, ← segmentTokens_ofNames]
  rfl

/-- Names as they are shown after another one. -/
def shownNames : List String → String
  | [] => ""
  | name :: names => "::" ++ name ++ shownNames names

theorem shownNames_append (first second : List String) :
    shownNames (first ++ second) = shownNames first ++ shownNames second := by
  induction first with
  | nil => simp [shownNames]
  | cons name names ih =>
    rw [List.cons_append, shownNames, ih, shownNames]
    simp only [String.append_assoc]

theorem intercalate_eq (first : String) (more : List String) :
    String.intercalate "::" (first :: more) = first ++ shownNames more := by
  induction more generalizing first with
  | nil => simp [shownNames]
  | cons second more ih =>
    rw [String.intercalate_cons_cons, ih, shownNames]
    simp only [String.append_assoc]

/-- A path of names as it is shown. -/
theorem shownPath_ofNames (absolute : Bool) (first : String) (more : List String) :
    shownPath (ofNames absolute (first :: more)) =
      (if absolute then "::" else "") ++ (first ++ shownNames more) := by
  have hnames : (ofNames absolute (first :: more)).names = first :: more := by
    simp [ofNames, names, segments, Segment.name, Function.comp_def]
  rw [shownPath, hnames, intercalate_eq]
  rfl

end Path

/-! ## Reading them -/

section
open Token Grammar

/-- What follows a name in a path of names does not lengthen the name. -/
theorem endsWord_names (names : List String) {rest : List Char} (hrest : EndsWord rest) :
    EndsWord ((Path.shownNames names).toList ++ rest) := by
  cases names with
  | nil => exact hrest
  | cons name names =>
    intro c hc
    simp only [Path.shownNames, String.toList_append] at hc
    obtain rfl : ':' = c := Option.some.inj hc
    decide

theorem lexes_colons {name : String} (h : isIdent name = true) (rest : List Char) :
    Lexes "::".toList (name.toList ++ rest) (operator "::") := by
  have hname : startsPunct (name.toList ++ rest) = false := by
    obtain ⟨c, tail, hname, hstart⟩ := exists_cons_of_isIdent h
    rw [hname]
    exact startsPunct_eq_false (not_mem_punctuation hstart)
  have hcolon : ∀ joint, Legible (.punct ':' joint) := fun _ => ⟨by decide, by decide, by decide⟩
  have hfirst : Lexes [':'] (':' :: (name.toList ++ rest)) [.leaf (.punct ':' true)] :=
    lexes_token (hcolon true) (startsPunct_of_mem (by decide) (by decide))
  exact hfirst.append (lexes_token (hcolon false) hname)

theorem lexes_shownNames {names : List String} (hnames : ∀ name ∈ names, isIdent name = true)
    {rest : List Char} (hrest : EndsWord rest) :
    Lexes (Path.shownNames names).toList rest (absoluteName names) := by
  induction names with
  | nil => exact lexes_of_skips skips_nil
  | cons name names ih =>
    have hname := hnames name List.mem_cons_self
    have hmore := ih fun other hother => hnames other (List.mem_cons_of_mem _ hother)
    have hword : Lexes name.toList _ [.leaf (.ident name)] :=
      lexes_token hname (endsWord_names names hrest)
    have hcolons := lexes_colons hname ((Path.shownNames names).toList ++ rest)
    rw [← List.append_assoc] at hcolons
    rw [Path.shownNames, String.append_assoc, String.toList_append, String.toList_append]
    exact hcolons.append (hword.append hmore)

/-- Identifiers with double colons between them are lexed as the tokens of their path. -/
theorem lexes_shownPath {absolute : Bool} {first : String} {more : List String}
    (hnames : ∀ name ∈ first :: more, isIdent name = true) {rest : List Char}
    (hrest : EndsWord rest) :
    Lexes (shownPath (.ofNames absolute (first :: more))).toList rest
      (Path.ofNames absolute (first :: more)).tokens := by
  obtain ⟨hfirst, hnames⟩ := List.forall_mem_cons.1 hnames
  have hmore := lexes_shownNames hnames hrest
  have hword : Lexes first.toList _ [.leaf (.ident first)] :=
    lexes_token hfirst (endsWord_names more hrest)
  have hpath := hword.append hmore
  rw [Path.shownPath_ofNames, Path.tokens_ofNames, String.toList_append, String.toList_append]
  cases absolute with
  | false => exact hpath
  | true =>
    have hcolons := lexes_colons hfirst ((Path.shownNames more).toList ++ rest)
    rw [← List.append_assoc] at hcolons
    exact hcolons.append hpath

theorem head?_shownPath {absolute : Bool} {first : String} {more : List String}
    (hfirst : isIdent first = true) :
    (shownPath (.ofNames absolute (first :: more))).toList.head? ≠ some '\ufeff' := by
  rw [Path.shownPath_ofNames, String.toList_append, String.toList_append]
  cases absolute with
  | true => exact fun h => absurd (Option.some.inj h) (by decide)
  | false =>
    obtain ⟨c, tail, hfirst, hstart⟩ := exists_cons_of_isIdent hfirst
    rw [hfirst]
    intro h
    obtain rfl : c = '\ufeff' := Option.some.inj h
    exact absurd hstart (by decide +kernel)

/-- A path of identifiers is read from its tokens. -/
theorem exists_lex_shownPath {absolute : Bool} {first : String} {more : List String}
    (hnames : ∀ name ∈ first :: more, isIdent name = true) :
    ∃ trees, lex? (shownPath (.ofNames absolute (first :: more))) = some trees ∧
      trees.tokens = (Path.ofNames absolute (first :: more)).tokens := by
  have hends : EndsWord [] := fun _ h => nomatch h
  have hmark : (shownPath (.ofNames absolute (first :: more))).toList.head? ≠ some '\ufeff' :=
    head?_shownPath (hnames first List.mem_cons_self)
  exact Option.map_eq_some_iff.1 ((lexes_shownPath hnames hends).lexedAs hmark)

/-- The tokens of a path of names are read as the path. -/
theorem reads_anyPath (rules : Rules) {path : Path} (h : path.IsSimple) {trees : Trees}
    (htrees : trees.tokens = path.tokens) : Reads (anyPath rules) trees path [] := by
  obtain ⟨absolute, first, more, rfl, hnames⟩ := h
  rw [Path.tokens_ofNames] at htrees
  have hpath : ∀ trees : Trees, trees.tokens = word first ++ absoluteName more →
      Reads (do
        let segment ← pathSegment rules false
        let segments ← many do
          if ← ahead Ahead.moreSegments then
            op "::"
            return some (← pathSegment rules false)
          else return none
        return Path.mk absolute (segment :: segments)) trees (.ofNames absolute (first :: more))
          [] := by
    intro trees htrees
    obtain ⟨line, rest, rfl, hrest⟩ := exists_of_tokens_cons htrees
    have hsegment := reads_pathSegment (hnames first List.mem_cons_self) rules line
      (angleArgs_absoluteName hrest)
    have hmore := repeats_names rules
      (fun name hname => hnames name (List.mem_cons_of_mem _ hname)) hrest
    exact hsegment.bind (hmore.many.bind (.pure _))
  cases absolute with
  | false =>
    obtain ⟨line, rest, rfl, hrest⟩ := exists_of_tokens_cons htrees
    exact (Reads.op?_false rfl).bind (hpath _ htrees)
  | true =>
    obtain ⟨_, _, rfl, hcolon⟩ := exists_of_tokens_cons htrees
    obtain ⟨_, rest, rfl, hrest⟩ := exists_of_tokens_cons hcolon
    exact (Reads.op?_true rfl).bind (hpath _ hrest)

/-- A path of names is read as it is shown. -/
theorem readPath_shownPath {path : Path} (h : path.IsSimple) :
    readPath (shownPath path) = .ok path := by
  obtain ⟨trees, hlex, htokens⟩ :
      ∃ trees, lex? (shownPath path) = some trees ∧ trees.tokens = path.tokens := by
    obtain ⟨absolute, first, more, rfl, hnames⟩ := h
    exact exists_lex_shownPath fun name hname => (hnames name hname).1
  obtain ⟨taken, hrun⟩ := reads_anyPath (Rules.for trees) h htokens []
  rw [readPath, read, hlex]
  show readTrees anyPath trees = _
  rw [readTrees, whole, hrun]
  rfl

end

/-! ## Names that spell a text -/

/-- Names spell a text: there is at least one, and double colons stand between them. -/
def Spells (names : List String) (text : String) : Prop :=
  names ≠ [] ∧ text = String.intercalate "::" names

namespace Spells

variable {names : List String} {text : String}

/-- What is spelled goes on with another name. -/
theorem snoc (h : Spells names text) (name : String) :
    Spells (names ++ [name]) (text ++ "::" ++ name) := by
  obtain ⟨hnonempty, rfl⟩ := h
  obtain ⟨first, more, rfl⟩ := List.exists_cons_of_ne_nil hnonempty
  refine ⟨List.cons_ne_nil _ _, ?_⟩
  rw [List.cons_append, Path.intercalate_eq, Path.intercalate_eq, Path.shownNames_append]
  simp only [Path.shownNames, String.append_assoc, String.append_empty]

/-- What names spell is shown as their path. -/
theorem shownPath (h : Spells names text) : Bindery.shownPath (.ofNames false names) = text := by
  obtain ⟨hnonempty, rfl⟩ := h
  obtain ⟨first, more, rfl⟩ := List.exists_cons_of_ne_nil hnonempty
  rw [Path.shownPath_ofNames, if_neg (by decide), String.empty_append, Path.intercalate_eq]

/-- Names that may stand in a path are read as the path of the names. -/
theorem readPath (h : Spells names text) (hnames : ∀ name ∈ names, Grammar.IsPathName name) :
    readPath text = .ok (.ofNames false names) := by
  obtain ⟨first, more, rfl⟩ := List.exists_cons_of_ne_nil h.1
  rw [← h.shownPath]
  exact readPath_shownPath ⟨false, first, more, rfl, hnames⟩

/-- The tokens of the path are the names, one by one. -/
theorem tokens (h : Spells names text) :
    (Path.ofNames false names).tokens = separated (operator "::") false (names.map word) := by
  obtain ⟨first, more, rfl⟩ := List.exists_cons_of_ne_nil h.1
  rw [Path.separated_words, Path.tokens_ofNames, if_neg (by decide), List.nil_append]

end Spells

end Bindery.Source
