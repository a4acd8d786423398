import Bindery.Proofs.Round.Decoding
import Bindery.Proofs.Round.Emission
/-!
# Generated code is legible

Whatever is registered and whatever the index holds is made of words, operators and quoted texts,
all of which a text can hold as they are written.
-/

namespace Bindery

open Source (Path operator word separated)
open Source.Path Source.Grammar

/-! ## Words, operators and lists -/

namespace Token

theorem LegibleList.append {first second : List (TokenTree Token)} (hfirst : LegibleList first)
    (hsecond : LegibleList second) : LegibleList (first ++ second) := by
  induction first with
  | nil => exact hsecond
  | cons tree rest ih =>
    obtain ⟨htree, hjoint, hrest⟩ := hfirst
    refine ⟨htree, fun h => ?_, ih hrest⟩
    obtain ⟨char, joint, more, rfl⟩ := hjoint h
    exact ⟨char, joint, more ++ second, rfl⟩

theorem legible_leaf {token : Token} (h : Legible token) (hjoint : token.isJoint = false) :
    LegibleList [.leaf token] :=
  ⟨h, fun h => absurd (h.symm.trans hjoint) (by decide), trivial⟩

theorem legible_word {name : String} (h : isIdent name = true) : LegibleList (word name) :=
  legible_leaf h rfl

theorem legible_quote (value : String) :
    LegibleList [.leaf (.literal (Text.quote value))] :=
  legible_leaf ⟨value, rfl⟩ rfl

theorem legible_group (delimiter : Delimiter) {body : List (TokenTree Token)}
    (h : LegibleList body) : LegibleList [.group delimiter body] :=
  ⟨h, fun h => (nomatch h), trivial⟩

/-- Whether a punctuation character comes first. -/
def beginsPunct : List (TokenTree Token) → Bool
  | .leaf (.punct _ _) :: _ => true
  | _ => false

mutual

/-- Whether a tree is legible and holds no literal. -/
def isPlainTree : TokenTree Token → Bool
  | .leaf (.ident name) => isIdent name
  | .leaf (.punct char _) => punctuation.contains char && char != '/' && char != '\x27'
  | .leaf (.literal _) => false
  | .group _ body => isPlain body

/-- Whether trees are legible and hold no literal. What is written at all times alike is checked by
running this. -/
def isPlain : List (TokenTree Token) → Bool
  | [] => true
  | tree :: rest => isPlainTree tree && (!tree.isJoint || beginsPunct rest) && isPlain rest

end

mutual

theorem legible_of_isPlainTree : ∀ {tree : TokenTree Token}, isPlainTree tree = true →
    LegibleTree tree
  | .leaf (.ident name), h => h
  | .leaf (.punct char joint), h => by
    simpa [isPlainTree, LegibleTree, Legible, and_assoc] using h
  | .leaf (.literal text), h => nomatch h
  | .group _ body, h => legible_of_isPlain h

theorem legible_of_isPlain : ∀ {trees : List (TokenTree Token)}, isPlain trees = true →
    LegibleList trees
  | [], _ => trivial
  | tree :: rest, h => by
    simp only [isPlain, Bool.and_eq_true] at h
    obtain ⟨⟨htree, hjoint⟩, hrest⟩ := h
    refine ⟨legible_of_isPlainTree htree, fun h => ?_, legible_of_isPlain hrest⟩
    rw [h, Bool.not_true, Bool.false_or] at hjoint
    unfold beginsPunct at hjoint
    split at hjoint
    · exact ⟨_, _, _, rfl⟩
    · cases hjoint

end

theorem LegibleList.separated {separator : List (TokenTree Token)}
    (hseparator : LegibleList separator) (trailing : Bool) {items : List (List (TokenTree Token))}
    (hitems : ∀ item ∈ items, LegibleList item) :
    LegibleList (separated separator trailing items) := by
  induction items with
  | nil => trivial
  | cons item items ih =>
    have hitem := hitems item List.mem_cons_self
    cases items with
    | nil =>
      cases trailing with
      | false => exact hitem
      | true => exact hitem.append hseparator
    | cons next items =>
      have hmore := ih fun other hother => hitems other (List.mem_cons_of_mem _ hother)
      exact (hitem.append hseparator).append hmore

theorem legible_absoluteName {names : List String} (h : ∀ name ∈ names, isIdent name = true) :
    LegibleList (absoluteName names) := by
  induction names with
  | nil => trivial
  | cons name names ih =>
    rw [absoluteName_cons]
    have hcolons : LegibleList (operator "::") := legible_of_isPlain (by decide)
    have hname := legible_word (h name List.mem_cons_self)
    have hmore := ih fun other hother => h other (List.mem_cons_of_mem _ hother)
    exact (hcolons.append hname).append hmore

theorem legible_path {path : Path} (simple : path.IsSimple) : LegibleList path.tokens := by
  obtain ⟨absolute, first, more, rfl, hnames⟩ := simple
  have hfirst := legible_word (hnames first List.mem_cons_self).1
  have hmore := legible_absoluteName fun name hname =>
    (hnames name (List.mem_cons_of_mem _ hname)).1
  rw [tokens_ofNames]
  cases absolute with
  | false => exact hfirst.append hmore
  | true =>
    have hcolons : LegibleList (operator "::") := legible_of_isPlain (by decide)
    exact hcolons.append (hfirst.append hmore)

end Token

/-! ## Statements -/

open Token

theorem legible_comma : LegibleList (operator ",") := legible_of_isPlain (by decide)

theorem legible_call {arguments : List (List (TokenTree Token))}
    (h : ∀ argument ∈ arguments, LegibleList argument) : LegibleList (callTokens arguments) :=
  legible_group .paren (legible_comma.separated false h)

theorem legible_parameterNames : ∀ item ∈ parameterNames, LegibleList item := by
  have hplain : parameterNames.all isPlain = true := by decide +kernel
  exact fun item hitem => legible_of_isPlain (List.all_eq_true.1 hplain item hitem)

theorem legible_making (making : Making) {runtime path : Path} (hruntime : runtime.IsSimple)
    (hpath : path.IsSimple) : LegibleList (making.tokens runtime path) := by
  have htokens := legible_path hpath
  cases making with
  | named => exact htokens
  | default =>
    have hopen : LegibleList (operator "<") := legible_of_isPlain (by decide)
    have hcast : LegibleList (word "as" ++ absoluteName ["core", "default", "Default"] ++
        operator ">" ++ operator "::" ++ word "default" ++ callTokens []) :=
      legible_of_isPlain (by decide +kernel)
    have hall := hopen.append (htokens.append hcast)
    simpa only [Making.tokens, List.append_assoc] using hall
  | adapted =>
    have hbar : LegibleList (operator "|") := legible_of_isPlain (by decide)
    have hparameters := legible_comma.separated false legible_parameterNames
    have hclosure := (((hbar.append hparameters).append hbar).append htokens).append
      (legible_call legible_parameterNames)
    have hadapter : LegibleList (absoluteName ["FnDelegate", "new"]) :=
      legible_of_isPlain (by decide +kernel)
    refine ((legible_path hruntime).append hadapter).append (legible_call ?_)
    intro argument hargument
    obtain rfl := List.mem_singleton.1 hargument
    exact hclosure

theorem legible_mark (mark : Mark) {delegate : List (TokenTree Token)}
    (h : LegibleList delegate) : LegibleList (mark.tokens delegate) := by
  have hshared : LegibleList
      (absoluteName ["std", "sync", "Arc", "new"] ++ callTokens [delegate]) := by
    have harc : LegibleList (absoluteName ["std", "sync", "Arc", "new"]) :=
      legible_of_isPlain (by decide +kernel)
    refine harc.append (legible_call ?_)
    intro argument hargument
    obtain rfl := List.mem_singleton.1 hargument
    exact h
  cases mark with
  | provider key =>
    have hdefine : LegibleList (word "registry" ++ operator "." ++ word "define") :=
      legible_of_isPlain (by decide +kernel)
    refine hdefine.append (legible_call ?_)
    simp only [List.forall_mem_cons]
    exact ⟨legible_quote key, hshared, fun _ h => nomatch h⟩
  | gateway =>
    have hset : LegibleList (word "registry" ++ operator "." ++ word "set_interceptor") :=
      legible_of_isPlain (by decide +kernel)
    refine hset.append (legible_call ?_)
    simp only [List.forall_mem_cons]
    exact ⟨hshared, fun _ h => nomatch h⟩

/-! ## Units and the index -/

namespace Target

theorem legible_signature {target : Target} (simple : target.runtime.IsSimple) (role : Role) :
    LegibleList (target.signature role) := by
  have hhead : LegibleList (word "pub" ++ word "fn" ++ word role.entryPoint) :=
    legible_of_isPlain (by cases role <;> decide +kernel)
  have hparameter : LegibleList (word "registry" ++ operator ":" ++ operator "&") :=
    legible_of_isPlain (by decide +kernel)
  have htype : LegibleList (absoluteName ["Registry"]) := legible_of_isPlain (by decide +kernel)
  exact hhead.append (legible_group .paren ((hparameter.append (legible_path simple)).append htype))

theorem legible_inclusion (unit : Artifact) : LegibleList (inclusion unit) := by
  have hinclude : LegibleList (word "include" ++ operator "!") :=
    legible_of_isPlain (by decide +kernel)
  have hconcat : LegibleList (word "concat" ++ operator "!") :=
    legible_of_isPlain (by decide +kernel)
  have henv : LegibleList (word "env" ++ operator "!") := legible_of_isPlain (by decide +kernel)
  have hdirectory := henv.append (legible_group .paren (legible_quote "OUT_DIR"))
  have hfile := (hdirectory.append legible_comma).append (legible_quote ("/" ++ unit.name))
  have hend : LegibleList (operator ";") := legible_of_isPlain (by decide)
  have hargument := hconcat.append (legible_group .paren hfile)
  exact (hinclude.append (legible_group .paren hargument)).append hend

theorem legible_slot (role : Role) (unit : Option Artifact) : LegibleList (slot role unit) := by
  have hentry : LegibleList (word role.entryPoint) :=
    legible_of_isPlain (by cases role <;> decide +kernel)
  have hnone : LegibleList (absoluteName ["core", "option", "Option", "None"]) :=
    legible_of_isPlain (by decide +kernel)
  have hsome : LegibleList (absoluteName ["core", "option", "Option", "Some"]) :=
    legible_of_isPlain (by decide +kernel)
  cases unit with
  | none => exact hnone
  | some unit => exact hsome.append (legible_group .paren hentry)

theorem legible_indexTokens {target : Target} (simple : target.runtime.IsSimple)
    (providers interceptor : Option Artifact) :
    LegibleList (target.indexTokens providers interceptor) := by
  have hbindings : LegibleList (absoluteName ["Bindings"]) :=
    legible_of_isPlain (by decide +kernel)
  have htype := (legible_path simple).append hbindings
  have hproviders : LegibleList (word "providers" ++ operator ":") :=
    legible_of_isPlain (by decide +kernel)
  have hinterceptor : LegibleList (word "interceptor" ++ operator ":") :=
    legible_of_isPlain (by decide +kernel)
  have hfields := ((hproviders.append (legible_slot .provider providers)).append
    legible_comma).append ((hinterceptor.append (legible_slot .gateway interceptor)).append
    legible_comma)
  have hhead : LegibleList
      (word "pub" ++ word "static" ++ word "TETHER_BINDINGS" ++ operator ":") :=
    legible_of_isPlain (by decide +kernel)
  have hassign : LegibleList (operator "=") := legible_of_isPlain (by decide)
  have hend : LegibleList (operator ";") := legible_of_isPlain (by decide)
  exact ((((hhead.append htype).append hassign).append htype).append
    (legible_group .brace hfields)).append hend

end Target

end Bindery
