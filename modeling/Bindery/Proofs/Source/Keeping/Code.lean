import Bindery.Proofs.Source.Keeping.Types
import Bindery.Source.Grammar.Statement
/-!
# Code keeps to what it is read of

Generic parameters, patterns, expressions and statements are sound grammars, if the rules that they
refer to are.
-/

namespace Bindery.Source.Grammar

variable {literal : String → Prop} {rules : Rules} [sound : rules.Sound literal]

-- What is found of a rule is as large as the rule itself.
set_option synthInstance.maxSize 100000

instance sound_pathPiece : Sound literal
    (piece (qualifiedPath rules true) fun (owner, path) => .path owner path .expression) :=
  keeps_pathPiece.sound

instance sound_argsPiece : Sound literal (piece (angleArgs rules) .args) := by
  refine (keeps_piece keeps_angleArgs fun args h => ?_).sound
  cases args
  exact ⟨h, trivial⟩

/-! ## Generic parameters and constraints -/

instance sound_itemParam : Sound literal (itemParam rules) := by
  dsimp only [itemParam]
  infer_instance

instance sound_generics : Sound literal (generics rules) := by
  dsimp only [generics]
  infer_instance

instance sound_constraint : Sound literal (constraint rules) := by
  dsimp only [constraint]
  infer_instance

instance sound_constraints : Sound literal (constraints rules) := by
  dsimp only [constraints]
  infer_instance

/-! ## Patterns -/

instance sound_pattern : Sound literal (pattern rules) := by
  dsimp only [pattern]
  infer_instance

omit sound in
instance sound_fieldNumber : Sound literal fieldNumber := by
  refine ⟨.after fun trees => ?_⟩
  split
  · exact .ite (.after fun _ => .pure trivial) (.throw _)
  · exact keeps_expected _

omit sound in
instance sound_fieldName : Sound literal fieldName := by
  dsimp only [fieldName]
  infer_instance

omit sound in
instance sound_patternLimits : Sound literal patternLimits := by
  dsimp only [patternLimits]
  infer_instance

instance sound_rangeEnd : Sound literal (rangeEnd rules) := by
  dsimp only [rangeEnd]
  infer_instance

instance sound_rangeEnd? : Sound literal (rangeEnd? rules) := by
  dsimp only [rangeEnd?]
  infer_instance

instance sound_rangeTail : Sound literal (rangeTail rules) := by
  dsimp only [rangeTail]
  infer_instance

instance sound_literalPattern : Sound literal (literalPattern rules) := by
  dsimp only [literalPattern]
  infer_instance

instance sound_restPattern : Sound literal (restPattern rules) := by
  dsimp only [restPattern]
  infer_instance

instance sound_bindingPattern : Sound literal (bindingPattern rules) := by
  dsimp only [bindingPattern]
  infer_instance

instance sound_fieldPattern : Sound literal (fieldPattern rules) := by
  dsimp only [fieldPattern]
  infer_instance

instance sound_fieldPatterns : Sound literal (fieldPatterns rules) := by
  dsimp only [fieldPatterns]
  infer_instance

instance sound_pathPattern : Sound literal (pathPattern rules) := by
  dsimp only [pathPattern]
  infer_instance

instance sound_elementPattern : Sound literal (elementPattern rules) := by
  dsimp only [elementPattern]
  infer_instance

instance sound_patternWith : Sound literal (patternWith rules) := by
  dsimp only [patternWith]
  infer_instance

/-! ## Expressions -/

instance sound_operand (struct : Bool) (strength : Precedence) :
    Sound literal (operand rules struct strength) := by
  dsimp only [operand]
  infer_instance

instance sound_rangeExpression (struct : Bool) : Sound literal (rangeExpression rules struct) := by
  dsimp only [rangeExpression]
  infer_instance

instance sound_climbWith (struct : Bool) (start : Form) (base : Precedence) :
    Sound literal (climbWith rules struct start base) := by
  unfold climbWith
  refine sound_loop _ _ (h := fun form => ⟨.ite (.pure trivial) (.after fun trees => ?_)⟩)
  split <;>
  · dsimp only
    exact Sound.keeps

instance sound_expressions : Sound literal (expressions rules) := by
  dsimp only [expressions]
  infer_instance

instance sound_nestedFields (text : String) : Sound literal (member.nestedFields text) := by
  dsimp only [member.nestedFields]
  infer_instance

instance sound_member : Sound literal (member rules) := by
  unfold member
  refine ⟨.after fun _ => .after fun trees => ?_⟩
  dsimp only
  split <;> exact Sound.keeps

instance sound_trailers (start : Form) : Sound literal (trailers rules start) := by
  dsimp only [trailers]
  infer_instance

instance sound_plainBlock : Sound literal (plainBlock rules) := by
  dsimp only [plainBlock]
  infer_instance

instance sound_closureParam : Sound literal (closureParam rules) := by
  dsimp only [closureParam]
  infer_instance

instance sound_closure (struct : Bool) : Sound literal (closure rules struct) := by
  dsimp only [closure]
  infer_instance

instance sound_structFields : Sound literal (structFields rules) := by
  dsimp only [structFields]
  infer_instance

instance sound_pathExpression (struct : Bool) : Sound literal (pathExpression rules struct) := by
  dsimp only [pathExpression]
  infer_instance

instance sound_arrayElements : Sound literal (arrayElements rules) := by
  dsimp only [arrayElements]
  infer_instance

instance sound_jumpValue : Sound literal (jumpValue rules) := by
  dsimp only [jumpValue]
  infer_instance

instance sound_breakExpression (struct : Bool) :
    Sound literal (breakExpression rules struct) := by
  dsimp only [breakExpression]
  infer_instance

instance sound_letExpression (struct : Bool) : Sound literal (letExpression rules struct) := by
  dsimp only [letExpression]
  infer_instance

instance sound_conditional : Sound literal (conditional rules) := by
  dsimp only [conditional]
  infer_instance

instance sound_labeled : Sound literal (labeled rules) := by
  dsimp only [labeled]
  infer_instance

instance sound_arm : Sound literal (arm rules) := by
  dsimp only [arm]
  infer_instance

instance sound_choice : Sound literal (choice rules) := by
  dsimp only [choice]
  infer_instance

instance sound_blockLike : Sound literal (blockLike rules) := by
  dsimp only [blockLike]
  infer_instance

instance sound_keywordAtom (struct : Bool) : Sound literal (keywordAtom rules struct) := by
  dsimp only [keywordAtom]
  infer_instance

instance sound_atom (struct : Bool) : Sound literal (atom rules struct) := by
  dsimp only [atom]
  infer_instance

omit sound in
instance sound_anyPunct : Sound literal unaryWith.anyPunct := by
  dsimp only [unaryWith.anyPunct]
  infer_instance

instance sound_unaryWith (struct : Bool) : Sound literal (unaryWith rules struct) := by
  dsimp only [unaryWith]
  infer_instance

instance sound_standingWith : Sound literal (standingWith rules) := by
  dsimp only [standingWith]
  infer_instance

/-! ## Statements -/

instance sound_localBinding : Sound literal (localBinding rules) := by
  dsimp only [localBinding]
  infer_instance

instance sound_statement : Sound literal (statement rules) := by
  dsimp only [statement]
  infer_instance

instance sound_statementsWith : Sound literal (statementsWith rules) := by
  dsimp only [statementsWith]
  infer_instance

end Bindery.Source.Grammar
