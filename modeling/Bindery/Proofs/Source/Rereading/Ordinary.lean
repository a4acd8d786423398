import Bindery.Proofs.Source.Rereading.Code
/-!
# Ordinary types are stable

A condition that can be computed: a type is ordinary if it consists of paths, references, pointers,
slices, tuples, arrays whose length is a literal or a name, function pointers whose parameters are
types alone, and trait objects and `impl` types of plain paths. As in all stable types, a single
bound stands where a plus sign would belong to something else.
-/

namespace Bindery.Source

open Token (isIdent)
open Grammar

mutual

/-- Whether a type consists of the most common kinds of types and is stable. -/
def Ty.isOrdinary : Ty → Bool
  | .path none path => path.isOrdinary && path.isType
  | .reference _ _ target => target.isOrdinary && target.isTight
  | .pointer _ target => target.isOrdinary && target.isTight
  | .slice element => element.isOrdinary
  | .array element [.token (.literal text)] => element.isOrdinary && decide (IsLiteral text)
  | .array element [.path none (.mk _ [.mk name .none]) _] =>
    element.isOrdinary && decide (IsPathName name ∧ name ≠ "try")
  | .tuple elements _ => ordinaryTypes elements
  | .paren inner => inner.isOrdinary
  | .never => true
  | .inferred => true
  | .object true bounds _ => ordinaryBounds bounds && !(kept bounds).isEmpty
  | .anonymous bounds _ => ordinaryBounds bounds && bounds.any Bound.isTrait
  | .function [.token (.ident keyword)] params _ [] output =>
    keyword == "fn" && (ordinaryParams params && ordinaryOutput output)
  | _ => false

/-- Whether each type of a list is ordinary. -/
def ordinaryTypes : List Ty → Bool
  | [] => true
  | type :: rest => type.isOrdinary && ordinaryTypes rest

/-- Whether a return type is ordinary and may stand where it does. -/
def ordinaryOutput : Option Ty → Bool
  | none => true
  | some type => type.isOrdinary && type.isTight

/-- Whether each parameter of a function pointer is an ordinary type without a name. -/
def ordinaryParams : List Param → Bool
  | [] => true
  | .mk [] type :: rest => type.isOrdinary && ordinaryParams rest
  | _ :: _ => false

/-- Whether a path ends in an ordinary segment. -/
def Path.isOrdinary : Path → Bool
  | .mk _ segments => ordinarySegments segments

/-- Whether the last segment of a path is ordinary. -/
def ordinarySegments : List Segment → Bool
  | [] => false
  | [.mk name args] => decide (IsPathName name) && args.isOrdinary name
  | _ :: rest => ordinarySegments rest

/-- Whether the arguments of a segment are ordinary. -/
def Args.isOrdinary (name : String) : Args → Bool
  | .none => true
  | .angle (.mk _ args _) => (name == "Self" || !pathWords.contains name) && ordinaryArgs args
  | .call inputs _ output => ordinaryTypes inputs && ordinaryOutput output

/-- Whether generic arguments are lifetimes, ordinary types and literals. -/
def ordinaryArgs : List Arg → Bool
  | [] => true
  | .lifetime name :: rest => isIdent name && ordinaryArgs rest
  | .type type :: rest => type.isOrdinary && ordinaryArgs rest
  | .value [.token (.literal text)] :: rest => decide (IsLiteral text) && ordinaryArgs rest
  | _ :: _ => false

/-- Whether bounds are lifetimes and ordinary paths. -/
def ordinaryBounds : List Bound → Bool
  | [] => true
  | .lifetime name :: rest => isIdent name && ordinaryBounds rest
  | .trait _ [] path :: rest => path.isOrdinary && ordinaryBounds rest
  | _ :: _ => false

end

mutual

theorem Ty.stable_of_isOrdinary : (type : Ty) → type.isOrdinary = true → type.Stable
  | .path none path, h => by
    obtain ⟨hpath, htype⟩ := Bool.and_eq_true_iff.1 h
    exact ⟨Path.stable_of_isOrdinary path hpath, htype⟩
  | .reference _ _ target, h => by
    obtain ⟨htarget, htight⟩ := Bool.and_eq_true_iff.1 h
    exact ⟨Ty.stable_of_isOrdinary target htarget, htight⟩
  | .pointer _ target, h => by
    obtain ⟨htarget, htight⟩ := Bool.and_eq_true_iff.1 h
    exact ⟨Ty.stable_of_isOrdinary target htarget, htight⟩
  | .slice element, h => Ty.stable_of_isOrdinary element h
  | .array element [.token (.literal text)], h => by
    obtain ⟨helement, htext⟩ := Bool.and_eq_true_iff.1 h
    exact ⟨Ty.stable_of_isOrdinary element helement, stableLength_literal (of_decide_eq_true htext)⟩
  | .array element [.path none (.mk _ [.mk name .none]) style], h => by
    obtain ⟨helement, hlength⟩ := Bool.and_eq_true_iff.1 h
    obtain ⟨hname, htry⟩ := of_decide_eq_true hlength
    exact ⟨Ty.stable_of_isOrdinary element helement, stableLength_path hname htry rfl style⟩
  | .tuple elements _, h => stable_of_ordinaryTypes elements h
  | .paren inner, h => Ty.stable_of_isOrdinary inner h
  | .never, _ => trivial
  | .inferred, _ => trivial
  | .object true bounds _, h => by
    obtain ⟨hbounds, hne⟩ := Bool.and_eq_true_iff.1 h
    exact ⟨stable_of_ordinaryBounds objectContext bounds hbounds, by simpa using hne, .inl rfl⟩
  | .anonymous bounds _, h => by
    obtain ⟨hbounds, htrait⟩ := Bool.and_eq_true_iff.1 h
    exact ⟨stable_of_ordinaryBounds anonymousContext bounds hbounds, htrait⟩
  | .function [.token (.ident keyword)] params _ [] output, h => by
    obtain ⟨hkeyword, h⟩ := Bool.and_eq_true_iff.1 h
    obtain ⟨hparams, houtput⟩ := Bool.and_eq_true_iff.1 h
    obtain rfl : keyword = "fn" := eq_of_beq hkeyword
    have hhead : StableQualifiers ([] ++ qualifierTokens false none) := .mk false (.inl rfl) nofun
    exact ⟨hhead, stable_of_ordinaryParams true params hparams, .nothing,
      fun htail => absurd rfl htail, stable_of_ordinaryOutput output houtput⟩

theorem stable_of_ordinaryTypes : (types : List Ty) → ordinaryTypes types = true → StableTypes types
  | [], _ => trivial
  | type :: rest, h => by
    obtain ⟨htype, hrest⟩ := Bool.and_eq_true_iff.1 h
    exact ⟨Ty.stable_of_isOrdinary type htype, stable_of_ordinaryTypes rest hrest⟩

theorem stable_of_ordinaryOutput : (output : Option Ty) → ordinaryOutput output = true →
    StableOutput output
  | none, _ => trivial
  | some type, h => by
    obtain ⟨htype, htight⟩ := Bool.and_eq_true_iff.1 h
    exact ⟨Ty.stable_of_isOrdinary type htype, htight⟩

theorem stable_of_ordinaryParams (first : Bool) : (params : List Param) →
    ordinaryParams params = true → StableParams first params
  | [], _ => trivial
  | .mk [] type :: rest, h => by
    obtain ⟨htype, hrest⟩ := Bool.and_eq_true_iff.1 h
    have hname : StableName first ([] ++ paramName none) := .mk stableAttributes_nil nofun
    exact ⟨.inl ⟨hname, Ty.stable_of_isOrdinary type htype⟩,
      stable_of_ordinaryParams false rest hrest⟩

theorem Path.stable_of_isOrdinary : (path : Path) → path.isOrdinary = true → path.Stable
  | .mk _ segments, h => stable_of_ordinarySegments segments h

theorem stable_of_ordinarySegments : (segments : List Segment) → ordinarySegments segments = true →
    StableSegments segments
  | [.mk name args], h => by
    obtain ⟨hname, hargs⟩ := Bool.and_eq_true_iff.1 h
    exact ⟨of_decide_eq_true hname, Args.stable_of_isOrdinary name args hargs⟩
  | .mk _ _ :: next :: rest, h => stable_of_ordinarySegments (next :: rest) h

theorem Args.stable_of_isOrdinary (name : String) : (args : Args) → args.isOrdinary name = true →
    args.Stable name
  | .none, _ => trivial
  | .angle (.mk _ args _), h => by
    obtain ⟨hname, hargs⟩ := Bool.and_eq_true_iff.1 h
    exact ⟨by simpa using hname, stable_of_ordinaryArgs args hargs⟩
  | .call inputs _ output, h => by
    obtain ⟨hinputs, houtput⟩ := Bool.and_eq_true_iff.1 h
    exact ⟨stable_of_ordinaryTypes inputs hinputs, stable_of_ordinaryOutput output houtput⟩

theorem stable_of_ordinaryArgs : (args : List Arg) → ordinaryArgs args = true → StableArgs args
  | [], _ => trivial
  | .lifetime name :: rest, h => by
    obtain ⟨hname, hrest⟩ := Bool.and_eq_true_iff.1 h
    exact ⟨hname, stable_of_ordinaryArgs rest hrest⟩
  | .type type :: rest, h => by
    obtain ⟨htype, hrest⟩ := Bool.and_eq_true_iff.1 h
    exact ⟨Ty.stable_of_isOrdinary type htype, stable_of_ordinaryArgs rest hrest⟩
  | .value [.token (.literal text)] :: rest, h => by
    obtain ⟨htext, hrest⟩ := Bool.and_eq_true_iff.1 h
    exact ⟨stableValue_literal (of_decide_eq_true htext), stable_of_ordinaryArgs rest hrest⟩

theorem stable_of_ordinaryBounds (context : BoundContext) : (bounds : List Bound) →
    ordinaryBounds bounds = true → StableBounds context bounds
  | [], _ => trivial
  | .lifetime name :: rest, h => by
    obtain ⟨hname, hrest⟩ := Bool.and_eq_true_iff.1 h
    exact ⟨hname, stable_of_ordinaryBounds context rest hrest⟩
  | .trait _ [] path :: rest, h => by
    obtain ⟨hpath, hrest⟩ := Bool.and_eq_true_iff.1 h
    exact ⟨⟨.nothing, Path.stable_of_isOrdinary path hpath⟩,
      stable_of_ordinaryBounds context rest hrest⟩

end

example : (readType "&mut [Box<dyn a::Fn(&'b A, fn() -> C) -> D + Send>; 4]").toOption.any Ty.isOrdinary =
    true := by
  decide +kernel

end Bindery.Source
