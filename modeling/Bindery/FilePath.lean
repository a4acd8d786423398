import Bindery.Text.Split
/-!
# Paths of files

A path is a text; slashes separate its components. A doubled slash and a component that is a single
dot count for nothing, save a dot at the very beginning. Two dots are a component like any other.
-/

namespace Bindery.FilePath

open Bindery.Text

/-- Whether a path starts from the root of all files. -/
def isAbsolute (path : String) : Bool :=
  path.toList.head? == some '/'

/-- The parts of a path between its slashes. -/
def parts (path : String) : List String :=
  (splitAt '/' path.toList).map String.ofList

/-- Whether a part of a path is a component of it wherever it stands. -/
def counts (part : String) : Bool :=
  part != "" && part != "."

/-- The components of a path; that of the root is a slash. -/
def components (path : String) : List String :=
  match parts path with
  | "." :: rest => "." :: rest.filter counts
  | "" :: rest => (if rest.isEmpty then [] else ["/"]) ++ rest.filter counts
  | parts => parts.filter counts

/-- The order of paths by their components. -/
def precedes (first second : String) : Bool :=
  !(components second).lex (components first)

/-- The path that leads from a directory along another path. -/
def join (directory path : String) : String :=
  if isAbsolute path || directory.isEmpty then path
  else if directory.toList.getLast? == some '/' then directory ++ path
  else directory ++ "/" ++ path

/-- The name that a path ends with, if its last component is one. -/
def fileName? (path : String) : Option String :=
  match (components path).getLast? with
  | some name => if ["/", ".", ".."].contains name then none else some name
  | none => none

/-- A file name cut at its last dot, unless that dot begins it. -/
def cutExtension (name : String) : String × Option String :=
  let reversed := name.toList.reverse
  let extension := reversed.takeWhile (· ≠ '.')
  match reversed.drop extension.length with
  | [] => (name, none)
  | _ :: stem =>
    if stem.isEmpty || name == ".." then (name, none)
    else (String.ofList stem.reverse, some (String.ofList extension.reverse))

/-- The extension of the file that a path leads to. -/
def extension? (path : String) : Option String := do
  (cutExtension (← fileName? path)).2

/-- A component without its extension. What would be a single dot is two of them. -/
def dropExtension (name : String) : String :=
  if ["/", ".", ".."].contains name then name
  else
    let stem := (cutExtension name).1
    if stem == "." then ".." else stem

/-- The components that lead from a directory to a path below it. -/
def relative? (directory path : String) : Option (List String) :=
  let front := components directory
  let all := components path
  if front.isPrefixOf all then some (all.drop front.length) else none

/-- The path without its last component, as it is written; none if there is no such path. -/
def parent? (path : String) : Option String :=
  match components path with
  | [] => none
  | ["/"] => none
  | [_] => some ""
  | _ =>
    match trim (trim (parts path).reverse).tail with
    | [""] => some "/"
    | before => some (String.intercalate "/" before.reverse)
where
  /-- Drops what is no component from the end of a path; its beginning stays. -/
  trim : List String → List String
    | [] => []
    | [first] => [first]
    | part :: before => if counts part then part :: before else trim before

end Bindery.FilePath
