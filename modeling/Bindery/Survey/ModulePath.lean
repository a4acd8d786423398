import Bindery.FilePath
/-!
# The module of a file

Where a file lies below the source root decides the path of its module. The files of other targets
have none.
-/

namespace Bindery

/-- The names of the modules that lead from the crate to the module of a file, given the components
that lead from the source root to the file; none for a file of another target. -/
def moduleNames? (components : List String) : Option (List String) :=
  let names := match components.reverse with
    | [] => []
    | last :: before => (FilePath.dropExtension last :: before).reverse
  if names.head? == some "bin" then none
  else if names == ["lib"] || names == ["main"] then some []
  else if names.getLast? == some "mod" then some names.dropLast
  else some names

/-- The path of the module of a file below a source root; none for a file that lies elsewhere or
belongs to another target. -/
def modulePath? (root file crateRoot : String) : Option String := do
  let names ← moduleNames? (← FilePath.relative? root file)
  return String.intercalate "::" (crateRoot :: names)

end Bindery
