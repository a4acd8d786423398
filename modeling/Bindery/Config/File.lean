import Bindery.Config
import Bindery.FileTree
/-!
# The configuration file
-/

namespace Bindery.Config

/-- The settings of a file. -/
def ofFile (tree : FileTree) (path : String) : Except ConfigError Config := do
  ofText (← (tree.read path).mapError (.unreadable path))

/-- The settings of a file, or the defaults if it is not there. -/
def ofFileOrDefault (tree : FileTree) (path : String) : Except ConfigError Config :=
  if tree.isFile path then ofFile tree path else .ok default

end Bindery.Config
