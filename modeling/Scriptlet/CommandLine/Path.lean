/-!
# Paths of Files

A path is a row of names separated by slashes. Empty names and single dots say nothing and
are dropped; a double dot is kept, since only the file system knows what it stands for.
-/

namespace Scriptlet.CommandLine

/-- The slashes that an absolute path begins with. Exactly two are kept, more count as one. -/
def rootOf : List Char → String
  | '/' :: '/' :: '/' :: _ => "/"
  | '/' :: '/' :: _ => "//"
  | '/' :: _ => "/"
  | _ => ""

/-- The names of a path that say something. -/
def namesOf (path : String) : List String :=
  (path.splitOn "/").filter fun name => name ≠ "" ∧ name ≠ "."

/-- A path in its shortest spelling. -/
def tidyPath (path : String) : String :=
  let tidy := rootOf path.toList ++ "/".intercalate (namesOf path)
  if tidy.isEmpty then "." else tidy

end Scriptlet.CommandLine
