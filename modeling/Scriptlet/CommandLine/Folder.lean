import Scriptlet.CommandLine.Path

/-!
# What Stands at a Path

A command asks no more of a file system than what stands at a path (`Finding`), so it can be
answered in any of them. A `Folder` is a small one: a current directory that holds just some
files, in a system of which only the topmost directories are known.

A path is followed name by name. It leads nowhere if a name on the way is not that of a
directory, and it is too long as soon as a name is looked up that is longer than a directory
can hold.

## Main definitions

* `Finding`: what stands at a path.
* `Folder.find`: what stands at a path when a folder is the current directory.
-/

namespace Scriptlet.CommandLine

/-- What stands at a path. -/
inductive Finding
  /-- A file with some content. -/
  | file (content : String)
  /-- A directory. -/
  | directory
  /-- Neither. -/
  | nothing
  /-- The path, or a name in it, is too long to be looked up. -/
  | tooLong
deriving DecidableEq, Repr

/-- The most bytes that a name in a path may have. -/
def nameLimit : Nat := 255

/-- The most bytes that a path may have. -/
def pathLimit : Nat := 4095

/-- Whether a tidy path, or a name in it, is longer than it may be. -/
def exceedsLimits (path : String) : Bool :=
  pathLimit < path.utf8ByteSize || (namesOf path).any fun name => nameLimit < name.utf8ByteSize

/-- A current directory: its files, each with the names that lead to it, and their content. -/
structure Folder where
  /-- The files. -/
  files : List (List String × String)

/-- A directory that a path has led to. -/
inductive Stop
  /-- A directory of the folder, with the names that lead to it. -/
  | within (names : List String)
  /-- The topmost directory. -/
  | root
  /-- Any other directory. -/
  | elsewhere

/-- The directories that every system has in its topmost directory. -/
def systemDirectories : List String :=
  ["bin", "boot", "dev", "etc", "home", "lib", "media", "mnt", "opt", "proc", "root", "run",
    "sbin", "srv", "sys", "tmp", "usr", "var"]

namespace Folder

/-- What stands at the end of some names, followed from a directory. -/
def follow (f : Folder) : Stop → List String → Finding
  | _, [] => .directory
  | stop, name :: rest =>
    if nameLimit < name.utf8ByteSize then .tooLong
    else
      match stop with
      | .within names =>
        if name = ".." then
          f.follow (if names.isEmpty then .elsewhere else .within names.dropLast) rest
        else
          let names := names ++ [name]
          match f.files.lookup names with
          | some content => if rest.isEmpty then .file content else .nothing
          | none =>
            if f.files.any fun e => names.isPrefixOf e.1 then f.follow (.within names) rest
            else .nothing
      | .root =>
        if name = ".." then f.follow .root rest
        else if systemDirectories.contains name then f.follow .elsewhere rest
        else .nothing
      | .elsewhere => if name = ".." then f.follow .elsewhere rest else .nothing

/-- What stands at a path. No name holds the null character. -/
def find (f : Folder) (path : String) : Finding :=
  if path.toList.contains '\x00' then .nothing
  else if pathLimit < (tidyPath path).utf8ByteSize then .tooLong
  else
    f.follow (if (rootOf path.toList).isEmpty then .within [] else .root) (namesOf path)

end Folder

end Scriptlet.CommandLine
