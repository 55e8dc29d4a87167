/-!
Files to read, and why one cannot be read. A tree of files stands in for those of a system: a path is
followed name by name, so the first name that leads nowhere decides how reading fails.
-/

namespace Paging.Cli

inductive ReadError
  | notFound
  | permissionDenied
  | notADirectory
  | isADirectory
  | nameTooLong
  | notUnicode
  /-- Any other failure, in the words of the system. -/
  | other (text : String)
  deriving DecidableEq, Repr

def ReadError.message : ReadError → String
  | .notFound => "No such file or directory (os error 2)"
  | .permissionDenied => "Permission denied (os error 13)"
  | .notADirectory => "Not a directory (os error 20)"
  | .isADirectory => "Is a directory (os error 21)"
  | .nameTooLong => "File name too long (os error 36)"
  | .notUnicode => "stream did not contain valid UTF-8"
  | .other text => text

inductive FileTree
  | file (contents : List UInt8)
  | directory (entries : List (String × FileTree))
  deriving Repr, Inhabited

namespace FileTree

/-- No entry of a directory has a name of more bytes. -/
def maxNameSize : Nat := 255

/-- Every path has fewer bytes. -/
def maxPathSize : Nat := 4096

/--
Follows names from a tree whose enclosing directories are `above`, the innermost first. Only directories can
be followed further, even to themselves, and the outermost directory encloses itself.
-/
def follow (above : List FileTree) (tree : FileTree) : List String → Except ReadError FileTree
  | [] => .ok tree
  | name :: names =>
    match tree with
    | .file _ => .error .notADirectory
    | .directory entries =>
      if name = "" ∨ name = "." then follow above tree names
      else if name = ".." then
        match above with
        | [] => follow [] tree names
        | parent :: above => follow above parent names
      else if maxNameSize < name.utf8ByteSize then .error .nameTooLong
      else match entries.lookup name with
        | some entry => follow (tree :: above) entry names
        | none => .error .notFound

/--
Reads the file at a path, which starts at the outermost directory `root` with a slash, and otherwise in the
directory that `working` leads to.
-/
def read (root : FileTree) (working : List String) (path : String) :
    Except ReadError (List UInt8) :=
  if path = "" then .error .notFound
  else if maxPathSize ≤ path.utf8ByteSize then .error .nameTooLong
  else
    let names := path.splitOn "/"
    match follow [] root (if path.startsWith "/" then names else working ++ names) with
    | .error error => .error error
    | .ok (.file contents) => .ok contents
    | .ok (.directory _) => .error .isADirectory

end FileTree

end Paging.Cli
