import HornQuery.FileSystem

/-!
# Files held in memory

A folder is a tree of directories with a working directory in it. Files are read by following a path
part by part, where every part but the last has to be a directory that exists; the path of a store is
simplified first.
-/

namespace HornQuery

/-- What a file holds. -/
inductive Content where
  /-- A text. -/
  | text (text : String)
  /-- A store. -/
  | store (store : Store)
  /-- Nothing, whatever is written to it. -/
  | void
deriving DecidableEq, Repr

/-- Files and directories, each under the names on the way to it from the root. -/
structure Folder where
  /-- The working directory. -/
  directory : List String := ["tmp", "work"]
  /-- The files. The directories on the way to a file exist. -/
  files : List (List String × Content) := [(["dev", "null"], .void)]
deriving DecidableEq, Repr

namespace Folder

/-- Whether there is a directory. -/
def isDirectory (f : Folder) (parts : List String) : Bool :=
  parts.isPrefixOf f.directory
    || f.files.any fun (path, _) ↦ parts.isPrefixOf path && parts.length < path.length

/-- The folder with a file put into it. -/
def put (f : Folder) (parts : List String) (c : Content) : Folder :=
  { f with files := (parts, c) :: f.files }

/-- The folder with texts in its working directory. -/
def ofTexts (texts : List (String × String)) : Folder :=
  texts.foldl (fun f (path, text) ↦ f.put (f.directory ++ (names path)) (.text text)) {}
where
  /-- The names on a path. -/
  names (path : String) : List String := (Path.split path).filter fun p ↦ p ≠ "" && p ≠ "."

/-- Follow the parts of a path. Only a directory has a next part, be it an empty one. -/
def walk? (f : Folder) (here : List String) : List String → Option (List String)
  | [] => some here
  | part :: parts =>
    if !f.isDirectory here then none
    else if part = "" || part = "." then f.walk? here parts
    else if part = ".." then f.walk? here.dropLast parts
    else f.walk? (here ++ [part]) parts

/-- The text of a file. -/
def read? (f : Folder) (path : String) : Option String :=
  let start := if path.toList.head? = some '/' then [] else f.directory
  match (f.walk? start (Path.split path)).bind fun parts ↦ f.files.lookup parts with
  | some (.text text) => some text
  | some .void => some ""
  | _ => none

/-- The names on the way from the root to a path. -/
def resolve (f : Folder) (p : Path) : List String :=
  if p.absolute then p.parts else f.directory.take (f.directory.length - p.above) ++ p.parts

/-- What is found at a path. -/
def site (f : Folder) (p : Path) : Site :=
  let parts := f.resolve p
  if f.isDirectory parts || !f.isDirectory parts.dropLast then .closed
  else
    match f.files.lookup parts with
    | none => .free
    | some (.text text) => if text.utf8ByteSize ≤ maxBlank then .blank else .unusable .notDatabase
    | some (.store store) => .store store
    | some .void => .unusable .lostWrite

/-- A folder as a file system. -/
def fileSystem (f : Folder) : FileSystem Id where
  read := f.read?
  site := f.site

end Folder

end HornQuery
