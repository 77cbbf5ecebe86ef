import HornQuery.CommandLine

/-!
# The program

Carries out the command line on real files: results go to the standard output, the log and errors to
the standard error.
-/

namespace HornQuery

/-- What the octets of a store's file start with. -/
def storeMark : ByteArray := "SQLite format 3\x00".toUTF8

/-- Whether there is something at a path, and then whether it is a directory. -/
def isDirectory? (path : Path) : IO (Option Bool) := do
  try return some (← (← IO.FS.realPath path.text).isDir)
  catch _ => return none

/-- The real files. A run rebuilds the store, so that what a file holds of one does not matter. -/
def realFiles : FileSystem IO where
  read := fun path ↦ do
    try return some (← IO.FS.readFile path)
    catch _ => return none
  site := fun path ↦ do
    match ← isDirectory? path with
    | some true => return .closed
    | some false =>
      try
        let octets ← IO.FS.readBinFile path.text
        if octets.size ≤ maxBlank then return .blank
        else if octets.extract 0 storeMark.size == storeMark then return .store {}
        else return .unusable .notDatabase
      catch _ => return .closed
    | none =>
      if (← isDirectory? path.parent) = some true then return .free else return .closed

end HornQuery

/-- Carry out the command line. -/
def main (args : List String) : IO UInt32 := do
  let exit ← HornQuery.CommandLine.run HornQuery.realFiles args
  for line in exit.log do
    IO.eprintln line
  IO.print exit.output
  if let some message := exit.error then
    IO.eprintln message
  return UInt32.ofNat exit.code
