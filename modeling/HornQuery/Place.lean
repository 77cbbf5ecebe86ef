import HornQuery.Text.Utf8

/-!
# Where a store is kept

A store goes by a name. Most names are paths. The empty name and `:memory:` stand for a store that is
kept nowhere. A name that starts with `file:` has the parts of an address: perhaps `//` and a host,
then a path, then options after a question mark, and a remark after a number sign, which is ignored. In
the path and the options, a percent sign and two hexadecimal digits stand for an octet.

Paths are simplified as texts, before any file is looked at: a part `..` takes back the part before it,
whether that exists or not.
-/

namespace HornQuery

/-- Why a store cannot be opened. -/
inductive OpenError where
  /-- The name has a zero octet in it. -/
  | zeroOctet
  /-- The name gives a host other than this one. -/
  | foreignHost (host : String)
  /-- An option has a value that is none of its values. -/
  | unknownMode (kind value : String)
  /-- An option allows more than the one before it. -/
  | deniedMode (value : String)
  /-- There is no such way to get at files. -/
  | unknownMethod (name : String)
  /-- There is no file, and none can be created. -/
  | unreachable
deriving DecidableEq, Repr

/-- The wording of an error on opening. -/
def OpenError.message : OpenError → String
  | .zeroOctet => "nul byte found in provided data"
  | .foreignHost host => s!"invalid uri authority: {host}"
  | .unknownMode kind value => s!"no such {kind} mode: {value}"
  | .deniedMode value => s!"access mode not allowed: {value}"
  | .unknownMethod name => s!"no such vfs: {name}"
  | .unreachable => "unable to open database file"

/-- The pieces of a list between the elements that satisfy `p`. There is always one more piece than
there are such elements. -/
def pieces {α : Type} (p : α → Bool) : List α → List (List α)
  | [] => [[]]
  | a :: as =>
    if p a then [] :: pieces p as
    else
      match pieces p as with
      | [] => [[a]]
      | piece :: rest => (a :: piece) :: rest

/-! ### Paths -/

/-- A path without empty parts and dots. -/
structure Path where
  /-- Whether it starts at the root, or else at the working directory. -/
  absolute : Bool := false
  /-- How many directories above the working directory it starts. -/
  above : Nat := 0
  /-- The names on the way. -/
  parts : List String := []
deriving DecidableEq, Repr

namespace Path

/-- The parts of a path as it is written. -/
def split (text : String) : List String :=
  (pieces (· = '/') text.toList).map String.ofList

/-- Go on by one part. Nothing is above the root. -/
def step (p : Path) (part : String) : Path :=
  if part = "" || part = "." then p
  else if part = ".." then
    if !p.parts.isEmpty then { p with parts := p.parts.dropLast }
    else if p.absolute then p
    else { p with above := p.above + 1 }
  else { p with parts := p.parts ++ [part] }

/-- The most octets that a part may have. -/
def maxPart : Nat := 255

/-- The path that a text spells, if none of its parts is too long. -/
def ofText? (text : String) : Option Path :=
  let parts := split text
  if parts.any fun part ↦ maxPart < part.utf8ByteSize then none
  else some (parts.foldl step { absolute := text.toList.head? = some '/' })

/-- The written form of a path, which starts with a slash or with a dot and a slash. -/
def text (p : Path) : String :=
  (if p.absolute then "/" else "./") ++ "/".intercalate (List.replicate p.above ".." ++ p.parts)

/-- The path without its last name. -/
def parent (p : Path) : Path :=
  { p with parts := p.parts.dropLast }

/-- What is added to the name of a store's file to name the file that protects its changes. -/
def journalMark : String := "-journal"

/-- Whether the directory of a file has room for the name of the file that protects its changes. -/
def hasJournal (p : Path) : Bool :=
  (p.parts.getLast?.getD "" ++ journalMark).utf8ByteSize ≤ maxPart

end Path

/-! ### Addresses -/

/-- The octet of an ASCII character. -/
def octet (c : Char) : UInt8 := c.val.toUInt8

/-- The value of a hexadecimal digit. -/
def hexOctet? (b : UInt8) : Option UInt8 :=
  if octet '0' ≤ b && b ≤ octet '9' then some (b - octet '0')
  else if octet 'a' ≤ b && b ≤ octet 'f' then some (b - octet 'a' + 10)
  else if octet 'A' ≤ b && b ≤ octet 'F' then some (b - octet 'A' + 10)
  else none

/-- Octets with those decoded that a percent sign and two digits stand for. A decoded zero ends
them. -/
def decodePercent : List UInt8 → List UInt8
  | [] => []
  | b :: rest =>
    if b = octet '%' then
      match rest with
      | high :: low :: rest =>
        match hexOctet? high, hexOctet? low with
        | some h, some l =>
          let decoded := h * 16 + l
          if decoded = 0 then [] else decoded :: decodePercent rest
        | _, _ => b :: decodePercent (high :: low :: rest)
      | rest => b :: decodePercent rest
    else b :: decodePercent rest

/-- The text of a piece of an address. -/
def decodePiece (bytes : List UInt8) : String :=
  Text.decodeLossy (decodePercent bytes)

/-- The path and the options of an address, after its mark. Options without a name are left out. -/
def readAddress (bytes : List UInt8) : Except OpenError (String × List (String × String)) := do
  let slash := octet '/'
  let bytes ← match bytes with
    | a :: b :: rest =>
      if a = slash && b = slash then
        let host := Text.decodeLossy (rest.takeWhile (· ≠ slash))
        if host = "" || host = "localhost" then pure (rest.dropWhile (· ≠ slash))
        else throw (.foreignHost host)
      else pure bytes
    | _ => pure bytes
  let bytes := bytes.takeWhile (· ≠ octet '#')
  let path := bytes.takeWhile (· ≠ octet '?')
  let options := (pieces (· = octet '&') ((bytes.dropWhile (· ≠ octet '?')).drop 1)).map fun o ↦
    (decodePiece (o.takeWhile (· ≠ octet '=')), decodePiece ((o.dropWhile (· ≠ octet '=')).drop 1))
  return (decodePiece path, options.filter fun (name, _) ↦ name ≠ "")

/-! ### Places -/

/-- What may be done with the file of a store. -/
inductive Access where
  /-- To read it. -/
  | read
  /-- To read and to change it. -/
  | write
  /-- To read and to change it, and to create it where there is none. -/
  | create
deriving DecidableEq, Repr

/-- A value of the option `mode`. -/
inductive Mode where
  /-- A file is used. -/
  | file (access : Access)
  /-- No file is used. -/
  | memory
deriving DecidableEq, Repr

/-- The mode with a name. -/
def Mode.ofName? (name : String) : Option Mode :=
  if name = "ro" then some (.file .read)
  else if name = "rw" then some (.file .write)
  else if name = "rwc" then some (.file .create)
  else if name = "memory" then some .memory
  else none

/-- Whether a mode may follow another one. Of two that use a file, the second must not allow more. -/
def Mode.mayFollow : Mode → Mode → Bool
  | .file .write, .file .read => false
  | .file .create, .file .read => false
  | .file .create, .file .write => false
  | _, _ => true

/-- The ways to get at files. -/
def fileMethods : List String := ["unix", "unix-none", "unix-dotfile", "unix-excl"]

/-- The way to do without files. -/
def memoryMethod : String := "memdb"

/-- What options ask for. -/
structure OpenOptions where
  /-- The mode. -/
  mode : Mode := .file .create
  /-- The way to get at files. -/
  method : String := "unix"
deriving DecidableEq, Repr

/-- Take an option. Those that have no influence on a store are ignored. -/
def OpenOptions.set (o : OpenOptions) : String × String → Except OpenError OpenOptions
  | ("vfs", value) => .ok { o with method := value }
  | ("cache", value) =>
    if value = "shared" || value = "private" then .ok o else .error (.unknownMode "cache" value)
  | ("mode", value) =>
    match Mode.ofName? value with
    | none => .error (.unknownMode "access" value)
    | some mode => if mode.mayFollow o.mode then .ok { o with mode } else .error (.deniedMode value)
  | _ => .ok o

/-- Whether the value of an option switches it on: one of three words, or digits whose number is not
zero in an octet. -/
def isOn (value : String) : Bool :=
  match value.toList.takeWhile Char.isDigit with
  | [] => ["on", "yes", "true"].contains value.toLower
  | digits => digits.foldl (fun n d ↦ n * 10 + (d.toNat - '0'.toNat)) 0 % 256 ≠ 0

/-- Where a store is kept. -/
structure Place where
  /-- The file, if it is kept in one. -/
  path : Option Path := none
  /-- What may be done with the file. -/
  access : Access := .create
  /-- Whether the file is declared never to change. -/
  frozen : Bool := false
deriving DecidableEq, Repr

namespace Place

/-- Whether a store can be changed there. -/
def isWritable (p : Place) : Bool :=
  p.access ≠ .read && !p.frozen

/-- The place of a file, or no file if the path is one of the two that stand for none. -/
def ofPath (text : String) (access : Access) (frozen : Bool) : Except OpenError Place :=
  if text = "" || text = ":memory:" then .ok { access }
  else
    match Path.ofText? text with
    | none => .error .unreachable
    | some path => .ok { path := some path, access, frozen }

/-- What a name that gives an address starts with. -/
def addressMark : List UInt8 := "file:".toList.map octet

/-- The place that a name stands for. -/
def ofName (name : String) : Except OpenError Place :=
  let bytes := name.toUTF8.toList
  if bytes.contains 0 then .error .zeroOctet
  else if !addressMark.isPrefixOf bytes then ofPath name .create false
  else do
    let (path, options) ← readAddress (bytes.drop addressMark.length)
    let o ← options.foldlM OpenOptions.set {}
    let frozen := isOn ((options.lookup "immutable").getD "")
    let access := match o.mode with
      | .file access => access
      | .memory => .create
    if o.method = memoryMethod then return { access, frozen }
    else if !fileMethods.contains o.method then throw (.unknownMethod o.method)
    else if o.mode = .memory then return {}
    else ofPath path access frozen

end Place

end HornQuery
