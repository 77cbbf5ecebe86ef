import HornQuery.Config
import HornQuery.Store

/-!
# Opening stores

A store is opened at the place that its backend names. What is found there decides: a file that may be
used or created gives a store; a file that holds something else, or may not be changed, gives one that
refuses to be rebuilt. That shows only when it is used.

Files are reached through a `FileSystem`, so that the same code works on real files and on files held
in memory.
-/

namespace HornQuery

/-- A store that has been opened. -/
structure Opened where
  /-- What it holds. -/
  store : Store := {}
  /-- Why it refuses to be rebuilt, if it does. -/
  refusal : Option StorageError := none
deriving DecidableEq, Repr

/-- What is found at the path of a store's file. -/
inductive Site where
  /-- A directory, or nothing, and no file can be created. -/
  | closed
  /-- Nothing, but a file can be created. -/
  | free
  /-- A file that holds nothing. -/
  | blank
  /-- A file that holds a store. -/
  | store (store : Store)
  /-- A file that is of no use to a store. -/
  | unusable (e : StorageError)
deriving DecidableEq, Repr

/-- The most octets of a file that holds nothing to a store. -/
def maxBlank : Nat := 1

namespace Place

/-- Why a store at a place refuses to be rebuilt, if it does. -/
def refusal? (p : Place) : Option StorageError :=
  if !p.isWritable then some .readOnly
  else if (p.path.map Path.hasJournal).getD true then none
  else some .noJournal

/-- The store that is opened at a place for which this was found. -/
def openSite (p : Place) : Site → Except OpenError Opened
  | .closed => .error .unreachable
  | .free => if p.access = .create then .ok { refusal := p.refusal? } else .error .unreachable
  | .blank => .ok { refusal := p.refusal? }
  | .store store => .ok { store, refusal := p.refusal? }
  | .unusable e => .ok { refusal := some e }

end Place

/-- The place that a backend names. -/
def Backend.place : Backend → Except OpenError Place
  | .memory => .ok {}
  | .file name => Place.ofName name

/-- Access to files. -/
structure FileSystem (m : Type → Type) where
  /-- The text of a file, if it can be read. -/
  read : String → m (Option String)
  /-- What is found at a path. -/
  site : Path → m Site

/-- Open the store that a backend names. -/
def FileSystem.openStore {m : Type → Type} [Monad m] (fs : FileSystem m) (b : Backend) :
    m (Except OpenError Opened) := do
  match b.place with
  | .error e => return .error e
  | .ok place =>
    match place.path with
    | none => return .ok { refusal := place.refusal? }
    | some path => return place.openSite (← fs.site path)

end HornQuery
