import HornQuery.Folder
import HornQuery.Session

/-!
# Sessions on files held in memory

A workbench is a session together with the folder that may keep its store. Each run writes the store
back, so that a session opened later at the same file starts with what the file holds.
-/

namespace HornQuery

/-- The folder with a store kept at the place that a backend names, if that is a file. -/
def Folder.keep (f : Folder) (b : Backend) (store : Store) : Folder :=
  match b.place with
  | .ok ⟨some path, _, _⟩ => f.put (f.resolve path) (.store store)
  | _ => f

/-- A session and the folder that may keep its store. -/
structure Workbench where
  /-- The folder. -/
  folder : Folder
  /-- The session. -/
  session : Session

namespace Workbench

/-- The folder keeps the store of the session, unless the store refuses to be rebuilt. -/
def save (w : Workbench) : Workbench :=
  match w.session.refusal with
  | none => { w with folder := w.folder.keep w.session.config.backend w.session.store }
  | some _ => w

/-- Open the store that a configuration names. -/
def start (folder : Folder) (config : Config) : Except StorageError Workbench := do
  let session ← Id.run (folder.fileSystem.openSession config)
  return save { folder, session }

/-- Run a source text: the run, and the workbench afterwards. -/
def run (w : Workbench) (source : String) : Run × Workbench :=
  let r := w.session.run source
  (r, save { w with session := { w.session with store := r.store } })

/-- Give up the session and open another one in the same folder. -/
def reopen (w : Workbench) (config : Config) : Except StorageError Workbench :=
  start w.folder config

end Workbench

end HornQuery
