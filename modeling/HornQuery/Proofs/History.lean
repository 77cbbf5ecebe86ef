import Mathlib
import HornQuery.Proofs.Answers
import HornQuery.Workbench

/-!
# What came before makes no difference

A run rebuilds its store, and the first step of that is to delete what is there. Symbols can be deleted
only once no fact refers to them, so the step succeeds because the fact tables are emptied first and
every fact stands in one of them (`Database.clear_of_tabled`). Every store that runs leave behind has
that property, be it after a success or after a failure at any point, and so has every file that keeps
such a store (`Workbench.Tabled`). A run on it is therefore the same as a run on a fresh store
(`Workbench.history_irrelevant`).
-/

namespace HornQuery

/-! ### Stores whose facts all have a table -/

/-- Every fact stands in one of the fact tables. -/
def Database.Tabled (db : Database) : Prop :=
  ∀ r ∈ db.facts, r.args.length ≤ Schema.maxArity

/-- Every fact of the store, if it has tables at all, stands in one of them. -/
def Store.Tabled (s : Store) : Prop :=
  ∀ db, s.database = some db → db.Tabled

theorem Store.tabled_empty : ({} : Store).Tabled := fun _ h ↦ absurd h nofun

namespace Database

variable {db db' : Database}

theorem tabled_empty : ({} : Database).Tabled := fun _ h ↦ absurd h List.not_mem_nil

/-- Deleting arity by arity leaves the facts of other arities. -/
theorem facts_foldl_deleteFacts (arities : List Nat) (db : Database) :
    (arities.foldl deleteFacts db).facts = db.facts.filter fun r ↦ r.args.length ∉ arities := by
  induction arities generalizing db with
  | nil => simp
  | cons arity arities ih =>
    rw [List.foldl_cons, ih, deleteFacts, List.filter_filter]
    refine List.filter_congr fun r _ ↦ ?_
    simp [Bool.and_comm]

/-- **Deleting all rows succeeds**: once the fact tables are empty, nothing refers to a symbol. -/
theorem clear_of_tabled (h : db.Tabled) : db.clear = .ok {} := by
  have hnone : (Schema.arities.foldl deleteFacts db).facts = [] := by
    rw [facts_foldl_deleteFacts, List.filter_eq_nil_iff]
    intro r hr
    have hlength := h r hr
    simp only [Schema.arities, List.mem_range, decide_eq_true_eq, not_not]
    omega
  simp [clear, deleteSymbols, hnone]

theorem tabled_foldlM_insertSymbol {entries : List (Int × Symbol)} (h : db.Tabled)
    (hdb : entries.foldlM (fun db (id, symbol) ↦ db.insertSymbol ⟨id, symbol⟩) db = .ok db') :
    db'.Tabled := by
  rw [foldlM_insertSymbol hdb]
  exact h

/-- A fact is inserted only if there is a table for it. -/
theorem tabled_insertFact {row : FactRow} (h : db.Tabled) (hdb : db.insertFact row = .ok db') :
    db'.Tabled := by
  have hfits : row.args.length ≤ Schema.maxArity := by
    by_contra hnot
    rw [insertFact, if_pos (by omega)] at hdb
    cases hdb
  rw [insertFact_eq_ok hdb]
  intro r hr
  rcases List.mem_append.mp hr with hr | hr
  · exact h r hr
  · rw [List.mem_singleton.mp hr]
    exact hfits

theorem tabled_foldlM_insertFact {rows : List FactRow} (h : db.Tabled)
    (hdb : rows.foldlM insertFact db = .ok db') : db'.Tabled := by
  induction rows generalizing db with
  | nil => exact Except.ok.inj hdb ▸ h
  | cons row rows ih =>
    rw [List.foldlM_cons] at hdb
    obtain ⟨next, hnext, hdb⟩ := except_bind_eq_ok hdb
    exact ih (tabled_insertFact h hnext) hdb

end Database

namespace Store

variable {s s' : Store}

/-- A store is rebuilt from nothing, whatever it holds. -/
theorem clear_bootstrap (h : s.Tabled) : s.bootstrap.clear = .ok ⟨some {}⟩ := by
  have hdb : (s.database.getD {}).Tabled := by
    cases hs : s.database with
    | none => exact Database.tabled_empty
    | some db => exact h db hs
  simp only [bootstrap, clear, Database.clear_of_tabled hdb]
  rfl

/-- Symbols do not touch the facts. -/
theorem tabled_insertSymbols (h : s.Tabled) {symbols : SymbolTable}
    (hs : s.insertSymbols symbols = .ok s') : s'.Tabled := by
  rcases s with ⟨_ | db⟩
  · cases hs
  · obtain ⟨db', hdb', hs⟩ := except_bind_eq_ok hs
    obtain rfl := Except.ok.inj hs
    rintro _ ⟨⟩
    exact Database.tabled_foldlM_insertSymbol (h db rfl) hdb'

theorem tabled_insertFacts (h : s.Tabled) {rows : List FactRow} (hs : s.insertFacts rows = .ok s') :
    s'.Tabled := by
  rcases s with ⟨_ | db⟩ <;> rcases rows with _ | ⟨row, rows⟩
  · exact Except.ok.inj hs ▸ h
  · cases hs
  · exact Except.ok.inj hs ▸ h
  · obtain ⟨db', hdb', hs⟩ := except_bind_eq_ok (x := (row :: rows).foldlM Database.insertFact db) hs
    obtain rfl := Except.ok.inj hs
    rintro _ ⟨⟩
    exact Database.tabled_foldlM_insertFact (h db rfl) hdb'

end Store

/-! ### Runs -/

namespace Program

variable {p : Program} {config : Config} {store : Store}

/-- Putting a program into a store keeps it tabled, also if that fails halfway. -/
theorem tabled_materialize (h : store.Tabled) : (p.materialize store).store.Tabled := by
  unfold materialize
  simp only
  split
  · exact h
  · split
    · exact h
    · rename_i hsymbols
      have hstore := Store.tabled_insertSymbols h hsymbols
      split
      · exact hstore
      · rename_i hfacts
        exact Store.tabled_insertFacts hstore hfacts

/-- Answering queries does not change the store. -/
theorem answers_store (p : Program) (config : Config) (store : Store) (symbols : SymbolTable) :
    (p.answers config store symbols).store = store := by
  unfold answers
  simp only
  split
  · rfl
  · split <;> rfl

/-- A run leaves what writing the program to an empty store leaves. -/
theorem run_store (h : store.Tabled) :
    (p.run config store).store = (p.materialize ⟨some {}⟩).store := by
  unfold run
  rw [Store.clear_bootstrap h]
  simp only
  split
  · rfl
  · exact answers_store _ _ _ _

/-- **A run does not depend on the store.** -/
theorem run_eq_run_empty (h : store.Tabled) : p.run config store = p.run config {} := by
  unfold run
  rw [Store.clear_bootstrap h, Store.clear_bootstrap Store.tabled_empty]

end Program

/-! ### Why a run fails -/

/-- Resolution fails because a rule needs what cannot be had, or because rules wait for each other. -/
theorem Compiler.resolve_eq_error {c : Compiler} {maxPasses : Nat} {e : Error}
    (h : (c.resolve maxPasses).report = .error e) :
    (∃ rule reference, e = .cascade rule reference) ∨ ∃ passes pending, e = .cycle passes pending := by
  unfold Compiler.resolve at h
  simp only at h
  split at h
  · obtain rfl := Except.error.inj h
    unfold Resolution.stuckError
    simp only
    split
    · exact Or.inl ⟨_, _, rfl⟩
    · exact Or.inr ⟨_, _, rfl⟩
  · cases h

/-- Executing a query fails for the store's reasons only. -/
theorem CompiledQuery.execute_eq_storage {q : CompiledQuery} {config : Config} {store : Store}
    {text : String} {e : Error} (h : (q.execute config store text).answer = .error e) :
    ∃ cause, e = .storage cause := by
  unfold execute at h
  split at h
  · cases h
  · simp only at h
    split at h
    · cases h
    · split at h
      · exact ⟨_, (Except.error.inj h).symm⟩
      · cases h

/-- Queries end a run only if the store refuses one of them. -/
theorem Compiler.answerAll_eq_error {c : Compiler} {config : Config} {store : Store}
    {queries : List Query} {e : Error} (h : (c.answerAll config store queries).outcomes = .error e) :
    ∃ cause, e = .storage cause := by
  induction queries generalizing c with
  | nil => cases h
  | cons q queries ih =>
    cases hfirst : (c.answer config store q).outcomes with
    | ok found =>
      simp only [answerAll, hfirst] at h
      exact ih (except_map_eq_error h)
    | error e' =>
      simp only [answerAll, hfirst] at h
      obtain rfl := Except.error.inj h
      obtain ⟨-, ⟨_, -, heq⟩ | ⟨compiled, sql, -, heq⟩⟩ := c.answer_cases config store q
      · cases hfirst.symm.trans heq
      · exact CompiledQuery.execute_eq_storage (except_map_eq_error (heq.symm.trans hfirst))

namespace Program

variable {p : Program} {config : Config} {store : Store}

/-- A fact with more arguments than any table is found before anything is written. -/
theorem materialize_of_unsupportedArity {fact : Symbol}
    (h : (p.materialize store).symbols = .error (.unsupportedArity fact)) :
    (p.materialize store).store = store := by
  unfold materialize at h ⊢
  simp only at h ⊢
  split at h
  · rfl
  · split at h
    · cases h
    · split at h <;> cases h

/-- Once the facts are in the store, their arities are no reason to fail. -/
theorem answers_ne_unsupportedArity {symbols : SymbolTable} {fact : Symbol} :
    (p.answers config store symbols).result ≠ .error (.unsupportedArity fact) := by
  intro h
  unfold answers at h
  simp only at h
  split at h
  · rename_i e hresolve
    obtain rfl := Except.error.inj h
    obtain ⟨_, _, he⟩ | ⟨_, _, he⟩ := Compiler.resolve_eq_error hresolve <;> cases he
  · split at h
    · rename_i e hanswers
      obtain rfl := Except.error.inj h
      obtain ⟨_, he⟩ := Compiler.answerAll_eq_error hanswers
      cases he
    · cases h

/-- A run that fails for such a fact leaves the tables empty. -/
theorem run_store_of_unsupportedArity (hstore : store.Tabled) {fact : Symbol}
    (h : (p.run config store).result = .error (.unsupportedArity fact)) :
    (p.run config store).store = ⟨some {}⟩ := by
  rw [run_store hstore]
  unfold run at h
  rw [Store.clear_bootstrap hstore] at h
  simp only at h
  split at h
  · rename_i e he
    rw [Except.error.inj h] at he
    exact materialize_of_unsupportedArity he
  · exact absurd h answers_ne_unsupportedArity

end Program

/-! ### Sessions on files -/

/-- Every file that keeps a store keeps one whose facts all have a table. -/
def Folder.Tabled (f : Folder) : Prop :=
  ∀ path store, (path, .store store) ∈ f.files → store.Tabled

/-- The store in use and all stores in files have a table for each of their facts. -/
structure Workbench.Tabled (w : Workbench) : Prop where
  folder : w.folder.Tabled
  store : w.session.store.Tabled

namespace Session

variable {s : Session} {source : String}

/-- A text that cannot be read ends the run at once, and so does a store that refuses; else the program
is run. -/
theorem run_cases (s : Session) (source : String) :
    (∃ e, Program.parse source = .error e ∧ s.run source = ⟨s.store, [], .error (.parse e)⟩) ∨
      (∃ parsed e, Program.parse source = .ok parsed ∧ s.refusal = some e ∧
        s.run source = ⟨s.store, parsed.log, .error (.storage e)⟩) ∨
      ∃ parsed, Program.parse source = .ok parsed ∧ s.refusal = none ∧
        s.run source = { parsed.program.run s.config s.store with
          log := parsed.log ++ (parsed.program.run s.config s.store).log } := by
  cases hparse : Program.parse source with
  | error e => exact Or.inl ⟨e, rfl, by simp only [run, hparse]⟩
  | ok parsed =>
    cases hrefusal : s.refusal with
    | some e => exact Or.inr (Or.inl ⟨parsed, e, rfl, rfl, by simp only [run, hparse, hrefusal]⟩)
    | none => exact Or.inr (Or.inr ⟨parsed, rfl, rfl, by simp only [run, hparse, hrefusal]⟩)

/-- A run leaves a tabled store, whatever comes of it. -/
theorem tabled_run (h : s.store.Tabled) (source : String) : (s.run source).store.Tabled := by
  obtain ⟨_, -, heq⟩ | ⟨_, _, -, -, heq⟩ | ⟨parsed, -, -, heq⟩ := s.run_cases source <;> rw [heq]
  · exact h
  · exact h
  · show (parsed.program.run s.config s.store).store.Tabled
    rw [Program.run_store h]
    exact Program.tabled_materialize fun _ hdb ↦ Option.some.inj hdb ▸ Database.tabled_empty

/-- A run on a fresh store in place of the session's. -/
theorem run_fresh (h : s.store.Tabled) (source : String) :
    (s.run source).result = ({ s with store := {} }.run source).result ∧
      (s.run source).log = ({ s with store := {} }.run source).log ∧
      ∀ report, (s.run source).result = .ok report →
        (s.run source).store = ({ s with store := {} }.run source).store := by
  cases hparse : Program.parse source with
  | error e => simp [run, hparse]
  | ok parsed =>
    cases hrefusal : s.refusal with
    | some e => simp [run, hparse, hrefusal]
    | none => simp [run, hparse, hrefusal, Program.run_eq_run_empty h]

/-- A text that cannot be read does not reach the store. -/
theorem run_store_of_parse_eq_error {e : ParseError} (hparse : Program.parse source = .error e) :
    (s.run source).store = s.store := by
  simp only [run, hparse]

theorem run_store_of_unsupportedArity (h : s.store.Tabled) {fact : Symbol}
    (hresult : (s.run source).result = .error (.unsupportedArity fact)) :
    (s.run source).store = ⟨some {}⟩ := by
  obtain ⟨_, -, heq⟩ | ⟨_, _, -, -, heq⟩ | ⟨parsed, -, -, heq⟩ := s.run_cases source <;>
    rw [heq] at hresult ⊢
  · cases hresult
  · cases hresult
  · exact Program.run_store_of_unsupportedArity h hresult

end Session

/-- What is opened is a new store, or the one that was found. -/
theorem Place.openSite_eq_ok {p : Place} {site : Site} {opened : Opened}
    (h : p.openSite site = .ok opened) : opened.store = {} ∨ site = .store opened.store := by
  cases site with
  | closed => cases h
  | free =>
    rw [openSite] at h
    split at h
    · exact Or.inl (by rw [← Except.ok.inj h])
    · cases h
  | blank => exact Or.inl (by rw [← Except.ok.inj h])
  | store kept => exact Or.inr (by rw [← Except.ok.inj h])
  | unusable e => exact Or.inl (by rw [← Except.ok.inj h])

namespace Folder

variable {f : Folder}

/-- Keeping a tabled store in a folder keeps the folder tabled. -/
theorem tabled_keep (hf : f.Tabled) {store : Store} (hstore : store.Tabled) (b : Backend) :
    (f.keep b store).Tabled := by
  unfold keep
  split
  · intro path kept hmem
    rcases List.mem_cons.mp hmem with heq | hmem
    · obtain ⟨-, heq⟩ := Prod.mk.inj heq
      obtain rfl := Content.store.inj heq
      exact hstore
    · exact hf path kept hmem
  · exact hf

/-- A store that is found in a tabled folder is tabled. -/
theorem tabled_site (hf : f.Tabled) {path : Path} {store : Store} (h : f.site path = .store store) :
    store.Tabled := by
  unfold site at h
  simp only at h
  split at h
  · cases h
  · split at h
    · cases h
    · split at h <;> cases h
    · rename_i kept hkept
      obtain rfl := Site.store.inj h
      exact hf _ _ (mem_of_lookup_eq_some hkept)
    · cases h

/-- A store that is opened is fresh, or the one that a file keeps. -/
theorem openStore_eq_ok {b : Backend} {opened : Opened}
    (h : Id.run (f.fileSystem.openStore b) = .ok opened) :
    opened.store = {} ∨ ∃ path, f.site path = .store opened.store := by
  cases hplace : b.place with
  | error e =>
    simp only [FileSystem.openStore, hplace] at h
    cases h
  | ok place =>
    cases hpath : place.path with
    | none =>
      simp only [FileSystem.openStore, hplace, hpath] at h
      obtain rfl := Except.ok.inj h
      exact Or.inl rfl
    | some path =>
      simp only [FileSystem.openStore, hplace, hpath] at h
      have hsite : place.openSite (f.site path) = .ok opened := h
      exact (Place.openSite_eq_ok hsite).imp_right fun h ↦ ⟨path, h⟩

/-- So a session opened there starts from a tabled store. -/
theorem tabled_openSession (hf : f.Tabled) {config : Config} {s : Session}
    (h : Id.run (f.fileSystem.openSession config) = .ok s) : s.store.Tabled := by
  cases hopen : Id.run (f.fileSystem.openStore config.backend) with
  | error e =>
    have herror : Id.run (f.fileSystem.openSession config) = .error (.unopened e) := by
      unfold FileSystem.openSession
      simp only [Id.run_bind, hopen]
      rfl
    cases h.symm.trans herror
  | ok opened =>
    have hok : Id.run (f.fileSystem.openSession config) =
        .ok { config, store := opened.store, refusal := opened.refusal } := by
      unfold FileSystem.openSession
      simp only [Id.run_bind, hopen]
      rfl
    obtain rfl := Except.ok.inj (h.symm.trans hok)
    show opened.store.Tabled
    obtain hfresh | ⟨path, hsite⟩ := openStore_eq_ok hopen
    · rw [hfresh]
      exact Store.tabled_empty
    · exact tabled_site hf hsite

end Folder

namespace Workbench

variable {w w' : Workbench}

/-- Something a workbench is used for. -/
inductive Step where
  /-- A source text is run. -/
  | run (source : String)
  /-- The session is given up and another one is opened. -/
  | reopen (config : Config)

/-- The workbench after a step. -/
def step (w : Workbench) : Step → Except StorageError Workbench
  | .run source => .ok (w.run source).2
  | .reopen config => w.reopen config

/-- The workbench that is opened in a folder, after some steps. -/
def after (folder : Folder) (config : Config) (steps : List Step) : Except StorageError Workbench := do
  let w ← start folder config
  steps.foldlM step w

theorem session_save (w : Workbench) : w.save.session = w.session := by
  unfold save
  split <;> rfl

/-- Saving puts the session's store into the folder. -/
theorem Tabled.save (h : w.Tabled) : w.save.Tabled := by
  refine ⟨?_, by rw [session_save]; exact h.store⟩
  unfold Workbench.save
  split
  · exact Folder.tabled_keep h.folder h.store _
  · exact h.folder

/-- A workbench on a tabled folder is tabled. -/
theorem tabled_start {folder : Folder} (hf : folder.Tabled) {config : Config}
    (h : start folder config = .ok w) : w.Tabled := by
  obtain ⟨session, hsession, h⟩ := except_bind_eq_ok h
  obtain rfl := Except.ok.inj h
  exact Tabled.save ⟨hf, Folder.tabled_openSession hf hsession⟩

/-- Whatever a run ends with, the facts that it leaves have a table each. -/
theorem Tabled.run (h : w.Tabled) (source : String) : (w.run source).2.Tabled :=
  Tabled.save ⟨h.folder, Session.tabled_run h.store source⟩

/-- Every step of a workbench keeps it tabled, a run and a reopening alike. -/
theorem Tabled.step (h : w.Tabled) {s : Step} (hs : w.step s = .ok w') : w'.Tabled := by
  cases s with
  | run source => exact Except.ok.inj hs ▸ h.run source
  | reopen config => exact tabled_start h.folder hs

/-- So do any steps, one after the other. -/
theorem Tabled.foldlM_step (h : w.Tabled) {steps : List Step}
    (hs : steps.foldlM Workbench.step w = .ok w') : w'.Tabled := by
  induction steps generalizing w with
  | nil => exact Except.ok.inj hs ▸ h
  | cons s steps ih =>
    rw [List.foldlM_cons] at hs
    obtain ⟨w₁, hw₁, hs⟩ := except_bind_eq_ok hs
    exact ih (h.step hw₁) hs

/-- A workbench is tabled after any steps from a tabled folder. -/
theorem tabled_after {folder : Folder} (hf : folder.Tabled) {config : Config} {steps : List Step}
    (h : after folder config steps = .ok w) : w.Tabled := by
  obtain ⟨w₀, hstart, hsteps⟩ := except_bind_eq_ok h
  exact (tabled_start hf hstart).foldlM_step hsteps

/-- **What came before makes no difference.** Open a session in a folder, use it for runs of any
outcome and give it up for other ones in any order. The next run has the same result and the same log
as on a fresh store. If it succeeds, the tables hold what they would hold then; if the text cannot be
read, they are as they were; if a fact has too many arguments, they are there and empty. -/
theorem history_irrelevant {folder : Folder} (hfolder : folder.Tabled) {config : Config}
    {steps : List Step} (hw : after folder config steps = .ok w) {fresh : Session}
    (hfresh : fresh = { w.session with store := {} }) (source : String) :
    (w.run source).1.result = (fresh.run source).result ∧
      (w.run source).1.log = (fresh.run source).log ∧
      (∀ report, (w.run source).1.result = .ok report →
        (w.run source).2.session.store = (fresh.run source).store) ∧
      (∀ e, Program.parse source = .error e →
        (w.run source).2.session.store = w.session.store) ∧
      ∀ fact, (w.run source).1.result = .error (.unsupportedArity fact) →
        (w.run source).2.session.store = ⟨some {}⟩ := by
  have hstore := (tabled_after hfolder hw).store
  have hsession : (w.run source).2.session.store = (w.session.run source).store := by
    show (save _).session.store = _
    rw [session_save]
  obtain ⟨hresult, hlog, hok⟩ := Session.run_fresh hstore source
  subst hfresh
  rw [hsession]
  exact ⟨hresult, hlog, hok, fun e hparse ↦ Session.run_store_of_parse_eq_error hparse,
    fun fact hfact ↦ Session.run_store_of_unsupportedArity hstore hfact⟩

/-- A run that succeeds, one with a fact that does not fit and one of a text that is no program; then,
in a session of its own, one with rules that wait for each other. -/
def mixedHistory : List Step :=
  [.run "edge(a, b). ?- edge(X, b).", .run "wide(a, b, c, d, e).", .run "edge(a",
    .reopen { backend := .file "db", maxPasses := 3 },
    .run "edge(a, b). edge(b, a). loop(X) :- loop(X)."]

/-- The file still holds rows of the last run, and the next run answers and writes as on a fresh
store. -/
theorem history_irrelevant_mixed :
    ∃ w, after {} { backend := .file "db" } mixedHistory = .ok w ∧
      w.session.store = ⟨some ⟨[⟨1, ⟨"edge", 2⟩⟩, ⟨2, ⟨"a", 0⟩⟩, ⟨3, ⟨"b", 0⟩⟩],
        [⟨1, [2, 3]⟩, ⟨1, [3, 2]⟩]⟩⟩ ∧
      (w.run "edge(b, a). ?- edge(X, a).").1.result =
        .ok ⟨3, 1, ⟨0, []⟩, [⟨"edge(X, a)", none, .rows ["X"] [["b"]]⟩]⟩ ∧
      ({ w.session with store := {} }.run "edge(b, a). ?- edge(X, a).").result =
        .ok ⟨3, 1, ⟨0, []⟩, [⟨"edge(X, a)", none, .rows ["X"] [["b"]]⟩]⟩ ∧
      (w.run "edge(b, a). ?- edge(X, a).").2.session.store =
        ({ w.session with store := {} }.run "edge(b, a). ?- edge(X, a).").store := by
  have hrun : (after {} { backend := .file "db" } mixedHistory).toOption.map (fun w ↦
      (w.session.store, (w.run "edge(b, a). ?- edge(X, a).").1.result)) =
      some (⟨some ⟨[⟨1, ⟨"edge", 2⟩⟩, ⟨2, ⟨"a", 0⟩⟩, ⟨3, ⟨"b", 0⟩⟩], [⟨1, [2, 3]⟩, ⟨1, [3, 2]⟩]⟩⟩,
        .ok ⟨3, 1, ⟨0, []⟩, [⟨"edge(X, a)", none, .rows ["X"] [["b"]]⟩]⟩) := by decide +kernel
  obtain ⟨w, hw, hrun⟩ := Option.map_eq_some_iff.mp hrun
  obtain ⟨hstore, hresult⟩ := Prod.mk.inj hrun
  have hafter := except_toOption_eq_some hw
  have hfolder : ({} : Folder).Tabled := fun path store hmem ↦ by simp at hmem
  obtain ⟨hsame, -, hok, -, -⟩ :=
    history_irrelevant hfolder hafter rfl "edge(b, a). ?- edge(X, a)."
  exact ⟨w, hafter, hstore, hresult, hsame.symm.trans hresult, hok _ hresult⟩

end Workbench

end HornQuery
