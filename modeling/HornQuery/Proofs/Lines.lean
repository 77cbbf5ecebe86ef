import Mathlib
import HornQuery.Proofs.Failures
import HornQuery.Proofs.Templates
import HornQuery.Proofs.Written

/-!
# What fits on a line

A report puts SQL, cells and messages on lines of their own and escapes nothing in them. That none of
them holds a newline (`OneLine`) has a reason of its own for each:

* SQL is made of generated names (`Compiler.oneLine_sql`). Names of the program are supplied when a
  query is executed and never written into the text. The same reason keeps question marks away from it
  that do not belong to a parameter (`SqlText`, `Fragment.spelled_template`).
* A cell is a number or the text of a symbol (`Database.oneLine_of_mem_draws`), and no newline can
  stand between quotes in a source text.
* A message is about goals, rules and parameters of the program (`Program.Complaint.oneLine`).
-/

namespace HornQuery

open Node

/-- The text holds no newline. -/
def OneLine (s : String) : Prop := '\n' ∉ s.toList

instance (s : String) : Decidable (OneLine s) := inferInstanceAs (Decidable ('\n' ∉ s.toList))

/-- The text holds neither a newline nor a question mark. Generated SQL is such a text, but for the
numbers of its parameters. -/
def SqlText (s : String) : Prop := '\n' ∉ s.toList ∧ '?' ∉ s.toList

instance (s : String) : Decidable (SqlText s) :=
  inferInstanceAs (Decidable ('\n' ∉ s.toList ∧ '?' ∉ s.toList))

/-- What may stand in SQL stands on one line. -/
theorem SqlText.oneLine {s : String} (h : SqlText s) : OneLine s := h.1

/-! ### Putting texts together -/

@[simp] theorem oneLine_append {s t : String} : OneLine (s ++ t) ↔ OneLine s ∧ OneLine t := by
  simp [OneLine]

@[simp] theorem sqlText_append {s t : String} : SqlText (s ++ t) ↔ SqlText s ∧ SqlText t := by
  simp only [SqlText, String.toList_append, List.mem_append, not_or]
  tauto

@[simp] theorem sqlText_natRepr (n : Nat) : SqlText n.repr := by
  have hdigit : ∀ c ∈ n.repr.toList, c.isDigit = true := fun c hc ↦ by
    rw [Nat.toList_repr] at hc
    exact Nat.isDigit_of_mem_toDigits (by decide) (by decide) hc
  exact ⟨fun h ↦ absurd (hdigit _ h) (by decide), fun h ↦ absurd (hdigit _ h) (by decide)⟩

@[simp] theorem oneLine_natRepr (n : Nat) : OneLine n.repr := (sqlText_natRepr n).oneLine

@[simp] theorem sqlText_intRepr (n : Int) : SqlText n.repr := by
  cases n with
  | ofNat m => exact sqlText_natRepr m
  | negSucc m => exact sqlText_append.mpr ⟨by decide, sqlText_natRepr (m + 1)⟩

@[simp] theorem oneLine_intRepr (n : Int) : OneLine n.repr := (sqlText_intRepr n).oneLine

/-- A character that is neither in the separator nor in the texts is not in the whole. -/
theorem not_mem_intercalate {c : Char} {separator : String} (hseparator : c ∉ separator.toList)
    {texts : List String} (h : ∀ s ∈ texts, c ∉ s.toList) :
    c ∉ (separator.intercalate texts).toList := by
  rw [String.toList_intercalate]
  induction texts with
  | nil => simp
  | cons s texts ih =>
    obtain ⟨hs, htexts⟩ := List.forall_mem_cons.mp h
    cases texts with
    | nil => simpa using hs
    | cons t texts =>
      simp only [List.map_cons, List.intercalate_cons_cons, List.mem_append, not_or] at ih ⊢
      exact ⟨⟨hs, hseparator⟩, ih htexts⟩

/-- Texts on one line stay on one line if the separator is on one. -/
theorem oneLine_intercalate {separator : String} (hseparator : OneLine separator)
    {texts : List String} (h : ∀ s ∈ texts, OneLine s) : OneLine (separator.intercalate texts) :=
  not_mem_intercalate hseparator h

/-- Texts that may stand in SQL may do so with a separator between them. -/
theorem sqlText_intercalate {separator : String} (hseparator : SqlText separator)
    {texts : List String} (h : ∀ s ∈ texts, SqlText s) : SqlText (separator.intercalate texts) :=
  ⟨not_mem_intercalate hseparator.1 fun s hs ↦ (h s hs).1,
    not_mem_intercalate hseparator.2 fun s hs ↦ (h s hs).2⟩

/-- Quoting adds nothing but quotes. -/
theorem sqlText_quoteIdentifier {s : String} (h : SqlText s) : SqlText (quoteIdentifier s) := by
  have hchar : ∀ c ∈ (quoteIdentifier s).toList, c = '"' ∨ c ∈ s.toList := by
    intro c hc
    simp only [quoteIdentifier, String.toList_ofList, List.mem_append, List.mem_cons, List.mem_flatMap,
      List.not_mem_nil, or_false] at hc
    obtain (hquote | ⟨d, hd, hc⟩) | hquote := hc
    · exact .inl hquote
    · split_ifs at hc with hquote
      · exact .inl (by simpa using hc)
      · exact .inr (List.mem_singleton.mp hc ▸ hd)
    · exact .inl hquote
  exact ⟨fun hmem ↦ (hchar _ hmem).elim (by decide) h.1, fun hmem ↦ (hchar _ hmem).elim (by decide) h.2⟩

/-! ### Names of the program -/

/-- Quoted names end on their line. -/
theorem oneLine_of_isQuotable {text : String} (h : IsQuotable text) : OneLine text :=
  fun hmem ↦ (h _ hmem).2 rfl

theorem oneLine_of_isNameChar {text : String} (h : ∀ c ∈ text.toList, Reader.isNameChar c) :
    OneLine text :=
  fun hmem ↦ absurd (h _ hmem) (by decide)

theorem oneLine_of_isVarName {text : String} (h : IsVarName text) : OneLine text := by
  obtain ⟨c, rest, htext, hupper, hrest⟩ := h
  refine oneLine_of_isNameChar fun d hd ↦ ?_
  rw [htext] at hd
  rcases List.mem_cons.mp hd with rfl | hd
  · exact Reader.isNameChar_of_isUpper hupper
  · exact hrest d hd

/-! ### Messages -/

/-- A symbol is displayed with its arity, which is a numeral. -/
theorem Symbol.oneLine_display {s : Symbol} (h : OneLine s.text) : OneLine s.display :=
  oneLine_append.mpr ⟨oneLine_append.mpr ⟨h, by decide⟩, oneLine_natRepr s.arity⟩

namespace Program

variable {p : Program} {policy : BodyPolicy}

/-- A message on arities lists them on one line. -/
theorem oneLine_arityFault {g : Goal} (h : OneLine g.functor) : OneLine (p.arityFault g).message := by
  have hdisplay : OneLine g.symbol.display := Symbol.oneLine_display h
  have hdefined : OneLine (Text.bracketed ((p.definedArities g.functor).map toString)) := by
    refine oneLine_append.mpr ⟨oneLine_append.mpr ⟨by decide, ?_⟩, by decide⟩
    refine oneLine_intercalate (by decide) fun s hs ↦ ?_
    obtain ⟨n, -, rfl⟩ := List.mem_map.mp hs
    exact oneLine_natRepr n
  refine oneLine_append.mpr ⟨?_, hdefined⟩
  simp only [oneLine_append]
  exact ⟨⟨⟨⟨by decide, hdisplay⟩, by decide⟩, h⟩, by decide⟩

/-- Whatever is wrong with a goal of a written program is said on one line. -/
theorem GoalError.oneLine (hp : p.Written) {g : Goal} (hg : OneLine g.functor) {e : CompileError}
    (h : p.GoalError policy g e) : OneLine e.message := by
  have hdisplay : OneLine g.symbol.display := Symbol.oneLine_display hg
  cases h with
  | wrongArity _ => exact oneLine_arityFault hg
  | undefined _ => exact oneLine_append.mpr ⟨by decide, hdisplay⟩
  | failedRule hr hfault =>
    obtain ⟨before, after, hselect, -, -⟩ := hfault
    have hmem := BodyPolicy.mem_of_mem_select (hselect ▸ List.mem_append_right before List.mem_cons_self)
    have hreason := oneLine_arityFault (p := p)
      (oneLine_of_isQuotable ((hp.rules _ (mem_of_rule? hr)).body _ hmem).functor)
    exact oneLine_append.mpr ⟨oneLine_append.mpr ⟨oneLine_append.mpr ⟨by decide, hdisplay⟩, by decide⟩,
      hreason⟩

/-- Whatever is wrong with a query is said on one line. -/
theorem Complaint.oneLine (hp : p.Written) {config : Config} {q : Query} (hq : q ∈ p.queries)
    {message : String} (h : p.Complaint config q message) : OneLine message := by
  cases h with
  | goal hg h =>
    have hwritten := hp.queries q hq _ (BodyPolicy.mem_of_mem_select hg)
    exact h.oneLine hp (oneLine_of_isQuotable hwritten.functor)
  | parameter hg hx _ =>
    have hname : IsParamName _ :=
      (hp.queries q hq _ (BodyPolicy.mem_of_mem_select hg)).args _ hx
    rw [Error.message_missingBinding, Placeholder.display_external]
    simpa +decide using oneLine_of_isNameChar hname.2

end Program

/-! ### Generated names -/

namespace Scope

/-- Aliases are made of letters, digits and underscores. -/
theorem Owns.sqlText {number : Nat} {name : String} (h : Owns number name) : SqlText name := by
  obtain ⟨index, rfl | rfl⟩ := h
  · simp +decide [tableAlias]
  · simp +decide [variableAlias]

theorem Earlier.sqlText {number : Nat} {name : String} (h : Earlier number name) : SqlText name := by
  obtain ⟨m, -, h⟩ := h
  exact h.sqlText

end Scope

/-- So are the columns of the tables. -/
theorem Source.HasColumn.sqlText {s : Source} {column : String} (h : s.HasColumn column) :
    SqlText column := by
  obtain ⟨-, h⟩ | ⟨arity, -, h⟩ := h
  · revert column
    decide
  · rcases List.mem_cons.mp h with rfl | h
    · decide
    · obtain ⟨i, -, rfl⟩ := List.mem_map.mp h
      simp +decide [Schema.argColumn]

/-- The table has a name from the schema. -/
def Source.Listed (s : Source) : Prop :=
  s.table = Schema.symbolTable ∨ ∃ arity, s.table = Schema.factTable arity

/-- And so are the tables. -/
theorem Source.Listed.sqlText {s : Source} (h : s.Listed) : SqlText s.table := by
  obtain h | ⟨arity, h⟩ := h <;> rw [h]
  · decide
  · simp +decide [Schema.factTable]

/-- All blocks of the scan draw from tables of the schema. -/
def Scan.Listed (scan : Scan) : Prop :=
  ∀ sources, scan.HasBlock sources → ∀ s ∈ sources, s.Listed

/-- Replacing placeholders leaves the blocks as they are. -/
theorem Scan.HasBlock.of_substitute {b : Bindings} {scan : Scan} {sources : List Source}
    (h : (scan.substitute b).HasBlock sources) : scan.HasBlock sources := by
  generalize hsubstituted : scan.substitute b = substituted at h
  induction h generalizing scan with
  | own _ =>
    obtain ⟨sources, conditions, projection⟩ := scan
    rw [← hsubstituted]
    exact .own ⟨sources, conditions, projection⟩
  | nested hmem hinner ih =>
    obtain ⟨sources, conditions, projection⟩ := scan
    rw [← hsubstituted, Scan.substitute, Condition.substituteAll_eq_map] at hmem
    obtain ⟨condition, hcondition, heq⟩ := List.mem_map.mp hmem
    cases condition with
    | eq left right => cases heq
    | «exists» inner => exact .nested hcondition (ih (Condition.exists.inj heq))

/-- Substitution leaves the sources alone. -/
theorem Scan.Listed.substitute {scan : Scan} (h : scan.Listed) (b : Bindings) :
    (scan.substitute b).Listed :=
  fun sources hsources ↦ h sources hsources.of_substitute

/-- In a scan with listed sources, nested scans have listed sources. -/
theorem Scan.Listed.nested {scan inner : Scan} (h : scan.Listed) (hmem : .exists inner ∈ scan.conditions) :
    inner.Listed :=
  fun sources hsources ↦ h sources (.nested hmem hsources)

/-! ### SQL -/

namespace Template

/-- The text around the lookups holds neither a newline nor a question mark. -/
def Spelled (t : Template) : Prop := ∀ s, .text s ∈ t → SqlText s

variable {t t' : Template} {s : String}

theorem spelled_nil : Spelled [] := fun _ h ↦ absurd h List.not_mem_nil

@[simp] theorem spelled_text_cons : Spelled (.text s :: t) ↔ SqlText s ∧ Spelled t := by
  simp [Spelled, or_imp, forall_and]

@[simp] theorem spelled_append : Spelled (t ++ t') ↔ Spelled t ∧ Spelled t' := by
  simp [Spelled, or_imp, forall_and]

/-- A template made of spelled ones with a separator is spelled. -/
theorem spelled_join {separator : String} (hseparator : SqlText separator) {ts : List Template}
    (h : ∀ t ∈ ts, Spelled t) : Spelled (join separator ts) := by
  induction ts with
  | nil => exact spelled_nil
  | cons t ts ih =>
    obtain ⟨ht, hts⟩ := List.forall_mem_cons.mp h
    cases ts with
    | nil => simpa [join] using ht
    | cons u us =>
      rw [join, List.intercalate_cons_cons]
      exact spelled_append.mpr
        ⟨spelled_append.mpr ⟨ht, spelled_text_cons.mpr ⟨hseparator, spelled_nil⟩⟩, ih hts⟩

/-- Filling in numbers adds no newline. -/
theorem Spelled.oneLine_fill (h : Spelled t) (number : Placeholder → Nat) :
    OneLine (fill number t) := by
  induction t with
  | nil => exact fun h ↦ absurd h List.not_mem_nil
  | cons piece t ih =>
    have hrest := ih fun s hs ↦ h s (List.mem_cons_of_mem _ hs)
    cases piece with
    | text s =>
      rw [fill_text_cons]
      exact oneLine_append.mpr ⟨(h s List.mem_cons_self).oneLine, hrest⟩
    | lookup key =>
      have hlookup : OneLine ((Piece.lookup key).write number) :=
        oneLine_append.mpr ⟨oneLine_append.mpr ⟨by decide, oneLine_natRepr _⟩, by decide⟩
      rw [fill_cons]
      exact oneLine_append.mpr ⟨hlookup, hrest⟩

end Template

/-- An expression is spelled if the aliases it may refer to are. A number is written in digits and a
placeholder as its number. -/
theorem Expr.spelled_template {visible : List Source} (hvisible : ∀ s ∈ visible, SqlText s.name)
    {e : Expr} (h : e.WellScoped visible) : Template.Spelled e.template := by
  cases e with
  | column source field =>
    obtain ⟨s, hs, rfl, hfield⟩ := h
    have htext : SqlText (s.name ++ "." ++ field) :=
      sqlText_append.mpr ⟨sqlText_append.mpr ⟨hvisible s hs, by decide⟩, hfield.sqlText⟩
    exact Template.spelled_text_cons.mpr ⟨htext, Template.spelled_nil⟩
  | int value => exact Template.spelled_text_cons.mpr ⟨sqlText_intRepr value, Template.spelled_nil⟩
  | param key => exact fun s hs ↦ by cases List.mem_singleton.mp hs

/-- A block is spelled if its columns, its sources and its conditions are. -/
theorem spelled_blockTemplate {columns : Template} (hcolumns : Template.Spelled columns)
    {sources : List Source} (hsources : ∀ s ∈ sources, SqlText s.table ∧ SqlText s.name)
    {conditions : List Template} (hconditions : ∀ t ∈ conditions, Template.Spelled t) :
    Template.Spelled (blockTemplate columns sources conditions) := by
  have hfrom : SqlText (", ".intercalate (sources.map fun s ↦ s!"{s.table} AS {s.name}")) := by
    refine sqlText_intercalate (by decide) fun text htext ↦ ?_
    obtain ⟨s, hs, rfl⟩ := List.mem_map.mp htext
    exact sqlText_append.mpr ⟨sqlText_append.mpr ⟨(hsources s hs).1, by decide⟩, (hsources s hs).2⟩
  have hwhere := Template.spelled_join (by decide : SqlText " AND ") hconditions
  unfold blockTemplate
  dsimp only
  split_ifs <;> simp +decide [hcolumns, hfrom, hwhere, Template.spelled_nil]

mutual

/-- A nested scan brings aliases of its own, which have to be spelled as well. -/
theorem Condition.spelled_template {outer : List Source} (houter : ∀ s ∈ outer, SqlText s.name) :
    (c : Condition) → c.WellScoped outer → (∀ name ∈ c.declared, SqlText name) →
      (∀ inner, c = .exists inner → inner.Listed) → Template.Spelled c.template
  | .eq left right, hc, _, _ => by
    rw [Condition.template, Template.spelled_append, Template.spelled_text_cons]
    exact ⟨left.spelled_template houter hc.1, by decide, right.spelled_template houter hc.2⟩
  | .exists scan, hc, hdeclared, hlisted => by
    have hscan := Scan.spelled_existsTemplate houter scan hc hdeclared (hlisted scan rfl)
    rw [Condition.template, Template.spelled_append, Template.spelled_text_cons,
      Template.spelled_text_cons]
    exact ⟨⟨by decide, hscan⟩, by decide, Template.spelled_nil⟩

/-- The aliases that a scan declares and the tables it draws from are all the names in its text. -/
theorem Scan.spelled_existsTemplate {outer : List Source} (houter : ∀ s ∈ outer, SqlText s.name) :
    (scan : Scan) → scan.WellScoped outer → (∀ name ∈ scan.declared, SqlText name) → scan.Listed →
      Template.Spelled scan.existsTemplate
  | ⟨sources, conditions, projection⟩, hscan, hdeclared, hlisted => by
    have hnames : ∀ s ∈ sources, SqlText s.name := fun s hs ↦
      hdeclared s.name (Scan.mem_declared.mpr (.inl ⟨s, hs, rfl⟩))
    rw [Scan.existsTemplate]
    refine spelled_blockTemplate (Template.spelled_text_cons.mpr ⟨by decide, Template.spelled_nil⟩)
      (fun s hs ↦ ⟨(hlisted _ (.own _) s hs).sqlText, hnames s hs⟩) ?_
    exact Condition.spelled_templates (List.forall_mem_append.mpr ⟨houter, hnames⟩) conditions
      hscan.2.2.1 (fun name hname ↦ hdeclared name (List.mem_append_right _ hname)) fun inner hinner ↦
        hlisted.nested hinner

theorem Condition.spelled_templates {outer : List Source} (houter : ∀ s ∈ outer, SqlText s.name) :
    (cs : List Condition) → Condition.AllWellScoped outer cs →
      (∀ name ∈ Condition.declaredIn cs, SqlText name) →
      (∀ inner, .exists inner ∈ cs → inner.Listed) →
      ∀ t ∈ Condition.templates cs, Template.Spelled t
  | [], _, _, _ => fun _ h ↦ absurd h List.not_mem_nil
  | c :: cs, hcs, hdeclared, hlisted => by
    rw [Condition.templates]
    refine List.forall_mem_cons.mpr ⟨?_, ?_⟩
    · exact Condition.spelled_template houter c hcs.1
        (fun name hname ↦ hdeclared name (List.mem_append_left _ hname))
        fun inner hinner ↦ hlisted inner (hinner ▸ List.mem_cons_self)
    · exact Condition.spelled_templates houter cs hcs.2
        (fun name hname ↦ hdeclared name (List.mem_append_right _ hname))
        fun inner hinner ↦ hlisted inner (List.mem_cons_of_mem _ hinner)

end

/-- The labels of a projection are written besides the names in the conditions. -/
theorem Scan.spelled_rowsTemplate {scan : Scan} (hscan : scan.WellScoped [])
    (hdeclared : ∀ name ∈ scan.declared, SqlText name) (hlisted : scan.Listed)
    (hlabels : ∀ entry ∈ scan.projection, SqlText entry.1) : Template.Spelled scan.rowsTemplate := by
  obtain ⟨sources, conditions, projection⟩ := scan
  have hnames : ∀ s ∈ sources, SqlText s.name := fun s hs ↦
    hdeclared s.name (Scan.mem_declared.mpr (.inl ⟨s, hs, rfl⟩))
  have hcolumns : Template.Spelled (Template.join ", " (projection.map columnTemplate)) := by
    refine Template.spelled_join (by decide) fun t ht ↦ ?_
    obtain ⟨entry, hentry, rfl⟩ := List.mem_map.mp ht
    rw [columnTemplate, Template.spelled_append, Template.spelled_text_cons, sqlText_append]
    exact ⟨Expr.spelled_template hnames (hscan.2.2.2 entry hentry),
      ⟨by decide, sqlText_quoteIdentifier (hlabels entry hentry)⟩, Template.spelled_nil⟩
  unfold Scan.rowsTemplate
  refine spelled_blockTemplate ?_ (fun s hs ↦ ⟨(hlisted _ (.own _) s hs).sqlText, hnames s hs⟩) ?_
  · split_ifs
    · exact Template.spelled_text_cons.mpr ⟨by decide, Template.spelled_nil⟩
    · exact hcolumns
  · exact Condition.spelled_templates hnames conditions hscan.2.2.1
      (fun name hname ↦ hdeclared name (List.mem_append_right _ hname)) fun inner hinner ↦
        hlisted.nested hinner

/-- A fragment that is well scoped and whose names are spelled is spelled as a whole. -/
theorem Fragment.spelled_template {f : Fragment} (hscan : f.scan.WellScoped [])
    (hdeclared : ∀ name ∈ f.scan.declared, SqlText name) (hlisted : f.scan.Listed)
    (hlabels : ∀ columns, f.shape = .rows columns → ∀ entry ∈ f.scan.projection, SqlText entry.1) :
    Template.Spelled f.template := by
  unfold Fragment.template
  cases hshape : f.shape with
  | existence =>
    have hexists := f.scan.spelled_existsTemplate (fun _ h ↦ absurd h List.not_mem_nil) hscan
      hdeclared hlisted
    dsimp only
    simp +decide [hexists, Template.spelled_nil]
  | rows columns =>
    have hlabel := hlabels columns hshape
    have hnames : SqlText (", ".intercalate
        (f.scan.projection.map fun entry ↦ quoteIdentifier entry.1)) := by
      refine sqlText_intercalate (by decide) fun text htext ↦ ?_
      obtain ⟨entry, hentry, rfl⟩ := List.mem_map.mp htext
      exact sqlText_quoteIdentifier (hlabel entry hentry)
    have hrows := Scan.spelled_rowsTemplate hscan hdeclared hlisted hlabel
    dsimp only
    simp +decide [hnames, hrows, Template.spelled_nil]

/-- So its SQL is one line. -/
theorem Fragment.oneLine_sql {f : Fragment} (hscan : f.scan.WellScoped [])
    (hdeclared : ∀ name ∈ f.scan.declared, SqlText name) (hlisted : f.scan.Listed)
    (hlabels : ∀ columns, f.shape = .rows columns → ∀ entry ∈ f.scan.projection, SqlText entry.1) :
    OneLine f.sql := by
  rw [← f.fill_template]
  exact (Fragment.spelled_template hscan hdeclared hlisted hlabels).oneLine_fill _

/-! ### Compiled queries -/

/-- The labels of columns are numbered, and do not show the names of the variables. -/
theorem Scope.sqlText_labels (s : Scope) (names : List String) :
    ∀ entry ∈ (s.finish names).scan.projection, SqlText entry.1 := by
  intro entry hentry
  obtain ⟨column, -, rfl⟩ := List.mem_map.mp hentry
  exact sqlText_append.mpr ⟨by decide, sqlText_natRepr _⟩

/-- A finished scope draws from tables of the schema if the scans nested in it do. -/
theorem Scope.Valid.listed {s : Scope} (h : s.Valid)
    (hnested : s.Conditions fun c ↦ ∀ inner, c = .exists inner → inner.Listed) (names : List String) :
    (s.finish names).scan.Listed := by
  intro sources hsources
  cases hsources with
  | own _ =>
    intro t ht
    obtain ⟨arity, _, -, rfl⟩ | ⟨_, -, rfl⟩ := h.source_cases t ht
    · exact .inr ⟨arity, rfl⟩
    · exact .inl rfl
  | nested hmem hinner => exact hnested _ hmem _ rfl sources hinner

namespace Compiler

variable {c : Compiler}

/-- All scans in the cache draw from tables of the schema. -/
def Listed (c : Compiler) : Prop :=
  ∀ entry ∈ c.fragments, entry.2.scan.Listed

/-- Scopes take their sources from the tables, and nested scans from the cache. -/
theorem listed_of_addGoals (hscoped : c.Scoped) (hlisted : c.Listed) {rule : Option Rule}
    {goals : List Goal} {s : Scope}
    (h : c.openScope.2.addGoals rule goals c.openScope.1 = .ok s) (names : List String) :
    (s.finish names).scan.Listed := by
  have hcache : c.openScope.2.CacheBefore c.openScope.1.number := hscoped
  have hvalid : s.Valid := addGoals_valid hcache (Scope.Valid.empty _) h
  refine hvalid.listed (addGoals_conditions (fun _ _ _ h ↦ by cases h) (fun entry hentry b inner hinner ↦ ?_)
    (fun x hx ↦ absurd hx List.not_mem_nil) h) names
  rw [← Condition.exists.inj hinner]
  exact (hlisted entry hentry).substitute b

/-- Resolution leaves listed scans only, because it compiles rules only. -/
theorem listed_resolve (program : Program) (symbols : SymbolTable) (policy : BodyPolicy)
    (maxPasses : Nat) :
    ((Compiler.fresh program symbols policy).resolve maxPasses).compiler.Listed := by
  suffices h : ∀ c : Compiler, c.Scoped ∧ c.Listed → ∀ r, (c.compileRule r).1.Scoped ∧
      (c.compileRule r).1.Listed by
    refine (resolve_induction (fun c r _ hc ↦ h c hc r) (fun c _ _ hc ↦ hc) ⟨?_, ?_⟩ maxPasses).2
    · exact fun entry hentry ↦ absurd hentry List.not_mem_nil
    · exact fun entry hentry ↦ absurd hentry List.not_mem_nil
  rintro c ⟨hscoped, hlisted⟩ r
  refine ⟨(scoped_compileRule hscoped r).1, ?_⟩
  obtain ⟨_, -, h⟩ | ⟨-, s, hgoals, h⟩ | ⟨-, _, -, h⟩ := c.compileRule_cases r <;> rw [h]
  · exact hlisted
  · intro entry hentry
    rcases List.mem_append.mp hentry with hentry | hentry
    · exact hlisted entry hentry
    · rw [List.mem_singleton.mp hentry]
      exact listed_of_addGoals hscoped hlisted hgoals _
  · exact hlisted

/-- **The SQL of a query is one line.** -/
theorem oneLine_sql (hscoped : c.Scoped) (hlisted : c.Listed) {q : Query} {compiled : CompiledQuery}
    (h : (c.compileQuery q).2 = .ok compiled) : OneLine compiled.fragment.sql := by
  obtain ⟨cached, hreuse, heq⟩ | ⟨-, heq⟩ := c.compileQuery_cases q <;> rw [heq] at h
  · obtain rfl := Except.ok.inj h
    obtain ⟨g, -, -, -, hreuse⟩ := reuse?_eq_some hreuse
    have hwell := reuse_wellScoped hscoped hreuse
    obtain ⟨r, m, fragment, -, -, hfragment, rfl⟩ := reuse_eq_some hreuse
    have hmem := mem_of_lookup_eq_some hfragment
    refine Fragment.oneLine_sql hwell (fun name hname ↦ ?_) ((hlisted _ hmem).substitute _)
      fun _ hshape ↦ by cases hshape
    rw [Scan.declared_substitute] at hname
    exact ((hscoped.fragment hfragment).2 name hname).sqlText
  · obtain ⟨fragment, hfragment, rfl⟩ := except_map_eq_ok h
    obtain ⟨hwell, hearlier⟩ := compileGoals_scoped hscoped hfragment
    obtain ⟨s, hgoals, rfl⟩ := compileGoals_eq_ok hfragment
    exact Fragment.oneLine_sql hwell (fun name hname ↦ (hearlier name hname).sqlText)
      (listed_of_addGoals hscoped hlisted hgoals _) fun _ _ ↦ s.sqlText_labels _

end Compiler

/-! ### Cells -/

namespace Database

variable {db : Database}

/-- The tables hold numbers and the texts of symbols. -/
theorem oneLine_of_mem_sourceTable (hdb : ∀ row ∈ db.symbols, OneLine row.symbol.text) {s : Source}
    {row : List Cell} (hrow : row ∈ (db.sourceTable s).rows) {cell : Cell} (hcell : cell ∈ row) :
    OneLine cell.display := by
  unfold sourceTable table? at hrow
  split_ifs at hrow
  · obtain ⟨r, hr, rfl⟩ := List.mem_map.mp hrow
    simp only [List.mem_cons, List.not_mem_nil, or_false] at hcell
    obtain rfl | rfl | rfl := hcell
    · exact oneLine_intRepr r.id
    · exact hdb r hr
    · exact oneLine_intRepr r.symbol.arity
  · cases harity : Schema.arities.find? fun n ↦ Schema.factTable n = s.table with
    | none =>
      rw [harity] at hrow
      exact absurd hrow List.not_mem_nil
    | some arity =>
      rw [harity] at hrow
      obtain ⟨r, -, rfl⟩ := List.mem_map.mp hrow
      obtain ⟨id, -, rfl⟩ := List.mem_map.mp hcell
      exact oneLine_intRepr id

/-- What is drawn is missing, a number or the text of a symbol. -/
theorem oneLine_of_mem_draws (hdb : ∀ row ∈ db.symbols, OneLine row.symbol.text)
    {sources : List Source} {env e : Env} (henv : ∀ source field, OneLine (env.column source field).display)
    (he : e ∈ db.draws sources env) (source field : String) : OneLine (e.column source field).display := by
  induction sources generalizing env with
  | nil =>
    obtain rfl : e = env := by simpa [draws] using he
    exact henv source field
  | cons s rest ih =>
    obtain ⟨row, hrow, he⟩ := List.mem_flatMap.mp he
    refine ih (fun source field ↦ ?_) he
    simp only [Env.bind]
    split_ifs
    · cases hcell : ((db.sourceTable s).columns.zip row).lookup field with
      | none => decide
      | some cell =>
        exact oneLine_of_mem_sourceTable hdb hrow (List.of_mem_zip (mem_of_lookup_eq_some hcell)).2
    · exact henv source field

end Database

end HornQuery
