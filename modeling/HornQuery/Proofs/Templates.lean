import Mathlib
import HornQuery.Fragment

/-!
# SQL with the numbers left open

A template is SQL in which parameters have no numbers yet: stretches of text, and between them the lookups
of constants whose texts are supplied for placeholders. Every fragment has one, in which each placeholder
that its text shows is looked up where the text shows it. So what a text says is split into two parts.
Filling in the numbers gives the text (`Fragment.fill_template`), and the placeholders that are looked up
are, each once, those that the fragment lists for its parameters (`Fragment.order_eq`).
-/

namespace HornQuery

/-! ### Templates -/

/-- A stretch of SQL: text that stands as it is, or the lookup of a placeholder's constant. -/
inductive Piece where
  | text (s : String)
  | lookup (key : Placeholder)

/-- The text of a piece. -/
def Piece.write (number : Placeholder → Nat) : Piece → String
  | .text s => s
  | .lookup key => lookupSql (number key)

/-- The placeholder that a piece looks up. -/
def Piece.key? : Piece → Option Placeholder
  | .text _ => none
  | .lookup key => some key

/-- SQL in which the numbers of parameters are left open. -/
abbrev Template := List Piece

namespace Template

/-- The text with numbers put in. -/
def fill (number : Placeholder → Nat) (t : Template) : String :=
  String.join (t.map (Piece.write number))

/-- The placeholders from left to right, as often as they occur. -/
def keys (t : Template) : List Placeholder := t.filterMap Piece.key?

/-- Templates with a text between any two of them. -/
def join (separator : String) (ts : List Template) : Template :=
  [Piece.text separator].intercalate ts

variable {number : Placeholder → Nat} {t t' : Template} {ts : List Template} {s separator : String}
  {key : Placeholder}

@[simp] theorem fill_nil : fill number [] = "" := String.join_nil

/-- A template is written piece by piece. -/
theorem fill_cons (piece : Piece) : fill number (piece :: t) = piece.write number ++ fill number t :=
  String.join_cons

theorem fill_singleton (piece : Piece) : fill number [piece] = piece.write number := by
  rw [fill_cons, fill_nil, String.append_empty]

@[simp] theorem fill_text_cons : fill number (.text s :: t) = s ++ fill number t := fill_cons _

/-- Templates side by side are written side by side. -/
@[simp] theorem fill_append : fill number (t ++ t') = fill number t ++ fill number t' := by
  rw [fill, List.map_append, String.join_append, fill, fill]

@[simp] theorem keys_nil : keys [] = [] := rfl

@[simp] theorem keys_text_cons : keys (.text s :: t) = keys t := rfl

/-- Their placeholders are met in the same order. -/
@[simp] theorem keys_append : keys (t ++ t') = keys t ++ keys t' := List.filterMap_append

/-- A separator in a template is a separator in the text. -/
theorem fill_join : fill number (join separator ts) = separator.intercalate (ts.map (fill number)) := by
  induction ts with
  | nil => rfl
  | cons t ts ih =>
    cases ts with
    | nil => simp [join]
    | cons u us =>
      rw [join, List.intercalate_cons_cons, List.map_cons, List.map_cons, String.intercalate_cons_cons,
        ← List.map_cons, ← ih]
      simp [join, String.append_assoc]

/-- It has no placeholder in it. -/
theorem keys_join : keys (join separator ts) = ts.flatMap keys := by
  induction ts with
  | nil => rfl
  | cons t ts ih =>
    cases ts with
    | nil => simp [join]
    | cons u us =>
      rw [join, List.intercalate_cons_cons, List.flatMap_cons, ← ih]
      simp [join]

end Template

/-! ### The templates of fragments -/

/-- An expression with the number of its parameter left open. -/
def Expr.template : Expr → Template
  | .column source field => [.text s!"{source}.{field}"]
  | .int value => [.text (toString value)]
  | .param key => [.lookup key]

/-- A block that selects `columns`. -/
def blockTemplate (columns : Template) (sources : List Source) (conditions : List Template) : Template :=
  let fromPart :=
    if sources.isEmpty then []
    else [.text (" FROM " ++ ", ".intercalate (sources.map fun s ↦ s!"{s.table} AS {s.name}"))]
  let wherePart :=
    if conditions.isEmpty then [] else .text " WHERE " :: Template.join " AND " conditions
  .text "SELECT " :: columns ++ fromPart ++ wherePart

mutual

/-- A condition. -/
def Condition.template : Condition → Template
  | .eq left right => left.template ++ .text " = " :: right.template
  | .exists scan => .text "EXISTS (" :: scan.existsTemplate ++ [.text ")"]

/-- A scan of which only existence is asked. -/
def Scan.existsTemplate : Scan → Template
  | ⟨sources, conditions, _⟩ => blockTemplate [.text "1"] sources (Condition.templates conditions)

/-- Conditions, one by one. -/
def Condition.templates : List Condition → List Template
  | [] => []
  | c :: cs => c.template :: Condition.templates cs

end

/-- An expression that is projected under a label. -/
def columnTemplate (entry : String × Expr) : Template :=
  entry.2.template ++ [.text (" AS " ++ quoteIdentifier entry.1)]

/-- A scan with its projection. -/
def Scan.rowsTemplate (s : Scan) : Template :=
  let columns :=
    if s.projection.isEmpty then [.text "1"]
    else Template.join ", " (s.projection.map columnTemplate)
  blockTemplate columns s.sources (Condition.templates s.conditions)

/-- The SQL of a fragment with the numbers of its parameters left open. -/
def Fragment.template (f : Fragment) : Template :=
  match f.shape with
  | .existence => .text "SELECT EXISTS (" :: f.scan.existsTemplate ++ [.text ") AS holds"]
  | .rows _ =>
    .text "SELECT " ::
      .text (", ".intercalate (f.scan.projection.map fun entry ↦ quoteIdentifier entry.1)) ::
      .text " FROM (" :: f.scan.rowsTemplate ++ [.text ") AS scan"]

/-! ### Filling in -/

section Fill

variable {order : List Placeholder}

/-- With places in the order put in, the template of an expression is its SQL. -/
theorem Expr.fill_template (e : Expr) :
    (e.template.fill fun key ↦ order.idxOf key + 1) = e.sql order := by
  cases e with
  | column source field => exact Template.fill_singleton _
  | int value => exact Template.fill_singleton _
  | param key => exact Template.fill_singleton _

/-- The template of a block is filled part by part. -/
theorem fill_blockTemplate {number : Placeholder → Nat} (columns : Template) (sources : List Source)
    (conditions : List Template) :
    (blockTemplate columns sources conditions).fill number =
      blockSql (columns.fill number) sources (conditions.map (Template.fill number)) := by
  cases sources <;> cases conditions <;>
    simp [blockTemplate, blockSql, Template.fill_join, String.append_assoc]

mutual

/-- So the template of a condition is its SQL, nested scans included. -/
theorem Condition.fill_template :
    (c : Condition) → (c.template.fill fun key ↦ order.idxOf key + 1) = c.sql order
  | .eq left right => by
    rw [Condition.template, Condition.sql, Template.fill_append, Template.fill_text_cons,
      left.fill_template, right.fill_template, String.append_assoc]
  | .exists scan => by
    rw [Condition.template, Condition.sql, List.cons_append, Template.fill_text_cons,
      Template.fill_append, scan.fill_existsTemplate, Template.fill_singleton, String.append_assoc]
    rfl

theorem Scan.fill_existsTemplate :
    (s : Scan) → (s.existsTemplate.fill fun key ↦ order.idxOf key + 1) = s.existsSql order
  | ⟨sources, conditions, _⟩ => by
    rw [Scan.existsTemplate, Scan.existsSql, fill_blockTemplate, Condition.fill_templates conditions,
      Template.fill_singleton]
    rfl

theorem Condition.fill_templates :
    (cs : List Condition) →
      (Condition.templates cs).map (Template.fill fun key ↦ order.idxOf key + 1) =
        Condition.sqlOf order cs
  | [] => rfl
  | c :: cs => by
    rw [Condition.templates, Condition.sqlOf, List.map_cons, c.fill_template,
      Condition.fill_templates cs]

end

/-- A label is not part of what is looked up. -/
theorem fill_columnTemplate (entry : String × Expr) :
    ((columnTemplate entry).fill fun key ↦ order.idxOf key + 1) =
      entry.2.sql order ++ " AS " ++ quoteIdentifier entry.1 := by
  rw [columnTemplate, Template.fill_append, entry.2.fill_template, Template.fill_singleton,
    String.append_assoc]
  rfl

/-- And that of a scan with rows is its SQL too. -/
theorem Scan.fill_rowsTemplate (s : Scan) :
    (s.rowsTemplate.fill fun key ↦ order.idxOf key + 1) = s.rowsSql order := by
  unfold Scan.rowsTemplate Scan.rowsSql
  rw [fill_blockTemplate, Condition.fill_templates]
  congr 1
  split
  · exact Template.fill_singleton _
  · rw [Template.fill_join, List.map_map]
    exact congrArg _ (List.map_congr_left fun entry _ ↦ fill_columnTemplate entry)

end Fill

/-- The SQL of a fragment is its template with placeholders numbered by their place in the list. -/
theorem Fragment.fill_template (f : Fragment) :
    (f.template.fill fun key ↦ f.order.idxOf key + 1) = f.sql := by
  unfold Fragment.template Fragment.sql
  cases f.shape with
  | existence =>
    dsimp only
    rw [List.cons_append, Template.fill_text_cons, Template.fill_append, Scan.fill_existsTemplate,
      Template.fill_singleton, String.append_assoc]
    rfl
  | rows columns =>
    dsimp only
    simp only [List.cons_append, Template.fill_text_cons, Template.fill_append,
      Scan.fill_rowsTemplate, Template.fill_nil, String.append_empty, String.append_assoc]

/-! ### The placeholders of a template -/

/-- The template of an expression looks up its placeholders. -/
theorem Expr.keys_template (e : Expr) : e.template.keys = e.placeholders := by
  cases e <;> rfl

/-- A block looks up those of its columns first, and then those of its conditions. -/
theorem keys_blockTemplate (columns : Template) (sources : List Source) (conditions : List Template) :
    (blockTemplate columns sources conditions).keys =
      columns.keys ++ conditions.flatMap Template.keys := by
  cases sources <;> cases conditions <;> simp [blockTemplate, Template.keys_join]

mutual

/-- A condition looks up the placeholders of its text, as often as they occur. -/
theorem Condition.keys_template : (c : Condition) → c.template.keys = c.textual
  | .eq left right => by
    rw [Condition.template, Condition.textual, Template.keys_append, Template.keys_text_cons,
      left.keys_template, right.keys_template]
  | .exists scan => by
    rw [Condition.template, Condition.textual, List.cons_append, Template.keys_text_cons,
      Template.keys_append, scan.keys_existsTemplate]
    exact List.append_nil _

theorem Scan.keys_existsTemplate : (s : Scan) → s.existsTemplate.keys = s.textual
  | ⟨_, conditions, _⟩ => by
    rw [Scan.existsTemplate, Scan.textual, keys_blockTemplate, Condition.keys_templates conditions]
    rfl

theorem Condition.keys_templates :
    (cs : List Condition) → (Condition.templates cs).flatMap Template.keys = Condition.textualOf cs
  | [] => rfl
  | c :: cs => by
    rw [Condition.templates, Condition.textualOf, List.flatMap_cons, c.keys_template,
      Condition.keys_templates cs]

end

/-- A scan with rows looks up those of its projection before the others. -/
theorem Scan.keys_rowsTemplate (s : Scan) :
    s.rowsTemplate.keys = s.projection.flatMap (fun entry ↦ entry.2.placeholders) ++ s.textual := by
  obtain ⟨sources, conditions, projection⟩ := s
  have hcolumn : ∀ entry : String × Expr, (columnTemplate entry).keys = entry.2.placeholders :=
    fun entry ↦ by
      rw [columnTemplate, Template.keys_append, entry.2.keys_template]
      exact List.append_nil _
  unfold Scan.rowsTemplate
  rw [keys_blockTemplate, Condition.keys_templates, Scan.textual]
  congr 1
  cases projection with
  | nil => rfl
  | cons entry rest =>
    rw [List.isEmpty_cons, if_neg (by decide), Template.keys_join, List.flatMap_map]
    simp only [hcolumn]

/-- The list that goes with the text holds the placeholders of the template, each once. -/
theorem Fragment.order_eq (f : Fragment) : f.order = Distinct.ofList f.template.keys := by
  unfold Fragment.order Fragment.template
  cases f.shape with
  | existence =>
    dsimp only
    rw [List.cons_append, Template.keys_text_cons, Template.keys_append, Scan.keys_existsTemplate]
    simp
  | rows columns =>
    dsimp only
    simp only [List.cons_append, Template.keys_text_cons, Template.keys_append,
      Scan.keys_rowsTemplate, Template.keys_nil, List.append_nil]

end HornQuery
