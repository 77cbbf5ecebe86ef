import Mathlib
import HornQuery.Fragment

/-!
# Writing and numbering at once

A fragment is written from left to right, and a placeholder gets its number when it is met for the first
time (`Fragment.render`). Proofs about numbers want the list of all placeholders beforehand: then each
part of the text can be looked at by itself, and the number of a placeholder is its place in the list
(`Fragment.order`, `Fragment.sql`). This module shows that both lead to the same text and the same list
(`Fragment.render_eq`).

While a part is written, only the placeholders up to this part have been met. Those to come are added
behind them and take no number away. So a part is written as it would be with any list that starts with
the placeholders met up to its end, and the whole list is one.
-/

namespace HornQuery

/-- Lists are added one after the other. -/
theorem Distinct.append_append {α : Type} [DecidableEq α] (s t u : List α) :
    Distinct.append s (t ++ u) = Distinct.append (Distinct.append s t) u :=
  List.foldl_append

/-- What has been met after a first part is met after both. -/
theorem Distinct.isPrefix_of_append {α : Type} [DecidableEq α] {s t u order : List α}
    (h : Distinct.append s (t ++ u) <+: order) : Distinct.append s t <+: order := by
  rw [Distinct.append_append] at h
  exact (Distinct.isPrefix_append _ u).trans h

variable {met order : List Placeholder}

/-! ### Expressions and conditions -/

/-- An expression is written with the numbers of any list that starts with what has been met. -/
theorem Expr.write_eq {e : Expr} (h : Distinct.append met e.placeholders <+: order) :
    e.write met = (e.sql order, Distinct.append met e.placeholders) := by
  cases e with
  | column source field => rfl
  | int value => rfl
  | param key =>
    have hmem : key ∈ Distinct.insert met key := Distinct.mem_insert.mpr (.inr rfl)
    have hnumber : (Distinct.insert met key).idxOf key = order.idxOf key :=
      List.IsPrefix.idxOf_eq_of_mem h hmem
    rw [Expr.write, Expr.sql, hnumber]
    rfl

mutual

/-- If the order starts with what has been met so far and what the condition adds, the numbers given
on the way are the places in the order. -/
theorem Condition.write_eq {met order : List Placeholder} : ∀ {c : Condition},
    Distinct.append met c.textual <+: order →
      c.write met = (c.sql order, Distinct.append met c.textual)
  | .eq left right, h => by
    rw [Condition.textual] at h ⊢
    have hleft := left.write_eq (Distinct.isPrefix_of_append h)
    rw [Distinct.append_append] at h ⊢
    rw [Condition.write, Condition.sql, hleft]
    simp only [right.write_eq h]
  | .exists scan, h => by
    rw [Condition.textual] at h ⊢
    rw [Condition.write, Condition.sql, Scan.writeExists_eq h]

theorem Scan.writeExists_eq {met order : List Placeholder} : ∀ {s : Scan},
    Distinct.append met s.textual <+: order →
      s.writeExists met = (s.existsSql order, Distinct.append met s.textual)
  | ⟨sources, conditions, projection⟩, h => by
    rw [Scan.textual] at h ⊢
    rw [Scan.writeExists, Scan.existsSql, Condition.writeAll_eq h]

/-- Conditions are written one behind the other, each with what has been met before it. -/
theorem Condition.writeAll_eq {met order : List Placeholder} : ∀ {cs : List Condition},
    Distinct.append met (Condition.textualOf cs) <+: order →
      Condition.writeAll met cs =
        (Condition.sqlOf order cs, Distinct.append met (Condition.textualOf cs))
  | [], _ => rfl
  | c :: cs, h => by
    rw [Condition.textualOf] at h ⊢
    have hfirst := Condition.write_eq (c := c) (Distinct.isPrefix_of_append h)
    rw [Distinct.append_append] at h ⊢
    rw [Condition.writeAll, Condition.sqlOf, hfirst]
    simp only [Condition.writeAll_eq h]

end

/-! ### Scans and fragments -/

/-- Columns come before conditions in the text, and so do their placeholders in the order. -/
theorem writeColumns_eq {projection : List (String × Expr)}
    (h : Distinct.append met (projection.flatMap fun entry ↦ entry.2.placeholders) <+: order) :
    writeColumns met projection =
      (projection.map fun entry ↦ entry.2.sql order ++ " AS " ++ quoteIdentifier entry.1,
        Distinct.append met (projection.flatMap fun entry ↦ entry.2.placeholders)) := by
  induction projection generalizing met with
  | nil => rfl
  | cons entry projection ih =>
    obtain ⟨label, e⟩ := entry
    rw [List.flatMap_cons] at h ⊢
    have hfirst := e.write_eq (Distinct.isPrefix_of_append h)
    rw [Distinct.append_append] at h ⊢
    rw [writeColumns, hfirst]
    simp only [ih h, List.map_cons]

/-- A scan with its projection is written from the projection on. -/
theorem Scan.writeRows_eq {s : Scan}
    (h : Distinct.append met (s.projection.flatMap (fun entry ↦ entry.2.placeholders) ++ s.textual) <+:
      order) :
    s.writeRows met = (s.rowsSql order,
      Distinct.append met (s.projection.flatMap (fun entry ↦ entry.2.placeholders) ++ s.textual)) := by
  have hcolumns := writeColumns_eq (Distinct.isPrefix_of_append h)
  rw [Distinct.append_append] at h ⊢
  obtain ⟨sources, conditions, projection⟩ := s
  rw [Scan.textual] at h ⊢
  rw [Scan.writeRows, hcolumns]
  simp only [Condition.writeAll_eq h]
  rfl

/-- **One walk does for two.** Writing a fragment from left to right, with numbers given on the way, leads
to the text that is written with the list of all placeholders, and to that list. -/
theorem Fragment.render_eq (f : Fragment) : f.render = ⟨f.sql, f.order⟩ := by
  obtain ⟨scan, shape⟩ := f
  cases shape with
  | existence =>
    have hscan := Scan.writeExists_eq (s := scan) (List.prefix_refl (Distinct.append [] scan.textual))
    simp only [Fragment.render, hscan]
    rfl
  | rows columns =>
    have hscan := Scan.writeRows_eq (s := scan) (List.prefix_refl (Distinct.append []
      (scan.projection.flatMap (fun entry ↦ entry.2.placeholders) ++ scan.textual)))
    simp only [Fragment.render, hscan]
    rfl

/-- The text is that of the renderer which is told the order. -/
@[simp] theorem Fragment.render_sql (f : Fragment) : f.render.sql = f.sql := by rw [f.render_eq]

/-- The parameters are listed in the order in which they are met. -/
@[simp] theorem Fragment.render_params (f : Fragment) : f.render.params = f.order := by
  rw [f.render_eq]

end HornQuery
