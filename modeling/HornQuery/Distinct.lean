/-!
# Lists without repeats, in order of first appearance

Symbols, variables and placeholders are numbered by the order in which a text first mentions them.
`Distinct.insert` adds an entry at the end unless it is present, so a list built by it never holds
an entry twice and never moves one (`nodup_insert`, `isPrefix_insert`).
-/

namespace HornQuery.Distinct

variable {α : Type} [DecidableEq α]

/-- The list `s` with `a` added at its end, unless `s` holds it already. -/
def insert (s : List α) (a : α) : List α :=
  if a ∈ s then s else s ++ [a]

/-- The list `s` extended by the entries of `t` in order. -/
def append (s t : List α) : List α :=
  t.foldl insert s

/-- The entries of `t`, each once, in order of first appearance. -/
def ofList (t : List α) : List α :=
  append [] t

/-! ### Membership, repeats and order -/

@[simp] theorem mem_insert {s : List α} {a b : α} : b ∈ insert s a ↔ b ∈ s ∨ b = a := by
  unfold insert
  split
  · exact ⟨Or.inl, fun h ↦ h.elim id fun e ↦ e ▸ ‹_›⟩
  · simp

theorem nodup_insert {s : List α} (h : s.Nodup) (a : α) : (insert s a).Nodup := by
  unfold insert
  split
  · exact h
  · rename_i ha
    rw [List.nodup_append]
    refine ⟨h, by simp, fun x hx y hy e ↦ ?_⟩
    simp only [List.mem_singleton] at hy
    exact ha (hy ▸ e ▸ hx)

theorem isPrefix_insert (s : List α) (a : α) : s <+: insert s a := by
  unfold insert
  split
  · exact List.prefix_rfl
  · exact List.prefix_append s [a]

@[simp] theorem append_nil (s : List α) : append s [] = s := rfl

@[simp] theorem append_cons (s t : List α) (a : α) : append s (a :: t) = append (insert s a) t := rfl

@[simp] theorem mem_append {s t : List α} {b : α} : b ∈ append s t ↔ b ∈ s ∨ b ∈ t := by
  induction t generalizing s with
  | nil => simp
  | cons a t ih => simp [ih, or_assoc]

theorem nodup_append {s : List α} (h : s.Nodup) (t : List α) : (append s t).Nodup := by
  induction t generalizing s with
  | nil => exact h
  | cons a t ih => exact ih (nodup_insert h a)

theorem isPrefix_append (s t : List α) : s <+: append s t := by
  induction t generalizing s with
  | nil => exact List.prefix_rfl
  | cons a t ih => exact (isPrefix_insert s a).trans (ih _)

@[simp] theorem mem_ofList {t : List α} {b : α} : b ∈ ofList t ↔ b ∈ t := by
  simp [ofList]

theorem nodup_ofList (t : List α) : (ofList t).Nodup :=
  nodup_append List.nodup_nil t

end HornQuery.Distinct
