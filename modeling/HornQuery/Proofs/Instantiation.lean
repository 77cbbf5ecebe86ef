import Mathlib
import HornQuery.Proofs.Substitution

/-!
# Putting expressions in place of placeholders

A scan with placeholders stands for one scan per choice of their values. There are two ways to make the
choice: by substituting expressions for the placeholders, and by evaluating the scan where the
placeholders have the values of these expressions. They give the same rows
(`Scan.rows_substitute_of_avoid`), provided that no expression is captured, that is, names an alias which
the scan or one nested in it declares. All placeholders are revalued at once, so an expression may
mention a placeholder that is itself replaced.

Substituting twice is substituting once, by the composition of the bindings (`Bindings.Composes`).
Bindings are lists in which the first entry for a placeholder counts, and what they do depends on their
lookups alone (`Scan.substitute_congr`).
-/

namespace HornQuery

/-! ### Bindings -/

namespace Bindings

/-- No placeholder is bound to a column of one of the aliases. -/
def RangeAvoids (b : Bindings) (aliases : List String) : Prop :=
  ∀ key source field, b.lookup key = some (.column source field) → source ∉ aliases

/-- The bindings `d` take a placeholder to what `b` binds it to, with `c` applied, or else to what `c`
binds it to. -/
def Composes (d b c : Bindings) : Prop :=
  ∀ key, d.lookup key =
    match b.lookup key with
    | some e => some (e.substitute c)
    | none => c.lookup key

/-- The bindings that do at once what `b` and then `c` do. -/
def compose (b c : Bindings) : Bindings :=
  b.map (fun entry ↦ (entry.1, entry.2.substitute c)) ++ c

/-- The bindings in which each entry is replaced by the first one for its placeholder. -/
def settled (b : Bindings) : Bindings :=
  b.map fun entry ↦ (entry.1, (b.lookup entry.1).getD entry.2)

variable {b c d : Bindings} {aliases : List String}

theorem lookup_map_values (f : Placeholder → Expr → Expr) (b : Bindings) (key : Placeholder) :
    (b.map fun entry ↦ (entry.1, f entry.1 entry.2)).lookup key = (b.lookup key).map (f key) := by
  induction b with
  | nil => rfl
  | cons entry b ih =>
    rw [List.map_cons, List.lookup_cons, List.lookup_cons]
    by_cases hkey : key = entry.1
    · simp [hkey]
    · rw [beq_false_of_ne hkey]
      exact ih

/-- Composing bindings expression by expression composes them. -/
theorem composes_compose (b c : Bindings) : (b.compose c).Composes b c := by
  intro key
  rw [compose, List.lookup_append, lookup_map_values fun _ e ↦ e.substitute c]
  cases b.lookup key <;> rfl

theorem lookup_settled (b : Bindings) (key : Placeholder) : b.settled.lookup key = b.lookup key := by
  rw [settled, lookup_map_values fun key e ↦ (b.lookup key).getD e]
  cases b.lookup key <;> rfl

/-- Entries that do not count are gone from settled bindings. -/
theorem RangeAvoids.settled (h : b.RangeAvoids aliases) : b.settled.Avoid aliases := by
  rintro entry hentry source field heq
  obtain ⟨original, horiginal, rfl⟩ := List.mem_map.mp hentry
  cases hlookup : b.lookup original.1 with
  | none =>
    have hne := List.lookup_eq_none_iff.mp hlookup original horiginal
    simp at hne
  | some e =>
    rw [hlookup] at heq
    exact h original.1 source field (hlookup.trans (congrArg some heq))

end Bindings

/-- Bindings are used by looking them up, and in no other way. -/
theorem Env.rebind_congr {b b' : Bindings} (h : ∀ key, b.lookup key = b'.lookup key) (env : Env) :
    env.rebind b = env.rebind b' := by
  simp only [Env.rebind, h]

/-! ### Substituting twice -/

/-- For expressions, two substitutions are one by composed bindings. -/
theorem Expr.substitute_substitute {b c d : Bindings} (hd : d.Composes b c) (e : Expr) :
    (e.substitute b).substitute c = e.substitute d := by
  cases e with
  | column source field => rfl
  | int value => rfl
  | param key =>
    simp only [Expr.substitute, hd key]
    cases b.lookup key <;> rfl

mutual

/-- If two substitutions make one on expressions, they do so on conditions, at any depth. -/
theorem Condition.substitute_trans {b c d : Bindings}
    (h : ∀ e : Expr, (e.substitute b).substitute c = e.substitute d) :
    (x : Condition) → (x.substitute b).substitute c = x.substitute d
  | .eq left right => by
    rw [Condition.substitute, Condition.substitute, Condition.substitute, h left, h right]
  | .exists scan => by
    rw [Condition.substitute, Condition.substitute, Condition.substitute, Scan.substitute_trans h scan]

/-- For scans it is the same, since substitution goes into nested scans without renaming
anything. -/
theorem Scan.substitute_trans {b c d : Bindings}
    (h : ∀ e : Expr, (e.substitute b).substitute c = e.substitute d) :
    (s : Scan) → (s.substitute b).substitute c = s.substitute d
  | ⟨sources, conditions, projection⟩ => by
    rw [Scan.substitute, Scan.substitute, Scan.substitute, Condition.substituteAll_trans h conditions,
      List.map_map]
    refine congrArg _ (List.map_congr_left fun entry _ ↦ ?_)
    exact congrArg _ (h entry.2)

theorem Condition.substituteAll_trans {b c d : Bindings}
    (h : ∀ e : Expr, (e.substitute b).substitute c = e.substitute d) :
    (cs : List Condition) →
      Condition.substituteAll c (Condition.substituteAll b cs) = Condition.substituteAll d cs
  | [] => rfl
  | x :: xs => by
    rw [Condition.substituteAll, Condition.substituteAll, Condition.substituteAll,
      Condition.substitute_trans h x, Condition.substituteAll_trans h xs]

end

/-- What bindings do depends on their lookups alone. -/
theorem Scan.substitute_congr {b b' : Bindings} (h : ∀ key, b.lookup key = b'.lookup key) (s : Scan) :
    s.substitute b = s.substitute b' := by
  have hsame : (s.substitute b).substitute [] = s.substitute b' := by
    refine Scan.substitute_trans (fun e ↦ ?_) s
    rw [Expr.substitute_nil]
    cases e with
    | column source field => rfl
    | int value => rfl
    | param key => simp only [Expr.substitute, h key]
  rwa [Scan.substitute_nil] at hsame

/-! ### Rows -/

section Rows

variable {db : Database} {env : Env} {b : Bindings}

/-- The combinations that solve a scan with placeholders replaced solve the scan itself once its
placeholders are revalued, and there are no others. -/
theorem Scan.solutions_substitute_of_avoid {s : Scan} (h : b.Avoid s.declared) :
    s.solutions db (env.rebind b) = ((s.substitute b).solutions db env).map (·.rebind b) := by
  obtain ⟨sources, conditions, projection⟩ := s
  have hsources : b.Avoid (sources.map Source.name) := h.mono fun _ ↦ List.mem_append_left _
  have hconditions : b.Avoid (Condition.declaredIn conditions) :=
    h.mono fun _ ↦ List.mem_append_right _
  simp only [Scan.solutions, Scan.substitute]
  rw [db.draws_rebind hsources, List.filter_map]
  refine congrArg _ (List.filter_congr fun e _ ↦ ?_)
  exact (Condition.holdAll_substituteAll conditions hconditions).symm

/-- If no bound expression mentions what a scan declares, substituting is the same as rebinding the
placeholders in the environment. -/
theorem Scan.rows_substitute_of_avoid {s : Scan} (h : b.Avoid s.declared) :
    (s.substitute b).rows db env = s.rows db (env.rebind b) := by
  rw [Scan.rows, Scan.rows, s.solutions_substitute_of_avoid h, List.map_map]
  obtain ⟨sources, conditions, projection⟩ := s
  refine List.map_congr_left fun e _ ↦ ?_
  simp only [Scan.substitute, List.map_map]
  exact List.map_congr_left fun entry _ ↦ Expr.value_substitute e b entry.2

end Rows

/-- **The substitution lemma.** Take any scan, with scans nested in it at any depth, and any bindings.

* In every database and every environment, if no column in the range of the bindings names an alias that
  the scan or one nested in it declares, the scan with its placeholders replaced has the rows that the
  scan has where each bound placeholder has the value of its expression, as often and in the same order.
  The values are taken all at once, from the environment as it was.
* Substituting once more is substituting the composition, which always exists. Nothing is required of
  the bindings for this. -/
theorem Scan.rows_substitute (s : Scan) (b : Bindings) :
    (∀ db env, b.RangeAvoids s.declared → (s.substitute b).rows db env = s.rows db (env.rebind b)) ∧
      ∀ c, (∃ d : Bindings, d.Composes b c) ∧
        ∀ d : Bindings, d.Composes b c → (s.substitute b).substitute c = s.substitute d := by
  refine ⟨fun db env h ↦ ?_, fun c ↦ ⟨⟨_, b.composes_compose c⟩, fun d hd ↦ ?_⟩⟩
  · rw [← Scan.substitute_congr b.lookup_settled, ← Env.rebind_congr b.lookup_settled]
    exact Scan.rows_substitute_of_avoid h.settled
  · exact Scan.substitute_trans (Expr.substitute_substitute hd) s

/-! ### A scan in two environments -/

/-- Two arcs from 1 to 2 and one back. -/
def arcs : Database where
  symbols := [⟨1, .constant "a"⟩, ⟨2, .constant "b"⟩, ⟨3, ⟨"arc", 2⟩⟩]
  facts := [⟨3, [1, 2]⟩, ⟨3, [2, 1]⟩, ⟨3, [1, 2]⟩]

/-- The ends of the arcs that start at `X`, each beside `Y`, if some arc leads from `Y` to `X`. -/
def arcsBack : Scan where
  sources := [⟨"fact_2ary", "f1"⟩]
  conditions :=
    [.eq (.column "f1" "arg1_id") (.param (.external "X")),
      .exists
        { sources := [⟨"fact_2ary", "f2"⟩]
          conditions :=
            [.eq (.column "f2" "arg1_id") (.param (.external "Y")),
              .eq (.column "f2" "arg2_id") (.param (.external "X"))] }]
  projection := [("c0", .column "f1" "arg2_id"), ("c1", .param (.external "Y"))]

/-- The placeholder `Y` is 1, and around the scan there is a source `f0` whose row has the number 2. -/
def arcsEnv : Env where
  column source field := if source = "f0" ∧ field = "id" then .integer 2 else .null
  param key := if key = .external "Y" then .integer 1 else .null

/-- The placeholder `X` becomes `Y`, which itself becomes a column around the scan. -/
def arcsBindings : Bindings :=
  [(.external "X", .param (.external "Y")), (.external "Y", .column "f0" "id")]

theorem rangeAvoids_arcsBindings : arcsBindings.RangeAvoids arcsBack.declared := by
  intro key source field h
  obtain ⟨-, hcolumn⟩ | ⟨-, hcolumn⟩ :
      key = .external "X" ∧ Expr.column source field = .param (.external "Y") ∨
        key = .external "Y" ∧ Expr.column source field = .column "f0" "id" := by
    simpa [arcsBindings] using mem_of_lookup_eq_some h
  · cases hcolumn
  · rw [(Expr.column.inj hcolumn).1]
    decide

/-- Were `X` replaced once more after it has become `Y`, it would be 2 and there would be no rows. In the
composition the last entry does not count. -/
theorem Scan.rows_substitute_arcs :
    arcsBindings.RangeAvoids arcsBack.declared ∧
      (arcsBack.substitute arcsBindings).rows arcs arcsEnv =
        [[.integer 2, .integer 2], [.integer 2, .integer 2]] ∧
      arcsBack.rows arcs (arcsEnv.rebind arcsBindings) =
        [[.integer 2, .integer 2], [.integer 2, .integer 2]] ∧
      (arcsBack.substitute arcsBindings).substitute [(.external "Y", .int 1)] =
        arcsBack.substitute [(.external "X", .int 1), (.external "Y", .column "f0" "id"),
          (.external "Y", .int 1)] := by
  obtain ⟨hrows, hcompose⟩ := Scan.rows_substitute arcsBack arcsBindings
  have hvalue : arcsBack.rows arcs (arcsEnv.rebind arcsBindings) =
      [[.integer 2, .integer 2], [.integer 2, .integer 2]] := rfl
  exact ⟨rangeAvoids_arcsBindings, (hrows arcs arcsEnv rangeAvoids_arcsBindings).trans hvalue, hvalue,
    (hcompose _).2 _ (arcsBindings.composes_compose [(.external "Y", .int 1)])⟩

/-- A column of the nested source is captured: the nested condition becomes true of every arc. -/
example :
    ((arcsBack.substitute [(.external "X", .int 1), (.external "Y", .column "f2" "arg1_id")]).rows
        arcs arcsEnv).length = 2 ∧
      (arcsBack.rows arcs (arcsEnv.rebind
        [(.external "X", .int 1), (.external "Y", .column "f2" "arg1_id")])).length = 0 := by
  decide

end HornQuery
