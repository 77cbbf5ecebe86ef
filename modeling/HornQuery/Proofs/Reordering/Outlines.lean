import Mathlib
import HornQuery.Proofs.Scoping
import HornQuery.Scan.Execution

/-!
# Outlines of scans

The outline of a scan is the scan without its aliases and without the numbers of symbols in it. Aliases
follow the order in which scopes are opened and numbers the order of the symbols, so the outline is
what is left of a scan when declarations change places.

Whatever a store measures before it executes a fragment can be read off the outline: the placeholders
from left to right, and how wide and how deep the fragment is (`Scan.measures_outline`,
`Fragment.refusal?_eq_of_outline`). Replacing placeholders commutes with taking the outline
(`Scan.outline_substitute`).
-/

namespace HornQuery

/-- An expression without the alias or the number that it names. -/
def Expr.outline : Expr → Expr
  | .column _ field => .column "" field
  | .int _ => .int 0
  | .param key => .param key

/-- A source without its alias. -/
def Source.outline (s : Source) : Source := ⟨s.table, ""⟩

mutual

/-- A condition without aliases and numbers. -/
def Condition.outline : Condition → Condition
  | .eq left right => .eq left.outline right.outline
  | .exists scan => .exists scan.outline

/-- A scan without aliases and numbers. -/
def Scan.outline : Scan → Scan
  | ⟨sources, conditions, projection⟩ =>
    ⟨sources.map Source.outline, Condition.outlineAll conditions,
      projection.map (Prod.map id Expr.outline)⟩

/-- Conditions without aliases and numbers. -/
def Condition.outlineAll : List Condition → List Condition
  | [] => []
  | c :: cs => c.outline :: Condition.outlineAll cs

end

@[simp] theorem Condition.outlineAll_eq_map (cs : List Condition) :
    Condition.outlineAll cs = cs.map Condition.outline := by
  induction cs with
  | nil => rfl
  | cons c cs ih => simp [Condition.outlineAll, ih]

/-- Bindings without aliases and numbers. -/
def Bindings.outline (b : Bindings) : Bindings := b.map (Prod.map id Expr.outline)

/-- A fragment without aliases and numbers. -/
def Fragment.outline (f : Fragment) : Fragment := ⟨f.scan.outline, f.shape⟩

/-! ### Substitution -/

/-- Bindings are found under the same placeholders in their outlines. -/
theorem Bindings.lookup_outline (b : Bindings) (key : Placeholder) :
    b.outline.lookup key = (b.lookup key).map Expr.outline := by
  induction b with
  | nil => rfl
  | cons entry b ih =>
    obtain ⟨k, e⟩ := entry
    simp only [Bindings.outline, List.map_cons, Prod.map_apply, id_eq, List.lookup_cons] at ih ⊢
    split
    · rfl
    · exact ih

/-- Taking the outline commutes with substitution. -/
theorem Expr.outline_substitute (b : Bindings) (e : Expr) :
    (e.substitute b).outline = e.outline.substitute b.outline := by
  cases e with
  | column source field => rfl
  | int value => rfl
  | param key =>
    simp only [Expr.substitute, Expr.outline, Bindings.lookup_outline]
    cases b.lookup key <;> rfl

mutual

/-- It does so inside nested scans too. -/
theorem Condition.outline_substitute (b : Bindings) :
    (c : Condition) → (c.substitute b).outline = c.outline.substitute b.outline
  | .eq left right => by
    simp only [Condition.substitute, Condition.outline, Expr.outline_substitute]
  | .exists scan => by
    simp only [Condition.substitute, Condition.outline]
    rw [scan.outline_substitute b]

/-- Placeholders may be replaced before or after the outline is taken. -/
theorem Scan.outline_substitute (b : Bindings) :
    (s : Scan) → (s.substitute b).outline = s.outline.substitute b.outline
  | ⟨sources, conditions, projection⟩ => by
    simp only [Scan.substitute, Scan.outline, Scan.mk.injEq, true_and]
    refine ⟨Condition.outlineAll_substituteAll b conditions, ?_⟩
    rw [List.map_map, List.map_map]
    exact List.map_congr_left fun entry _ ↦ Prod.ext rfl (entry.2.outline_substitute b)

theorem Condition.outlineAll_substituteAll (b : Bindings) :
    (cs : List Condition) → Condition.outlineAll (Condition.substituteAll b cs) =
      Condition.substituteAll b.outline (Condition.outlineAll cs)
  | [] => rfl
  | c :: cs => by
    simp only [Condition.substituteAll, Condition.outlineAll]
    rw [c.outline_substitute b, Condition.outlineAll_substituteAll b cs]

end

/-! ### Measures -/

/-- What a store limits, and the placeholders, can be seen in the outline. -/
theorem Expr.measures_outline (e : Expr) :
    e.outline.placeholders = e.placeholders ∧ e.outline.height = e.height ∧
      e.outline.depth = e.depth := by
  cases e <;> exact ⟨rfl, rfl, rfl⟩

mutual

/-- For conditions these are the placeholders of the text, the sources and both measures of
nesting. -/
theorem Condition.measures_outline : (c : Condition) →
    c.outline.textual = c.textual ∧ c.outline.width = c.width ∧ c.outline.height = c.height ∧
      c.outline.depth = c.depth
  | .eq left right => by
    simp only [Condition.outline, Condition.textual, Condition.width, Condition.height,
      Condition.depth, left.measures_outline, right.measures_outline, and_self]
  | .exists scan => by
    simp only [Condition.outline, Condition.textual, Condition.width, Condition.height,
      Condition.depth]
    obtain ⟨htextual, hwidth, hheight, hdepth⟩ := scan.measures_outline
    exact ⟨htextual, hwidth, congrArg (· + 1) hheight, hdepth⟩

/-- **What is measured of a scan is measured of its outline.** -/
theorem Scan.measures_outline : (s : Scan) →
    s.outline.textual = s.textual ∧ s.outline.width = s.width ∧ s.outline.height = s.height ∧
      s.outline.depth = s.depth
  | ⟨sources, conditions, projection⟩ => by
    obtain ⟨htextual, hwidth, hheight, hdepth⟩ := Condition.measures_outlineAll conditions
    simp only [Scan.outline, Scan.textual, Scan.width, Scan.height, Scan.depth, List.length_map,
      htextual, hwidth, hheight, hdepth, and_self]

theorem Condition.measures_outlineAll : (cs : List Condition) →
    Condition.textualOf (Condition.outlineAll cs) = Condition.textualOf cs ∧
      Condition.widthOf (Condition.outlineAll cs) = Condition.widthOf cs ∧
      (∀ h, Condition.chainHeight h (Condition.outlineAll cs) = Condition.chainHeight h cs) ∧
      Condition.depthOf (Condition.outlineAll cs) = Condition.depthOf cs
  | [] => ⟨rfl, rfl, fun _ ↦ rfl, rfl⟩
  | c :: cs => by
    obtain ⟨htextual, hwidth, hheight, hdepth⟩ := c.measures_outline
    obtain ⟨htextuals, hwidths, hheights, hdepths⟩ := Condition.measures_outlineAll cs
    simp only [Condition.outlineAll, Condition.textualOf, Condition.widthOf, Condition.chainHeight,
      Condition.depthOf, htextual, hwidth, hheight, hdepth, htextuals, hwidths, hheights, hdepths,
      and_self, implies_true]

end

namespace Fragment

/-- So parameters are listed in the same order. -/
theorem order_outline (f : Fragment) : f.outline.order = f.order := by
  obtain ⟨⟨sources, conditions, projection⟩, shape⟩ := f
  obtain ⟨htextual, -⟩ := Scan.measures_outline ⟨sources, conditions, projection⟩
  have hprojection : (projection.map (Prod.map id Expr.outline)).flatMap
      (fun entry ↦ entry.2.placeholders) = projection.flatMap fun entry ↦ entry.2.placeholders := by
    rw [List.flatMap_map]
    exact List.flatMap_congr fun entry _ ↦ entry.2.measures_outline.1
  cases shape with
  | existence => exact congrArg Distinct.ofList htextual
  | rows columns => exact congrArg Distinct.ofList (congrArg₂ (· ++ ·) hprojection htextual)

/-- And a fragment is refused exactly if its outline is. -/
theorem refusal?_outline (f : Fragment) : f.outline.refusal? = f.refusal? := by
  obtain ⟨scan, shape⟩ := f
  obtain ⟨-, hwidth, hheight, hdepth⟩ := scan.measures_outline
  cases shape <;> simp only [refusal?, depth, outline, hwidth, hheight, hdepth]

variable {f f' : Fragment} (h : f'.outline = f.outline)

include h

/-- Fragments with the same outline ask for the same thing. -/
theorem shape_eq_of_outline : f'.shape = f.shape :=
  (congrArg shape h : f'.outline.shape = f.outline.shape)

theorem order_eq_of_outline : f'.order = f.order := by
  rw [← f'.order_outline, h, order_outline]

theorem refusal?_eq_of_outline : f'.refusal? = f.refusal? := by
  rw [← f'.refusal?_outline, h, refusal?_outline]

end Fragment

end HornQuery
