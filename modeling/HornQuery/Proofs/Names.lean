import Mathlib
import HornQuery.Scope

/-!
# Generated names are different

Aliases, argument columns and fact tables are named by numbers. Two of them are the same text only if
they are of the same kind and carry the same numbers: a numeral holds no underscore, so the first
underscore behind a numeral shows where it ends.

Every alias belongs to one scope (`Scope.Owns`), which its text determines (`Scope.Owns.unique`).
-/

namespace HornQuery

/-- Numerals are different for different numbers. -/
theorem toDigits_inj {m n : Nat} : Nat.toDigits 10 m = Nat.toDigits 10 n ↔ m = n := by
  refine ⟨fun h ↦ ?_, fun h ↦ h ▸ rfl⟩
  rw [← Nat.ofDigitChars_ten_toDigits (n := m), h, Nat.ofDigitChars_ten_toDigits]

/-- Two numbers are read off their numerals with an underscore between them. -/
theorem digits_underscore_inj {m n i j : Nat} :
    Nat.toDigits 10 m ++ '_' :: Nat.toDigits 10 i = Nat.toDigits 10 n ++ '_' :: Nat.toDigits 10 j ↔
      m = n ∧ i = j := by
  rw [List.append_cons_inj_of_notMem Nat.underscore_not_in_toDigits Nat.underscore_not_in_toDigits,
    toDigits_inj, toDigits_inj]
  simp

/-! ### Aliases -/

namespace Scope

/-- An alias is a letter and two numbers in decimal digits, and the underscore tells where the first
one ends. -/
theorem toList_tableAlias (number index : Nat) :
    (tableAlias number index).toList =
      'f' :: (Nat.toDigits 10 number ++ '_' :: Nat.toDigits 10 index) := by
  simp only [tableAlias, String.toList_append, Nat.toString_eq_repr, Nat.toList_repr,
    List.append_assoc]
  rfl

theorem toList_variableAlias (number index : Nat) :
    (variableAlias number index).toList =
      'v' :: (Nat.toDigits 10 number ++ '_' :: Nat.toDigits 10 index) := by
  simp only [variableAlias, String.toList_append, Nat.toString_eq_repr, Nat.toList_repr,
    List.append_assoc]
  rfl

/-- So an alias of a table tells its scope and its place. -/
@[simp] theorem tableAlias_inj {m n i j : Nat} :
    tableAlias m i = tableAlias n j ↔ m = n ∧ i = j := by
  rw [← String.toList_inj, toList_tableAlias, toList_tableAlias, List.cons_inj_right,
    digits_underscore_inj]

/-- An alias of a variable does too. -/
@[simp] theorem variableAlias_inj {m n i j : Nat} :
    variableAlias m i = variableAlias n j ↔ m = n ∧ i = j := by
  rw [← String.toList_inj, toList_variableAlias, toList_variableAlias, List.cons_inj_right,
    digits_underscore_inj]

/-- The first letter keeps the two kinds apart. -/
@[simp] theorem tableAlias_ne_variableAlias (m n i j : Nat) :
    tableAlias m i ≠ variableAlias n j := by
  intro h
  have hlists := congrArg String.toList h
  rw [toList_tableAlias, toList_variableAlias] at hlists
  exact absurd (List.head_eq_of_cons_eq hlists) (by decide)

@[simp] theorem variableAlias_ne_tableAlias (m n i j : Nat) :
    variableAlias m i ≠ tableAlias n j :=
  (tableAlias_ne_variableAlias n m j i).symm

/-- An alias that the scope with this number gives. -/
def Owns (number : Nat) (name : String) : Prop :=
  ∃ index, name = tableAlias number index ∨ name = variableAlias number index

/-- Tables of a scope have aliases that the scope gives. -/
theorem owns_tableAlias (number index : Nat) : Owns number (tableAlias number index) :=
  ⟨index, Or.inl rfl⟩

theorem owns_variableAlias (number index : Nat) : Owns number (variableAlias number index) :=
  ⟨index, Or.inr rfl⟩

/-- No alias is given by two scopes. -/
theorem Owns.unique {m n : Nat} {name : String} (hm : Owns m name) (hn : Owns n name) : m = n := by
  obtain ⟨i, rfl | rfl⟩ := hm
  · obtain ⟨j, h | h⟩ := hn
    · exact (tableAlias_inj.mp h).1
    · exact absurd h (tableAlias_ne_variableAlias m n i j)
  · obtain ⟨j, h | h⟩ := hn
    · exact absurd h (variableAlias_ne_tableAlias m n i j)
    · exact (variableAlias_inj.mp h).1

end Scope

/-! ### Tables and columns -/

namespace Schema

/-- The arity stands between two fixed texts, so that it can be read off the name. -/
theorem toList_factTable (arity : Nat) :
    (factTable arity).toList = "fact_".toList ++ (Nat.toDigits 10 arity ++ "ary".toList) := by
  simp only [factTable, String.toList_append, Nat.toString_eq_repr, Nat.toList_repr,
    List.append_assoc]
  rfl

theorem toList_argColumn (position : Nat) :
    (argColumn position).toList = "arg".toList ++ (Nat.toDigits 10 position ++ "_id".toList) := by
  simp only [argColumn, String.toList_append, Nat.toString_eq_repr, Nat.toList_repr,
    List.append_assoc]
  rfl

/-- There is one table for each arity. -/
@[simp] theorem factTable_inj {m n : Nat} : factTable m = factTable n ↔ m = n := by
  rw [← String.toList_inj, toList_factTable, toList_factTable, List.append_cancel_left_eq,
    List.append_cancel_right_eq, toDigits_inj]

/-- There is one column for each position. -/
@[simp] theorem argColumn_inj {m n : Nat} : argColumn m = argColumn n ↔ m = n := by
  rw [← String.toList_inj, toList_argColumn, toList_argColumn, List.append_cancel_left_eq,
    List.append_cancel_right_eq, toDigits_inj]

/-- No table of facts has the name of the table of symbols. -/
@[simp] theorem factTable_ne_symbolTable (arity : Nat) : factTable arity ≠ symbolTable := by
  intro h
  have hlists := congrArg String.toList h
  rw [toList_factTable] at hlists
  exact absurd (List.head_eq_of_cons_eq hlists) (by decide)

@[simp] theorem argColumn_ne_functorColumn (position : Nat) :
    argColumn position ≠ functorColumn := by
  intro h
  have hlists := congrArg String.toList h
  rw [toList_argColumn] at hlists
  exact absurd (List.head_eq_of_cons_eq hlists) (by decide)

end Schema

end HornQuery
