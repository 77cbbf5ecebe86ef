import Mathlib
import HornQuery.Node.Reader
import HornQuery.Proofs.Compilation

/-!
# Well-formed trees

A tree is well formed if its clauses stand over terms, nothing that holds a list of terms holds an
empty one, and every name can be written down: a variable and a parameter as they are, any other name
between quotes on one line, a comment on the rest of its line.

Every tree that is read is well formed (`parseTree_wellFormed`). The lemmas follow the readers, from
names to whole texts.
-/

namespace HornQuery.Node

open Text Reader

/-- A capital letter with letters, digits and underscores behind it. -/
def IsVarName (text : String) : Prop :=
  ∃ c r, text.toList = c :: r ∧ c.isUpper ∧ ∀ d ∈ r, isNameChar d

/-- One or more letters, digits and underscores. -/
def IsParamName (text : String) : Prop :=
  text.toList ≠ [] ∧ ∀ c ∈ text.toList, isNameChar c

/-- A text that can stand between quotes. -/
def IsQuotable (text : String) : Prop :=
  ∀ c ∈ text.toList, c ≠ '\'' ∧ c ≠ '\n'

/-- A text that a line can hold behind a percent sign. -/
def IsCommentText (text : String) : Prop :=
  '\n' ∉ text.toList ∧ text.toList.getLast? ≠ some '\r'

/-- The terms that can be written down. -/
inductive IsTerm : Node → Prop
  | atom {text : String} : IsQuotable text → IsTerm (.atom text)
  | var {name : String} : IsVarName name → IsTerm (.var name)
  | param {name : String} : IsParamName name → IsTerm (.param name)
  | compound {name : String} {args : List Node} : IsQuotable name → args ≠ [] →
      (∀ a ∈ args, IsTerm a) → IsTerm (.compound name args)

/-- The clauses that can be written down. -/
inductive WellFormed : Node → Prop
  | comment {text : String} : IsCommentText text → WellFormed (.comment text)
  | query {goals : List Node} {text : String} : goals ≠ [] → (∀ g ∈ goals, g.IsTerm) →
      WellFormed (.query goals text)
  | rule {head : Node} {body : List Node} : head.IsTerm → body ≠ [] → (∀ g ∈ body, g.IsTerm) →
      WellFormed (.rule head body)
  | fact {term : Node} : term.IsTerm → WellFormed (.fact term)

namespace Reader

/-! ### Names -/

theorem isNameChar_of_isUpper {c : Char} (h : c.isUpper) : isNameChar c := by
  simp [isNameChar, Char.isAlphanum, Char.isAlpha, h]

/-- Names could be quoted as well. -/
theorem isQuotable_name (s : List Char) : IsQuotable (name s).1 := by
  intro c hc
  rw [name, String.toList_ofList] at hc
  have hname : isNameChar c := List.mem_takeWhile_imp hc
  constructor <;> rintro rfl
  · exact absurd hname (by decide)
  · exact absurd hname (by decide)

/-- A name that starts with a capital letter is that of a variable. -/
theorem isVarName_name {c : Char} (h : c.isUpper) (s : List Char) : IsVarName (name (c :: s)).1 := by
  refine ⟨c, s.takeWhile isNameChar, ?_, h, fun d hd ↦ List.mem_takeWhile_imp hd⟩
  simp [name, isNameChar_of_isUpper h]

/-- Any name, as long as it is not empty, can be that of a parameter. -/
theorem isParamName_name {s : List Char} (h : ¬ (name s).1.isEmpty) : IsParamName (name s).1 := by
  refine ⟨fun hnil ↦ h ?_, fun c hc ↦ ?_⟩
  · simpa using hnil
  · rw [name, String.toList_ofList] at hc
    exact List.mem_takeWhile_imp hc

/-- A numeral is made of digits and periods. -/
theorem isQuotable_numeral (s : List Char) : IsQuotable (numeral s).1 := by
  have hplain : ∀ c : Char, c.isDigit ∨ c = '.' → c ≠ '\'' ∧ c ≠ '\n' := by
    rintro c (hc | rfl)
    · constructor <;> rintro rfl
      · exact absurd hc (by decide)
      · exact absurd hc (by decide)
    · decide
  have hdigits : ∀ (t : List Char), ∀ c ∈ t.takeWhile Char.isDigit, c.isDigit ∨ c = '.' :=
    fun t c hc ↦ Or.inl (List.mem_takeWhile_imp hc)
  intro c hc
  apply hplain
  simp only [numeral] at hc
  split at hc
  · split_ifs at hc
    · simp only [String.toList_ofList, List.mem_append, List.mem_cons] at hc
      rcases hc with hc | rfl | hc
      · exact hdigits _ c hc
      · exact Or.inr rfl
      · exact hdigits _ c hc
    · rw [String.toList_ofList] at hc
      exact hdigits _ c hc
  · rw [String.toList_ofList] at hc
    exact hdigits _ c hc

/-- What stands between quotes has neither a quote nor a newline in it. -/
theorem isQuotable_of_quoted {start s r : List Char} {text : String}
    (h : quoted start s = .ok (text, r)) : IsQuotable text := by
  rw [quoted] at h
  split at h
  · obtain ⟨rfl, -⟩ := Prod.mk.inj (Except.ok.inj h)
    intro c hc
    rw [String.toList_ofList] at hc
    simpa using List.mem_takeWhile_imp hc
  · cases h

/-- A comment has no newline, and no carriage return at its end. -/
theorem wellFormed_comment (s : List Char) : (comment s).1.WellFormed := by
  refine .comment ⟨?_, ?_⟩
  · intro hmem
    rw [String.toList_ofList, List.mem_reverse] at hmem
    have hline := List.mem_reverse.mp ((List.dropWhile_sublist _).mem hmem)
    simpa using List.mem_takeWhile_imp hline
  · rw [String.toList_ofList, List.getLast?_reverse]
    intro hlast
    have := List.head?_dropWhile_not (fun c ↦ decide (c = '\r')) (s.takeWhile (· ≠ '\n')).reverse
    rw [hlast] at this
    simp at this

/-! ### Terms -/

/-- There is at least one item, and what holds of every item that is read holds of all of them. -/
theorem commaList_eq_ok {item : List Char → Except Failure (Node × List Char)} {P : Node → Prop}
    (hitem : ∀ s x r, item s = .ok (x, r) → P x) {bound : Nat} {s r : List Char} {xs : List Node}
    (h : commaList item bound s = .ok (xs, r)) : xs ≠ [] ∧ ∀ x ∈ xs, P x := by
  induction bound generalizing s xs r with
  | zero => cases h
  | succ bound ih =>
    rw [commaList] at h
    obtain ⟨first, hfirst, h⟩ := except_bind_eq_ok h
    have hP : P first.1 := hitem s first.1 first.2 hfirst
    simp only at h
    split at h
    · obtain ⟨more, hmore, h⟩ := except_bind_eq_ok h
      obtain ⟨rfl, -⟩ := Prod.mk.inj (Except.ok.inj h)
      have hrest := (ih hmore).2
      exact ⟨by simp, by simpa [hP] using hrest⟩
    · obtain ⟨rfl, -⟩ := Prod.mk.inj (Except.ok.inj h)
      exact ⟨by simp, by simpa using hP⟩

/-- A name applied to terms is a term, and so is a name by itself. -/
theorem isTerm_of_application {args : List Char → Except Failure (List Node × List Char)}
    (hargs : ∀ s xs r, args s = .ok (xs, r) → xs ≠ [] ∧ ∀ x ∈ xs, x.IsTerm) {name : String}
    (hname : IsQuotable name) {s r : List Char} {node : Node}
    (h : application args name s = .ok (node, r)) : node.IsTerm := by
  unfold application at h
  split at h
  · obtain ⟨found, hfound, h⟩ := except_bind_eq_ok h
    obtain ⟨behind, -, h⟩ := except_bind_eq_ok h
    obtain ⟨rfl, -⟩ := Prod.mk.inj (Except.ok.inj h)
    obtain ⟨hne, hall⟩ := hargs _ found.1 found.2 hfound
    exact .compound hname hne hall
  · obtain ⟨rfl, -⟩ := Prod.mk.inj (Except.ok.inj h)
    exact .atom hname

/-- What the reader takes for a term is one. The induction is on the depth. -/
theorem isTerm_of_term {depth : Nat} {s r : List Char} {node : Node}
    (h : term depth s = .ok (node, r)) : node.IsTerm := by
  induction depth generalizing s r node with
  | zero => cases h
  | succ depth ih =>
    have hargs : ∀ s xs r, commaList (term depth) depth s = .ok (xs, r) →
        xs ≠ [] ∧ ∀ x ∈ xs, x.IsTerm :=
      fun _ _ _ ↦ commaList_eq_ok fun _ _ _ ↦ ih
    rw [term] at h
    split at h
    · cases h
    · rename_i c rest _
      simp only at h
      split_ifs at h with hnumeral hparam hempty hupper hlower hquote
      · obtain ⟨rfl, -⟩ := Prod.mk.inj (Except.ok.inj h)
        exact .atom (isQuotable_numeral _)
      · obtain ⟨rfl, -⟩ := Prod.mk.inj (Except.ok.inj h)
        exact .param (isParamName_name hempty)
      · obtain ⟨rfl, -⟩ := Prod.mk.inj (Except.ok.inj h)
        exact .var (isVarName_name hupper rest)
      · exact isTerm_of_application hargs (isQuotable_name _) h
      · obtain ⟨found, hfound, h⟩ := except_bind_eq_ok h
        exact isTerm_of_application hargs (isQuotable_of_quoted hfound) h

/-- Goals are terms, and there is at least one. -/
theorem isTerm_of_goals {s r : List Char} {gs : List Node} (h : goals s = .ok (gs, r)) :
    gs ≠ [] ∧ ∀ g ∈ gs, g.IsTerm := by
  rw [goals] at h
  obtain ⟨found, hfound, h⟩ := except_bind_eq_ok h
  simp only at h
  split at h
  · cases h
  · obtain ⟨rfl, -⟩ := Prod.mk.inj (Except.ok.inj h)
    exact commaList_eq_ok (fun _ _ _ ↦ isTerm_of_term) hfound

/-! ### Clauses -/

/-- Each kind of clause is well formed for its own reason. -/
theorem wellFormed_of_clause {s r : List Char} {node : Node} (h : clause s = .ok (node, r)) :
    node.WellFormed := by
  unfold clause at h
  split at h
  · rename_i line
    obtain ⟨rfl, -⟩ := Prod.mk.inj (Except.ok.inj h)
    exact wellFormed_comment line
  · rw [query] at h
    obtain ⟨found, hfound, h⟩ := except_bind_eq_ok h
    obtain ⟨behind, -, h⟩ := except_bind_eq_ok h
    obtain ⟨rfl, -⟩ := Prod.mk.inj (Except.ok.inj h)
    obtain ⟨hne, hall⟩ := isTerm_of_goals hfound
    exact .query hne hall
  · rw [assertion] at h
    obtain ⟨head, hhead, h⟩ := except_bind_eq_ok h
    have hterm := isTerm_of_term hhead
    simp only at h
    split at h
    · obtain ⟨body, hbody, h⟩ := except_bind_eq_ok h
      obtain ⟨behind, -, h⟩ := except_bind_eq_ok h
      obtain ⟨rfl, -⟩ := Prod.mk.inj (Except.ok.inj h)
      obtain ⟨hne, hall⟩ := isTerm_of_goals hbody
      exact .rule hterm hne hall
    · obtain ⟨behind, -, h⟩ := except_bind_eq_ok h
      obtain ⟨rfl, -⟩ := Prod.mk.inj (Except.ok.inj h)
      exact .fact hterm

/-- So all clauses of a text are well formed. -/
theorem wellFormed_of_clauses {bound : Nat} {s : List Char} {found : List (List Char × Node)}
    (h : clauses bound s = .ok found) : ∀ entry ∈ found, entry.2.WellFormed := by
  induction bound generalizing s found with
  | zero =>
    obtain rfl := Except.ok.inj h
    simp
  | succ bound ih =>
    rw [clauses] at h
    split at h
    · obtain rfl := Except.ok.inj h
      simp
    · obtain ⟨first, hfirst, h⟩ := except_bind_eq_ok h
      obtain ⟨more, hmore, h⟩ := except_bind_eq_ok h
      obtain rfl := Except.ok.inj h
      intro entry hentry
      rcases List.mem_cons.mp hentry with rfl | hentry
      · exact wellFormed_of_clause hfirst
      · exact ih hmore entry hentry

end Reader

/-- **Every tree that is read is well formed.** -/
theorem parseTree_wellFormed {source : String} {tree : List Located}
    (h : parseTree source = .ok tree) : ∀ c ∈ tree, c.node.WellFormed := by
  unfold parseTree at h
  simp only at h
  split at h
  · rename_i found hfound
    obtain rfl := Except.ok.inj h
    intro c hc
    obtain ⟨entry, hentry, rfl⟩ := List.mem_map.mp hc
    exact Reader.wellFormed_of_clauses hfound entry hentry
  · cases h

end HornQuery.Node
