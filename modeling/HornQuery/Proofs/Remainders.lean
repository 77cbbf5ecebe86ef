import Mathlib
import HornQuery.Proofs.Locality

/-!
# What is left to read

What a reader leaves is an end of the text that it was given, and so is the text that a failure points
at (`Within`). There is one lemma for each reader, from layout to clauses. A clause takes at least one
character (`clause_length_lt`), so the number of clauses is bounded by the length of the text, and any
larger bound gives the same clauses (`clauses_of_length_le`). `parseTree_eq_ok` and `parseTree_eq_error`
say what this means for a whole text.
-/

namespace HornQuery.Node

open Text

namespace Reader

variable {r s t : List Char}

/-- What is left to read, or what a failure points at, is an end of the text. -/
def Within {α : Type} (s : List Char) : Except Failure (α × List Char) → Prop
  | .ok found => found.2 <:+ s
  | .error failure => failure.rest <:+ s

namespace Within

variable {α β : Type}

theorem mono {x : Except Failure (α × List Char)} (h : Within s x) (hs : s <:+ t) : Within t x := by
  cases x with
  | ok found => exact List.IsSuffix.trans h hs
  | error failure => exact List.IsSuffix.trans h hs

/-- If what a reader leaves is read on, the remainder of that is within the text too. -/
theorem bind {x : Except Failure (α × List Char)}
    {f : α × List Char → Except Failure (β × List Char)} (h : Within s x)
    (hf : ∀ found, Within found.2 (f found)) : Within s (x >>= f) := by
  cases x with
  | ok found => exact (hf found).mono h
  | error failure => exact h

end Within

/-- What is left behind layout is an end of the text. -/
theorem skipLayout_suffix (s : List Char) : skipLayout s <:+ s := by
  cases h : skipLayout s with
  | nil => exact List.nil_suffix
  | cons c r =>
    obtain ⟨a, -, rfl, -, -⟩ := skipLayout_eq_cons h
    exact List.suffix_append _ _

/-- A missing token is reported where the layout ends. -/
theorem expect_within {α : Type} {token : Char} {f : List Char → Except Failure (α × List Char)}
    (hf : ∀ r, Within r (f r)) (s : List Char) : Within s (expect token s >>= f) := by
  have hskip := skipLayout_suffix s
  cases h : expect token s with
  | ok r =>
    rw [expect_eq_ok h] at hskip
    exact (hf r).mono ((List.suffix_cons _ _).trans hskip)
  | error failure =>
    rw [expect] at h
    split at h <;> rename_i heq <;> rw [heq] at hskip
    · split_ifs at h
      obtain rfl := Except.error.inj h
      exact hskip
    · obtain rfl := Except.error.inj h
      exact hskip

theorem numeral_suffix (s : List Char) : (numeral s).2 <:+ s := by
  have hdrop := List.dropWhile_suffix (l := s) Char.isDigit
  rw [numeral]
  split
  · rename_i c r heq
    rw [heq] at hdrop
    split_ifs
    · exact (List.dropWhile_suffix _).trans ((List.suffix_cons _ _).trans hdrop)
    · exact hdrop
  · exact hdrop

/-- A missing quote is reported at the start, which the caller gives. -/
theorem quoted_within {start : List Char} (h : s <:+ start) : Within start (quoted start s) := by
  have hdrop := (List.dropWhile_suffix (l := s) fun c ↦ c ≠ '\'' && c ≠ '\n').trans h
  rw [quoted]
  split
  · rename_i r heq
    rw [heq] at hdrop
    exact (List.suffix_cons _ _).trans hdrop
  · exact List.suffix_rfl

/-- If every item stays within its text, so does a list of them. -/
theorem commaList_within {item : List Char → Except Failure (Node × List Char)}
    (hitem : ∀ s, Within s (item s)) (bound : Nat) (s : List Char) :
    Within s (commaList item bound s) := by
  induction bound generalizing s with
  | zero => exact List.suffix_rfl
  | succ bound ih =>
    rw [commaList]
    refine (hitem s).bind fun first ↦ ?_
    have hskip := skipLayout_suffix first.2
    simp only
    split
    · rename_i r heq
      rw [heq] at hskip
      refine Within.mono (Within.bind (ih r) fun more ↦ ?_) ((List.suffix_cons _ _).trans hskip)
      exact List.suffix_rfl
    · exact hskip

theorem application_within {args : List Char → Except Failure (List Node × List Char)}
    (hargs : ∀ s, Within s (args s)) (text : String) (s : List Char) :
    Within s (application args text s) := by
  unfold application
  split
  · rename_i r
    refine Within.mono (Within.bind (hargs r) fun found ↦ ?_) (List.suffix_cons _ _)
    refine expect_within (fun r ↦ ?_) found.2
    exact List.suffix_rfl
  · exact List.suffix_rfl

/-- Terms stay within their text, to any depth. -/
theorem term_within (depth : Nat) (s : List Char) : Within s (term depth s) := by
  induction depth generalizing s with
  | zero => exact List.suffix_rfl
  | succ depth ih =>
    have happly := application_within (commaList_within ih depth)
    have hskip := skipLayout_suffix s
    rw [term]
    split
    · exact List.nil_suffix
    · rename_i c r heq
      rw [heq] at hskip
      refine Within.mono ?_ hskip
      have hname := List.dropWhile_suffix (l := c :: r) isNameChar
      simp only
      split_ifs
      · exact numeral_suffix (c :: r)
      · exact (List.dropWhile_suffix _).trans (List.suffix_cons c r)
      · exact (List.dropWhile_suffix _).trans (List.suffix_cons c r)
      · exact hname
      · exact (happly _ _).mono hname
      · exact (quoted_within (List.suffix_cons c r)).bind fun found ↦ happly _ _
      · exact List.suffix_rfl

theorem goals_within (s : List Char) : Within s (goals s) := by
  rw [goals]
  refine (commaList_within (term_within _) _ s).bind fun found ↦ ?_
  simp only
  split
  · exact List.suffix_rfl
  · exact List.suffix_rfl

theorem skipLine_suffix (s : List Char) : skipLine s <:+ s := by
  induction s with
  | nil => exact List.suffix_rfl
  | cons c s ih =>
    rw [skipLine]
    split_ifs
    · exact List.suffix_cons c s
    · exact ih.trans (List.suffix_cons c s)

theorem query_within (s : List Char) : Within s (query s) := by
  refine Within.mono (Within.bind (goals_within (skipLayout s)) fun found ↦ ?_) (skipLayout_suffix s)
  refine expect_within (fun r ↦ ?_) found.2
  exact List.suffix_rfl

theorem assertion_within (s : List Char) : Within s (assertion s) := by
  refine (term_within _ s).bind fun head ↦ ?_
  have hskip := skipLayout_suffix head.2
  simp only
  split
  · rename_i r heq
    rw [heq] at hskip
    refine Within.mono (Within.bind (goals_within r) fun body ↦ ?_)
      ((List.suffix_cons _ _).trans ((List.suffix_cons _ _).trans hskip))
    refine expect_within (fun r ↦ ?_) body.2
    exact List.suffix_rfl
  · refine Within.mono (expect_within (fun r ↦ ?_) _) hskip
    exact List.suffix_rfl

/-- So clauses do, whatever they are. -/
theorem clause_within (s : List Char) : Within s (clause s) := by
  unfold clause
  split
  · exact (skipLine_suffix _).trans (List.suffix_cons _ _)
  · exact (query_within _).mono ((List.suffix_cons _ _).trans (List.suffix_cons _ _))
  · exact assertion_within s

/-- A query takes at least one character. -/
theorem query_length_lt {node : Node} (h : query s = .ok (node, r)) : r.length < s.length := by
  obtain ⟨gs, hgoals, -⟩ := query_eq_ok h
  have hwithin := goals_within (skipLayout s)
  rw [hgoals] at hwithin
  exact (List.IsSuffix.trans hwithin (skipLayout_suffix s)).length_le

/-- So does a rule or a fact. -/
theorem assertion_length_lt {node : Node} (h : assertion s = .ok (node, r)) :
    r.length < s.length := by
  obtain ⟨head, u, hterm, hrest⟩ := assertion_eq_ok h
  have hu : skipLayout u <:+ s := by
    have hwithin := term_within (s.length + 1) s
    rw [hterm] at hwithin
    exact (skipLayout_suffix u).trans hwithin
  rcases hrest with ⟨z, body, hz, hgoals, -⟩ | ⟨hz, -⟩ <;> rw [hz] at hu
  · have hwithin := goals_within z
    rw [hgoals] at hwithin
    have hz := (List.IsSuffix.trans hwithin ((List.suffix_cons _ _).trans (List.suffix_cons _ _))).trans hu
    exact hz.length_le
  · exact hu.length_le

/-- A clause takes something of the text: its percent sign or its period. -/
theorem clause_length_lt {node : Node} (h : clause s = .ok (node, r)) : r.length < s.length := by
  rcases clause_cases h with ⟨line, rfl, hcomment⟩ | ⟨z, rfl, hquery⟩ | ⟨c, z, rfl, -, -, hassertion⟩
  · rw [comment] at hcomment
    obtain ⟨-, rfl⟩ := Prod.mk.inj hcomment
    exact Nat.lt_succ_of_le (skipLine_suffix line).length_le
  · exact (query_length_lt hquery).trans (by simp)
  · exact assertion_length_lt hassertion

/-- Clauses start within the text, and a failure among them points into it. -/
theorem clauses_within (bound : Nat) (s : List Char) :
    (∀ failure, clauses bound s = .error failure → failure.rest <:+ s) ∧
      ∀ found, clauses bound s = .ok found → ∀ x ∈ found, x.1 <:+ s := by
  induction bound generalizing s with
  | zero =>
    refine ⟨fun failure h ↦ (by cases h), fun found h ↦ ?_⟩
    obtain rfl := Except.ok.inj h
    simp
  | succ bound ih =>
    have hblank := List.dropWhile_suffix (l := s) isBlank
    rw [clauses]
    split
    · refine ⟨fun failure h ↦ (by cases h), fun found h ↦ ?_⟩
      obtain rfl := Except.ok.inj h
      simp
    · have hfirst := clause_within (s.dropWhile isBlank)
      cases hclause : clause (s.dropWhile isBlank) with
      | error e =>
        rw [hclause] at hfirst
        refine ⟨fun failure h ↦ ?_, fun found h ↦ by cases h⟩
        obtain rfl := Except.error.inj h
        exact List.IsSuffix.trans hfirst hblank
      | ok first =>
        rw [hclause] at hfirst
        have hrest : first.2 <:+ s := List.IsSuffix.trans hfirst hblank
        cases hmore : clauses bound first.2 with
        | error e =>
          simp only [bind, Except.bind, hmore]
          refine ⟨fun failure h ↦ ?_, fun found h ↦ by cases h⟩
          obtain rfl := Except.error.inj h
          exact ((ih first.2).1 e hmore).trans hrest
        | ok more =>
          simp only [bind, Except.bind, hmore]
          refine ⟨fun failure h ↦ (by cases h), fun found h ↦ ?_⟩
          obtain rfl := Except.ok.inj h
          rintro x (_ | ⟨_, hx⟩)
          · exact hblank
          · exact ((ih first.2).2 more hmore x hx).trans hrest

/-- Any two bounds that are large enough for the text give the same clauses. -/
theorem clauses_of_length_le {bound bound' : Nat} (h : s.length ≤ bound) (h' : s.length ≤ bound') :
    clauses bound s = clauses bound' s := by
  induction bound generalizing s bound' with
  | zero =>
    obtain rfl := List.eq_nil_of_length_eq_zero (Nat.le_zero.mp h)
    cases bound' with
    | zero => rfl
    | succ bound' => rfl
  | succ bound ih =>
    cases bound' with
    | zero =>
      obtain rfl := List.eq_nil_of_length_eq_zero (Nat.le_zero.mp h')
      rfl
    | succ bound' =>
      rw [clauses, clauses]
      cases hs : s.dropWhile isBlank with
      | nil => rfl
      | cons c z =>
        cases hclause : clause (c :: z) with
        | error failure => simp only [hclause, bind, Except.bind]
        | ok first =>
          -- A clause consumes something, so what is left fits under both smaller bounds.
          have hlt : first.2.length < s.length :=
            (clause_length_lt hclause).trans_le (hs ▸ List.dropWhile_suffix _).length_le
          simp only [hclause, bind, Except.bind]
          rw [ih (by omega) (show first.2.length ≤ bound' by omega)]

/-- Each clause is what is read from the text that starts with it. -/
theorem clause_of_mem {bound : Nat} {found : List (List Char × Node)}
    (h : clauses bound s = .ok found) {x : List Char × Node} (hx : x ∈ found) :
    ∃ r, clause x.1 = .ok (x.2, r) := by
  induction bound generalizing s found with
  | zero =>
    obtain rfl := Except.ok.inj h
    cases hx
  | succ bound ih =>
    rw [clauses] at h
    split at h
    · obtain rfl := Except.ok.inj h
      cases hx
    · obtain ⟨⟨node, r⟩, hclause, hrest⟩ := except_bind_eq_ok h
      obtain ⟨more, hmore, hfound⟩ := except_bind_eq_ok hrest
      obtain rfl := Except.ok.inj hfound
      rcases List.mem_cons.mp hx with rfl | hx
      · exact ⟨r, hclause⟩
      · exact ih hmore hx

end Reader

/-! ### Whole texts -/

open Reader

/-- The clauses of a text that can be read, with the ends of the text at which they start. -/
theorem parseTree_eq_ok {source : String} {tree : List Located} (h : parseTree source = .ok tree) :
    ∃ found, clauses source.toList.length source.toList = .ok found ∧
      tree = found.map fun x ↦ ⟨offsetOf source.toList x.1, x.2⟩ := by
  rw [parseTree] at h
  split at h
  · rename_i found hfound
    exact ⟨found, hfound, (Except.ok.inj h).symm⟩
  · cases h

/-- The failure behind an error, at an end of the text. -/
theorem parseTree_eq_error {source : String} {e : ParseError} (h : parseTree source = .error e) :
    ∃ failure, clauses source.toList.length source.toList = .error failure ∧
      e = failure.toError source := by
  rw [parseTree] at h
  split at h
  · cases h
  · rename_i failure hfailure
    exact ⟨failure, hfailure, (Except.error.inj h).symm⟩

/-- A text that is one clause has that clause alone, or its failure. -/
theorem parseTree_of_clause {source : String} {c : Char} {s : List Char}
    (hsource : source.toList = c :: s) (hc : isBlank c = false) :
    (∀ node, clause (c :: s) = .ok (node, []) → parseTree source = .ok [⟨0, node⟩]) ∧
      ∀ failure, clause (c :: s) = .error failure →
        parseTree source = .error (failure.toError source) := by
  have hclauses : clauses source.toList.length source.toList = (do
      let found ← clause (c :: s)
      let more ← clauses s.length found.2
      return (source.toList, found.1) :: more) := by
    rw [hsource, List.length_cons, clauses, List.dropWhile_cons_of_neg (by simp [hc])]
  refine ⟨fun node h ↦ ?_, fun failure h ↦ ?_⟩ <;> rw [h] at hclauses
  · have hnil : clauses s.length [] = .ok [] := by cases s.length <;> rfl
    simp only [bind, Except.bind, hnil] at hclauses
    have hfound : clauses source.toList.length source.toList = .ok [(source.toList, node)] := hclauses
    rw [parseTree, hfound]
    simp [offsetOf]
  · have hfound : clauses source.toList.length source.toList = .error failure := hclauses
    rw [parseTree, hfound]

/-- A failure is placed right behind the text before the place where it arose. -/
theorem toError_eq {source : String} {failure : Failure} {before : List Char}
    (h : source.toList = before ++ failure.rest) :
    failure.toError source = ⟨failure.fault, .after before⟩ := by
  have hoffset : offsetOf (before ++ failure.rest) failure.rest = utf8Length before := by
    simp [offsetOf]
  rw [Failure.toError, ParseError.ofOffset, Location.ofOffset, h, hoffset,
    takeBytes_utf8Length_append]

end HornQuery.Node
