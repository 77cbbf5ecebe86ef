import Mathlib
import HornQuery.Proofs.Remainders

/-!
# Texts one below the other

If a text is accepted, its clauses stay what they are when a newline and more text follow: a clause
that is closed by a period looks at nothing behind the period, and a comment that ran to the end of the
text now ends at the newline (`clause_append`). Behind them the second text is read as it is read alone
(`clauses_append`), so its clauses and its faults only move down (`parseTree_append`).
-/

namespace HornQuery

/-! ### Places -/

namespace Text

/-- The size of a string in bytes is the sum over its characters. -/
theorem utf8ByteSize_eq_utf8Length (s : String) : s.utf8ByteSize = utf8Length s.toList := by
  have hlength : ∀ l : List Char, String.utf8Len l = utf8Length l := by
    intro l
    induction l with
    | nil => rfl
    | cons c l ih => rw [String.utf8Len_cons, ih, utf8Length, Nat.add_comm]
  rw [← hlength, ← String.utf8ByteSize_ofList, String.ofList_toList]

theorem utf8Length_le_of_suffix {s t : List Char} (h : s <:+ t) : utf8Length s ≤ utf8Length t := by
  obtain ⟨u, rfl⟩ := h
  rw [utf8Length_append]
  exact Nat.le_add_left _ _

/-- Only what stands behind the last newline counts. -/
theorem lastLine_append (s t : List Char) : lastLine (s ++ '\n' :: t) = lastLine t := by
  rw [lastLine, lastLine, List.reverse_append, List.reverse_cons, List.append_assoc,
    List.takeWhile_append]
  split_ifs with hlength
  · rw [(List.takeWhile_prefix _).eq_of_length hlength]
    simp
  · rfl

end Text

open Text

namespace Location

/-- The place that `place` becomes when the text `above` and a newline are put before its text. -/
def below (above : String) (place : Location) : Location where
  offset := place.offset + (above.utf8ByteSize + 1)
  line := place.line + (above.toList.count '\n' + 1)
  column := place.column

/-- A place below another text has the lines of that text above it and the same column. -/
theorem after_append (above : String) (before : List Char) :
    after (above.toList ++ '\n' :: before) = (after before).below above := by
  have hoffset : utf8Length ('\n' :: before) = 1 + utf8Length before := rfl
  simp only [after, below, utf8Length_append, hoffset, lastLine_append, List.count_append,
    List.count_cons_self, utf8ByteSize_eq_utf8Length, mk.injEq, and_true]
  constructor <;> omega

end Location

namespace Node

namespace Reader

variable {r s t : List Char}

/-! ### Clauses -/

/-- A newline can follow any text: it continues no name and no numeral. -/
theorem Resembles.append_newline (z t : List Char) : Resembles z (z ++ '\n' :: t) := by
  have hnil : Resembles [] ('\n' :: t) := .of_cons (by decide) (by decide) (by decide) [] t
  simpa using hnil.append_left z

/-- A term that was read is read again with more text behind it. More text also allows for more
depth, which makes no difference. -/
theorem term_append {x : Node} (h : term (s.length + 1) s = .ok (x, r)) (t : List Char) :
    term ((s ++ '\n' :: t).length + 1) (s ++ '\n' :: t) = .ok (x, r ++ '\n' :: t) := by
  obtain ⟨a, w, rfl, ha, hw⟩ := term_spells h
  rw [List.append_assoc, List.append_assoc, term_append_layout ha]
  refine hw.reads (.append_newline r t) ?_
  simp only [List.length_append]
  omega

/-- The period ends the goals, so that more text behind it is not looked at. -/
theorem goals_append {gs : List Node} (h : goals s = .ok (gs, '.' :: r)) (t : List Char) :
    goals (s ++ '\n' :: t) = .ok (gs, '.' :: (r ++ '\n' :: t)) := by
  obtain ⟨a, v, z, rfl, ha, hz, hv⟩ := goals_spells h
  have hperiod := skipLayout_append_of_eq_cons hz ('\n' :: t)
  have hread := hv.reads ha (.append_newline z t) (by
    rw [hperiod]
    intro c hc
    obtain rfl := Option.some.inj hc
    decide)
  rw [List.append_assoc, List.append_assoc, hread, hperiod]

/-- What was consumed does not depend on what follows. -/
theorem consumed_append (h : r <:+ s) (t : List Char) : consumed (s ++ t) (r ++ t) = consumed s r := by
  obtain ⟨u, rfl⟩ := h
  simp [consumed]

/-- A query that was read is read again, with the same text, if more follows. -/
theorem query_append {node : Node} (h : query s = .ok (node, r)) (t : List Char) :
    query (s ++ '\n' :: t) = .ok (node, r ++ '\n' :: t) := by
  obtain ⟨gs, hgoals, rfl⟩ := query_eq_ok h
  have hwithin := goals_within (skipLayout s)
  rw [hgoals] at hwithin
  have hstart : skipLayout (s ++ '\n' :: t) = skipLayout s ++ '\n' :: t := by
    cases hs : skipLayout s with
    | nil =>
      rw [hs] at hwithin
      exact absurd (List.suffix_nil.mp hwithin) (List.cons_ne_nil _ _)
    | cons c z => exact skipLayout_append_of_eq_cons hs _
  have hread := goals_append hgoals t
  rw [← hstart] at hread
  rw [query_of_goals hread, hstart, ← List.cons_append, consumed_append hwithin]

/-- A rule or a fact that was read is read again if more follows. -/
theorem assertion_append {node : Node} (h : assertion s = .ok (node, r)) (t : List Char) :
    assertion (s ++ '\n' :: t) = .ok (node, r ++ '\n' :: t) := by
  obtain ⟨head, u, hterm, hrest⟩ := assertion_eq_ok h
  rcases hrest with ⟨z, body, hz, hgoals, rfl⟩ | ⟨hz, rfl⟩
  · exact assertion_of_rule (term_append hterm t) (skipLayout_append_of_eq_cons hz _)
      (goals_append hgoals t)
  · exact assertion_of_fact (term_append hterm t) (skipLayout_append_of_eq_cons hz _)

theorem skipLine_eq_nil (h : '\n' ∉ s) : skipLine s = [] := by
  induction s with
  | nil => rfl
  | cons c s ih =>
    obtain ⟨hc, hs⟩ := not_or.mp (mt List.mem_cons.mpr h)
    rw [skipLine, if_neg (Ne.symm hc), ih hs]

/-- A comment ends at its newline, or else at the newline put behind it. -/
theorem comment_append_newline {node : Node} (h : comment s = (node, r)) (t : List Char) :
    ∃ r', comment (s ++ '\n' :: t) = (node, r') ∧
      (r' = r ++ '\n' :: t ∨ r = [] ∧ r' = t) := by
  have hline : ∀ l : List Char, '\n' ∉ l → ∀ t, (l ++ '\n' :: t).takeWhile (· ≠ '\n') = l := by
    intro l hl t
    refine (span_append (fun c hc ↦ ?_) (by simp)).1
    simpa using fun heq : c = '\n' ↦ hl (heq ▸ hc)
  rw [comment] at h
  obtain ⟨rfl, rfl⟩ := Prod.mk.inj h
  rw [comment]
  by_cases hmem : '\n' ∈ s
  · obtain ⟨l, z, rfl, hl⟩ := List.eq_append_cons_of_mem hmem
    refine ⟨z ++ '\n' :: t, ?_, Or.inl ?_⟩
    · rw [List.append_assoc, List.cons_append, hline l hl, hline l hl, skipLine_append hl]
    · rw [skipLine_append hl]
  · have hall : s.takeWhile (· ≠ '\n') = s := by
      refine List.takeWhile_eq_self_iff.mpr fun c hc ↦ ?_
      simpa using fun heq : c = '\n' ↦ hmem (heq ▸ hc)
    refine ⟨t, ?_, Or.inr ⟨skipLine_eq_nil hmem, rfl⟩⟩
    rw [hline s hmem, hall, skipLine_append hmem]

/-- Behind an accepted clause a newline and any text may follow. Only a comment at the end of the text
takes the newline for itself. -/
theorem clause_append {node : Node} (h : clause s = .ok (node, r)) (t : List Char) :
    ∃ r', clause (s ++ '\n' :: t) = .ok (node, r') ∧
      (r' = r ++ '\n' :: t ∨ r = [] ∧ r' = t) := by
  rcases clause_cases h with ⟨line, rfl, hcomment⟩ | ⟨z, rfl, hquery⟩ |
    ⟨c, z, rfl, hpercent, hmark, hassertion⟩
  · obtain ⟨r', hread, hr'⟩ := comment_append_newline hcomment t
    refine ⟨r', ?_, hr'⟩
    rw [List.cons_append, clause, hread]
  · exact ⟨_, query_append hquery t, Or.inl rfl⟩
  · refine ⟨_, ?_, Or.inl rfl⟩
    rw [List.cons_append, clause_eq_assertion hpercent hmark, ← List.cons_append]
    exact assertion_append hassertion t

/-- Blanks before a clause make no difference. -/
theorem clauses_dropWhile (bound : Nat) (s : List Char) :
    clauses bound (s.dropWhile isBlank) = clauses bound s := by
  cases bound with
  | zero => rfl
  | succ bound => rw [clauses, clauses, List.dropWhile_idempotent]

/-- Below blanks alone a text has its own clauses. -/
theorem clauses_blank_append {bound : Nat} (hs : s.dropWhile isBlank = [])
    (hbound : t.length ≤ bound) : clauses bound (s ++ '\n' :: t) = clauses t.length t := by
  have hdrop : (s ++ '\n' :: t).dropWhile isBlank = t.dropWhile isBlank := by
    have hnewline : isBlank '\n' = true := by decide
    rw [List.dropWhile_append, hs]
    exact List.dropWhile_cons_of_pos hnewline
  rw [← clauses_dropWhile, hdrop, clauses_dropWhile]
  exact clauses_of_length_le hbound le_rfl

/-- The clauses of an accepted text stay, and behind them come those of the text below it. -/
theorem clauses_append {bound bound' : Nat} {found : List (List Char × Node)}
    (h : clauses bound s = .ok found) (hbound : s.length ≤ bound)
    (hbound' : s.length + t.length < bound') :
    clauses bound' (s ++ '\n' :: t) =
      (clauses t.length t).map fun more ↦ (found.map fun x ↦ (x.1 ++ '\n' :: t, x.2)) ++ more := by
  induction bound generalizing s found bound' with
  | zero =>
    obtain rfl := List.eq_nil_of_length_eq_zero (Nat.le_zero.mp hbound)
    obtain rfl := Except.ok.inj h
    rw [clauses_blank_append rfl (by omega)]
    cases clauses t.length t <;> rfl
  | succ bound ih =>
    rw [clauses] at h
    cases hs : s.dropWhile isBlank with
    | nil =>
      rw [hs] at h
      obtain rfl := Except.ok.inj h
      rw [clauses_blank_append hs (by omega)]
      cases clauses t.length t <;> rfl
    | cons c z =>
      rw [hs] at h
      obtain ⟨⟨node, r⟩, hclause, hrest⟩ := except_bind_eq_ok h
      obtain ⟨more, hmore, hfound⟩ := except_bind_eq_ok hrest
      obtain rfl := Except.ok.inj hfound
      have hlt : r.length < s.length :=
        (clause_length_lt hclause).trans_le (hs ▸ List.dropWhile_suffix _).length_le
      -- The first clause is read as before. What is behind it is what was behind it, or the whole
      -- second text if the clause was a comment that had no end.
      obtain ⟨r', hread, hr'⟩ := clause_append hclause t
      obtain ⟨bound', rfl⟩ : ∃ n, bound' = n + 1 := ⟨bound' - 1, by omega⟩
      have hdrop : (s ++ '\n' :: t).dropWhile isBlank = c :: z ++ '\n' :: t := by
        rw [List.dropWhile_append, hs]
        rfl
      have hbehind : clauses bound' r' = (clauses t.length t).map fun more' ↦
          (more.map fun x ↦ (x.1 ++ '\n' :: t, x.2)) ++ more' := by
        rcases hr' with rfl | ⟨rfl, hr'⟩
        · exact ih hmore (by omega) (by omega)
        · -- the comment ran to the end of the text, so nothing of it is left
          have hnil : more = [] := by
            cases bound <;> exact (Except.ok.inj hmore).symm
          rw [hr', hnil, clauses_of_length_le (show t.length ≤ bound' by omega) le_rfl]
          cases clauses t.length t <;> rfl
      rw [clauses, hdrop]
      simp only [List.cons_append] at hread ⊢
      simp only [hread, bind, Except.bind, hbehind]
      cases clauses t.length t <;> rfl

end Reader

/-! ### Whole texts -/

open Reader

/-- Offsets in the first text are the same in both together. -/
theorem offsetOf_append {s r : List Char} (t : List Char) :
    offsetOf (s ++ '\n' :: t) (r ++ '\n' :: t) = offsetOf s r := by
  simp only [offsetOf, utf8Length_append]
  omega

/-- Offsets in the second text are shifted by the first one and the newline. -/
theorem offsetOf_below {t r : List Char} (h : r <:+ t) (s : String) :
    offsetOf (s.toList ++ '\n' :: t) r = offsetOf t r + (s.utf8ByteSize + 1) := by
  have hle := utf8Length_le_of_suffix h
  have hnewline : utf8Length ('\n' :: t) = 1 + utf8Length t := rfl
  simp only [offsetOf, utf8Length_append, hnewline, utf8ByteSize_eq_utf8Length]
  omega

/-- A failure below another text is the same failure, further down. -/
theorem toError_below {failure : Failure} {t : String} (h : failure.rest <:+ t.toList) (s : String) :
    failure.toError (s ++ "\n" ++ t) =
      ⟨(failure.toError t).fault, (failure.toError t).location.below s⟩ := by
  obtain ⟨before, hbefore⟩ := h
  have hsource : (s ++ "\n" ++ t).toList = (s.toList ++ '\n' :: before) ++ failure.rest := by
    simp [← hbefore]
  rw [toError_eq hsource, toError_eq hbefore.symm, Location.after_append]

/-- An accepted text can be put above any other: its clauses stay where they are, and the clauses or
the fault of the other text move down by it and the newline between them. -/
theorem parseTree_append {s : String} {tree : List Located} (h : parseTree s = .ok tree)
    (t : String) :
    (∀ more, parseTree t = .ok more → parseTree (s ++ "\n" ++ t) =
        .ok (tree ++ more.map fun x ↦ ⟨x.offset + (s.utf8ByteSize + 1), x.node⟩)) ∧
      ∀ e, parseTree t = .error e →
        parseTree (s ++ "\n" ++ t) = .error ⟨e.fault, e.location.below s⟩ := by
  have hsource : (s ++ "\n" ++ t).toList = s.toList ++ '\n' :: t.toList := by simp
  obtain ⟨found, hfound, rfl⟩ := parseTree_eq_ok h
  have hclauses := clauses_append hfound le_rfl
    (show s.toList.length + t.toList.length < (s ++ "\n" ++ t).toList.length by
      rw [hsource, List.length_append, List.length_cons]
      omega)
  rw [← hsource] at hclauses
  have hwithin := clauses_within t.toList.length t.toList
  constructor
  · intro more hmore
    obtain ⟨found', hfound', rfl⟩ := parseTree_eq_ok hmore
    rw [hfound', Except.map] at hclauses
    -- Clauses of the first text keep their offsets, and those of the second are shifted.
    have hupper : ∀ x ∈ found, offsetOf (s ++ "\n" ++ t).toList (x.1 ++ '\n' :: t.toList) =
        offsetOf s.toList x.1 := fun x _ ↦ by rw [hsource, offsetOf_append]
    have hlower : ∀ x ∈ found', offsetOf (s ++ "\n" ++ t).toList x.1 =
        offsetOf t.toList x.1 + (s.utf8ByteSize + 1) := fun x hx ↦ by
      rw [hsource, offsetOf_below (hwithin.2 found' hfound' x hx)]
    rw [parseTree, hclauses]
    simp only [List.map_append, List.map_map, Except.ok.injEq]
    congr 1
    · exact List.map_congr_left fun x hx ↦ congrArg (Located.mk · x.2) (hupper x hx)
    · exact List.map_congr_left fun x hx ↦ congrArg (Located.mk · x.2) (hlower x hx)
  · intro e he
    obtain ⟨failure, hfailure, rfl⟩ := parseTree_eq_error he
    rw [hfailure, Except.map] at hclauses
    rw [parseTree, hclauses]
    simp only [toError_below (hwithin.1 failure hfailure) s]

/-- The comment above has no newline of its own, and its last letter takes two bytes. -/
theorem parseTree_append_unfinished :
    parseTree "p. % ä" = .ok [⟨0, .fact (.atom "p")⟩, ⟨3, .comment " ä"⟩] ∧
      parseTree ("p. % ä" ++ "\n" ++ "q(X).") =
        .ok [⟨0, .fact (.atom "p")⟩, ⟨3, .comment " ä"⟩, ⟨8, .fact (.compound "q" [.var "X"])⟩] ∧
      parseTree ("p. % ä" ++ "\n" ++ "q") = .error ⟨.expected ".", ⟨9, 2, 2⟩⟩ := by
  have habove : parseTree "p. % ä" = .ok [⟨0, .fact (.atom "p")⟩, ⟨3, .comment " ä"⟩] := by rfl
  exact ⟨habove, (parseTree_append habove "q(X).").1 _ rfl, (parseTree_append habove "q").2 _ rfl⟩

end Node

end HornQuery
