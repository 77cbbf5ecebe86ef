import Mathlib
import HornQuery.Proofs.Remainders

/-!
# The text of a query

A query keeps its text: what stands between its mark and its period, without the blanks at either end.
Put between a mark and a period again, this text is read as the same query with the same text, unless
a comment stands before the period. The newline that ends such a comment is a blank and goes with the
others, so the new period belongs to the comment and the query is not closed (`queryText_read`).
-/

namespace HornQuery

/-! ### Trimming -/

namespace Text

/-- Nothing is trimmed before a character that is not blank. -/
theorem trimEnd_append_cons {c : Char} (hc : isBlank c = false) (s t : List Char) :
    trimEnd (s ++ c :: t) = s ++ c :: trimEnd t := by
  rw [trimEnd, trimEnd, List.reverse_append, List.reverse_cons, List.append_assoc,
    List.singleton_append, List.dropWhile_append]
  split_ifs with hblank
  · rw [List.dropWhile_cons_of_neg (by simp [hc]), List.isEmpty_iff.mp hblank]
    simp
  · simp

/-- Blanks at the end are trimmed. -/
theorem trimEnd_append_blanks {t : List Char} (ht : ∀ c ∈ t, isBlank c = true) (s : List Char) :
    trimEnd (s ++ t) = trimEnd s := by
  rw [trimEnd, trimEnd, List.reverse_append, List.dropWhile_append_of_pos]
  simpa using ht

theorem mem_of_mem_trimEnd {c : Char} {s : List Char} (h : c ∈ trimEnd s) : c ∈ s :=
  List.mem_reverse.mp ((List.dropWhile_sublist _).subset (List.mem_reverse.mp h))

end Text

open Text

namespace Node

namespace Reader

variable {a b r s t v : List Char} {gs : List Node}

/-- Layout is blank, or it has only blanks behind its last comment. -/
theorem exists_last_comment (hb : IsLayout b) : (∀ c ∈ b, isBlank c = true) ∨
    ∃ a line t, IsLayout a ∧ '\n' ∉ line ∧ (∀ c ∈ t, isBlank c = true) ∧
      b = a ++ '%' :: (line ++ '\n' :: t) := by
  induction hb with
  | nil => exact Or.inl (by simp)
  | @blank c b hc _ ih =>
    rcases ih with hblank | ⟨a, line, t, ha, hline, ht, rfl⟩
    · exact Or.inl (List.forall_mem_cons.mpr ⟨hc, hblank⟩)
    · exact Or.inr ⟨c :: a, line, t, .blank hc ha, hline, ht, rfl⟩
  | @comment first b hfirst _ ih =>
    rcases ih with hblank | ⟨a, line, t, ha, hline, ht, rfl⟩
    · exact Or.inr ⟨[], first, b, .nil, hfirst, hblank, rfl⟩
    · exact Or.inr ⟨_, line, t, .comment hfirst ha, hline, ht, by simp⟩

/-- A solid text has nothing to trim at its start. -/
theorem Solid.trim_append (hv : Solid v) (s : List Char) : trim (v ++ s) = trimEnd (v ++ s) := by
  obtain ⟨c, r, rfl, hc, -⟩ := hv.first
  rw [trim, List.cons_append, List.dropWhile_cons_of_neg (by simp [hc])]

/-- And nothing at its end, so only what follows it is trimmed. -/
theorem Solid.trimEnd_append (hv : Solid v) (s : List Char) :
    trimEnd (v ++ s) = v ++ trimEnd s := by
  obtain ⟨l, c, rfl, hc⟩ := hv.last
  rw [List.append_assoc, List.append_assoc, List.singleton_append, List.singleton_append,
    trimEnd_append_cons hc]

/-- Behind goals, trimming leaves nothing of blanks and an open comment of other layout. -/
theorem trimEnd_layout (hb : IsLayout b) : trimEnd b = [] ∨
    ∃ a line, IsLayout a ∧ '\n' ∉ line ∧ trimEnd b = a ++ '%' :: line := by
  rcases exists_last_comment hb with hblank | ⟨a, line, t, ha, hline, ht, rfl⟩
  · exact Or.inl (trimEnd_append_blanks hblank [])
  · have hnewline : ∀ c ∈ '\n' :: t, isBlank c = true :=
      List.forall_mem_cons.mpr ⟨by decide, ht⟩
    refine Or.inr ⟨a, trimEnd line, ha, fun hmem ↦ hline (mem_of_mem_trimEnd hmem), ?_⟩
    rw [trimEnd_append_cons not_isBlank_percent, trimEnd_append_blanks hnewline]

/-! ### Queries -/

/-- A query's text is that of its goals and of the layout before the period, trimmed. -/
theorem query_text {text : String} (h : query s = .ok (.query gs text, r)) :
    ∃ v b, SpellsGoals v gs (b ++ '.' :: r) ∧ IsLayout b ∧ text = String.ofList (v ++ trimEnd b) := by
  obtain ⟨gs', hgoals, hnode⟩ := query_eq_ok h
  obtain ⟨rfl, rfl⟩ := Node.query.inj hnode
  obtain ⟨a, v, z, hstart, ha, hz, hv⟩ := goals_spells hgoals
  obtain ⟨b, hb, rfl, -⟩ := skipLayout_eq_cons hz
  -- no layout stands before the goals: it was skipped when the text was started
  have hnil : skipLayout s = v ++ (b ++ '.' :: r) := by
    rw [← skipLayout_skipLayout, hstart, skipLayout_append ha, hv.solid.skipLayout_append]
  have hconsumed : consumed (v ++ (b ++ '.' :: r)) ('.' :: r) = v ++ b := by
    rw [← List.append_assoc, consumed, List.length_append, Nat.add_sub_cancel, List.take_left]
  refine ⟨v, b, hv, hb, ?_⟩
  rw [hnil, hconsumed, hv.solid.trim_append, hv.solid.trimEnd_append]

/-- Only the question mark opens a query. -/
theorem query_of_clause {text : String} (h : clause s = .ok (.query gs text, r)) :
    ∃ z, query z = .ok (.query gs text, r) := by
  rcases clause_cases h with ⟨line, -, hcomment⟩ | ⟨z, -, hquery⟩ | ⟨c, z, -, -, -, hassertion⟩
  · rw [comment] at hcomment
    cases (Prod.mk.inj hcomment).1
  · exact ⟨z, hquery⟩
  · obtain ⟨head, u, -, ⟨_, _, -, -, hnode⟩ | ⟨-, hnode⟩⟩ := assertion_eq_ok hassertion
    · cases hnode
    · cases hnode

theorem Resembles.period (u : List Char) : Resembles u ['.'] := by
  refine ⟨fun c hc ↦ Or.inr ?_, fun h ↦ absurd h (by decide)⟩
  obtain rfl := Option.some.inj hc
  decide

/-- Closed by a period at once, the goals are read again, and their text is the query's. -/
theorem query_closed (hv : SpellsGoals v gs s) :
    query (' ' :: (v ++ ['.'])) = .ok (.query gs (String.ofList v), []) := by
  have hstart : skipLayout (' ' :: (v ++ ['.'])) = v ++ ['.'] := by
    rw [skipLayout, if_pos (by decide), hv.solid.skipLayout_append]
  have hperiod : skipLayout ['.'] = ['.'] := skipLayout_cons not_isBlank_period (by decide) []
  have hread := hv.reads .nil (.period s) (by
    rw [hperiod]
    intro c hc
    obtain rfl := Option.some.inj hc
    decide)
  rw [List.nil_append, hperiod, ← hstart] at hread
  have hconsumed : consumed (v ++ ['.']) ['.'] = v ++ [] := by simp [consumed]
  rw [query_of_goals hread, hstart, hconsumed, hv.solid.trim_append, hv.solid.trimEnd_append]
  simp [trimEnd]

/-- A comment without a newline swallows everything behind it. -/
theorem skipComment_eq_nil (h : '\n' ∉ s) : skipComment s = [] := by
  induction s with
  | nil => rfl
  | cons c s ih =>
    obtain ⟨hc, hs⟩ := not_or.mp (mt List.mem_cons.mpr h)
    rw [skipComment, if_neg (Ne.symm hc), ih hs]

/-- Behind a comment without a newline the period is not found. -/
theorem query_unclosed (hv : SpellsGoals v gs s) (ha : IsLayout a) {line : List Char}
    (hline : '\n' ∉ line) :
    query (' ' :: ((v ++ (a ++ '%' :: line)) ++ ['.'])) = .error ⟨.expected ".", []⟩ := by
  have htext : (v ++ (a ++ '%' :: line)) ++ ['.'] = v ++ (a ++ '%' :: (line ++ ['.'])) := by simp
  have hstart : skipLayout (' ' :: ((v ++ (a ++ '%' :: line)) ++ ['.'])) =
      v ++ (a ++ '%' :: (line ++ ['.'])) := by
    rw [htext, skipLayout, if_pos (by decide), hv.solid.skipLayout_append]
  have hskip : skipLayout (a ++ '%' :: (line ++ ['.'])) = [] := by
    rw [skipLayout_append ha, skipLayout, if_neg (by decide), if_pos rfl]
    refine skipComment_eq_nil fun hmem ↦ ?_
    rcases List.mem_append.mp hmem with hmem | hmem
    · exact hline hmem
    · exact absurd hmem (by decide)
  have hread := hv.reads .nil
    (.of_token ha (by decide) (by decide) (by decide) s (line ++ ['.']) : Resembles s (a ++ '%' :: _))
    (by simp [hskip])
  rw [List.nil_append, hskip] at hread
  rw [query, hstart, hread]
  rfl

end Reader

open Reader

/-! ### Whole texts -/

/-- The text of an accepted query is read as the query again, with the same goals and the same text,
exactly if it does not end in a comment. If it does, the period is not found. -/
theorem queryText_read {source : String} {tree : List Located} (h : parseTree source = .ok tree)
    {offset : Nat} {gs : List Node} {text : String} (hmem : ⟨offset, .query gs text⟩ ∈ tree) :
    (endsInComment text.toList = false →
        parseTree ("?- " ++ text ++ ".") = .ok [⟨0, .query gs text⟩]) ∧
      (endsInComment text.toList = true → parseTree ("?- " ++ text ++ ".") =
        .error ⟨.expected ".", .after ("?- " ++ text ++ ".").toList⟩) := by
  have hline : ("?- " ++ text ++ ".").toList = '?' :: '-' :: ' ' :: (text.toList ++ ['.']) := by simp
  obtain ⟨hok, herror⟩ := parseTree_of_clause hline (by decide)
  obtain ⟨found, hfound, rfl⟩ := parseTree_eq_ok h
  obtain ⟨x, hx, heq⟩ := List.mem_map.mp hmem
  obtain ⟨r, hclause⟩ := clause_of_mem hfound hx
  have hnode : x.2 = .query gs text := congrArg Located.node heq
  rw [hnode] at hclause
  obtain ⟨s, hquery⟩ := query_of_clause hclause
  -- The text is a solid one that spells the goals, and what trimming leaves of the layout behind
  -- it.
  obtain ⟨v, b, hv, hb, rfl⟩ := query_text hquery
  rw [String.toList_ofList] at hok herror hline ⊢
  rcases trimEnd_layout hb with hnil | ⟨a, line, ha, hnewline, hopen⟩
  · -- nothing is left of the layout
    rw [hnil, List.append_nil] at hok hline ⊢
    have hclosed : endsInComment v = false := by
      have := hv.solid.balanced []
      rwa [List.append_nil] at this
    refine ⟨fun _ ↦ hok _ (query_closed hv), fun hcomment ↦ ?_⟩
    rw [hclosed] at hcomment
    cases hcomment
  · -- the last comment is left, without its newline
    rw [hopen] at herror hline ⊢
    have hcomment : endsInComment (v ++ (a ++ '%' :: line)) = true := by
      have := endsInLine_append hnewline []
      rw [List.append_nil] at this
      rw [hv.solid.balanced, balanced_layout ha, endsInComment, if_pos rfl, this]
      rfl
    refine ⟨fun hclosed ↦ ?_, fun _ ↦ ?_⟩
    · rw [hcomment] at hclosed
      cases hclosed
    · rw [herror _ (query_unclosed hv ha hnewline), toError_eq (List.append_nil _).symm]

/-- A comment among the goals is kept in the text and does no harm. -/
theorem queryText_read_inner :
    parseTree "?- p(X), % first\n q(X) ." = .ok
        [⟨0, .query [.compound "p" [.var "X"], .compound "q" [.var "X"]] "p(X), % first\n q(X)"⟩] ∧
      parseTree ("?- " ++ "p(X), % first\n q(X)" ++ ".") = .ok
        [⟨0, .query [.compound "p" [.var "X"], .compound "q" [.var "X"]] "p(X), % first\n q(X)"⟩] := by
  have hread : parseTree "?- p(X), % first\n q(X) ." = .ok
      [⟨0, .query [.compound "p" [.var "X"], .compound "q" [.var "X"]] "p(X), % first\n q(X)"⟩] := by
    rfl
  exact ⟨hread, (queryText_read hread (List.mem_singleton.mpr rfl)).1 (by decide)⟩

/-- A comment before the period swallows the period of the line that shows the query. -/
theorem queryText_not_read :
    parseTree "?- p % c\n." = .ok [⟨0, .query [.atom "p"] "p % c"⟩] ∧
      parseTree ("?- " ++ "p % c" ++ ".") = .error ⟨.expected ".", ⟨9, 1, 10⟩⟩ :=
  ⟨rfl, rfl⟩

end Node

end HornQuery
