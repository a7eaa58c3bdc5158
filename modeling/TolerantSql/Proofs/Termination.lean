import TolerantSql.Proofs.GrammarProgress
import TolerantSql.Proofs.TokenConservation

/-!
# Parsing comes to an end

A statement is parsed by two rules of the grammar, with steps before and behind them
that go through the lexemes to come once. Since the rules are carried out without a
guard being called for, so is the statement: `UnfoldsStatement` says what it comes
to when repetitions and recursion go on for as long as the rules ask for it, and
that is one thing, which is what is parsed (`State.unfoldsStatement_iff`).

A caller asks for one statement after the other, and may or may not ask first
whether anything is left. Wherever this leads (`TokenStream.Reachable`), a statement
takes a token if one is left, so that asking until nothing is left is a finite
matter (`TokenStream.Iterates`), and the number of statements is bounded by the
number of tokens. There can be one statement more: comments behind the last token
make a statement of their own, which holds the end of the input alone.
-/

namespace TolerantSql

/-! ## Statements carried out as they are written -/

/-- **What stands behind the optional `EXPLAIN`, with its rule carried out as it is
written.** Without a rule there is nothing to repeat or to enter. -/
inductive UnfoldsBody (explained : Bool) (s : State) : Outcome → Prop where
  | rule {r : Rule} {out : Outcome} (hrule : Rule.ofStatementKeyword? s.current.kind = some r)
    (h : Unfolds 0 (.rule r) s out) : UnfoldsBody explained s (out.andThen State.finish)
  | other (hnone : Rule.ofStatementKeyword? s.current.kind = none) :
    UnfoldsBody explained s (s.body explained)

/-- **What a statement comes to, with its rules carried out as they are written.** -/
inductive UnfoldsStatement (s : State) : Outcome → Prop where
  | intro {first behind : Outcome} (h : Unfolds 0 (.rule .explain) s first)
    (h' : UnfoldsBody (s.lookahead.isKeyword .EXPLAIN) first.state behind) :
    UnfoldsStatement s ⟨first.forest ++ behind.forest, behind.state⟩

namespace State

variable {s : State} {out : Outcome}

theorem unfoldsBody_iff (hs : s.input.Lawful) (explained : Bool) :
    UnfoldsBody explained s out ↔ out = s.body explained := by
  have hbody {r : Rule} (hrule : Rule.ofStatementKeyword? s.current.kind = some r) :
      Unfolds 0 (.rule r) s (r.parse s) ∧ s.body explained = (r.parse s).andThen finish := by
    have hproceeds : r.Proceeds (fun _ => True) false s.lookahead :=
      Rule.proceeds_ofStatementKeyword hrule
    refine ⟨(hproceeds.unfolds hs).1, ?_⟩
    rw [body, hrule]
  constructor
  · intro h
    cases h with
    | rule hrule h =>
      obtain ⟨hunfolds, hsame⟩ := hbody hrule
      rw [hsame, h.unique hunfolds]
    | other => rfl
  · rintro rfl
    cases hrule : Rule.ofStatementKeyword? s.current.kind with
    | none => exact .other hrule
    | some r =>
      obtain ⟨hunfolds, hsame⟩ := hbody hrule
      rw [hsame]
      exact .rule hrule hunfolds

/-- **A statement is what its rules come to**, and they come to one thing only. -/
theorem unfoldsStatement_iff (hs : s.input.Lawful) :
    UnfoldsStatement s out ↔ out = s.statement := by
  have hexplain := Rule.unfolds_explain hs
  obtain ⟨taken, htook⟩ := Took.rule Rule.explain hs
  constructor
  · rintro ⟨h, h'⟩
    obtain rfl := h.unique hexplain
    rw [(unfoldsBody_iff (htook.lawful hs) _).1 h']
    rfl
  · rintro rfl
    exact .intro hexplain ((unfoldsBody_iff (htook.lawful hs) _).2 rfl)

end State

/-! ## One statement after the other -/

namespace TokenStream

/-- **One turn of the iteration over statements**: nothing if nothing is left, and the
statement at the front otherwise. -/
def next? (input : TokenStream) : Option ParsedStatement :=
  if input.isAtEnd then none else some input.parseStatement

/-- **The turns of an iteration**, up to the one that gives nothing. -/
inductive Iterates : TokenStream → List ParsedStatement → Prop where
  | stop {input : TokenStream} (h : input.next? = none) : Iterates input []
  | turn {input : TokenStream} {parsed : ParsedStatement} {results : List ParsedStatement}
    (h : input.next? = some parsed) (h' : Iterates parsed.rest results) :
    Iterates input (parsed :: results)

/-- **What can be left of a source** between two calls, of which each either parses a
statement or takes a turn of the iteration. -/
inductive Reachable (source : String) : TokenStream → Prop where
  | start : Reachable source (ofSource source)
  | statement {input : TokenStream} (h : Reachable source input) :
    Reachable source input.parseStatement.rest
  | next {input : TokenStream} (h : Reachable source input) :
    Reachable source ((input.next?.map ParsedStatement.rest).getD input)

variable {input : TokenStream} {results : List ParsedStatement}

theorem next?_eq_some_iff {parsed : ParsedStatement} :
    input.next? = some parsed ↔ input.isAtEnd = false ∧ parsed = input.parseStatement := by
  unfold next?
  split
  · next hend => simp [hend]
  · next hend => simp [hend, eq_comm]

theorem next?_eq_none_iff : input.next? = none ↔ input.isAtEnd = true := by
  unfold next?
  split
  · next hend => simp [hend]
  · next hend => simp [hend]

theorem Reachable.lawful {source : String} (h : Reachable source input) : input.Lawful := by
  induction h with
  | start => exact lawful_ofSource source
  | statement _ ih => exact lawful_parseStatement ih
  | @next input _ ih =>
    unfold next?
    split
    · exact ih
    · exact lawful_parseStatement ih

/-- **The iteration ends**, with the statements that are parsed. -/
theorem iterates_parseAll (h : input.Lawful) : input.Iterates input.parseAll := by
  generalize hn : input.weight = n
  induction n using Nat.strongRecOn generalizing input with
  | _ n ih =>
    cases hmore : input.isAtEnd with
    | true =>
      rw [parseAll_nil hmore]
      exact .stop (next?_eq_none_iff.2 hmore)
    | false =>
      rw [parseAll_cons h hmore]
      refine .turn (next?_eq_some_iff.2 ⟨hmore, rfl⟩) ?_
      exact ih _ (hn ▸ weight_parseStatement_lt h hmore) (lawful_parseStatement h) rfl

theorem Iterates.unique {results' : List ParsedStatement} (h : input.Iterates results)
    (h' : input.Iterates results') : results = results' := by
  induction h generalizing results' with
  | stop hnone =>
    cases h' with
    | stop => rfl
    | turn hsome => rw [hnone] at hsome; cases hsome
  | turn hsome _ ih =>
    cases h' with
    | stop hnone => rw [hsome] at hnone; cases hnone
    | turn hsome' h' =>
      rw [hsome] at hsome'
      cases hsome'
      rw [ih h']

/-- There are at most as many turns as there are tokens to come, and one more for
comments before the end. -/
theorem Iterates.length_le (h : input.Iterates results) (hlawful : input.Lawful) :
    results.length ≤ input.weight := by
  induction h with
  | stop => exact Nat.zero_le _
  | turn hsome _ ih =>
    obtain ⟨hmore, rfl⟩ := next?_eq_some_iff.1 hsome
    have hless := weight_parseStatement_lt hlawful hmore
    exact Nat.lt_of_le_of_lt (ih (lawful_parseStatement hlawful)) hless

/-- **A statement takes a token where one is left**, and holds the tokens that it
takes. -/
theorem exists_taken_parseStatement (h : input.Lawful) (hmore : input.current.token.isEof = false) :
    ∃ taken, taken ≠ [] ∧ (∀ l ∈ taken, l.token.isEof = false)
      ∧ input.pending = taken ++ input.parseStatement.rest.pending
      ∧ input.parseStatement.statement.tree.terminals.filter (fun t => !t.isEof)
        = taken.map Lexeme.token := by
  have hkeep {taken : List Lexeme} (htaken : ∀ l ∈ taken, l.token.isEof = false) :
      (taken.map Lexeme.token).filter (fun t => !t.isEof) = taken.map Lexeme.token := by
    refine List.filter_eq_self.2 fun t ht => ?_
    obtain ⟨l, hl, rfl⟩ := List.mem_map.1 ht
    rw [htaken l hl]
    rfl
  rcases parseStatement_cases h with ⟨taken, hne, hpending, -, hterminals⟩ | ⟨hrest, hterminals⟩
  · have htaken : ∀ l ∈ taken, l.token.isEof = false := fun l hl =>
      h.pending l (hpending ▸ List.mem_append_left _ hl)
    exact ⟨taken, hne, htaken, hpending, by rw [hterminals, hkeep htaken]⟩
  · refine ⟨input.pending, fun hnil => ?_, h.pending, ?_, ?_⟩
    · rw [current_nil hnil, h.last] at hmore
      cases hmore
    · rw [hrest, List.append_nil]
    · rw [hterminals, List.filter_append, hkeep h.pending, List.filter_singleton, h.last]
      exact List.append_nil _

end TokenStream

/-- **Parsing ends and makes progress.** Wherever calls have led in a source, the rules
of a statement, carried out without any guard, come to one thing, which is what is
parsed; the statement takes a token if one is left; and iterating over statements
ends. A source has at most one statement more than it has significant tokens. -/
theorem parse_terminates (source : String) :
    (∀ input, TokenStream.Reachable source input →
      (∃ out, UnfoldsStatement (State.start input) out
        ∧ (∀ out', UnfoldsStatement (State.start input) out' → out' = out)
        ∧ input.parseStatement.statement = ⟨out.forest, out.state.comments⟩
        ∧ input.parseStatement.rest = out.state.input)
      ∧ (input.current.token.isEof = false →
        ∃ taken, taken ≠ [] ∧ (∀ l ∈ taken, l.token.isEof = false)
          ∧ input.pending = taken ++ input.parseStatement.rest.pending
          ∧ input.parseStatement.statement.tree.terminals.filter (fun t => !t.isEof)
            = taken.map Lexeme.token)
      ∧ ∀ results, input.Iterates results ↔ results = input.parseAll)
    ∧ (parse source).length
      ≤ ((tokenize source).filter (fun t => !t.kind.isTrivia && !t.isEof)).length + 1 := by
  refine ⟨fun input hinput => ?_, ?_⟩
  · have hlawful := hinput.lawful
    have hs : (State.start input).input.Lawful := hlawful
    refine ⟨⟨(State.start input).statement, (State.unfoldsStatement_iff hs).2 rfl, ?_, rfl, rfl⟩,
      TokenStream.exists_taken_parseStatement hlawful, fun results => ?_⟩
    · exact fun out' hout' => (State.unfoldsStatement_iff hs).1 hout'
    · have hiterates := TokenStream.iterates_parseAll hlawful
      exact ⟨fun h => h.unique hiterates, fun h => h ▸ hiterates⟩
  · have hlawful := TokenStream.lawful_ofSource source
    have hcount : (TokenStream.ofSource source).pending.length
        = ((tokenize source).filter (fun t => !t.kind.isTrivia && !t.isEof)).length := by
      rw [← List.length_map Lexeme.token, TokenStream.pending_ofSource]
      rfl
    have hweight : (TokenStream.ofSource source).weight
        ≤ (TokenStream.ofSource source).pending.length + 1 := by
      unfold TokenStream.weight
      split <;> omega
    rw [parse, List.length_map, ← hcount]
    exact Nat.le_trans ((TokenStream.iterates_parseAll hlawful).length_le hlawful) hweight

/-- The second of two `EXPLAIN`s begins a statement of its own, which takes a token
too; the comment at the end makes a third. -/
theorem parse_terminates_explain :
    (∃ taken, taken ≠ [] ∧ (∀ l ∈ taken, l.token.isEof = false)
      ∧ (TokenStream.ofSource "EXPLAIN EXPLAIN; -- end").parseStatement.rest.pending
        = taken ++ (TokenStream.ofSource
            "EXPLAIN EXPLAIN; -- end").parseStatement.rest.parseStatement.rest.pending)
    ∧ (parse "EXPLAIN EXPLAIN; -- end").length = 3
    ∧ (parse "EXPLAIN EXPLAIN; -- end").length
      ≤ ((tokenize "EXPLAIN EXPLAIN; -- end").filter
          (fun t => !t.kind.isTrivia && !t.isEof)).length + 1 := by
  have hmore : (TokenStream.ofSource
      "EXPLAIN EXPLAIN; -- end").parseStatement.rest.current.token.isEof = false := by
    decide +kernel
  obtain ⟨hreachable, hlength⟩ := parse_terminates "EXPLAIN EXPLAIN; -- end"
  obtain ⟨taken, hne, htaken, hpending, -⟩ := (hreachable _ (.statement .start)).2.1 hmore
  exact ⟨⟨taken, hne, htaken, hpending⟩, by decide +kernel, hlength⟩

end TolerantSql
