import Mathlib.Data.List.Forall2
import TolerantSql.Proofs.TakenTokens
import TolerantSql.Statement

/-!
# What a statement takes from the stream

A statement is a rule and what ends it. The rule takes no token that ends a
statement (`Took`), so there are two ways for a statement to come out
(`State.statement_cases`): it is closed by the semicolon or the end of the input
that comes next, possibly after skipping to it, or it stops before a keyword that
begins the next statement, and has then taken at least one token.

It follows that a statement always makes progress, so the statements of a stream
are parsed until nothing is left (`TokenStream.parseAll_cons`), and that together
they hold the tokens of the stream (`TokenStream.terminals_parseAll`).
-/

namespace TolerantSql

/-- A semicolon ends the statement. -/
theorem StopSet.endsStatement_of_terminator (kind : TokenKind)
    (h : terminator kind = true) : kind.endsStatement = true := by
  rw [beq_iff_eq.1 h]
  rfl

namespace State

variable {s : State}

/-! ## How a statement ends -/

theorem atEnd_of_atEof (h : s.atEof = true) : s.atEnd = true := by
  rw [atEnd, Token.kind_eq_eof h]
  rfl

theorem atEof_eq_false (h : s.atEnd = false) : s.atEof = false :=
  Bool.eq_false_iff.2 fun hend => Bool.false_ne_true (h.symm.trans (atEnd_of_atEof hend))

/-- Skipping stops at a token that fits or at the end of the input. -/
theorem current_recover (hs : s.input.Lawful) (announced : Bool) (message : String)
    (sync : StopSet) :
    sync (s.recover announced message sync).state.current.kind = true
      ∨ (s.recover announced message sync).state.atEof = true := by
  have htook := Took.recover hs announced message sync
  have hlawful := htook.lawful hs
  generalize s.recover announced message sync = out at htook hlawful ⊢
  cases hpending : out.state.input.pending with
  | nil =>
    refine .inr ?_
    rw [atEof_eq hlawful, hpending]
    rfl
  | cons l rest =>
    have hdrop : s.input.pending.dropWhile (fun l => !sync l.token.kind) = l :: rest := by
      refine List.append_cancel_left (List.takeWhile_append_dropWhile.trans ?_)
      rw [← hpending]
      exact htook.pending
    have hhead := List.head?_dropWhile_not (fun l : Lexeme => !sync l.token.kind) s.input.pending
    rw [hdrop] at hhead
    replace hhead : (!sync l.token.kind) = false := hhead
    rw [Bool.not_eq_false'] at hhead
    rw [current, TokenStream.current_cons hpending]
    exact .inl hhead

/-- So it stops at the end of the statement, if nothing else fits. -/
theorem atEnd_recover (hs : s.input.Lawful) (announced : Bool) (message : String) {sync : StopSet}
    (hsync : ∀ kind, sync kind = true → kind.endsStatement = true) :
    (s.recover announced message sync).state.atEnd = true :=
  (current_recover hs announced message sync).elim (hsync _) atEnd_of_atEof

/-- A list goes on wherever a skip in it stops, since the end of the input ends it. -/
theorem listSkip_eq (hs : s.input.Lawful) (shape : ListShape) (phase : ListPhase)
    (message : String) :
    s.listSkip shape phase message = (s.recover false message shape.resumes, some phase) := by
  have hresumes :
      shape.resumes (s.recover false message shape.resumes).state.current.kind = true := by
    rcases current_recover hs false message shape.resumes with hsync | hend
    · exact hsync
    · rw [Token.kind_eq_eof hend]
      simp [ListShape.resumes, shape.follows.eof]
  rw [listSkip, if_pos hresumes]

/-- **A statement that is closed**: behind what stands in it comes the token that
ends it, and is taken. -/
def Closes (s : State) (out : Outcome) : Prop :=
  ∃ first taken, Took taken s first ∧ first.state.atEnd = true ∧ out = first.andThen take

/-- What is taken before does not change how a statement is closed. -/
theorem Closes.after {out out' : Outcome} {taken : List Lexeme} (h : Took taken s out)
    (h' : Closes out.state out') : Closes s ⟨out.forest ++ out'.forest, out'.state⟩ := by
  obtain ⟨first, taken', hfirst, hend, rfl⟩ := h'
  refine ⟨⟨out.forest ++ first.forest, first.state⟩, _, h.andThen hfirst, hend, ?_⟩
  simp only [Outcome.andThen, List.append_assoc]

/-- **The end of a statement** takes the token that ends it, after skipping to
it. -/
theorem closes_finish (hs : s.input.Lawful) : Closes s s.finish := by
  rw [finish]
  split
  · next hend => exact ⟨s.stay, [], Took.stay s, hend, rfl⟩
  · exact ⟨_, _, Took.recover hs false "expecting ;" .terminator,
      atEnd_recover hs _ _ StopSet.endsStatement_of_terminator, rfl⟩

theorem closes_andThen_finish {out : Outcome} {taken : List Lexeme} (h : Took taken s out)
    (hs : s.input.Lawful) : Closes s (out.andThen finish) :=
  Closes.after h (closes_finish (h.lawful hs))

/-- **What a statement comes to**: either it is closed, or it stops before a
keyword that begins the next one. It stops where it began only at an `EXPLAIN`. -/
def Concludes (s : State) (out : Outcome) : Prop :=
  Closes s out ∨ ∃ taken, Took taken s out ∧ out.state.atEnd = false
    ∧ (taken = [] → s.current.kind = .keyword .EXPLAIN)

/-- `EXPLAIN` alone begins a statement without a rule of its own. -/
theorem eq_explain_of_startsStatement {kind : TokenKind} (h : kind.startsStatement = true)
    (hnone : Rule.ofStatementKeyword? kind = none) : kind = .keyword .EXPLAIN := by
  cases kind with
  | keyword word =>
    replace h : statementKeywords.contains word = true := h
    simp only [statementKeywords, List.contains_eq_mem, List.mem_cons, List.not_mem_nil,
      or_false, decide_eq_true_eq] at h
    rcases h with rfl | rfl | rfl | rfl | rfl | rfl
    · rfl
    all_goals cases hnone
  | _ => cases h

/-- **A body is closed, or nothing but tokens before the next statement is skipped.** -/
theorem body_cases (hs : s.input.Lawful) (explained : Bool) :
    Closes s (s.body explained)
      ∨ s.body explained = s.recover false "expecting statement" .statement
        ∧ Rule.ofStatementKeyword? s.current.kind = none ∧ s.atEnd = false
        ∧ (s.body explained).state.atEnd = false := by
  rw [body]
  split
  · next rule _ =>
    obtain ⟨taken, htook⟩ := Took.rule rule hs
    exact .inl (closes_andThen_finish htook hs)
  · next hnone =>
    split
    · cases explained
      · exact .inl (closes_andThen_finish (Took.stay s) hs)
      · exact .inl (closes_andThen_finish (Took.add _ s) hs)
    · next hend =>
      have htook := Took.recover hs false "expecting statement" .statement
      generalize s.recover false "expecting statement" .statement = out at htook ⊢
      cases hstop : out.state.atEnd with
      | true =>
        rw [Outcome.andThen, hstop, if_pos rfl]
        exact .inl (closes_andThen_finish htook hs)
      | false =>
        rw [Outcome.andThen, hstop, if_neg Bool.false_ne_true, stay, List.append_nil]
        exact .inr ⟨rfl, hnone, Bool.eq_false_iff.2 hend, hstop⟩

theorem concludes_body (hs : s.input.Lawful) (explained : Bool) :
    Concludes s (s.body explained) := by
  rcases body_cases hs explained with hclosed | ⟨hbody, hnone, hend, hstop⟩
  · exact .inl hclosed
  · have htook := Took.recover hs false "expecting statement" .statement
    refine .inr ⟨_, hbody ▸ htook, hstop, fun hnil => ?_⟩
    -- nothing was skipped, so the current token begins a statement
    obtain ⟨l, rest, hpending⟩ := exists_pending hs hend
    have hcurrent := TokenStream.current_cons hpending
    rw [atEnd, current, hcurrent] at hend
    rw [current, hcurrent] at hnone ⊢
    rw [hpending, List.takeWhile_cons] at hnil
    split at hnil
    · cases hnil
    · next hfits =>
      refine eq_explain_of_startsStatement ?_ hnone
      simpa [StopSet.statement, hend] using hfits

/-- An `EXPLAIN` is taken. -/
theorem took_explain (hs : s.input.Lawful) (hexplain : s.current.kind = .keyword .EXPLAIN) :
    ∃ l taken, Took (l :: taken) s (Rule.explain.parse s) := by
  have hend : s.atEnd = false := by rw [atEnd, hexplain]; rfl
  obtain ⟨l, -, htake⟩ := Took.take_current hs hend
  have hshift : s.shift = s.take := by
    rw [shift, hend, hexplain]
    rfl
  have hparse : Rule.explain.parse s = s.shift.andThen
      (Rule.all [Rule.onlyIf (·.isKeyword .QUERY)
        (Rule.all [.shift, Rule.expectKeyword .PLAN])]).parse := by
    have hlook : s.lookahead.isKeyword .EXPLAIN = true := by
      show (s.current.kind == _) = true
      rw [hexplain]
      rfl
    show Rule.run _ _ (if s.lookahead.isKeyword .EXPLAIN then _ else _) s = _
    rw [if_pos hlook]
    rfl
  rw [hparse, hshift]
  obtain ⟨taken, hrest⟩ := Took.rule (Rule.all [Rule.onlyIf (·.isKeyword .QUERY)
    (Rule.all [.shift, Rule.expectKeyword .PLAN])]) (htake.lawful hs)
  exact ⟨l, taken, htake.andThen hrest⟩

/-- **How a statement is made**: it is closed by the token that ends it, or it
takes at least one token and stops before a keyword that begins the next one. -/
theorem statement_cases (hs : s.input.Lawful) :
    Closes s s.statement
      ∨ ∃ taken, Took taken s s.statement ∧ s.statement.state.atEnd = false ∧ taken ≠ [] := by
  by_cases hexplain : s.current.kind = .keyword .EXPLAIN
  · obtain ⟨l, taken, htook⟩ := took_explain hs hexplain
    rcases concludes_body (htook.lawful hs) (s.lookahead.isKeyword .EXPLAIN) with
      hclosed | ⟨taken', htook', hend, -⟩
    · exact .inl (Closes.after htook hclosed)
    · exact .inr ⟨_, htook.andThen htook', hend, List.cons_ne_nil _ _⟩
  · -- without `EXPLAIN`, a statement that stops where it began would stop at one
    obtain ⟨taken, htook⟩ := Took.rule Rule.explain hs
    rcases concludes_body (htook.lawful hs) (s.lookahead.isKeyword .EXPLAIN) with
      hclosed | ⟨taken', htook', hend, hnil⟩
    · exact .inl (Closes.after htook hclosed)
    · refine .inr ⟨_, htook.andThen htook', hend, fun hempty => hexplain ?_⟩
      obtain ⟨rfl, rfl⟩ := List.append_eq_nil_iff.1 hempty
      rw [← htook.current_eq]
      exact hnil rfl

end State

/-- **What a statement holds**: lexemes whose tokens are those of the tree, in order and
each once, and whose comments are filed. -/
structure ParsedStatement.Holds (parsed : ParsedStatement) (held : List Lexeme) : Prop where
  terminals : parsed.statement.tree.terminals = held.map Lexeme.token
  comments : parsed.statement.comments
    = held.foldl (fun m l => m.insert l.token l.comments) .empty

namespace TokenStream

variable {input : TokenStream}

/-- A statement has no placeholders. -/
theorem placeholder_not_mem_parseStatement (h : input.Lawful) :
    Leaf.placeholder ∉ input.parseStatement.statement.tree.leaves := by
  have hs : (State.start input).input.Lawful := h
  show Leaf.placeholder ∉ Forest.leaves (State.start input).statement.forest
  rcases State.statement_cases hs with ⟨first, taken, hfirst, -, hout⟩ | ⟨taken, htook, -⟩
  · rw [hout, Outcome.andThen, Forest.leaves_append, List.mem_append, not_or]
    refine ⟨hfirst.concrete, fun hleaf => ?_⟩
    cases List.mem_singleton.1 hleaf
  · exact htook.concrete

/-- **What a statement takes from the stream**, with what it holds: at least one of the
lexemes to come, or all of them and the end of the input. -/
theorem parseStatement_holds (h : input.Lawful) :
    (∃ held, held ≠ [] ∧ input.pending = held ++ input.parseStatement.rest.pending
        ∧ input.parseStatement.rest.last = input.last ∧ input.parseStatement.Holds held)
      ∨ input.parseStatement.rest = ⟨[], ⟨input.last.token, []⟩⟩
        ∧ input.parseStatement.Holds (input.pending ++ [input.last]) := by
  have hs : (State.start input).input.Lawful := h
  have hrest : input.parseStatement.rest = (State.start input).statement.state.input := rfl
  rcases State.statement_cases hs with ⟨first, taken, hfirst, -, hout⟩ | ⟨taken, htook, -, hne⟩
  · have hpending : input.pending = taken ++ first.state.input.pending := hfirst.pending
    -- the token that ends the statement stands behind what was taken, and so do its comments
    have hholds : input.parseStatement.Holds (taken ++ [first.state.input.current]) := by
      constructor
      · show Forest.terminals (State.start input).statement.forest = _
        rw [hout, Outcome.andThen, Took.terminals_append, hfirst.terminals, List.map_append]
        rfl
      · show (State.start input).statement.state.comments = _
        rw [hout, List.foldl_append, List.foldl_cons, List.foldl_nil]
        show first.state.comments.insert _ _ = _
        rw [hfirst.comments]
        rfl
    rw [hrest, hout]
    show (∃ held, held ≠ [] ∧ input.pending = held ++ first.state.input.advance.pending
      ∧ first.state.input.advance.last = input.last ∧ _) ∨ first.state.input.advance = _ ∧ _
    cases hmore : first.state.input.pending with
    | nil =>
      refine .inr ⟨?_, ?_⟩
      · rw [advance_nil hmore, hfirst.last]
        rfl
      · rw [current_nil hmore, hfirst.last] at hholds
        rw [hpending, hmore, List.append_nil]
        exact hholds
    | cons l rest =>
      rw [current_cons hmore] at hholds
      refine .inl ⟨taken ++ [l], by simp, ?_, ?_, hholds⟩
      · rw [advance_cons hmore, hpending, hmore, List.append_assoc]
        rfl
      · rw [advance_cons hmore, hfirst.last]
        rfl
  · exact .inl ⟨taken, hne, htook.pending, htook.last, htook.terminals, htook.comments⟩

/-- The tokens that a statement takes from the stream. -/
theorem parseStatement_cases (h : input.Lawful) :
    (∃ taken, taken ≠ [] ∧ input.pending = taken ++ input.parseStatement.rest.pending
        ∧ input.parseStatement.rest.last = input.last
        ∧ input.parseStatement.statement.tree.terminals = taken.map Lexeme.token)
      ∨ input.parseStatement.rest = ⟨[], ⟨input.last.token, []⟩⟩
        ∧ input.parseStatement.statement.tree.terminals
          = input.pending.map Lexeme.token ++ [input.last.token] := by
  rcases parseStatement_holds h with ⟨held, hne, hpending, hlast, hholds⟩ | ⟨hrest, hholds⟩
  · exact .inl ⟨held, hne, hpending, hlast, hholds.terminals⟩
  · exact .inr ⟨hrest, by rw [hholds.terminals, List.map_append]; rfl⟩

/-- What is behind a statement was behind it before. -/
theorem suffix_parseStatement (h : input.Lawful) :
    input.parseStatement.rest.pending <:+ input.pending
      ∧ input.parseStatement.rest.last.token = input.last.token := by
  rcases parseStatement_cases h with ⟨taken, -, hpending, hlast, -⟩ | ⟨hrest, -⟩
  · exact ⟨⟨taken, hpending.symm⟩, by rw [hlast]⟩
  · rw [hrest]
    exact ⟨List.nil_suffix, rfl⟩

/-- The stream behind a statement is lawful. -/
theorem lawful_parseStatement (h : input.Lawful) : input.parseStatement.rest.Lawful := by
  obtain ⟨hpending, hlast⟩ := suffix_parseStatement h
  exact ⟨fun l hl => h.pending l (hpending.subset hl), hlast ▸ h.last⟩

/-- **A statement makes progress** unless nothing is left. -/
theorem weight_parseStatement_lt (h : input.Lawful) (hmore : input.isAtEnd = false) :
    input.parseStatement.rest.weight < input.weight := by
  rcases parseStatement_cases h with ⟨taken, hne, hpending, hlast, -⟩ | ⟨hrest, -⟩
  · have hlen := List.length_pos_iff.2 hne
    rw [weight, weight, hlast, hpending, List.length_append]
    omega
  · rw [isAtEnd, Bool.and_eq_false_iff] at hmore
    rw [hrest, weight, weight]
    rcases hmore with hpending | hcomments
    · have hlen := List.length_pos_iff.2 (List.isEmpty_eq_false_iff.1 hpending)
      simp only [List.length_nil, List.isEmpty_nil, if_true]
      omega
    · rw [hcomments]
      simp

/-- Statements are parsed one behind the other as long as something is left. -/
theorem parseAll_cons (h : input.Lawful) (hmore : input.isAtEnd = false) :
    input.parseAll = input.parseStatement :: input.parseStatement.rest.parseAll := by
  rw [parseAll, if_neg (by rw [hmore]; exact Bool.false_ne_true),
    dif_pos (weight_parseStatement_lt h hmore)]

theorem parseAll_nil (hend : input.isAtEnd = true) : input.parseAll = [] := by
  rw [parseAll, if_pos hend]

/-- **The statements of a stream hold its lexemes**, and the end of the input at most
behind all of them. If they do not hold it, no comments stand before it. -/
theorem holds_parseAll (h : input.Lawful) :
    ∃ held tail, List.Forall₂ ParsedStatement.Holds input.parseAll held
      ∧ held.flatten = input.pending ++ tail
      ∧ (tail = [] ∧ input.last.comments = [] ∨ tail = [input.last]) := by
  generalize hn : input.weight = n
  induction n using Nat.strongRecOn generalizing input with
  | _ n ih =>
    cases hmore : input.isAtEnd with
    | true =>
      rw [isAtEnd, Bool.and_eq_true, List.isEmpty_iff, List.isEmpty_iff] at hmore
      refine ⟨[], [], ?_, by rw [hmore.1]; rfl, .inl ⟨rfl, hmore.2⟩⟩
      rw [parseAll_nil (by rw [isAtEnd, hmore.1, hmore.2]; rfl)]
      exact .nil
    | false =>
      have hless := weight_parseStatement_lt h hmore
      rw [parseAll_cons h hmore]
      rcases parseStatement_holds h with ⟨near, -, hpending, hlast, hholds⟩ | ⟨hrest, hholds⟩
      · obtain ⟨held, tail, hall, hflatten, htail⟩ :=
          ih _ (hn ▸ hless) (lawful_parseStatement h) rfl
        refine ⟨near :: held, tail, .cons hholds hall, ?_, hlast ▸ htail⟩
        rw [List.flatten_cons, hflatten, hpending, List.append_assoc]
      · refine ⟨[input.pending ++ [input.last]], [input.last], .cons hholds ?_, ?_, .inr rfl⟩
        · rw [parseAll_nil (by rw [hrest]; rfl)]
          exact .nil
        · rw [List.flatten_cons, List.flatten_nil, List.append_nil]

/-- The tokens of statements are those of the lexemes that they hold. -/
theorem flatMap_terminals_of_holds {parsed : List ParsedStatement} {held : List (List Lexeme)}
    (h : List.Forall₂ ParsedStatement.Holds parsed held) :
    parsed.flatMap (·.statement.tree.terminals) = held.flatten.map Lexeme.token := by
  induction h with
  | nil => rfl
  | cons hholds _ ih =>
    rw [List.flatMap_cons, ih, hholds.terminals, List.flatten_cons, List.map_append]

/-- **The statements of a stream hold its tokens**, and the end of the input at
most behind all of them. -/
theorem terminals_parseAll (h : input.Lawful) :
    ∃ tail, (tail = [] ∨ tail = [input.last.token])
      ∧ input.parseAll.flatMap (·.statement.tree.terminals)
        = input.pending.map Lexeme.token ++ tail := by
  obtain ⟨held, tail, hall, hflatten, htail⟩ := holds_parseAll h
  refine ⟨tail.map Lexeme.token, ?_, ?_⟩
  · rcases htail with ⟨rfl, -⟩ | rfl
    · exact .inl rfl
    · exact .inr rfl
  · rw [flatMap_terminals_of_holds hall, hflatten, List.map_append]

/-- Every statement of a stream is the statement at the front of what is left of
it. -/
theorem exists_of_mem_parseAll (h : input.Lawful)
    {parsed : ParsedStatement} (hmem : parsed ∈ input.parseAll) :
    ∃ input' : TokenStream, input'.Lawful ∧ input'.pending <:+ input.pending
      ∧ input'.last.token = input.last.token ∧ parsed = input'.parseStatement := by
  generalize hn : input.weight = n
  induction n using Nat.strongRecOn generalizing input with
  | _ n ih =>
    cases hmore : input.isAtEnd with
    | true => rw [parseAll_nil hmore] at hmem; cases hmem
    | false =>
      rw [parseAll_cons h hmore] at hmem
      rcases List.mem_cons.1 hmem with rfl | hmem
      · exact ⟨input, h, List.suffix_refl _, rfl, rfl⟩
      · obtain ⟨hpending, hlast⟩ := suffix_parseStatement h
        obtain ⟨input', hlawful, hpending', hlast', hparsed⟩ :=
          ih _ (hn ▸ weight_parseStatement_lt h hmore) (lawful_parseStatement h) hmem rfl
        exact ⟨input', hlawful, hpending'.trans hpending, hlast'.trans hlast, hparsed⟩

/-- A statement begins with the token at the front. -/
theorem head?_terminals_parseStatement (h : input.Lawful) :
    input.parseStatement.statement.tree.terminals.head? = some input.current.token := by
  rcases parseStatement_cases h with ⟨taken, hne, hpending, -, hterminals⟩ | ⟨-, hterminals⟩
  · obtain ⟨l, rest, rfl⟩ := List.exists_cons_of_ne_nil hne
    rw [hterminals, current_cons hpending]
    rfl
  · rw [hterminals]
    cases hpending : input.pending with
    | nil =>
      rw [current_nil hpending]
      rfl
    | cons l rest =>
      rw [current_cons hpending]
      rfl

/-- **The statements behind one of a stream** are those of what is left of the stream
there. -/
theorem exists_of_getElem?_parseAll (h : input.Lawful) {i : Nat} {parsed : ParsedStatement}
    (hi : input.parseAll[i]? = some parsed) :
    ∃ input' : TokenStream, input'.Lawful ∧ parsed = input'.parseStatement
      ∧ input'.parseStatement.rest.parseAll = input.parseAll.drop (i + 1) := by
  induction i generalizing input with
  | zero =>
    cases hmore : input.isAtEnd with
    | true => rw [parseAll_nil hmore] at hi; cases hi
    | false =>
      rw [parseAll_cons h hmore] at hi ⊢
      cases hi
      exact ⟨input, h, rfl, rfl⟩
  | succ i ih =>
    cases hmore : input.isAtEnd with
    | true => rw [parseAll_nil hmore] at hi; cases hi
    | false =>
      rw [parseAll_cons h hmore] at hi ⊢
      exact ih (lawful_parseStatement h) hi

end TokenStream

end TolerantSql
