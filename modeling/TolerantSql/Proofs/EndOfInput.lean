import TolerantSql.Proofs.Confinement
import TolerantSql.Proofs.StatementBoundaries

/-!
# The end of the input is reported once

Where the input ends too early, every rule that is still open misses something, and
the report is made once for all of them. It is the last thing that the rules of a
statement say: the flag that keeps them from saying it twice is set only where nothing
is left to take, and from there on a step adds no leaf at all. `TellsEnd` states this
of a step, with the three ways in which a step can meet the end: not at all, for the
first time, or when it has been told already. Two steps behind each other combine as
the three ways suggest. A rule needs a look only for the reports that are made as they
stand, which have to come before the end (`Rule.Confined`).

A statement is closed by the token that ends it, and behind a report of the end that
token is the end of the input. One report is made without a look at the flag, though:
that there is no statement behind the words that ask for an explanation. It follows a
report of the end where these words break off, in `EXPLAIN QUERY` and nowhere else
(`State.statement_of_breaksOff`, `State.tellsEndFirst_statement`).
-/

namespace TolerantSql

/-- A leaf that reports the early end of the input. -/
def Leaf.TellsEnd (l : Leaf) : Prop := l.kind = .errorUnexpectedEof

@[simp] theorem Leaf.not_tellsEnd_token (t : Token) : ¬ (Leaf.token t).TellsEnd := nofun

@[simp] theorem Leaf.not_tellsEnd_missing (message : String) :
    ¬ (Leaf.error (.missing message)).TellsEnd := nofun

/-- Where nothing is to come, a step leaves nothing to come. -/
theorem Took.ends {taken : List Lexeme} {s : State} {out : Outcome} (h : Took taken s out)
    (hnil : s.input.pending = []) : out.state.input.pending = [] :=
  (List.append_eq_nil_iff.1 (h.pending.symm.trans hnil)).2

/-- **A state that is honest about the end of the input**: that it ended too early is
reported only where it has ended. -/
def State.Honest (s : State) : Prop := s.endReported = true → s.input.pending = []

/-- **What a step says about the end of the input.** -/
inductive TellsEnd (s : State) (out : Outcome) : Prop where
  /-- The end is not reported. -/
  | never (before : s.endReported = false) (behind : out.state.endReported = false)
    (silent : ∀ l ∈ Forest.leaves out.forest, ¬ l.TellsEnd)
  /-- The end is reported, and nothing is added behind the report. -/
  | now (before : s.endReported = false) (behind : out.state.endReported = true)
    (ended : out.state.input.pending = []) (front : List Leaf)
    (leaves : Forest.leaves out.forest = front ++ [.error .unexpectedEof])
    (silent : ∀ l ∈ front, ¬ l.TellsEnd)
  /-- The end was reported before, and nothing is added. -/
  | already (before : s.endReported = true) (behind : out.state.endReported = true)
    (leaves : Forest.leaves out.forest = [])

namespace TellsEnd

variable {s : State} {out out' : Outcome}

/-- A step that leaves the flag as it is, and adds nothing if it is set. -/
theorem of_silent (hsame : out.state.endReported = s.endReported)
    (silent : ∀ l ∈ Forest.leaves out.forest, ¬ l.TellsEnd)
    (hquiet : s.endReported = true → Forest.leaves out.forest = []) : TellsEnd s out := by
  cases hreported : s.endReported with
  | false => exact .never hreported (hsame.trans hreported) silent
  | true => exact .already hreported (hsame.trans hreported) (hquiet hreported)

theorem stay (s : State) : TellsEnd s s.stay := of_silent rfl nofun fun _ => rfl

/-- Behind a step the state is as honest as before. -/
theorem honest {taken : List Lexeme} (h : TellsEnd s out) (htook : Took taken s out)
    (hs : s.Honest) : out.state.Honest := by
  intro hreported
  cases h with
  | never _ behind _ => rw [hreported] at behind; cases behind
  | now _ _ ended _ _ _ => exact ended
  | already before _ _ => exact htook.ends (hs before)

/-- **Steps behind each other**: once the end is reported, the second one adds nothing. -/
theorem andThen (h : TellsEnd s out) (h' : TellsEnd out.state out')
    (hends : out.state.input.pending = [] → out'.state.input.pending = []) :
    TellsEnd s ⟨out.forest ++ out'.forest, out'.state⟩ := by
  cases h with
  | never before behind silent =>
    cases h' with
    | never _ behind' silent' =>
      refine .never before behind' ?_
      rw [Forest.leaves_append]
      exact List.forall_mem_append.2 ⟨silent, silent'⟩
    | now _ behind' ended front leaves silent' =>
      refine .now before behind' ended (Forest.leaves out.forest ++ front) ?_
        (List.forall_mem_append.2 ⟨silent, silent'⟩)
      rw [Forest.leaves_append, leaves, List.append_assoc]
    | already before' _ _ => rw [behind] at before'; cases before'
  | now before behind ended front leaves silent =>
    cases h' with
    | never before' _ _ | now before' _ _ _ _ _ => rw [behind] at before'; cases before'
    | already _ behind' leaves' =>
      refine .now before behind' (hends ended) front ?_ silent
      rw [Forest.leaves_append, leaves, leaves', List.append_nil]
  | already before behind leaves =>
    cases h' with
    | never before' _ _ | now before' _ _ _ _ _ => rw [behind] at before'; cases before'
    | already _ behind' leaves' =>
      refine .already before behind' ?_
      rw [Forest.leaves_append, leaves, leaves']
      rfl

/-- Gathering trees in a node keeps their leaves. -/
theorem wrap (h : TellsEnd s out) (kind : NodeKind) : TellsEnd s (out.wrap kind) := by
  have hleaves : Forest.leaves (out.wrap kind).forest = Forest.leaves out.forest := by
    simp [Outcome.wrap]
  cases h with
  | never before behind silent => exact .never before behind (by rwa [hleaves])
  | now before behind ended front leaves silent =>
    exact .now before behind ended front (by rw [hleaves, leaves]) silent
  | already before behind leaves => exact .already before behind (by rw [hleaves, leaves])

end TellsEnd

/-! ## The steps that rules are made of -/

namespace State

variable {s : State}

/-- Where something is to come, the end has not been reported. -/
theorem Honest.endReported (hhonest : s.Honest) (hs : s.input.Lawful) (hend : s.atEof = false) :
    s.endReported = false := by
  refine Bool.eq_false_iff.2 fun hreported => ?_
  rw [atEof_eq hs, hhonest hreported] at hend
  cases hend

/-- Skipping tokens reports nothing. -/
theorem endReported_takeWhile (p : Token → Bool) (s : State) :
    (s.takeWhile p).state.endReported = s.endReported := by
  rw [takeWhile_eq]

theorem endReported_takeBalanced (s : State) :
    s.takeBalanced.state.endReported = s.endReported := by
  rw [takeBalanced]
  generalize 0 = depth
  generalize s.input.pending = pending
  induction pending generalizing s depth with
  | nil => rfl
  | cons l rest ih =>
    have hgo (depth : Nat) : (s.take.andThen (takeBalanced.go depth rest)).state.endReported
        = s.endReported := ih s.take.state depth
    rw [takeBalanced.go]
    split
    · rfl
    · split
      · rfl
      · exact hgo depth
    · split
      · rfl
      · exact hgo (depth - 1)
    · exact hgo (depth + 1)
    · exact hgo depth

end State

namespace TellsEnd

variable {s : State}

/-- Tokens tell nothing about the end. -/
theorem silent_of_tokens {f : Forest} (h : ∀ t ∈ f, ∃ u, t = .token u) :
    ∀ l ∈ Forest.leaves f, ¬ l.TellsEnd := by
  intro l hl
  obtain ⟨t, ht, hlt⟩ := Forest.mem_leaves.1 hl
  obtain ⟨u, rfl⟩ := h t ht
  rw [List.mem_singleton.1 hlt]
  exact Leaf.not_tellsEnd_token u

theorem shift (hs : s.input.Lawful) (hhonest : s.Honest) : TellsEnd s s.shift := by
  rw [State.shift]
  split
  · exact stay s
  · next htakes =>
    rw [Bool.or_eq_true, not_or, Bool.not_eq_true] at htakes
    obtain ⟨l, rest, hpending⟩ := State.exists_pending hs htakes.1
    have hreported := hhonest.endReported hs (by rw [State.atEof_eq hs, hpending]; rfl)
    exact .never hreported hreported
      (silent_of_tokens fun t ht => ⟨_, List.mem_singleton.1 ht⟩)

theorem reportEnd (hs : s.input.Lawful) (hend : s.atEof = true) : TellsEnd s s.reportEnd := by
  rw [State.reportEnd]
  split
  · exact stay s
  · next hreported =>
    rw [State.atEof_eq hs, List.isEmpty_iff] at hend
    exact .now (Bool.eq_false_iff.2 hreported) rfl hend [] rfl (List.forall_mem_nil _)

/-- Before the end, an error that is about something else. -/
theorem add {e : SyntaxError} {s' : State} (hreported : s.endReported = false)
    (hsame : s'.endReported = s.endReported) (he : e.kind ≠ .errorUnexpectedEof) :
    TellsEnd s (s'.add e) := by
  refine .never hreported (hsame.trans hreported) fun l hl => ?_
  rw [List.mem_singleton.1 hl]
  exact he

theorem missing (hs : s.input.Lawful) (hhonest : s.Honest) (announced : Bool) (what : String) :
    TellsEnd s (s.missing announced what) := by
  rw [State.missing]
  split
  · next hend => exact reportEnd hs hend
  · next hend =>
    refine add (hhonest.endReported hs (Bool.eq_false_iff.2 hend)) ?_ (by rintro ⟨⟩)
    cases announced
    · rfl
    · rfl

theorem expecting (hs : s.input.Lawful) (hhonest : s.Honest) (message : String) :
    TellsEnd s (s.expecting message) := by
  rw [State.expecting]
  split
  · next hend => exact reportEnd hs hend
  · next hend =>
    exact add (hhonest.endReported hs (Bool.eq_false_iff.2 hend)) rfl (by rintro ⟨⟩)

/-- A report that is made as it stands has to come before the end. -/
theorem report (hs : s.input.Lawful) (hhonest : s.Honest) (announced : Bool) (message : String)
    (hend : announced = false → s.atEof = false) : TellsEnd s (s.report announced message) := by
  cases announced with
  | true => exact expecting hs hhonest message
  | false => exact add (hhonest.endReported hs (hend rfl)) rfl (by rintro ⟨⟩)

theorem skipUntil (hs : s.input.Lawful) (hhonest : s.Honest) (sync : Token → Bool) :
    TellsEnd s (s.skipUntil sync).2 := by
  rw [State.skipUntil]
  split_ifs with hsync hend
  · exact stay s
  · exact reportEnd hs hend
  · have hreported := hhonest.endReported hs (Bool.eq_false_iff.2 hend)
    refine wrap (.never hreported ?_ ?_) .skipped
    · exact (State.endReported_takeWhile _ s).trans hreported
    · exact silent_of_tokens (State.forest_takeWhile _ s)

theorem recover (hs : s.input.Lawful) (hhonest : s.Honest) (announced : Bool) (message : String)
    (sync : StopSet) (hend : announced = false → s.atEof = false) :
    TellsEnd s (s.recover announced message sync) := by
  have hreport := report hs hhonest announced message hend
  have htook := Took.report s announced message
  have hs' := htook.lawful hs
  rw [State.recover]
  exact hreport.andThen (skipUntil hs' (hreport.honest htook hhonest) _)
    (Took.skipUntil sync hs').ends

theorem cutOff (hs : s.input.Lawful) (hhonest : s.Honest) : TellsEnd s s.cutOff := by
  have hexpecting := expecting hs hhonest "expression nested too deeply"
  have htook := Took.expecting s "expression nested too deeply"
  have hhonest' := hexpecting.honest htook hhonest
  obtain ⟨taken, hcutOff⟩ := Took.cutOff hs
  have htokens := State.forest_takeBalanced (s.expecting "expression nested too deeply").state
  have hsame := State.endReported_takeBalanced (s.expecting "expression nested too deeply").state
  refine hexpecting.andThen (of_silent ?_ ?_ ?_) fun hnil =>
    hcutOff.ends (htook.pending.trans hnil)
  · dsimp only
    split
    · exact hsame
    · exact hsame
  · dsimp only
    split
    · exact nofun
    · rw [Outcome.wrap, Forest.leaves_cons, Forest.leaves_nil, List.append_nil]
      exact silent_of_tokens htokens
  · -- where the end has been reported, there is nothing to skip
    intro hreported
    have hstay : (s.expecting "expression nested too deeply").state.takeBalanced
        = (s.expecting "expression nested too deeply").state.stay := by
      rw [State.takeBalanced, hhonest' hreported]
      rfl
    dsimp only
    rw [hstay]
    rfl

end TellsEnd

/-! ## Rules -/

/-- What the steps of a confined rule say about the end of the input, where they begin
honestly. -/
theorem TellsEnd.invariant : ConfinedInvariant
    fun s out => (∃ taken, Took taken s out) ∧ (s.Honest → TellsEnd s out) where
  lawful := fun ⟨⟨_, htook⟩, _⟩ hs => htook.lawful hs
  stay s := ⟨Took.stepInvariant.stay s, fun _ => stay s⟩
  andThen := fun ⟨⟨_, htook⟩, h⟩ ⟨⟨_, htook'⟩, h'⟩ =>
    ⟨⟨_, htook.andThen htook'⟩, fun hhonest =>
      (h hhonest).andThen (h' ((h hhonest).honest htook hhonest)) htook'.ends⟩
  wrap := fun ⟨⟨_, htook⟩, h⟩ kind =>
    ⟨⟨_, htook.wrap kind⟩, fun hhonest => (h hhonest).wrap kind⟩
  shift s hs := ⟨Took.stepInvariant.shift s hs, shift hs⟩
  missing s announced what hs :=
    ⟨Took.stepInvariant.missing s announced what hs, fun hhonest =>
      missing hs hhonest announced what⟩
  expecting s message hs :=
    ⟨Took.stepInvariant.expecting s message hs, fun hhonest => expecting hs hhonest message⟩
  recover s announced message sync hs hend :=
    ⟨Took.stepInvariant.recover s announced message sync hs, fun hhonest =>
      recover hs hhonest announced message sync hend⟩
  cutOff s hs := ⟨Took.stepInvariant.cutOff s hs, cutOff hs⟩

/-- **What every confined rule says about the end of the input.** -/
theorem TellsEnd.rule {rule : Rule} {s : State} (hs : s.input.Lawful) (hhonest : s.Honest)
    (hrule : rule.Confined s.lookahead) : TellsEnd s (rule.parse s) :=
  (invariant.rule hs hrule).2 hhonest

/-! ## The words before a statement -/

namespace State

variable {s : State}

/-- **The input breaks off within the words that ask for an explanation.** -/
def BreaksOff (s : State) : Prop :=
  s.input.pending.map (·.token.kind) = [.keyword .EXPLAIN, .keyword .QUERY]

/-- The kinds of the tokens to come, one after the other. -/
theorem map_kind_pending_eq_cons (hs : s.input.Lawful) {kind : TokenKind} {kinds : List TokenKind}
    (hkind : kind.endsStatement = false) :
    s.input.pending.map (·.token.kind) = kind :: kinds
      ↔ s.current.kind = kind ∧ s.advance.input.pending.map (·.token.kind) = kinds := by
  cases hpending : s.input.pending with
  | nil =>
    refine ⟨nofun, fun ⟨hcurrent, _⟩ => ?_⟩
    have hend : s.atEnd = false := by rw [atEnd, hcurrent, hkind]
    obtain ⟨l, rest, hcons⟩ := exists_pending hs hend
    rw [hpending] at hcons
    cases hcons
  | cons l rest =>
    have hadvance : s.advance.input.pending = rest := pending_take hpending
    rw [current, TokenStream.current_cons hpending, hadvance, List.map_cons, List.cons.injEq]

/-- The two words are seen one behind the other, and then the end. -/
theorem breaksOff_iff (hs : s.input.Lawful) :
    s.BreaksOff ↔ s.current.kind = .keyword .EXPLAIN
      ∧ s.advance.current.kind = .keyword .QUERY ∧ s.advance.advance.atEof = true := by
  have hs' : s.advance.input.Lawful := hs.advance
  have hs'' : s.advance.advance.input.Lawful := hs'.advance
  rw [BreaksOff, map_kind_pending_eq_cons hs rfl, map_kind_pending_eq_cons hs' rfl,
    List.map_eq_nil_iff, atEof_eq hs'', List.isEmpty_iff]

/-- **The words before a statement report the end** where the input breaks off within
them, and only there. -/
theorem explain_cases (hs : s.input.Lawful) (hreported : s.endReported = false) :
    ¬ s.BreaksOff ∧ (Rule.explain.parse s).state.endReported = false
      ∨ s.BreaksOff ∧ (Rule.explain.parse s).forest
        = [.token s.current, .token s.advance.current, .error .unexpectedEof]
      ∧ (Rule.explain.parse s).state.input.pending = [] := by
  rw [breaksOff_iff hs, Rule.parse]
  obtain ⟨hexplain, hruns⟩ | ⟨hexplain, ⟨hquery, hruns⟩ | ⟨hquery, ⟨hplan, hruns⟩ | ⟨-, hruns⟩⟩⟩ :=
    explain_runs s
  · rw [hruns]
    exact .inl ⟨fun h => hexplain h.1, hreported⟩
  · rw [hruns]
    exact .inl ⟨fun h => hquery h.2.1, hreported⟩
  · rw [hruns]
    refine .inl ⟨fun h => ?_, hreported⟩
    have hend := h.2.2
    rw [atEof, Token.isEof, hplan] at hend
    cases hend
  · have hreported' : s.advance.advance.endReported = false := hreported
    rw [hruns, missing]
    split
    · next hend =>
      rw [reportEnd, hreported', if_neg Bool.false_ne_true]
      have hended : s.advance.advance.input.pending = [] := by
        have hs' : s.advance.advance.input.Lawful := hs.advance.advance
        rwa [atEof_eq hs', List.isEmpty_iff] at hend
      exact .inr ⟨⟨hexplain, hquery, hend⟩, rfl, hended⟩
    · next hend => exact .inl ⟨fun h => hend h.2.2, hreported'⟩

/-! ## Statements -/

/-- **Where the input breaks off before the statement to explain**, its absence is reported
behind the end of the input. -/
theorem statement_of_breaksOff (hs : s.input.Lawful) (hreported : s.endReported = false)
    (h : s.BreaksOff) :
    s.statement.forest = [.token s.current, .token s.advance.current, .error .unexpectedEof,
      .error (.missing "missing statement"), .token s.input.last.token] := by
  obtain ⟨hnot, -⟩ | ⟨-, hforest, hended⟩ := explain_cases hs hreported
  · exact absurd h hnot
  · obtain ⟨taken, htook⟩ := Took.rule Rule.explain hs
    obtain ⟨hexplain, -, -⟩ := (breaksOff_iff hs).1 h
    have hexplained : s.lookahead.isKeyword .EXPLAIN = true := beq_iff_eq.2 hexplain
    have hcurrent : (Rule.explain.parse s).state.current = s.input.last.token := by
      rw [current, TokenStream.current_nil hended, htook.last]
    have hkind := Token.kind_eq_eof hs.last
    have hend : (Rule.explain.parse s).state.atEnd = true := by
      rw [atEnd, hcurrent, hkind]
      rfl
    have hbody : ((Rule.explain.parse s).state.body true).forest
        = [.error (.missing "missing statement"), .token s.input.last.token] := by
      rw [body, hcurrent, hkind, hend]
      show .error (.missing "missing statement") :: (Rule.explain.parse s).state.finish.forest = _
      rw [finish, if_pos hend, take, hcurrent]
    rw [statement, Outcome.andThen, hexplained, hbody, hforest]
    rfl

/-- **A statement that tells of the end before it is over**: the token that ends it comes
behind everything that is told, and where it is left none is told. -/
def TellsEndFirst (s : State) (out : Outcome) : Prop :=
  ∃ first taken, Took taken s first ∧ TellsEnd s first
    ∧ (first.state.atEnd = true ∧ out = first.andThen take
      ∨ first.state.atEnd = false ∧ out = first)

theorem TellsEndFirst.after {out out' : Outcome} {taken : List Lexeme} (htook : Took taken s out)
    (h : TellsEnd s out) (h' : TellsEndFirst out.state out') :
    TellsEndFirst s ⟨out.forest ++ out'.forest, out'.state⟩ := by
  obtain ⟨first, taken', hfirst, htells, hout⟩ := h'
  refine ⟨⟨out.forest ++ first.forest, first.state⟩, _, htook.andThen hfirst,
    h.andThen htells hfirst.ends, ?_⟩
  obtain ⟨hend, rfl⟩ | ⟨hend, rfl⟩ := hout
  · refine .inl ⟨hend, ?_⟩
    simp only [Outcome.andThen, List.append_assoc]
  · exact .inr ⟨hend, rfl⟩

theorem tellsEndFirst_finish (hs : s.input.Lawful) (hhonest : s.Honest) :
    TellsEndFirst s s.finish := by
  rw [finish]
  split
  · next hend => exact ⟨s.stay, [], Took.stay s, .stay s, .inl ⟨hend, rfl⟩⟩
  · next hend =>
    have heof := atEof_eq_false (Bool.eq_false_iff.2 hend)
    exact ⟨_, _, Took.recover hs false "expecting ;" .terminator,
      .recover hs hhonest _ _ _ fun _ => heof,
      .inl ⟨atEnd_recover hs _ _ StopSet.endsStatement_of_terminator, rfl⟩⟩

theorem tellsEndFirst_body (hs : s.input.Lawful) (hreported : s.endReported = false)
    (explained : Bool) : TellsEndFirst s (s.body explained) := by
  have hhonest : s.Honest := by
    intro h
    rw [hreported] at h
    cases h
  have hfinish {out : Outcome} {taken : List Lexeme} (htook : Took taken s out)
      (h : TellsEnd s out) : TellsEndFirst s (out.andThen finish) :=
    .after htook h (tellsEndFirst_finish (htook.lawful hs) (h.honest htook hhonest))
  rw [body]
  split
  · next rule hrule =>
    obtain ⟨taken, htook⟩ := Took.rule rule hs
    exact hfinish htook (.rule hs hhonest (Rule.confined_ofStatementKeyword hrule _))
  · split
    · cases explained
      · exact hfinish (Took.stay s) (.stay s)
      · exact hfinish (Took.add _ s) (.add hreported rfl (by rintro ⟨⟩))
    · next hend =>
      have heof := atEof_eq_false (Bool.eq_false_iff.2 hend)
      have htook := Took.recover hs false "expecting statement" .statement
      have htells := TellsEnd.recover hs hhonest false "expecting statement" .statement
        fun _ => heof
      rw [Outcome.andThen]
      split
      · exact hfinish htook htells
      · next hstop =>
        rw [stay, List.append_nil]
        exact ⟨_, _, htook, htells, .inr ⟨Bool.eq_false_iff.2 hstop, rfl⟩⟩

/-- **The end is told before a statement is over**, unless the input breaks off before the
statement to explain. -/
theorem tellsEndFirst_statement (hs : s.input.Lawful) (hreported : s.endReported = false)
    (h : ¬ s.BreaksOff) : TellsEndFirst s s.statement := by
  obtain ⟨-, hreported'⟩ | ⟨hbreaks, -⟩ := explain_cases hs hreported
  · obtain ⟨taken, htook⟩ := Took.rule Rule.explain hs
    have hhonest : s.Honest := fun h => by
      rw [hreported] at h
      cases h
    have htells := TellsEnd.rule hs hhonest (Rule.confined_explain s.lookahead)
    exact .after htook htells (tellsEndFirst_body (htook.lawful hs) hreported' _)
  · exact absurd hbreaks h

/-- What a statement tells of the end, leaf by leaf. -/
theorem leaves_of_tellsEndFirst {out : Outcome} (h : TellsEndFirst s out) (hs : s.input.Lawful)
    (hreported : s.endReported = false) :
    (∀ l ∈ Forest.leaves out.forest, ¬ l.TellsEnd)
      ∨ ∃ trees front, out.forest = trees ++ [.token s.input.last.token]
        ∧ Forest.leaves trees = front ++ [.error .unexpectedEof] ∧ ∀ l ∈ front, ¬ l.TellsEnd := by
  obtain ⟨first, taken, htook, htells, hout⟩ := h
  cases htells with
  | already before _ _ => rw [hreported] at before; cases before
  | never _ _ silent =>
    refine .inl ?_
    obtain ⟨-, rfl⟩ | ⟨-, rfl⟩ := hout
    · rw [Outcome.andThen, Forest.leaves_append]
      exact List.forall_mem_append.2 ⟨silent, TellsEnd.silent_of_tokens fun t ht =>
        ⟨_, List.mem_singleton.1 ht⟩⟩
    · exact silent
  | now _ _ ended front leaves silent =>
    have hcurrent : first.state.current = s.input.last.token := by
      rw [current, TokenStream.current_nil ended, htook.last]
    obtain ⟨-, rfl⟩ | ⟨hend, -⟩ := hout
    · refine .inr ⟨first.forest, front, ?_, leaves, silent⟩
      rw [Outcome.andThen, take, hcurrent]
    · rw [atEnd, hcurrent, Token.kind_eq_eof hs.last] at hend
      cases hend

end State

/-- The input breaks off before the statement to explain where the statement holds the
first two words alone. -/
theorem TokenStream.breaksOff_iff_terminals {input : TokenStream} (h : input.Lawful) :
    (State.start input).BreaksOff ↔ input.parseStatement.statement.tree.terminals.map Token.kind
      = [.keyword .EXPLAIN, .keyword .QUERY, .eof] := by
  have hs : (State.start input).input.Lawful := h
  constructor
  · intro hbreaks
    obtain ⟨hexplain, hquery, -⟩ := (State.breaksOff_iff hs).1 hbreaks
    show (Forest.terminals (State.start input).statement.forest).map Token.kind = _
    rw [State.statement_of_breaksOff hs rfl hbreaks]
    show [(State.start input).current.kind, (State.start input).advance.current.kind,
      input.last.token.kind] = _
    rw [hexplain, hquery, Token.kind_eq_eof h.last]
  · intro hkinds
    obtain ⟨taken, -, hpending, -, hterminals⟩ | ⟨-, hterminals⟩ := parseStatement_cases h
    · -- the end of the input is not among the tokens to come
      rw [hterminals, List.map_map] at hkinds
      have hmem : TokenKind.eof ∈ taken.map (Token.kind ∘ Lexeme.token) := by rw [hkinds]; simp
      obtain ⟨l, hl, hkind⟩ := List.mem_map.1 hmem
      have hnot := h.pending l (hpending ▸ List.mem_append_left _ hl)
      rw [Token.isEof, show l.token.kind = .eof from hkind] at hnot
      cases hnot
    · rw [hterminals, List.map_append, List.map_map, List.map_singleton] at hkinds
      exact (List.append_inj' (hkinds.trans (List.append_assoc [_, _] [] _)) rfl).1

/-- **What is told of the end in a statement**: nothing, or that it came too early, before
the token for the end and the report of a statement that is missing where it was to be
explained. -/
theorem Statement.leaves_cases {source : String} {statement : Statement}
    (hmem : statement ∈ parse source) :
    (∀ l ∈ statement.tree.leaves, ¬ l.TellsEnd)
      ∨ ∃ trees front errors t, statement.children = trees ++ [.token t] ∧ t.isEof = true
        ∧ statement.tree.leaves
          = front ++ .error .unexpectedEof :: (errors.map Leaf.error ++ [.token t])
        ∧ (∀ l ∈ front, ¬ l.TellsEnd) ∧ (∀ l ∈ errors.map Leaf.error ++ [.token t], ¬ l.TellsEnd)
        ∧ errors = if statement.tree.terminals.map Token.kind
            = [.keyword .EXPLAIN, .keyword .QUERY, .eof]
          then [.missing "missing statement"] else [] := by
  obtain ⟨parsed, hparsed, rfl⟩ := List.mem_map.1 hmem
  obtain ⟨input, h, -, -, rfl⟩ :=
    TokenStream.exists_of_mem_parseAll (TokenStream.lawful_ofSource source) hparsed
  have hs : (State.start input).input.Lawful := h
  by_cases hbreaks : (State.start input).BreaksOff
  · have hforest := State.statement_of_breaksOff hs rfl hbreaks
    exact .inr ⟨[_, _, _, _], [.token _, .token _], [.missing "missing statement"], _, hforest,
      h.last, congrArg Forest.leaves hforest, by simp, by simp,
      (if_pos ((TokenStream.breaksOff_iff_terminals h).1 hbreaks)).symm⟩
  · have htells := State.tellsEndFirst_statement hs rfl hbreaks
    obtain hsilent | ⟨trees, front, hforest, hleaves, hfront⟩ :=
      State.leaves_of_tellsEndFirst htells hs rfl
    · exact .inl hsilent
    · refine .inr ⟨trees, front, [], _, hforest, h.last, ?_, hfront, by simp,
        (if_neg fun hkinds => hbreaks ((TokenStream.breaksOff_iff_terminals h).2 hkinds)).symm⟩
      show Forest.leaves (State.start input).statement.forest = _
      rw [hforest, Forest.leaves_append, hleaves, List.append_assoc]
      rfl

/-- What stands behind a report of the end. -/
theorem Statement.exists_of_leaves_eq {source : String} {statement : Statement}
    (hmem : statement ∈ parse source) {before after : List Leaf} {report : Leaf}
    (hleaves : statement.tree.leaves = before ++ report :: after) (hreport : report.TellsEnd) :
    ∃ trees errors t, statement.children = trees ++ [.token t] ∧ t.isEof = true
      ∧ after = errors.map Leaf.error ++ [.token t]
      ∧ errors = if statement.tree.terminals.map Token.kind
          = [.keyword .EXPLAIN, .keyword .QUERY, .eof]
        then [.missing "missing statement"] else [] := by
  obtain hsilent | ⟨trees, front, errors, t, hchildren, ht, hsplit, hfront, hbehind, herrors⟩ :=
    Statement.leaves_cases hmem
  · exact absurd hreport (hsilent _ (hleaves ▸ List.mem_append_right _ List.mem_cons_self))
  · -- there is one report of the end, so the two splittings are one
    obtain ⟨-, -, hafter⟩ := (List.append_cons_inj_of_notMem (fun hl => hfront _ hl hreport)
      (fun hl => hbehind _ hl hreport)).1 (hsplit.symm.trans hleaves)
    exact ⟨trees, errors, t, hchildren, ht, hafter.symm, herrors⟩

/-- **The early end of the input is reported once.** A statement has at most one report of
it; and if it has one, its root ends with the token for the end of the input, and
behind the report there is no other token. -/
theorem parse_reports_end_once (source : String) (statement : Statement)
    (hmem : statement ∈ parse source) :
    statement.tree.leaves.countP (·.kind == .errorUnexpectedEof) ≤ 1
    ∧ ∀ (before after : List Leaf) (report : Leaf),
      statement.tree.leaves = before ++ report :: after → report.kind = .errorUnexpectedEof →
      ∃ front t, statement.children = front ++ [.token t] ∧ t.isEof = true
        ∧ after.filter (·.kind == .token) = [.token t] := by
  refine ⟨?_, fun before after report hleaves hreport => ?_⟩
  · have hnone {leaves : List Leaf} (h : ∀ l ∈ leaves, ¬ l.TellsEnd) :
        leaves.countP (·.kind == .errorUnexpectedEof) = 0 :=
      List.countP_eq_zero.2 fun l hl htells => h l hl (beq_iff_eq.1 htells)
    obtain hsilent | ⟨-, front, errors, t, -, -, hsplit, hfront, hbehind, -⟩ :=
      Statement.leaves_cases hmem
    · rw [hnone hsilent]
      exact Nat.zero_le 1
    · rw [hsplit, List.countP_append, List.countP_cons, hnone hfront, hnone hbehind]
      exact Nat.le_refl 1
  · obtain ⟨trees, errors, t, hchildren, ht, rfl, herrors⟩ :=
      Statement.exists_of_leaves_eq hmem hleaves hreport
    refine ⟨trees, t, hchildren, ht, ?_⟩
    have herror : ∀ l ∈ errors.map Leaf.error, ¬ (l.kind == .token) = true := by
      rintro l hl
      obtain ⟨⟨diagnostic, message⟩, -, rfl⟩ := List.mem_map.1 hl
      cases diagnostic <;> exact Bool.false_ne_true
    rw [List.filter_append, List.filter_eq_nil_iff.2 herror]
    rfl

/-- Three rules are open where this text breaks off, within a type name in a cast in a
column, and the end is reported once. -/
theorem parse_reports_end_once_cast :
    ∃ statement ∈ parse "SELECT a, CAST(b AS", ∃ before report after,
      statement.tree.leaves = before ++ report :: after ∧ report.kind = .errorUnexpectedEof
      ∧ statement.tree.leaves.countP (·.kind == .errorUnexpectedEof) ≤ 1
      ∧ ∃ front t, statement.children = front ++ [.token t] ∧ t.isEof = true
        ∧ after.filter (·.kind == .token) = [.token t] := by
  have hreports : (parse "SELECT a, CAST(b AS").any (fun statement =>
      statement.tree.leaves.any (·.kind == .errorUnexpectedEof)) = true := by
    decide +kernel
  obtain ⟨statement, hmem, hany⟩ := List.any_eq_true.1 hreports
  obtain ⟨report, hreport, hkind⟩ := List.any_eq_true.1 hany
  obtain ⟨before, after, hleaves⟩ := List.append_of_mem hreport
  obtain ⟨hcount, hends⟩ := parse_reports_end_once _ statement hmem
  exact ⟨statement, hmem, before, report, after, hleaves, beq_iff_eq.1 hkind, hcount,
    hends before after report hleaves (beq_iff_eq.1 hkind)⟩

/-- **Once the early end of the input is reported, nothing else is**, in all statements but
one: where the input breaks off behind `EXPLAIN QUERY`, the statement to explain is
reported as missing behind the end of the input. -/
theorem parse_quiet_after_end (source : String) (statement : Statement)
    (hmem : statement ∈ parse source) (before after : List Leaf) (report : Leaf)
    (hleaves : statement.tree.leaves = before ++ report :: after)
    (hreport : report.kind = .errorUnexpectedEof) :
    after.filterMap Leaf.error? = if statement.tree.terminals.map Token.kind
        = [.keyword .EXPLAIN, .keyword .QUERY, .eof]
      then [.missing "missing statement"] else [] := by
  obtain ⟨trees, errors, t, -, -, rfl, herrors⟩ :=
    Statement.exists_of_leaves_eq hmem hleaves hreport
  rw [← herrors, List.filterMap_append, List.filterMap_map]
  exact (List.append_nil _).trans List.filterMap_some

/-- Behind `EXPLAIN QUERY PLAN`, a query that breaks off has no report behind that of the end. -/
theorem parse_quiet_after_end_select :
    ∃ statement ∈ parse "EXPLAIN QUERY PLAN SELECT (a +", ∃ before report after,
      statement.tree.leaves = before ++ report :: after ∧ report.kind = .errorUnexpectedEof
      ∧ after.filterMap Leaf.error? = [] := by
  have hreports : (parse "EXPLAIN QUERY PLAN SELECT (a +").any (fun statement =>
      statement.tree.leaves.any (·.kind == .errorUnexpectedEof)
        && statement.tree.terminals.map Token.kind
          != [.keyword .EXPLAIN, .keyword .QUERY, .eof]) = true := by
    decide +kernel
  obtain ⟨statement, hmem, hstatement⟩ := List.any_eq_true.1 hreports
  rw [Bool.and_eq_true, bne_iff_ne] at hstatement
  obtain ⟨report, hreport, hkind⟩ := List.any_eq_true.1 hstatement.1
  obtain ⟨before, after, hleaves⟩ := List.append_of_mem hreport
  have hquiet := parse_quiet_after_end _ statement hmem before after report hleaves
    (beq_iff_eq.1 hkind)
  rw [if_neg hstatement.2] at hquiet
  exact ⟨statement, hmem, before, report, after, hleaves, beq_iff_eq.1 hkind, hquiet⟩

/-- Behind `EXPLAIN QUERY`, a report follows that of the end. -/
theorem parse_reports_behind_end :
    ∃ statement ∈ parse "EXPLAIN QUERY", ∃ before report after,
      statement.tree.leaves = before ++ report :: after ∧ report.kind = .errorUnexpectedEof
      ∧ after.filterMap Leaf.error? = [.missing "missing statement"] := by
  have hreports : (parse "EXPLAIN QUERY").any (fun statement =>
      statement.tree.leaves.any (·.kind == .errorUnexpectedEof)
        && statement.tree.terminals.map Token.kind
          == [.keyword .EXPLAIN, .keyword .QUERY, .eof]) = true := by
    decide +kernel
  obtain ⟨statement, hmem, hstatement⟩ := List.any_eq_true.1 hreports
  rw [Bool.and_eq_true, beq_iff_eq] at hstatement
  obtain ⟨report, hreport, hkind⟩ := List.any_eq_true.1 hstatement.1
  obtain ⟨before, after, hleaves⟩ := List.append_of_mem hreport
  obtain ⟨trees, errors, t, -, -, hafter, herrors⟩ :=
    Statement.exists_of_leaves_eq hmem hleaves (beq_iff_eq.1 hkind)
  rw [if_pos hstatement.2] at herrors
  refine ⟨statement, hmem, before, report, after, hleaves, beq_iff_eq.1 hkind, ?_⟩
  rw [hafter, herrors]
  rfl

end TolerantSql
