import Mathlib.Tactic.SplitIfs
import TolerantSql.Proofs.Confinement
import TolerantSql.Proofs.TakenTokens
import TolerantSql.Statement

/-!
# Statements cannot tell parallel inputs apart

Rules see the kinds of tokens and the words they spell. A `Relabelling` changes what
rules do not see: where tokens stand, and which comments come before them. Two states
are `Parallel` when what is to come is the same up to a relabelling as far as a
statement reaches, which is the end of the input or the next semicolon; what follows
may differ in any way.

Rules see what follows, too, so from parallel states they see the same only up to the
end of the statement. A rule that keeps to its statement takes corresponding tokens
there and builds corresponding trees (`Simulates.rule`), and a whole statement does,
since the rules of the grammar are of that kind (`concur_statement`). Repetitions and
nonterminals need care, because they go on only if a token was taken, which is decided
by how many are to come: the two numbers differ, but by an amount that does not change.
-/

namespace TolerantSql

/-! ## Forests -/

namespace Forest

variable (f : Token → Token)

theorem mapTokens_append (g h : Forest) :
    mapTokens f (g ++ h) = mapTokens f g ++ mapTokens f h := by
  induction g with
  | nil => rfl
  | cons t g ih => rw [List.cons_append, mapTokens, ih, mapTokens, List.cons_append]

theorem mapTokens_isEmpty (g : Forest) : (mapTokens f g).isEmpty = g.isEmpty := by
  cases g <;> rfl

end Forest

/-! ## Relabelling -/

/-- **A change of tokens that no rule can notice**: kinds stay, and so do words up
to the case of letters. With the tokens go the comments before them and those
that are filed. -/
structure Relabelling where
  token : Token → Token
  comments : List Token → List Token
  filed : CommentMap → CommentMap
  kind_token : ∀ t, (token t).kind = t.kind
  word_token : ∀ t, (token t).text.toUpper = t.text.toUpper
  comments_nil : comments [] = []
  filed_empty : filed .empty = .empty
  filed_insert : ∀ m t cs, filed (m.insert t cs) = (filed m).insert (token t) (comments cs)

/-- Lexemes in front of a stream. -/
def TokenStream.prepend (tail : TokenStream) (near : List Lexeme) : TokenStream :=
  ⟨near ++ tail.pending, tail.last⟩

namespace Relabelling

/-- Changing nothing. -/
def id : Relabelling where
  token t := t
  comments cs := cs
  filed m := m
  kind_token _ := rfl
  word_token _ := rfl
  comments_nil := rfl
  filed_empty := rfl
  filed_insert _ _ _ := rfl

/-- Forgetting where tokens stand and which comments come before them. -/
def erase : Relabelling where
  token t := { t with span := .empty 0 }
  comments _ := []
  filed _ := .empty
  kind_token _ := rfl
  word_token _ := rfl
  comments_nil := rfl
  filed_empty := rfl
  filed_insert _ _ _ := rfl

variable (ρ : Relabelling) (tail tail' : TokenStream)

/-- A lexeme with its token and comments changed. -/
def lexeme (l : Lexeme) : Lexeme := ⟨ρ.token l.token, ρ.comments l.comments⟩

/-- Two streams of which nothing is left but the end of the input. -/
structure Ends : Prop where
  pending : tail.pending = []
  pending' : tail'.pending = []
  last : tail'.last = ρ.lexeme tail.last
  eof : tail.last.token.kind = .eof

/-- **Two states that a statement cannot tell apart.** What is to come is the same
up to the change of tokens as far as the statement can see: to the end of the
input, or past the next semicolon. -/
structure Parallel (near : List Lexeme) (s s' : State) : Prop where
  input : s.input = tail.prepend near
  input' : s'.input = tail'.prepend (near.map ρ.lexeme)
  proper : ∀ l ∈ near, l.token.isEof = false
  bounded : ρ.Ends tail tail' ∨ ∃ l ∈ near, l.token.kind = .semicolon
  filed : s'.comments = ρ.filed s.comments
  reported : s'.endReported = s.endReported

/-- Two outcomes that differ by the change of tokens alone. -/
def Agree (near : List Lexeme) (out out' : Outcome) : Prop :=
  out'.forest = Forest.mapTokens ρ.token out.forest
    ∧ ∃ near₂, near₂ <:+ near ∧ ρ.Parallel tail tail' near₂ out.state out'.state

/-- **Two steps that do the same** wherever the states are parallel. -/
def Simulates (step step' : Parse) : Prop :=
  ∀ near s s', ρ.Parallel tail tail' near s s' → ρ.Agree tail tail' near (step s) (step' s')

variable {ρ tail tail'} {near : List Lexeme} {s s' : State} {out out' : Outcome}

namespace Parallel

/-- The current lexemes differ by the change alone. -/
theorem current (h : ρ.Parallel tail tail' near s s') :
    s'.input.current = ρ.lexeme s.input.current := by
  rw [h.input, h.input']
  cases near with
  | cons l near => rfl
  | nil =>
    rcases h.bounded with hends | ⟨l, hl, -⟩
    · have hnil : (tail.prepend []).pending = [] := hends.pending
      have hnil' : (tail'.prepend (List.map ρ.lexeme [])).pending = [] := hends.pending'
      rw [TokenStream.current_nil hnil, TokenStream.current_nil hnil']
      exact hends.last
    · cases hl

theorem token_current (h : ρ.Parallel tail tail' near s s') :
    s'.current = ρ.token s.current := by
  rw [State.current, h.current]
  rfl

theorem kind_current (h : ρ.Parallel tail tail' near s s') : s'.current.kind = s.current.kind := by
  rw [h.token_current, ρ.kind_token]

theorem atEnd (h : ρ.Parallel tail tail' near s s') : s'.atEnd = s.atEnd := by
  rw [State.atEnd, h.kind_current, State.atEnd]

theorem atEof (h : ρ.Parallel tail tail' near s s') : s'.atEof = s.atEof := by
  rw [State.atEof, Token.isEof, h.kind_current, State.atEof, Token.isEof]

/-- Behind a lexeme that is no semicolon the states are still parallel. -/
theorem advance_cons {l : Lexeme} (h : ρ.Parallel tail tail' (l :: near) s s')
    (hl : l.token.kind.endsStatement = false) :
    ρ.Parallel tail tail' near s.advance s'.advance where
  input := by rw [State.advance, h.input]; rfl
  input' := by rw [State.advance, h.input']; rfl
  proper := fun l' hl' => h.proper l' (List.mem_cons_of_mem l hl')
  bounded := by
    rcases h.bounded with hends | ⟨l', hl', hkind⟩
    · exact .inl hends
    · rcases List.mem_cons.1 hl' with rfl | hl'
      · rw [hkind] at hl
        cases hl
      · exact .inr ⟨l', hl', hkind⟩
  filed := by
    rw [State.advance, State.advance, h.filed, h.token_current, h.current, ρ.filed_insert]
    rfl
  reported := h.reported

/-- Where the statement goes on, there is a lexeme before the end of both. -/
theorem exists_cons (h : ρ.Parallel tail tail' near s s') (hend : s.atEnd = false) :
    ∃ l near₂, near = l :: near₂ ∧ l.token.kind.endsStatement = false := by
  rw [State.atEnd, State.current, h.input] at hend
  cases near with
  | cons l near₂ => exact ⟨l, near₂, rfl, hend⟩
  | nil =>
    rcases h.bounded with hends | ⟨l, hl, -⟩
    · have hnil : (tail.prepend []).pending = [] := hends.pending
      rw [TokenStream.current_nil hnil] at hend
      replace hend : tail.last.token.kind.endsStatement = false := hend
      rw [hends.eof] at hend
      cases hend
    · cases hl

/-- Behind a token that does not end the statement the states are still
parallel. -/
theorem advance (h : ρ.Parallel tail tail' near s s') (hend : s.atEnd = false) :
    ∃ near₂, near₂ <:+ near ∧ ρ.Parallel tail tail' near₂ s.advance s'.advance := by
  obtain ⟨l, near₂, rfl, hl⟩ := h.exists_cons hend
  exact ⟨near₂, List.suffix_cons l near₂, h.advance_cons hl⟩

/-- **Rules see the same in parallel states**, up to the end of the statement. -/
theorem lookahead (h : ρ.Parallel tail tail' near s s') :
    s.lookahead.Agrees s'.lookahead where
  current := h.kind_current
  word := by
    show s'.current.text.toUpper = s.current.text.toUpper
    rw [h.token_current, ρ.word_token]
  next hend := by
    obtain ⟨near₁, -, h₁⟩ := h.advance hend
    exact h₁.kind_current
  afterNext hend hend₁ := by
    obtain ⟨near₁, -, h₁⟩ := h.advance hend
    obtain ⟨near₂, -, h₂⟩ := h₁.advance hend₁
    exact h₂.kind_current

/-- The numbers of tokens to come differ by a fixed amount. -/
theorem remaining (h : ρ.Parallel tail tail' near s s') :
    s.remaining + tail'.pending.length = s'.remaining + tail.pending.length := by
  rw [State.remaining, State.remaining, h.input, h.input', TokenStream.prepend,
    TokenStream.prepend, List.length_append, List.length_append, List.length_map]
  omega

end Parallel

/-! ## Steps -/

namespace Agree

theorem trans {near₂ : List Lexeme} (h : ρ.Agree tail tail' near₂ out out')
    (hnear : near₂ <:+ near) : ρ.Agree tail tail' near out out' := by
  obtain ⟨hforest, near₃, hnear', hparallel⟩ := h
  exact ⟨hforest, near₃, hnear'.trans hnear, hparallel⟩

/-- Outcomes that add the same. -/
theorem of_parallel (hparallel : ρ.Parallel tail tail' near out.state out'.state)
    (hforest : out'.forest = Forest.mapTokens ρ.token out.forest) :
    ρ.Agree tail tail' near out out' :=
  ⟨hforest, near, List.suffix_refl near, hparallel⟩

/-- Steps that do the same behind outcomes that agree. -/
theorem andThen_of {step step' : Parse} (h : ρ.Agree tail tail' near out out')
    (hstep : ∀ near s', ρ.Parallel tail tail' near out.state s' →
      ρ.Agree tail tail' near (step out.state) (step' s')) :
    ρ.Agree tail tail' near (out.andThen step) (out'.andThen step') := by
  obtain ⟨hforest, near₂, hnear, hparallel⟩ := h
  obtain ⟨hforest', near₃, hnear', hparallel'⟩ := hstep near₂ _ hparallel
  refine ⟨?_, near₃, hnear'.trans hnear, hparallel'⟩
  rw [Outcome.andThen, Outcome.andThen, Forest.mapTokens_append, hforest, hforest']

theorem andThen {step step' : Parse} (h : ρ.Agree tail tail' near out out')
    (hstep : ρ.Simulates tail tail' step step') :
    ρ.Agree tail tail' near (out.andThen step) (out'.andThen step') :=
  h.andThen_of fun near s' => hstep near out.state s'

theorem wrap (h : ρ.Agree tail tail' near out out') (kind : NodeKind) :
    ρ.Agree tail tail' near (out.wrap kind) (out'.wrap kind) := by
  obtain ⟨hforest, hstate⟩ := h
  refine ⟨?_, hstate⟩
  rw [Outcome.wrap, Outcome.wrap, hforest]
  rfl

/-- What is logged does not matter. -/
theorem logging (h : ρ.Agree tail tail' near out out') (event event' : Event) :
    ρ.Agree tail tail' near ⟨out.forest, out.state.logging event⟩
      ⟨out'.forest, out'.state.logging event'⟩ := by
  obtain ⟨hforest, near₂, hnear, h⟩ := h
  exact ⟨hforest, near₂, hnear, h.input, h.input', h.proper, h.bounded, h.filed, h.reported⟩

/-- Whether a step took a token is the same in both. -/
theorem remaining_lt (hout : ρ.Agree tail tail' near out out')
    (h : ρ.Parallel tail tail' near s s') :
    out'.state.remaining < s'.remaining ↔ out.state.remaining < s.remaining := by
  obtain ⟨-, near₂, -, h₂⟩ := hout
  have := h.remaining
  have := h₂.remaining
  omega

/-- Whether a list goes on is the same in both. -/
theorem listWeight_lt {phase phase' : State.ListPhase} (hout : ρ.Agree tail tail' near out out')
    (h : ρ.Parallel tail tail' near s s') :
    State.listWeight phase' out'.state < State.listWeight phase s'
      ↔ State.listWeight phase' out.state < State.listWeight phase s := by
  obtain ⟨-, near₂, -, h₂⟩ := hout
  have := h.remaining
  have := h₂.remaining
  unfold State.listWeight
  omega

end Agree

namespace Simulates

theorem stay : ρ.Simulates tail tail' State.stay State.stay :=
  fun _ _ _ h => .of_parallel h rfl

theorem take (h : ρ.Parallel tail tail' near s s') (hend : s.atEnd = false) :
    ρ.Agree tail tail' near s.take s'.take := by
  obtain ⟨near₂, hnear, hparallel⟩ := h.advance hend
  refine ⟨?_, near₂, hnear, hparallel⟩
  rw [State.take, State.take, h.token_current]
  rfl

theorem shift : ρ.Simulates tail tail' State.shift State.shift := by
  intro near s s' h
  rw [State.shift, State.shift, h.atEnd, h.kind_current]
  split
  · exact stay near s s' h
  · next hends =>
    rw [Bool.or_eq_true, not_or, Bool.not_eq_true] at hends
    exact take h hends.1

theorem reportEnd : ρ.Simulates tail tail' State.reportEnd State.reportEnd := by
  intro near s s' h
  rw [State.reportEnd, State.reportEnd, h.reported]
  split
  · exact stay near s s' h
  · exact .of_parallel ⟨h.input, h.input', h.proper, h.bounded, h.filed, rfl⟩ rfl

theorem missing (announced : Bool) (what : String) :
    ρ.Simulates tail tail' (State.missing announced what) (State.missing announced what) := by
  intro near s s' h
  rw [State.missing, State.missing, h.atEof]
  split
  · exact reportEnd near s s' h
  · refine .of_parallel ?_ rfl
    cases announced
    · exact h
    · exact ⟨h.input, h.input', h.proper, h.bounded, h.filed, h.reported⟩

theorem add (e : SyntaxError) : ρ.Simulates tail tail' (State.add e) (State.add e) :=
  fun _ _ _ h => .of_parallel h rfl

theorem expecting (message : String) :
    ρ.Simulates tail tail' (State.expecting message) (State.expecting message) := by
  intro near s s' h
  rw [State.expecting, State.expecting, h.atEof]
  split
  · exact reportEnd near s s' h
  · exact .of_parallel ⟨h.input, h.input', h.proper, h.bounded, h.filed, h.reported⟩ rfl

theorem report (announced : Bool) (message : String) :
    ρ.Simulates tail tail' (State.report announced message) (State.report announced message) := by
  cases announced
  · exact add _
  · exact expecting message

/-- Taking a lexeme and going on behind it. -/
theorem take_andThen {l : Lexeme} {step step' : Parse}
    (h : ρ.Parallel tail tail' (l :: near) s s') (hl : l.token.kind.endsStatement = false)
    (hstep : ∀ s s', ρ.Parallel tail tail' near s s' →
      ρ.Agree tail tail' near (step s) (step' s')) :
    ρ.Agree tail tail' (l :: near) (s.take.andThen step) (s'.take.andThen step') := by
  obtain ⟨hforest, hstate⟩ := (hstep _ _ (h.advance_cons hl)).trans (List.suffix_cons l near)
  refine ⟨?_, hstate⟩
  show [Tree.token s'.current] ++ _ = Forest.mapTokens ρ.token ([Tree.token s.current] ++ _)
  rw [Forest.mapTokens_append, h.token_current]
  exact congrArg _ hforest

/-- Taking tokens by their kinds, up to the semicolon at most. -/
theorem takeWhile {p : TokenKind → Bool} (hp : p .semicolon = false) :
    ρ.Simulates tail tail' (State.takeWhile fun t => p t.kind)
      (State.takeWhile fun t => p t.kind) := by
  intro near s s' h
  rw [State.takeWhile, State.takeWhile, h.input, h.input', TokenStream.prepend,
    TokenStream.prepend]
  dsimp only
  induction near generalizing s s' with
  | nil =>
    rcases h.bounded with hends | ⟨l, hl, -⟩
    · rw [hends.pending, List.map_nil, hends.pending']
      exact stay [] s s' h
    · cases hl
  | cons l near ih =>
    rw [List.map_cons, List.cons_append, List.cons_append, State.takeWhile.go,
      State.takeWhile.go, show (ρ.lexeme l).token.kind = l.token.kind from ρ.kind_token _]
    split
    · next hl =>
      have hne : l.token.kind ≠ .semicolon := fun hkind => by
        rw [hkind, hp] at hl
        cases hl
      have hproper := h.proper l List.mem_cons_self
      exact take_andThen h (Token.endsStatement_eq_false hproper hne) ih
    · exact stay _ s s' h

theorem skipUntil (sync : StopSet) :
    ρ.Simulates tail tail' (fun s => (s.skipUntil fun t => sync t.kind).2)
      (fun s => (s.skipUntil fun t => sync t.kind).2) := by
  intro near s s' h
  have htake := takeWhile (p := fun kind => !sync kind) sync.not_semicolon near s s' h
  simp only [State.skipUntil, h.kind_current, h.atEof]
  split_ifs
  · exact stay near s s' h
  · exact reportEnd near s s' h
  · exact (htake.logging _ _).wrap .skipped

theorem recover (announced : Bool) (message : String) (sync : StopSet) :
    ρ.Simulates tail tail' (State.recover announced message sync)
      (State.recover announced message sync) := fun near s s' h =>
  (report announced message near s s' h).andThen (skipUntil sync)

theorem takeBalanced : ρ.Simulates tail tail' State.takeBalanced State.takeBalanced := by
  intro near s s' h
  rw [State.takeBalanced, State.takeBalanced, h.input, h.input', TokenStream.prepend,
    TokenStream.prepend]
  dsimp only
  generalize 0 = depth
  induction near generalizing s s' depth with
  | nil =>
    rcases h.bounded with hends | ⟨l, hl, -⟩
    · rw [hends.pending, List.map_nil, hends.pending']
      exact stay [] s s' h
    · cases hl
  | cons l near ih =>
    have hinside : l.token.kind ≠ .semicolon → l.token.kind.endsStatement = false :=
      Token.endsStatement_eq_false (h.proper l List.mem_cons_self)
    rw [List.map_cons, List.cons_append, List.cons_append, State.takeBalanced.go,
      State.takeBalanced.go, show (ρ.lexeme l).token.kind = l.token.kind from ρ.kind_token _]
    split
    · exact stay _ s s' h
    · next hkind =>
      split
      · exact stay _ s s' h
      · exact take_andThen h (hinside (by rw [hkind]; simp)) fun _ _ h => ih _ _ h depth
    · next hkind =>
      split
      · exact stay _ s s' h
      · exact take_andThen h (hinside (by rw [hkind]; simp)) fun _ _ h => ih _ _ h (depth - 1)
    · next hkind =>
      exact take_andThen h (hinside (by rw [hkind]; simp)) fun _ _ h => ih _ _ h (depth + 1)
    · next hne _ _ _ => exact take_andThen h (hinside hne) fun _ _ h => ih _ _ h depth

theorem cutOff : ρ.Simulates tail tail' State.cutOff State.cutOff := by
  intro near s s' h
  refine (expecting _ near s s' h).andThen fun near s s' h => ?_
  have htake := takeBalanced near s s' h
  generalize s.takeBalanced = out at htake
  generalize s'.takeBalanced = out' at htake
  have hempty : out'.forest.isEmpty = out.forest.isEmpty := by
    rw [htake.1, Forest.mapTokens_isEmpty]
  dsimp only
  rw [hempty]
  split
  · exact ⟨rfl, (htake.logging _ _).2⟩
  · exact (htake.logging _ _).wrap .skipped

/-! ## Repetition -/

/-- A repetition, if its condition is settled. -/
theorem repeatWhile {continues : Lookahead → Bool} {body body' : Parse}
    (hcontinues : ∀ v : Lookahead, v.Settles continues)
    (hbody : ρ.Simulates tail tail' body body') :
    ρ.Simulates tail tail' (State.repeatWhile continues body)
      (State.repeatWhile continues body') := by
  intro near s
  induction s using State.repeatWhile.induct continues body generalizing near with
  | case1 s hmore out hless ih =>
    intro s' h
    have hout := hbody near s s' h
    have hmore' := (hcontinues _ _ h.lookahead).trans hmore
    rw [State.repeatWhile_of_progress hmore hless,
      State.repeatWhile_of_progress hmore' ((hout.remaining_lt h).2 hless)]
    exact hout.andThen_of ih
  | case2 s hmore out hless =>
    -- the other run is stuck here too, since the numbers to come differ by a constant
    intro s' h
    have hout := hbody near s s' h
    have hmore' := (hcontinues _ _ h.lookahead).trans hmore
    rw [State.repeatWhile_of_stuck hmore hless,
      State.repeatWhile_of_stuck hmore' fun hless' => hless ((hout.remaining_lt h).1 hless')]
    exact hout
  | case3 s hstop =>
    intro s' h
    replace hstop := Bool.eq_false_iff.2 hstop
    rw [State.repeatWhile_of_stop hstop,
      State.repeatWhile_of_stop ((hcontinues _ _ h.lookahead).trans hstop)]
    exact stay near s s' h

/-- Tokens that a list passes over, and whether it goes on behind them. -/
theorem listSkip (shape : State.ListShape) (phase : State.ListPhase) (message : String)
    (h : ρ.Parallel tail tail' near s s') :
    ρ.Agree tail tail' near (State.listSkip shape phase message s).1
        (State.listSkip shape phase message s').1
      ∧ (State.listSkip shape phase message s').2 = (State.listSkip shape phase message s).2 := by
  have hrecover := recover false message shape.resumes near s s' h
  obtain ⟨near₂, -, hparallel⟩ := hrecover.2
  refine ⟨hrecover, ?_⟩
  rw [State.listSkip, State.listSkip]
  dsimp only
  rw [hparallel.kind_current]

/-- One round of a list, and the phase in which it goes on. -/
theorem listRound (shape : State.ListShape) {item item' : Parse}
    (hitem : ρ.Simulates tail tail' item item') (phase : State.ListPhase)
    (h : ρ.Parallel tail tail' near s s') :
    ρ.Agree tail tail' near (State.listRound shape item phase s).1
        (State.listRound shape item' phase s').1
      ∧ (State.listRound shape item' phase s').2 = (State.listRound shape item phase s).2 := by
  cases phase with
  | item =>
    simp only [State.listRound, h.kind_current, h.atEof]
    split_ifs with hcomma
    · have hcomma' : s'.current.kind = .comma := h.kind_current.trans (beq_iff_eq.1 hcomma)
      rw [State.missing_take_comma (beq_iff_eq.1 hcomma), State.missing_take_comma hcomma']
      exact ⟨(missing true _ near s s' h).andThen shift, rfl⟩
    · exact ⟨hitem near s s' h, rfl⟩
    · exact ⟨missing true _ near s s' h, rfl⟩
    · exact listSkip shape _ _ h
  | separator =>
    simp only [State.listRound, h.kind_current, h.atEof]
    split_ifs with hcomma
    · refine ⟨take h ?_, rfl⟩
      rw [State.atEnd, beq_iff_eq.1 hcomma]
      rfl
    · exact ⟨stay near s s' h, rfl⟩
    · exact ⟨add _ near s s' h, rfl⟩
    · exact listSkip shape _ _ h

theorem listRounds (shape : State.ListShape) {item item' : Parse}
    (hitem : ρ.Simulates tail tail' item item') (phase : State.ListPhase) :
    ρ.Simulates tail tail' (State.listRounds shape item phase)
      (State.listRounds shape item' phase) := by
  intro near s
  induction phase, s using State.listRounds.induct shape item generalizing near with
  | case1 phase s out hround =>
    intro s' h
    obtain ⟨hout, hphase⟩ := listRound shape hitem phase h
    rw [hround] at hout hphase
    rw [State.listRounds_of_last hround, State.listRounds_of_last (Prod.ext rfl hphase)]
    exact hout
  | case2 phase s out phase' hround hless ih =>
    intro s' h
    obtain ⟨hout, hphase⟩ := listRound shape hitem phase h
    rw [hround] at hout hphase
    rw [State.listRounds_of_progress hround hless,
      State.listRounds_of_progress (Prod.ext rfl hphase) ((hout.listWeight_lt h).2 hless)]
    exact hout.andThen_of ih
  | case3 phase s out phase' hround hless =>
    intro s' h
    obtain ⟨hout, hphase⟩ := listRound shape hitem phase h
    rw [hround] at hout hphase
    rw [State.listRounds_of_stuck hround hless,
      State.listRounds_of_stuck (Prod.ext rfl hphase)
        fun hless' => hless ((hout.listWeight_lt h).1 hless')]
    exact hout

/-! ## Rules -/

/-- **A rule that keeps to its statement does the same in parallel states**, if the
nonterminals do. -/
theorem run {goals goals' : Nat → Nonterminal → Parse}
    (hgoals : ∀ depth goal, ρ.Simulates tail tail' (goals depth goal) (goals' depth goal))
    (depth : Nat) {rule : Rule} (h : ρ.Parallel tail tail' near s s')
    (hrule : rule.Confined s.lookahead) :
    ρ.Agree tail tail' near (rule.run goals depth s) (rule.run goals' depth s') := by
  induction rule generalizing near s s' with
  | done => exact stay near s s' h
  | seq first second ih₁ ih₂ =>
    exact (ih₁ h hrule.1).andThen fun _ _ _ h' => ih₂ h' (hrule.2 _)
  | look choose ih =>
    -- both runs choose the same rule, since the choice is settled
    rw [Rule.run, Rule.run]
    dsimp only
    rw [hrule.1 _ h.lookahead]
    exact ih s.lookahead h hrule.2
  | shift => exact shift near s s' h
  | missing announced what => exact missing announced what near s s' h
  | expecting message => exact expecting message near s s' h
  | recover announced message sync => exact recover announced message sync near s s' h
  | node kind body ih => exact (ih h hrule).wrap kind
  | chain kind operand continues link ih₁ ih₂ =>
    obtain ⟨hoperand, hcontinues, hlink⟩ := hrule
    have hfirst := ih₁ h hoperand
    -- whether there is a link is decided behind the operand
    obtain ⟨near₂, -, hparallel⟩ := hfirst.2
    rw [Rule.run, Rule.run]
    dsimp only
    rw [hcontinues _ _ hparallel.lookahead]
    split
    · exact (hfirst.andThen
        (repeatWhile hcontinues fun _ _ _ h' => ih₂ h' (hlink _))).wrap kind
    · exact hfirst
  | loop continues body ih =>
    exact repeatWhile hrule.1 (fun _ _ _ h' => ih h' (hrule.2 _)) near s s' h
  | list shape item ih =>
    exact listRounds shape (fun _ _ _ h' => ih h' (hrule _)) .item near s s' h
  | nested goal =>
    rw [Rule.run, Rule.run]
    split
    · exact hgoals _ goal near s s' h
    · exact cutOff near s s' h
  | resume goal => exact hgoals depth goal near s s' h

/-- A nonterminal does the same in parallel states. -/
theorem nonterminal (depth : Nat) (goal : Nonterminal) :
    ρ.Simulates tail tail' (goal.parse depth) (goal.parse depth) := by
  intro near s
  induction depth, goal, s using Nonterminal.parse.induct generalizing near with
  | case1 depth goal s ih =>
    intro s' h
    rw [Nonterminal.parse, Nonterminal.parse]
    refine run (fun depth₁ goal₁ near₁ s₁ s₁' h₁ => ?_) depth h
      (Rule.confined_ofNonterminal s.lookahead goal)
    -- both runs enter the nonterminal again or neither does
    have hweight : goal₁.weight s₁' < goal.weight s' ↔ goal₁.weight s₁ < goal.weight s := by
      have := h.remaining
      have := h₁.remaining
      unfold Nonterminal.weight
      omega
    split
    · next hless =>
      rw [dif_pos (hweight.2 hless)]
      exact ih depth₁ goal₁ s₁ hless near₁ s₁' h₁
    · next hless =>
      rw [dif_neg fun hless' => hless (hweight.1 hless')]
      exact stay near₁ s₁ s₁' h₁

/-- **A rule of the grammar does the same in parallel states**, if it keeps to its
statement. -/
theorem rule {rule : Rule} (h : ρ.Parallel tail tail' near s s')
    (hrule : rule.Confined s.lookahead) :
    ρ.Agree tail tail' near (rule.parse s) (rule.parse s') :=
  run nonterminal 0 h hrule

end Simulates

/-! ## Statements -/

variable (ρ tail tail') in
/-- **Two statements that differ by the change of tokens alone**, and leave what
is to come behind them parallel: the same lexemes and what follows them, or
nothing but the end of the input. -/
structure Concur (near : List Lexeme) (out out' : Outcome) : Prop where
  forest : out'.forest = Forest.mapTokens ρ.token out.forest
  filed : out'.state.comments = ρ.filed out.state.comments
  rest : (∃ near₂, near₂ <:+ near ∧ out.state.input = tail.prepend near₂
      ∧ out'.state.input = tail'.prepend (near₂.map ρ.lexeme))
    ∨ ρ.Ends tail tail' ∧ out.state.input = ⟨[], ⟨tail.last.token, []⟩⟩
      ∧ out'.state.input = ⟨[], ⟨tail'.last.token, []⟩⟩

/-- Outcomes that agree concur. -/
theorem Agree.concur (h : ρ.Agree tail tail' near out out') :
    ρ.Concur tail tail' near out out' := by
  obtain ⟨hforest, near₂, hnear, hparallel⟩ := h
  exact ⟨hforest, hparallel.filed, .inl ⟨near₂, hnear, hparallel.input, hparallel.input'⟩⟩

/-- A step behind outcomes that agree. -/
theorem Agree.concur_andThen {step step' : Parse} (h : ρ.Agree tail tail' near out out')
    (hstep : ∀ near s s', ρ.Parallel tail tail' near s s' →
      ρ.Concur tail tail' near (step s) (step' s')) :
    ρ.Concur tail tail' near (out.andThen step) (out'.andThen step') := by
  obtain ⟨hforest, near₂, hnear, hparallel⟩ := h
  obtain ⟨hforest', hfiled, hrest⟩ := hstep near₂ _ _ hparallel
  refine ⟨?_, hfiled, ?_⟩
  · rw [Outcome.andThen, Outcome.andThen, Forest.mapTokens_append, hforest, hforest']
  · rcases hrest with ⟨near₃, hnear', hrest⟩ | hends
    · exact .inl ⟨near₃, hnear'.trans hnear, hrest⟩
    · exact .inr hends

/-- Taking the token that ends the statement. -/
theorem concur_take (h : ρ.Parallel tail tail' near s s') :
    ρ.Concur tail tail' near s.take s'.take where
  forest := by
    rw [State.take, State.take, h.token_current]
    rfl
  filed := by
    show s'.comments.insert s'.current s'.input.current.comments
      = ρ.filed (s.comments.insert s.current s.input.current.comments)
    rw [h.filed, h.token_current, h.current, ρ.filed_insert]
    rfl
  rest := by
    show (∃ near₂, near₂ <:+ near ∧ s.input.advance = _ ∧ s'.input.advance = _)
      ∨ _ ∧ s.input.advance = _ ∧ s'.input.advance = _
    rw [h.input, h.input']
    cases near with
    | cons l near => exact .inl ⟨near, List.suffix_cons l near, rfl, rfl⟩
    | nil =>
      rcases h.bounded with hends | ⟨l, hl, -⟩
      · have hnil : (tail.prepend []).pending = [] := hends.pending
        have hnil' : (tail'.prepend (List.map ρ.lexeme [])).pending = [] := hends.pending'
        refine .inr ⟨hends, ?_, ?_⟩
        · rw [TokenStream.advance_nil hnil]; rfl
        · rw [TokenStream.advance_nil hnil']; rfl
      · cases hl

theorem concur_finish (h : ρ.Parallel tail tail' near s s') :
    ρ.Concur tail tail' near s.finish s'.finish := by
  rw [State.finish, State.finish, h.atEnd]
  split
  · exact concur_take h
  · exact (Simulates.recover _ _ _ near s s' h).concur_andThen fun _ _ _ => concur_take

theorem concur_body (explained : Bool) (h : ρ.Parallel tail tail' near s s') :
    ρ.Concur tail tail' near (s.body explained) (s'.body explained) := by
  rw [State.body, State.body, h.kind_current, h.atEnd]
  split
  · next rule hrule =>
    exact (Simulates.rule h (Rule.confined_ofStatementKeyword hrule _)).concur_andThen
      fun _ _ _ => concur_finish
  · split
    · have hadd : ρ.Agree tail tail' near
          ((if explained then State.add (.missing "missing statement") else State.stay) s)
          ((if explained then State.add (.missing "missing statement") else State.stay) s') := by
        cases explained
        · exact .of_parallel h rfl
        · exact .of_parallel h rfl
      exact hadd.concur_andThen fun _ _ _ => concur_finish
    · refine (Simulates.recover _ _ _ near s s' h).concur_andThen fun near s s' h => ?_
      rw [h.atEnd]
      split
      · exact concur_finish h
      · exact (Simulates.stay near s s' h).concur

/-- **A statement is the same in parallel states.** -/
theorem concur_statement (h : ρ.Parallel tail tail' near s s') :
    ρ.Concur tail tail' near s.statement s'.statement := by
  have hexplained : s'.lookahead.isKeyword .EXPLAIN = s.lookahead.isKeyword .EXPLAIN :=
    Lookahead.settles_isKeyword .EXPLAIN _ h.lookahead
  rw [State.statement, State.statement, hexplained]
  exact (Simulates.rule h (Rule.confined_explain _)).concur_andThen fun _ _ _ => concur_body _

end Relabelling

/-- A statement with its tokens and comments changed. -/
def Statement.relabel (ρ : Relabelling) (s : Statement) : Statement :=
  ⟨Forest.mapTokens ρ.token s.children, ρ.filed s.comments⟩

namespace TokenStream

/-- **The statement at the front of two parallel streams.** It is the same up to
the change of tokens, and what is behind it is parallel again. -/
theorem parseStatement_prepend (ρ : Relabelling) (tail tail' : TokenStream) {near : List Lexeme}
    (hproper : ∀ l ∈ near, l.token.isEof = false)
    (hbounded : ρ.Ends tail tail' ∨ ∃ l ∈ near, l.token.kind = .semicolon) :
    (tail'.prepend (near.map ρ.lexeme)).parseStatement.statement
        = (tail.prepend near).parseStatement.statement.relabel ρ
      ∧ ((∃ near₂, near₂ <:+ near ∧ (tail.prepend near).parseStatement.rest = tail.prepend near₂
          ∧ (tail'.prepend (near.map ρ.lexeme)).parseStatement.rest
            = tail'.prepend (near₂.map ρ.lexeme))
        ∨ ρ.Ends tail tail'
          ∧ (tail.prepend near).parseStatement.rest = ⟨[], ⟨tail.last.token, []⟩⟩
          ∧ (tail'.prepend (near.map ρ.lexeme)).parseStatement.rest
            = ⟨[], ⟨tail'.last.token, []⟩⟩) := by
  have hstart : ρ.Parallel tail tail' near (.start (tail.prepend near))
      (.start (tail'.prepend (near.map ρ.lexeme))) :=
    ⟨rfl, rfl, hproper, hbounded, ρ.filed_empty.symm, rfl⟩
  obtain ⟨hforest, hfiled, hrest⟩ := Relabelling.concur_statement hstart
  refine ⟨?_, hrest⟩
  show Statement.mk _ _ = Statement.mk _ _
  rw [hforest, hfiled]
  rfl

end TokenStream

end TolerantSql
