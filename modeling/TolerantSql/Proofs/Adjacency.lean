import TolerantSql.Proofs.TakenTokens
import TolerantSql.Proofs.TokenPairs

/-!
# A logic of adjacent tokens

Which tokens end up side by side is decided by no single rule: the last token of
one rule stands before the first of the next. `Rule.Joins` is a proof system for
this. Its assertions speak about what a rule sees and about the token taken last,
and a triple of precondition, rule and postcondition can be derived when a run of
the rule that begins under the one and reports nothing ends under the other, and
takes only tokens that stay apart from those before them. A step that reports an
error may promise anything.

The system has one rule for each way to build a grammar rule, and nonterminals are
assumed to take an operand: they begin behind what opens one and end with what no
operator makes longer. `Rule.Joins.sound` justifies each derivation, given that
much of the nonterminals, and `meets_nonterminal` gives that much, by induction on
the tokens to come. A nonterminal is entered again only behind a token, which
derivations keep track of: `begun` says that one has been taken.
-/

namespace TolerantSql

/-! ## Assertions -/

/-- **Tokens that stay apart**, each from the one before it, from a token of kind
`previous` to one of kind `last`. None of them is malformed. -/
inductive Adjoins : (previous : TokenKind) → List Token → (last : TokenKind) → Prop where
  | nil (previous : TokenKind) : Adjoins previous [] previous
  | cons {previous last : TokenKind} {t : Token} {rest : List Token}
    (apart : previous.staysApart t.kind = true) (proper : t.kind.isError = false)
    (behind : Adjoins t.kind rest last) : Adjoins previous (t :: rest) last

/-- Tokens that stay apart, one sequence behind the other. -/
theorem Adjoins.append {previous middle last : TokenKind} {ts us : List Token}
    (h : Adjoins previous ts middle) (h' : Adjoins middle us last) :
    Adjoins previous (ts ++ us) last := by
  induction h with
  | nil => exact h'
  | cons apart proper _ ih => exact .cons apart proper (ih h')

/-- None of the tokens that stay apart is malformed. -/
theorem Adjoins.isError_of_mem {previous last : TokenKind} {ts : List Token}
    (h : Adjoins previous ts last) {t : Token} (ht : t ∈ ts) : t.kind.isError = false := by
  induction h with
  | nil => cases ht
  | cons _ proper _ ih =>
    rcases List.mem_cons.1 ht with rfl | ht
    · exact proper
    · exact ih ht

/-- **What can be said between two steps**: about what the next one sees, and about
the kind of the token before. -/
abbrev Assertion := Lookahead → TokenKind → Prop

namespace Assertion

/-- Nothing in particular. -/
def anything : Assertion := fun _ _ => True

/-- Anything may follow. -/
def plain : Assertion := fun _ previous => previous.isPlain = true

/-- **An operand may follow.** -/
def opens : Assertion := fun _ previous => previous.opensOperand = true

/-- **An operand has ended**: what follows does not make its last token longer. -/
def closes : Assertion := fun _ previous => previous.canGrow = false

/-- The current token needs no care. -/
def calm : Assertion := fun v _ => v.current.isCalm = true

/-- Neither the current token nor the next needs care. -/
def calmPair : Assertion := fun v _ => v.current.isCalm = true ∧ v.next.isCalm = true

/-- The current token needs no care, and one of the given kind comes next. -/
def calmBefore (kind : TokenKind) : Assertion := fun v _ =>
  v.current.isCalm = true ∧ v.nextIs kind = true

/-- An assertion where the lookahead passes a test. -/
def whenever (P : Assertion) (test : Lookahead → Bool) : Assertion := fun v previous =>
  P v previous ∧ test v = true

/-- An assertion where the lookahead is known. -/
def seeing (P : Assertion) (v : Lookahead) : Assertion := fun v' previous => v' = v ∧ P v' previous

end Assertion

/-! ## Derivations -/

/-- Whether a rule takes a token whenever it reports nothing, as far as its
sequence of primitives shows. -/
def Rule.takes : Rule → Bool
  | .shift => true
  | .seq first second => first.takes || second.takes
  | .node _ body => body.takes
  | _ => false

open Assertion in
/-- **What a rule takes stays apart.** The flag says whether a token has been taken
since a nonterminal was entered. -/
inductive Rule.Joins : (begun : Bool) → Assertion → Rule → Assertion → Prop where
  | conseq {begun : Bool} {P P' Q Q' : Assertion} {r : Rule}
    (pre : ∀ v previous, P' v previous → P v previous)
    (post : ∀ v previous, Q v previous → Q' v previous)
    (body : Joins begun P r Q) : Joins begun P' r Q'
  | unreachable {begun : Bool} {P Q : Assertion} {r : Rule} (pre : ∀ v previous, ¬ P v previous) :
    Joins begun P r Q
  | done {begun : Bool} {P : Assertion} : Joins begun P .done P
  | seq {begun : Bool} {P Q R : Assertion} {first second : Rule} (h : Joins begun P first Q)
    (h' : Joins (first.takes || begun) Q second R) : Joins begun P (.seq first second) R
  | look {begun : Bool} {P Q : Assertion} {choose : Lookahead → Rule}
    (h : ∀ v, Joins begun (P.seeing v) (choose v) Q) : Joins begun P (.look choose) Q
  /-- The token that is taken stays apart, and the next one becomes current. -/
  | shift {begun : Bool} {P Q : Assertion}
    (taken : ∀ v previous, P v previous → v.current.isTakeable = true
      ∧ previous.staysApart v.current = true
      ∧ ∀ v', v'.current = v.next → v'.next = v.afterNext → Q v' v.current) :
    Joins begun P .shift Q
  | missing {begun : Bool} {P Q : Assertion} {announced : Bool} {what : String} :
    Joins begun P (.missing announced what) Q
  | expecting {begun : Bool} {P Q : Assertion} {message : String} :
    Joins begun P (.expecting message) Q
  | recover {begun : Bool} {P Q : Assertion} {announced : Bool} {message : String}
    {sync : StopSet} : Joins begun P (.recover announced message sync) Q
  | node {begun : Bool} {P Q : Assertion} {kind : NodeKind} {body : Rule}
    (h : Joins begun P body Q) : Joins begun P (.node kind body) Q
  | chain {begun : Bool} {P Q : Assertion} {kind : NodeKind} {operand link : Rule}
    {continues : Lookahead → Bool} (h : Joins begun P operand Q)
    (h' : Joins begun (Q.whenever continues) link Q) :
    Joins begun P (.chain kind operand continues link) Q
  | loop {begun : Bool} {P : Assertion} {continues : Lookahead → Bool} {body : Rule}
    (h : Joins begun (P.whenever continues) body P) : Joins begun P (.loop continues body) P
  /-- An item stands behind what is before the list, or behind a comma. -/
  | list {begun : Bool} {P Q R : Assertion} {shape : State.ListShape} {item : Rule}
    (starts : ∀ v previous, P v previous ∨ previous = .comma →
      shape.startsItem v.current = true → R v previous)
    (h : Joins begun R item Q) : Joins begun P (.list shape item) Q
  | nested {goal : Nonterminal} : Joins true opens (.nested goal) closes
  | resume {goal : Nonterminal} : Joins true opens (.resume goal) closes

/-! ## Soundness -/

namespace Forest

/-- Trees side by side report nothing if none of them does. -/
theorem errors_append_eq_nil {f g : Forest} :
    errors (f ++ g) = [] ↔ errors f = [] ∧ errors g = [] := by
  simp [errors]

theorem errors_node (kind : NodeKind) (f : Forest) : errors [.node kind f] = errors f := by
  rw [errors, leaves_cons, leaves_nil, List.append_nil]
  rfl

theorem terminals_node (kind : NodeKind) (f : Forest) : terminals [.node kind f] = terminals f := by
  rw [terminals, leaves_cons, leaves_nil, List.append_nil]
  rfl

end Forest

/-- **What a step comes to that joins its tokens to a token before them.** The flag
says whether it takes one at least. -/
structure Joined (takes : Bool) (Q : Assertion) (previous : TokenKind) (s : State)
    (out : Outcome) : Prop where
  lawful : out.state.input.Lawful
  remaining : out.state.remaining ≤ s.remaining
  progress : takes = true → out.state.remaining < s.remaining
  reported : out.state.endReported = false
  adjoins : ∃ last, Adjoins previous (Forest.terminals out.forest) last ∧ Q out.state.lookahead last

/-- **A step that joins tokens** from states with fewer than `bound` tokens to come,
if it reports nothing. -/
def Meets (bound : Nat) (takes : Bool) (P : Assertion) (step : Parse) (Q : Assertion) : Prop :=
  ∀ (s : State) (previous : TokenKind), s.input.Lawful → s.remaining < bound →
    s.endReported = false → P s.lookahead previous → Forest.errors (step s).forest = [] →
    Joined takes Q previous s (step s)

namespace Joined

variable {takes takes' : Bool} {P Q R : Assertion} {previous : TokenKind} {s : State}
  {out : Outcome}

theorem stay (hs : s.input.Lawful) (hreported : s.endReported = false)
    (h : P s.lookahead previous) : Joined false P previous s s.stay :=
  ⟨hs, Nat.le_refl _, nofun, hreported, previous, .nil previous, h⟩

/-- Less may be said about a step. -/
theorem weaken (h : Joined takes Q previous s out)
    (hpost : ∀ v previous, Q v previous → R v previous) : Joined takes R previous s out := by
  obtain ⟨last, hjoins, hlast⟩ := h.adjoins
  exact ⟨h.lawful, h.remaining, h.progress, h.reported, last, hjoins, hpost _ _ hlast⟩

theorem forget (h : Joined takes Q previous s out) : Joined false Q previous s out :=
  ⟨h.lawful, h.remaining, nofun, h.reported, h.adjoins⟩

theorem wrap (h : Joined takes Q previous s out) (kind : NodeKind) :
    Joined takes Q previous s (out.wrap kind) := by
  obtain ⟨last, hjoins, hlast⟩ := h.adjoins
  refine ⟨h.lawful, h.remaining, h.progress, h.reported, last, ?_, hlast⟩
  rw [Outcome.wrap, Forest.terminals_node]
  exact hjoins

/-- One step behind another. -/
theorem andThen {step : Parse} (h : Joined takes Q previous s out)
    (hstep : ∀ last, Q out.state.lookahead last →
      Joined takes' R last out.state (step out.state)) :
    Joined (takes || takes') R previous s (out.andThen step) := by
  obtain ⟨middle, hjoins, hmiddle⟩ := h.adjoins
  have h' := hstep middle hmiddle
  obtain ⟨last, hjoins', hlast⟩ := h'.adjoins
  have hremaining := h.remaining
  have hremaining' := h'.remaining
  refine ⟨h'.lawful, Nat.le_trans hremaining' hremaining, fun ht => ?_, h'.reported, last, ?_,
    hlast⟩
  · rcases Bool.or_eq_true .. ▸ ht with ht | ht
    · exact Nat.lt_of_le_of_lt hremaining' (h.progress ht)
    · exact Nat.lt_of_lt_of_le (h'.progress ht) hremaining
  · rw [Outcome.andThen, Took.terminals_append]
    exact hjoins.append hjoins'

end Joined

/-! ### Steps that report something -/

namespace State

variable {s : State}

/-- What is reported stays reported. -/
theorem errors_andThen_ne_nil {out : Outcome} (h : Forest.errors out.forest ≠ []) (step : Parse) :
    Forest.errors (out.andThen step).forest ≠ [] := fun hnil =>
  h (Forest.errors_append_eq_nil.1 hnil).1

theorem errors_reportEnd (h : s.endReported = false) :
    Forest.errors s.reportEnd.forest ≠ [] := by
  rw [reportEnd, h]
  exact List.cons_ne_nil _ _

theorem errors_missing (h : s.endReported = false) (announced : Bool) (what : String) :
    Forest.errors (s.missing announced what).forest ≠ [] := by
  rw [missing]
  split
  · exact errors_reportEnd h
  · exact List.cons_ne_nil _ _

theorem errors_add (e : SyntaxError) : Forest.errors (s.add e).forest ≠ [] := List.cons_ne_nil _ _

theorem errors_expecting (h : s.endReported = false) (message : String) :
    Forest.errors (s.expecting message).forest ≠ [] := by
  rw [expecting]
  split
  · exact errors_reportEnd h
  · exact errors_add _

theorem errors_recover (h : s.endReported = false) (announced : Bool) (message : String)
    (sync : StopSet) : Forest.errors (s.recover announced message sync).forest ≠ [] := by
  refine errors_andThen_ne_nil ?_ _
  cases announced
  · exact errors_add _
  · exact errors_expecting h message

theorem errors_cutOff (h : s.endReported = false) : Forest.errors s.cutOff.forest ≠ [] :=
  errors_andThen_ne_nil (errors_expecting h "expression nested too deeply") _

end State

/-! ### Steps that report nothing -/

namespace Meets

variable {bound : Nat} {takes takes' : Bool} {P Q R : Assertion} {step step' body : Parse}

theorem mono {bound' : Nat} (h : Meets bound takes P step Q) (hbound : bound' ≤ bound) :
    Meets bound' takes P step Q := fun s previous hs hless =>
  h s previous hs (Nat.lt_of_lt_of_le hless hbound)

/-- A step that reports something meets anything. -/
theorem of_errors
    (h : ∀ s : State, s.endReported = false → Forest.errors (step s).forest ≠ []) :
    Meets bound takes P step Q := fun s _ _ _ hreported _ herrors =>
  absurd herrors (h s hreported)

/-- **One step behind another.** Behind a step that takes a token there are fewer to
come. -/
theorem seq {bound' : Nat} (h : Meets bound takes P step Q) (h' : Meets bound' takes' Q step' R)
    (hbound : bound ≤ bound' ∨ takes = true ∧ bound ≤ bound' + 1) :
    Meets bound (takes || takes') P (fun s => (step s).andThen step') R := by
  intro s previous hs hless hreported hpre herrors
  obtain ⟨herrors₁, herrors₂⟩ := Forest.errors_append_eq_nil.1 herrors
  have hfirst := h s previous hs hless hreported hpre herrors₁
  refine hfirst.andThen fun last hlast => ?_
  refine h' _ last hfirst.lawful ?_ hfirst.reported hlast herrors₂
  have hremaining := hfirst.remaining
  rcases hbound with hbound | ⟨htakes, hbound⟩
  · omega
  · have hprogress := hfirst.progress htakes
    omega

/-- Taking a token makes the next one current. -/
theorem lookahead_take (s : State) :
    s.take.state.lookahead.current = s.lookahead.next
      ∧ s.take.state.lookahead.next = s.lookahead.afterNext := ⟨rfl, rfl⟩

theorem shift (h : ∀ v previous, P v previous → v.current.isTakeable = true
      ∧ previous.staysApart v.current = true
      ∧ ∀ v', v'.current = v.next → v'.next = v.afterNext → Q v' v.current) :
    Meets bound true P State.shift Q := by
  intro s previous hs _ hreported hpre _
  obtain ⟨htakeable, hapart, hpost⟩ := h _ _ hpre
  rw [TokenKind.isTakeable, Bool.and_eq_true, Bool.not_eq_true', Bool.not_eq_true'] at htakeable
  obtain ⟨hend, herror⟩ := htakeable
  replace hend : s.atEnd = false := hend
  replace herror : s.current.kind.isError = false := herror
  obtain ⟨l, hl, htook⟩ := Took.take_current hs hend
  obtain ⟨hcurrent, hnext⟩ := lookahead_take s
  have hremaining : s.remaining = s.take.state.remaining + 1 := by
    rw [State.remaining, htook.pending, List.length_append]
    exact Nat.add_comm _ _
  -- the token neither ends the statement nor is malformed, so it is taken
  have htaken : s.shift = s.take := by
    rw [State.shift, hend, herror]
    rfl
  rw [htaken]
  refine ⟨htook.lawful hs, by omega, fun _ => by omega, hreported, s.current.kind, ?_,
    hpost _ hcurrent hnext⟩
  exact .cons hapart herror (.nil _)

/-- **Rounds that each keep an assertion keep it together.** -/
theorem repeatWhile {continues : Lookahead → Bool}
    (h : Meets bound takes (P.whenever continues) body P) :
    Meets bound false P (State.repeatWhile continues body) P := by
  intro s previous hs hless hreported hpre herrors
  induction s using State.repeatWhile.induct continues body generalizing previous with
  | case1 s hcontinues out hprogress ih =>
    rw [State.repeatWhile_of_progress hcontinues hprogress] at herrors ⊢
    obtain ⟨herrors₁, herrors₂⟩ := Forest.errors_append_eq_nil.1 herrors
    have hround := h s previous hs hless hreported ⟨hpre, hcontinues⟩ herrors₁
    have hmore := fun last (hlast : P out.state.lookahead last) =>
      ih last hround.lawful (Nat.lt_trans hprogress hless) hround.reported hlast herrors₂
    exact (hround.andThen hmore).forget
  | case2 s hcontinues out hprogress =>
    rw [State.repeatWhile_of_stuck hcontinues hprogress] at herrors ⊢
    exact (h s previous hs hless hreported ⟨hpre, hcontinues⟩ herrors).forget
  | case3 s hstop =>
    rw [State.repeatWhile_of_stop (Bool.eq_false_iff.2 hstop)]
    exact .stay hs hreported hpre

/-! ### Lists -/

/-- What holds before each phase of a list. -/
def listPre (P Q : Assertion) : State.ListPhase → Assertion
  | .item => fun v previous => P v previous ∨ previous = .comma
  | .separator => Q

/-- What holds behind a round of a list, which goes on in the given phase if there
is one. -/
def listPost (Q : Assertion) : Option State.ListPhase → Assertion
  | some .item => fun _ previous => previous = .comma
  | some .separator | none => Q

variable {shape : State.ListShape} {item : Parse} {phase : State.ListPhase} {s : State}
  {previous : TokenKind}

/-- Taking a comma. -/
theorem take_comma (hs : s.input.Lawful) (hless : s.remaining < bound)
    (hreported : s.endReported = false) (hcomma : s.current.kind = .comma)
    (herrors : Forest.errors s.take.forest = []) :
    Joined true (listPost Q (some .item)) previous s s.take := by
  have hshift : Meets bound true (fun v _ => v.current = .comma) State.shift
      (listPost Q (some .item)) := shift fun v previous hv => by
    rw [hv]
    exact ⟨rfl, TokenKind.staysApart_of_isHarmless rfl previous, fun _ _ _ => rfl⟩
  rw [← State.shift_comma hcomma] at herrors ⊢
  exact hshift s previous hs hless hreported hcomma herrors

/-- **One round of a list** that reports nothing takes an item or a comma, or ends
the list behind an item. -/
theorem listRound
    (starts : ∀ v previous, P v previous ∨ previous = .comma →
      shape.startsItem v.current = true → R v previous)
    (h : Meets bound takes R item Q) (hs : s.input.Lawful) (hless : s.remaining < bound)
    (hreported : s.endReported = false) (hpre : listPre P Q phase s.lookahead previous)
    {out : Outcome} {next : Option State.ListPhase}
    (hround : State.listRound shape item phase s = (out, next))
    (herrors : Forest.errors out.forest = []) :
    Joined (next == some .item) (listPost Q next) previous s out := by
  cases phase with
  | item =>
    unfold State.listRound at hround
    dsimp only at hround
    split_ifs at hround with hcomma hstarts <;> cases hround
    · exact absurd herrors (State.errors_andThen_ne_nil (State.errors_missing hreported _ _) _)
    · exact (h s previous hs hless hreported (starts _ _ hpre hstarts) herrors).forget
    · exact absurd herrors (State.errors_missing hreported _ _)
    · exact absurd herrors (State.errors_recover hreported _ _ _)
  | separator =>
    unfold State.listRound at hround
    dsimp only at hround
    split_ifs at hround with hcomma <;> cases hround
    · exact take_comma hs hless hreported (beq_iff_eq.1 hcomma) herrors
    · exact .stay hs hreported hpre
    · exact absurd herrors (State.errors_add _)
    · exact absurd herrors (State.errors_recover hreported _ _ _)

/-- **A list whose items join their tokens joins them all.** -/
theorem listRounds
    (starts : ∀ v previous, P v previous ∨ previous = .comma →
      shape.startsItem v.current = true → R v previous)
    (h : Meets bound takes R item Q) :
    Meets bound false (listPre P Q phase) (State.listRounds shape item phase) Q := by
  intro s previous hs hless hreported hpre herrors
  induction phase, s using State.listRounds.induct shape item generalizing previous with
  | case1 phase s out hround =>
    rw [State.listRounds_of_last hround] at herrors ⊢
    exact listRound starts h hs hless hreported hpre hround herrors
  | case2 phase s out phase' hround hprogress ih =>
    rw [State.listRounds_of_progress hround hprogress] at herrors ⊢
    obtain ⟨herrors₁, herrors₂⟩ := Forest.errors_append_eq_nil.1 herrors
    have hjoined := listRound starts h hs hless hreported hpre hround herrors₁
    have hmore := fun last (hlast : listPost Q (some phase') out.state.lookahead last) =>
      ih last hjoined.lawful (Nat.lt_of_le_of_lt hjoined.remaining hless) hjoined.reported
        (by cases phase' with
          | item => exact .inr hlast
          | separator => exact hlast) herrors₂
    exact (hjoined.andThen hmore).forget
  | case3 phase s out phase' hround hprogress =>
    rw [State.listRounds_of_stuck hround hprogress] at herrors ⊢
    have hjoined := listRound starts h hs hless hreported hpre hround herrors
    cases phase' with
    | separator => exact hjoined
    | item =>
      -- a comma was taken, so the list does go on
      have hless := hjoined.progress rfl
      refine absurd ?_ hprogress
      show 2 * out.state.remaining + 0 < 2 * s.remaining + _
      omega

end Meets

namespace Rule

/-! ### Rules -/

open Assertion

/-- How many tokens may be to come, if those of a nonterminal are fewer than
`bound`: one more until the first is taken. -/
def reach (begun : Bool) (bound : Nat) : Nat := if begun then bound else bound + 1

/-- **Derivations are sound.** If nonterminals join the tokens of an operand where
fewer than `bound` tokens are to come, then so does a rule for what can be derived
of it. -/
theorem Joins.sound {goals : Nat → Nonterminal → Parse} {bound : Nat}
    (hgoals : ∀ depth goal, Meets bound false opens (goals depth goal) closes) (depth : Nat)
    {begun : Bool} {P Q : Assertion} {r : Rule} (h : Joins begun P r Q) :
    Meets (reach begun bound) r.takes P (r.run goals depth) Q := by
  induction h with
  | conseq pre post _ ih =>
    intro s previous hs hless hreported hpre herrors
    exact (ih s previous hs hless hreported (pre _ _ hpre) herrors).weaken post
  | unreachable pre => exact fun s previous _ _ _ hpre => absurd hpre (pre _ _)
  | done => exact fun s previous hs _ hreported hpre _ => .stay hs hreported hpre
  | @seq begun _ _ _ first _ _ _ ih ih' =>
    -- behind a token that was taken, the second rule starts with fewer to come
    refine Meets.seq ih ih' ?_
    cases first.takes <;> cases begun <;> simp [reach]
  | look _ ih =>
    intro s previous hs hless hreported hpre herrors
    exact (ih s.lookahead s previous hs hless hreported ⟨rfl, hpre⟩ herrors).forget
  | shift taken => exact Meets.shift taken
  | missing => exact .of_errors fun s hreported => State.errors_missing hreported _ _
  | expecting => exact .of_errors fun s hreported => State.errors_expecting hreported _
  | recover => exact .of_errors fun s hreported => State.errors_recover hreported _ _ _
  | node _ ih =>
    intro s previous hs hless hreported hpre herrors
    replace herrors := (Forest.errors_node _ _).symm.trans herrors
    exact (ih s previous hs hless hreported hpre herrors).wrap _
  | @chain begun P Q kind operand link continues _ _ ih ih' =>
    intro s previous hs hless hreported hpre herrors
    rw [Rule.run] at herrors ⊢
    dsimp only at herrors ⊢
    split_ifs at herrors ⊢
    · replace herrors := (Forest.errors_node _ _).symm.trans herrors
      exact (Meets.seq ih ih'.repeatWhile (.inl (Nat.le_refl _)) s previous hs hless hreported
        hpre herrors).forget.wrap kind
    · exact (ih s previous hs hless hreported hpre herrors).forget
  | loop _ ih => exact ih.repeatWhile
  | list starts _ ih =>
    intro s previous hs hless hreported hpre
    exact Meets.listRounds starts ih s previous hs hless hreported (.inl hpre)
  | nested =>
    intro s previous hs hless hreported hpre herrors
    rw [Rule.run] at herrors ⊢
    split_ifs at herrors ⊢
    · exact hgoals _ _ s previous hs hless hreported hpre herrors
    · -- an expression that is nested too deeply is reported
      exact absurd herrors (State.errors_cutOff hreported)
  | resume => exact hgoals depth _

end Rule

open Assertion in
/-- **Every nonterminal takes an operand**: its tokens stay apart, behind whatever
opens an operand, and the last of them does not grow. -/
theorem meets_nonterminal (bound depth : Nat) (goal : Nonterminal)
    (hrules : ∀ goal, Rule.Joins false opens (Rule.ofNonterminal goal) closes) :
    Meets bound false opens (goal.parse depth) closes := by
  induction bound generalizing depth goal with
  | zero => exact fun s _ _ hless => absurd hless (Nat.not_lt_zero _)
  | succ bound ih =>
    intro s previous hs hless hreported hpre herrors
    rw [Nonterminal.parse] at herrors ⊢
    refine ((hrules goal).sound (fun depth' goal' => ?_) depth s previous hs
      (Nat.lt_succ_self s.remaining) hreported hpre herrors).forget
    -- behind the first token fewer are to come, so the nonterminal is entered
    intro s' previous' hs' hless' hreported' hpre' herrors'
    have hweight : goal'.weight s' < goal.weight s := by
      have hrank : goal'.rank ≤ 2 := by cases goal' <;> decide
      unfold Nonterminal.weight
      omega
    dsimp only at herrors' ⊢
    rw [dif_pos hweight] at herrors' ⊢
    exact ih depth' goal' s' previous' hs' (by omega) hreported' hpre' herrors'

end TolerantSql
