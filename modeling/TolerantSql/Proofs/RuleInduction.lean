import Mathlib.Tactic.SplitIfs
import TolerantSql.Grammar.Parse

/-!
# Properties of every rule

Rules are data with one interpreter, so a property of steps that holds of what
rules are made of holds of every rule. `StepInvariant` lists what has to be
checked: that the property composes, that gathering trees in a node keeps it,
and that each of the primitive steps has it. The inductions are done here once –
over the rounds of a repetition and of a list, over the structure of rules, and
over what is left to do for a nonterminal – and every theorem about all rules is
an instance of `StepInvariant.rule`.

Some properties are kept by nodes of certain kinds only. Which kinds of nodes a
rule makes is read off the rule (`Rule.Makes`).

A stream of lexemes is lawful when the end of the input comes last and only
there. Steps need that of the stream they read from, and leave it so.
-/

namespace TolerantSql

/-- **A stream that ends with the end of the input**, which comes only there. -/
structure TokenStream.Lawful (input : TokenStream) : Prop where
  pending : ∀ l ∈ input.pending, l.token.isEof = false
  last : input.last.token.isEof = true

/-! ## The nodes that a rule makes -/

namespace Rule

/-- **Every node that a rule makes is of a kind in `K`**, those of the
nonterminals it calls aside. -/
def Makes (K : NodeKind → Prop) : Rule → Prop
  | seq first second => first.Makes K ∧ second.Makes K
  | look choose => ∀ v, (choose v).Makes K
  | node kind body => K kind ∧ body.Makes K
  | chain kind operand _ link => K kind ∧ operand.Makes K ∧ link.Makes K
  | loop _ body => body.Makes K
  | list _ item => item.Makes K
  | done | shift | missing .. | expecting _ | recover .. | nested _ | resume _ => True

theorem Makes.mono {K K' : NodeKind → Prop} (hK : ∀ kind, K kind → K' kind) {r : Rule}
    (h : r.Makes K) : r.Makes K' := by
  induction r with
  | seq first second ih₁ ih₂ => exact ⟨ih₁ h.1, ih₂ h.2⟩
  | look choose ih => exact fun v => ih v (h v)
  | node kind body ih => exact ⟨hK kind h.1, ih h.2⟩
  | chain kind operand continues link ih₁ ih₂ => exact ⟨hK kind h.1, ih₁ h.2.1, ih₂ h.2.2⟩
  | loop continues body ih => exact ih h
  | list shape item ih => exact ih h
  | _ => trivial

/-- A rule makes nodes of some kind. -/
theorem makes_any (r : Rule) : r.Makes fun _ => True := by
  induction r with
  | seq first second ih₁ ih₂ => exact ⟨ih₁, ih₂⟩
  | look choose ih => exact ih
  | node kind body ih => exact ⟨trivial, ih⟩
  | chain kind operand continues link ih₁ ih₂ => exact ⟨trivial, ih₁, ih₂⟩
  | loop continues body ih => exact ih
  | list shape item ih => exact ih
  | _ => trivial

end Rule

/-! ## Repetition, round by round -/

namespace State

section Repetition

variable {continues : Lookahead → Bool} {body : Parse} {s : State}

theorem repeatWhile_of_stop (hstop : continues s.lookahead = false) :
    s.repeatWhile continues body = s.stay := by
  rw [repeatWhile, hstop, if_neg Bool.false_ne_true]

/-- A round that takes a token is followed by others. -/
theorem repeatWhile_of_progress (hcontinues : continues s.lookahead = true)
    (hless : (body s).state.remaining < s.remaining) :
    s.repeatWhile continues body = (body s).andThen (repeatWhile continues body) := by
  rw [repeatWhile, if_pos hcontinues, dif_pos hless, Outcome.andThen]

/-- A round that takes no token is the last. -/
theorem repeatWhile_of_stuck (hcontinues : continues s.lookahead = true)
    (hless : ¬ (body s).state.remaining < s.remaining) :
    s.repeatWhile continues body = body s := by
  rw [repeatWhile, if_pos hcontinues, dif_neg hless]

end Repetition

section Lists

variable {shape : ListShape} {item : Parse} {phase phase' : ListPhase} {s : State} {out : Outcome}

theorem listRounds_of_last (hround : listRound shape item phase s = (out, none)) :
    s.listRounds shape item phase = out := by
  rw [listRounds, hround]

/-- A round that leads on is followed by others. -/
theorem listRounds_of_progress (hround : listRound shape item phase s = (out, some phase'))
    (hless : listWeight phase' out.state < listWeight phase s) :
    s.listRounds shape item phase = out.andThen (listRounds shape item phase') := by
  rw [listRounds, hround]
  dsimp only
  rw [dif_pos hless, Outcome.andThen]

theorem listRounds_of_stuck (hround : listRound shape item phase s = (out, some phase'))
    (hless : ¬ listWeight phase' out.state < listWeight phase s) :
    s.listRounds shape item phase = out := by
  rw [listRounds, hround]
  dsimp only
  rw [dif_neg hless]

end Lists

section Rounds

variable {s : State}

/-- A comma may be taken. -/
theorem shift_comma (hcomma : s.current.kind = .comma) : s.shift = s.take := by
  rw [shift, atEnd, hcomma]
  rfl

/-- A comma behind a report is taken. -/
theorem missing_take_comma (hcomma : s.current.kind = .comma) (announced : Bool)
    (what : String) :
    (s.missing announced what).andThen take = (s.missing announced what).andThen shift := by
  have hcurrent : (s.missing announced what).state.current = s.current := by
    rw [missing, atEof, Token.isEof, hcomma]
    cases announced
    · rfl
    · rfl
  rw [Outcome.andThen, Outcome.andThen, shift_comma (hcurrent.symm ▸ hcomma)]

/-- A missing comma is reported before the end of the input. -/
theorem add_missing_comma (hend : s.atEof = false) :
    s.add (.missing "missing comma") = s.missing false "comma" := by
  rw [missing, hend]
  rfl

end Rounds

end State

/-! ## Invariants of steps -/

/-- **A property of steps that passes to steps behind each other.** -/
structure Composes (P : State → Outcome → Prop) : Prop where
  lawful : ∀ {s out}, P s out → s.input.Lawful → out.state.input.Lawful
  stay : ∀ s : State, P s s.stay
  andThen : ∀ {s out out'}, P s out → P out.state out' →
    P s ⟨out.forest ++ out'.forest, out'.state⟩

/-- **A property of steps** that passes to every rule whose nodes are of the kinds
in `K`. -/
structure StepInvariant (K : NodeKind → Prop) (P : State → Outcome → Prop) : Prop
    extends Composes P where
  wrap : ∀ {s out}, P s out → ∀ kind, K kind → P s (out.wrap kind)
  shift : ∀ s : State, s.input.Lawful → P s s.shift
  missing : ∀ (s : State) announced what, s.input.Lawful → P s (s.missing announced what)
  expecting : ∀ (s : State) message, s.input.Lawful → P s (s.expecting message)
  recover : ∀ (s : State) announced message sync, s.input.Lawful →
    P s (s.recover announced message sync)
  cutOff : ∀ s : State, s.input.Lawful → P s s.cutOff

/-- A step that has the property wherever the stream is lawful. -/
abbrev StepInvariant.Holds (P : State → Outcome → Prop) (step : Parse) : Prop :=
  ∀ s : State, s.input.Lawful → P s (step s)

namespace Composes

open StepInvariant (Holds)

variable {P : State → Outcome → Prop}

/-- One step behind another. -/
theorem seq (h : Composes P) {first second : Parse} (h₁ : Holds P first)
    (h₂ : Holds P second) : Holds P fun s => (first s).andThen second := fun s hs =>
  h.andThen (h₁ s hs) (h₂ _ (h.lawful (h₁ s hs) hs))

theorem repeatWhile (h : Composes P) (continues : Lookahead → Bool) {body : Parse}
    (hbody : Holds P body) : Holds P (State.repeatWhile continues body) := by
  intro s hs
  induction s using State.repeatWhile.induct continues body with
  | case1 s hcontinues out hless ih =>
    rw [State.repeatWhile_of_progress hcontinues hless]
    exact h.andThen (hbody s hs) (ih (h.lawful (hbody s hs) hs))
  | case2 s hcontinues out hless =>
    rw [State.repeatWhile_of_stuck hcontinues hless]
    exact hbody s hs
  | case3 s hstop =>
    rw [State.repeatWhile_of_stop (Bool.eq_false_iff.2 hstop)]
    exact h.stay s

/-- A list, if every round of it has the property. -/
theorem listRounds (h : Composes P) (shape : State.ListShape) {item : Parse}
    (hround : ∀ (phase : State.ListPhase) (s : State), s.input.Lawful →
      P s (State.listRound shape item phase s).1) (phase : State.ListPhase) :
    Holds P (State.listRounds shape item phase) := by
  intro s hs
  have hout := hround phase s hs
  induction phase, s using State.listRounds.induct shape item with
  | case1 phase s out hlast =>
    rw [State.listRounds_of_last hlast]
    rwa [hlast] at hout
  | case2 phase s out phase' hmore hless ih =>
    rw [hmore] at hout
    have hs' := h.lawful hout hs
    rw [State.listRounds_of_progress hmore hless]
    exact h.andThen hout (ih hs' (hround phase' _ hs'))
  | case3 phase s out phase' hmore hless =>
    rw [State.listRounds_of_stuck hmore hless]
    rwa [hmore] at hout

/-- One round of a list, if what it is made of has the property. Tokens are skipped
before the end of the input only. -/
theorem listRound (h : Composes P) (shape : State.ListShape) {item : Parse}
    (hitem : Holds P item) (hshift : Holds P State.shift)
    (hmissing : ∀ announced what, Holds P (State.missing announced what))
    (hrecover : ∀ (s : State) message, s.input.Lawful → s.atEof = false →
      P s (s.recover false message shape.resumes))
    (phase : State.ListPhase) (s : State) (hs : s.input.Lawful) :
    P s (State.listRound shape item phase s).1 := by
  have hbefore {s : State} {follows : Bool} (hends : ¬ (s.atEof || follows) = true) :
      s.atEof = false := by
    rw [Bool.or_eq_true, not_or, Bool.not_eq_true] at hends
    exact hends.1
  cases phase with
  | item =>
    unfold State.listRound
    dsimp only
    split_ifs with hcomma hstarts hends
    · rw [State.missing_take_comma (beq_iff_eq.1 hcomma)]
      exact h.seq (hmissing _ _) hshift s hs
    · exact hitem s hs
    · exact hmissing _ _ s hs
    · exact hrecover s _ hs (hbefore hends)
  | separator =>
    unfold State.listRound
    dsimp only
    split_ifs with hcomma hends
    · rw [← State.shift_comma (beq_iff_eq.1 hcomma)]
      exact hshift s hs
    · exact h.stay s
    · rw [State.add_missing_comma (hbefore hends)]
      exact hmissing _ _ s hs
    · exact hrecover s _ hs (hbefore hends)

end Composes

namespace StepInvariant

variable {K : NodeKind → Prop} {P : State → Outcome → Prop}

/-- One round of a list. -/
theorem listRound (h : StepInvariant K P) (shape : State.ListShape) {item : Parse}
    (hitem : Holds P item) (phase : State.ListPhase) (s : State) (hs : s.input.Lawful) :
    P s (State.listRound shape item phase s).1 :=
  h.toComposes.listRound shape hitem h.shift (fun announced what s => h.missing s announced what)
    (fun s _ hs _ => h.recover s _ _ _ hs) phase s hs

/-- **Every rule has the property**, if the nonterminals have it. -/
theorem run (h : StepInvariant K P) {goals : Nat → Nonterminal → Parse}
    (hgoals : ∀ depth goal, Holds P (goals depth goal)) (depth : Nat) {rule : Rule}
    (hrule : rule.Makes K) : Holds P (rule.run goals depth) := by
  induction rule with
  | done => exact fun s _ => h.stay s
  | seq first second ih₁ ih₂ => exact h.seq (ih₁ hrule.1) (ih₂ hrule.2)
  | look choose ih => exact fun s hs => ih s.lookahead (hrule s.lookahead) s hs
  | shift => exact h.shift
  | missing announced what => exact fun s => h.missing s announced what
  | expecting message => exact fun s => h.expecting s message
  | recover announced message sync => exact fun s => h.recover s announced message sync
  | node kind body ih => exact fun s hs => h.wrap (ih hrule.2 s hs) kind hrule.1
  | chain kind operand continues link ih₁ ih₂ =>
    obtain ⟨hkind, hoperand, hlink⟩ := hrule
    intro s hs
    rw [Rule.run]
    dsimp only
    split
    · exact h.wrap (h.seq (ih₁ hoperand) (h.repeatWhile continues (ih₂ hlink)) s hs) kind hkind
    · exact ih₁ hoperand s hs
  | loop continues body ih => exact h.repeatWhile continues (ih hrule)
  | list shape item ih =>
    exact h.listRounds shape (fun phase s => h.listRound shape (ih hrule) phase s) .item
  | nested goal =>
    intro s hs
    rw [Rule.run]
    split
    · exact hgoals _ _ s hs
    · exact h.cutOff s hs
  | resume goal => exact hgoals depth goal

/-- Every nonterminal has the property. -/
theorem nonterminal (h : StepInvariant K P) (hgoals : ∀ goal, (Rule.ofNonterminal goal).Makes K)
    (depth : Nat) (goal : Nonterminal) : Holds P (goal.parse depth) := by
  intro s
  induction depth, goal, s using Nonterminal.parse.induct with
  | case1 depth goal s ih =>
    rw [Nonterminal.parse]
    refine h.run (fun depth' goal' s' hs' => ?_) depth (hgoals goal) s
    split
    · next hless => exact ih depth' goal' s' hless hs'
    · exact h.stay s'

/-- **Every rule of the grammar has the property.** -/
theorem rule (h : StepInvariant K P) (hgoals : ∀ goal, (Rule.ofNonterminal goal).Makes K)
    {rule : Rule} (hrule : rule.Makes K) : Holds P rule.parse :=
  h.run (h.nonterminal hgoals) 0 hrule

end StepInvariant

end TolerantSql
