import TolerantSql.Proofs.Adjacency
import TolerantSql.Proofs.Recursion
import TolerantSql.Proofs.StatementTokens

/-!
# Rules carried out as they are written

The interpreter of rules is careful. It repeats a step only if a token was taken,
enters a nonterminal only if less is left to do than before, and leaves the end of a
statement and malformed tokens where a rule asks for a token. All of that makes it a
function that always returns and stays in its statement, but says nothing about the
grammar: a rule that went round in circles would come out as one that stops.

`Unfolds` describes what rules do without any of this care. Repetitions go on as
long as their condition holds, lists until a round ends them, nonterminals are
replaced by their rules however often that happens, and a token is taken whatever
it is. A derivation is a finite computation, and there is at most one for a rule and
a state (`Unfolds.unique`). That there is one has to be shown.

`Rule.Secures` is what it takes, computed from a rule backwards like a weakest
precondition: that each token is one to be taken, that a nonterminal is entered only
behind a token or is one that is ready to be entered, and that each round of a
repetition and each item of a list takes a token. A rule that secures this unfolds
to what the interpreter makes of it (`Rule.Secures.unfolds`), so the care is never
called for.
-/

namespace TolerantSql

/-! ## Carrying rules out -/

/-- **Something to carry out**: a rule, or the rounds of a list from a phase on. -/
inductive Task where
  | rule (r : Rule)
  | rounds (shape : State.ListShape) (item : Rule) (phase : State.ListPhase)

/-- Whether an item of a list begins here. -/
def State.beginsItem (shape : ListShape) (phase : ListPhase) (s : State) : Bool :=
  phase == .item && s.current.kind != .comma && shape.startsItem s.current.kind

/-- **What carrying out a task comes to**, at a nesting depth. Nothing is checked on
the way: repetitions and nonterminals go on as the rules say, and a token is taken
whatever it is. -/
inductive Unfolds : (depth : Nat) → Task → State → Outcome → Prop where
  | done {depth : Nat} {s : State} : Unfolds depth (.rule .done) s s.stay
  | seq {depth : Nat} {first second : Rule} {s : State} {out out' : Outcome}
    (h : Unfolds depth (.rule first) s out) (h' : Unfolds depth (.rule second) out.state out') :
    Unfolds depth (.rule (.seq first second)) s ⟨out.forest ++ out'.forest, out'.state⟩
  | look {depth : Nat} {choose : Lookahead → Rule} {s : State} {out : Outcome}
    (h : Unfolds depth (.rule (choose s.lookahead)) s out) :
    Unfolds depth (.rule (.look choose)) s out
  | shift {depth : Nat} {s : State} : Unfolds depth (.rule .shift) s s.take
  | missing {depth : Nat} {announced : Bool} {what : String} {s : State} :
    Unfolds depth (.rule (.missing announced what)) s (s.missing announced what)
  | expecting {depth : Nat} {message : String} {s : State} :
    Unfolds depth (.rule (.expecting message)) s (s.expecting message)
  | recover {depth : Nat} {announced : Bool} {message : String} {sync : StopSet} {s : State} :
    Unfolds depth (.rule (.recover announced message sync)) s (s.recover announced message sync)
  | node {depth : Nat} {kind : NodeKind} {body : Rule} {s : State} {out : Outcome}
    (h : Unfolds depth (.rule body) s out) :
    Unfolds depth (.rule (.node kind body)) s (out.wrap kind)
  /-- An operand without a link stands for itself. -/
  | lone {depth : Nat} {kind : NodeKind} {operand link : Rule} {continues : Lookahead → Bool}
    {s : State} {out : Outcome} (h : Unfolds depth (.rule operand) s out)
    (hstop : continues out.state.lookahead = false) :
    Unfolds depth (.rule (.chain kind operand continues link)) s out
  | chain {depth : Nat} {kind : NodeKind} {operand link : Rule} {continues : Lookahead → Bool}
    {s : State} {out out' : Outcome} (h : Unfolds depth (.rule operand) s out)
    (hcontinues : continues out.state.lookahead = true)
    (h' : Unfolds depth (.rule (.loop continues link)) out.state out') :
    Unfolds depth (.rule (.chain kind operand continues link)) s
      (Outcome.wrap kind ⟨out.forest ++ out'.forest, out'.state⟩)
  | stop {depth : Nat} {continues : Lookahead → Bool} {body : Rule} {s : State}
    (hstop : continues s.lookahead = false) :
    Unfolds depth (.rule (.loop continues body)) s s.stay
  | again {depth : Nat} {continues : Lookahead → Bool} {body : Rule} {s : State}
    {out out' : Outcome} (hcontinues : continues s.lookahead = true)
    (h : Unfolds depth (.rule body) s out)
    (h' : Unfolds depth (.rule (.loop continues body)) out.state out') :
    Unfolds depth (.rule (.loop continues body)) s ⟨out.forest ++ out'.forest, out'.state⟩
  | list {depth : Nat} {shape : State.ListShape} {item : Rule} {s : State} {out : Outcome}
    (h : Unfolds depth (.rounds shape item .item) s out) :
    Unfolds depth (.rule (.list shape item)) s out
  | item {depth : Nat} {shape : State.ListShape} {item : Rule} {phase : State.ListPhase}
    {s : State} {out out' : Outcome} (hbegins : s.beginsItem shape phase = true)
    (h : Unfolds depth (.rule item) s out)
    (h' : Unfolds depth (.rounds shape item .separator) out.state out') :
    Unfolds depth (.rounds shape item phase) s ⟨out.forest ++ out'.forest, out'.state⟩
  /-- A round without an item, behind which the list goes on. -/
  | round {depth : Nat} {shape : State.ListShape} {item : Rule} {phase phase' : State.ListPhase}
    {s : State} {out out' : Outcome} (hbegins : s.beginsItem shape phase = false)
    (hround : State.listRound shape State.stay phase s = (out, some phase'))
    (h' : Unfolds depth (.rounds shape item phase') out.state out') :
    Unfolds depth (.rounds shape item phase) s ⟨out.forest ++ out'.forest, out'.state⟩
  /-- A round with which the list ends. -/
  | last {depth : Nat} {shape : State.ListShape} {item : Rule} {phase : State.ListPhase}
    {s : State} {out : Outcome} (hbegins : s.beginsItem shape phase = false)
    (hround : State.listRound shape State.stay phase s = (out, none)) :
    Unfolds depth (.rounds shape item phase) s out
  | nested {depth : Nat} {goal : Nonterminal} {s : State} {out : Outcome}
    (hdepth : depth < Rule.maxDepth)
    (h : Unfolds (depth + 1) (.rule (Rule.ofNonterminal goal)) s out) :
    Unfolds depth (.rule (.nested goal)) s out
  | cutOff {depth : Nat} {goal : Nonterminal} {s : State} (hdepth : ¬ depth < Rule.maxDepth) :
    Unfolds depth (.rule (.nested goal)) s s.cutOff
  | resume {depth : Nat} {goal : Nonterminal} {s : State} {out : Outcome}
    (h : Unfolds depth (.rule (Rule.ofNonterminal goal)) s out) :
    Unfolds depth (.rule (.resume goal)) s out

/-- **Carrying out a task comes to one thing only.** -/
theorem Unfolds.unique {depth : Nat} {task : Task} {s : State} {out out' : Outcome}
    (h : Unfolds depth task s out) (h' : Unfolds depth task s out') : out = out' := by
  induction h generalizing out' with
  | done | shift | missing | expecting | recover => cases h'; rfl
  | seq _ _ ih₁ ih₂ =>
    cases h' with
    | seq h₁ h₂ =>
      obtain rfl := ih₁ h₁
      rw [ih₂ h₂]
  | look _ ih => cases h' with | look h => exact ih h
  | node _ ih => cases h' with | node h => rw [ih h]
  | lone _ hstop ih =>
    cases h' with
    | lone h _ => exact ih h
    | chain h hcontinues _ =>
      rw [← ih h, hstop] at hcontinues
      cases hcontinues
  | chain _ hcontinues _ ih₁ ih₂ =>
    cases h' with
    | lone h hstop =>
      rw [← ih₁ h, hcontinues] at hstop
      cases hstop
    | chain h₁ _ h₂ =>
      obtain rfl := ih₁ h₁
      rw [ih₂ h₂]
  | stop hstop =>
    cases h' with
    | stop => rfl
    | again hcontinues => rw [hstop] at hcontinues; cases hcontinues
  | again hcontinues _ _ ih₁ ih₂ =>
    cases h' with
    | stop hstop => rw [hcontinues] at hstop; cases hstop
    | again _ h₁ h₂ =>
      obtain rfl := ih₁ h₁
      rw [ih₂ h₂]
  | list _ ih => cases h' with | list h => exact ih h
  | item hbegins _ _ ih₁ ih₂ =>
    cases h' with
    | item _ h₁ h₂ =>
      obtain rfl := ih₁ h₁
      rw [ih₂ h₂]
    | round hnot | last hnot => rw [hbegins] at hnot; cases hnot
  | round hnot hround _ ih =>
    cases h' with
    | item hbegins => rw [hnot] at hbegins; cases hbegins
    | round _ hround' h₂ =>
      rw [hround] at hround'
      cases hround'
      rw [ih h₂]
    | last _ hround' => rw [hround] at hround'; cases hround'
  | last hnot hround =>
    cases h' with
    | item hbegins => rw [hnot] at hbegins; cases hbegins
    | round _ hround' => rw [hround] at hround'; cases hround'
    | last _ hround' => rw [hround] at hround'; cases hround'; rfl
  | nested hdepth _ ih =>
    cases h' with
    | nested _ h => exact ih h
    | cutOff hnot => exact absurd hdepth hnot
  | cutOff hnot =>
    cases h' with
    | nested hdepth => exact absurd hdepth hnot
    | cutOff => rfl
  | resume _ ih => cases h' with | resume h => exact ih h

/-! ## What a rule has to secure -/

/-- **What is known behind a step**: whether a token has been taken, and what the
next step sees. -/
abbrev Prospect := (taken : Bool) → Lookahead → Prop

/-- **What a rule has to find before it, so that it can be carried out** and `Q` holds
behind it. The flag says whether a token has been taken before; as long as none has,
only the nonterminals that are `ready` may be entered. -/
def Rule.Secures (ready : Nonterminal → Prop) : Rule → Prospect → Prospect
  | .done, Q => Q
  | .seq first second, Q => first.Secures ready (second.Secures ready Q)
  | .look choose, Q => fun taken v => (choose v).Secures ready Q taken v
  | .shift, Q => fun _ v => v.current.isTakeable = true
      ∧ ∀ v', v'.current = v.next → v'.next = v.afterNext → Q true v'
  | .missing .., Q | .expecting _, Q => Q
  | .recover _ _ sync, Q => fun taken v =>
      if sync v.current || v.current.isEof then Q taken v
      else ∀ v', (sync v'.current || v'.current.isEof) = true → Q true v'
  | .node _ body, Q => body.Secures ready Q
  | .chain _ operand continues link, Q => fun taken v =>
      operand.Secures ready (fun taken' v' =>
        if continues v' then ∀ v'', Q true v'' else Q taken' v') taken v
      ∧ ∀ v', continues v' = true → link.Secures ready (fun taken' _ => taken' = true) false v'
  | .loop continues body, Q => fun taken v =>
      (if continues v then ∀ v', Q true v' else Q taken v)
      ∧ ∀ v', continues v' = true → body.Secures ready (fun taken' _ => taken' = true) false v'
  | .list shape item, Q => fun taken _ =>
      (∀ v', Q taken v') ∧ ∀ v', shape.startsItem v'.current = true → item.Secures
        (fun goal => taken = true ∨ ready goal) (fun taken' _ => taken' = true) false v'
  | .nested goal, Q | .resume goal, Q => fun taken v =>
      (taken = true ∨ ready goal) ∧ ∀ v', Q (taken || v.current.startsExpression) v'

/-! ## Steps that take a token -/

namespace State

variable {s : State}

/-- A step that takes nothing leaves what rules see. -/
theorem lookahead_of_took {out : Outcome} (h : Took [] s out) :
    out.state.lookahead = s.lookahead := by
  unfold lookahead current
  rw [h.input_eq]

/-- Where the current token does not fit, recovery takes it. -/
theorem remaining_recover_lt (hs : s.input.Lawful) (announced : Bool) (message : String)
    {sync : StopSet} (h : (sync s.current.kind || s.atEof) = false) :
    (s.recover announced message sync).state.remaining < s.remaining := by
  obtain ⟨hsync, hend⟩ := Bool.or_eq_false_iff.1 h
  rw [atEof_eq hs, List.isEmpty_eq_false_iff] at hend
  obtain ⟨l, rest, hpending⟩ := List.exists_cons_of_ne_nil hend
  refine (Took.recover hs announced message sync).remaining_lt ?_
  rw [current, TokenStream.current_cons hpending] at hsync
  rw [hpending, List.takeWhile_cons, hsync]
  exact List.cons_ne_nil _ _

/-- Where the current token fits or nothing is to come, recovery takes nothing. -/
theorem took_recover_of_sync (hs : s.input.Lawful) (announced : Bool) (message : String)
    {sync : StopSet} (h : (sync s.current.kind || s.atEof) = true) :
    Took [] s (s.recover announced message sync) := by
  have htook := Took.recover hs announced message sync
  cases hpending : s.input.pending with
  | nil => rwa [hpending] at htook
  | cons l rest =>
    have hend : s.atEof = false := by
      rw [atEof_eq hs, hpending]
      rfl
    rw [hend, Bool.or_false, current, TokenStream.current_cons hpending] at h
    rwa [hpending, List.takeWhile_cons, h] at htook

/-- Skipping what is left of an expression takes the token that starts it. -/
theorem forest_takeBalanced_cons (hs : s.input.Lawful)
    (h : s.current.kind.startsExpression = true) :
    ∃ f, s.takeBalanced.forest = .token s.current :: f := by
  have hend : s.atEnd = false := by
    unfold atEnd
    cases hkind : s.current.kind <;> rw [hkind] at h <;> first | rfl | cases h
  obtain ⟨l, rest, hpending⟩ := exists_pending hs hend
  rw [current, TokenStream.current_cons hpending] at h
  rw [takeBalanced, hpending, takeBalanced.go]
  split
  · next hkind => rw [hkind] at h; cases h
  · next hkind => rw [hkind] at h; cases h
  · next hkind => rw [hkind] at h; cases h
  · exact ⟨_, rfl⟩
  · exact ⟨_, rfl⟩

/-- **An expression that is cut off is not left where it starts.** -/
theorem remaining_cutOff_lt (hs : s.input.Lawful)
    (h : s.current.kind.startsExpression = true) : s.cutOff.state.remaining < s.remaining := by
  have hexpecting := Took.expecting s "expression nested too deeply"
  have hlawful := hexpecting.lawful hs
  obtain ⟨taken, htook⟩ := Took.takeBalanced hlawful
  obtain ⟨f, hforest⟩ := forest_takeBalanced_cons hlawful (hexpecting.current_eq.symm ▸ h)
  have hne : taken ≠ [] := by
    rintro rfl
    have hterminals := htook.terminals
    rw [hforest] at hterminals
    cases hterminals
  have hless := htook.remaining_lt hne
  rw [remaining, remaining, hexpecting.input_eq] at hless
  rw [cutOff, Outcome.andThen]
  dsimp only
  rw [hforest]
  exact hless

/-! ### Lists -/

section Lists

variable {shape : ListShape} {item item' : Parse} {phase phase' : ListPhase} {out : Outcome}

theorem listRound_of_beginsItem (h : s.beginsItem shape phase = true) :
    listRound shape item phase s = (item s, some .separator) := by
  unfold beginsItem at h
  rw [Bool.and_eq_true, Bool.and_eq_true, beq_iff_eq, bne_iff_ne] at h
  obtain ⟨⟨rfl, hcomma⟩, hstarts⟩ := h
  unfold listRound
  dsimp only
  rw [if_neg (by simpa using hcomma), if_pos hstarts]

/-- Where no item begins, it does not matter how items are parsed. -/
theorem listRound_of_not_beginsItem (h : s.beginsItem shape phase = false) :
    listRound shape item phase s = listRound shape item' phase s := by
  cases phase with
  | separator => rfl
  | item =>
    unfold listRound
    dsimp only
    split_ifs with hcomma hstarts
    · rfl
    · simp_all [beginsItem]
    · rfl
    · rfl

/-- **Every round of a list leaves less to do**, if items take a token. -/
theorem listWeight_listRound_lt (hs : s.input.Lawful)
    (hitem : s.beginsItem shape phase = true → (item s).state.remaining < s.remaining)
    (hround : listRound shape item phase s = (out, some phase')) :
    listWeight phase' out.state < listWeight phase s := by
  have hcomma (s' : State) (hs' : s'.input.Lawful) (h : s'.current.kind = .comma) :
      s'.take.state.remaining < s'.remaining := by
    rw [← shift_comma h]
    exact remaining_shift hs' (by rw [h]; rfl)
  -- what is neither an item nor a comma nor the end of the list is skipped
  have hnoise (message : String) (hk : ¬ (s.current.kind == .comma) = true)
      (hstarts : ¬ shape.startsItem s.current.kind = true)
      (hfollows : ¬ (s.atEof || shape.follows s.current.kind) = true) :
      (s.recover false message shape.resumes).state.remaining < s.remaining := by
    rw [Bool.not_eq_true] at hk hstarts hfollows
    rw [Bool.or_eq_false_iff] at hfollows
    refine remaining_recover_lt hs false message ?_
    show (shape.startsItem _ || shape.follows _ || _ || _) = false
    rw [hstarts, hfollows.2, hk, hfollows.1]
    rfl
  unfold listWeight
  cases phase with
  | item =>
    unfold listRound at hround
    dsimp only at hround
    rw [listSkip_eq hs] at hround
    split_ifs at hround with hk hstarts hfollows <;> cases hround
    · have hmissing := Took.missing s true shape.label
      have hless := hcomma _ (hmissing.lawful hs) (hmissing.current_eq ▸ beq_iff_eq.1 hk)
      rw [remaining, remaining, hmissing.input_eq] at hless
      show 2 * (take _).state.remaining + 0 < 2 * s.remaining + 0
      unfold remaining
      omega
    · have hless := hitem (by simp_all [beginsItem])
      dsimp only
      omega
    · have hless := hnoise ("expecting " ++ shape.label) hk hstarts hfollows
      dsimp only
      omega
  | separator =>
    unfold listRound at hround
    dsimp only at hround
    rw [listSkip_eq hs] at hround
    split_ifs at hround with hk hfollows hstarts <;> cases hround
    · have hless := hcomma s hs (beq_iff_eq.1 hk)
      dsimp only
      omega
    · -- nothing is taken, and an item is to come
      have hsame : (s.add (.missing "missing comma")).state.remaining = s.remaining := rfl
      dsimp only
      omega
    · have hless := hnoise "expecting comma" hk hstarts hfollows
      dsimp only
      omega

end Lists

end State

/-! ## Carrying out a rule that is secured -/

/-- Every rule takes lexemes from the front of the input. -/
theorem Rule.exists_took (r : Rule) (depth : Nat) {s : State} (hs : s.input.Lawful) :
    ∃ taken, Took taken s (r.run Nonterminal.parse depth s) :=
  steady_run (Took.stepInvariant.nonterminal fun _ => makes_any _) depth r s hs

/-- **What is known of nonterminals** where fewer than `bound` tokens are to come, and
at the bound of those that are ready: they unfold to what they are parsed as, and take
a token where an expression can start. -/
def GoalsUnfold (ready : Nonterminal → Prop) (bound : Nat) : Prop :=
  ∀ (depth : Nat) (goal : Nonterminal) (s : State), s.input.Lawful →
    s.remaining < bound ∨ s.remaining ≤ bound ∧ ready goal →
    Unfolds depth (.rule (Rule.ofNonterminal goal)) s (goal.parse depth s)
      ∧ (s.current.kind.startsExpression = true →
        (goal.parse depth s).state.remaining < s.remaining)

/-- Behind a token that was taken, every nonterminal is ready. -/
theorem GoalsUnfold.of_taken {ready : Nonterminal → Prop} {bound : Nat} {taken : Bool} {s : State}
    (hgoals : GoalsUnfold ready bound) (hle : s.remaining ≤ bound)
    (htaken : taken = true → s.remaining < bound) :
    GoalsUnfold (fun goal => taken = true ∨ ready goal) s.remaining := by
  intro depth goal s' hs' hmeasure
  refine hgoals depth goal s' hs' ?_
  rcases hmeasure with hless | ⟨hle', ht | hready⟩
  · exact .inl (Nat.lt_of_lt_of_le hless hle)
  · exact .inl (Nat.lt_of_le_of_lt hle' (htaken ht))
  · exact .inr ⟨Nat.le_trans hle' hle, hready⟩

/-- **A rule that is carried out**: it unfolds to what the interpreter makes of it, and
`Q` holds behind it. -/
def Rule.Carries (depth : Nat) (r : Rule) (Q : Prospect) (taken : Bool) (s : State) : Prop :=
  Unfolds depth (.rule r) s (r.run Nonterminal.parse depth s)
    ∧ ∃ taken', (taken' = true →
        taken = true ∨ (r.run Nonterminal.parse depth s).state.remaining < s.remaining)
      ∧ Q taken' (r.run Nonterminal.parse depth s).state.lookahead

namespace Rule

variable {ready : Nonterminal → Prop} {bound depth : Nat} {Q : Prospect} {taken : Bool}
  {s : State}

/-- **A repetition whose rounds take a token** is carried out without a guard. -/
theorem unfolds_loop {continues : Lookahead → Bool} {body : Rule}
    (hbody : ∀ s : State, s.input.Lawful → s.remaining ≤ bound → continues s.lookahead = true →
      body.Carries depth (fun taken _ => taken = true) false s)
    (hs : s.input.Lawful) (hle : s.remaining ≤ bound) :
    Unfolds depth (.rule (.loop continues body)) s
        (s.repeatWhile continues (body.run Nonterminal.parse depth))
      ∧ (continues s.lookahead = true →
        (s.repeatWhile continues (body.run Nonterminal.parse depth)).state.remaining
          < s.remaining) := by
  induction s using State.repeatWhile.induct continues (body.run Nonterminal.parse depth) with
  | case1 s hcontinues out hless ih =>
    obtain ⟨took, htook⟩ := body.exists_took depth hs
    obtain ⟨took', htook'⟩ := (loop continues body).exists_took depth (htook.lawful hs)
    have hmore := ih (htook.lawful hs) (Nat.le_trans htook.remaining_le hle)
    rw [State.repeatWhile_of_progress hcontinues hless]
    refine ⟨.again hcontinues (hbody s hs hle hcontinues).1 hmore.1, fun _ => ?_⟩
    exact Nat.lt_of_le_of_lt htook'.remaining_le hless
  | case2 s hcontinues out hless =>
    obtain ⟨-, taken', hprogress, rfl⟩ := hbody s hs hle hcontinues
    exact absurd ((hprogress rfl).resolve_left Bool.false_ne_true) hless
  | case3 s hstop =>
    rw [State.repeatWhile_of_stop (Bool.eq_false_iff.2 hstop)]
    exact ⟨.stop (Bool.eq_false_iff.2 hstop), fun h => absurd h hstop⟩

/-- **A list whose items take a token** is carried out without a guard. -/
theorem unfolds_rounds {shape : State.ListShape} {item : Rule}
    (hitem : ∀ s : State, s.input.Lawful → s.remaining ≤ bound →
      shape.startsItem s.current.kind = true →
      item.Carries depth (fun taken _ => taken = true) false s)
    (phase : State.ListPhase) (hs : s.input.Lawful) (hle : s.remaining ≤ bound) :
    Unfolds depth (.rounds shape item phase) s
      (s.listRounds shape (item.run Nonterminal.parse depth) phase) := by
  have hstarts {phase : State.ListPhase} {s : State} (h : s.beginsItem shape phase = true) :
      shape.startsItem s.current.kind = true := ((Bool.and_eq_true _ _).mp h).2
  -- no round is the last for want of progress
  have hweight {phase phase' : State.ListPhase} {s : State} {out : Outcome}
      (hs : s.input.Lawful) (hle : s.remaining ≤ bound)
      (hround : State.listRound shape (item.run Nonterminal.parse depth) phase s
        = (out, some phase')) :
      State.listWeight phase' out.state < State.listWeight phase s := by
    refine State.listWeight_listRound_lt hs (fun hbegins => ?_) hround
    obtain ⟨-, taken', hprogress, rfl⟩ := hitem s hs hle (hstarts hbegins)
    exact (hprogress rfl).resolve_left Bool.false_ne_true
  induction phase, s using State.listRounds.induct shape (item.run Nonterminal.parse depth) with
  | case1 phase s out hround =>
    rw [State.listRounds_of_last hround]
    cases hbegins : s.beginsItem shape phase with
    | true => rw [State.listRound_of_beginsItem hbegins] at hround; cases hround
    | false => exact .last hbegins ((State.listRound_of_not_beginsItem hbegins).trans hround)
  | case2 phase s out phase' hround hless ih =>
    obtain ⟨took, htook⟩ := Took.stepInvariant.listRound shape
      (fun _ hs => item.exists_took depth hs) phase s hs
    rw [hround] at htook
    have hmore := ih (htook.lawful hs) (Nat.le_trans htook.remaining_le hle)
    rw [State.listRounds_of_progress hround hless]
    cases hbegins : s.beginsItem shape phase with
    | true =>
      rw [State.listRound_of_beginsItem hbegins] at hround
      cases hround
      exact .item hbegins (hitem s hs hle (hstarts hbegins)).1 hmore
    | false => exact .round hbegins ((State.listRound_of_not_beginsItem hbegins).trans hround) hmore
  | case3 phase s out phase' hround hless => exact absurd (hweight hs hle hround) hless

/-! ### One kind of rule after the other -/

/-- Behind the first of two rules, the second starts with what the first took. -/
theorem Carries.seq {first second : Rule} {Q' : Prospect} (hs : s.input.Lawful)
    (hle : s.remaining ≤ bound) (htaken : taken = true → s.remaining < bound)
    (h : first.Carries depth Q' taken s)
    (h' : ∀ (taken' : Bool) (s' : State), s'.input.Lawful → s'.remaining ≤ bound →
      (taken' = true → s'.remaining < bound) → Q' taken' s'.lookahead →
      second.Carries depth Q taken' s') : (seq first second).Carries depth Q taken s := by
  obtain ⟨hfirst, taken₁, hprogress₁, h₁⟩ := h
  obtain ⟨took, htook⟩ := first.exists_took depth hs
  have hle₁ := htook.remaining_le
  have htaken₁ (ht : taken₁ = true) :
      (first.run Nonterminal.parse depth s).state.remaining < bound := by
    rcases hprogress₁ ht with ht | hless
    · exact Nat.lt_of_le_of_lt hle₁ (htaken ht)
    · exact Nat.lt_of_lt_of_le hless hle
  obtain ⟨hsecond, taken₂, hprogress₂, h₂⟩ :=
    h' taken₁ _ (htook.lawful hs) (Nat.le_trans hle₁ hle) htaken₁ h₁
  obtain ⟨took', htook'⟩ := second.exists_took depth (htook.lawful hs)
  have hle₂ := htook'.remaining_le
  refine ⟨.seq hfirst hsecond, taken₂, fun ht => ?_, h₂⟩
  show taken = true ∨ (second.run _ _ _).state.remaining < s.remaining
  rcases hprogress₂ ht with ht | hless
  · exact (hprogress₁ ht).imp_right (Nat.lt_of_le_of_lt hle₂)
  · exact .inr (Nat.lt_of_lt_of_le hless hle₁)

theorem carries_shift (hs : s.input.Lawful) (htakeable : s.lookahead.current.isTakeable = true)
    (hpost : ∀ v', v'.current = s.lookahead.next → v'.next = s.lookahead.afterNext → Q true v') :
    Rule.shift.Carries depth Q taken s := by
  have hend : s.atEnd = false := by
    rw [TokenKind.isTakeable, Bool.and_eq_true, Bool.not_eq_true'] at htakeable
    exact htakeable.1
  obtain ⟨hcurrent, hnext⟩ := Meets.lookahead_take s
  have hless := State.remaining_shift hs htakeable
  have hshift : Rule.shift.run Nonterminal.parse depth s = s.take :=
    State.shift_of_isTakeable htakeable
  rw [State.shift_of_isTakeable htakeable] at hless
  rw [Carries, hshift]
  exact ⟨.shift, true, fun _ => .inr hless, hpost _ hcurrent hnext⟩

/-- Recovery takes the current token unless it fits, and then nothing. -/
theorem carries_recover {announced : Bool} {message : String} {sync : StopSet}
    (hs : s.input.Lawful)
    (h : (recover announced message sync).Secures ready Q taken s.lookahead) :
    (recover announced message sync).Carries depth Q taken s := by
  refine ⟨.recover, ?_⟩
  show ∃ taken', (_ → _ ∨ (s.recover announced message sync).state.remaining < _) ∧ _
  unfold Secures at h
  split at h
  · next hsync =>
    have hsame := State.lookahead_of_took
      (State.took_recover_of_sync hs announced message hsync)
    exact ⟨taken, .inl, hsame.symm ▸ h⟩
  · next hsync =>
    refine ⟨true, fun _ => .inr ?_, h _ ?_⟩
    · exact State.remaining_recover_lt hs announced message (Bool.eq_false_of_not_eq_true hsync)
    · exact (Bool.or_eq_true _ _).mpr (State.current_recover hs announced message sync)

theorem Carries.chain {kind : NodeKind} {operand link : Rule} {continues : Lookahead → Bool}
    (hs : s.input.Lawful) (hle : s.remaining ≤ bound)
    (h : operand.Carries depth
      (fun taken' v' => if continues v' then ∀ v'', Q true v'' else Q taken' v') taken s)
    (hlink : ∀ s : State, s.input.Lawful → s.remaining ≤ bound → continues s.lookahead = true →
      link.Carries depth (fun taken _ => taken = true) false s) :
    (chain kind operand continues link).Carries depth Q taken s := by
  obtain ⟨hunfolds, taken₁, hprogress, hpost⟩ := h
  obtain ⟨took, htook⟩ := operand.exists_took depth hs
  cases hcontinues : continues (operand.run Nonterminal.parse depth s).state.lookahead with
  | false =>
    rw [hcontinues] at hpost
    rw [Carries, run_chain_of_stop hcontinues]
    exact ⟨.lone hunfolds hcontinues, taken₁, hprogress, hpost⟩
  | true =>
    rw [hcontinues] at hpost
    obtain ⟨hlinks, hless⟩ := unfolds_loop hlink (htook.lawful hs)
      (Nat.le_trans htook.remaining_le hle)
    rw [Carries, run_chain_of_continues hcontinues]
    refine ⟨.chain hunfolds hcontinues hlinks, true, fun _ => .inr ?_, hpost _⟩
    exact Nat.lt_of_lt_of_le (hless hcontinues) htook.remaining_le

theorem carries_loop {continues : Lookahead → Bool} {body : Rule} (hs : s.input.Lawful)
    (hle : s.remaining ≤ bound)
    (hpost : if continues s.lookahead then ∀ v', Q true v' else Q taken s.lookahead)
    (hbody : ∀ s : State, s.input.Lawful → s.remaining ≤ bound → continues s.lookahead = true →
      body.Carries depth (fun taken _ => taken = true) false s) :
    (loop continues body).Carries depth Q taken s := by
  obtain ⟨hunfolds, hless⟩ := unfolds_loop hbody hs hle
  have hrun : (loop continues body).run Nonterminal.parse depth s
      = s.repeatWhile continues (body.run Nonterminal.parse depth) := rfl
  refine ⟨hunfolds, ?_⟩
  rw [hrun]
  cases hcontinues : continues s.lookahead with
  | false =>
    rw [hcontinues, if_neg Bool.false_ne_true] at hpost
    rw [State.repeatWhile_of_stop hcontinues]
    exact ⟨taken, .inl, hpost⟩
  | true =>
    rw [hcontinues] at hpost
    exact ⟨true, fun _ => .inr (hless hcontinues), hpost _⟩

/-- A nonterminal within the bound on nesting. -/
theorem carries_nested {goal : Nonterminal} (hgoals : GoalsUnfold ready bound)
    (hs : s.input.Lawful) (hready : s.remaining < bound ∨ s.remaining ≤ bound ∧ ready goal)
    (hpost : ∀ v', Q (taken || s.lookahead.current.startsExpression) v') :
    (nested goal).Carries depth Q taken s := by
  by_cases hdepth : depth < maxDepth
  · have hrun : (nested goal).run Nonterminal.parse depth s = goal.parse (depth + 1) s := by
      rw [run, if_pos hdepth]
    obtain ⟨hunfolds, hless⟩ := hgoals (depth + 1) goal s hs hready
    rw [Carries, hrun]
    exact ⟨.nested hdepth hunfolds, _,
      fun ht => ((Bool.or_eq_true _ _).mp ht).imp_right hless, hpost _⟩
  · have hrun : (nested goal).run Nonterminal.parse depth s = s.cutOff := by
      rw [run, if_neg hdepth]
    rw [Carries, hrun]
    exact ⟨.cutOff hdepth, _,
      fun ht => ((Bool.or_eq_true _ _).mp ht).imp_right (State.remaining_cutOff_lt hs), hpost _⟩

/-- **A rule that is secured is carried out**, if nonterminals are as far as they may be
entered. -/
theorem Secures.carries {r : Rule} (depth : Nat) (hgoals : GoalsUnfold ready bound)
    (hs : s.input.Lawful)
    (hle : s.remaining ≤ bound) (htaken : taken = true → s.remaining < bound)
    (h : r.Secures ready Q taken s.lookahead) : r.Carries depth Q taken s := by
  -- a round of a repetition starts afresh, with no token taken
  have hfresh {bound : Nat} {s : State} : false = true → s.remaining < bound :=
    (absurd · Bool.false_ne_true)
  induction r generalizing ready bound Q taken s with
  | done => exact ⟨.done, taken, .inl, h⟩
  | seq first second ih₁ ih₂ =>
    exact .seq hs hle htaken (ih₁ hgoals hs hle htaken h) fun _ _ => ih₂ hgoals
  | look choose ih =>
    obtain ⟨hunfolds, hpost⟩ := ih s.lookahead hgoals hs hle htaken h
    exact ⟨.look hunfolds, hpost⟩
  | shift => exact carries_shift hs h.1 h.2
  | missing announced what =>
    have hsame := State.lookahead_of_took (Took.missing s announced what)
    exact ⟨.missing, taken, .inl, hsame.symm ▸ h⟩
  | expecting message =>
    have hsame := State.lookahead_of_took (Took.expecting s message)
    exact ⟨.expecting, taken, .inl, hsame.symm ▸ h⟩
  | recover announced message sync => exact carries_recover hs h
  | node kind body ih =>
    obtain ⟨hunfolds, hpost⟩ := ih hgoals hs hle htaken h
    exact ⟨.node hunfolds, hpost⟩
  | chain kind operand continues link ih₁ ih₂ =>
    obtain ⟨hoperand, hlink⟩ := h
    exact .chain hs hle (ih₁ hgoals hs hle htaken hoperand) fun _ hs' hle' hcontinues =>
      ih₂ hgoals hs' hle' hfresh (hlink _ hcontinues)
  | loop continues body ih =>
    obtain ⟨hpost, hbody⟩ := h
    exact carries_loop hs hle hpost fun _ hs' hle' hcontinues =>
      ih hgoals hs' hle' hfresh (hbody _ hcontinues)
  | list shape item ih =>
    obtain ⟨hpost, hitem⟩ := h
    have hrounds := unfolds_rounds (fun _ hs' hle' hstarts =>
      ih (hgoals.of_taken hle htaken) hs' hle' hfresh (hitem _ hstarts)) .item hs
      (Nat.le_refl _)
    exact ⟨.list hrounds, taken, .inl, hpost _⟩
  | nested goal =>
    obtain ⟨hready, hpost⟩ := h
    exact carries_nested hgoals hs (hready.imp htaken fun hready => ⟨hle, hready⟩) hpost
  | resume goal =>
    obtain ⟨hready, hpost⟩ := h
    obtain ⟨hunfolds, hless⟩ := hgoals depth goal s hs
      (hready.imp htaken fun hready => ⟨hle, hready⟩)
    exact ⟨.resume hunfolds, _, fun ht => ((Bool.or_eq_true _ _).mp ht).imp_right hless, hpost _⟩

/-- **Nonterminals unfold to what they are parsed as**, if their rules secure that a
token is taken where an expression can start, and enter nothing before that but
nonterminals of a lower rank. -/
theorem goalsUnfold
    (hrules : ∀ (goal : Nonterminal) (v : Lookahead), (ofNonterminal goal).Secures
      (fun goal' => goal'.rank < goal.rank)
      (fun taken _ => v.current.startsExpression = true → taken = true) false v)
    (bound : Nat) : GoalsUnfold (fun _ => True) bound := by
  intro depth goal s hs hbound
  clear hbound
  generalize hweight : goal.weight s = weight
  induction weight using Nat.strongRecOn generalizing depth goal s with
  | _ weight ih =>
    have hgoals : GoalsUnfold (fun goal' => goal'.rank < goal.rank) s.remaining := by
      intro depth' goal' s' hs' hmeasure
      refine ih _ ?_ depth' goal' s' hs' rfl
      rw [← hweight, Nonterminal.weight, Nonterminal.weight]
      have hrank : goal'.rank ≤ 2 := by cases goal' <;> decide
      omega
    obtain ⟨hunfolds, taken, hprogress, htaken⟩ :=
      (hrules goal s.lookahead).carries depth hgoals hs (Nat.le_refl _)
        fun ht => absurd ht Bool.false_ne_true
    rw [Nonterminal.parse_eq_run hs fun _ _ _ _ _ => rfl]
    refine ⟨hunfolds, fun hstarts => ?_⟩
    exact (hprogress (htaken hstarts)).resolve_left Bool.false_ne_true

end Rule

end TolerantSql
