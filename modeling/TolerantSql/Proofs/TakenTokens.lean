import TolerantSql.Proofs.RuleInduction

/-!
# What a step takes from the input

The steps of a parse take lexemes from the front of the stream, one after the
other, and whatever is taken ends up in the trees. `Took` says this of a step in
full: which lexemes it took, that none of them ends a statement, that their
tokens are the tokens of the trees added, and that their comments are filed. It
holds of the primitive steps and composes, so it holds of every rule
(`Took.rule`); for the steps that skip, the lexemes taken are named exactly.

What is not said is anything about the trees but their leaves: which nodes
there are is for each rule to decide, and no rule can lose a token by it.
-/

namespace TolerantSql

/-- Only a semicolon and the end of the input end a statement. -/
theorem Token.endsStatement_eq_false {t : Token} (h : t.isEof = false)
    (hne : t.kind ≠ .semicolon) : t.kind.endsStatement = false := by
  rw [isEof] at h
  cases hkind : t.kind <;> rw [hkind] at h hne <;>
    first | rfl | exact absurd rfl hne | cases h

theorem Token.kind_eq_eof {t : Token} (h : t.isEof = true) : t.kind = .eof := by
  rw [isEof] at h
  cases hkind : t.kind <;> rw [hkind] at h <;> first | rfl | cases h

/-! ## Streams -/

namespace TokenStream

theorem current_nil {input : TokenStream} (h : input.pending = []) :
    input.current = input.last := by
  rw [current, h]
  rfl

theorem current_cons {input : TokenStream} {l : Lexeme} {rest : List Lexeme}
    (h : input.pending = l :: rest) : input.current = l := by
  rw [current, h]
  rfl

theorem advance_cons {input : TokenStream} {l : Lexeme} {rest : List Lexeme}
    (h : input.pending = l :: rest) : input.advance = ⟨rest, input.last⟩ := by
  rw [advance, h]

theorem advance_nil {input : TokenStream} (h : input.pending = []) :
    input.advance = ⟨[], ⟨input.last.token, []⟩⟩ := by
  rw [advance, h]

theorem Lawful.advance {input : TokenStream} (h : input.Lawful) : input.advance.Lawful := by
  cases hpending : input.pending with
  | nil =>
    rw [advance_nil hpending]
    exact ⟨nofun, h.last⟩
  | cons l rest =>
    rw [advance_cons hpending]
    exact ⟨fun l' hl' => h.pending l' (hpending ▸ List.mem_cons_of_mem _ hl'), h.last⟩

end TokenStream

namespace State

/-- At the end of the input there is nothing to come. -/
theorem atEof_eq {s : State} (hs : s.input.Lawful) : s.atEof = s.input.pending.isEmpty := by
  unfold atEof current
  cases h : s.input.pending with
  | nil =>
    rw [TokenStream.current_nil h, hs.last]
    rfl
  | cons l rest =>
    rw [TokenStream.current_cons h, hs.pending l (h ▸ List.mem_cons_self)]
    rfl

/-- What is to come behind a token that was taken. -/
theorem pending_take {s : State} {l : Lexeme} {rest : List Lexeme}
    (h : s.input.pending = l :: rest) : s.take.state.input.pending = rest := by
  rw [take, advance, TokenStream.advance_cons h]

/-- **Taking tokens while a condition holds**, in closed form: the longest run of tokens
for which it holds goes into the tree, the comments before them are filed, and the rest
is still to come. -/
theorem takeWhile_eq (p : Token → Bool) (s : State) :
    s.takeWhile p =
      let taken := s.input.pending.takeWhile fun l => p l.token
      ⟨taken.map fun l => .token l.token,
        { s with
          input := ⟨s.input.pending.dropWhile fun l => p l.token, s.input.last⟩
          comments := taken.foldl (fun m l => m.insert l.token l.comments) s.comments }⟩ := by
  rw [takeWhile]
  generalize hpending : s.input.pending = pending
  induction pending generalizing s with
  | nil =>
    have hinput : s.input = ⟨[], s.input.last⟩ := by rw [← hpending]
    show s.stay = ⟨[], { s with input := ⟨[], s.input.last⟩ }⟩
    rw [← hinput]
    rfl
  | cons l rest ih =>
    have hinput : s.input = ⟨l :: rest, s.input.last⟩ := by rw [← hpending]
    rw [takeWhile.go, List.takeWhile_cons, List.dropWhile_cons]
    split
    · rw [Outcome.andThen, ih _ (pending_take hpending), take, advance, current,
        TokenStream.current_cons hpending, TokenStream.advance_cons hpending]
      rfl
    · show s.stay = ⟨[], { s with input := ⟨l :: rest, s.input.last⟩ }⟩
      rw [← hinput]
      rfl

section Run

variable {s : State} {p : Token → Bool}

/-- There is no run of tokens where the current one does not belong to it. -/
theorem takeWhile_pending_eq_nil (h : p s.current = false) :
    (s.input.pending.takeWhile fun l => p l.token) = [] := by
  cases hpending : s.input.pending with
  | nil => rfl
  | cons l rest =>
    rw [current, TokenStream.current_cons hpending] at h
    rw [List.takeWhile_cons, h]
    rfl

/-- There is a run of tokens where the current one belongs to it, unless that is the end of
the input. -/
theorem takeWhile_pending_ne_nil (hs : s.input.Lawful) (hend : s.atEof = false)
    (h : p s.current = true) : (s.input.pending.takeWhile fun l => p l.token) ≠ [] := by
  rw [atEof_eq hs, List.isEmpty_eq_false_iff] at hend
  obtain ⟨l, rest, hpending⟩ := List.exists_cons_of_ne_nil hend
  rw [current, TokenStream.current_cons hpending] at h
  rw [hpending, List.takeWhile_cons, h]
  exact List.cons_ne_nil _ _

end Run

/-- Where the statement goes on, there is a token to come. -/
theorem exists_pending {s : State} (hs : s.input.Lawful) (hend : s.atEnd = false) :
    ∃ l rest, s.input.pending = l :: rest := by
  cases hpending : s.input.pending with
  | cons l rest => exact ⟨l, rest, rfl⟩
  | nil =>
    have hlast := hs.last
    rw [atEnd, current, TokenStream.current_nil hpending] at hend
    rw [Token.isEof] at hlast
    cases hkind : s.input.last.token.kind <;> rw [hkind] at hlast hend <;> cases hlast
    cases hend

/-- Where the input has not ended, a report is an error of its own. -/
theorem forest_report_eq {s : State} (hend : s.atEof = false) (announced : Bool)
    (message : String) :
    (s.report announced message).forest = [.error (.expecting message)] := by
  cases announced
  · rfl
  · rw [report, if_pos rfl, expecting, hend]
    rfl

end State

/-! ## What a step takes -/

/-- **What a step takes from the input**: the lexemes at the front, none of which
ends a statement. Their tokens are the tokens of the trees added, in order and
each once, and their comments are filed. -/
structure Took (taken : List Lexeme) (s : State) (out : Outcome) : Prop where
  pending : s.input.pending = taken ++ out.state.input.pending
  last : out.state.input.last = s.input.last
  inside : ∀ l ∈ taken, l.token.kind.endsStatement = false
  terminals : Forest.terminals out.forest = taken.map Lexeme.token
  concrete : Leaf.placeholder ∉ Forest.leaves out.forest
  comments : out.state.comments = taken.foldl (fun m l => m.insert l.token l.comments) s.comments

namespace Took

variable {s : State} {out out' : Outcome} {taken taken' : List Lexeme}

/-- A step that only reports takes nothing. -/
theorem nothing (hinput : out.state.input = s.input) (hcomments : out.state.comments = s.comments)
    (hleaves : ∀ leaf ∈ Forest.leaves out.forest, ∃ e, leaf = .error e) : Took [] s out where
  pending := by rw [hinput]; rfl
  last := by rw [hinput]
  inside := nofun
  terminals := by
    refine List.filterMap_eq_nil_iff.2 fun leaf hleaf => ?_
    obtain ⟨e, rfl⟩ := hleaves leaf hleaf
    rfl
  concrete hleaf := by
    obtain ⟨e, he⟩ := hleaves _ hleaf
    cases he
  comments := hcomments

/-- A step leaves the stream lawful. -/
theorem lawful (h : Took taken s out) (hs : s.input.Lawful) : out.state.input.Lawful where
  pending l hl := hs.pending l (h.pending ▸ List.mem_append_right _ hl)
  last := h.last ▸ hs.last

/-- A step that takes nothing leaves the input. -/
theorem input_eq (h : Took [] s out) : out.state.input = s.input := by
  cases hin : out.state.input
  cases hin' : s.input
  have hpending := h.pending
  have hlast := h.last
  rw [hin, hin'] at hpending hlast
  rw [TokenStream.mk.injEq]
  exact ⟨hpending.symm, hlast⟩

/-- A step that takes nothing leaves the current token. -/
theorem current_eq (h : Took [] s out) : out.state.current = s.current := by
  rw [State.current, h.input_eq, State.current]

theorem stay (s : State) : Took [] s s.stay := nothing rfl rfl nofun

theorem terminals_append (f g : Forest) :
    Forest.terminals (f ++ g) = Forest.terminals f ++ Forest.terminals g := by
  simp [Forest.terminals]

theorem andThen (h : Took taken s out) (h' : Took taken' out.state out') :
    Took (taken ++ taken') s ⟨out.forest ++ out'.forest, out'.state⟩ where
  pending := by rw [h.pending, h'.pending, List.append_assoc]
  last := h'.last.trans h.last
  inside := List.forall_mem_append.2 ⟨h.inside, h'.inside⟩
  terminals := by rw [terminals_append, h.terminals, h'.terminals, List.map_append]
  concrete := by
    rw [Forest.leaves_append, List.mem_append]
    exact not_or.2 ⟨h.concrete, h'.concrete⟩
  comments := by rw [h'.comments, h.comments, List.foldl_append]

theorem wrap (h : Took taken s out) (kind : NodeKind) : Took taken s (out.wrap kind) where
  pending := h.pending
  last := h.last
  inside := h.inside
  terminals := by
    rw [← h.terminals, Outcome.wrap, Forest.terminals, Forest.leaves_cons, Forest.leaves_nil,
      List.append_nil]
    rfl
  concrete := by
    rw [Outcome.wrap, Forest.leaves_cons, Forest.leaves_nil, List.append_nil]
    exact h.concrete
  comments := h.comments

/-- Logging takes nothing. -/
theorem logging (h : Took taken s out) (event : Event) :
    Took taken s ⟨out.forest, out.state.logging event⟩ :=
  ⟨h.pending, h.last, h.inside, h.terminals, h.concrete, h.comments⟩

/-- Taking a token that does not end the statement. -/
theorem take {l : Lexeme} {rest : List Lexeme} (hpending : s.input.pending = l :: rest)
    (hl : l.token.kind.endsStatement = false) : Took [l] s s.take := by
  have hcurrent := TokenStream.current_cons hpending
  have hadvance := TokenStream.advance_cons hpending
  constructor
  · rw [State.take, State.advance, hadvance, hpending]; rfl
  · rw [State.take, State.advance, hadvance]
  · simpa using hl
  · rw [State.take, State.current, hcurrent]; rfl
  · exact fun hleaf => nomatch List.mem_singleton.1 hleaf
  · rw [State.take, State.advance, State.current, hcurrent]; rfl

/-- Taking a token where the statement goes on. -/
theorem take_current (hs : s.input.Lawful) (hend : s.atEnd = false) :
    ∃ l, l.token = s.current ∧ Took [l] s s.take := by
  obtain ⟨l, rest, hpending⟩ := State.exists_pending hs hend
  have hcurrent := TokenStream.current_cons hpending
  rw [State.atEnd, State.current, hcurrent] at hend
  exact ⟨l, by rw [State.current, hcurrent], take hpending hend⟩

theorem shift (hs : s.input.Lawful) : ∃ taken, Took taken s s.shift := by
  rw [State.shift]
  split
  · exact ⟨[], stay s⟩
  · next hends =>
    rw [Bool.or_eq_true, not_or, Bool.not_eq_true] at hends
    obtain ⟨l, -, h⟩ := take_current hs hends.1
    exact ⟨[l], h⟩

theorem reportEnd (s : State) : Took [] s s.reportEnd := by
  rw [State.reportEnd]
  split
  · exact stay s
  · exact nothing rfl rfl fun leaf hleaf => ⟨_, List.mem_singleton.1 hleaf⟩

theorem missing (s : State) (announced : Bool) (what : String) :
    Took [] s (s.missing announced what) := by
  rw [State.missing]
  split
  · exact reportEnd s
  · cases announced
    · exact nothing rfl rfl fun leaf hleaf => ⟨_, List.mem_singleton.1 hleaf⟩
    · exact nothing rfl rfl fun leaf hleaf => ⟨_, List.mem_singleton.1 hleaf⟩

/-- An error leaf takes nothing. -/
theorem add (e : SyntaxError) (s : State) : Took [] s (s.add e) :=
  nothing rfl rfl fun _ hleaf => ⟨_, List.mem_singleton.1 hleaf⟩

theorem expecting (s : State) (message : String) : Took [] s (s.expecting message) := by
  rw [State.expecting]
  split
  · exact reportEnd s
  · exact nothing rfl rfl fun leaf hleaf => ⟨_, List.mem_singleton.1 hleaf⟩

theorem report (s : State) (announced : Bool) (message : String) :
    Took [] s (s.report announced message) := by
  cases announced
  · exact add _ s
  · exact expecting s message

theorem atEof_report (s : State) (announced : Bool) (message : String) :
    (s.report announced message).state.atEof = s.atEof :=
  congrArg Token.isEof (report s announced message).current_eq

/-- **Taking tokens while a condition holds takes the longest run of them.** None of them
ends the statement, if the condition fails of the semicolon. -/
theorem takeWhile {p : TokenKind → Bool} (hp : p .semicolon = false) (hs : s.input.Lawful) :
    Took (s.input.pending.takeWhile fun l => p l.token.kind) s
      (s.takeWhile fun t => p t.kind) := by
  rw [State.takeWhile]
  generalize hpending : s.input.pending = pending
  induction pending generalizing s with
  | nil => exact stay s
  | cons l rest ih =>
    rw [State.takeWhile.go]
    split
    · next hl =>
      have hne : l.token.kind ≠ .semicolon := fun hkind => by
        rw [hkind, hp] at hl
        cases hl
      have hproper := hs.pending l (hpending ▸ List.mem_cons_self)
      have htake := take hpending (Token.endsStatement_eq_false hproper hne)
      rw [List.takeWhile_cons, if_pos hl]
      exact htake.andThen (ih (htake.lawful hs) (State.pending_take hpending))
    · next hl =>
      rw [List.takeWhile_cons, if_neg hl]
      exact stay s

/-- Skipping takes the longest run of tokens before the next that fits. -/
theorem skipUntil (sync : StopSet) (hs : s.input.Lawful) :
    Took (s.input.pending.takeWhile fun l => !sync l.token.kind) s
      (s.skipUntil fun t => sync t.kind).2 := by
  rw [State.skipUntil]
  split_ifs with hcurrent hend
  · have hnone := State.takeWhile_pending_eq_nil (p := fun t => !sync t.kind) (s := s)
      (by rw [hcurrent]; rfl)
    rw [hnone]
    exact stay s
  · rw [State.atEof_eq hs, List.isEmpty_iff] at hend
    rw [hend]
    exact reportEnd s
  · have htook := takeWhile (p := fun kind => !sync kind) sync.not_semicolon hs
    exact (htook.logging _).wrap .skipped

theorem recover (hs : s.input.Lawful) (announced : Bool) (message : String) (sync : StopSet) :
    Took (s.input.pending.takeWhile fun l => !sync l.token.kind) s
      (s.recover announced message sync) := by
  have hreport := report s announced message
  rw [hreport.pending]
  exact hreport.andThen (skipUntil sync (hreport.lawful hs))

/-- Skipping what is left of an expression takes no token that ends the
statement. -/
theorem takeBalanced (hs : s.input.Lawful) : ∃ taken, Took taken s s.takeBalanced := by
  rw [State.takeBalanced]
  generalize 0 = depth
  generalize hpending : s.input.pending = pending
  induction pending generalizing s depth with
  | nil => exact ⟨[], stay s⟩
  | cons l rest ih =>
    have hinside : l.token.kind ≠ .semicolon → l.token.kind.endsStatement = false :=
      Token.endsStatement_eq_false (hs.pending l (hpending ▸ List.mem_cons_self))
    have hgo : l.token.kind ≠ .semicolon → ∀ depth,
        ∃ taken, Took taken s (s.take.andThen (State.takeBalanced.go depth rest)) := by
      intro hne depth
      have htake := take hpending (hinside hne)
      obtain ⟨taken, h⟩ := ih (htake.lawful hs) depth (State.pending_take hpending)
      exact ⟨_, htake.andThen h⟩
    rw [State.takeBalanced.go]
    split
    · exact ⟨[], stay s⟩
    · next hkind =>
      split
      · exact ⟨[], stay s⟩
      · exact hgo (by rw [hkind]; simp) depth
    · next hkind =>
      split
      · exact ⟨[], stay s⟩
      · exact hgo (by rw [hkind]; simp) (depth - 1)
    · next hkind => exact hgo (by rw [hkind]; simp) (depth + 1)
    · next hne _ _ _ => exact hgo hne depth

theorem cutOff (hs : s.input.Lawful) : ∃ taken, Took taken s s.cutOff := by
  have hexpecting := expecting s "expression nested too deeply"
  obtain ⟨taken, h⟩ := takeBalanced (hexpecting.lawful hs)
  refine ⟨[] ++ taken, hexpecting.andThen ?_⟩
  dsimp only
  split
  · next hempty =>
    -- no trees were added, so no lexemes were taken
    have hnil : taken = [] := by
      have hterminals := h.terminals
      rw [List.isEmpty_iff.1 hempty] at hterminals
      exact List.map_eq_nil_iff.1 hterminals.symm
    rw [hnil] at h ⊢
    exact ⟨h.pending, h.last, nofun, rfl, nofun, h.comments⟩
  · exact (h.logging _).wrap .skipped

/-- Every rule takes lexemes from the front of the input and keeps their
tokens. -/
theorem stepInvariant :
    StepInvariant (fun _ => True) fun s out => ∃ taken, Took taken s out where
  lawful := fun ⟨_, h⟩ hs => h.lawful hs
  stay s := ⟨[], stay s⟩
  andThen := fun ⟨_, h⟩ ⟨_, h'⟩ => ⟨_, h.andThen h'⟩
  wrap := fun ⟨_, h⟩ kind _ => ⟨_, h.wrap kind⟩
  shift _ hs := shift hs
  missing s announced what _ := ⟨[], missing s announced what⟩
  expecting s message _ := ⟨[], expecting s message⟩
  recover _ announced message sync hs := ⟨_, recover hs announced message sync⟩
  cutOff _ hs := cutOff hs

/-- **What a rule takes.** -/
theorem rule (rule : Rule) (hs : s.input.Lawful) : ∃ taken, Took taken s (rule.parse s) :=
  stepInvariant.rule (fun _ => Rule.makes_any _) rule.makes_any s hs

end Took

end TolerantSql
