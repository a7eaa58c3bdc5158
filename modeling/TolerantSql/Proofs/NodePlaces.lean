import TolerantSql.Proofs.EndOfInput
import TolerantSql.Proofs.Termination

/-!
# Where nodes are made

Some nodes are made only where a rule has seen what they begin with, and what can be
said of their children rests on it. `Rule.Places` reads off a rule which nodes it
makes and what it sees when it makes them: kinds of nodes that may stand anywhere are
`free`, and the others are `placed`, each with the rule of its children and what is
seen there.

Derivations of `Unfolds` carry a rule out to the end, so what holds of the nodes that
are placed holds of all nodes that a rule makes, by induction on the derivation
(`Unfolds.nodes`). On the way states stay sound, which means that the stream ends with
the end of the input and that the end is reported only there. That takes no look at
the rule either: a derivation takes tokens unchecked, but even the end of the input
may be taken without harm.
-/

namespace TolerantSql

/-! ## Sound states -/

/-- **A state that is sound**: its stream ends with the end of the input, and the end is
reported only there. -/
structure State.Sound (s : State) : Prop where
  lawful : s.input.Lawful
  honest : s.Honest

namespace State.Sound

variable {s : State} {out : Outcome}

theorem start {input : TokenStream} (h : input.Lawful) : (State.start input).Sound := ⟨h, nofun⟩

/-- Where something is to come, the end has not been reported. -/
theorem endReported (hs : s.Sound) (hend : s.atEof = false) : s.endReported = false :=
  hs.honest.endReported hs.lawful hend

/-- **The steps of rules keep states honest**, also where a report is made as it stands:
at the end of the input nothing is to come, whatever is reported. -/
theorem stepInvariant : StepInvariant (fun _ => True)
    fun s out => (∃ taken, Took taken s out) ∧ (s.Honest → out.state.Honest) :=
  have htells {s : State} {out : Outcome} (htook : ∃ taken, Took taken s out)
      (h : s.Honest → TellsEnd s out) :
      (∃ taken, Took taken s out) ∧ (s.Honest → out.state.Honest) :=
    ⟨htook, fun hhonest => htook.elim fun _ htook => (h hhonest).honest htook hhonest⟩
  { lawful := fun ⟨⟨_, htook⟩, _⟩ hs => htook.lawful hs
    stay := fun s => ⟨Took.stepInvariant.stay s, id⟩
    andThen := fun ⟨htook, h⟩ ⟨htook', h'⟩ =>
      ⟨Took.stepInvariant.andThen htook htook', fun hhonest => h' (h hhonest)⟩
    wrap := fun ⟨htook, h⟩ kind _ => ⟨Took.stepInvariant.wrap htook kind trivial, h⟩
    shift := fun s hs => htells (Took.stepInvariant.shift s hs) (.shift hs)
    missing := fun s announced what hs =>
      htells (Took.stepInvariant.missing s announced what hs) (.missing hs · announced what)
    expecting := fun s message hs =>
      htells (Took.stepInvariant.expecting s message hs) (.expecting hs · message)
    recover := fun s announced message sync hs => by
      have htook := Took.recover hs announced message sync
      cases hend : s.atEof with
      | false =>
        exact htells ⟨_, htook⟩ fun hhonest =>
          .recover hs hhonest announced message sync fun _ => hend
      | true =>
        rw [atEof_eq hs, List.isEmpty_iff] at hend
        exact ⟨⟨_, htook⟩, fun _ _ => htook.ends hend⟩
    cutOff := fun s hs => htells (Took.stepInvariant.cutOff s hs) (.cutOff hs) }

/-- The steps of rules lead from sound states to sound states. -/
theorem step (hs : s.Sound)
    (h : (∃ taken, Took taken s out) ∧ (s.Honest → out.state.Honest)) : out.state.Sound := by
  obtain ⟨⟨taken, htook⟩, hhonest⟩ := h
  exact ⟨htook.lawful hs.lawful, hhonest hs.honest⟩

/-- So does taking a token, even if it is the end of the input. -/
theorem take (hs : s.Sound) : s.take.state.Sound := by
  refine ⟨hs.lawful.advance, fun hreported => ?_⟩
  have hpending := hs.honest hreported
  rw [State.take, advance, TokenStream.advance_nil hpending]

/-- So does a round of a list. -/
theorem listRound {shape : ListShape} {phase : ListPhase} {next : Option ListPhase} (hs : s.Sound)
    (hround : State.listRound shape State.stay phase s = (out, next)) : out.state.Sound := by
  have hstep := stepInvariant.listRound shape (fun s _ => stepInvariant.stay s) phase s hs.lawful
  rw [hround] at hstep
  exact hs.step hstep

end State.Sound

/-- **A derivation leads from sound states to sound states.** -/
theorem Unfolds.sound {depth : Nat} {task : Task} {s : State} {out : Outcome}
    (h : Unfolds depth task s out) (hs : s.Sound) : out.state.Sound := by
  have hinvariant := State.Sound.stepInvariant
  induction h with
  | done | stop => exact hs
  | seq _ _ ih₁ ih₂ | chain _ _ _ ih₁ ih₂ | again _ _ _ ih₁ ih₂ | item _ _ _ ih₁ ih₂ =>
    exact ih₂ (ih₁ hs)
  | look _ ih | node _ ih | lone _ _ ih | list _ ih | nested _ _ ih | resume _ ih => exact ih hs
  | shift => exact hs.take
  | missing => exact hs.step (hinvariant.missing _ _ _ hs.lawful)
  | expecting => exact hs.step (hinvariant.expecting _ _ hs.lawful)
  | recover => exact hs.step (hinvariant.recover _ _ _ _ hs.lawful)
  | cutOff => exact hs.step (hinvariant.cutOff _ hs.lawful)
  | round _ hround _ ih => exact ih (hs.listRound hround)
  | last _ hround => exact hs.listRound hround

/-! ## Places -/

/-- **Where nodes may be made.** -/
structure Places where
  /-- Kinds of nodes that may be made anywhere. -/
  free : NodeKind → Prop
  /-- Nodes that may be made with a rule for their children where something is seen. -/
  placed : NodeKind → Rule → Lookahead → Prop
  /-- Whether nonterminals may be called. -/
  calls : Prop

namespace Rule

/-- **A rule that makes nodes where they may be made**, if `v` is what it sees. -/
def Keeps (p : Places) : Rule → Lookahead → Prop
  | seq first second, v => first.Keeps p v ∧ ∀ v', second.Keeps p v'
  | look choose, v => (choose v).Keeps p v
  | node kind body, v => (p.free kind ∨ p.placed kind body v) ∧ body.Keeps p v
  | chain kind operand _ link, v => p.free kind ∧ operand.Keeps p v ∧ ∀ v', link.Keeps p v'
  | loop _ body, _ => ∀ v', body.Keeps p v'
  | list _ item, _ => ∀ v', item.Keeps p v'
  | nested _, _ | resume _, _ => p.calls
  | done, _ | shift, _ | missing .., _ | expecting _, _ | recover .., _ => True

section Building

variable {p : Places} {v : Lookahead} {test : Lookahead → Bool} {r yes no : Rule}
  {rules : List Rule}

attribute [simp] Keeps

@[simp] theorem keeps_ite {c : Prop} [Decidable c] :
    (if c then yes else no).Keeps p v ↔ (c → yes.Keeps p v) ∧ (¬ c → no.Keeps p v) := by
  split <;> simp [*]

@[simp] theorem keeps_all_nil : (all []).Keeps p v := trivial

@[simp] theorem keeps_all_cons :
    (all (r :: rules)).Keeps p v ↔ r.Keeps p v ∧ ∀ v', (all rules).Keeps p v' := Iff.rfl

@[simp] theorem keeps_branch :
    (branch test yes no).Keeps p v
      ↔ (test v = true → yes.Keeps p v) ∧ (test v = false → no.Keeps p v) := by
  simp [branch]

@[simp] theorem keeps_onlyIf : (onlyIf test r).Keeps p v ↔ (test v = true → r.Keeps p v) := by
  simp [onlyIf]

@[simp] theorem keeps_eat (kind : TokenKind) : (eat kind).Keeps p v := by simp [eat]

@[simp] theorem keeps_eatKeyword (word : Keyword) : (eatKeyword word).Keeps p v := by
  simp [eatKeyword]

@[simp] theorem keeps_eatOneOf (words : List Keyword) : (eatOneOf words).Keeps p v := by
  simp [eatOneOf]

@[simp] theorem keeps_expect (kind : TokenKind) (what : String) : (expect kind what).Keeps p v := by
  simp [expect]

@[simp] theorem keeps_expectKeyword (word : Keyword) : (expectKeyword word).Keeps p v := by
  simp [expectKeyword]

@[simp] theorem keeps_expectOneOf (words : List Keyword) (message : String) :
    (expectOneOf words message).Keeps p v := by
  simp [expectOneOf]

@[simp] theorem keeps_nameToken (what : String) : (nameToken what).Keeps p v := by
  simp [nameToken]

@[simp] theorem keeps_name {kind : NodeKind} (hkind : p.free kind) (what : String) :
    (name kind what).Keeps p v := by
  simp [name, hkind]

@[simp] theorem keeps_closeParen : closeParen.Keeps p v := by simp [closeParen]

@[simp] theorem keeps_collationName : collationName.Keeps p v := by simp [collationName]

end Building

end Rule

/-- A task with a rule that makes nodes where they may be made. -/
def Task.Keeps (p : Places) : Task → Lookahead → Prop
  | .rule r, v => r.Keeps p v
  | .rounds _ item _, _ => ∀ v', item.Keeps p v'

/-- Reports hold no nodes but those of skipped tokens. -/
theorem Forest.Reports.kind_eq_skipped {f : Forest} (h : f.Reports) :
    ∀ n ∈ nodes f, n.1 = .skipped := by
  cases h with
  | errors h =>
    rw [nodes_eq_nil fun t ht => (h t ht).imp' _ fun _ he => he]
    exact List.forall_mem_nil _
  | skipped message hne htokens =>
    have hleaves : nodes _ = [] := nodes_eq_nil fun t ht => by
      obtain ⟨u, rfl, -⟩ := htokens t ht
      exact ⟨_, rfl⟩
    simp [hleaves]

/-- The steps that rules are made of make no nodes but those of skipped tokens. -/
theorem State.stepInvariant_skipped : StepInvariant (· = .skipped)
    fun s out => (∃ taken, Took taken s out) ∧ ∀ n ∈ Forest.nodes out.forest, n.1 = .skipped where
  lawful := fun ⟨⟨_, htook⟩, _⟩ hs => htook.lawful hs
  stay s := ⟨Took.stepInvariant.stay s, List.forall_mem_nil _⟩
  andThen := fun ⟨htook, h⟩ ⟨htook', h'⟩ => by
    refine ⟨Took.stepInvariant.andThen htook htook', ?_⟩
    rw [Forest.nodes_append]
    exact List.forall_mem_append.2 ⟨h, h'⟩
  wrap := fun ⟨htook, h⟩ kind hkind => by
    refine ⟨Took.stepInvariant.wrap htook kind trivial, ?_⟩
    rw [Outcome.wrap, Forest.nodes_cons, Forest.nodes_nil, List.append_nil, Tree.nodes_node]
    exact List.forall_mem_cons.2 ⟨hkind, h⟩
  shift s hs := by
    refine ⟨Took.stepInvariant.shift s hs, ?_⟩
    rw [shift]
    split
    · exact List.forall_mem_nil _
    · exact List.forall_mem_nil _
  missing s announced what hs :=
    ⟨Took.stepInvariant.missing s announced what hs,
      (s.reports_missing announced what).kind_eq_skipped⟩
  expecting s message hs :=
    ⟨Took.stepInvariant.expecting s message hs, (s.reports_expecting message).kind_eq_skipped⟩
  recover s announced message sync hs :=
    ⟨Took.stepInvariant.recover s announced message sync hs,
      (reports_recover hs announced message sync).kind_eq_skipped⟩
  cutOff s hs := ⟨Took.stepInvariant.cutOff s hs, (reports_cutOff hs).kind_eq_skipped⟩

/-- **What holds of nodes where they may be made holds of all nodes** that a derivation
makes. -/
theorem Unfolds.nodes {p : Places} {Q : NodeKind × Forest → Prop} (hskipped : p.free .skipped)
    (hfree : ∀ kind f, p.free kind → Q (kind, f))
    (hplaced : ∀ {depth kind body s out}, p.placed kind body s.lookahead → s.Sound →
      Unfolds depth (.rule body) s out → Q (kind, out.forest))
    (hcalls : p.calls → ∀ goal v, (Rule.ofNonterminal goal).Keeps p v)
    {depth : Nat} {task : Task} {s : State} {out : Outcome} (h : Unfolds depth task s out)
    (hs : s.Sound) (htask : task.Keeps p s.lookahead) : ∀ n ∈ Forest.nodes out.forest, Q n := by
  have hskips {f : Forest} (h : ∀ n ∈ Forest.nodes f, n.1 = .skipped) :
      ∀ n ∈ Forest.nodes f, Q n := fun n hn => hfree n.1 n.2 (by rw [h n hn]; exact hskipped)
  have hinvariant := State.stepInvariant_skipped
  have happend {f g : Forest} (hf : ∀ n ∈ Forest.nodes f, Q n) (hg : ∀ n ∈ Forest.nodes g, Q n) :
      ∀ n ∈ Forest.nodes (f ++ g), Q n := by
    rw [Forest.nodes_append]
    exact List.forall_mem_append.2 ⟨hf, hg⟩
  have hwrap {kind : NodeKind} {out : Outcome} (hkind : Q (kind, out.forest))
      (h : ∀ n ∈ Forest.nodes out.forest, Q n) :
      ∀ n ∈ Forest.nodes (out.wrap kind).forest, Q n := by
    rw [Outcome.wrap, Forest.nodes_cons, Forest.nodes_nil, List.append_nil, Tree.nodes_node]
    exact List.forall_mem_cons.2 ⟨hkind, h⟩
  induction h with
  | done | shift | stop => exact List.forall_mem_nil _
  | missing => exact hskips (hinvariant.missing _ _ _ hs.lawful).2
  | expecting => exact hskips (hinvariant.expecting _ _ hs.lawful).2
  | recover => exact hskips (hinvariant.recover _ _ _ _ hs.lawful).2
  | cutOff => exact hskips (hinvariant.cutOff _ hs.lawful).2
  | seq h _ ih₁ ih₂ => exact happend (ih₁ hs htask.1) (ih₂ (h.sound hs) (htask.2 _))
  | look _ ih => exact ih hs htask
  | node h ih =>
    refine hwrap ?_ (ih hs htask.2)
    exact htask.1.elim (hfree _ _) fun hkind => hplaced hkind hs h
  | lone _ _ ih => exact ih hs htask.2.1
  | chain h _ _ ih₁ ih₂ =>
    exact hwrap (hfree _ _ htask.1)
      (happend (ih₁ hs htask.2.1) (ih₂ (h.sound hs) htask.2.2))
  | again _ h _ ih₁ ih₂ => exact happend (ih₁ hs (htask _)) (ih₂ (h.sound hs) htask)
  | list _ ih => exact ih hs htask
  | item _ h _ ih₁ ih₂ => exact happend (ih₁ hs (htask _)) (ih₂ (h.sound hs) htask)
  | @round _ shape _ phase _ s _ _ _ hround _ ih =>
    have hstep := hinvariant.listRound shape (fun s _ => hinvariant.stay s) phase s hs.lawful
    rw [hround] at hstep
    exact happend (hskips hstep.2) (ih (hs.listRound hround) htask)
  | @last _ shape _ phase s _ _ hround =>
    have hstep := hinvariant.listRound shape (fun s _ => hinvariant.stay s) phase s hs.lawful
    rw [hround] at hstep
    exact hskips hstep.2
  | nested _ _ ih | resume _ ih => exact ih hs (hcalls htask _ _)

/-! ## Statements -/

namespace State

variable {s : State}

/-- The end of a statement makes no nodes but those of skipped tokens. -/
theorem nodes_finish (hs : s.input.Lawful) :
    ∀ n ∈ Forest.nodes s.finish.forest, n.1 = .skipped := by
  rw [finish]
  split
  · exact List.forall_mem_nil _
  · rw [Outcome.andThen, Forest.nodes_append]
    exact List.forall_mem_append.2
      ⟨(reports_recover hs _ _ _).kind_eq_skipped, List.forall_mem_nil _⟩

/-- Neither does a body without a rule. -/
theorem nodes_body (hs : s.input.Lawful) (hnone : Rule.ofStatementKeyword? s.current.kind = none)
    (explained : Bool) : ∀ n ∈ Forest.nodes (s.body explained).forest, n.1 = .skipped := by
  have htook := Took.recover hs false "expecting statement" .statement
  rw [body, hnone]
  dsimp only
  split
  · rw [Outcome.andThen, Forest.nodes_append]
    cases explained
    · exact List.forall_mem_append.2 ⟨List.forall_mem_nil _, nodes_finish hs⟩
    · exact List.forall_mem_append.2 ⟨List.forall_mem_nil _, nodes_finish (s := s) hs⟩
  · rw [Outcome.andThen, Forest.nodes_append]
    refine List.forall_mem_append.2 ⟨(reports_recover hs _ _ _).kind_eq_skipped, ?_⟩
    split
    · exact nodes_finish (htook.lawful hs)
    · exact List.forall_mem_nil _

end State

/-- **What holds of nodes where they may be made holds of all nodes of a tree**, if the rules
of statements make them there. -/
theorem Statement.nodes_of_keeps {p : Places} {Q : NodeKind × Forest → Prop}
    (hroot : p.free .sqlStatement) (hskipped : p.free .skipped)
    (hfree : ∀ kind f, p.free kind → Q (kind, f))
    (hplaced : ∀ {depth kind body s out}, p.placed kind body s.lookahead → s.Sound →
      Unfolds depth (.rule body) s out → Q (kind, out.forest))
    (hcalls : p.calls → ∀ goal v, (Rule.ofNonterminal goal).Keeps p v)
    (hexplain : ∀ v, Rule.explain.Keeps p v)
    (hrules : ∀ {v r}, Rule.ofStatementKeyword? v.current = some r → r.Keeps p v)
    {source : String} {statement : Statement} (hmem : statement ∈ parse source) :
    ∀ n ∈ statement.tree.nodes, Q n := by
  have hskips {f : Forest} (h : ∀ n ∈ Forest.nodes f, n.1 = .skipped) :
      ∀ n ∈ Forest.nodes f, Q n := fun n hn => hfree n.1 n.2 (by rw [h n hn]; exact hskipped)
  obtain ⟨parsed, hparsed, rfl⟩ := List.mem_map.1 hmem
  obtain ⟨input, hlawful, -, -, rfl⟩ :=
    TokenStream.exists_of_mem_parseAll (TokenStream.lawful_ofSource source) hparsed
  refine List.forall_mem_cons.2 ⟨hfree _ _ hroot, ?_⟩
  have hs := State.Sound.start hlawful
  show ∀ n ∈ Forest.nodes (State.start input).statement.forest, Q n
  have hstatement := (State.unfoldsStatement_iff (s := State.start input) hs.lawful).2 rfl
  generalize (State.start input).statement = out at hstatement ⊢
  obtain ⟨hfirst, hbody⟩ := hstatement
  have hs' := hfirst.sound hs
  rw [Forest.nodes_append]
  refine List.forall_mem_append.2
    ⟨hfirst.nodes hskipped hfree hplaced hcalls hs (hexplain _), ?_⟩
  cases hbody with
  | other hnone => exact hskips (State.nodes_body hs'.lawful hnone _)
  | rule hrule h =>
    rw [Outcome.andThen, Forest.nodes_append]
    exact List.forall_mem_append.2 ⟨h.nodes hskipped hfree hplaced hcalls hs' (hrules hrule),
      hskips (State.nodes_finish (h.sound hs').lawful)⟩

end TolerantSql
