import TolerantSql.Proofs.ColumnGrammar
import TolerantSql.Proofs.PhraseRuns

/-!
# Every column definition is found

Where the tokens of a part of a column definition come next, its rule adds the part and
nothing else, provided that what stands behind does not go on with it.

Behind a constraint stands another one or the end of the statement, which is what
`EndsConstraint` says of a lookahead. No clause of a constraint begins in that way: a
`NOT` that begins a constraint has a `NULL` behind it and none that begins a deferral
has, and an `ON` begins no constraint at all. The `NULL` of a `SET NULL` or `DEFAULT NULL`
begins none either, since it is taken before another constraint is looked for.
-/

namespace TolerantSql

open Rule

/-! ## Behind a constraint -/

/-- **One of certain keywords stands here**, or the end of the statement. -/
def ClosesWith (words : List Keyword) (v : Lookahead) : Prop :=
  v.current.endsStatement = true ∨ ∃ word ∈ words, v.current = .keyword word

namespace ClosesWith

variable {v : Lookahead} {words words' : List Keyword}

theorem mono (h : ClosesWith words v) (hwords : words ⊆ words') : ClosesWith words' v :=
  h.imp_right fun ⟨word, hmem, hword⟩ => ⟨word, hwords hmem, hword⟩

theorem ne (h : ClosesWith words v) {kind : TokenKind} (hend : kind.endsStatement = false)
    (hword : kind.isKeywordIn words = false) : v.current ≠ kind := by
  rintro rfl
  rcases h with hends | ⟨word, hmem, hkind⟩
  · rw [hends] at hend
    cases hend
  · rw [hkind] at hword
    exact Bool.false_ne_true (hword.symm.trans (List.contains_iff_mem.2 hmem))

theorem isKeyword (h : ClosesWith words v) {word : Keyword} (hword : word ∉ words) :
    v.isKeyword word = false := by
  refine beq_eq_false_iff_ne.2 (h.ne rfl ?_)
  exact Bool.eq_false_of_not_eq_true fun hin => hword (List.contains_iff_mem.1 hin)

theorem isKeywordIn (h : ClosesWith words v) (hwords : ∀ word ∈ words', word ∉ words) :
    v.isKeywordIn words' = false := by
  rw [Lookahead.isKeywordIn]
  cases hkind : v.current with
  | keyword word =>
    refine Bool.eq_false_of_not_eq_true fun hin => ?_
    have hnot := h.isKeyword (hwords word (List.contains_iff_mem.1 hin))
    exact beq_eq_false_iff_ne.1 hnot hkind
  | _ => rfl

end ClosesWith

/-- Keywords that begin a constraint, two of them only before a certain other one. -/
def constraintKeywords : List Keyword :=
  [.CONSTRAINT, .PRIMARY, .NULL, .UNIQUE, .CHECK, .DEFAULT, .COLLATE, .REFERENCES, .AS, .NOT,
    .GENERATED]

/-- No constraint begins where the statement ends. -/
theorem startsConstraint_of_endsStatement {v : Lookahead} (h : v.current.endsStatement = true) :
    startsConstraint v = false := by
  obtain ⟨current, next, afterNext, word⟩ := v
  cases current <;> first | rfl | cases h

/-- **What stands behind a constraint**: another one, or the end of the statement. -/
def EndsConstraint (v : Lookahead) : Prop :=
  startsConstraint v = true ∨ v.current.endsStatement = true

namespace EndsConstraint

variable {v : Lookahead}

theorem closes (h : EndsConstraint v) : ClosesWith constraintKeywords v := by
  refine h.symm.imp_right fun hstarts => ?_
  rw [startsConstraint, Bool.or_eq_true, Bool.or_eq_true] at hstarts
  rcases hstarts with (hin | hnull) | halways
  · cases hkind : v.current with
    | keyword word =>
      rw [Lookahead.isKeywordIn, hkind] at hin
      refine ⟨word, ?_, rfl⟩
      have hmem := List.contains_iff_mem.1 hin
      exact List.mem_append_left [.NOT, .GENERATED] hmem
    | _ => rw [Lookahead.isKeywordIn, hkind] at hin; cases hin
  · exact ⟨.NOT, by decide, beq_iff_eq.1 (Bool.and_eq_true_iff.1 hnull).1⟩
  · exact ⟨.GENERATED, by decide, beq_iff_eq.1 (Bool.and_eq_true_iff.1 halways).1⟩

/-- A `NOT` behind a constraint begins no deferral. -/
theorem isPair_deferrable (h : EndsConstraint v) : v.isPair .NOT .DEFERRABLE = false := by
  obtain ⟨current, next, afterNext, word⟩ := v
  refine Bool.eq_false_of_not_eq_true fun hpair => ?_
  obtain ⟨hnot, hnext⟩ := Bool.and_eq_true_iff.1 hpair
  obtain rfl : current = .keyword .NOT := beq_iff_eq.1 hnot
  obtain rfl : next = .keyword .DEFERRABLE := beq_iff_eq.1 hnext
  rcases h with hstarts | hends
  · cases hstarts
  · cases hends

/-- No word of a type stands behind a constraint, or in front of the first one. -/
theorem isTypeWord (h : EndsConstraint v) : isTypeWord v = false := by
  rcases h with hstarts | hends
  · rw [Rule.isTypeWord, hstarts, Bool.not_true, Bool.and_false]
  · obtain ⟨current, next, afterNext, word⟩ := v
    cases current <;> first | rfl | cases hends

end EndsConstraint

/-! ## Parts and their rules -/

namespace ColumnPart

/-- **The rule of a part.** -/
def rule : ColumnPart → Rule
  | number => signedNumber
  | size => onlyIf (·.is .leftParen) <| all [
      shift,
      signedNumber,
      onlyIf (·.is .comma) (all [shift, signedNumber]),
      closeParen]
  | type => onlyIf isTypeWord typeName
  | conflict => conflictClause
  | operand => parenthesizedExpr
  | value => defaultValue
  | storage => onlyIf (fun v => v.isKeyword .VIRTUAL || v.isWord "STORED") shift
  | names => list ⟨"column name", TokenKind.isName, .columnNames⟩
      (name .columnName "column name")
  | columns => onlyIf (·.is .leftParen) <| all [
      shift,
      list ⟨"column name", TokenKind.isName, .columnNames⟩
        (name .columnName "column name"),
      closeParen]
  | clauses => loop (fun v => startsForeignKeyAction v || v.isKeyword .MATCH) <|
      branch startsForeignKeyAction
        (all [shift, shift, foreignKeyAction])
        (all [shift, nameToken "match name"])
  | deferral => deferrableClause
  | body => constraintBody
  | constraint => columnConstraint

/-- What a part begins with, where that decides something. -/
def Enters : ColumnPart → Lookahead → Prop
  | number => fun v => v.current ∈ [.numeric, .plus, .minus]
  | operand => fun v => v.current = .leftParen
  | body => fun v => startsConstraint v = true ∧ v.isKeyword .CONSTRAINT = false
  | constraint => fun v => startsConstraint v = true
  | _ => fun _ => True

/-- **What may stand behind a part.** -/
def Stops : ColumnPart → Lookahead → Prop
  | number | operand | value => fun _ => True
  | names => fun v => v.current = .rightParen
  | conflict => ClosesWith (.AUTOINCREMENT :: constraintKeywords)
  | columns => ClosesWith (.ON :: .MATCH :: .DEFERRABLE :: constraintKeywords)
  | clauses => ClosesWith (.DEFERRABLE :: constraintKeywords)
  | size | type | storage | deferral | body | constraint => EndsConstraint

/-- **A part is found where its tokens come next**, and only its tokens are taken. -/
def Finds (part : ColumnPart) (f : Forest) : Prop :=
  ∀ s s' : State, s.input.Lawful → Reads (Forest.terminals f) s s' → part.Stops s'.lookahead →
    part.Enters s.lookahead ∧ part.rule.Runs 0 s f s'

end ColumnPart

namespace ColumnPart.Finds

variable {f g : Forest}

/-! ### Types -/

theorem number {kinds : List TokenKind} (hf : Spells kinds f)
    (hkinds : kinds ∈ [[.numeric], [.plus, .numeric], [.minus, .numeric]]) :
    Finds .number [.node .signedNumber f] := by
  intro s s' _ hreads _
  have hsigned : ∀ {sign : TokenKind}, sign ∈ [.plus, .minus] → Spells [sign, .numeric] f →
      s.lookahead.current ∈ [.numeric, .plus, .minus]
        ∧ signedNumber.Runs 0 s [.node .signedNumber f] s' := by
    rintro sign hsign ⟨t, _, rfl, ht, d, _, rfl, hd, rfl⟩
    simp only [reads_node, reads_token, reads_nil] at hreads
    obtain ⟨_, ⟨hcurrent, hcurrent₁, rfl⟩, rfl⟩ := hreads
    have hv := State.lookahead_current hcurrent ht
    simp only [List.mem_cons, List.not_mem_nil, or_false] at hsign
    rcases hsign with rfl | rfl
    all_goals
      refine ⟨by rw [hv]; decide, .node (.cons (.onlyIf_pos ?_ (.token hcurrent ht rfl))
        (.last (.expect hcurrent₁ hd rfl)))⟩
      rw [State.lookahead_eq hv]
      rfl
  simp only [List.mem_cons, List.not_mem_nil, or_false] at hkinds
  rcases hkinds with rfl | rfl | rfl
  · obtain ⟨d, _, rfl, hd, rfl⟩ := hf
    simp only [reads_node, reads_token, reads_nil] at hreads
    obtain ⟨_, ⟨hcurrent, rfl⟩, rfl⟩ := hreads
    have hv := State.lookahead_current hcurrent hd
    have hnumeric : s.lookahead.current ∈ [.numeric, .plus, .minus] := by rw [hv]; decide
    refine ⟨hnumeric, .node (.skip (.onlyIf_neg ?_) (.last (.expect hcurrent hd rfl)))⟩
    rw [State.lookahead_eq hv]
    rfl
  · exact hsigned (by decide) hf
  · exact hsigned (by decide) hf

theorem sizeless : Finds .size [] := by
  intro s s' _ hreads hstops
  obtain rfl : s' = s := hreads
  exact ⟨trivial, .onlyIf_neg (beq_eq_false_iff_ne.2 (hstops.closes.ne rfl rfl))⟩

theorem length {a e : Forest} (ha : Spells [.leftParen] a) (h : Finds .number f)
    (he : Spells [.rightParen] e) : Finds .size (a ++ (f ++ e)) := by
  intro s s' hs hreads _
  obtain ⟨lp, _, rfl, hlp, rfl⟩ := ha
  obtain ⟨rp, _, rfl, hrp, rfl⟩ := he
  simp only [reads_forest_append, reads_token, reads_nil] at hreads
  obtain ⟨_, ⟨hcurrent, rfl⟩, s₁, hf, hcurrent₁, rfl⟩ := hreads
  obtain ⟨-, hruns⟩ := h _ s₁ hs.advance hf trivial
  refine ⟨trivial, .onlyIf_pos (beq_iff_eq.2 (State.lookahead_current hcurrent hlp))
    (.cons (.token hcurrent hlp rfl) (.cons hruns (.skip (.onlyIf_neg ?_)
      (.last (.closeParen hcurrent₁ hrp)))))⟩
  rw [State.lookahead_eq (State.lookahead_current hcurrent₁ hrp)]
  rfl

theorem precision {a c e : Forest} (ha : Spells [.leftParen] a) (h : Finds .number f)
    (hc : Spells [.comma] c) (h' : Finds .number g) (he : Spells [.rightParen] e) :
    Finds .size (a ++ (f ++ (c ++ (g ++ e)))) := by
  intro s s' hs hreads _
  obtain ⟨lp, _, rfl, hlp, rfl⟩ := ha
  obtain ⟨comma, _, rfl, hcomma, rfl⟩ := hc
  obtain ⟨rp, _, rfl, hrp, rfl⟩ := he
  simp only [reads_forest_append, reads_token, reads_nil] at hreads
  obtain ⟨_, ⟨hcurrent, rfl⟩, s₁, hf, _, ⟨hcurrent₁, rfl⟩, s₂, hg, hcurrent₂, rfl⟩ := hreads
  obtain ⟨-, hruns⟩ := h _ s₁ hs.advance hf trivial
  obtain ⟨-, hruns'⟩ := h' _ s₂ (hf.lawful hs.advance).advance hg trivial
  have hsecond : (onlyIf (·.is .comma) (all [shift, signedNumber])).Runs 0 s₁ ([.token comma] ++ g)
      s₂ := .onlyIf_pos (beq_iff_eq.2 (State.lookahead_current hcurrent₁ hcomma))
    (.cons (.token hcurrent₁ hcomma rfl) (.last hruns'))
  refine ⟨trivial, .onlyIf_pos (beq_iff_eq.2 (State.lookahead_current hcurrent hlp))
    (.cons (.token hcurrent hlp rfl) (.cons hruns ?_))⟩
  rw [← List.append_assoc]
  exact .cons hsecond (.last (.closeParen hcurrent₂ hrp))

theorem untyped : Finds .type [] := by
  intro s s' _ hreads hstops
  obtain rfl : s' = s := hreads
  exact ⟨trivial, .onlyIf_neg (EndsConstraint.isTypeWord hstops)⟩

theorem typed {more : Nat} {names bound : Forest}
    (hnames : Spells (List.replicate (more + 1) .identifier) names) (h : Finds .size bound) :
    Finds .type [.node .typeName (names ++ bound)] := by
  intro s s' hs hreads hstops
  simp only [reads_node, reads_forest_append, reads_nil] at hreads
  obtain ⟨_, ⟨s₁, hreads, hreads'⟩, rfl⟩ := hreads
  obtain ⟨-, hruns⟩ := h s₁ s' (hreads.lawful hs) hreads' hstops
  -- behind the words there is a parenthesis, or what stands behind the type
  have hstop : isTypeWord s₁.lookahead = false := by
    rcases hruns.test_or_eq with hlp | rfl
    · rw [State.lookahead_eq (beq_iff_eq.1 hlp)]
      rfl
    · exact EndsConstraint.isTypeWord hstops
  have hword : isTypeWord s.lookahead = true := by
    obtain ⟨t, rest, rfl, ht, -⟩ := hnames
    rw [State.lookahead_eq (State.lookahead_current hreads.1 ht)]
    rfl
  exact ⟨trivial, .onlyIf_pos hword (.branch_pos hword (.node
    (.cons (Part.Finds.typeWords hnames hreads hstop hs) (.last hruns))))⟩

/-! ### What stands inside constraints -/

theorem noConflict : Finds .conflict [] := by
  intro s s' _ hreads hstops
  obtain rfl : s' = s := hreads
  refine ⟨trivial, .onlyIf_neg ?_⟩
  rw [Lookahead.isPair, hstops.isKeyword (by decide), Bool.false_and]

theorem conflict {action : Keyword}
    (haction : action ∈ [.ROLLBACK, .ABORT, .FAIL, .IGNORE, .REPLACE])
    (hf : SpellsWords [.ON, .CONFLICT, action] f) : Finds .conflict [.node .conflictClause f] := by
  intro s s' _ hreads _
  obtain ⟨on, _, rfl, hon, c, _, rfl, hc, a, _, rfl, ha, rfl⟩ := hf
  simp only [reads_node, reads_token, reads_nil] at hreads
  obtain ⟨_, ⟨hcurrent, hcurrent₁, hcurrent₂, rfl⟩, rfl⟩ := hreads
  exact ⟨trivial, .onlyIf_pos (State.isPair_eq hcurrent hon hcurrent₁ hc) (.node
    (.cons (.token hcurrent hon rfl) (.cons (.token hcurrent₁ hc rfl)
      (.last (.expectOneOf hcurrent₂ ha haction)))))⟩

/-- **An expression in parentheses** is found by the grammar of expressions. -/
theorem operand {n : Nat} {a e b : Forest} (ha : Spells [.leftParen] a) (hn : n ≤ maxDepth)
    (h : Phrase .inner n e) (hb : Spells [.rightParen] b) : Finds .operand (a ++ (e ++ b)) := by
  intro s s' hs hreads _
  obtain ⟨lp, _, rfl, hlp, rfl⟩ := ha
  obtain ⟨rp, _, rfl, hrp, rfl⟩ := hb
  simp only [reads_forest_append, reads_token, reads_nil] at hreads
  obtain ⟨_, ⟨hcurrent, rfl⟩, s₁, he, hcurrent₁, rfl⟩ := hreads
  obtain ⟨-, hruns⟩ := h.finds 0 _ s₁ (by omega) hs.advance he
    (.of_kind (State.lookahead_current hcurrent₁ hrp) (by decide))
  exact ⟨State.lookahead_current hcurrent hlp, .cons (.expect hcurrent hlp rfl)
    (.cons hruns (.last (.closeParen hcurrent₁ hrp)))⟩

theorem signed (h : Finds .number f) : Finds .value f := by
  intro s s' hs hreads _
  obtain ⟨henters, hruns⟩ := h s s' hs hreads trivial
  refine ⟨trivial, .look ?_ hruns⟩
  generalize hv : s.lookahead = v at henters
  obtain ⟨current, next, afterNext, word⟩ := v
  simp only [Enters, List.mem_cons, List.not_mem_nil, or_false] at henters
  rcases henters with rfl | rfl | rfl <;> rfl

theorem literal {t : Token} (ht : t.kind ∈ [.string, .blob, .keyword .NULL, .keyword .CURRENT_DATE,
      .keyword .CURRENT_TIME, .keyword .CURRENT_TIMESTAMP, .identifier]) :
    Finds .value [.token t] := by
  intro s s' _ hreads _
  obtain ⟨rfl, rfl⟩ := hreads
  have hv : s.lookahead = ⟨s.current.kind, _, _, _⟩ := State.lookahead_eq rfl
  have htakes : ∀ kind ∈ [TokenKind.string, .blob, .keyword .NULL, .keyword .CURRENT_DATE,
      .keyword .CURRENT_TIME, .keyword .CURRENT_TIMESTAMP, .identifier],
      kind.isTakeable = true := by decide
  refine ⟨trivial, .look (r := shift) ?_ (.shift rfl (htakes _ ht))⟩
  rw [hv]
  generalize s.current.kind = kind at ht
  simp only [List.mem_cons, List.not_mem_nil, or_false] at ht
  rcases ht with rfl | rfl | rfl | rfl | rfl | rfl | rfl <;> rfl

theorem computed (h : Finds .operand f) : Finds .value f := by
  intro s s' hs hreads _
  obtain ⟨henters, hruns⟩ := h s s' hs hreads trivial
  exact ⟨trivial, .look (if_pos (beq_iff_eq.2 henters)) hruns⟩

theorem unstored : Finds .storage [] := by
  intro s s' _ hreads hstops
  obtain rfl : s' = s := hreads
  replace hstops : EndsConstraint s'.lookahead := hstops
  have hname : (s'.lookahead.current == .identifier) = false :=
    beq_eq_false_iff_ne.2 (hstops.closes.ne rfl rfl)
  refine ⟨trivial, .onlyIf_neg ?_⟩
  rw [hstops.closes.isKeyword (by decide), Lookahead.isWord, hname]
  rfl

theorem virtual (hf : SpellsWords [.VIRTUAL] f) : Finds .storage f := by
  intro s s' _ hreads _
  obtain ⟨t, _, rfl, ht, rfl⟩ := hf
  obtain ⟨hcurrent, rfl⟩ := hreads
  refine ⟨trivial, .onlyIf_pos ?_ (.token hcurrent ht rfl)⟩
  rw [State.lookahead_eq (State.lookahead_current hcurrent ht)]
  rfl

theorem stored {t : Token} (ht : t.kind = .identifier) (hword : t.text.toUpper = "STORED") :
    Finds .storage [.token t] := by
  intro s s' _ hreads _
  obtain ⟨rfl, rfl⟩ := hreads
  have hstored : s.lookahead.isWord "STORED" = true := by
    rw [Lookahead.isWord, State.lookahead_current rfl ht]
    exact beq_iff_eq.2 hword
  refine ⟨trivial, .onlyIf_pos ?_ (.token rfl ht rfl)⟩
  rw [hstored, Bool.or_true]

/-! ### References -/

theorem name (hf : Spells [.identifier] f) : Finds .names [.node .columnName f] := by
  intro s s' hs hreads hstops
  obtain ⟨t, _, rfl, ht, rfl⟩ := hf
  simp only [reads_node, reads_token, reads_nil] at hreads
  obtain ⟨_, ⟨hcurrent, rfl⟩, rfl⟩ := hreads
  have hclose : s.advance.current.kind = .rightParen := hstops
  refine ⟨trivial, .list_last hs (by rw [hcurrent, ht]; decide) (by rw [hcurrent, ht]; rfl)
    (.name hcurrent ht) (List.cons_ne_nil _ _) (by rw [hclose]; decide) (.inr ?_)⟩
  rw [hclose]
  rfl

theorem comma {c : Forest} (hf : Spells [.identifier] f) (hc : Spells [.comma] c)
    (h : Finds .names g) : Finds .names ([.node .columnName f] ++ (c ++ g)) := by
  intro s s' hs hreads hstops
  obtain ⟨t, _, rfl, ht, rfl⟩ := hf
  obtain ⟨comma, _, rfl, hcomma, rfl⟩ := hc
  simp only [reads_node, reads_forest_append, reads_token, reads_nil] at hreads
  obtain ⟨_, ⟨_, ⟨hcurrent, rfl⟩, rfl⟩, _, ⟨hcurrent₁, rfl⟩, hg⟩ := hreads
  obtain ⟨-, hruns⟩ := h _ s' hs.advance.advance hg hstops
  exact ⟨trivial, .list_more hs (by rw [hcurrent, ht]; decide) (by rw [hcurrent, ht]; rfl)
    (.name hcurrent ht) (List.cons_ne_nil _ _) hcurrent₁ hcomma hruns⟩

theorem noColumns : Finds .columns [] := by
  intro s s' _ hreads hstops
  obtain rfl : s' = s := hreads
  exact ⟨trivial, .onlyIf_neg (beq_eq_false_iff_ne.2 (hstops.ne rfl rfl))⟩

theorem columns {a e : Forest} (ha : Spells [.leftParen] a) (h : Finds .names f)
    (he : Spells [.rightParen] e) : Finds .columns (a ++ (f ++ e)) := by
  intro s s' hs hreads _
  obtain ⟨lp, _, rfl, hlp, rfl⟩ := ha
  obtain ⟨rp, _, rfl, hrp, rfl⟩ := he
  simp only [reads_forest_append, reads_token, reads_nil] at hreads
  obtain ⟨_, ⟨hcurrent, rfl⟩, s₁, hf, hcurrent₁, rfl⟩ := hreads
  obtain ⟨-, hruns⟩ := h _ s₁ hs.advance hf (State.lookahead_current hcurrent₁ hrp)
  exact ⟨trivial, .onlyIf_pos (beq_iff_eq.2 (State.lookahead_current hcurrent hlp))
    (.cons (.token hcurrent hlp rfl) (.cons hruns (.last (.closeParen hcurrent₁ hrp))))⟩

theorem noClauses : Finds .clauses [] := by
  intro s s' _ hreads hstops
  obtain rfl : s' = s := hreads
  refine ⟨trivial, .loop_stop ?_⟩
  rw [startsForeignKeyAction, hstops.isKeyword (by decide), hstops.isKeyword (by decide)]
  rfl

/-- What happens to a row that refers to another one. -/
theorem foreignKeyAction {action : List Keyword} {s s' : State}
    (haction : action ∈ [[.SET, .NULL], [.SET, .DEFAULT], [.CASCADE], [.RESTRICT], [.NO, .ACTION]])
    (hf : SpellsWords action f) (hreads : Reads (Forest.terminals f) s s') :
    foreignKeyAction.Runs 0 s f s' := by
  have hset : ∀ {word : Keyword}, word ∈ [Keyword.NULL, .DEFAULT] → SpellsWords [.SET, word] f →
      Rule.foreignKeyAction.Runs 0 s f s' := by
    rintro word hword ⟨t, _, rfl, ht, u, _, rfl, hu, rfl⟩
    simp only [reads_token, reads_nil] at hreads
    obtain ⟨hcurrent, hcurrent₁, rfl⟩ := hreads
    refine .look (r := all [shift, expectOneOf [.NULL, .DEFAULT] "expecting NULL or DEFAULT"]) ?_
      (.cons (.token hcurrent ht rfl) (.last (.expectOneOf hcurrent₁ hu hword)))
    rw [State.lookahead_eq (State.lookahead_current hcurrent ht)]
    rfl
  have hone : ∀ {word : Keyword}, word ∈ [Keyword.CASCADE, .RESTRICT] → SpellsWords [word] f →
      Rule.foreignKeyAction.Runs 0 s f s' := by
    rintro word hword ⟨t, _, rfl, ht, rfl⟩
    simp only [reads_token, reads_nil] at hreads
    obtain ⟨hcurrent, rfl⟩ := hreads
    refine .look ?_ (.token hcurrent ht rfl)
    rw [State.lookahead_eq (State.lookahead_current hcurrent ht)]
    simp only [List.mem_cons, List.not_mem_nil, or_false] at hword
    rcases hword with rfl | rfl <;> rfl
  simp only [List.mem_cons, List.not_mem_nil, or_false] at haction
  rcases haction with rfl | rfl | rfl | rfl | rfl
  · exact hset (by decide) hf
  · exact hset (by decide) hf
  · exact hone (by decide) hf
  · exact hone (by decide) hf
  · obtain ⟨t, _, rfl, ht, u, _, rfl, hu, rfl⟩ := hf
    simp only [reads_token, reads_nil] at hreads
    obtain ⟨hcurrent, hcurrent₁, rfl⟩ := hreads
    refine .look ?_ (.cons (.token hcurrent ht rfl) (.last (.expectKeyword hcurrent₁ hu)))
    rw [State.lookahead_eq (State.lookahead_current hcurrent ht)]
    rfl

theorem action {event : Keyword} {action : List Keyword} (hevent : event ∈ [.DELETE, .UPDATE])
    (haction : action ∈ [[.SET, .NULL], [.SET, .DEFAULT], [.CASCADE], [.RESTRICT], [.NO, .ACTION]])
    (hf : SpellsWords (.ON :: event :: action) f) (h : Finds .clauses g) :
    Finds .clauses (f ++ g) := by
  intro s s' hs hreads hstops
  obtain ⟨on, _, rfl, hon, t, f, rfl, ht, hf⟩ := hf
  obtain ⟨s₁, ⟨hcurrent, hcurrent₁, hreads⟩, hreads'⟩ := reads_forest_append.1 hreads
  have hs₁ := hreads.lawful hs.advance.advance
  obtain ⟨-, hruns⟩ := h s₁ s' hs₁ hreads' hstops
  have hstarts : startsForeignKeyAction s.lookahead = true := by
    have hnext := State.lookahead_next s
    rw [startsForeignKeyAction, Lookahead.isKeyword, State.lookahead_current hcurrent hon,
      Lookahead.nextIsKeywordIn, hnext, hcurrent₁, ht, beq_self_eq_true, Bool.true_and]
    exact List.contains_iff_mem.2 hevent
  have hclause : (branch startsForeignKeyAction (all [shift, shift, Rule.foreignKeyAction])
      (all [shift, nameToken "match name"])).Runs 0 s ([.token on] ++ ([.token t] ++ f)) s₁ :=
    .branch_pos hstarts (.cons (.token hcurrent hon rfl) (.cons (.token hcurrent₁ ht rfl)
      (.last (foreignKeyAction haction hf hreads))))
  exact ⟨trivial, .loop_more (by rw [hstarts]; rfl) hclause
    (hclause.remaining_lt hs (List.cons_ne_nil _ _)) hruns⟩

theorem matching (hf : Spells [.keyword .MATCH, .identifier] f) (h : Finds .clauses g) :
    Finds .clauses (f ++ g) := by
  intro s s' hs hreads hstops
  obtain ⟨t, _, rfl, ht, a, _, rfl, ha, rfl⟩ := hf
  simp only [reads_forest_append, reads_token, reads_nil] at hreads
  obtain ⟨_, ⟨hcurrent, hcurrent₁, rfl⟩, hreads'⟩ := hreads
  obtain ⟨-, hruns⟩ := h _ s' hs.advance.advance hreads' hstops
  have hv := State.lookahead_eq (State.lookahead_current hcurrent ht)
  have hclause : (branch startsForeignKeyAction (all [shift, shift, Rule.foreignKeyAction])
      (all [shift, nameToken "match name"])).Runs 0 s ([.token t] ++ [.token a])
      s.advance.advance :=
    .branch_neg (by rw [hv]; rfl) (.cons (.token hcurrent ht rfl) (.last (.nameToken hcurrent₁ ha)))
  exact ⟨trivial, .loop_more (by rw [hv]; rfl) hclause
    (hclause.remaining_lt hs (List.cons_ne_nil _ _)) hruns⟩

theorem noDeferral : Finds .deferral [] := by
  intro s s' _ hreads hstops
  obtain rfl : s' = s := hreads
  replace hstops : EndsConstraint s'.lookahead := hstops
  refine ⟨trivial, .onlyIf_neg ?_⟩
  rw [hstops.isPair_deferrable, hstops.closes.isKeyword (by decide)]
  rfl

/-- How a deferral begins, if it is said. -/
theorem initially {words : List Keyword} {s s' : State} (hf : SpellsWords words f)
    (hwords : words ∈ [[], [.INITIALLY, .DEFERRED], [.INITIALLY, .IMMEDIATE]])
    (hreads : Reads (Forest.terminals f) s s') (hstops : EndsConstraint s'.lookahead) :
    (onlyIf (·.isKeyword .INITIALLY) <| all [
      shift,
      expectOneOf [.DEFERRED, .IMMEDIATE] "expecting DEFERRED or IMMEDIATE"]).Runs 0 s f s' := by
  have hsaid : ∀ {word : Keyword}, word ∈ [Keyword.DEFERRED, .IMMEDIATE] →
      SpellsWords [.INITIALLY, word] f → (onlyIf (·.isKeyword .INITIALLY) <| all [
        shift,
        expectOneOf [.DEFERRED, .IMMEDIATE] "expecting DEFERRED or IMMEDIATE"]).Runs 0 s f s' := by
    rintro word hword ⟨t, _, rfl, ht, u, _, rfl, hu, rfl⟩
    simp only [reads_token, reads_nil] at hreads
    obtain ⟨hcurrent, hcurrent₁, rfl⟩ := hreads
    exact .onlyIf_pos (beq_iff_eq.2 (State.lookahead_current hcurrent ht))
      (.cons (.token hcurrent ht rfl) (.last (.expectOneOf hcurrent₁ hu hword)))
  simp only [List.mem_cons, List.not_mem_nil, or_false] at hwords
  rcases hwords with rfl | rfl | rfl
  · obtain rfl : f = [] := hf
    obtain rfl : s' = s := hreads
    exact .onlyIf_neg (hstops.closes.isKeyword (by decide))
  · exact hsaid (by decide) hf
  · exact hsaid (by decide) hf

theorem deferrable {words words' : List Keyword} (hf : SpellsWords words f)
    (hwords : words ∈ [[.DEFERRABLE], [.NOT, .DEFERRABLE]]) (hg : SpellsWords words' g)
    (hwords' : words' ∈ [[], [.INITIALLY, .DEFERRED], [.INITIALLY, .IMMEDIATE]]) :
    Finds .deferral (f ++ g) := by
  intro s s' _ hreads hstops
  obtain ⟨s₁, hreads, hreads'⟩ := reads_forest_append.1 hreads
  have hinitially := initially hg hwords' hreads' hstops
  simp only [List.mem_cons, List.not_mem_nil, or_false] at hwords
  rcases hwords with rfl | rfl
  · obtain ⟨t, _, rfl, ht, rfl⟩ := hf
    obtain ⟨hcurrent, rfl⟩ := hreads
    have hv := State.lookahead_current hcurrent ht
    refine ⟨trivial, .onlyIf_pos ?_ (.skip (.eat_neg (by rw [hcurrent, ht]; decide))
      (.cons (.token hcurrent ht rfl) (.last hinitially)))⟩
    rw [State.lookahead_eq hv]
    rfl
  · obtain ⟨t, _, rfl, ht, u, _, rfl, hu, rfl⟩ := hf
    obtain ⟨hcurrent, hcurrent₁, rfl⟩ := hreads
    have hpair := State.isPair_eq hcurrent ht hcurrent₁ hu
    have hruns : deferrableClause.Runs 0 s ([.token t] ++ ([.token u] ++ g)) s' :=
      .onlyIf_pos (by rw [hpair]; rfl) (.cons (.eatKeyword hcurrent ht)
        (.cons (.token hcurrent₁ hu rfl) (.last hinitially)))
    exact ⟨trivial, hruns⟩

/-! ### Constraints -/

/-- The direction in which a key is sorted, if it is said. -/
theorem sortOrder {words : List Keyword} {s s' : State} (hf : SpellsWords words f)
    (hwords : words ∈ [[], [.ASC], [.DESC]]) (hreads : Reads (Forest.terminals f) s s')
    (hstops : s'.lookahead.isKeywordIn [.ASC, .DESC] = false) :
    (eatOneOf [.ASC, .DESC]).Runs 0 s f s' := by
  simp only [List.mem_cons, List.not_mem_nil, or_false] at hwords
  rcases hwords with rfl | rfl | rfl
  · obtain rfl : f = [] := hf
    obtain rfl : s' = s := hreads
    exact .onlyIf_neg hstops
  all_goals
    obtain ⟨t, _, rfl, ht, rfl⟩ := hf
    obtain ⟨hcurrent, rfl⟩ := hreads
    refine .onlyIf_pos ?_ (.token hcurrent ht rfl)
    rw [State.lookahead_eq (State.lookahead_current hcurrent ht)]
    rfl

theorem primaryKey {words words' : List Keyword} {c : Forest} (hf : SpellsWords words f)
    (hwords : words ∈ [[.PRIMARY, .KEY], [.PRIMARY, .KEY, .ASC], [.PRIMARY, .KEY, .DESC]])
    (hc : Finds .conflict c) (hg : SpellsWords words' g)
    (hwords' : words' ∈ [[], [.AUTOINCREMENT]]) : Finds .body (f ++ (c ++ g)) := by
  intro s s' hs hreads hstops
  replace hstops : EndsConstraint s'.lookahead := hstops
  obtain ⟨order, rfl, horder⟩ : ∃ order, words = .PRIMARY :: .KEY :: order
      ∧ order ∈ [[], [Keyword.ASC], [.DESC]] := by
    simp only [List.mem_cons, List.not_mem_nil, or_false] at hwords
    rcases hwords with rfl | rfl | rfl <;> exact ⟨_, rfl, by decide⟩
  obtain ⟨p, _, rfl, hp, k, f, rfl, hk, hf⟩ := hf
  obtain ⟨s₁, ⟨hcurrent, hcurrent₁, hreads⟩, hreads'⟩ := reads_forest_append.1 hreads
  obtain ⟨s₂, hreadsc, hreadsg⟩ := reads_forest_append.1 hreads'
  have hlast : (eatKeyword .AUTOINCREMENT).Runs 0 s₂ g s' := by
    simp only [List.mem_cons, List.not_mem_nil, or_false] at hwords'
    rcases hwords' with rfl | rfl
    · obtain rfl : g = [] := hg
      obtain rfl : s' = s₂ := hreadsg
      exact .onlyIf_neg (hstops.closes.isKeyword (by decide))
    · obtain ⟨t, _, rfl, ht, rfl⟩ := hg
      obtain ⟨hcurrent, rfl⟩ := hreadsg
      exact .eatKeyword hcurrent ht
  have hstops₂ : ClosesWith (.AUTOINCREMENT :: constraintKeywords) s₂.lookahead := by
    rcases hlast.test_or_eq with hword | rfl
    · exact .inr ⟨_, List.mem_cons_self, beq_iff_eq.1 hword⟩
    · exact hstops.closes.mono (List.subset_cons_self _ _)
  obtain ⟨-, hconflict⟩ := hc s₁ s₂ (hreads.lawful hs.advance.advance) hreadsc hstops₂
  have hstops₁ : ClosesWith (.ON :: .AUTOINCREMENT :: constraintKeywords) s₁.lookahead := by
    rcases hconflict.test_or_eq with hpair | rfl
    · exact .inr ⟨_, List.mem_cons_self, beq_iff_eq.1 (Bool.and_eq_true_iff.1 hpair).1⟩
    · exact hstops₂.mono (List.subset_cons_self _ _)
  have hsorts := sortOrder hf horder hreads (hstops₁.isKeywordIn (by decide))
  have hv := State.lookahead_eq (State.lookahead_current hcurrent hp)
  have hruns : constraintBody.Runs 0 s ([.token p] ++ ([.token k] ++ (f ++ (c ++ g)))) s' :=
    .look (by rw [hv]; rfl) (.cons (.token hcurrent hp rfl) (.cons (.expectKeyword hcurrent₁ hk)
      (.cons hsorts (.cons hconflict (.last hlast)))))
  exact ⟨by rw [hv]; exact ⟨rfl, rfl⟩, hruns⟩

theorem unique {words : List Keyword} {c : Forest} (hf : SpellsWords words f)
    (hwords : words ∈ [[.NOT, .NULL], [.UNIQUE]]) (hc : Finds .conflict c) :
    Finds .body (f ++ c) := by
  intro s s' hs hreads hstops
  obtain ⟨s₁, hreads, hreads'⟩ := reads_forest_append.1 hreads
  obtain ⟨-, hconflict⟩ := hc s₁ s' (hreads.lawful hs) hreads'
    (hstops.closes.mono (List.subset_cons_self _ _))
  simp only [List.mem_cons, List.not_mem_nil, or_false] at hwords
  rcases hwords with rfl | rfl
  · obtain ⟨t, _, rfl, ht, u, _, rfl, hu, rfl⟩ := hf
    obtain ⟨hcurrent, hcurrent₁, rfl⟩ := hreads
    have hnext := State.lookahead_next s
    rw [hcurrent₁, hu] at hnext
    have hv := State.lookahead_eq (State.lookahead_current hcurrent ht)
    rw [hnext] at hv
    have hruns : constraintBody.Runs 0 s ([.token t] ++ ([.token u] ++ c)) s' :=
      .look (by rw [hv]; rfl) (.cons (.token hcurrent ht rfl) (.cons (.token hcurrent₁ hu rfl)
        (.last hconflict)))
    exact ⟨by rw [hv]; exact ⟨rfl, rfl⟩, hruns⟩
  · obtain ⟨t, _, rfl, ht, rfl⟩ := hf
    obtain ⟨hcurrent, rfl⟩ := hreads
    have hv := State.lookahead_eq (State.lookahead_current hcurrent ht)
    exact ⟨by rw [hv]; exact ⟨rfl, rfl⟩, .look (by rw [hv]; rfl)
      (.cons (.token hcurrent ht rfl) (.last hconflict))⟩

/-- No `ON CONFLICT` is allowed behind `NULL`, but the rule looks for one. -/
theorem null (hf : SpellsWords [.NULL] f) : Finds .body f := by
  intro s s' hs hreads hstops
  obtain ⟨t, _, rfl, ht, rfl⟩ := hf
  obtain ⟨hcurrent, rfl⟩ := hreads
  obtain ⟨-, hconflict⟩ := noConflict _ _ hs.advance rfl
    (hstops.closes.mono (List.subset_cons_self _ _))
  have hv := State.lookahead_eq (State.lookahead_current hcurrent ht)
  exact ⟨by rw [hv]; exact ⟨rfl, rfl⟩, .look (by rw [hv]; rfl)
    (.keep (.token hcurrent ht rfl) (.last hconflict))⟩

/-- A constraint of one word and what stands behind it. -/
theorem worded {word : Keyword} {part : ColumnPart} (hf : SpellsWords [word] f) (h : Finds part g)
    (hword : (word, part) ∈ [(.CHECK, .operand), (.DEFAULT, .value)]) : Finds .body (f ++ g) := by
  intro s s' hs hreads _
  obtain ⟨t, _, rfl, ht, rfl⟩ := hf
  obtain ⟨hcurrent, hreads⟩ := hreads
  have hv := State.lookahead_eq (State.lookahead_current hcurrent ht)
  simp only [List.mem_cons, List.not_mem_nil, or_false, Prod.mk.injEq] at hword
  rcases hword with ⟨rfl, rfl⟩ | ⟨rfl, rfl⟩
  all_goals
    obtain ⟨-, hruns⟩ := h _ s' hs.advance hreads trivial
    exact ⟨by rw [hv]; exact ⟨rfl, rfl⟩, .look (by rw [hv]; rfl)
      (.cons (.token hcurrent ht rfl) (.last hruns))⟩

theorem collate (hf : Spells [.keyword .COLLATE, .identifier] f) : Finds .body f := by
  intro s s' _ hreads _
  obtain ⟨t, _, rfl, ht, a, _, rfl, ha, rfl⟩ := hf
  obtain ⟨hcurrent, hcurrent₁, rfl⟩ := hreads
  have hname : collationName.Runs 0 s.advance [.token a] s.advance.advance := by
    refine .branch_neg ?_ (.nameToken hcurrent₁ ha)
    rw [State.lookahead_eq (State.lookahead_current hcurrent₁ ha)]
    rfl
  have hv := State.lookahead_eq (State.lookahead_current hcurrent ht)
  exact ⟨by rw [hv]; exact ⟨rfl, rfl⟩, .look (by rw [hv]; rfl)
    (.cons (.token hcurrent ht rfl) (.last hname))⟩

theorem references {table columns clauses deferral : Forest} (hf : SpellsWords [.REFERENCES] f)
    (htable : Spells [.identifier] table) (hcolumns : Finds .columns columns)
    (hclauses : Finds .clauses clauses) (hdeferral : Finds .deferral deferral) :
    Finds .body [.node .foreignKeyClause
      (f ++ ([.node .tableName table] ++ (columns ++ (clauses ++ deferral))))] := by
  intro s s' hs hreads hstops
  replace hstops : EndsConstraint s'.lookahead := hstops
  obtain ⟨r, _, rfl, hr, rfl⟩ := hf
  obtain ⟨t, _, rfl, ht, rfl⟩ := htable
  simp only [reads_node, reads_forest_append, reads_token, reads_nil] at hreads
  obtain ⟨_, ⟨_, ⟨hcurrent, rfl⟩, _, ⟨_, ⟨hcurrent₁, rfl⟩, rfl⟩, s₁, hreads₁, s₂, hreads₂, hreads₃⟩,
    rfl⟩ := hreads
  have hs₁ := hreads₁.lawful hs.advance.advance
  -- what stands behind each part is known from the parts behind it
  obtain ⟨-, hruns₃⟩ := hdeferral s₂ s' (hreads₂.lawful hs₁) hreads₃ hstops
  have hstops₂ : ClosesWith (.DEFERRABLE :: constraintKeywords) s₂.lookahead := by
    rcases hruns₃.test_or_eq with htest | rfl
    · rcases (Bool.or_eq_true _ _).mp htest with hpair | hword
      · exact .inr ⟨.NOT, by decide, beq_iff_eq.1 (Bool.and_eq_true_iff.1 hpair).1⟩
      · exact .inr ⟨_, List.mem_cons_self, beq_iff_eq.1 hword⟩
    · exact hstops.closes.mono (List.subset_cons_self _ _)
  obtain ⟨-, hruns₂⟩ := hclauses s₁ s₂ hs₁ hreads₂ hstops₂
  have hstops₁ : ClosesWith (.ON :: .MATCH :: .DEFERRABLE :: constraintKeywords) s₁.lookahead := by
    rcases hruns₂.continues_or_eq with htest | rfl
    · rcases (Bool.or_eq_true _ _).mp htest with hpair | hword
      · exact .inr ⟨.ON, by decide, beq_iff_eq.1 (Bool.and_eq_true_iff.1 hpair).1⟩
      · exact .inr ⟨.MATCH, by decide, beq_iff_eq.1 hword⟩
    · exact hstops₂.mono (List.subset_append_right [Keyword.ON, .MATCH] _)
  obtain ⟨-, hruns₁⟩ := hcolumns _ s₁ hs.advance.advance hreads₁ hstops₁
  have hv := State.lookahead_eq (State.lookahead_current hcurrent hr)
  exact ⟨by rw [hv]; exact ⟨rfl, rfl⟩, .look (r := foreignKeyClause) (by rw [hv]; rfl)
    (.node (.cons (.token hcurrent hr rfl) (.cons (.name hcurrent₁ ht)
      (.cons hruns₁ (.cons hruns₂ (.last hruns₃))))))⟩

theorem generated {words : List Keyword} {e : Forest} (hf : SpellsWords words f)
    (hwords : words ∈ [[.AS], [.GENERATED, .ALWAYS, .AS]]) (he : Finds .operand e)
    (hg : Finds .storage g) : Finds .body (f ++ (e ++ g)) := by
  intro s s' hs hreads hstops
  obtain ⟨s₁, hreads, hreads'⟩ := reads_forest_append.1 hreads
  obtain ⟨s₂, hreadse, hreadsg⟩ := reads_forest_append.1 hreads'
  have hs₁ := hreads.lawful hs
  obtain ⟨-, hstorage⟩ := hg s₂ s' (hreadse.lawful hs₁) hreadsg hstops
  obtain ⟨-, hexpr⟩ := he s₁ s₂ hs₁ hreadse trivial
  have hrest : (all [parenthesizedExpr, (ColumnPart.storage).rule]).Runs 0 s₁ (e ++ g) s' :=
    .cons hexpr (.last hstorage)
  simp only [List.mem_cons, List.not_mem_nil, or_false] at hwords
  rcases hwords with rfl | rfl
  · obtain ⟨t, _, rfl, ht, rfl⟩ := hf
    obtain ⟨hcurrent, rfl⟩ := hreads
    have hv := State.lookahead_eq (State.lookahead_current hcurrent ht)
    exact ⟨by rw [hv]; exact ⟨rfl, rfl⟩, .look (r := generatedColumn) (by rw [hv]; rfl)
      (.skip (.onlyIf_neg (by rw [hv]; rfl)) (.cons (.expectKeyword hcurrent ht) hrest))⟩
  · obtain ⟨t, _, rfl, ht, u, _, rfl, hu, a, _, rfl, ha, rfl⟩ := hf
    obtain ⟨hcurrent, hcurrent₁, hcurrent₂, rfl⟩ := hreads
    have hnext := State.lookahead_next s
    rw [hcurrent₁, hu] at hnext
    have hv := State.lookahead_eq (State.lookahead_current hcurrent ht)
    rw [hnext] at hv
    have hfront : (onlyIf (·.isKeyword .GENERATED) (all [shift, expectKeyword .ALWAYS])).Runs 0 s
        ([.token t] ++ [.token u]) s.advance.advance :=
      .onlyIf_pos (by rw [hv]; rfl) (.cons (.token hcurrent ht rfl)
        (.last (.expectKeyword hcurrent₁ hu)))
    have hruns : constraintBody.Runs 0 s
        ([.token t] ++ [.token u] ++ ([.token a] ++ (e ++ g))) s' :=
      .look (r := generatedColumn) (by rw [hv]; rfl)
        (.cons hfront (.cons (.expectKeyword hcurrent₂ ha) hrest))
    exact ⟨by rw [hv]; exact ⟨rfl, rfl⟩, hruns⟩

theorem constraint (h : Finds .body f) : Finds .constraint [.node .columnConstraint f] := by
  intro s s' hs hreads hstops
  simp only [reads_node, reads_nil] at hreads
  obtain ⟨_, hreads, rfl⟩ := hreads
  obtain ⟨⟨hstarts, hunnamed⟩, hruns⟩ := h s s' hs hreads hstops
  exact ⟨hstarts, .node (.skip (.onlyIf_neg hunnamed) (.last hruns))⟩

theorem named {a : Forest} (ha : Spells [.keyword .CONSTRAINT, .identifier] a)
    (h : Finds .body f) : Finds .constraint [.node .columnConstraint (a ++ f)] := by
  intro s s' hs hreads hstops
  obtain ⟨t, _, rfl, ht, n, _, rfl, hn, rfl⟩ := ha
  simp only [reads_node, reads_forest_append, reads_token, reads_nil] at hreads
  obtain ⟨_, ⟨_, ⟨hcurrent, hcurrent₁, rfl⟩, hreads⟩, rfl⟩ := hreads
  obtain ⟨-, hruns⟩ := h _ s' hs.advance.advance hreads hstops
  have hv := State.lookahead_eq (State.lookahead_current hcurrent ht)
  have hname : (onlyIf (·.isKeyword .CONSTRAINT) (all [shift, nameToken "constraint name"])).Runs 0
      s ([.token t] ++ [.token n]) s.advance.advance :=
    .onlyIf_pos (by rw [hv]; rfl) (.cons (.token hcurrent ht rfl)
      (.last (.nameToken hcurrent₁ hn)))
  exact ⟨by rw [hv]; rfl, .node (.cons hname (.last hruns))⟩

end ColumnPart.Finds

/-- **Every part of a column definition is found** where its tokens come next. -/
theorem ColumnPhrase.finds {part : ColumnPart} {f : Forest} (h : ColumnPhrase part f) :
    part.Finds f := by
  induction h with
  | number hf hkinds => exact .number hf hkinds
  | sizeless => exact .sizeless
  | length ha _ he ih => exact .length ha ih he
  | precision ha _ hc _ he ih ih' => exact .precision ha ih hc ih' he
  | untyped => exact .untyped
  | typed hnames _ ih => exact .typed hnames ih
  | constraint _ ih => exact .constraint ih
  | named ha _ ih => exact .named ha ih
  | primaryKey hf hwords _ hg hwords' ih => exact .primaryKey hf hwords ih hg hwords'
  | unique hf hwords _ ih => exact .unique hf hwords ih
  | null hf => exact .null hf
  | check hf _ ih => exact .worded hf ih List.mem_cons_self
  | default hf _ ih => exact .worded hf ih (List.mem_cons_of_mem _ List.mem_cons_self)
  | collate hf => exact .collate hf
  | references hf htable _ _ _ ih₁ ih₂ ih₃ => exact .references hf htable ih₁ ih₂ ih₃
  | generated hf hwords _ _ ih ih' => exact .generated hf hwords ih ih'
  | noConflict => exact .noConflict
  | conflict haction hf => exact .conflict haction hf
  | operand ha hn h hb => exact .operand ha hn h hb
  | signed _ ih => exact .signed ih
  | literal ht => exact .literal ht
  | computed _ ih => exact .computed ih
  | unstored => exact .unstored
  | virtual hf => exact .virtual hf
  | stored ht hword => exact .stored ht hword
  | name hf => exact .name hf
  | comma hf hc _ ih => exact .comma hf hc ih
  | noColumns => exact .noColumns
  | columns ha _ he ih => exact .columns ha ih he
  | noClauses => exact .noClauses
  | action hevent haction hf _ ih => exact .action hevent haction hf ih
  | matching hf _ ih => exact .matching hf ih
  | noDeferral => exact .noDeferral
  | deferrable hf hwords hg hwords' => exact .deferrable hf hwords hg hwords'

/-! ## Column definitions -/

section ColumnDefinition

variable {s s' : State}

/-- A constraint has tokens, since none begins at the end of a statement. -/
theorem ColumnPart.Finds.terminals_ne_nil {f : Forest} (h : Finds .constraint f)
    (hs : s.input.Lawful) (hend : s.current.kind.endsStatement = true) :
    Forest.terminals f ≠ [] := by
  intro hnil
  obtain ⟨hstarts, -⟩ := h s s hs (by rw [hnil]; rfl) (.inr hend)
  exact Bool.false_ne_true ((startsConstraint_of_endsStatement hend).symm.trans hstarts)

/-- **Constraints in any number and order** are told apart. -/
theorem runs_constraints {constraints : Forest}
    (h : ∀ c ∈ constraints, ColumnPhrase .constraint [c]) (hs : s.input.Lawful)
    (hreads : Reads (Forest.terminals constraints) s s')
    (hend : s'.current.kind.endsStatement = true) :
    EndsConstraint s.lookahead
      ∧ (loop startsConstraint columnConstraint).Runs 0 s constraints s' := by
  induction constraints generalizing s with
  | nil =>
    obtain rfl : s' = s := hreads
    exact ⟨.inr hend, .loop_stop (startsConstraint_of_endsStatement hend)⟩
  | cons c constraints ih =>
    obtain ⟨s₁, hreads, hreads'⟩ := (reads_forest_append (f := [c])).1 hreads
    have hs₁ := hreads.lawful hs
    have hfinds := (h c List.mem_cons_self).finds
    obtain ⟨hstops, hrest⟩ := ih (fun c hc => h c (List.mem_cons_of_mem _ hc)) hs₁ hreads'
    obtain ⟨hstarts, hruns⟩ := hfinds s s₁ hs hreads hstops
    have hless := hruns.remaining_lt hs
      (hfinds.terminals_ne_nil (hreads'.lawful hs₁) hend)
    exact ⟨.inl hstarts, .loop_more hstarts hruns hless hrest⟩

/-- **Every column definition is found** at the end of a statement. -/
theorem runs_columnDefinition {name : Token} {type constraints : Forest}
    (hname : name.kind = .identifier) (htype : ColumnPhrase .type type)
    (h : ∀ c ∈ constraints, ColumnPhrase .constraint [c]) (hs : s.input.Lawful)
    (hreads : Reads (columnTree name type constraints).terminals s s')
    (hend : s'.current.kind.endsStatement = true) :
    columnDefinition.Runs 0 s [columnTree name type constraints] s' := by
  obtain ⟨hcurrent, hreads⟩ := hreads
  obtain ⟨s₁, hreads, hreads'⟩ := reads_forest_append.1 hreads
  obtain ⟨hstops, hrest⟩ := runs_constraints h (hreads.lawful hs.advance) hreads' hend
  obtain ⟨-, hruns⟩ := htype.finds _ s₁ hs.advance hreads hstops
  exact .node (.cons (.name hcurrent hname) (.cons hruns (.last hrest)))

end ColumnDefinition

end TolerantSql
