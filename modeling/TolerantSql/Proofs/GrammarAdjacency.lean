import TolerantSql.Grammar.Statement
import TolerantSql.Proofs.Adjacency

/-!
# No rule of the grammar puts clashing tokens side by side

The derivations of the adjacency logic for the rules of the grammar, in the order
in which these are defined. Most tokens need no care, so a rule is described by
what may stand before it and by what it ends with: an expression begins where an
operand may (`opens`) and ends as one (`closes`), a name or a closing parenthesis
can be followed by anything (`plain`), and most clauses promise nothing because
what follows them is a keyword.
-/

namespace TolerantSql

/-! ## Tests that recognise tokens that need no care -/

namespace Lookahead

variable {v : Lookahead}

theorem isCalm_of_is {kind : TokenKind} (h : v.is kind = true) (hkind : kind.isCalm = true) :
    v.current.isCalm = true := by
  rw [beq_iff_eq.1 h]
  exact hkind

theorem isCalm_of_isKeyword {word : Keyword} (h : v.isKeyword word = true) :
    v.current.isCalm = true := isCalm_of_is h rfl

theorem isCalm_of_isKeywordIn {words : List Keyword} (h : v.isKeywordIn words = true) :
    v.current.isCalm = true := TokenKind.isCalm_of_isKeywordIn h

theorem isCalm_of_isName (h : v.isName = true) : v.current.isCalm = true :=
  TokenKind.isCalm_of_isName h

theorem isCalm_of_isPair {first second : Keyword} (h : v.isPair first second = true) :
    v.current.isCalm = true ∧ v.next.isCalm = true := by
  rw [isPair, Bool.and_eq_true] at h
  refine ⟨isCalm_of_isKeyword h.1, ?_⟩
  rw [beq_iff_eq.1 h.2]
  rfl

end Lookahead

namespace Rule

open Assertion Lookahead

variable {begun : Bool} {P P' Q R : Assertion}

/-! ## Derived rules -/

namespace Joins

theorem pre {r : Rule} (h : ∀ v previous, P v previous → P' v previous)
    (body : Joins begun P' r Q) : Joins begun P r Q := .conseq h (fun _ _ hpost => hpost) body

theorem post {r : Rule} (body : Joins begun P r Q)
    (h : ∀ v previous, Q v previous → R v previous) : Joins begun P r R :=
  .conseq (fun _ _ hpre => hpre) h body

/-- Anything may be forgotten. -/
theorem forget {r : Rule} (body : Joins begun P r Q) : Joins begun P r anything :=
  body.post fun _ _ _ => trivial

theorem nil : Joins begun P (all []) P := .done

theorem cons {r : Rule} {rules : List Rule} (h : Joins begun P r Q)
    (h' : Joins (r.takes || begun) Q (all rules) R) : Joins begun P (all (r :: rules)) R :=
  .seq h h'

/-- The last of several rules. -/
theorem last {r : Rule} (h : Joins begun P r Q) : Joins begun P (all [r]) Q := .cons h .nil

theorem ite {c : Prop} [Decidable c] {yes no : Rule} (hyes : c → Joins begun P yes Q)
    (hno : ¬ c → Joins begun P no Q) : Joins begun P (if c then yes else no) Q := by
  split
  · next h => exact hyes h
  · next h => exact hno h

/-- A rule chosen by a known lookahead. -/
theorem seen {v : Lookahead} {r : Rule} (h : ∀ previous, P v previous → P' v previous)
    (body : Joins begun P' r Q) : Joins begun (P.seeing v) r Q := by
  refine body.pre fun v' previous hv => ?_
  obtain ⟨rfl, hpre⟩ := hv
  exact h previous hpre

/-- A rule at a token that is known to need no care. -/
theorem seenCalm {v : Lookahead} {r : Rule} (h : v.current.isCalm = true)
    (body : Joins begun calm r Q) : Joins begun (P.seeing v) r Q := .seen (fun _ _ => h) body

/-- A rule at a token that a test finds to need no care. -/
theorem whenCalm {test : Lookahead → Bool} {r : Rule}
    (h : ∀ {v}, test v = true → v.current.isCalm = true) (body : Joins begun calm r Q) :
    Joins begun (P.whenever test) r Q := .pre (fun _ _ hv => h hv.2) body

theorem branch {test : Lookahead → Bool} {yes no : Rule}
    (hyes : Joins begun (P.whenever test) yes Q) (hno : Joins begun P no Q) :
    Joins begun P (branch test yes no) Q :=
  .look fun _ => .ite (fun h => hyes.seen fun _ hpre => ⟨hpre, h⟩) fun _ => hno.seen fun _ h => h

theorem onlyIf {test : Lookahead → Bool} {r : Rule} (h : Joins begun (P.whenever test) r Q)
    (hskip : ∀ v previous, P v previous → Q v previous) : Joins begun P (onlyIf test r) Q :=
  .branch h (.pre hskip .done)

end Joins

/-! ## Single tokens -/

/-- **A token that needs no care**, with what is known about those behind it. -/
theorem joins_shift_of_calm (hcalm : ∀ v previous, P v previous → v.current.isCalm = true)
    (hpost : ∀ v previous v', P v previous → v'.current = v.next → v'.next = v.afterNext →
      v.current.isPlain = true → Q v' v.current) : Joins begun P .shift Q :=
  .shift fun v previous hv => by
    obtain ⟨htakeable, hharmless, hplain⟩ := TokenKind.isCalm_iff.1 (hcalm v previous hv)
    refine ⟨htakeable, TokenKind.staysApart_of_isHarmless hharmless previous, ?_⟩
    exact fun v' hcurrent hnext => hpost v previous v' hv hcurrent hnext hplain

theorem joins_shift_calm : Joins begun calm .shift plain :=
  joins_shift_of_calm (fun _ _ hv => hv) fun _ _ _ _ _ _ hplain => hplain

/-- Two tokens that need no care. -/
theorem joins_shift_twice {rules : List Rule} (h : Joins true plain (all rules) Q) :
    Joins begun calmPair (all (.shift :: .shift :: rules)) Q := by
  refine .cons (Q := calm) (joins_shift_of_calm (fun _ _ hv => hv.1) ?_)
    (.cons joins_shift_calm h)
  intro v _ v' hv hcurrent _ _
  rw [calm, hcurrent]
  exact hv.2

/-- A parenthesis where an operand may stand. -/
theorem joins_shift_leftParen : Joins begun (opens.whenever (·.is .leftParen)) .shift plain :=
  .shift fun v previous hv => by
    rw [beq_iff_eq.1 hv.2]
    exact ⟨rfl, TokenKind.staysApart_of_opensOperand hv.1 rfl, fun _ _ _ => rfl⟩

/-- A point behind a token that anything may follow. -/
theorem joins_shift_dot :
    Joins begun (plain.whenever (·.is .dot)) .shift (fun _ previous => previous = .dot) :=
  .shift fun v previous hv => by
    rw [beq_iff_eq.1 hv.2]
    exact ⟨rfl, TokenKind.staysApart_of_isPlain hv.1 _, fun _ _ _ => rfl⟩

/-- A token that needs no care before one of a given kind. -/
theorem joins_shift_before (kind : TokenKind) :
    Joins begun (calmBefore kind) .shift (plain.whenever (·.is kind)) := by
  refine joins_shift_of_calm (fun _ _ hv => hv.1) fun v _ v' hv hcurrent _ hplain => ⟨hplain, ?_⟩
  show (v'.current == kind) = true
  rw [hcurrent]
  exact hv.2

/-- A name and the parenthesis behind it. -/
theorem joins_shift_call {rules : List Rule} (h : Joins true plain (all rules) Q) :
    Joins begun (calmBefore .leftParen) (all (.shift :: .shift :: rules)) Q := by
  refine .cons (joins_shift_before .leftParen) (.cons (.pre ?_ joins_shift_leftParen) h)
  exact fun _ _ hv => ⟨TokenKind.opensOperand_of_isPlain hv.1, hv.2⟩

/-- An optional token that needs no care. -/
theorem joins_optional {test : Lookahead → Bool}
    (htest : ∀ {v}, test v = true → v.current.isCalm = true)
    (hP : ∀ v previous, previous.isPlain = true → P v previous) :
    Joins begun P (onlyIf test .shift) P :=
  .onlyIf ((Joins.whenCalm htest joins_shift_calm).post hP) fun _ _ h => h

/-- A token that needs no care and may not be absent. -/
theorem joins_required {test : Lookahead → Bool} {no : Rule}
    (htest : ∀ {v}, test v = true → v.current.isCalm = true) (hno : Joins begun P no plain) :
    Joins begun P (branch test .shift no) plain :=
  .branch (.whenCalm htest joins_shift_calm) hno

theorem joins_eatKeyword (word : Keyword)
    (hP : ∀ v previous, previous.isPlain = true → P v previous) :
    Joins begun P (eatKeyword word) P :=
  joins_optional isCalm_of_isKeyword hP

theorem joins_eatOneOf (words : List Keyword)
    (hP : ∀ v previous, previous.isPlain = true → P v previous) :
    Joins begun P (eatOneOf words) P :=
  joins_optional isCalm_of_isKeywordIn hP

theorem joins_expect {kind : TokenKind} (what : String) (hkind : kind.isCalm = true) :
    Joins begun P (expect kind what) plain :=
  joins_required (isCalm_of_is · hkind) .missing

theorem joins_expectKeyword (word : Keyword) : Joins begun P (expectKeyword word) plain :=
  joins_expect word.spelling rfl

theorem joins_expectOneOf (words : List Keyword) (message : String) :
    Joins begun P (expectOneOf words message) plain :=
  joins_required isCalm_of_isKeywordIn .expecting

theorem joins_nameToken (what : String) : Joins begun P (nameToken what) plain :=
  joins_required isCalm_of_isName .missing

theorem joins_name (kind : NodeKind) (what : String) : Joins begun P (name kind what) plain :=
  .branch (.node (.whenCalm isCalm_of_isName joins_shift_calm)) .missing

/-- A parenthesis that may not be absent. -/
theorem joins_expect_leftParen (what : String) : Joins begun opens (expect .leftParen what) plain :=
  .branch joins_shift_leftParen .missing

theorem joins_closeParen : Joins begun P closeParen plain := by
  refine .look fun v => .ite (fun h => ?_) fun _ => .ite (fun _ => .missing) fun _ => ?_
  · exact .seenCalm (isCalm_of_is h rfl) joins_shift_calm
  · exact .cons (Q := anything) .recover (.last (joins_required (isCalm_of_is · rfl) .missing))

theorem joins_qualifiedName (kind : NodeKind) (what : String) :
    Joins begun P (qualifiedName kind what) plain := by
  refine .cons (Q := anything) (.onlyIf ?_ fun _ _ _ => trivial) (.last (joins_name kind what))
  refine .cons (.node (.pre (fun v _ hv => ?_) (joins_shift_before .dot)))
    (.last joins_shift_dot.forget)
  obtain ⟨hname, hdot⟩ := (Bool.and_eq_true _ _).mp hv.2
  exact ⟨isCalm_of_isName hname, hdot⟩

/-! ## Queries and type names -/

theorem joins_expr : Joins true opens expr closes := .nested

/-- Items that are operands, behind one that opens an operand or a comma. -/
theorem opens_of_or_comma {v : Lookahead} {previous : TokenKind}
    (h : opens v previous ∨ previous = .comma) : opens v previous := by
  rcases h with h | rfl
  · exact h
  · rfl

theorem joins_expressionList : Joins true opens expressionList closes :=
  .list (fun _ _ h _ => opens_of_or_comma h) joins_expr

theorem joins_columnAlias : Joins begun P columnAlias anything := by
  refine .look fun v => .ite (fun h => ?_) fun _ => .onlyIf ?_ fun _ _ _ => trivial
  · refine .cons (.seenCalm (isCalm_of_isKeyword h) joins_shift_calm) (.last ?_)
    refine .branch (.node (.pre (fun v _ hv => ?_) joins_shift_calm.forget)) .missing
    rcases Bool.or_eq_true _ _ ▸ hv.2 with hstring | hname
    · exact isCalm_of_is hstring rfl
    · exact isCalm_of_isName hname
  · refine .node (.pre (fun v _ hv => ?_) joins_shift_calm.forget)
    rcases Bool.or_eq_true _ _ ▸ hv.2 with hidentifier | hstring
    · exact isCalm_of_is hidentifier rfl
    · exact isCalm_of_is hstring rfl

/-- `table . *` -/
theorem joins_tableStar {v : Lookahead} (hname : v.isName = true) (hdot : v.nextIs .dot = true)
    (hstar : v.afterNext = .star) :
    Joins begun (P.seeing v) (all [node .tableName .shift, .shift, .shift]) anything := by
  refine .cons (Q := fun v' previous => previous.isPlain = true ∧ v'.is .dot ∧ v'.next = .star)
    (.node (joins_shift_of_calm (fun v' _ hv => ?_) fun v' _ v'' hv hcurrent hnext hplain => ?_))
    (.cons (Q := calm) (.shift fun v' previous hv => ?_) (.last joins_shift_calm.forget))
  · rw [hv.1]
    exact isCalm_of_isName hname
  · -- behind the name, the point is current and the star comes next
    obtain ⟨rfl, -⟩ := hv
    refine ⟨hplain, ?_, hnext.trans hstar⟩
    rw [Lookahead.is, hcurrent]
    exact hdot
  · obtain ⟨hplain, hdot', hstar'⟩ := hv
    rw [beq_iff_eq.1 hdot']
    refine ⟨rfl, TokenKind.staysApart_of_isPlain hplain _, fun v'' hcurrent _ => ?_⟩
    rw [calm, hcurrent, hstar']
    rfl

theorem joins_resultColumn : Joins true opens resultColumn anything := by
  refine .node (.look fun v => .ite (fun h => ?_) fun _ => .ite (fun h => ?_) fun _ => ?_)
  · exact .seenCalm (isCalm_of_is h rfl) joins_shift_calm.forget
  · rw [Bool.and_eq_true, Bool.and_eq_true] at h
    exact joins_tableStar h.1.1 h.1.2 (beq_iff_eq.1 h.2)
  · exact .seen (fun _ h => h) (.cons joins_expr (.last joins_columnAlias))

theorem joins_select : Joins begun calm select anything := by
  refine .node (.cons joins_shift_calm (.cons (joins_eatOneOf _ fun _ _ h => h) (.last ?_)))
  exact .pre (fun _ _ h => TokenKind.opensOperand_of_isPlain h)
    (.list (fun _ _ h _ => opens_of_or_comma h) joins_resultColumn)

theorem joins_subquery : Joins begun opens subquery plain := by
  refine .node (.cons (joins_expect_leftParen "(") (.cons (Q := anything) (.branch ?_ .missing)
    (.last joins_closeParen)))
  exact .whenCalm isCalm_of_isKeyword joins_select

/-! ### The order of rows -/

theorem closes_of_plain (v : Lookahead) (previous : TokenKind) (h : previous.isPlain = true) :
    closes v previous := TokenKind.canGrow_of_isPlain h

theorem opens_of_plain (v : Lookahead) (previous : TokenKind) (h : previous.isPlain = true) :
    opens v previous := TokenKind.opensOperand_of_isPlain h

theorem joins_orderingTerm : Joins true opens orderingTerm closes := by
  refine .node (.cons joins_expr (.cons (joins_eatOneOf _ closes_of_plain)
    (.last (.onlyIf ?_ fun _ _ h => h))))
  refine .cons (.whenCalm isCalm_of_isKeyword joins_shift_calm) (.last ?_)
  exact (joins_expectOneOf _ _).post closes_of_plain

theorem joins_orderBy : Joins begun calm orderBy closes := by
  refine .node (.cons joins_shift_calm (.cons (joins_expectKeyword .BY) (.last ?_)))
  exact .pre opens_of_plain (.list (fun _ _ h _ => opens_of_or_comma h) joins_orderingTerm)

/-! ### Type names -/

theorem isCalm_of_isTypeWord {v : Lookahead} (h : isTypeWord v = true) :
    v.current.isCalm = true := isCalm_of_isName (Bool.and_eq_true _ _ ▸ h).1

/-- A number where an operand may stand. -/
theorem joins_expect_numeric (what : String) :
    Joins begun opens (expect .numeric what) anything := by
  refine .branch (.shift fun v previous hv => ?_) .missing
  rw [beq_iff_eq.1 hv.2]
  exact ⟨rfl, TokenKind.staysApart_of_opensOperand hv.1 rfl, fun _ _ _ => trivial⟩

theorem joins_signedNumber : Joins begun opens signedNumber anything := by
  refine .node (.cons (.onlyIf (.shift fun v previous hv => ?_) fun _ _ h => h)
    (.last (joins_expect_numeric "number")))
  have hsign : v.current.isUnaryOperator = true := by
    rcases Bool.or_eq_true _ _ ▸ hv.2 with hplus | hminus
    · rw [beq_iff_eq.1 hplus]; rfl
    · rw [beq_iff_eq.1 hminus]; rfl
  obtain ⟨htakeable, hstarts, hopens⟩ := TokenKind.opensOperand_of_isUnaryOperator hsign
  exact ⟨htakeable, TokenKind.staysApart_of_opensOperand hv.1 hstarts, fun _ _ _ => hopens⟩

theorem joins_typeName : Joins begun plain typeName anything := by
  refine .branch (.node (.cons (Q := plain) (.pre (fun _ _ hv => hv.1) (.loop ?_))
    (.last (.onlyIf ?_ fun _ _ _ => trivial)))) .missing
  · exact .whenCalm isCalm_of_isTypeWord joins_shift_calm
  · refine .cons (.pre (fun v _ hv => ⟨opens_of_plain v _ hv.1, hv.2⟩) joins_shift_leftParen)
      (.cons (.pre opens_of_plain joins_signedNumber) (.cons (.onlyIf ?_ fun _ _ h => h)
        (.last joins_closeParen.forget)))
    refine .cons (.whenCalm (isCalm_of_is · rfl) joins_shift_calm) (.last ?_)
    exact .pre opens_of_plain joins_signedNumber

theorem joins_collationName : Joins begun P collationName plain :=
  joins_required (isCalm_of_is · rfl) (joins_nameToken _)

/-! ## Operands -/

theorem joins_columnPart {behind : Rule} (h : Joins true plain behind plain) :
    Joins begun plain (columnPart behind) plain := by
  refine .onlyIf (.cons joins_shift_dot (.last (.branch ?_ .missing))) fun _ _ h => h
  exact .cons (.whenCalm isCalm_of_isName joins_shift_calm) (.last h)

theorem joins_columnReference : Joins begun calm columnReference plain :=
  .node (.cons joins_shift_calm (.last (joins_columnPart (joins_columnPart .done))))

theorem joins_filterClause : Joins begun calm filterClause plain :=
  .node <| .cons joins_shift_calm <| .cons (.pre opens_of_plain (joins_expect_leftParen "(")) <|
    .cons (joins_expectKeyword .WHERE) <| .cons (.pre opens_of_plain joins_expr) <|
    .last joins_closeParen

theorem joins_frameBound : Joins true opens frameBound plain := by
  refine .node (.branch ?_ ?_)
  · exact .pre (fun _ _ hv => isCalm_of_isPair hv.2) (joins_shift_twice .nil)
  · refine .cons (Q := anything) (.branch ?_ ?_) (.last (joins_expectOneOf _ _))
    · exact .whenCalm isCalm_of_isKeyword joins_shift_calm.forget
    · exact Joins.resume.forget

theorem joins_frameExclude : Joins begun calm frameExclude plain := by
  refine .node (.cons joins_shift_calm (.last (.look fun v => ?_)))
  refine .ite (fun h => ?_) fun _ => .ite (fun h => ?_) fun _ => .ite (fun h => ?_) fun _ =>
    .expecting
  · exact .cons (.seenCalm (isCalm_of_isKeyword h) joins_shift_calm)
      (.last (joins_expectKeyword .OTHERS))
  · exact .cons (.seenCalm (isCalm_of_isKeyword h) joins_shift_calm)
      (.last (joins_expectKeyword .ROW))
  · exact .seenCalm (isCalm_of_isKeywordIn h) joins_shift_calm

theorem joins_frameSpec : Joins begun calm frameSpec plain := by
  refine .node (.cons joins_shift_calm (.cons (.branch ?_ ?_) (.last (.onlyIf ?_ fun _ _ h => h))))
  · exact .cons (.whenCalm isCalm_of_isKeyword joins_shift_calm) <|
      .cons (.pre opens_of_plain joins_frameBound) <| .cons (joins_expectKeyword .AND) <|
      .last (.pre opens_of_plain joins_frameBound)
  · exact .pre opens_of_plain joins_frameBound
  · exact .whenCalm isCalm_of_isKeyword joins_frameExclude

theorem joins_windowDefinition : Joins begun P windowDefinition anything := by
  -- every part but the name starts with a keyword, so nothing need be known between them
  refine .cons (Q := anything) (.onlyIf ?_ fun _ _ _ => trivial)
    (.cons (.onlyIf (.node ?_) fun _ _ h => h) (.cons (.onlyIf ?_ fun _ _ h => h)
      (.last (.onlyIf ?_ fun _ _ h => h))))
  · exact .whenCalm (isCalm_of_is · rfl) joins_shift_calm.forget
  · exact .cons (.whenCalm isCalm_of_isKeyword joins_shift_calm) <|
      .cons (joins_expectKeyword .BY) <| .last (.pre opens_of_plain joins_expressionList.forget)
  · exact .whenCalm isCalm_of_isKeyword joins_orderBy.forget
  · exact .whenCalm isCalm_of_isKeywordIn joins_frameSpec.forget

theorem joins_overClause : Joins begun calm overClause plain := by
  refine .node (.cons joins_shift_calm (.last (.look fun v => ?_)))
  refine .ite (fun h => ?_) fun _ => .ite (fun h => ?_) fun _ => .expecting
  · exact .cons (.seen (fun _ hv => ⟨TokenKind.opensOperand_of_isPlain hv, h⟩)
      joins_shift_leftParen) (.cons joins_windowDefinition (.last joins_closeParen))
  · exact .seenCalm (isCalm_of_isName h) joins_shift_calm

theorem joins_functionCall : Joins begun (calmBefore .leftParen) functionCall plain := by
  refine .node (joins_shift_call (.cons (Q := anything) (.look fun v => .ite (fun h => ?_) fun _ =>
    .ite (fun _ => ?_) fun _ => ?_) (.cons joins_closeParen
      (.cons (.onlyIf ?_ fun _ _ h => h) (.last (.onlyIf ?_ fun _ _ h => h))))))
  · exact .seenCalm (isCalm_of_is h rfl) joins_shift_calm.forget
  · exact Joins.done.forget
  · refine .seen (fun _ h => h) (.cons (joins_eatKeyword .DISTINCT fun _ _ h => h)
      (.cons (.pre opens_of_plain joins_expressionList) (.last (.onlyIf ?_ fun _ _ _ => trivial))))
    exact .whenCalm isCalm_of_isKeyword joins_orderBy.forget
  · exact .whenCalm isCalm_of_isKeyword joins_filterClause
  · exact .whenCalm isCalm_of_isKeyword joins_overClause

theorem joins_parenthesized :
    Joins begun (opens.whenever (·.is .leftParen)) parenthesized plain := by
  refine .branch (.pre (fun _ _ hv => hv.1.1) joins_subquery) (.node ?_)
  exact .cons joins_shift_leftParen <| .cons (.pre opens_of_plain joins_expressionList) <|
    .last joins_closeParen

theorem joins_cast : Joins begun (calmBefore .leftParen) cast plain :=
  .node <| joins_shift_call <| .cons (.pre opens_of_plain joins_expr) <|
    .cons (joins_expectKeyword .AS) <| .cons joins_typeName <| .last joins_closeParen

/-- An optional `NOT` before a keyword. -/
theorem joins_eatNot (word : Keyword) (hword : word ≠ .NOT)
    (h : ∀ v previous, P v previous → v.isKeyword word = true ∨ v.isPair .NOT word = true) :
    Joins begun P (eatKeyword .NOT) calm := by
  refine .onlyIf (joins_shift_of_calm (fun v _ hv => isCalm_of_isKeyword hv.2) ?_) ?_
  · intro v previous v' hv hcurrent _ _
    rw [calm, hcurrent]
    rcases h v previous hv.1 with hkeyword | hpair
    · -- the token would have to be both keywords
      have hnot : v.current = .keyword .NOT := beq_iff_eq.1 hv.2
      rw [beq_iff_eq.1 hkeyword, TokenKind.keyword.injEq] at hnot
      exact absurd hnot hword
    · exact (isCalm_of_isPair hpair).2
  · intro v previous hv
    rcases h v previous hv with hkeyword | hpair
    · exact isCalm_of_isKeyword hkeyword
    · exact (isCalm_of_isPair hpair).1

theorem joins_existsTest :
    Joins begun (fun v _ => v.isKeyword .EXISTS || v.isPair .NOT .EXISTS) existsTest plain :=
  .node <| .cons (joins_eatNot .EXISTS nofun fun _ _ hv => Bool.or_eq_true _ _ ▸ hv) <|
    .cons joins_shift_calm <| .last (.pre opens_of_plain joins_subquery)

theorem joins_whenArm : Joins begun calm whenArm closes :=
  .node <| .cons joins_shift_calm <| .cons (.pre opens_of_plain joins_expr) <|
    .cons (joins_expectKeyword .THEN) <| .last (.pre opens_of_plain joins_expr)

theorem joins_elseArm : Joins begun calm elseArm closes :=
  .node <| .cons joins_shift_calm <| .last (.pre opens_of_plain joins_expr)

theorem joins_caseExpr : Joins begun calm caseExpr plain := by
  refine .node (.cons joins_shift_calm (.cons (Q := closes) (.onlyIf ?_ closes_of_plain)
    (.cons (.onlyIf .missing fun _ _ h => h) (.cons (.loop ?_)
      (.cons (.onlyIf ?_ fun _ _ h => h) (.last (joins_expectKeyword .END)))))))
  · exact .pre (fun v _ hv => opens_of_plain v _ hv.1) joins_expr
  · exact .whenCalm isCalm_of_isKeyword joins_whenArm
  · exact .whenCalm isCalm_of_isKeyword joins_elseArm

theorem joins_raise : Joins begun (calmBefore .leftParen) raise plain := by
  refine .node (joins_shift_call (.cons (Q := anything) (.look fun v => .ite (fun h => ?_) fun _ =>
    .ite (fun h => ?_) fun _ => .expecting) (.last joins_closeParen)))
  · exact .seenCalm (isCalm_of_isKeyword h) joins_shift_calm.forget
  · exact .cons (.seenCalm (isCalm_of_isKeywordIn h) joins_shift_calm) <|
      .cons (joins_expect "comma" rfl) <| .last (.pre opens_of_plain joins_expr.forget)

theorem joins_missingExpression : Joins begun P missingExpression Q := by
  -- recovery reports something, so what resumes behind it is never reached
  refine .branch .missing (.cons (Q := fun _ _ => False) .recover (.last (.unreachable ?_)))
  exact fun _ _ h => h

/-- **An expression without operators.** -/
theorem joins_primary : Joins begun opens primary closes := by
  refine .look fun v => ?_
  dsimp only
  refine .ite (fun h => ?_) fun _ => .ite (fun h => ?_) fun _ => .ite (fun h => ?_) fun _ =>
    .ite (fun h => ?_) fun _ => .ite (fun h => ?_) fun _ => .ite (fun h => ?_) fun _ =>
    .ite (fun h => ?_) fun _ => joins_missingExpression
  · exact .seen (fun _ hv => ⟨hv, h⟩) (joins_parenthesized.post closes_of_plain)
  · exact .seenCalm (isCalm_of_isKeyword h) (joins_caseExpr.post closes_of_plain)
  · exact .seen (fun _ _ => h) (joins_existsTest.post closes_of_plain)
  · rw [Bool.and_eq_true] at h
    exact .seen (fun _ _ => ⟨isCalm_of_isKeyword h.1, h.2⟩) (joins_cast.post closes_of_plain)
  · rw [Bool.and_eq_true] at h
    exact .seen (fun _ _ => ⟨isCalm_of_isKeyword h.1, h.2⟩) (joins_raise.post closes_of_plain)
  · rw [Bool.and_eq_true] at h
    have hcalm := isCalm_of_isName h.1
    refine .ite (fun hcall => ?_) fun _ => ?_
    · exact .seen (fun _ _ => ⟨hcalm, hcall⟩) (joins_functionCall.post closes_of_plain)
    · exact .seen (fun _ _ => hcalm) (joins_columnReference.post closes_of_plain)
  · -- a number may not stand behind a point
    refine .shift fun v' previous hv => ?_
    obtain ⟨rfl, hopens⟩ := hv
    obtain ⟨htakeable, hstarts, hcloses⟩ := TokenKind.startsOperand_of_isLiteral h
    exact ⟨htakeable, TokenKind.staysApart_of_opensOperand hopens hstarts, fun _ _ _ => hcloses⟩

/-! ## Operators -/

theorem joins_unary : Joins begun opens unary closes := by
  refine .branch (.node (.cons (Q := opens) (.shift fun v previous hv => ?_) (.last .nested)))
    joins_primary
  obtain ⟨htakeable, hstarts, hopens⟩ := TokenKind.opensOperand_of_isUnaryOperator hv.2
  exact ⟨htakeable, TokenKind.staysApart_of_opensOperand hv.1 hstarts, fun _ _ _ => hopens⟩

theorem joins_collate : Joins begun opens collate closes := by
  refine .chain joins_unary (.cons (Q := plain) ?_ (.last ?_))
  · exact .whenCalm isCalm_of_isKeyword joins_shift_calm
  · exact joins_collationName.post closes_of_plain

/-- An operator behind an operand. -/
theorem joins_shift_operator (level : Level) :
    Joins begun (closes.whenever (·.current.operatorLevel? == some level)) .shift opens :=
  .shift fun v previous hv => by
    have hlevel := beq_iff_eq.1 hv.2
    obtain ⟨htakeable, hopens⟩ := TokenKind.opensOperand_of_operatorLevel hlevel
    exact ⟨htakeable, TokenKind.staysApart_of_operatorLevel hv.1 hlevel, fun _ _ _ => hopens⟩

/-- **Operators of one level between operands.** -/
theorem joins_binary (level : Level) {operand : Rule}
    (h : ∀ {begun}, Joins begun opens operand closes) :
    Joins begun opens (binary level operand) closes :=
  .chain h (.cons (joins_shift_operator level) (.last h))

theorem joins_comparison : Joins begun opens comparison closes :=
  joins_binary _ <| joins_binary _ <| joins_binary _ <| joins_binary _ <| joins_binary _
    joins_collate

theorem joins_inTarget : Joins begun plain inTarget plain := by
  refine .look fun v => .ite (fun h => .ite (fun _ => ?_) fun _ => ?_) fun _ =>
    .ite (fun _ => joins_qualifiedName _ _) fun _ => .expecting
  · exact .seen (fun _ hv => TokenKind.opensOperand_of_isPlain hv) joins_subquery
  · refine .node (.cons (.seen (fun _ hv => ⟨TokenKind.opensOperand_of_isPlain hv, h⟩)
      joins_shift_leftParen) (.cons (Q := anything) (.onlyIf ?_ fun _ _ _ => trivial)
        (.last joins_closeParen)))
    exact .pre (fun v _ hv => opens_of_plain v _ hv.1) joins_expressionList.forget

/-- A `NOT` that belongs to an operator stands before a keyword. -/
theorem isCalm_of_negatesOperator {v : Lookahead} (h : negatesOperator v = true) :
    v.current.isCalm = true ∧ v.next.isCalm = true := by
  rw [negatesOperator, Bool.and_eq_true] at h
  exact ⟨isCalm_of_isKeyword h.1, TokenKind.isCalm_of_isKeywordIn h.2⟩

/-- With or without `NOT`, the first token of a keyword operator needs no care. -/
theorem isCalm_of_operator {v : Lookahead}
    (h : (if negatesOperator v then v.next else v.current).isCalm = true) :
    v.current.isCalm = true := by
  cases hnegated : negatesOperator v with
  | true => exact (isCalm_of_negatesOperator hnegated).1
  | false => rwa [hnegated] at h

/-- A keyword operator, with `NOT` if it is negated. -/
theorem joins_shiftOperator {v : Lookahead}
    (h : (if negatesOperator v then v.next else v.current).isCalm = true) :
    Joins begun (P.seeing v) (if negatesOperator v then all [.shift, .shift] else .shift)
      plain := by
  cases hnegated : negatesOperator v with
  | true => exact .seen (fun _ _ => isCalm_of_negatesOperator hnegated) (joins_shift_twice .nil)
  | false =>
    rw [hnegated] at h
    exact .seen (fun _ _ => h) joins_shift_calm

/-- An operator of the equality level that is a single token. -/
theorem joins_shift_equality {v : Lookahead}
    (h : ((if negatesOperator v then v.next else v.current).operatorLevel? == some .equality)
      = true) :
    Joins begun (closes.seeing v) .shift opens := by
  cases hnegated : negatesOperator v with
  | true =>
    exact .seen (fun _ _ => (isCalm_of_negatesOperator hnegated).1)
      (joins_shift_calm.post opens_of_plain)
  | false =>
    rw [hnegated] at h
    exact .seen (fun _ hv => ⟨hv, h⟩) (joins_shift_operator .equality)

/-- **Each operator of the equality level**, behind an operand. -/
theorem joins_equalityLink {v : Lookahead} {link : Rule} (h : equalityLink? v = some link) :
    Joins begun (closes.seeing v) link closes := by
  have hcurrent := @isCalm_of_operator v
  have hoperator := @joins_shiftOperator begun closes v
  have hequality := @joins_shift_equality begun v
  unfold equalityLink? at h
  dsimp only at h
  -- which of the two tokens the operator is does not matter from here on
  generalize (if negatesOperator v then v.next else v.current) = operator
    at h hcurrent hoperator hequality
  generalize (if negatesOperator v then all [.shift, .shift] else .shift) = shiftOperator
    at h hoperator
  have hkeyword : ∀ {word}, (operator == .keyword word) = true → operator.isCalm = true :=
    fun h => by rw [beq_iff_eq.1 h]; rfl
  split_ifs at h with heq hnull hnotNull his hbetween hin hpattern <;> cases h
  · exact .cons (hequality heq) (.last joins_comparison)
  · exact .seen (fun _ _ => hcurrent (TokenKind.isCalm_of_isKeywordIn hnull))
      (joins_shift_calm.post closes_of_plain)
  · exact (hoperator (hkeyword (Bool.and_eq_true _ _ ▸ hnotNull).1)).post closes_of_plain
  · refine .cons (.seen (fun _ _ => hcurrent (hkeyword his)) joins_shift_calm)
      (.cons (joins_eatKeyword .NOT fun _ _ h => h) (.cons (.onlyIf ?_ fun _ _ h => h)
        (.last (.pre opens_of_plain joins_comparison))))
    exact .cons (.whenCalm isCalm_of_isKeyword joins_shift_calm)
      (.last (joins_expectKeyword .FROM))
  · exact .cons (hoperator (hkeyword hbetween)) <| .cons (.pre opens_of_plain joins_comparison) <|
      .cons (joins_expectKeyword .AND) <| .last (.pre opens_of_plain joins_comparison)
  · exact .cons (hoperator (hkeyword hin)) (.last (joins_inTarget.post closes_of_plain))
  · refine .cons (hoperator (TokenKind.isCalm_of_isKeywordIn hpattern))
      (.cons (.pre opens_of_plain joins_comparison) (.last (.onlyIf ?_ fun _ _ h => h)))
    exact .cons (.whenCalm isCalm_of_isKeyword joins_shift_calm)
      (.last (.pre opens_of_plain joins_comparison))

theorem joins_equality : Joins begun opens equality closes := by
  refine .chain joins_comparison (.look fun v => ?_)
  cases hlink : equalityLink? v with
  | none =>
    -- the chain goes on only where there is a link
    refine .unreachable fun v' _ hv => ?_
    obtain ⟨rfl, -, hsome⟩ := hv
    replace hsome : (equalityLink? v').isSome = true := hsome
    rw [hlink] at hsome
    cases hsome
  | some link => exact .pre (fun _ _ hv => ⟨hv.1, hv.2.1⟩) (joins_equalityLink hlink)

theorem joins_negation : Joins begun opens negation closes := by
  refine .branch (.node (.cons (Q := opens) (.pre (fun v _ hv => ?_)
    (joins_shift_calm.post opens_of_plain)) (.last .nested))) joins_equality
  exact isCalm_of_isKeyword (Bool.and_eq_true _ _ ▸ hv.2).1

theorem joins_disjunction : Joins begun opens disjunction closes :=
  joins_binary .or (joins_binary .and joins_negation)

/-- **Every nonterminal takes an operand.** -/
theorem joins_ofNonterminal (goal : Nonterminal) :
    Joins begun opens (ofNonterminal goal) closes := by
  cases goal with
  | expression => exact joins_disjunction
  | negation => exact joins_negation
  | unary => exact joins_unary

/-! ## Column definitions -/

theorem joins_conflictClause : Joins begun P conflictClause anything := by
  refine .onlyIf (.node (.pre (fun _ _ hv => isCalm_of_isPair hv.2) (joins_shift_twice
    (.last (joins_expectOneOf _ _).forget)))) fun _ _ _ => trivial

theorem joins_parenthesizedExpr : Joins true opens parenthesizedExpr plain :=
  .cons (joins_expect_leftParen "(") <| .cons (.pre opens_of_plain joins_expr) <|
    .last joins_closeParen

theorem joins_generatedColumn : Joins true P generatedColumn anything := by
  refine .cons (Q := anything) (.onlyIf ?_ fun _ _ _ => trivial) (.cons (joins_expectKeyword .AS)
    (.cons (.pre opens_of_plain joins_parenthesizedExpr) (.last ?_)))
  · exact .cons (.whenCalm isCalm_of_isKeyword joins_shift_calm)
      (.last (joins_expectKeyword .ALWAYS).forget)
  · refine (joins_optional (fun hv => ?_) fun _ _ h => h).forget
    rcases Bool.or_eq_true _ _ ▸ hv with hvirtual | hstored
    · exact isCalm_of_isKeyword hvirtual
    · exact isCalm_of_is (Bool.and_eq_true _ _ ▸ hstored).1 rfl

theorem joins_defaultValue : Joins true plain defaultValue anything := by
  refine .look fun v => .ite (fun _ => ?_) fun _ => .ite (fun _ => ?_) fun _ =>
    .ite (fun h => ?_) fun _ => .ite (fun h => ?_) fun _ => .expecting
  · exact .seen (opens_of_plain v) joins_parenthesizedExpr.forget
  · exact .seen (opens_of_plain v) joins_signedNumber
  · refine .seen (fun _ _ => ?_) joins_shift_calm.forget
    rcases Bool.or_eq_true _ _ ▸ h with hliteral | hkeyword
    · rcases Bool.or_eq_true _ _ ▸ hliteral with hstring | hblob
      · exact isCalm_of_is hstring rfl
      · exact isCalm_of_is hblob rfl
    · exact isCalm_of_isKeywordIn hkeyword
  · exact .seenCalm (isCalm_of_isName h) joins_shift_calm.forget

theorem joins_foreignKeyAction : Joins begun P foreignKeyAction plain := by
  refine .look fun v => .ite (fun h => ?_) fun _ => .ite (fun h => ?_) fun _ =>
    .ite (fun h => ?_) fun _ => .expecting
  · exact .cons (.seenCalm (isCalm_of_isKeyword h) joins_shift_calm)
      (.last (joins_expectOneOf _ _))
  · exact .seenCalm (isCalm_of_isKeywordIn h) joins_shift_calm
  · exact .cons (.seenCalm (isCalm_of_isKeyword h) joins_shift_calm)
      (.last (joins_expectKeyword .ACTION))

theorem joins_deferrableClause : Joins begun P deferrableClause anything := by
  refine .onlyIf (.cons (joins_eatNot .DEFERRABLE nofun fun v _ hv => ?_)
    (.cons joins_shift_calm.forget (.last (.onlyIf ?_ fun _ _ h => h)))) fun _ _ _ => trivial
  · exact (Bool.or_eq_true _ _ ▸ hv.2).symm
  · exact .cons (.whenCalm isCalm_of_isKeyword joins_shift_calm)
      (.last (joins_expectOneOf _ _).forget)

theorem joins_foreignKeyClause : Joins begun calm foreignKeyClause anything := by
  refine .node (.cons joins_shift_calm (.cons (joins_name _ _) (.cons (Q := anything)
    (.onlyIf ?_ fun _ _ _ => trivial) (.cons (.loop (.branch ?_ ?_))
      (.last joins_deferrableClause)))))
  · refine .cons (.pre (fun v _ hv => ⟨opens_of_plain v _ hv.1, hv.2⟩) joins_shift_leftParen)
      (.cons (Q := plain) (.list (R := anything) (fun _ _ _ _ => trivial) (joins_name _ _))
        (.last joins_closeParen.forget))
  · refine .pre (fun v _ hv => ?_) (joins_shift_twice (.last joins_foreignKeyAction.forget))
    obtain ⟨hon, haction⟩ := (Bool.and_eq_true _ _).mp hv.2
    exact ⟨isCalm_of_isKeyword hon, TokenKind.isCalm_of_isKeywordIn haction⟩
  · refine .cons (.pre (fun v _ hv => ?_) joins_shift_calm) (.last (joins_nameToken _).forget)
    rcases Bool.or_eq_true _ _ ▸ hv.2 with haction | hmatch
    · exact isCalm_of_isKeyword (Bool.and_eq_true _ _ ▸ haction).1
    · exact isCalm_of_isKeyword hmatch

theorem joins_constraintBody : Joins true P constraintBody anything := by
  have hcalm {v : Lookahead} (h : v.current.isCalm = true) :
      Joins true (P.seeing v) .shift plain := .seen (fun _ _ => h) joins_shift_calm
  refine .look fun v => .ite (fun h => ?_) fun _ => .ite (fun h => ?_) fun _ =>
    .ite (fun h => ?_) fun _ => .ite (fun h => ?_) fun _ => .ite (fun h => ?_) fun _ =>
    .ite (fun h => ?_) fun _ => .ite (fun h => ?_) fun _ => .ite (fun _ => ?_) fun _ => .expecting
  · exact .cons (hcalm (isCalm_of_isKeyword h)) <| .cons (joins_expectKeyword .KEY) <|
      .cons (joins_eatOneOf _ fun _ _ h => h) <| .cons joins_conflictClause <|
      .last (joins_eatKeyword .AUTOINCREMENT fun _ _ _ => trivial)
  · exact .seen (fun _ _ => isCalm_of_isPair h) (joins_shift_twice (.last joins_conflictClause))
  · exact .cons (hcalm (isCalm_of_isKeywordIn h)) (.last joins_conflictClause)
  · exact .cons (hcalm (isCalm_of_isKeyword h))
      (.last (.pre opens_of_plain joins_parenthesizedExpr.forget))
  · exact .cons (hcalm (isCalm_of_isKeyword h)) (.last joins_defaultValue)
  · exact .cons (hcalm (isCalm_of_isKeyword h)) (.last joins_collationName.forget)
  · exact .seenCalm (isCalm_of_isKeyword h) joins_foreignKeyClause
  · exact joins_generatedColumn

theorem joins_columnDefinition : Joins true P columnDefinition anything := by
  refine .node (.cons (joins_name _ _) (.cons (Q := anything) (.onlyIf ?_ fun _ _ _ => trivial)
    (.last (.loop (.node (.cons (Q := anything) (.onlyIf ?_ fun _ _ _ => trivial)
      (.last joins_constraintBody)))))))
  · exact .pre (fun _ _ hv => hv.1) joins_typeName
  · exact .cons (.whenCalm isCalm_of_isKeyword joins_shift_calm)
      (.last (joins_nameToken _).forget)

/-! ## Statements -/

theorem joins_alterAction : Joins true P alterAction anything := by
  have hcalm {v : Lookahead} {word : Keyword} (h : v.isKeyword word = true) :
      Joins true (P.seeing v) .shift plain :=
    .seenCalm (isCalm_of_isKeyword h) joins_shift_calm
  have hcolumn : Joins true plain (eatKeyword .COLUMN) plain :=
    joins_eatKeyword .COLUMN fun _ _ h => h
  refine .look fun v => .ite (fun h => ?_) fun _ => .ite (fun h => ?_) fun _ =>
    .ite (fun h => ?_) fun _ => .ite (fun h => ?_) fun _ => .ite (fun _ => .expecting) fun _ =>
    .recover
  · exact .node (.seen (fun _ _ => isCalm_of_isPair h) (joins_shift_twice
      (.last (joins_name _ _).forget)))
  · exact .node <| .cons (hcalm h) <| .cons hcolumn <| .cons (joins_name _ _) <|
      .cons (joins_expectKeyword .TO) <| .last (joins_name _ _).forget
  · exact .node (.cons (hcalm h) (.cons hcolumn (.last joins_columnDefinition)))
  · exact .node (.cons (hcalm h) (.cons hcolumn (.last (joins_name _ _).forget)))

theorem joins_alterTable : Joins true calm alterTable anything :=
  .node <| .cons joins_shift_calm <| .cons (joins_expectKeyword .TABLE) <|
    .cons (.branch .missing (joins_qualifiedName _ _)) <| .last joins_alterAction

theorem joins_analyze : Joins true calm analyze anything :=
  .node <| .cons joins_shift_calm <|
    .last (.onlyIf (joins_qualifiedName _ _).forget fun _ _ _ => trivial)

theorem joins_attach : Joins true calm attach anything :=
  .node <| .cons joins_shift_calm <| .cons (joins_eatKeyword .DATABASE fun _ _ h => h) <|
    .cons (.pre opens_of_plain joins_expr) <| .cons (joins_expectKeyword .AS) <|
    .last (joins_name _ _).forget

theorem joins_begin : Joins true calm begin anything := by
  refine .node (.cons joins_shift_calm (.cons (joins_eatOneOf _ fun _ _ h => h)
    (.last (.onlyIf ?_ fun _ _ _ => trivial))))
  exact .cons (.whenCalm isCalm_of_isKeyword joins_shift_calm)
    (.last (joins_optional isCalm_of_isName fun _ _ h => h).forget)

theorem joins_explain : Joins true P explain anything := by
  refine .onlyIf (.cons (Q := plain) ?_ (.last (.onlyIf ?_ fun _ _ _ => trivial)))
    fun _ _ _ => trivial
  · exact .whenCalm isCalm_of_isKeyword joins_shift_calm
  · exact .cons (.whenCalm isCalm_of_isKeyword joins_shift_calm)
      (.last (joins_expectKeyword .PLAN).forget)

/-- **Every rule of a statement joins its tokens**, at the keyword that begins it. -/
theorem joins_ofStatementKeyword {kind : TokenKind} {r : Rule}
    (h : ofStatementKeyword? kind = some r) :
    Joins true (fun v _ => v.current = kind) r anything := by
  have hcalm : ∀ word (v : Lookahead) previous, v.current = .keyword word → calm v previous :=
    fun word v _ hv => isCalm_of_is (beq_iff_eq.2 hv) rfl
  unfold ofStatementKeyword? at h
  split at h <;> cases h
  · exact .pre (hcalm _) joins_alterTable
  · exact .pre (hcalm _) joins_select
  · exact .pre (hcalm _) joins_analyze
  · exact .pre (hcalm _) joins_attach
  · exact .pre (hcalm _) joins_begin

/-- **What can be derived of a rule holds when it parses.** -/
theorem Joins.meets {r : Rule} (h : Joins begun P r Q) (bound : Nat) :
    Meets bound r.takes P r.parse Q := by
  have hgoals := fun depth goal => meets_nonterminal bound depth goal joins_ofNonterminal
  refine (h.sound hgoals 0).mono ?_
  cases begun <;> simp [reach]

end Rule

end TolerantSql
