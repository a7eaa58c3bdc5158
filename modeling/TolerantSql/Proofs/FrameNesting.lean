import TolerantSql.Proofs.GivenTokens
import TolerantSql.Proofs.NestingBound

/-!
# Frames within frames

The bound of a window frame is an expression, which may be a call over a window with a
frame of its own. Such calls can be put into each other without end, and the parser
follows them down however far they go: a frame inside a frame is on the same level of
nesting, since its bound is entered without going one level deeper. No tree is cut off
there, and none has an error, so the trees that are parsed have no greatest height
(`not_exists_height_bound`), and the part of the bound of `height_parse_le` that counts
frames cannot be left out.
-/

namespace TolerantSql

open Rule

/-! ## A call over a window with a frame -/

namespace Part.Finds

variable {n depth : Nat} {g : Forest} {s s' : State}

/-- The bound of a frame on the level of the frame. What it begins with tells it from the
bounds that are words. -/
theorem runs_frameBound {p : Token} (hruns : negation.Runs depth s g s') (hs : s.input.Lawful)
    (hfirst : s.lookahead.isKeywordIn [.CURRENT, .UNBOUNDED] = false) (hcurrent : s'.current = p)
    (hp : p.kind = .keyword .PRECEDING) :
    frameBound.Runs depth s [.node .frameBound (g ++ [.token p])] s'.advance := by
  have hword : ∀ word ∈ [Keyword.CURRENT, .UNBOUNDED], s.lookahead.isKeyword word = false :=
    fun _ => Lookahead.isKeyword_of_isKeywordIn hfirst
  refine .node (.branch_neg ?_ (.cons (.branch_neg (hword _ (by decide)) (.resume hs hruns))
    (.last (.branch_pos ?_ (.token hcurrent hp rfl)))))
  · rw [Lookahead.isPair, hword _ (by decide), Bool.false_and]
  · rw [State.lookahead_eq (State.lookahead_current hcurrent hp)]
    rfl

/-- A window that is nothing but a frame with one bound. -/
theorem runs_windowDefinition {rows rp : Token} {bound : Forest} (hcurrent : s.current = rows)
    (hrows : rows.kind = .keyword .ROWS)
    (hbetween : s.advance.lookahead.isKeyword .BETWEEN = false)
    (hbound : frameBound.Runs depth s.advance bound s') (hcurrent' : s'.current = rp)
    (hrp : rp.kind = .rightParen) :
    windowDefinition.Runs depth s [.node .frameSpec (.token rows :: bound)] s' := by
  have hv := State.lookahead_eq (State.lookahead_current hcurrent hrows)
  have hv' := State.lookahead_eq (State.lookahead_current hcurrent' hrp)
  refine .skip (.onlyIf_neg (by rw [hv]; rfl)) (.skip (.onlyIf_neg (by rw [hv]; rfl))
    (.skip (.onlyIf_neg (by rw [hv]; rfl)) (.last (.onlyIf_pos (by rw [hv]; rfl) (.node ?_)))))
  exact .cons (.token hcurrent hrows rfl) (.keep (.branch_neg hbetween hbound)
    (.last (.onlyIf_neg (by rw [hv']; rfl))))

/-- **A call over a window whose frame has an expression as its bound** is found on the
level of that expression. -/
theorem callOver {a lp rp window lp' rows preceding rp' : Token} (ha : a.kind = .identifier)
    (hlp : lp.kind = .leftParen) (hrp : rp.kind = .rightParen)
    (hover : window.kind = .keyword .OVER) (hlp' : lp'.kind = .leftParen)
    (hrows : rows.kind = .keyword .ROWS) (h : (operand 2).Finds n g)
    (hfirst : ∀ t ∈ (Forest.terminals g).head?, t.kind.isKeywordIn [.CURRENT, .UNBOUNDED] = false)
    (hpreceding : preceding.kind = .keyword .PRECEDING) (hrp' : rp'.kind = .rightParen) :
    (operand 11).Finds n [.node .functionCall [.token a, .token lp, .token rp,
      .node .overClause [.token window, .token lp',
        .node .frameSpec [.token rows, .node .frameBound (g ++ [.token preceding])],
        .token rp']]] := by
  intro depth s s' hdepth hs hreads _
  simp only [reads_node, reads_forest_append, reads_token, reads_nil] at hreads
  obtain ⟨_, ⟨hcurrent, hcurrent₁, hcurrent₂, _, ⟨hcurrent₃, hcurrent₄, _, ⟨hcurrent₅, _,
    ⟨s₁, hg, hcurrent₆, rfl⟩, rfl⟩, hcurrent₇, rfl⟩, rfl⟩, rfl⟩ := hreads
  have hs' := hs.advance.advance.advance.advance.advance.advance
  have hv₂ := State.lookahead_eq (State.lookahead_current hcurrent₂ hrp)
  have hv₃ := State.lookahead_eq (State.lookahead_current hcurrent₃ hover)
  have hv₄ := State.lookahead_eq (State.lookahead_current hcurrent₄ hlp')
  have hv₆ := State.lookahead_current hcurrent₆ hpreceding
  obtain ⟨henters, hruns⟩ := h depth _ s₁ hdepth hs' hg
    (StopsAt.mono (.of_kind hv₆ (by decide)) (Nat.zero_le _))
  have hword : s.advance.advance.advance.advance.advance.advance.lookahead.isKeywordIn
      [.CURRENT, .UNBOUNDED] = false := by
    cases hterminals : Forest.terminals g with
    | nil =>
      exact absurd hterminals
        (terminals_ne_nil (EntersAt.mono henters (Nat.zero_le _)) hg hv₆ rfl)
    | cons t rest =>
      rw [hterminals] at hg hfirst
      rw [Lookahead.isKeywordIn, State.lookahead_current hg.1 rfl]
      exact hfirst t rfl
  have hdefinition := runs_windowDefinition hcurrent₅ hrows
    (beq_eq_false_iff_ne.2 (henters.ne rfl)) (runs_frameBound hruns hs' hword hcurrent₆ hpreceding)
    hcurrent₇ hrp'
  exact call_of_parens hcurrent ha hcurrent₁ hlp (.node
    (.cons (.token hcurrent ha rfl) <| .cons (.token hcurrent₁ hlp rfl) <|
      .skip (.look (by rw [hv₂]; rfl) .done) <| .cons (.closeParen hcurrent₂ hrp) <|
      .skip (.onlyIf_neg (by rw [hv₃]; rfl)) <| .last <| .onlyIf_pos (by rw [hv₃]; rfl) <| .node <|
      .cons (.token hcurrent₃ hover rfl) <| .last <| .look (by rw [hv₄]; rfl) <|
      .cons (.token hcurrent₄ hlp' rfl) <| .cons hdefinition <| .last <|
      .closeParen hcurrent₇ hrp'))

end Part.Finds

/-! ## Calls within frames -/

/-- `f()OVER(ROWS bound PRECEDING)`, with the tokens of `SELECT f()OVER(ROWS 1 PRECEDING)`. -/
def callOverFrame (bound : Tree) : Tree :=
  .node .functionCall [
    .token ⟨.identifier, "f", ⟨7, 8⟩⟩,
    .token ⟨.leftParen, "(", ⟨8, 9⟩⟩,
    .token ⟨.rightParen, ")", ⟨9, 10⟩⟩,
    .node .overClause [
      .token ⟨.keyword .OVER, "OVER", ⟨10, 14⟩⟩,
      .token ⟨.leftParen, "(", ⟨14, 15⟩⟩,
      .node .frameSpec [
        .token ⟨.keyword .ROWS, "ROWS", ⟨15, 19⟩⟩,
        .node .frameBound [bound, .token ⟨.keyword .PRECEDING, "PRECEDING", ⟨22, 31⟩⟩]],
      .token ⟨.rightParen, ")", ⟨31, 32⟩⟩]]

/-- **Calls over windows, each the bound of the next one's frame.** -/
def nestedFrames : Nat → Tree
  | 0 => .token ⟨.numeric, "1", ⟨20, 21⟩⟩
  | k + 1 => callOverFrame (nestedFrames k)

theorem terminals_callOverFrame (bound : Tree) :
    (callOverFrame bound).terminals
      = [⟨.identifier, "f", ⟨7, 8⟩⟩, ⟨.leftParen, "(", ⟨8, 9⟩⟩, ⟨.rightParen, ")", ⟨9, 10⟩⟩,
          ⟨.keyword .OVER, "OVER", ⟨10, 14⟩⟩, ⟨.leftParen, "(", ⟨14, 15⟩⟩,
          ⟨.keyword .ROWS, "ROWS", ⟨15, 19⟩⟩]
        ++ bound.terminals
        ++ [⟨.keyword .PRECEDING, "PRECEDING", ⟨22, 31⟩⟩, ⟨.rightParen, ")", ⟨31, 32⟩⟩] := by
  simp [Tree.terminals, callOverFrame, Leaf.token?]

/-- **Frames within frames are found**, at whatever depth. -/
theorem finds_nestedFrames (k n : Nat) : (Part.operand 11).Finds n [nestedFrames k] := by
  induction k with
  | zero => exact .literal rfl
  | succ k ih =>
    refine Part.Finds.callOver (g := [nestedFrames k]) rfl rfl rfl rfl rfl rfl
      (ih.mono (by decide)) ?_ rfl rfl
    cases k with
    | zero => rintro _ ⟨⟩; rfl
    | succ k => rintro _ ⟨⟩; rfl

theorem height_nestedFrames (k : Nat) : (nestedFrames k).height = 4 * k := by
  induction k with
  | zero => rfl
  | succ k ih =>
    rw [nestedFrames, callOverFrame]
    simp only [Tree.height_node, Tree.height_leaf, Forest.height_cons, Forest.height_nil, ih]
    omega

theorem errors_nestedFrames (k : Nat) : (nestedFrames k).errors = [] := by
  induction k with
  | zero => rfl
  | succ k ih =>
    rw [← ih, nestedFrames]
    simp [Tree.errors, callOverFrame, List.filterMap_cons, Leaf.error?]

/-- Every token is one of those a source has. -/
theorem isProper_nestedFrames (k : Nat) :
    ∀ t ∈ ⟨.keyword .SELECT, "SELECT", ⟨0, 6⟩⟩ :: (nestedFrames k).terminals, Lexer.IsProper t := by
  have htokens : (TokenStream.ofSource "SELECT f()OVER(ROWS 1 PRECEDING)").pending.map Lexeme.token
      = ⟨.keyword .SELECT, "SELECT", ⟨0, 6⟩⟩ :: (nestedFrames 1).terminals := by
    decide +kernel
  have hsubset : (nestedFrames k).terminals ⊆ (nestedFrames 1).terminals := by
    induction k with
    | zero => decide
    | succ k ih =>
      rw [nestedFrames, terminals_callOverFrame]
      exact List.append_subset.2 ⟨List.append_subset.2 ⟨by decide, ih⟩, by decide⟩
  intro t ht
  have hmem := List.cons_subset_cons _ hsubset ht
  have herror : ∀ u ∈ (⟨.keyword .SELECT, "SELECT", ⟨0, 6⟩⟩ : Token) :: (nestedFrames 1).terminals,
      u.kind.isError = false := by decide
  have hproper := herror t hmem
  rw [← htokens] at hmem
  obtain ⟨l, hl, rfl⟩ := List.mem_map.1 hmem
  exact Lexer.isProper_of_mem_ofSource hl hproper

/-! ## The places of tokens -/

mutual

/-- The height of a tree does not depend on its tokens. -/
theorem Tree.height_mapTokens (f : Token → Token) (t : Tree) :
    (t.mapTokens f).height = t.height := by
  cases t with
  | node kind children =>
    rw [Tree.mapTokens, Tree.height_node, Tree.height_node, Forest.height_mapTokens]
  | leaf l => rfl

theorem Forest.height_mapTokens (f : Token → Token) (g : Forest) :
    Forest.height (Forest.mapTokens f g) = g.height := by
  cases g with
  | nil => rfl
  | cons t g =>
    rw [Forest.mapTokens, Forest.height_cons, Forest.height_cons, Tree.height_mapTokens,
      Forest.height_mapTokens]

end

mutual

theorem Tree.leaves_mapTokens (f : Token → Token) (t : Tree) :
    (t.mapTokens f).leaves = t.leaves.map (Leaf.mapToken f) := by
  cases t with
  | node kind children =>
    rw [Tree.mapTokens, Tree.leaves_node, Tree.leaves_node, Forest.leaves_mapTokens]
  | leaf l => rfl

theorem Forest.leaves_mapTokens (f : Token → Token) (g : Forest) :
    Forest.leaves (Forest.mapTokens f g) = (Forest.leaves g).map (Leaf.mapToken f) := by
  cases g with
  | nil => rfl
  | cons t g =>
    rw [Forest.mapTokens, Forest.leaves_cons, Forest.leaves_cons, Tree.leaves_mapTokens,
      Forest.leaves_mapTokens, List.map_append]

end

/-- Errors do not depend on tokens. -/
theorem Tree.errors_mapTokens (f : Token → Token) (t : Tree) :
    (t.mapTokens f).errors = t.errors := by
  have herror : Leaf.error? ∘ Leaf.mapToken f = Leaf.error? := by
    funext l
    cases l <;> rfl
  rw [errors, leaves_mapTokens, List.filterMap_map, herror]
  rfl

/-! ## No bound on the height -/

/-- **Frames within frames make accepted trees of any height.** -/
theorem exists_parse_nestedFrames (k : Nat) :
    ∃ source, ∃ statement ∈ parse source,
      statement.hasErrors = false ∧ statement.tree.height = 4 * k + 3 := by
  have hfinds : Part.inner.Finds 1 [nestedFrames k] :=
    ((finds_nestedFrames k 0).mono (Nat.zero_le _)).inner
  have herrors : Forest.errors [nestedFrames k] = [] :=
    (Forest.errors_singleton _).trans (errors_nestedFrames k)
  obtain ⟨statement, rest, hparse, htree⟩ := exists_parse_selectTree
    ⟨.keyword .SELECT, "SELECT", ⟨0, 6⟩⟩ hfinds (by decide) herrors rfl (isProper_nestedFrames k)
  refine ⟨_, statement, by rw [hparse]; exact List.mem_cons_self, ?_, ?_⟩
  · have h := congrArg Tree.errors htree
    simp only [Tree.eraseSpans, Tree.errors_mapTokens] at h
    rw [Statement.hasErrors, Tree.hasErrors, h]
    exact hasErrors_selectTree herrors
  · have h := congrArg Tree.height htree
    simp only [Tree.eraseSpans, Tree.height_mapTokens] at h
    rw [h, selectTree]
    simp [height_nestedFrames]

/-- **Nothing bounds the height of trees**, not even that of trees without errors: frames
within frames are never cut off. -/
theorem not_exists_height_bound :
    ¬ ∃ bound, ∀ (source : String), ∀ statement ∈ parse source, statement.tree.height ≤ bound := by
  rintro ⟨bound, hbound⟩
  obtain ⟨source, statement, hmem, -, hheight⟩ := exists_parse_nestedFrames bound
  have hle := hbound source statement hmem
  omega

end TolerantSql
