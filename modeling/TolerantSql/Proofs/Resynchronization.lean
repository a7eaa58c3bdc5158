import TolerantSql.Proofs.LookaheadWindow

/-!
# Skipping to where parsing can go on

Where the current token fits nowhere, a rule skips to one at which it can go on, and all
recovery comes down to that. `State.skipUntil` is given a test for such tokens, which may
be any test: one that holds at the end of the input or one that does not, one that looks
at the text or the place of a token. Its contract has three parts. It stops at the first
token that passes the test, or else at the end of the input, and says whether the test
holds there. What it passed over goes into one node, and there is no such node without a
token. If the input has ended already it says so, but only once in a statement.

The contract is that of a step on a stream, which is there as a whole. A parser need not
have the stream: `WindowParser` sees it through a window of three lexemes. It changes in
place, as does the node it adds to, and how deeply its expressions are nested is a number
that it keeps. It skips token by token, in a loop that ends because the window has fewer
tokens to come after each round. What it does in place is what the step does
(`WindowParser.Follows`), and it leaves the nesting and the children that are there alone.
-/

namespace TolerantSql

/-! ## Skipping on a stream -/

/-- Before the end of the input, tokens that fail a test are those that fail it among all
that are to come. -/
theorem TokenStream.Lawful.takeWhile_lexemes {input : TokenStream} (h : input.Lawful)
    (sync : Token → Bool) :
    (input.lexemes.takeWhile fun l => !l.token.isEof && !sync l.token)
      = input.pending.takeWhile fun l => !sync l.token := by
  obtain ⟨pending, last⟩ := input
  obtain ⟨hpending, hlast⟩ := h
  dsimp only [lexemes] at hpending hlast ⊢
  induction pending with
  | nil => rw [List.nil_append, List.takeWhile_cons, hlast]; rfl
  | cons l rest ih =>
    obtain ⟨hl, hrest⟩ := List.forall_mem_cons.1 hpending
    rw [List.cons_append, List.takeWhile_cons, List.takeWhile_cons, ih hrest, hl]
    rfl

/-- **What skipping comes to**, where `taken` is what is passed over: whether the test holds
where it stops, the state there, and the trees that are added. -/
structure Skips (sync : Token → Bool) (s : State) (taken : List Lexeme)
    (result : Bool × Outcome) : Prop where
  /-- The flag says whether the test holds. -/
  found : result.1 = sync result.2.state.current
  /-- The rest of the input is still to come. -/
  lexemes : s.input.lexemes = taken ++ result.2.state.input.lexemes
  comments : result.2.state.comments
    = taken.foldl (fun m l => m.insert l.token l.comments) s.comments
  /-- The end of the input counts as reported once skipping has met it. -/
  endReported : result.2.state.endReported = (s.endReported || (s.atEof && !sync s.current))
  /-- Nothing is added where the test holds already, a report at the end of the input unless
  there is one, and else a node of the tokens that are passed over. -/
  added : if sync s.current then taken = [] ∧ result.2.forest = []
    else if s.atEof then
      taken = [] ∧ result.2.forest = if s.endReported then [] else [.error .unexpectedEof]
    else taken ≠ [] ∧ result.2.forest = [.node .skipped (taken.map fun l => .token l.token)]

namespace Skips

variable {sync : Token → Bool} {s : State}

/-- Where the test holds there is nothing to do. -/
theorem stay (hsync : sync s.current = true) : Skips sync s [] (true, s.stay) where
  found := hsync.symm
  lexemes := rfl
  comments := rfl
  endReported := by
    rw [hsync, Bool.not_true, Bool.and_false, Bool.or_false]
    rfl
  added := by
    rw [if_pos hsync]
    exact ⟨rfl, rfl⟩

/-- At the end of the input there is nothing to pass over. -/
theorem reportEnd (hsync : sync s.current = false) (hend : s.atEof = true) :
    Skips sync s [] (false, s.reportEnd) := by
  rw [State.reportEnd]
  cases hreported : s.endReported with
  | true =>
    refine ⟨hsync.symm, rfl, rfl, ?_, ?_⟩
    · rw [hreported]
      exact hreported
    · rw [hsync, hend, hreported]
      exact ⟨rfl, rfl⟩
  | false =>
    refine ⟨hsync.symm, rfl, rfl, ?_, ?_⟩
    · rw [hsync, hend, hreported]
      rfl
    · rw [hsync, hend, hreported]
      exact ⟨rfl, rfl⟩

/-- Tokens from the front of the input are passed over. -/
theorem wrap {taken rest : List Lexeme} (hsync : sync s.current = false) (hend : s.atEof = false)
    (hpending : s.input.pending = taken ++ rest) (hne : taken ≠ []) (log : List Event) :
    let after : State := ⟨⟨rest, s.input.last⟩,
      taken.foldl (fun m l => m.insert l.token l.comments) s.comments, s.endReported, log⟩
    Skips sync s taken
      (sync after.current, ⟨[.node .skipped (taken.map fun l => .token l.token)], after⟩) where
  found := rfl
  lexemes := by
    rw [TokenStream.lexemes, hpending, List.append_assoc]
    rfl
  comments := rfl
  endReported := by rw [hend, Bool.false_and, Bool.or_false]
  added := by
    rw [hsync, hend]
    exact ⟨hne, rfl⟩

end Skips

/-- **Skipping passes over the longest run of tokens that fail the test.** -/
theorem State.skips_skipUntil {s : State} (hs : s.input.Lawful) (sync : Token → Bool) :
    Skips sync s (s.input.pending.takeWhile fun l => !sync l.token) (s.skipUntil sync) := by
  rw [skipUntil]
  split_ifs with hsync hend
  · have hnone : (s.input.pending.takeWhile fun l => !sync l.token) = [] :=
      takeWhile_pending_eq_nil (p := fun t => !sync t) (by rw [hsync]; rfl)
    rw [hnone]
    exact .stay hsync
  · have hpending : s.input.pending = [] := by
      rwa [atEof_eq hs, List.isEmpty_iff] at hend
    rw [hpending]
    exact .reportEnd (Bool.eq_false_of_not_eq_true hsync) hend
  · rw [Bool.not_eq_true] at hsync hend
    have hsome : (s.input.pending.takeWhile fun l => !sync l.token) ≠ [] :=
      takeWhile_pending_ne_nil (p := fun t => !sync t) hs hend (by rw [hsync]; rfl)
    rw [takeWhile_eq]
    exact .wrap hsync hend List.takeWhile_append_dropWhile.symm hsome _

/-! ## Skipping in place -/

namespace TokenStream

/-- The stream of what a scanner has to come is lawful. -/
theorem lawful_ofCursor (c : Cursor) : (ofCursor [] c).Lawful :=
  ((Lexer.lexes_tokensFrom _ c (Nat.le_refl _)).ofTokens []).1

/-- A stream hands out a token that is to come, or its end. -/
theorem Lawful.length_pending {input : TokenStream} (h : input.Lawful) :
    (if input.current.token.isEof then 0 else 1) + input.advance.pending.length
      = input.pending.length := by
  cases hpending : input.pending with
  | nil =>
    rw [current_nil hpending, advance_nil hpending, h.last]
    rfl
  | cons l rest =>
    rw [current_cons hpending, advance_cons hpending,
      h.pending l (hpending ▸ List.mem_cons_self)]
    exact Nat.add_comm _ _

end TokenStream

namespace LookaheadWindow

/-- Number of tokens to come before the end of the input: those in the window, and those
of the scanner. -/
def remaining (w : LookaheadWindow) : Nat :=
  seen 0 + seen 1 + seen 2 + (TokenStream.ofCursor [] w.cursor).pending.length
where
  /-- One for a slot with a token, and none for one with the end of the input. -/
  seen (n : Nat) : Nat := if (w.peek n).token.isEof then 0 else 1

/-- **Taking a token that is not the end of the input leaves fewer to come.** -/
theorem remaining_advance_lt {w : LookaheadWindow} (h : (w.peek 0).token.isEof = false) :
    w.advance.2.remaining < w.remaining := by
  obtain ⟨hnext, hrest⟩ := pull_eq [] w.cursor
  have hfirst : remaining.seen w 0 = 1 := by
    rw [remaining.seen, h]
    rfl
  -- the slots move up, and the scanner fills the last of them
  have hslot (n : Nat) (hn : n < 2) :
      remaining.seen w.advance.2 n = remaining.seen w (n + 1) := by
    rw [remaining.seen, remaining.seen, peek_advance w hn]
  have hsecond : remaining.seen w.advance.2 0 = remaining.seen w 1 := hslot 0 (by decide)
  have hthird : remaining.seen w.advance.2 1 = remaining.seen w 2 := hslot 1 (by decide)
  have hlast : remaining.seen w.advance.2 2
      + (TokenStream.ofCursor [] w.advance.2.cursor).pending.length
      = (TokenStream.ofCursor [] w.cursor).pending.length := by
    rw [remaining.seen, peek_advance_two, hnext,
      ← (TokenStream.lawful_ofCursor w.cursor).length_pending, ← hrest]
    rfl
  rw [remaining, remaining]
  omega

end LookaheadWindow

/-- **A node that is being built.** -/
structure OpenNode where
  kind : NodeKind
  /-- The children that it has so far. -/
  children : Forest

namespace OpenNode

/-- Adds trees behind the children that are there. -/
def append (node : OpenNode) (trees : Forest) : OpenNode :=
  { node with children := node.children ++ trees }

/-- The tree of a node to which nothing more is added. -/
def close (node : OpenNode) : Tree := .node node.kind node.children

end OpenNode

/-- **A parser that works in place**, with a window on the input. -/
structure WindowParser where
  window : LookaheadWindow
  /-- The comments before the tokens taken so far. -/
  comments : CommentMap
  /-- Whether the early end of the input has been reported. -/
  endReported : Bool
  /-- How deeply the expression being parsed is nested. -/
  depth : Nat
  /-- What has been logged, most recent first. -/
  log : List Event

namespace WindowParser

/-- The parser at the start of a source. -/
def ofSource (source : String) : WindowParser :=
  ⟨.ofSource source, .empty, false, 0, []⟩

/-- The current token. -/
def current (p : WindowParser) : Token := (p.window.peek 0).token

/-- Takes the current token into a node. -/
def bump (p : WindowParser) (node : OpenNode) : OpenNode × WindowParser :=
  let (lexeme, window) := p.window.advance
  (node.append [.token lexeme.token],
    { p with window, comments := p.comments.insert lexeme.token lexeme.comments })

/-- Reports that the input ended too early, unless that has been reported already. -/
def reportEnd (p : WindowParser) (node : OpenNode) : OpenNode × WindowParser :=
  if p.endReported then (node, p)
  else (node.append [.error .unexpectedEof], { p with endReported := true })

/-- **Takes tokens one by one** up to one that passes a test, or the end of the input. -/
def bumpUntil (sync : Token → Bool) (p : WindowParser) (node : OpenNode) :
    OpenNode × WindowParser :=
  if _h : p.current.isEof || sync p.current then (node, p)
  else bumpUntil sync (p.bump node).2 (p.bump node).1
termination_by p.window.remaining
decreasing_by
  rw [Bool.or_eq_true, not_or, Bool.not_eq_true] at _h
  exact LookaheadWindow.remaining_advance_lt _h.1

/-- **Skips to a token that passes a test**, and adds what is passed over to `parent`. The
flag says whether the test holds afterwards. -/
def skipUntil (sync : Token → Bool) (p : WindowParser) (parent : OpenNode) :
    Bool × OpenNode × WindowParser :=
  if sync p.current then (true, parent, p)
  else if p.current.isEof then (false, p.reportEnd parent)
  else
    let (skipped, p) := p.bumpUntil sync ⟨.skipped, []⟩
    let event := .skippedTokens skipped.children.length p.current.span.start
    (sync p.current, parent.append [skipped.close], { p with log := event :: p.log })

/-- **The parser is in a state**: its window shows the input, and what it has filed, reported
and logged is the same. -/
structure Shows (p : WindowParser) (s : State) : Prop where
  window : p.window.Shows s.input
  comments : p.comments = s.comments
  endReported : p.endReported = s.endReported
  log : p.log = s.log

/-- The parser is at the start of its source, however deeply it is nested. -/
theorem shows_ofSource (source : String) (depth : Nat) :
    { ofSource source with depth }.Shows (.start (.ofSource source)) :=
  ⟨LookaheadWindow.shows_ofSource source, rfl, rfl, rfl⟩

theorem Shows.current_eq {p : WindowParser} {s : State} (h : p.Shows s) : p.current = s.current :=
  congrArg Lexeme.token (h.window.slots 0 (by decide))

/-- **A step in place comes to what a step comes to**: the node has the trees added behind its
children, the parser is in the state behind the step, and it is nested as before. -/
structure Follows (p : WindowParser) (node : OpenNode) (result : OpenNode × WindowParser)
    (out : Outcome) : Prop where
  node : result.1 = node.append out.forest
  depth : result.2.depth = p.depth
  state : result.2.Shows out.state

namespace Follows

variable {p : WindowParser} {s : State} {node : OpenNode}

theorem stay (h : p.Shows s) : Follows p node (node, p) s.stay where
  node := by
    rw [OpenNode.append, State.stay, List.append_nil]
  depth := rfl
  state := h

theorem bump (h : p.Shows s) : Follows p node (p.bump node) s.take := by
  have hlexeme : p.window.advance.1 = s.input.current :=
    p.window.advance_fst.trans (h.window.slots 0 (by decide))
  rw [WindowParser.bump]
  dsimp only
  rw [hlexeme, h.comments]
  exact ⟨rfl, rfl, h.window.advance, rfl, h.endReported, h.log⟩

theorem reportEnd (h : p.Shows s) : Follows p node (p.reportEnd node) s.reportEnd := by
  rw [WindowParser.reportEnd, State.reportEnd, h.endReported]
  split
  · exact stay h
  · exact ⟨rfl, rfl, h.window, h.comments, rfl, h.log⟩

theorem andThen {result result' : OpenNode × WindowParser} {out : Outcome} {step : Parse}
    (h : Follows p node result out) (h' : Follows result.2 result.1 result' (step out.state)) :
    Follows p node result' (out.andThen step) where
  node := by
    rw [h'.node, h.node, OpenNode.append, OpenNode.append, List.append_assoc]
    rfl
  depth := h'.depth.trans h.depth
  state := h'.state

/-- **Taking tokens one by one takes the longest run of them.** -/
theorem bumpUntil (hs : s.input.Lawful) (h : p.Shows s) (sync : Token → Bool) :
    Follows p node (p.bumpUntil sync node) (s.takeWhile fun token => !sync token) := by
  rw [State.takeWhile]
  generalize hpending : s.input.pending = pending
  induction pending generalizing p s node with
  | nil =>
    have hstop : p.current.isEof = true := by
      rw [h.current_eq, State.current, TokenStream.current_nil hpending, hs.last]
    rw [WindowParser.bumpUntil, hstop]
    exact stay h
  | cons l rest ih =>
    have hcurrent : p.current = l.token := by
      rw [h.current_eq, State.current, TokenStream.current_cons hpending]
    rw [WindowParser.bumpUntil, State.takeWhile.go, hcurrent,
      hs.pending l (hpending ▸ List.mem_cons_self), Bool.false_or]
    cases sync l.token with
    | true => exact stay h
    | false =>
      have hbump : Follows p node (p.bump node) s.take := bump h
      exact hbump.andThen (ih hs.advance hbump.state (State.pending_take hpending))

end Follows

/-- **Skipping in place is skipping.** -/
theorem follows_skipUntil {p : WindowParser} {s : State} (hs : s.input.Lawful) (h : p.Shows s)
    (sync : Token → Bool) (parent : OpenNode) :
    (p.skipUntil sync parent).1 = (s.skipUntil sync).1
      ∧ Follows p parent (p.skipUntil sync parent).2 (s.skipUntil sync).2 := by
  rw [skipUntil, State.skipUntil, h.current_eq, State.atEof]
  split_ifs with hsync hend
  · exact ⟨rfl, .stay h⟩
  · exact ⟨rfl, .reportEnd h⟩
  · have hloop : Follows p ⟨.skipped, []⟩ (p.bumpUntil sync ⟨.skipped, []⟩)
        (s.takeWhile fun token => !sync token) := .bumpUntil hs h sync
    generalize p.bumpUntil sync ⟨.skipped, []⟩ = result at hloop ⊢
    generalize (s.takeWhile fun token => !sync token) = out at hloop ⊢
    obtain ⟨skipped, p'⟩ := result
    obtain ⟨hnode, hdepth, hstate⟩ := hloop
    dsimp only at hnode hdepth hstate ⊢
    rw [hnode, hstate.current_eq, hstate.log]
    exact ⟨rfl, rfl, hdepth, hstate.window, hstate.comments, hstate.endReported, rfl⟩

end WindowParser

/-- **Skipping stops where parsing can go on.** Let the parser be in any state, and let the
tokens at which it can go on be told by any test. It stops behind the longest run of tokens
that are not the end of the input and fail the test, with their comments filed, and says
whether the test holds there. If it held at once, nothing is added. If the input had ended,
its end is reported, and nothing is added if that has been reported before. Otherwise one
node is added, with the tokens that were passed over, in order and at least one. A parser
that works in place on a window, at any depth of nesting and with any node to add to, does
the same: it keeps its depth and the children of the node, and has what is added behind
them. -/
theorem skipUntil_resynchronizes (s : State) (hs : s.input.Lawful) (sync : Token → Bool) :
    let found := (s.skipUntil sync).1
    let out := (s.skipUntil sync).2
    let taken := s.input.lexemes.takeWhile fun l => !l.token.isEof && !sync l.token
    (found = true ↔ sync out.state.current = true)
    ∧ s.input.lexemes = taken ++ out.state.input.lexemes
    ∧ out.state.comments = taken.foldl (fun m l => m.insert l.token l.comments) s.comments
    ∧ out.state.endReported = (s.endReported || (s.atEof && !sync s.current))
    ∧ (if sync s.current then taken = [] ∧ out.forest = []
      else if s.atEof then
        taken = [] ∧ out.forest = if s.endReported then [] else [.error .unexpectedEof]
      else taken ≠ [] ∧ out.forest = [.node .skipped (taken.map fun l => .token l.token)])
    ∧ ∀ (p : WindowParser) (parent : OpenNode), p.Shows s →
      ∃ p', p.skipUntil sync parent
          = (found, ⟨parent.kind, parent.children ++ out.forest⟩, p')
        ∧ p'.depth = p.depth ∧ p'.Shows out.state := by
  intro found out taken
  have hskips : Skips sync s taken (s.skipUntil sync) := by
    rw [show taken = _ from hs.takeWhile_lexemes sync]
    exact State.skips_skipUntil hs sync
  refine ⟨?_, hskips.lexemes, hskips.comments, hskips.endReported, hskips.added, ?_⟩
  · rw [show found = _ from hskips.found]
  · intro p parent hp
    obtain ⟨hfound, hnode, hdepth, hstate⟩ := WindowParser.follows_skipUntil hs hp sync parent
    exact ⟨_, Prod.ext hfound (Prod.ext hnode rfl), hdepth, hstate⟩

/-- Three tokens are passed over before a semicolon, in place and at depth 7, by a parser
that has a keyword in its node already. -/
theorem skipUntil_resynchronizes_semicolon :
    let s := State.start (TokenStream.ofSource "a b c; d")
    let sync := fun token : Token => token.kind == .semicolon
    let p := { WindowParser.ofSource "a b c; d" with depth := 7 }
    let before := Tree.token ⟨.keyword .SELECT, "SELECT", ⟨0, 6⟩⟩
    let skipped := Tree.node .skipped
      [.token ⟨.identifier, "a", ⟨0, 1⟩⟩, .token ⟨.identifier, "b", ⟨2, 3⟩⟩,
        .token ⟨.identifier, "c", ⟨4, 5⟩⟩]
    s.input.Lawful ∧ p.Shows s
    ∧ sync (s.skipUntil sync).2.state.current = true
    ∧ ∃ p', p.skipUntil sync ⟨.select, [before]⟩ = (true, ⟨.select, [before, skipped]⟩, p')
      ∧ p'.depth = 7 := by
  intro s sync p before skipped
  have hs : s.input.Lawful := TokenStream.lawful_ofSource _
  have hp : p.Shows s := WindowParser.shows_ofSource "a b c; d" 7
  have hfound : (s.skipUntil sync).1 = true := by decide +kernel
  have hforest : (s.skipUntil sync).2.forest = [skipped] := by decide +kernel
  obtain ⟨hflag, -, -, -, -, hplace⟩ := skipUntil_resynchronizes s hs sync
  obtain ⟨p', hskip, hdepth, -⟩ := hplace p ⟨.select, [before]⟩ hp
  refine ⟨hs, hp, hflag.1 hfound, p', ?_, hdepth⟩
  rw [hskip, hfound, hforest]
  rfl

end TolerantSql
