import TolerantSql.Grammar.TokenClass
import TolerantSql.Log
import TolerantSql.Token.Stream
import TolerantSql.Tree.Basic
import TolerantSql.Tree.Comments

/-!
# The state of a parse

While a statement is parsed, the state holds the lexemes to come, the comments
of the lexemes taken so far, whether the early end of the input has been
reported, and the log. A step of a parse takes a state to an `Outcome`: the
trees it adds to the node being built, in order, and the state behind it.

The steps of this file are all that grammar rules are made of. Each takes
lexemes from the front of the stream only, and every token taken is put into
the trees it adds.

## The lookahead

Rules decide by a `Lookahead`: the kinds of three tokens and the word the first
of them spells. The tokens are those that come next, whatever they are, so a rule
could look past the end of its statement. That no rule of the grammar is decided by
what it would see there is a property of each of its tests, and is proved of them
(`Rule.Confined`).
-/

namespace TolerantSql

/-- **What a rule can see of the input.** -/
structure Lookahead where
  current : TokenKind
  next : TokenKind
  afterNext : TokenKind
  /-- The current token in capitals. -/
  word : String
  deriving DecidableEq

namespace Lookahead

/-- Whether the current token is of the given kind. -/
def is (kind : TokenKind) (v : Lookahead) : Bool := v.current == kind

def isKeyword (word : Keyword) (v : Lookahead) : Bool := v.current == .keyword word

/-- Whether the current token is one of the given keywords. -/
def isKeywordIn (words : List Keyword) (v : Lookahead) : Bool := v.current.isKeywordIn words

/-- Whether the current token can be a name. -/
def isName (v : Lookahead) : Bool := v.current.isName

/-- Whether the current token is an identifier that reads as `word`, which is
given in capitals. -/
def isWord (word : String) (v : Lookahead) : Bool := v.current == .identifier && v.word == word

/-- Whether the next token is of the given kind. -/
def nextIs (kind : TokenKind) (v : Lookahead) : Bool := v.next == kind

def nextIsKeyword (word : Keyword) (v : Lookahead) : Bool := v.next == .keyword word

/-- Whether the next token is one of the given keywords. -/
def nextIsKeywordIn (words : List Keyword) (v : Lookahead) : Bool := v.next.isKeywordIn words

/-- Whether two given keywords stand next to each other here. -/
def isPair (first second : Keyword) (v : Lookahead) : Bool :=
  v.isKeyword first && v.nextIsKeyword second

end Lookahead

/-- **The state of a parse.** -/
structure State where
  /-- The lexemes to come. -/
  input : TokenStream
  /-- The comments before the tokens taken so far. -/
  comments : CommentMap
  /-- Whether the early end of the input has been reported. It is reported at
  most once for a statement. -/
  endReported : Bool
  /-- What has been logged, most recent first. -/
  log : List Event
  deriving DecidableEq

/-- **What a step of a parse comes to.** -/
structure Outcome where
  /-- The trees added, in order. -/
  forest : Forest
  /-- The state behind the step. -/
  state : State

/-- A step of a parse. -/
abbrev Parse := State → Outcome

namespace Outcome

/-- Goes on with another step and keeps the trees of both. -/
def andThen (out : Outcome) (step : Parse) : Outcome :=
  let after := step out.state
  ⟨out.forest ++ after.forest, after.state⟩

/-- Gathers the trees added into one node. -/
def wrap (kind : NodeKind) (out : Outcome) : Outcome := ⟨[.node kind out.forest], out.state⟩

end Outcome

namespace State

/-- The state at the start of a statement. -/
def start (input : TokenStream) : State := ⟨input, .empty, false, []⟩

/-- The current token. -/
def current (s : State) : Token := s.input.current.token

def atEof (s : State) : Bool := s.current.isEof

/-- Whether the current token ends the statement. -/
def atEnd (s : State) : Bool := s.current.kind.endsStatement

/-- The offset of the current token. -/
def offset (s : State) : Nat := s.current.span.start

/-- Number of tokens to come before the end of the input. -/
def remaining (s : State) : Nat := s.input.pending.length

/-- **What rules see**: the three tokens that come next. -/
def lookahead (s : State) : Lookahead where
  current := s.current.kind
  next := (s.input.peek 1).token.kind
  afterNext := (s.input.peek 2).token.kind
  word := s.current.text.toUpper

/-- Logs an event. -/
def logging (s : State) (event : Event) : State := { s with log := event :: s.log }

/-! ## Taking tokens -/

/-- The state behind the current token, with the token's comments filed. -/
def advance (s : State) : State :=
  { s with
    input := s.input.advance
    comments := s.comments.insert s.current s.input.current.comments }

/-- Takes the current token, whatever it is. -/
def take : Parse := fun s => ⟨[.token s.current], s.advance⟩

/-- Does nothing. -/
def stay : Parse := fun s => ⟨[], s⟩

/-- **Takes the current token into the tree.** The token that ends the
statement and malformed tokens are not taken this way: the one is left for the
end of the statement, the others for recovery. No rule of the grammar comes to
ask for either (`State.unfoldsStatement_iff`). -/
def shift : Parse := fun s =>
  if s.atEnd || s.current.kind.isError then stay s else take s

/-- Takes tokens while `p` holds of them, up to the end of the input. -/
def takeWhile (p : Token → Bool) : Parse := fun s => go s.input.pending s
where
  /-- `pending` is what the state's input has to come. -/
  go : List Lexeme → Parse
    | [], s => stay s
    | lexeme :: pending, s =>
      if p lexeme.token then (take s).andThen (go pending) else stay s

/-! ## Reporting errors -/

/-- Adds an error leaf. -/
def add (e : SyntaxError) : Parse := fun s => ⟨[.error e], s⟩

/-- Reports that the input ended too early, unless that has been reported
already. -/
def reportEnd : Parse := fun s =>
  if s.endReported then stay s else add .unexpectedEof { s with endReported := true }

/-- **Reports that something is absent**, or that the input has ended. The
report goes to the log when it is `announced`. -/
def missing (announced : Bool) (what : String) : Parse := fun s =>
  if s.atEof then reportEnd s
  else add (.missing ("missing " ++ what))
    (if announced then s.logging (.missing s.offset what) else s)

/-- **Reports that the current token does not fit**, or that the input has
ended. The report goes to the log. -/
def expecting (message : String) : Parse := fun s =>
  if s.atEof then reportEnd s
  else add (.expecting message) (s.logging (.unexpectedToken s.offset message))

/-! ## Recovery -/

/-- **Skips to a token at which `sync` holds.** Nothing happens if it holds
already; at the end of the input the early end is reported; otherwise the
tokens passed over are gathered in a node. The flag says whether `sync` holds
afterwards. -/
def skipUntil (sync : Token → Bool) (s : State) : Bool × Outcome :=
  if sync s.current then (true, stay s)
  else if s.atEof then (false, reportEnd s)
  else
    let out := takeWhile (fun token => !sync token) s
    let after := out.state.logging (.skippedTokens out.forest.length out.state.offset)
    (sync after.current, Outcome.wrap .skipped ⟨out.forest, after⟩)

/-- Reports that the current token does not fit. A report that is not `announced` is
added as it stands, without a look at the end of the input. -/
def report (announced : Bool) (message : String) : Parse :=
  if announced then expecting message else add (.expecting message)

/-- **Reports that the current token does not fit and skips** to one at which
`sync` holds. -/
def recover (announced : Bool) (message : String) (sync : StopSet) : Parse := fun s =>
  (report announced message s).andThen fun s => (s.skipUntil fun token => sync token.kind).2

/-- Takes tokens up to the closing of the innermost parenthesis that was open
before, a comma outside any parenthesis opened since, or the end of the
statement. -/
def takeBalanced : Parse := fun s => go 0 s.input.pending s
where
  /-- `depth` parentheses have been opened and not closed; `pending` is what
  the state's input has to come. -/
  go : (depth : Nat) → List Lexeme → Parse
    | _, [], s => stay s
    | depth, lexeme :: pending, s =>
      match lexeme.token.kind with
      | .semicolon => stay s
      | .comma => if depth = 0 then stay s else (take s).andThen (go depth pending)
      | .rightParen => if depth = 0 then stay s else (take s).andThen (go (depth - 1) pending)
      | .leftParen => (take s).andThen (go (depth + 1) pending)
      | _ => (take s).andThen (go depth pending)

/-- **Gives up on an expression that is nested too deeply** and skips what is
left of it. -/
def cutOff : Parse := fun s =>
  (expecting "expression nested too deeply" s).andThen fun s =>
    let out := takeBalanced s
    let after := out.state.logging (.skippedNested out.forest.length out.state.offset)
    if out.forest.isEmpty then stay after else Outcome.wrap .skipped ⟨out.forest, after⟩

/-! ## Repetition -/

/-- **Repeats a step while `continues` holds.** The repetition also ends with a
step that takes no token, since it would go on forever. -/
def repeatWhile (continues : Lookahead → Bool) (body : Parse) (s : State) : Outcome :=
  if continues s.lookahead then
    let out := body s
    if _h : out.state.remaining < s.remaining then
      let more := repeatWhile continues body out.state
      ⟨out.forest ++ more.forest, more.state⟩
    else out
  else stay s
termination_by s.remaining

/-- Where a list separated by commas stands: before an item or behind one. -/
inductive ListPhase where
  | item
  | separator
  deriving DecidableEq

/-- How items of a list are recognised and parsed. -/
structure ListShape where
  /-- What an item is called in reports. -/
  label : String
  /-- Tokens that can start an item. -/
  startsItem : TokenKind → Bool
  /-- Tokens that end the list. -/
  follows : FollowSet

namespace ListShape

/-- Where a list goes on behind tokens that do not fit: at an item, at a comma, or at
a token that ends it. -/
def resumes (shape : ListShape) : StopSet where
  holds kind := shape.startsItem kind || shape.follows kind || kind == .comma
  semicolon := by simp [shape.follows.semicolon]

end ListShape

/-- **Passes over tokens that do not fit into a list.** The list goes on in the phase
it is in, if a token is found at which it can. -/
def listSkip (shape : ListShape) (phase : ListPhase) (message : String) (s : State) :
    Outcome × Option ListPhase :=
  let out := recover false message shape.resumes s
  (out, if shape.resumes out.state.current.kind then some phase else none)

/-- One round of a list: what it comes to, and the phase in which the list goes
on if it does. -/
def listRound (shape : ListShape) (item : Parse) (phase : ListPhase) (s : State) :
    Outcome × Option ListPhase :=
  let kind := s.current.kind
  let ends := s.atEof || shape.follows kind
  match phase with
  | .item =>
    if kind == .comma then ((missing true shape.label s).andThen take, some .item)
    else if shape.startsItem kind then (item s, some .separator)
    else if ends then (missing true shape.label s, none)
    else listSkip shape .item ("expecting " ++ shape.label) s
  | .separator =>
    if kind == .comma then (take s, some .item)
    else if ends then (stay s, none)
    else if shape.startsItem kind then (add (.missing "missing comma") s, some .item)
    else listSkip shape .separator "expecting comma" s

/-- What a list has before it in a phase: every round but one takes a token,
and the one that reports a missing comma leads from the separator phase to the
item phase. -/
def listWeight (phase : ListPhase) (s : State) : Nat :=
  2 * s.remaining + (match phase with | .item => 0 | .separator => 1)

/-- The rounds of a list from a phase on. -/
def listRounds (shape : ListShape) (item : Parse) (phase : ListPhase) (s : State) : Outcome :=
  match listRound shape item phase s with
  | (out, none) => out
  | (out, some phase') =>
    if _h : listWeight phase' out.state < listWeight phase s then
      let more := listRounds shape item phase' out.state
      ⟨out.forest ++ more.forest, more.state⟩
    else out
termination_by listWeight phase s

/-- **Parses `item, item, …`.** A comma where an item should be reports the
item as missing, two items in a row a missing comma, and other tokens are
skipped up to the next item, comma or token that follows the list. -/
def commaList (shape : ListShape) (item : Parse) : Parse := listRounds shape item .item

end State

end TolerantSql
