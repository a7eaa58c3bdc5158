import TolerantSql.Token.Basic
import TolerantSql.Tree.Kind

/-!
# Parse trees

A tree has nodes with a kind and children in order, and three sorts of leaves:
a token of the source, an error that says what is wrong at its place, and a
placeholder, which stands for any token in a tree one expects to find. The
parser makes no placeholders.

Everything one reads off a tree is read off its leaves from left to right
(`Tree.leaves`): its errors, its tokens, the span they cover, and source text
with the same tokens (`Tree.toSource`). `Tree.admits` compares an expected tree
with an actual one by kinds and texts alone, wherever the tokens stand.

Functions on trees come in pairs, one for a tree and one for the trees side by
side in a forest, and recurse on the structure.
-/

namespace TolerantSql

/-- **The shape of a syntax error.** -/
inductive Diagnostic where
  /-- One expected thing is absent; parsing went on as if it were there. -/
  | missing
  /-- The current token fits none of several alternatives. -/
  | expecting
  /-- The input ended too early. -/
  | unexpectedEof
  deriving DecidableEq

namespace Diagnostic

/-- The kind of an error leaf of this shape. -/
def kind : Diagnostic → NodeKind
  | missing => .errorMissing
  | expecting => .errorExpecting
  | unexpectedEof => .errorUnexpectedEof

/-- The name under which a shape is stored. -/
def tag : Diagnostic → String
  | missing => "Missing"
  | expecting => "Expecting"
  | unexpectedEof => "UnexpectedEof"

end Diagnostic

/-- **A syntax error**, as it stands in a tree. -/
structure SyntaxError where
  diagnostic : Diagnostic
  message : String
  deriving DecidableEq

namespace SyntaxError

/-- Something is absent. -/
def missing (message : String) : SyntaxError := ⟨.missing, message⟩

/-- Something else was expected. -/
def expecting (message : String) : SyntaxError := ⟨.expecting, message⟩

/-- The input ended too early. -/
def unexpectedEof : SyntaxError := ⟨.unexpectedEof, "unexpected EOF"⟩

def kind (e : SyntaxError) : NodeKind := e.diagnostic.kind

end SyntaxError

/-- **What stands at the end of a branch.** -/
inductive Leaf where
  | token (token : Token)
  /-- Stands for any token. -/
  | placeholder
  | error (error : SyntaxError)
  deriving DecidableEq

namespace Leaf

def kind : Leaf → NodeKind
  | token _ | placeholder => .token
  | error e => e.kind

/-- The token of a token leaf. -/
def token? : Leaf → Option Token
  | token t => some t
  | _ => none

/-- The error of an error leaf. -/
def error? : Leaf → Option SyntaxError
  | error e => some e
  | _ => none

/-- Whether a leaf is as expected: tokens agree when their kinds and texts do,
and a placeholder agrees with every leaf that is not an error. -/
def admits : (expected actual : Leaf) → Bool
  | token e, token a => e.kind == a.kind && e.text == a.text
  | placeholder, token _ | placeholder, placeholder => true
  | error e, error a => e == a
  | _, _ => false

/-- Changes the token of a token leaf. -/
def mapToken (f : Token → Token) : Leaf → Leaf
  | token t => token (f t)
  | leaf => leaf

end Leaf

/-- **A parse tree.** -/
inductive Tree where
  | node (kind : NodeKind) (children : List Tree)
  | leaf (leaf : Leaf)

/-- Trees side by side, such as the children of a node. -/
abbrev Forest := List Tree

/-- **Induction over trees**: a property holds of every tree if it holds of the
leaves and passes from the children of a node to the node. -/
theorem Tree.induct {P : Tree → Prop}
    (node : ∀ kind children, (∀ child ∈ children, P child) → P (.node kind children))
    (leaf : ∀ l, P (.leaf l)) (t : Tree) : P t :=
  @Tree.rec P (fun children => ∀ child ∈ children, P child) node leaf
    (fun _ h => absurd h List.not_mem_nil)
    (fun _ _ head tail _ h => by
      rcases List.mem_cons.1 h with rfl | h
      · exact head
      · exact tail _ h)
    t

/-! ## Equality -/

mutual

/-- Trees are compared node by node. -/
def Tree.decEq : (s t : Tree) → Decidable (s = t)
  | .node k cs, .node k' cs' =>
    if hk : k = k' then
      match Forest.decEq cs cs' with
      | .isTrue hc => .isTrue (by rw [hk, hc])
      | .isFalse hc => .isFalse (fun h => hc (by injection h))
    else .isFalse (fun h => hk (by injection h))
  | .leaf a, .leaf b =>
    if h : a = b then .isTrue (by rw [h]) else .isFalse (fun h' => h (by injection h'))
  | .node .., .leaf _ | .leaf _, .node .. => .isFalse (fun h => by injection h)

/-- Forests are compared tree by tree. -/
def Forest.decEq : (cs cs' : List Tree) → Decidable (cs = cs')
  | [], [] => .isTrue rfl
  | [], _ :: _ | _ :: _, [] => .isFalse (fun h => by injection h)
  | c :: cs, c' :: cs' =>
    match Tree.decEq c c' with
    | .isFalse h => .isFalse (fun h' => h (by injection h'))
    | .isTrue hc =>
      match Forest.decEq cs cs' with
      | .isFalse h => .isFalse (fun h' => h (by injection h'))
      | .isTrue hcs => .isTrue (by rw [hc, hcs])

end

instance : DecidableEq Tree := Tree.decEq

/-! ## Leaves -/

mutual

/-- **The leaves of a tree** from left to right. -/
def Tree.leaves : Tree → List Leaf
  | .node _ children => Forest.leaves children
  | .leaf l => [l]

/-- The leaves of trees side by side. -/
def Forest.leaves : List Tree → List Leaf
  | [] => []
  | t :: rest => t.leaves ++ Forest.leaves rest

end

namespace Forest

@[simp] theorem leaves_nil : leaves [] = [] := rfl

@[simp] theorem leaves_cons (t : Tree) (f : Forest) : leaves (t :: f) = t.leaves ++ leaves f := rfl

/-- Leaves are gathered tree by tree. -/
@[simp] theorem leaves_append (f g : Forest) : leaves (f ++ g) = leaves f ++ leaves g := by
  induction f with
  | nil => rfl
  | cons t f ih => rw [List.cons_append, leaves_cons, leaves_cons, ih, List.append_assoc]

/-- The tokens of trees side by side. -/
def terminals (f : Forest) : List Token := (leaves f).filterMap Leaf.token?

/-- The errors of trees side by side. -/
def errors (f : Forest) : List SyntaxError := (leaves f).filterMap Leaf.error?

end Forest

namespace Tree

/-- A token of the source. -/
@[match_pattern] abbrev token (t : Token) : Tree := .leaf (.token t)

/-- A leaf that stands for any token. -/
@[match_pattern] abbrev placeholder : Tree := .leaf .placeholder

/-- A syntax error. -/
@[match_pattern] abbrev error (e : SyntaxError) : Tree := .leaf (.error e)

/-- The kind of the root. -/
def kind : Tree → NodeKind
  | node kind _ => kind
  | leaf l => l.kind

/-- **The error leaves** from left to right. -/
def errors (t : Tree) : List SyntaxError := t.leaves.filterMap Leaf.error?

/-- Whether there is an error leaf anywhere. -/
def hasErrors (t : Tree) : Bool := !t.errors.isEmpty

/-- **The tokens** from left to right; placeholders hold none. -/
def terminals (t : Tree) : List Token := t.leaves.filterMap Leaf.token?

/-- The span that the tokens cover, the end of the input aside. -/
def span? (t : Tree) : Option Span :=
  Span.mergeAll ((t.terminals.filter fun t => !t.isEof).map Token.span)

/-! ## Source text -/

/-- Writes tokens behind a token of kind `previous`, with one space where two
neighbours have to be kept apart. The end of the input is not written. -/
def sourceAfter (previous : Option TokenKind) : List Token → String
  | [] => ""
  | t :: rest =>
    match t.lexeme? with
    | none => sourceAfter previous rest
    | some text =>
      (if previous.any (·.needsSpace t.kind) then " " else "") ++ text
        ++ sourceAfter (some t.kind) rest

/-- **Source text with the tokens of the tree**, spaced only where it has to
be. -/
def toSource (t : Tree) : String := sourceAfter none t.terminals

end Tree

/-! ## Comparing with an expected tree -/

mutual

/-- **Whether a tree is as expected**: the same nodes, and leaves that agree
wherever their tokens stand. -/
def Tree.admits : (expected actual : Tree) → Bool
  | .node k es, .node k' as => k == k' && Forest.admits es as
  | .leaf e, .leaf a => e.admits a
  | _, _ => false

/-- Forests agree when they are equally long and agree tree by tree. -/
def Forest.admits : (expected actual : List Tree) → Bool
  | [], [] => true
  | e :: es, a :: as => e.admits a && Forest.admits es as
  | _, _ => false

end

/-! ## Changing tokens -/

mutual

/-- Changes every token. -/
def Tree.mapTokens (f : Token → Token) : Tree → Tree
  | .node kind children => .node kind (Forest.mapTokens f children)
  | .leaf l => .leaf (l.mapToken f)

/-- Changes every token of trees side by side. -/
def Forest.mapTokens (f : Token → Token) : List Tree → List Tree
  | [] => []
  | t :: rest => t.mapTokens f :: Forest.mapTokens f rest

end

namespace Tree

/-- The tree with the places of its tokens forgotten. -/
def eraseSpans : Tree → Tree := mapTokens fun t => { t with span := .empty 0 }

end Tree

end TolerantSql
