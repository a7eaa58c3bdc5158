import TolerantSql.Tree.Basic

/-!
# Trees on one line

The compact notation `Kind{ child child }`, in which a name node that holds
just its token is shortened to `Kind(text)`. Error leaves show their message in
quotes, except that an early end of the input has none to show.
-/

namespace TolerantSql

/-- An error in the compact notation. -/
def SyntaxError.render (e : SyntaxError) : String :=
  match e.diagnostic with
  | .unexpectedEof => e.kind.name
  | _ => e.kind.name ++ "(" ++ Quoted.string e.message ++ ")"

namespace Leaf

/-- What a token leaf shows of itself: its text, or an underscore for a
placeholder. -/
def label? : Leaf → Option String
  | token t => some t.render
  | placeholder => some "_"
  | error _ => none

/-- A leaf in the compact notation. -/
def render : Leaf → String
  | token t => "Token(" ++ t.render ++ ")"
  | placeholder => "Token(_)"
  | error e => e.render

end Leaf

/-- The text of a name node that holds a single token leaf. -/
def NodeKind.shortName? (kind : NodeKind) : Forest → Option String
  | [.leaf l] => if kind.isName then l.label? else none
  | _ => none

mutual

/-- **A tree in the compact notation.** -/
def Tree.render : Tree → String
  | .node kind children =>
    match kind.shortName? children with
    | some name => kind.name ++ "(" ++ name ++ ")"
    | none => kind.name ++ "\x7b" ++ Forest.render children ++ " \x7d"
  | .leaf l => l.render

/-- Trees side by side, with a space before each. -/
def Forest.render : List Tree → String
  | [] => ""
  | t :: rest => " " ++ t.render ++ Forest.render rest

end

end TolerantSql
