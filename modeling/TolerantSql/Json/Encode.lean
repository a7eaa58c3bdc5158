import TolerantSql.Json.Basic
import TolerantSql.Statement

/-!
# Tokens, trees and statements as JSON

How each type of the library is stored. A choice without further data is stored
as its tag, a choice with data as an object with the tag as its only key, and a
record as an object with a member for each field.
-/

namespace TolerantSql

namespace Json

/-- A choice with data. -/
def tagged (tag : String) (data : Json) : Json := object [(tag, data)]

end Json

open Json (tagged)

/-- How the cause of a malformed token is stored. -/
def LexError.toJson : LexError → Json
  | unexpectedEnd inside => tagged "UnexpectedEof" (.string inside)
  | unexpectedCharacter c => tagged "UnexpectedCharacter" (.string c.toString)
  | invalidBlob => .string "InvalidBlob"
  | invalidVariable sigil => tagged "InvalidVariable" (.string sigil.toString)

namespace TokenKind

/-- The tag of a kind. -/
def tag : TokenKind → String
  | keyword _ => "Keyword"
  | identifier => "Identifier"
  | string => "String"
  | blob => "Blob"
  | numeric => "Numeric"
  | lineComment => "SqlComment"
  | blockComment => "CComment"
  | questionVariable => "QuestionVariable"
  | colonVariable => "ColonVariable"
  | atVariable => "AtVariable"
  | dollarVariable => "DollarVariable"
  | minus => "Minus"
  | leftParen => "LeftParen"
  | rightParen => "RightParen"
  | semicolon => "Semicolon"
  | plus => "Plus"
  | star => "Star"
  | slash => "Slash"
  | percent => "Percent"
  | eq => "Eq"
  | eqEq => "EqEq"
  | ltEq => "LtEq"
  | ltGt => "LtGt"
  | leftShift => "LeftShift"
  | lt => "Lt"
  | gtEq => "GtEq"
  | rightShift => "RightShift"
  | gt => "Gt"
  | notEq => "NotEq"
  | comma => "Comma"
  | bitAnd => "BitAnd"
  | bitNot => "BitNot"
  | bitOr => "BitOr"
  | concat => "Concat"
  | dot => "Dot"
  | arrow => "Arrow"
  | doubleArrow => "DoubleArrow"
  | whitespace => "Whitespace"
  | error _ => "Error"
  | eof => "Eof"
  | extension _ => "Extension"

/-- The kinds without further data. -/
def plain : List TokenKind :=
  [identifier, string, blob, numeric, lineComment, blockComment, questionVariable, colonVariable,
    atVariable, dollarVariable, minus, leftParen, rightParen, semicolon, plus, star, slash,
    percent, eq, eqEq, ltEq, ltGt, leftShift, lt, gtEq, rightShift, gt, notEq, comma, bitAnd,
    bitNot, bitOr, concat, dot, arrow, doubleArrow, whitespace, eof]

/-- How a token kind is stored. -/
def toJson (kind : TokenKind) : Json :=
  match kind with
  | keyword word => tagged kind.tag (.string word.spelling)
  | error cause => tagged kind.tag cause.toJson
  | extension e =>
    tagged kind.tag (.object [("namespace", .string e.owner), ("code", .number e.code)])
  | _ => .string kind.tag

end TokenKind

/-- How a span is stored. -/
def Span.toJson (s : Span) : Json := .object [("start", .number s.start), ("end", .number s.stop)]

/-- How a token is stored. -/
def Token.toJson (t : Token) : Json :=
  .object [("kind", t.kind.toJson), ("text", .string t.text), ("span", t.span.toJson)]

/-- How a syntax error is stored. -/
def SyntaxError.toJson (e : SyntaxError) : Json :=
  .object [("diagnostic", .string e.diagnostic.tag), ("message", .string e.message)]

/-- A node, given how its children are stored. -/
def nodeToJson (kind : NodeKind) (children : List Json) : Json :=
  .object [("kind", .string kind.tag), ("children", .array children)]

/-- How a leaf is stored. -/
def Leaf.toJson : Leaf → Json
  | token t => tagged "Terminal" (.object [("token", t.toJson)])
  | placeholder => tagged "Terminal" (.object [("token", .null)])
  | error e => tagged "Error" e.toJson

mutual

/-- **How a tree is stored.** -/
def Tree.toJson : Tree → Json
  | .node kind children => tagged "NonTerminal" (nodeToJson kind (Forest.toJson children))
  | .leaf l => l.toJson

/-- How trees side by side are stored. -/
def Forest.toJson : List Tree → List Json
  | [] => []
  | t :: rest => t.toJson :: Forest.toJson rest

end

/-- How the comments of a statement are stored: by offset, in order. -/
def CommentMap.toJson (m : CommentMap) : Json :=
  .object [("entries", .object (m.entries.map fun entry =>
    (toString entry.1, .array (entry.2.map Token.toJson))))]

/-- **How a statement is stored.** The root is known to be a node, so it goes
without a tag. -/
def Statement.toJson (s : Statement) : Json :=
  .object [
    ("tree", nodeToJson .sqlStatement (Forest.toJson s.children)),
    ("comments", s.comments.toJson)]

end TolerantSql
