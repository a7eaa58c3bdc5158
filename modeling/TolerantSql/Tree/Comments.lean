import TolerantSql.Token.Basic

/-!
# The comments of a statement

Comments stand beside the tree, filed under the start offset of the token they
come before. Offsets are kept in increasing order and each has at least one
comment.
-/

namespace TolerantSql

/-- **Comments filed by the token they precede**, in the order of the source. -/
structure CommentMap where
  /-- Start offset of a token with the comments before it, by increasing
  offset. -/
  entries : List (Nat × List Token)
  deriving DecidableEq

namespace CommentMap

/-- No comments. -/
def empty : CommentMap := ⟨[]⟩

/-- Files comments under an offset, behind those already there. -/
def insertEntry (offset : Nat) (comments : List Token) :
    List (Nat × List Token) → List (Nat × List Token)
  | [] => [(offset, comments)]
  | (key, found) :: rest =>
    if offset < key then (offset, comments) :: (key, found) :: rest
    else if offset = key then (key, found ++ comments) :: rest
    else (key, found) :: insertEntry offset comments rest

/-- **Files the comments before a token.** A token without comments gets no
entry. -/
def insert (m : CommentMap) (owner : Token) (comments : List Token) : CommentMap :=
  if comments.isEmpty then m else ⟨insertEntry owner.span.start comments m.entries⟩

/-- The comments directly before a token. -/
def before (m : CommentMap) (owner : Token) : List Token :=
  (m.entries.lookup owner.span.start).getD []

/-- Number of tokens with comments. -/
def size (m : CommentMap) : Nat := m.entries.length

def isEmpty (m : CommentMap) : Bool := m.entries.isEmpty

/-- Every comment, in the order of the source. -/
def all (m : CommentMap) : List Token := m.entries.flatMap Prod.snd

/-- The comments and their owners, `offset` bytes further on. -/
def shift (offset : Nat) (m : CommentMap) : CommentMap :=
  ⟨m.entries.map fun e => (e.1 + offset, e.2.map (Token.shift offset))⟩

end CommentMap

end TolerantSql
