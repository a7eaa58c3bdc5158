import Mathlib.Data.List.Chain
import TolerantSql.Proofs.CommentConservation
import TolerantSql.Proofs.Relexing

/-!
# Queries for a wrapped number

Parentheses and prefix operators can be put around a number in any order and as often
as one likes. `wrappedQuery` writes the query for such a number and a plain one behind
it, and `readsAs_wrappedQuery` says what tokens the query is read as. The text is taken
apart from the front: every token but the number and what closes it has a space behind
it, and the number ends at the first parenthesis or at the comma.
-/

namespace TolerantSql

/-- **What can be put around a number**: a parenthesis or a prefix operator. -/
inductive Wrapper where
  | paren
  | plus
  | minus
  | tilde
  | not
  deriving DecidableEq

namespace Wrapper

/-- The token that a wrapper begins with. -/
def kind : Wrapper → TokenKind
  | paren => .leftParen
  | plus => .plus
  | minus => .minus
  | tilde => .bitNot
  | not => .keyword .NOT

def spelling : Wrapper → String
  | paren => "("
  | plus => "+"
  | minus => "-"
  | tilde => "~"
  | not => "NOT"

/-- **Wrappers that can be put around each other**: a `NOT` binds too loosely to stand
directly behind a prefix operator. -/
def Fit (w : List Wrapper) : Prop :=
  w.IsChain fun x y => y = .not → x ∉ [.plus, .minus, .tilde]

instance (w : List Wrapper) : Decidable (Fit w) := inferInstanceAs (Decidable (List.IsChain _ w))

end Wrapper

/-- **The query for a wrapped number and a second number.** -/
def wrappedQuery (w : List Wrapper) : String :=
  "SELECT " ++ String.join (w.map (·.spelling ++ " ")) ++ "1"
    ++ String.ofList (List.replicate (w.count .paren) ')') ++ ", 2;"

namespace Lexer

/-! ## Reading a text from the front -/

/-- **What a text without comments is read as**, wherever it stands: the tokens that a
parser sees. -/
def ReadsAs (source : List Char) (readings : List (TokenKind × String)) : Prop :=
  ∀ pos, ∃ tokens, Lexes pos source tokens
    ∧ (tokens.filter Token.isSignificant).map reading = readings
    ∧ ∀ t ∈ tokens, t.kind.isComment = false

namespace ReadsAs

variable {behind : List Char} {readings : List (TokenKind × String)} {kind : TokenKind}

theorem nil : ReadsAs [] [] := fun pos => ⟨_, .nil pos, rfl, by rintro _ (_ | ⟨_, ⟨⟩⟩); rfl⟩

/-- A token that ends where the rest of the text begins. -/
theorem cons (text : String) (htoken : IsToken kind text.toList) (htrivia : kind.isTrivia = false)
    (hstops : kind.goesOn text.toList behind = false) (h : ReadsAs behind readings) :
    ReadsAs (text.toList ++ behind) ((kind, text) :: readings) := by
  intro pos
  obtain ⟨tokens, hlexes, hreadings, hcomments⟩ := h (pos + String.utf8Len text.toList)
  have hsignificant : (tokenAt pos kind text.toList).isSignificant = true := by
    show (!kind.isTrivia && !kind.isEof) = true
    rw [htrivia, htoken.isEof_eq_false]
    rfl
  have hcomment : kind.isComment = false :=
    Bool.eq_false_iff.2 fun hcomment => by
      rw [TokenKind.isTrivia_of_isComment hcomment] at htrivia
      cases htrivia
  refine ⟨_, .cons htoken hstops hlexes, ?_, List.forall_mem_cons.2 ⟨hcomment, hcomments⟩⟩
  rw [List.filter_cons_of_pos hsignificant, List.map_cons, hreadings, reading, tokenAt,
    String.ofList_toList]

/-- A space between tokens. -/
theorem space (hspace : headIs isSpace behind = false) (h : ReadsAs behind readings) :
    ReadsAs (' ' :: behind) readings := by
  intro pos
  obtain ⟨tokens, hlexes, hreadings, hcomments⟩ := h (pos + String.utf8Len [' '])
  exact ⟨_, .cons isToken_space hspace hlexes, hreadings,
    List.forall_mem_cons.2 ⟨rfl, hcomments⟩⟩

/-- The tokens of a source. -/
theorem tokenize {source : String} (h : ReadsAs source.toList readings) :
    ((tokenize source).filter Token.isSignificant).map reading = readings
      ∧ ∀ t ∈ TolerantSql.tokenize source, t.kind.isComment = false := by
  obtain ⟨tokens, hlexes, hreadings⟩ := h 0
  rw [tokenize_eq_iff.2 hlexes]
  exact hreadings

end ReadsAs

end Lexer

/-! ## The tokens of the query -/

open Lexer

/-- The tokens that the queries for wrapped numbers are made of. -/
def wrappedReadings : List (TokenKind × String) :=
  [(.keyword .SELECT, "SELECT"), (.leftParen, "("), (.plus, "+"), (.minus, "-"), (.bitNot, "~"),
    (.keyword .NOT, "NOT"), (.numeric, "1"), (.rightParen, ")"), (.comma, ","), (.numeric, "2"),
    (.semicolon, ";")]

/-- One query has them all, so each of them is a token. -/
theorem isToken_of_mem_wrappedReadings {kind : TokenKind} {text : String}
    (h : (kind, text) ∈ wrappedReadings) : IsToken kind text.toList := by
  have hreadings : ((tokenize (wrappedQuery [.paren, .plus, .minus, .tilde, .not])).filter
      Token.isSignificant).map reading = wrappedReadings := by decide +kernel
  rw [← hreadings] at h
  obtain ⟨t, ht, hreading⟩ := List.mem_map.1 h
  cases hreading
  obtain ⟨hmem, hsignificant⟩ := List.mem_filter.1 ht
  rw [Token.isSignificant, Bool.and_eq_true, Bool.not_eq_true', Bool.not_eq_true'] at hsignificant
  exact (lexes_tokenize _).isToken_of_mem hmem hsignificant.2

theorem Wrapper.isToken (x : Wrapper) : IsToken x.kind x.spelling.toList :=
  isToken_of_mem_wrappedReadings (by cases x <;> decide)

theorem Wrapper.isTrivia_kind (x : Wrapper) : x.kind.isTrivia = false := by cases x <;> rfl

theorem Wrapper.isError_kind (x : Wrapper) : x.kind.isError = false := by cases x <;> rfl

/-- Wrappers before a text that does not begin with a space. -/
theorem readsAs_wrappers {behind : List Char} {readings : List (TokenKind × String)}
    (hspace : headIs isSpace behind = false) (h : ReadsAs behind readings) (w : List Wrapper) :
    headIs isSpace (w.flatMap (fun x => x.spelling.toList ++ [' ']) ++ behind) = false
      ∧ ReadsAs (w.flatMap (fun x => x.spelling.toList ++ [' ']) ++ behind)
        (w.map (fun x => (x.kind, x.spelling)) ++ readings) := by
  induction w with
  | nil => exact ⟨hspace, h⟩
  | cons x w ih =>
    simp only [List.flatMap_cons, List.append_assoc, List.map_cons, List.cons_append]
    refine ⟨?_, .cons x.spelling x.isToken x.isTrivia_kind
      (goesOn_space _ _ x.isTrivia_kind x.isError_kind) (.space ih.1 ih.2)⟩
    rw [headIs_append x.isToken.ne_nil]
    exact x.isToken.headIs_isSpace x.isTrivia_kind x.isError_kind

/-- The parentheses that are closed behind the number, and the second number. -/
theorem readsAs_closing (k : Nat) :
    ReadsAs (List.replicate k ')' ++ ", 2;".toList)
      (List.replicate k (.rightParen, ")")
        ++ [(.comma, ","), (.numeric, "2"), (.semicolon, ";")]) := by
  have htoken {kind : TokenKind} {text : String} := @isToken_of_mem_wrappedReadings kind text
  induction k with
  | zero =>
    refine .cons "," (htoken (by decide)) rfl rfl (.space rfl ?_)
    refine .cons "2" (htoken (by decide)) rfl ?_ ?_
    · exact goesOn_of_isWordLike rfl rfl (fun _ => rfl) nofun
    · exact .cons ";" (htoken (by decide)) rfl rfl .nil
  | succ k ih => exact .cons ")" (htoken (by decide)) rfl rfl ih

/-- **What the query for a wrapped number is read as.** -/
theorem readsAs_wrappedQuery (w : List Wrapper) :
    ReadsAs (wrappedQuery w).toList
      ((.keyword .SELECT, "SELECT") :: (w.map (fun x => (x.kind, x.spelling))
          ++ (.numeric, "1") :: List.replicate (w.count .paren) (.rightParen, ")"))
        ++ [(.comma, ","), (.numeric, "2"), (.semicolon, ";")]) := by
  have htoken {kind : TokenKind} {text : String} := @isToken_of_mem_wrappedReadings kind text
  have hchars : (wrappedQuery w).toList
      = "SELECT".toList ++ ' ' :: (w.flatMap (fun x => x.spelling.toList ++ [' '])
        ++ ("1".toList ++ (List.replicate (w.count .paren) ')' ++ ", 2;".toList))) := by
    rw [wrappedQuery]
    simp only [String.toList_append, String.toList_join, String.toList_ofList, List.flatMap_map]
    simp
  have hstops : TokenKind.numeric.goesOn "1".toList
      (List.replicate (w.count .paren) ')' ++ ", 2;".toList) = false := by
    cases w.count .paren <;>
      exact goesOn_of_isWordLike rfl rfl (fun _ => rfl) nofun
  have hnumber := ReadsAs.cons "1" (htoken (by decide)) rfl hstops (readsAs_closing _)
  obtain ⟨hspace, hwrappers⟩ := readsAs_wrappers rfl hnumber w
  rw [hchars, List.cons_append, List.append_assoc, List.cons_append]
  exact .cons "SELECT" (htoken (by decide)) rfl (goesOn_space _ _ rfl rfl) (.space hspace hwrappers)

end TolerantSql
