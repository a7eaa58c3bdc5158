import TolerantSql.Proofs.CommentConservation
import TolerantSql.Proofs.RoundTrip

/-!
# Trees do not depend on blanks and comments

A statement does not change when tokens are moved or comments are put before them,
except for the places of its tokens (`TokenStream.parseStatement_relabel`). Nor does
what is left behind it, so the same is true of every statement that comes after. Two
sources with the same tokens for a parser to see are the same stream once places and
comments are forgotten, and with that nothing is left by which their trees could
differ.

Statements are counted by calls here, and not as those of the source: comments at the
end of a source make one statement more, but a call for a statement always gives one,
at the end of the input as well.
-/

namespace TolerantSql

namespace TokenStream

/-- **What is left of a stream behind a number of statements.** -/
def behind (input : TokenStream) : (k : Nat) → TokenStream
  | 0 => input
  | k + 1 => (input.behind k).parseStatement.rest

theorem lawful_behind {input : TokenStream} (h : input.Lawful) (k : Nat) :
    (input.behind k).Lawful := by
  induction k with
  | zero => exact h
  | succ k ih => exact lawful_parseStatement ih

/-- **Relabelling a stream relabels what is left behind its statements.** -/
theorem behind_relabel (ρ : Relabelling) {input : TokenStream} (h : input.Lawful) (k : Nat) :
    (input.relabel ρ).behind k = (input.behind k).relabel ρ := by
  induction k with
  | zero => rfl
  | succ k ih =>
    unfold behind
    rw [ih]
    exact (parseStatement_relabel ρ (lawful_behind h k)).2

/-- Streams that are the same without places and comments have the same statements, up
to places. -/
theorem eraseSpans_behind {input input' : TokenStream} (h : input.Lawful) (h' : input'.Lawful)
    (hsame : input.relabel .erase = input'.relabel .erase) (k : Nat) :
    (input.behind k).parseStatement.statement.tree.eraseSpans
      = (input'.behind k).parseStatement.statement.tree.eraseSpans := by
  have herase {input : TokenStream} (h : input.Lawful) :
      ((input.relabel .erase).behind k).parseStatement.statement
        = (input.behind k).parseStatement.statement.relabel .erase := by
    rw [behind_relabel .erase h]
    exact (parseStatement_relabel .erase (lawful_behind h k)).1
  have hstatement := herase h
  rw [hsame, herase h'] at hstatement
  exact congrArg Statement.tree hstatement.symm

/-- Sources with the same tokens for a parser to see are the same stream without places
and comments. -/
theorem relabel_ofSource {source source' : String}
    (h : ((tokenize source).filter (fun t => !t.kind.isTrivia)).map (fun t => (t.kind, t.text))
      = ((tokenize source').filter (fun t => !t.kind.isTrivia)).map
          (fun t => (t.kind, t.text))) :
    (ofSource source).relabel .erase = (ofSource source').relabel .erase := by
  rw [← (groups_ofSource source).map_token, ← (groups_ofSource source').map_token] at h
  have hlexemes := Relabelling.map_erase_of_reading h
  rw [lexemes, lexemes, List.map_append, List.map_append] at hlexemes
  -- the end of the input is the last lexeme of both
  obtain ⟨hpending, hlast⟩ := List.append_inj' hlexemes rfl
  rw [relabel, relabel, hpending, List.singleton_inj.1 hlast]

end TokenStream

/-- **Blanks and comments do not affect trees.** Let two sources have tokens of the same
kinds and texts, in the same order, once blanks and comments are left out. Then each
call for a statement gives the same tree on both, up to the places of tokens. -/
theorem parseStatement_ignores_trivia (source source' : String)
    (h : ((tokenize source).filter (fun t => !t.kind.isTrivia)).map (fun t => (t.kind, t.text))
      = ((tokenize source').filter (fun t => !t.kind.isTrivia)).map (fun t => (t.kind, t.text)))
    (k : Nat) :
    ((TokenStream.ofSource source).behind k).parseStatement.statement.tree.eraseSpans
      = ((TokenStream.ofSource source').behind k).parseStatement.statement.tree.eraseSpans :=
  TokenStream.eraseSpans_behind (TokenStream.lawful_ofSource source)
    (TokenStream.lawful_ofSource source') (TokenStream.relabel_ofSource h) k

/-- A comment between two statements, with a semicolon in it, and blanks anywhere do not
change the second one. -/
theorem parseStatement_ignores_trivia_select :
    ((tokenize "BEGIN;SELECT a.b").filter (fun t => !t.kind.isTrivia)).map
        (fun t => (t.kind, t.text))
      = ((tokenize " BEGIN ; /* ; */ SELECT a . -- b\n b ").filter
          (fun t => !t.kind.isTrivia)).map (fun t => (t.kind, t.text))
    ∧ ((TokenStream.ofSource "BEGIN;SELECT a.b").behind 1).parseStatement.statement.tree.eraseSpans
      = ((TokenStream.ofSource " BEGIN ; /* ; */ SELECT a . -- b\n b ").behind
          1).parseStatement.statement.tree.eraseSpans :=
  have h : ((tokenize "BEGIN;SELECT a.b").filter (fun t => !t.kind.isTrivia)).map
        (fun t => (t.kind, t.text))
      = ((tokenize " BEGIN ; /* ; */ SELECT a . -- b\n b ").filter
          (fun t => !t.kind.isTrivia)).map (fun t => (t.kind, t.text)) := by
    decide +kernel
  ⟨h, parseStatement_ignores_trivia _ _ h 1⟩

end TolerantSql
