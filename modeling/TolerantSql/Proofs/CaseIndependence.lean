import TolerantSql.Proofs.LetterCase
import TolerantSql.Proofs.StatementIndependence

/-!
# Structure does not depend on the case of letters

A source and the same source in capitals have the same tokens but for the case of their
texts (`tokenize_toUpper`). To write tokens in capitals is a relabelling, since rules see
the word that a token spells in capitals only: that matters for the one word which the
grammar knows without its being reserved. So the statements of the source in capitals are
its statements in capitals (`parse_toUpper`), and two sources that are the same in
capitals differ nowhere else.
-/

namespace TolerantSql

/-- The comments in capitals, filed as before. -/
def CommentMap.capitals (m : CommentMap) : CommentMap :=
  ⟨m.entries.map fun e => (e.1, e.2.map Token.capitals)⟩

theorem CommentMap.capitals_insert (m : CommentMap) (t : Token) (comments : List Token) :
    (m.insert t comments).capitals
      = m.capitals.insert t.capitals (comments.map Token.capitals) := by
  cases comments with
  | nil => rfl
  | cons c comments =>
    exact congrArg CommentMap.mk (insertEntry_map Token.capitals 0 t.span.start _ m.entries)

/-- The statement in capitals: its tokens and its comments. -/
def Statement.capitals (s : Statement) : Statement :=
  ⟨Forest.mapTokens Token.capitals s.children, s.comments.capitals⟩

/-- Writing everything in capitals. -/
def Relabelling.capitals : Relabelling where
  token := Token.capitals
  comments := List.map Token.capitals
  filed := CommentMap.capitals
  kind_token _ := rfl
  word_token t := string_toUpper_toUpper t.text
  comments_nil := rfl
  filed_empty := rfl
  filed_insert := CommentMap.capitals_insert

open TokenStream in
/-- **The statements of a text in capitals are its statements in capitals.** -/
theorem parse_toUpper (source : String) :
    parse source.toUpper = (parse source).map Statement.capitals := by
  have hend : ∃ t ∈ tokenize source, t.isEof = true :=
    ⟨_, List.mem_of_getLast? (lexes_tokenize source).getLast, rfl⟩
  have hstream : ofSource source.toUpper = (ofSource source).relabel .capitals := by
    rw [ofSource, tokenize_toUpper]
    exact ofTokens_relabel .capitals (fun _ => rfl) [] (tokenize source) hend
  rw [parse, parse, hstream,
    parseAll_relabel .capitals (fun _ => List.isEmpty_map) (lawful_ofSource source)]
  rfl

/-- Lists that are the same after a change agree item by item up to that change. -/
theorem forall₂_of_map_eq {α β : Type} {f : α → β} {l l' : List α} (h : l.map f = l'.map f) :
    List.Forall₂ (fun a a' => f a = f a') l l' := by
  have heq : List.Forall₂ (· = ·) (l.map f) (l'.map f) := by rw [h, List.forall₂_eq_eq_eq]
  rwa [List.forall₂_map_left_iff, List.forall₂_map_right_iff] at heq

/-- **The case of letters does not affect structure.** Let two sources be the same in
capitals. Then they have equally many tokens, which agree one by one in their kinds, with
what is wrong with them if they are malformed, and in their places, and whose texts are
the same in capitals; and they have equally many statements, which agree one by one in
their trees and in their comments with the offsets these are filed under, but for the case
of the letters of tokens. -/
theorem parse_ignores_case (source source' : String) (h : source.toUpper = source'.toUpper) :
    List.Forall₂
        (fun t t' => t.kind = t'.kind ∧ t.span = t'.span ∧ t.text.toUpper = t'.text.toUpper)
        (tokenize source) (tokenize source')
      ∧ List.Forall₂
        (fun s s' => s.tree.mapTokens Token.capitals = s'.tree.mapTokens Token.capitals
          ∧ s.comments.capitals = s'.comments.capitals)
        (parse source) (parse source') := by
  have htokens : (tokenize source).map Token.capitals
      = (tokenize source').map Token.capitals := by
    rw [← tokenize_toUpper, ← tokenize_toUpper, h]
  have hstatements : (parse source).map Statement.capitals
      = (parse source').map Statement.capitals := by
    rw [← parse_toUpper, ← parse_toUpper, h]
  refine ⟨(forall₂_of_map_eq htokens).imp fun t t' hsame => ?_,
    (forall₂_of_map_eq hstatements).imp fun s s' hsame => ?_⟩
  · have hkind : t.capitals.kind = t'.capitals.kind := congrArg Token.kind hsame
    have hspan : t.capitals.span = t'.capitals.span := congrArg Token.span hsame
    exact ⟨hkind, hspan, congrArg Token.text hsame⟩
  · exact ⟨congrArg Statement.tree hsame, congrArg Statement.comments hsame⟩

/-- Keywords, the mark and the digits of a blob, an exponent, a comment and the word
`STORED`, in either case. -/
theorem parse_ignores_case_stored :
    "alter table T add c as (x'aF' + 1e5) stored /* c */;".toUpper
        = "ALTER Table t ADD C aS (X'Af' + 1E5) Stored /* C */;".toUpper
      ∧ List.Forall₂
        (fun s s' => s.tree.mapTokens Token.capitals = s'.tree.mapTokens Token.capitals
          ∧ s.comments.capitals = s'.comments.capitals)
        (parse "alter table T add c as (x'aF' + 1e5) stored /* c */;")
        (parse "ALTER Table t ADD C aS (X'Af' + 1E5) Stored /* C */;") :=
  have h : "alter table T add c as (x'aF' + 1e5) stored /* c */;".toUpper
      = "ALTER Table t ADD C aS (X'Af' + 1E5) Stored /* C */;".toUpper := by
    rw [← String.toList_inj, String.toUpper, String.toUpper, String.toList_map, String.toList_map]
    decide +kernel
  ⟨h, (parse_ignores_case _ _ h).2⟩

end TolerantSql
