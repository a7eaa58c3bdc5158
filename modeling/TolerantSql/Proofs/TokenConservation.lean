import TolerantSql.Proofs.Lexing
import TolerantSql.Proofs.StatementTokens

/-!
# Parsing conserves tokens

The stream that a source is turned into has the significant tokens of the source
and ends with its end, so what is known about the statements of a stream is known
about those of a source: no token is lost, invented, repeated or moved, however
malformed the source is.
-/

namespace TolerantSql

/-! ## The stream of a source -/

/-- Tokens that a parser sees: neither blanks and comments nor the end. -/
def Token.isSignificant (t : Token) : Bool := !t.kind.isTrivia && !t.isEof

/-- Comments are among what a parser does not see. -/
theorem TokenKind.isTrivia_of_isComment {kind : TokenKind} (h : kind.isComment = true) :
    kind.isTrivia = true := by
  cases kind <;> first | rfl | cases h

/-- The stream of tokens that are read off a text is lawful, holds the significant
ones of them, and ends with the end of the text. -/
theorem Lexer.Lexes.ofTokens {pos : Nat} {source : List Char} {tokens : List Token}
    (h : Lexes pos source tokens) (comments : List Token) :
    (TokenStream.ofTokens comments tokens).Lawful
      ∧ (TokenStream.ofTokens comments tokens).pending.map Lexeme.token
        = tokens.filter Token.isSignificant
      ∧ ∃ offset, (TokenStream.ofTokens comments tokens).last.token = .eof offset := by
  induction h generalizing comments with
  | nil pos => exact ⟨⟨nofun, rfl⟩, rfl, pos, rfl⟩
  | @cons pos kind text behind tokens token _ _ ih =>
    have hnot : (tokenAt pos kind text).isEof = false := token.isEof_eq_false
    rw [TokenStream.ofTokens, hnot, if_neg Bool.false_ne_true, List.filter_cons,
      Token.isSignificant, hnot]
    split
    · next hcomment =>
      rw [TokenKind.isTrivia_of_isComment hcomment]
      exact ih _
    · split
      · next htrivia =>
        rw [htrivia]
        exact ih comments
      · next htrivia =>
        rw [Bool.eq_false_of_not_eq_true htrivia]
        obtain ⟨hlawful, hpending, hlast⟩ := ih []
        refine ⟨⟨List.forall_mem_cons.2 ⟨hnot, hlawful.pending⟩, hlawful.last⟩, ?_, hlast⟩
        exact congrArg _ hpending

theorem TokenStream.lawful_ofSource (source : String) : (ofSource source).Lawful :=
  ((lexes_tokenize source).ofTokens []).1

/-- The lexemes of a source are its significant tokens. -/
theorem TokenStream.pending_ofSource (source : String) :
    (ofSource source).pending.map Lexeme.token = (tokenize source).filter Token.isSignificant :=
  ((lexes_tokenize source).ofTokens []).2.1

/-- The stream of a source ends with the end of the source. -/
theorem TokenStream.last_ofSource (source : String) :
    ∃ offset, (ofSource source).last.token = .eof offset :=
  ((lexes_tokenize source).ofTokens []).2.2

/-- The tokens of the statements of a source are its significant tokens, with or without
its end behind them. -/
theorem terminals_parse (source : String) :
    ∃ tail, (tail = [] ∨ ∃ offset, tail = [.eof offset])
      ∧ (parse source).flatMap (·.tree.terminals)
        = (tokenize source).filter Token.isSignificant ++ tail := by
  obtain ⟨tail, htail, hall⟩ :=
    TokenStream.terminals_parseAll (TokenStream.lawful_ofSource source)
  obtain ⟨offset, hlast⟩ := TokenStream.last_ofSource source
  refine ⟨tail, htail.imp_right fun h => ⟨offset, by rw [h, hlast]⟩, ?_⟩
  rw [parse, List.flatMap_map, ← TokenStream.pending_ofSource]
  exact hall

/-- **Parsing conserves tokens.** Whatever the source is, the tokens of the trees,
one tree behind the other and without the end of the input, are the significant
tokens of the source: the same tokens in the same order, each once. The end of the
input occurs at most once, behind every other token, and no tree has a
placeholder. -/
theorem parse_conserves_tokens (source : String) :
    ((parse source).flatMap (·.tree.terminals)).filter (fun t => !t.isEof)
        = (tokenize source).filter (fun t => !t.kind.isTrivia && !t.isEof)
    ∧ ((parse source).flatMap (·.tree.terminals)).countP Token.isEof ≤ 1
    ∧ (∀ t ∈ ((parse source).flatMap (·.tree.terminals)).dropLast, t.isEof = false)
    ∧ ∀ s ∈ parse source, Leaf.placeholder ∉ s.tree.leaves := by
  have hlawful := TokenStream.lawful_ofSource source
  obtain ⟨tail, htail, hall⟩ := TokenStream.terminals_parseAll hlawful
  have hterminals : (parse source).flatMap (·.tree.terminals)
      = (tokenize source).filter Token.isSignificant ++ tail := by
    rw [parse, List.flatMap_map, ← TokenStream.pending_ofSource]
    exact hall
  have hsignificant : ∀ t ∈ (tokenize source).filter Token.isSignificant, t.isEof = false := by
    intro t ht
    have hkept := (List.mem_filter.1 ht).2
    rw [Token.isSignificant, Bool.and_eq_true, Bool.not_eq_true', Bool.not_eq_true'] at hkept
    exact hkept.2
  have hlast := hlawful.last
  rw [hterminals]
  refine ⟨?_, ?_, ?_, ?_⟩
  · have hkeep : ∀ t ∈ (tokenize source).filter Token.isSignificant, (!t.isEof) = true :=
      fun t ht => by rw [hsignificant t ht]; rfl
    rw [List.filter_append, List.filter_eq_self.2 hkeep]
    rcases htail with rfl | rfl
    · exact List.append_nil _
    · rw [List.filter_singleton, hlast]
      exact List.append_nil _
  · have hnone : ((tokenize source).filter Token.isSignificant).countP Token.isEof = 0 :=
      List.countP_eq_zero.2 fun t ht => by rw [hsignificant t ht]; exact Bool.false_ne_true
    rw [List.countP_append, hnone, Nat.zero_add]
    rcases htail with rfl | rfl
    · exact Nat.zero_le 1
    · exact List.countP_le_length
  · rcases htail with rfl | rfl
    · rw [List.append_nil]
      exact fun t ht => hsignificant t (List.dropLast_subset _ ht)
    · rw [List.dropLast_concat]
      exact hsignificant
  · intro s hs
    obtain ⟨parsed, hparsed, rfl⟩ := List.mem_map.1 hs
    obtain ⟨input, hinput, -, -, rfl⟩ := TokenStream.exists_of_mem_parseAll hlawful hparsed
    exact TokenStream.placeholder_not_mem_parseStatement hinput

end TolerantSql
