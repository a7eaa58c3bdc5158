import TolerantSql.Proofs.TokenSpelling

/-!
# Texts and the tokens they are read as

`Lexes pos source tokens` describes what it means for `tokens` to be read off
`source`, without a cursor and without fuel: the source is cut into texts, each
text is one that is read as a token somewhere (`IsToken`), and none of them goes
on into what stands behind it. The description has exactly one solution, the one
that the scanner finds (`tokenize_eq_iff`). A fact about scanning is from
here on a fact about descriptions, proved by induction over them: they can be
moved to another offset (`Lexes.shift`), and put side by side at a semicolon
(`Lexes.append`), which no token looks across.
-/

namespace TolerantSql

namespace Lexer

open Cursor

/-- **A text that is read as a token of a kind**, wherever it does not go on. -/
structure IsToken (kind : TokenKind) (text : List Char) : Prop where
  ne_nil : text ≠ []
  spelled : kind.spells text = true
  reads : ∀ (c : Cursor) (behind : List Char), c.rest = text ++ behind →
    kind.goesOn text behind = false → (lexeme c).1 = kind ∧ Reads c text (lexeme c).2

/-- Where there is a character to come, the scanner reads a token. -/
theorem exists_isToken {c : Cursor} (h : c.rest ≠ []) :
    ∃ text, IsToken (lexeme c).1 text ∧ Reads c text (lexeme c).2
      ∧ (lexeme c).1.goesOn text (lexeme c).2.rest = false := by
  cases hr : c.rest with
  | nil => exact absurd hr h
  | cons first t =>
    obtain ⟨text, hmunch⟩ := munches_lexeme hr
    exact ⟨first :: text, ⟨List.cons_ne_nil _ _, spells_lexeme hr hmunch.reads, hmunch.again⟩,
      hmunch.reads, hmunch.stops⟩

theorem IsToken.hasText {kind : TokenKind} {text : List Char} (h : IsToken kind text) :
    kind.hasText = true := by
  have hspells := h.spelled
  rw [TokenKind.spells, Bool.and_eq_true, Bool.and_eq_true] at hspells
  exact hspells.1.1

/-- No text is read as the end of the input. -/
theorem IsToken.ne_eof {kind : TokenKind} {text : List Char} (h : IsToken kind text) :
    kind ≠ .eof := by
  rintro rfl
  cases h.hasText

/-- Punctuation has one spelling. -/
theorem IsToken.text_eq {kind : TokenKind} {text : List Char} (h : IsToken kind text) {p : String}
    (hp : kind.punctuation? = some p) : text = p.toList := by
  have hspells := h.spelled
  rw [TokenKind.spells, hp, Bool.and_eq_true, Bool.and_eq_true] at hspells
  exact beq_iff_eq.1 hspells.1.2

theorem IsToken.isEof_eq_false {kind : TokenKind} {text : List Char} (h : IsToken kind text) :
    kind.isEof = false := by
  cases kind with
  | eof => exact absurd rfl h.ne_eof
  | _ => rfl

/-- The token with a text at an offset. -/
def tokenAt (pos : Nat) (kind : TokenKind) (text : List Char) : Token :=
  ⟨kind, String.ofList text, ⟨pos, pos + String.utf8Len text⟩⟩

/-- **The tokens that a text at an offset is read as.** -/
inductive Lexes : (pos : Nat) → (source : List Char) → List Token → Prop where
  | nil (pos : Nat) : Lexes pos [] [.eof pos]
  | cons {pos : Nat} {kind : TokenKind} {text behind : List Char} {tokens : List Token}
    (token : IsToken kind text) (stops : kind.goesOn text behind = false)
    (rest : Lexes (pos + String.utf8Len text) behind tokens) :
    Lexes pos (text ++ behind) (tokenAt pos kind text :: tokens)

/-- At the end of the input the scanner finds the end. -/
theorem nextToken_nil {c : Cursor} (h : c.rest = []) : nextToken c = (.eof c.pos, c) := by
  rw [nextToken, bump, peek_nil h]

/-- **Where a token comes next and does not go on, the scanner finds it.** -/
theorem nextToken_of_isToken {c : Cursor} {kind : TokenKind} {text behind : List Char}
    (token : IsToken kind text) (hc : c.rest = text ++ behind)
    (stops : kind.goesOn text behind = false) :
    ∃ after, nextToken c = (tokenAt c.pos kind text, after) ∧ Reads c text after := by
  obtain ⟨hkind, hreads⟩ := token.reads c behind hc stops
  refine ⟨(lexeme c).2, ?_, hreads⟩
  rw [nextToken_eq, hreads.sliceFrom, hkind, hreads.pos, tokenAt]

/-- Where a token comes next and does not go on, it is the first of the tokens. -/
theorem tokensFrom_of_isToken {c : Cursor} {kind : TokenKind} {text behind : List Char}
    (token : IsToken kind text) (hc : c.rest = text ++ behind)
    (stops : kind.goesOn text behind = false) (fuel : Nat) :
    ∃ after, Reads c text after
      ∧ tokensFrom (fuel + 1) c = tokenAt c.pos kind text :: tokensFrom fuel after := by
  obtain ⟨after, hnext, hreads⟩ := nextToken_of_isToken token hc stops
  have hnot : (tokenAt c.pos kind text).isEof = false := token.isEof_eq_false
  refine ⟨after, hreads, ?_⟩
  rw [tokensFrom, hnext]
  dsimp only
  rw [hnot, if_neg Bool.false_ne_true]

/-- **The scanner reads a text as it is described.** -/
theorem lexes_tokensFrom (fuel : Nat) (c : Cursor) (h : c.rest.length ≤ fuel) :
    Lexes c.pos c.rest (tokensFrom fuel c) := by
  induction fuel generalizing c with
  | zero =>
    rw [List.eq_nil_of_length_eq_zero (Nat.le_zero.1 h)]
    exact .nil c.pos
  | succ fuel ih =>
    by_cases hr : c.rest = []
    · rw [tokensFrom, nextToken_nil hr, hr]
      exact .nil c.pos
    · obtain ⟨text, token, hread, stops⟩ := exists_isToken hr
      obtain ⟨after, hreads, htokens⟩ := tokensFrom_of_isToken token hread.rest stops fuel
      have hlen := hreads.length_rest
      have hpos := List.length_pos_iff.2 token.ne_nil
      have hrest := ih after (by omega)
      rw [hreads.pos] at hrest
      rw [htokens, hreads.rest]
      rw [← hreads.rest_eq hread.rest] at stops
      exact .cons token stops hrest

/-- **A text is read in one way only.** -/
theorem Lexes.eq_tokensFrom {pos : Nat} {source : List Char} {tokens : List Token}
    (h : Lexes pos source tokens) {c : Cursor} (hpos : c.pos = pos) (hrest : c.rest = source)
    {fuel : Nat} (hfuel : source.length ≤ fuel) : tokensFrom fuel c = tokens := by
  induction h generalizing c fuel with
  | nil =>
    cases fuel with
    | zero => rw [tokensFrom, hpos]
    | succ fuel => rw [tokensFrom, nextToken_nil hrest, hpos]; rfl
  | cons token stops _ ih =>
    have hlen := List.length_pos_iff.2 token.ne_nil
    rw [List.length_append] at hfuel
    obtain ⟨fuel, rfl⟩ : ∃ n, fuel = n + 1 := ⟨fuel - 1, by omega⟩
    obtain ⟨after, hreads, htokens⟩ := tokensFrom_of_isToken token hrest stops fuel
    rw [htokens, hpos, ih (hpos ▸ hreads.pos) (hreads.rest_eq hrest) (by omega)]

end Lexer

open Lexer in
/-- **The tokens of a source are those it is described to have.** -/
theorem tokenize_eq_iff {source : String} {tokens : List Token} :
    tokenize source = tokens ↔ Lexes 0 source.toList tokens := by
  refine ⟨?_, fun h => h.eq_tokensFrom rfl rfl (Nat.le_refl _)⟩
  rintro rfl
  exact lexes_tokensFrom _ (Cursor.ofString source) (Nat.le_refl _)

theorem lexes_tokenize (source : String) : Lexer.Lexes 0 source.toList (tokenize source) :=
  tokenize_eq_iff.1 rfl

namespace Lexer

/-! ## Moving and joining -/

variable {pos : Nat} {source : List Char} {tokens : List Token}

/-- What the first of several tokens says about the text. -/
theorem Lexes.of_cons {t : Token} (h : Lexes pos source (t :: tokens)) (hne : tokens ≠ []) :
    ∃ kind text behind, source = text ++ behind ∧ t = tokenAt pos kind text ∧ IsToken kind text
      ∧ kind.goesOn text behind = false ∧ Lexes (pos + String.utf8Len text) behind tokens := by
  cases h with
  | nil => exact absurd rfl hne
  | cons token stops rest => exact ⟨_, _, _, rfl, rfl, token, stops, rest⟩

/-- A text with a single token is empty. -/
theorem Lexes.of_singleton {t : Token} (h : Lexes pos source [t]) :
    source = [] ∧ t = .eof pos := by
  cases h with
  | nil => exact ⟨rfl, rfl⟩
  | cons _ _ rest => cases rest

/-- What is read off a text can be read again. -/
theorem Lexes.isToken_of_mem (h : Lexes pos source tokens) {t : Token} (ht : t ∈ tokens)
    (heof : t.isEof = false) :
    IsToken t.kind t.text.toList := by
  induction h with
  | nil =>
    rw [List.mem_singleton.1 ht] at heof
    cases heof
  | @cons pos kind text _ _ token _ _ ih =>
    rcases List.mem_cons.1 ht with rfl | ht
    · show IsToken kind (String.ofList text).toList
      rw [String.toList_ofList]
      exact token
    · exact ih ht

theorem shift_tokenAt (offset pos : Nat) (kind : TokenKind) (text : List Char) :
    (tokenAt pos kind text).shift offset = tokenAt (pos + offset) kind text := by
  simp only [tokenAt, Token.shift, Span.shift]
  rw [Nat.add_right_comm]

/-- **What a text is read as does not depend on where it stands.** -/
theorem Lexes.shift (h : Lexes pos source tokens) (offset : Nat) :
    Lexes (pos + offset) source (tokens.map (Token.shift offset)) := by
  induction h with
  | nil pos => exact .nil (pos + offset)
  | cons token stops _ ih =>
    rw [List.map_cons, shift_tokenAt]
    refine .cons token stops ?_
    rw [Nat.add_right_comm]
    exact ih

section Semicolon

variable (w b b' : List Char)

/-- What stands behind a semicolon is not the next character. -/
theorem headIs_semicolon (p : Char → Bool) :
    headIs p (w ++ ';' :: b) = headIs p (w ++ ';' :: b') := by
  cases w <;> rfl

theorem isEmpty_semicolon : (w ++ ';' :: b).isEmpty = (w ++ ';' :: b').isEmpty := by
  cases w <;> rfl

/-- A run of digits is not told by what stands behind a semicolon. -/
theorem digitsGoOn_semicolon {isDigit : Char → Bool} (h : isDigit ';' = false)
    (afterDigit : Bool) : digitsGoOn isDigit afterDigit (w ++ ';' :: b)
      = digitsGoOn isDigit afterDigit (w ++ ';' :: b') := by
  rcases w with _ | ⟨a, w⟩
  · simp [digitsGoOn, h]
  · simp only [List.cons_append, digitsGoOn, headIs_semicolon w b b']

theorem exponentFollows_semicolon :
    exponentFollows (w ++ ';' :: b) = exponentFollows (w ++ ';' :: b') := by
  rcases w with _ | ⟨a, _ | ⟨a', w⟩⟩
  · rfl
  · simp [exponentFollows]
  · simp only [List.cons_append, exponentFollows, headIs_cons, List.tail_cons,
      headIs_semicolon w b b']

theorem hexFollows_semicolon : hexFollows (w ++ ';' :: b) = hexFollows (w ++ ';' :: b') := by
  rcases w with _ | ⟨a, w⟩
  · rfl
  · simp only [List.cons_append, hexFollows, headIs_semicolon w b b']

theorem pathFollows_semicolon : pathFollows (w ++ ';' :: b) = pathFollows (w ++ ';' :: b') := by
  rcases w with _ | ⟨a, _ | ⟨a', w⟩⟩
  · rfl
  · simp [pathFollows]
  · simp only [List.cons_append, pathFollows, headIs_cons, List.tail_cons,
      headIs_semicolon w b b']

theorem numberGoesOn_semicolon (text : List Char) :
    numberGoesOn text (w ++ ';' :: b) = numberGoesOn text (w ++ ';' :: b') := by
  rw [numberGoesOn, numberGoesOn, digitsGoOn_semicolon w b b' rfl, decimalGoesOn, decimalGoesOn,
    digitsGoOn_semicolon w b b' rfl, digitsGoOn_semicolon w b b' rfl,
    exponentFollows_semicolon w b b', hexFollows_semicolon w b b', headIs_semicolon w b b']

/-- **No token is told where it ends by what stands behind a semicolon.** -/
theorem goesOn_semicolon (kind : TokenKind) (text : List Char) :
    kind.goesOn text (w ++ ';' :: b) = kind.goesOn text (w ++ ';' :: b') := by
  cases kind with
  | numeric => exact numberGoesOn_semicolon w b b' text
  | identifier =>
    show identifierGoesOn _ _ = identifierGoesOn _ _
    simp only [identifierGoesOn, headIs_semicolon w b b']
  | error cause =>
    cases cause <;> simp only [TokenKind.goesOn, headIs_semicolon w b b', isEmpty_semicolon w b b']
  | _ =>
    simp only [TokenKind.goesOn, headIs_semicolon w b b', pathFollows_semicolon w b b',
      isEmpty_semicolon w b b']

end Semicolon

/-- A text whose tokens end with a semicolon ends with one. -/
theorem Lexes.exists_concat {front : List Token} {semi eof : Token}
    (h : Lexes pos source (front ++ [semi, eof])) (hsemi : semi.kind = .semicolon) :
    ∃ w, source = w ++ [';'] := by
  induction front generalizing pos source with
  | nil =>
    obtain ⟨kind, text, behind, rfl, rfl, token, -, hrest⟩ := h.of_cons (List.cons_ne_nil _ _)
    obtain ⟨rfl, -⟩ := hrest.of_singleton
    refine ⟨[], ?_⟩
    rw [List.append_nil, (hsemi ▸ token : IsToken .semicolon text).text_eq rfl]
    rfl
  | cons t front ih =>
    obtain ⟨kind, text, behind, rfl, -, -, -, hrest⟩ := h.of_cons (by simp)
    obtain ⟨w, rfl⟩ := ih hrest
    exact ⟨text ++ w, (List.append_assoc _ _ _).symm⟩

/-- **A text can be read in two parts if the first ends with a semicolon.** -/
theorem Lexes.append {front : List Token} {semi eof : Token} {behind : List Char}
    (h : Lexes pos source (front ++ [semi, eof])) (hsemi : semi.kind = .semicolon)
    (hbehind : Lexes (pos + String.utf8Len source) behind tokens) :
    Lexes pos (source ++ behind) (front ++ semi :: tokens) := by
  induction front generalizing pos source with
  | nil =>
    obtain ⟨kind, text, rest, rfl, rfl, token, -, hrest⟩ := h.of_cons (List.cons_ne_nil _ _)
    obtain ⟨rfl, -⟩ := hrest.of_singleton
    rw [List.append_nil] at hbehind ⊢
    refine .cons token ?_ hbehind
    rw [show kind = .semicolon from hsemi]
    rfl
  | cons t front ih =>
    obtain ⟨kind, text, rest, rfl, rfl, token, stops, hrest⟩ := h.of_cons (by simp)
    -- the semicolon that ends the first text still stands behind the token
    obtain ⟨w, rfl⟩ := hrest.exists_concat hsemi
    rw [String.utf8Len_append, ← Nat.add_assoc] at hbehind
    rw [List.append_assoc]
    refine .cons token ?_ (ih hrest hbehind)
    rw [List.append_assoc, List.singleton_append, goesOn_semicolon w behind []]
    exact stops

end Lexer

open Lexer in
/-- **The tokens of two sources joined at a semicolon** are those of the first
and those of the second further on. -/
theorem tokenize_append {a b : String} {front : List Token} {semi eof : Token}
    (h : tokenize a = front ++ [semi, eof]) (hsemi : semi.kind = .semicolon) :
    tokenize (a ++ b)
      = front ++ semi :: (tokenize b).map (Token.shift a.utf8ByteSize) := by
  rw [tokenize_eq_iff, String.toList_append]
  refine (tokenize_eq_iff.1 h).append hsemi ?_
  rw [String.utf8Len_toList]
  exact (lexes_tokenize b).shift a.utf8ByteSize

/-- The token with a text at the start of a source. -/
theorem Lexer.tokenAt_zero_toList (kind : TokenKind) (text : String) :
    tokenAt 0 kind text.toList = ⟨kind, text, ⟨0, text.utf8ByteSize⟩⟩ := by
  rw [tokenAt, String.ofList_toList, String.utf8Len_toList, Nat.zero_add]

open Lexer in
/-- **A source that starts with a token** which does not go on has that token, and the
tokens of what stands behind it further on. -/
theorem tokenize_token_append {kind : TokenKind} {text behind : String}
    (token : IsToken kind text.toList) (stops : kind.goesOn text.toList behind.toList = false) :
    tokenize (text ++ behind) = ⟨kind, text, ⟨0, text.utf8ByteSize⟩⟩
      :: (tokenize behind).map (Token.shift text.utf8ByteSize) := by
  rw [tokenize_eq_iff, String.toList_append, ← tokenAt_zero_toList]
  refine .cons token stops ?_
  rw [String.utf8Len_toList]
  exact (lexes_tokenize behind).shift text.utf8ByteSize

end TolerantSql
