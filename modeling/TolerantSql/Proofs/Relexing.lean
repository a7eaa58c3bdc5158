import TolerantSql.Proofs.Adjacency
import TolerantSql.Proofs.TokenConservation

/-!
# Tokens that stay apart are read back

A token ends where the text behind it does not make it go on. Behind the end of
the text, a space, or a token that stays apart from it, no token goes on
(`goesOn_of_staysApart`): a word is followed by punctuation there, which no word
takes, and an operator by something that does not make it longer. So tokens that
stay apart, written one behind the other with spaces where they are needed, are
read as the same tokens again (`exists_lexes_sourceAfter`).
-/

namespace TolerantSql

namespace Lexer

/-! ## Where a word ends -/

/-- A narrower class starts a text less often. -/
theorem headIs_eq_false_of_imp {p q : Char → Bool} {t : List Char} (h : headIs q t = false)
    (himp : ∀ ch, p ch = true → q ch = true) : headIs p t = false := by
  cases t with
  | nil => rfl
  | cons ch t =>
    rw [headIs_cons] at h ⊢
    cases hp : p ch with
    | false => rfl
    | true => rw [himp ch hp] at h; cases h

theorem isWordChar_of_isDigit {ch : Char} (h : ch.isDigit = true) : isWordChar ch = true := by
  simp [isWordChar, Char.isAlphanum, h]

theorem isWordChar_of_isHexDigit {ch : Char} (h : isHexDigit ch = true) :
    isWordChar ch = true := by
  rw [isHexDigit, Bool.or_eq_true, Bool.or_eq_true] at h
  rcases h with (hdigit | hlower) | hupper
  · exact isWordChar_of_isDigit hdigit
  all_goals
    show (decide (ch.val ≥ 65 ∧ ch.val ≤ 90) || (decide (ch.val ≥ 97) && decide (ch.val ≤ 122))
      || ch.isDigit || ch == '_') = true
    simp only [Bool.and_eq_true, Bool.or_eq_true, decide_eq_true_eq, ge_iff_le, Char.le_def,
      UInt32.le_iff_toNat_le, UInt32.reduceToNat, Char.reduceVal] at *
    omega

section Numbers

variable {text behind : List Char} (h : headIs isWordChar behind = false)

include h

/-- Digits do not go on with what is no character of a word. -/
theorem digitsGoOn_of_not_word {isDigit : Char → Bool}
    (hdigit : ∀ ch, isDigit ch = true → isWordChar ch = true) (afterDigit : Bool) :
    digitsGoOn isDigit afterDigit behind = false := by
  have hnot := headIs_eq_false_of_imp h hdigit
  cases behind with
  | nil => rfl
  | cons ch t =>
    rw [headIs_cons, isWordChar, Bool.or_eq_false_iff] at h
    rw [headIs_cons] at hnot
    rw [digitsGoOn, hnot, h.2]
    rfl

theorem exponentFollows_of_not_word : exponentFollows behind = false := by
  have hnot := headIs_eq_false_of_imp (p := fun ch => ch == 'e' || ch == 'E') h fun ch hch => by
    rcases Bool.or_eq_true _ _ ▸ hch with he | he <;> rw [beq_iff_eq.1 he] <;> rfl
  cases behind with
  | nil => rfl
  | cons ch t =>
    rw [headIs_cons] at hnot
    rw [exponentFollows, hnot, Bool.false_and]

theorem hexFollows_of_not_word : hexFollows behind = false := by
  have hnot := headIs_eq_false_of_imp (p := fun ch => ch == 'x' || ch == 'X') h fun ch hch => by
    rcases Bool.or_eq_true _ _ ▸ hch with hx | hx <;> rw [beq_iff_eq.1 hx] <;> rfl
  cases behind with
  | nil => rfl
  | cons ch t =>
    rw [headIs_cons] at hnot
    rw [hexFollows, hnot, Bool.false_and]

/-- A number goes on with characters of a word and a point only. -/
theorem numberGoesOn_of_not_word (hdot : headIs (· == '.') behind = false) :
    numberGoesOn text behind = false := by
  have hdigits := digitsGoOn_of_not_word h fun _ => isWordChar_of_isDigit
  have hhex := digitsGoOn_of_not_word h fun _ => isWordChar_of_isHexDigit
  rw [numberGoesOn, hhex, decimalGoesOn, hdigits, hdigits, exponentFollows_of_not_word h,
    hexFollows_of_not_word h, hdot]
  simp

end Numbers

/-- The characters that a word-like token can go on with, but for the point behind
a number and the parenthesis behind a `$` parameter. -/
def lengthensWord (ch : Char) : Bool :=
  isWordChar ch || ['\x27', '\x22', '\x60', ':'].contains ch

/-- **A word-like token ends** where no character of a word, quote or colon comes
next, unless it takes a point or a parenthesis. -/
theorem goesOn_of_isWordLike {kind : TokenKind} {text behind : List Char}
    (hkind : kind.isWordLike = true) (h : headIs lengthensWord behind = false)
    (hdot : kind = .numeric → headIs (· == '.') behind = false)
    (hparen : kind = .dollarVariable → headIs (· == '(') behind = false) :
    kind.goesOn text behind = false := by
  have hword : headIs isWordChar behind = false :=
    headIs_eq_false_of_imp h fun ch hch => by rw [lengthensWord, hch]; rfl
  have hquote : ∀ ch ∈ ['\x27', '\x22', '\x60', ':'], headIs (· == ch) behind = false :=
    fun ch hch => headIs_eq_false_of_imp h fun ch' hch' => by
      rw [lengthensWord, beq_iff_eq.1 hch', List.contains_iff_mem.2 hch, Bool.or_true]
  cases kind with
  | keyword word => exact hword
  | identifier =>
    show identifierGoesOn text behind = false
    rw [identifierGoesOn, hword, hquote '\x22' (by simp), hquote '\x60' (by simp),
      hquote '\x27' (by simp)]
    simp
  | string => exact hquote '\x27' (by simp)
  | blob => rfl
  | numeric => exact numberGoesOn_of_not_word hword (hdot rfl)
  | questionVariable => exact headIs_eq_false_of_imp hword fun _ => isWordChar_of_isDigit
  | colonVariable => exact hword
  | atVariable => exact hword
  | dollarVariable =>
    show (_ && (headIs isWordChar behind || pathFollows behind || headIs (· == '(') behind)) = false
    rw [hword, pathFollows, hquote ':' (by simp), hparen rfl]
    simp
  | _ => cases hkind

/-! ## Where a token ends -/

/-- Kinds that stand in a tree without errors: neither blanks and comments nor
malformed text. -/
theorem isWordLike_or_punctuation {kind : TokenKind} (htext : kind.hasText = true)
    (htrivia : kind.isTrivia = false) (herror : kind.isError = false) :
    kind.isWordLike = true ∨ ∃ p, kind.punctuation? = some p := by
  cases kind <;> first
    | exact .inl rfl
    | exact .inr ⟨_, rfl⟩
    | (cases htext; done)
    | (cases htrivia; done)
    | cases herror

/-- At the end of the text every well-formed token ends. -/
theorem goesOn_nil {kind : TokenKind} (text : List Char) (herror : kind.isError = false) :
    kind.goesOn text [] = false := by
  cases hword : kind.isWordLike with
  | true => exact goesOn_of_isWordLike hword rfl (fun _ => rfl) fun _ => rfl
  | false =>
    cases kind <;> first | rfl | (cases hword; done) | (cases herror; done) | exact Bool.and_false _

/-- **Before a space every token ends** but blanks and comments. -/
theorem goesOn_space {kind : TokenKind} (text behind : List Char) (htrivia : kind.isTrivia = false)
    (herror : kind.isError = false) : kind.goesOn text (' ' :: behind) = false := by
  cases hword : kind.isWordLike with
  | true => exact goesOn_of_isWordLike hword rfl (fun _ => rfl) fun _ => rfl
  | false =>
    cases kind <;> first
      | rfl
      | (cases hword; done)
      | (cases herror; done)
      | cases htrivia

/-- How a word-like token starts. -/
theorem IsToken.head_of_isWordLike {kind : TokenKind} {text : List Char} (h : IsToken kind text)
    (hword : kind.isWordLike = true) :
    headIs lengthensOperator text = false
      ∧ (kind = .numeric ∨ headIs Char.isDigit text = false) := by
  have hspells := h.spelled
  rw [TokenKind.spells, hword, Bool.and_eq_true] at hspells
  simpa using hspells.2

/-- The first character of a text is not changed by what stands behind it. -/
theorem headIs_append {text : List Char} (hne : text ≠ []) (p : Char → Bool)
    (behind : List Char) : headIs p (text ++ behind) = headIs p text := by
  cases text with
  | nil => exact absurd rfl hne
  | cons ch t => rfl

/-- **Punctuation ends** where no character that lengthens an operator comes next,
unless it is a point. -/
theorem goesOn_of_punctuation {kind : TokenKind} {text behind : List Char} {p : String}
    (hp : kind.punctuation? = some p) (h : headIs lengthensOperator behind = false)
    (hdot : kind = .dot → headIs Char.isDigit behind = false) :
    kind.goesOn text behind = false := by
  have hnot : ∀ q : Char → Bool, (∀ ch, q ch = true → lengthensOperator ch = true) →
      headIs q behind = false := fun q => headIs_eq_false_of_imp h
  cases kind <;> first | rfl | (cases hp; done) | exact hdot rfl | skip
  all_goals
    refine hnot _ fun ch hch => ?_
    simp only [Bool.or_eq_true, beq_iff_eq] at hch
  · rcases hch with rfl | rfl <;> rfl
  · rw [hch]; rfl
  · rw [hch]; rfl
  · rcases hch with (rfl | rfl) | rfl <;> rfl
  · rcases hch with rfl | rfl <;> rfl
  · rw [hch]; rfl
  · rw [hch]; rfl

/-- Punctuation looks at the next character only. -/
theorem goesOn_append_of_punctuation {kind : TokenKind} {text text' : List Char} {p : String}
    (hp : kind.punctuation? = some p) (hne : text' ≠ []) (behind : List Char) :
    kind.goesOn text (text' ++ behind) = kind.goesOn text text' := by
  cases kind <;> first | rfl | (cases hp; done) | exact headIs_append hne _ behind

/-- Tokens that stay apart without a space do not clash. -/
theorem not_clashes_of_staysApart {left right : TokenKind} (hapart : left.staysApart right = true)
    (hspace : left.needsSpace right = false) : left.clashes right = false := by
  rw [TokenKind.staysApart, hspace, Bool.false_or, Bool.not_eq_true'] at hapart
  exact hapart

/-- **A token ends before one that it stays apart from**, if no space is needed. -/
theorem goesOn_of_staysApart {left right : TokenKind} {text text' : List Char}
    (htoken : IsToken left text) (htoken' : IsToken right text')
    (hleft : left.isTrivia = false ∧ left.isError = false)
    (hright : right.isTrivia = false ∧ right.isError = false)
    (hapart : left.staysApart right = true) (hspace : left.needsSpace right = false)
    (behind : List Char) : left.goesOn text (text' ++ behind) = false := by
  have hne := htoken'.ne_nil
  have hclashes := not_clashes_of_staysApart hapart hspace
  rcases isWordLike_or_punctuation htoken.hasText hleft.1 hleft.2 with hword | ⟨p, hp⟩ <;>
    rcases isWordLike_or_punctuation htoken'.hasText hright.1 hright.2 with hword' | ⟨q, hq⟩
  · -- words are kept apart by a space
    rw [TokenKind.needsSpace, hword, hword'] at hspace
    cases hspace
  · -- punctuation behind a word: a point behind a number and a parenthesis behind a `$`
    -- parameter clash, and nothing else makes a word longer
    rw [htoken'.text_eq hq]
    refine goesOn_of_isWordLike hword ?_ ?_ ?_
    · cases right <;> first | rfl | (cases hq; done) | (cases hq; rfl)
    · rintro rfl
      cases right <;> first | (cases hq; done) | (cases hclashes; done) | (cases hq; rfl)
    · rintro rfl
      cases right <;> first | (cases hq; done) | (cases hclashes; done) | (cases hq; rfl)
  · -- a word behind punctuation: only a number behind a point clashes
    obtain ⟨hoperator, hdigit⟩ := htoken'.head_of_isWordLike hword'
    refine goesOn_of_punctuation hp (by rwa [headIs_append hne]) ?_
    rintro rfl
    rw [headIs_append hne]
    refine hdigit.resolve_left ?_
    rintro rfl
    cases hclashes
  · rw [TokenKind.clashes, hp, hq, Bool.or_eq_false_iff, Bool.or_eq_false_iff,
      Bool.or_eq_false_iff] at hclashes
    rw [goesOn_append_of_punctuation hp hne, htoken.text_eq hp, htoken'.text_eq hq]
    exact hclashes.1.1.1

/-! ## Reading tokens back -/

/-- At a space the scanner reads blanks. -/
theorem lexeme_space {c : Cursor} {first : Char} {t : List Char} (hr : c.rest = first :: t)
    (h : isSpace first = true) : lexeme c = (.whitespace, c.advance.eatWhile isSpace) := by
  rw [lexeme_cons hr, scan, if_pos h]

/-- Only blanks start with a space. -/
theorem IsToken.headIs_isSpace {kind : TokenKind} {text : List Char} (h : IsToken kind text)
    (htrivia : kind.isTrivia = false) (herror : kind.isError = false) :
    headIs isSpace text = false := by
  cases hspace : headIs isSpace text with
  | false => rfl
  | true =>
    cases text with
    | nil => exact absurd rfl h.ne_nil
    | cons first t =>
      -- on its own, the text would be read as blanks
      have hread := (h.reads (.ofChars (first :: t)) [] (List.append_nil _).symm
        (goesOn_nil _ herror)).1
      rw [lexeme_space rfl hspace] at hread
      rw [← hread] at htrivia
      cases htrivia

/-- **A space is read as blanks.** -/
theorem isToken_space : IsToken .whitespace [' '] := by
  have hne : (Cursor.ofChars [' ']).rest ≠ [] := List.cons_ne_nil _ _
  obtain ⟨text, htoken, hread, -⟩ := exists_isToken hne
  rw [lexeme_space rfl rfl] at htoken hread
  have htext : [' '] = text ++ [] := hread.rest
  rw [List.append_nil] at htext
  rw [htext]
  exact htoken

/-- A token that stands in a tree without errors. -/
structure IsProper (t : Token) : Prop where
  token : IsToken t.kind t.text.toList
  trivia : t.kind.isTrivia = false
  error : t.kind.isError = false

/-- The tokens of a source that a parser sees can be read again, unless they are
malformed. -/
theorem isProper_of_mem_ofSource {source : String} {l : Lexeme}
    (hl : l ∈ (TokenStream.ofSource source).pending) (herror : l.token.kind.isError = false) :
    IsProper l.token := by
  have hmem := List.mem_map_of_mem (f := Lexeme.token) hl
  rw [TokenStream.pending_ofSource, List.mem_filter, Token.isSignificant, Bool.and_eq_true,
    Bool.not_eq_true', Bool.not_eq_true'] at hmem
  obtain ⟨htoken, htrivia, heof⟩ := hmem
  exact ⟨(lexes_tokenize source).isToken_of_mem htoken heof, htrivia, herror⟩

/-- A token is written behind another with a space where it is needed. -/
theorem toList_sourceAfter_cons {previous : TokenKind} {t : Token} (ht : IsProper t)
    (rest : List Token) :
    (Tree.sourceAfter (some previous) (t :: rest)).toList
      = (if previous.needsSpace t.kind then [' '] else [])
        ++ (t.text.toList ++ (Tree.sourceAfter (some t.kind) rest).toList) := by
  have hlexeme : t.lexeme? = some t.text := by
    rw [Token.lexeme?, Token.isEof, ht.token.isEof_eq_false, if_neg Bool.false_ne_true]
  rw [Tree.sourceAfter, hlexeme]
  dsimp only
  rw [Option.any_some, String.toList_append, String.toList_append, List.append_assoc]
  cases previous.needsSpace t.kind <;> rfl

/-- **A token ends before what is written behind it.** -/
theorem goesOn_sourceAfter {t : Token} {rest : List Token} {last : TokenKind} (ht : IsProper t)
    (h : Adjoins t.kind rest last) (hrest : ∀ t ∈ rest, IsProper t) :
    t.kind.goesOn t.text.toList (Tree.sourceAfter (some t.kind) rest).toList = false := by
  cases h with
  | nil => exact goesOn_nil _ ht.error
  | @cons _ _ t' rest apart proper behind =>
    have ht' := hrest t' List.mem_cons_self
    rw [toList_sourceAfter_cons ht']
    cases hspace : t.kind.needsSpace t'.kind with
    | true => exact goesOn_space _ _ ht.trivia ht.error
    | false =>
      exact goesOn_of_staysApart ht.token ht'.token ⟨ht.trivia, ht.error⟩
        ⟨ht'.trivia, ht'.error⟩ apart hspace _

/-- What a reader tells of a token: its kind and its text, but not where it
stands. -/
def reading (t : Token) : TokenKind × String := (t.kind, t.text)

theorem IsProper.isSignificant {t : Token} (h : IsProper t) (pos : Nat) :
    (tokenAt pos t.kind t.text.toList).isSignificant = true := by
  show (!t.kind.isTrivia && !t.kind.isEof) = true
  rw [h.trivia, h.token.isEof_eq_false]
  rfl

/-- **Tokens that stay apart are read back** from the text they are written as,
with nothing but blanks between them. -/
theorem exists_lexes_sourceAfter {previous last : TokenKind} {ts : List Token}
    (h : Adjoins previous ts last) (hts : ∀ t ∈ ts, IsProper t) (pos : Nat) :
    ∃ tokens, Lexes pos (Tree.sourceAfter (some previous) ts).toList tokens
      ∧ (tokens.filter Token.isSignificant).map reading = ts.map reading := by
  induction h generalizing pos with
  | nil => exact ⟨_, .nil pos, rfl⟩
  | @cons previous last t rest apart proper behind ih =>
    obtain ⟨ht, hrest⟩ := List.forall_mem_cons.1 hts
    -- the token itself, wherever it is written
    have hread : ∀ pos, ∃ tokens,
        Lexes pos (t.text.toList ++ (Tree.sourceAfter (some t.kind) rest).toList) tokens
          ∧ (tokens.filter Token.isSignificant).map reading = (t :: rest).map reading := by
      intro pos
      obtain ⟨tokens, hlexes, hreading⟩ := ih hrest (pos + String.utf8Len t.text.toList)
      refine ⟨_, .cons ht.token (goesOn_sourceAfter ht behind hrest) hlexes, ?_⟩
      rw [List.filter_cons, if_pos (ht.isSignificant pos), List.map_cons, hreading, List.map_cons,
        reading, tokenAt, String.ofList_toList]
      rfl
    rw [toList_sourceAfter_cons ht]
    cases previous.needsSpace t.kind with
    | false => exact hread pos
    | true =>
      obtain ⟨tokens, hlexes, hreading⟩ := hread (pos + String.utf8Len [' '])
      refine ⟨_, .cons isToken_space ?_ hlexes, hreading⟩
      show headIs isSpace _ = false
      rw [headIs_append ht.token.ne_nil]
      exact ht.token.headIs_isSpace ht.trivia ht.error

end Lexer

/-! ## What is written -/

namespace Tree

/-- The end of the input is not written. -/
theorem sourceAfter_filter (previous : Option TokenKind) (ts : List Token) :
    sourceAfter previous (ts.filter fun t => !t.isEof) = sourceAfter previous ts := by
  induction ts generalizing previous with
  | nil => rfl
  | cons t ts ih =>
    cases heof : t.isEof with
    | true =>
      have hlexeme : t.lexeme? = none := by rw [Token.lexeme?, if_pos heof]
      rw [List.filter_cons, heof, sourceAfter, hlexeme]
      exact ih previous
    | false =>
      have hlexeme : t.lexeme? = some t.text := by
        rw [Token.lexeme?, heof, if_neg Bool.false_ne_true]
      rw [List.filter_cons, heof, sourceAfter, hlexeme]
      show sourceAfter previous (t :: ts.filter fun t => !t.isEof) = _
      rw [sourceAfter, hlexeme]
      dsimp only
      rw [ih]

/-- Behind a semicolon tokens are written as at the start. -/
theorem sourceAfter_semicolon (ts : List Token) :
    sourceAfter (some .semicolon) ts = sourceAfter none ts := by
  induction ts with
  | nil => rfl
  | cons t ts ih =>
    rw [sourceAfter, sourceAfter, ih]
    rfl

end Tree

end TolerantSql
