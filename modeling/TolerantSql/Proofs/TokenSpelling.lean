import TolerantSql.Proofs.TokenMunch

/-!
# How tokens are spelled

The kind of a token says something about its text: punctuation has one spelling
each, and a word-like token never starts with a character that an operator could
end in. `TokenKind.spells` puts this into one test, and `spells_lexeme` says that
every token passes it. What a token may be followed by can then be decided by the
kind of the token behind it alone.
-/

namespace TolerantSql

namespace Lexer

/-- The characters that make an operator before them longer, or a slash the
opening of a comment. -/
def lengthensOperator (ch : Char) : Bool := ['-', '>', '*', '=', '<', '|'].contains ch

end Lexer

/-- Kinds that text can have: the end of the input has none, and no text is of a
kind made outside the scanner. -/
def TokenKind.hasText : TokenKind → Bool
  | .eof | .extension _ => false
  | _ => true

open Lexer in
/-- **Whether a kind can be spelled by a text**: punctuation by its one spelling
only, and a word-like token by none that starts like an operator or, unless it is a
number, with a digit. -/
def TokenKind.spells (kind : TokenKind) (text : List Char) : Bool :=
  kind.hasText && kind.punctuation?.all (fun p => text == p.toList)
    && (!kind.isWordLike
      || (!headIs lengthensOperator text && (kind == .numeric || !headIs Char.isDigit text)))

namespace Lexer

open Cursor

variable {c : Cursor} {text : List Char}

/-- A scanner that finds one of two kinds. -/
theorem spells_ite {kind kind' : TokenKind} {t : List Char} (b : Bool) (h : kind.spells t = true)
    (h' : kind'.spells t = true) : (if b then kind else kind').spells t = true := by
  cases b
  · exact h'
  · exact h

/-- Operators of up to two characters. -/
theorem spells_pick {first : Char} {table : Char → Option TokenKind} {otherwise : TokenKind}
    (hlong : ∀ ch kind, table ch = some kind → kind.spells [first, ch] = true)
    (hshort : otherwise.spells [first] = true) (h : Reads c text (pick table otherwise c).2) :
    (pick table otherwise c).1.spells (first :: text) = true := by
  cases hr : c.rest with
  | nil =>
    have heq : pick table otherwise c = (otherwise, c) := by rw [pick, peek_nil hr]; rfl
    rw [heq] at h ⊢
    rw [h.text_unique (Reads.refl c) rfl]
    exact hshort
  | cons ch t =>
    rw [pick_cons hr] at h ⊢
    cases htable : table ch with
    | none =>
      rw [htable] at h
      rw [h.text_unique (Reads.refl c) rfl]
      exact hshort
    | some kind =>
      rw [htable] at h
      rw [h.text_unique (reads_advance hr) rfl]
      exact hlong ch kind htable

theorem spells_either {first second : Char} {long short : TokenKind}
    (hlong : long.spells [first, second] = true) (hshort : short.spells [first] = true)
    (h : Reads c text (either second long short c).2) :
    (either second long short c).1.spells (first :: text) = true := by
  rw [either_eq] at h ⊢
  refine spells_pick (fun ch kind hkind => ?_) hshort h
  split at hkind
  · next heq => cases hkind; rw [heq]; exact hlong
  · cases hkind

theorem spells_dash (h : Reads c text (dash c).2) : (dash c).1.spells ('-' :: text) = true := by
  rcases eat_cases c '-' with ⟨hr, heat⟩ | ⟨-, heat⟩
  · rw [dash, heat]
    rfl
  · rcases eat_cases c '>' with ⟨hr, heat'⟩ | ⟨-, heat'⟩
    · rcases eat_cases c.advance '>' with ⟨hr', heat''⟩ | ⟨-, heat''⟩
      · have heq : dash c = (.doubleArrow, c.advance.advance) := by
          rw [dash, heat]; dsimp only; rw [heat']; dsimp only; rw [heat'']
        rw [heq] at h ⊢
        rw [h.text_unique ((reads_advance hr).trans (reads_advance hr')) rfl]
        rfl
      · have heq : dash c = (.arrow, c.advance) := by
          rw [dash, heat]; dsimp only; rw [heat']; dsimp only; rw [heat'']
        rw [heq] at h ⊢
        rw [h.text_unique (reads_advance hr) rfl]
        rfl
    · have heq : dash c = (.minus, c) := by
        rw [dash, heat]; dsimp only; rw [heat']
      rw [heq] at h ⊢
      rw [h.text_unique (Reads.refl c) rfl]
      rfl

theorem spells_slash (h : Reads c text (slash c).2) : (slash c).1.spells ('/' :: text) = true := by
  rcases eat_cases c '*' with ⟨hr, heat⟩ | ⟨-, heat⟩
  · rw [slash, heat]
    rfl
  · rw [slash, heat] at h ⊢
    rw [h.text_unique (Reads.refl c) rfl]
    rfl

theorem spells_bang (h : Reads c text (bang c).2) : (bang c).1.spells ('!' :: text) = true := by
  rcases eat_cases c '=' with ⟨hr, heat⟩ | ⟨-, heat⟩
  · rw [bang, heat] at h ⊢
    rw [h.text_unique (reads_advance hr) rfl]
    rfl
  · rw [bang, heat]
    dsimp only
    split <;> rfl

theorem spells_dot (h : Reads c text (dot c).2) : (dot c).1.spells ('.' :: text) = true := by
  rw [dot] at h ⊢
  split at h
  · next hdigit => rw [if_pos hdigit]; rfl
  · next hdigit =>
    rw [if_neg hdigit, h.text_unique (Reads.refl c) rfl]
    rfl

theorem spells_namedVariable {sigil : Char} {kind : TokenKind}
    (hkind : kind.spells (sigil :: text) = true) :
    (namedVariable sigil kind c).1.spells (sigil :: text) = true := by
  cases hr : c.rest with
  | nil => rw [namedVariable_nil hr]; rfl
  | cons ch t =>
    rw [namedVariable_cons hr]
    split
    · exact hkind
    · rfl

theorem spells_dollarVariable : (dollarVariable c).1.spells ('$' :: text) = true := by
  cases hword : headIs isWordChar c.rest with
  | false =>
    rw [dollarVariable_of_not hword]
    exact spells_namedVariable rfl
  | true =>
    obtain ⟨_, -, hkind⟩ := munches_dollarSuffix (pathSegments (c.eatWhile isWordChar))
    rw [dollarVariable_word hword]
    rcases hkind with ⟨-, hkind⟩ | ⟨-, hkind, -⟩ | ⟨-, hkind⟩ <;> rw [hkind] <;> rfl

/-- A character of a class without such characters does not make an operator
longer. -/
theorem lengthensOperator_of_class {p : Char → Bool} {ch : Char}
    (hp : ['-', '>', '*', '=', '<', '|'].all (fun ch => !p ch) = true) (h : p ch = true) :
    lengthensOperator ch = false := by
  rw [lengthensOperator, List.contains_eq_mem, decide_eq_false_iff_not]
  intro hmem
  have hnot := List.all_eq_true.1 hp ch hmem
  rw [h] at hnot
  cases hnot

theorem spells_single {first : Char} {kind : TokenKind} (h : single? first = some kind) :
    kind.spells [first] = true := by
  unfold single? at h
  split_ifs at h with h₁ h₂ h₃ h₄ h₅ h₆ h₇ h₈ h₉ <;> cases h <;> subst_vars <;> rfl

/-- The scanner that a character chooses finds a kind that the text spells. -/
theorem Dispatch.spells {first : Char} {scanner : Cursor → Scan} (hchosen : Dispatch first scanner)
    (h : Reads c text (scanner c).2) : (scanner c).1.spells (first :: text) = true := by
  cases hchosen with
  | space => rfl
  | single hsingle =>
    rw [h.text_unique (Reads.refl c) rfl]
    exact spells_single hsingle
  | dash => exact spells_dash h
  | slash => exact spells_slash h
  | equals => exact spells_either rfl rfl h
  | less =>
    rw [less_eq] at h ⊢
    refine spells_pick (fun ch kind hkind => ?_) rfl h
    split_ifs at hkind <;> cases hkind <;> subst_vars <;> rfl
  | greater =>
    rw [greater_eq] at h ⊢
    refine spells_pick (fun ch kind hkind => ?_) rfl h
    split_ifs at hkind <;> cases hkind <;> subst_vars <;> rfl
  | bang => exact spells_bang h
  | bar => exact spells_either rfl rfl h
  | dot => exact spells_dot h
  | string => rw [quoted_eq]; exact spells_ite _ rfl rfl
  | doubleQuote => rw [quoted_eq]; exact spells_ite _ rfl rfl
  | backquote => rw [quoted_eq]; exact spells_ite _ rfl rfl
  | bracket => rw [bracketed_eq]; exact spells_ite _ rfl rfl
  | question => rfl
  | colon => exact spells_namedVariable rfl
  | atSign => exact spells_namedVariable rfl
  | dollar => exact spells_dollarVariable
  | digit hdigit =>
    have hne := lengthensOperator_of_class rfl hdigit
    show (true && true && (_ || (!lengthensOperator first && _))) = true
    rw [hne]
    rfl
  | unexpected => rfl

/-- Any kind that is not punctuation can be spelled by a text that starts like a
word. -/
theorem spells_of_isWordStart {first : Char} {kind : TokenKind} (hfirst : isWordStart first = true)
    (hkind : kind.punctuation? = none) (htext : kind.hasText = true) :
    kind.spells (first :: text) = true := by
  rw [TokenKind.spells, hkind, htext, headIs_cons, headIs_cons,
    lengthensOperator_of_class rfl hfirst, isDigit_of_isWordStart hfirst]
  simp

theorem spells_blob {first : Char} (hfirst : isWordStart first = true) :
    (blob c).1.spells (first :: text) = true := by
  show (blobEnd _).1.spells (first :: text) = true
  cases hr : (c.advance.eatWhile isHexDigit).rest with
  | nil => rw [blobEnd_nil hr]; rfl
  | cons ch t =>
    rw [blobEnd_cons hr]
    dsimp only
    split
    · exact spells_of_isWordStart hfirst rfl rfl
    · rfl

theorem spells_wordKind {first : Char} (hfirst : isWordStart first = true) :
    (wordKind (first :: text)).spells (first :: text) = true := by
  unfold wordKind
  split
  · exact spells_of_isWordStart hfirst rfl rfl
  · exact spells_of_isWordStart hfirst rfl rfl

/-- **Every token is spelled as its kind says.** -/
theorem spells_lexeme {first : Char} {t : List Char} (hr : c.rest = first :: t)
    (h : Reads c text (lexeme c).2) : (lexeme c).1.spells text = true := by
  cases hword : isWordStart first with
  | true =>
    cases hblob : opensBlob first t with
    | true =>
      obtain ⟨text', hmunch⟩ := munches_lexeme hr
      rw [h.text_unique hmunch.reads rfl, lexeme_blob hr hblob]
      exact spells_blob hword
    | false =>
      rw [h.text_unique (munches_word hr hword hblob).reads rfl, lexeme_word hr hword hblob]
      exact spells_wordKind hword
  | false =>
    obtain ⟨scanner, hchosen, hscan⟩ := exists_dispatch hword
    obtain ⟨text', hmunch⟩ := hchosen.munches c.advance
    rw [lexeme_cons hr, hscan] at h ⊢
    rw [h.text_unique ((reads_advance hr).trans hmunch.reads) rfl]
    exact hchosen.spells hmunch.reads

end Lexer

end TolerantSql
