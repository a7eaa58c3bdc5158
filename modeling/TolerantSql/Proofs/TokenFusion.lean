import TolerantSql.Proofs.Quoting
import TolerantSql.Proofs.TokenCharacters

/-!
# Tokens that run together

The rule for spaces between tokens looks at kinds only, and asks for a space between two
words, two dashes, and a slash and a star. `Token.Fuses` lists the other pairs that are
not read back when one is written right behind the other: operators that make a longer
operator or a comment, a point and a number on either side of it, and a `$` parameter and
a parenthesis. The list is exact (`tokenize_append_iff`): two tokens that are read one by
one, and need no space, are read one behind the other if and only if they are not on it.

That a token ends before another is for most pairs a question of their kinds. A number
and a `$` parameter are the exceptions, whose own texts decide; what the text of a number
or a parameter must have in it is read off the lexical grammar.
-/

namespace TolerantSql

/-! ## The pairs -/

/-- The operators whose first character makes an operator longer, or into something
else. -/
def TokenKind.absorbs : TokenKind → List TokenKind
  | minus => [gt, gtEq, rightShift, arrow, doubleArrow]
  | arrow => [gt, gtEq, rightShift]
  | eq => [eq, eqEq]
  | lt => [eq, eqEq, lt, ltEq, ltGt, leftShift, gt, gtEq, rightShift]
  | gt => [eq, eqEq, gt, gtEq, rightShift]
  | bitOr => [bitOr, concat]
  | _ => []

/-- **Tokens that run together** though no space is asked for between them. -/
inductive Token.Fuses (l r : Token) : Prop where
  /-- An operator that the next one makes longer. -/
  | operators (absorbed : r.kind ∈ l.kind.absorbs)
  /-- A point before digits, which become its number. -/
  | point (dot : l.kind = .dot) (numeric : r.kind = .numeric)
    (digit : Lexer.headIs Char.isDigit r.text.toList = true)
  /-- A whole number before a point, which becomes its own. -/
  | number (numeric : l.kind = .numeric) (dot : r.kind = .dot)
    (notHexadecimal : l.text.toList ∉ Lexicon.hexadecimal)
    (noPoint : '.' ∉ l.text.toList)
    (noExponent : l.text.toList ∉ Lexicon.decimal * Lexicon.exponent)
  /-- A parameter without a suffix before a parenthesis, which opens one. -/
  | parameter (dollar : l.kind = .dollarVariable) (leftParen : r.kind = .leftParen)
    (noSuffix : '(' ∉ l.text.toList)

namespace Lexer

/-! ## Numbers before a point -/

section Numbers

variable {text : List Char}

/-- The hexadecimal numbers are those with an `x` in them. -/
theorem any_hexMark_iff (h : text ∈ Lexicon.number) :
    (text.any fun ch => ch == 'x' || ch == 'X') = true ↔ text ∈ Lexicon.hexadecimal := by
  constructor
  · intro hmark
    refine h.resolve_right fun hdecimal => ?_
    have hlower : Lexicon.Lacks 'x' (Lexicon.decimal * Lexicon.opt Lexicon.exponent) :=
      (Lexicon.lacks_decimal rfl (by decide) (by decide)).mul
        (Lexicon.lacks_exponent rfl rfl rfl (by decide)).opt
    have hupper : Lexicon.Lacks 'X' (Lexicon.decimal * Lexicon.opt Lexicon.exponent) :=
      (Lexicon.lacks_decimal rfl (by decide) (by decide)).mul
        (Lexicon.lacks_exponent rfl rfl rfl (by decide)).opt
    rw [hlower.any_eq_false hupper hdecimal] at hmark
    cases hmark
  · intro hhex
    obtain ⟨t, ht, rfl⟩ := Lexicon.mem_just_mul.1 hhex
    obtain ⟨c, t, hc, -, rfl⟩ := Lexicon.mem_one_mul.1 ht
    exact List.any_eq_true.2 ⟨c, by simp, hc⟩

/-- The decimal numbers with an exponent are those with an `e` in them. -/
theorem any_exponentMark_iff (h : text ∈ Lexicon.decimal * Lexicon.opt Lexicon.exponent) :
    (text.any fun ch => ch == 'e' || ch == 'E') = true
      ↔ text ∈ Lexicon.decimal * Lexicon.exponent := by
  constructor
  · intro hmark
    obtain ⟨d, hd, e, rfl | he, rfl⟩ := h
    · have hlower : Lexicon.Lacks 'e' Lexicon.decimal :=
        Lexicon.lacks_decimal rfl (by decide) (by decide)
      have hupper : Lexicon.Lacks 'E' Lexicon.decimal :=
        Lexicon.lacks_decimal rfl (by decide) (by decide)
      have hnone : ((d ++ []).any fun ch => ch == 'e' || ch == 'E') = false := by
        rw [List.append_nil, hlower.any_eq_false hupper hd]
      rw [hnone] at hmark
      cases hmark
    · exact ⟨d, hd, e, he, rfl⟩
  · rintro ⟨d, -, e, he, rfl⟩
    obtain ⟨c, t, hc, -, rfl⟩ := Lexicon.mem_one_mul.1 he
    exact List.any_eq_true.2 ⟨c, by simp, hc⟩

/-- A point makes a number longer unless it is hexadecimal, or has an exponent or a
point. -/
theorem numberGoesOn_point (text : List Char) : numberGoesOn text ['.'] =
    (!(text.any fun ch => ch == 'x' || ch == 'X')
      && (!(text.any fun ch => ch == 'e' || ch == 'E') && !text.contains '.')) := by
  have hdigits : ∀ afterDigit, digitsGoOn Char.isDigit afterDigit ['.'] = false := fun _ => rfl
  have hexponent : exponentFollows ['.'] = false := rfl
  have hhex : hexFollows ['.'] = false := rfl
  rw [numberGoesOn, decimalGoesOn, hdigits, hdigits, hexponent, hhex, headIs_cons]
  cases text.any fun ch => ch == 'x' || ch == 'X'
  · cases text.any fun ch => ch == 'e' || ch == 'E' <;> simp
  · rfl

/-- **The numbers that a point makes longer.** -/
theorem numberGoesOn_point_iff (h : text ∈ Lexicon.number) :
    numberGoesOn text ['.'] = true ↔ text ∉ Lexicon.hexadecimal ∧ '.' ∉ text
      ∧ text ∉ Lexicon.decimal * Lexicon.exponent := by
  rw [numberGoesOn_point, Bool.and_eq_true, Bool.and_eq_true, Bool.not_eq_true',
    Bool.not_eq_true', Bool.not_eq_true', List.contains_eq_mem, decide_eq_false_iff_not,
    ← Bool.not_eq_true, ← Bool.not_eq_true, any_hexMark_iff h]
  refine and_congr_right fun hhex => ?_
  rw [any_exponentMark_iff (h.resolve_left hhex)]
  exact and_comm

end Numbers

/-- **The parameters with a suffix** are those with a parenthesis in them. -/
theorem getLast?_dollarParameter_iff {text : List Char} (h : text ∈ Lexicon.dollarParameter) :
    text.getLast? ≠ some ')' ↔ '(' ∉ text := by
  rw [Lexicon.dollarParameter, ← mul_assoc (Lexicon.run isWordChar)] at h
  obtain ⟨_, ⟨path, hpath, suffix, hsuffix, rfl⟩, rfl⟩ := Lexicon.mem_just_mul.1 h
  rcases hsuffix with rfl | hsuffix
  · have hlacks : ∀ c, isWordChar c = false → c ≠ ':' → c ≠ '$' →
        c ∉ "$".toList ++ (path ++ []) := by
      intro c hword hcolon hdollar hmem
      have hmem : c = '$' ∨ c ∈ path := by simpa using hmem
      exact Lexicon.lacks_path hword hcolon path hpath (hmem.resolve_left hdollar)
    refine iff_of_true (fun hlast => ?_) (hlacks '(' rfl (by decide) (by decide))
    exact hlacks ')' rfl (by decide) (by decide) (List.mem_of_getLast? hlast)
  · obtain ⟨s, -, rfl⟩ := mem_enclosed_iff.1 hsuffix
    refine iff_of_false (fun hlast => hlast ?_) (fun hparen => hparen ?_)
    · rw [← List.cons_append, ← List.append_assoc, ← List.append_assoc, List.getLast?_concat]
    · simp

/-! ## One token before another -/

section Pairs

variable {left right : TokenKind} {text text' : List Char} {p q : String}

/-- The table is about operators. -/
theorem punctuation_of_mem_absorbs (left : TokenKind) : ∀ right ∈ left.absorbs,
    left.punctuation?.isSome = true ∧ right.punctuation?.isSome = true := by
  cases left <;> first | decide | exact nofun

/-- **Operators before operators**: the table says which go on. -/
theorem goesOn_operators_iff (hp : left.punctuation? = some p) (hq : right.punctuation? = some q)
    (hspace : left.needsSpace right = false) :
    left.goesOn p.toList q.toList = true ↔ right ∈ left.absorbs := by
  cases left <;> first
    | (cases hp; done)
    | exact iff_of_false Bool.false_ne_true List.not_mem_nil
    | (cases hp
       cases right <;> first
        | (cases hq; done)
        | (cases hspace; done)
        | (cases hq; decide))

/-- **Words before punctuation**: only a number before a point and a `$` parameter before a
parenthesis can go on. -/
theorem kinds_of_word_goesOn (hword : left.isWordLike = true) (hq : right.punctuation? = some q)
    (hgoes : left.goesOn text q.toList = true) :
    (left = .numeric ∧ right = .dot) ∨ (left = .dollarVariable ∧ right = .leftParen) := by
  by_contra! hnot
  obtain ⟨hnumber, hparameter⟩ := hnot
  have hstops : left.goesOn text q.toList = false := by
    refine goesOn_of_isWordLike hword ?_ (fun hleft => ?_) fun hleft => ?_
    · cases right <;> first | (cases hq; done) | (cases hq; rfl)
    · have hright := hnumber hleft
      cases right <;> first | (cases hq; done) | exact absurd rfl hright | (cases hq; rfl)
    · have hright := hparameter hleft
      cases right <;> first | (cases hq; done) | exact absurd rfl hright | (cases hq; rfl)
  rw [hstops] at hgoes
  cases hgoes

/-- **Punctuation before words**: only a point before a number can go on. -/
theorem kinds_of_goesOn_word (hp : left.punctuation? = some p) (token : IsToken right text')
    (hword : right.isWordLike = true) (hgoes : left.goesOn text text' = true) :
    left = .dot ∧ right = .numeric := by
  obtain ⟨hoperator, hdigit⟩ := token.head_of_isWordLike hword
  by_contra! hnot
  have hstops : left.goesOn text text' = false :=
    goesOn_of_punctuation hp hoperator fun hleft => hdigit.resolve_left (hnot hleft)
  rw [hstops] at hgoes
  cases hgoes

end Pairs

section Tokens

variable {l r : Token} (hl : IsProper l) (hr : IsProper r)
  (hspace : l.kind.needsSpace r.kind = false)

include hl hr hspace

/-- Tokens that go on into another run together with it. -/
theorem fuses_of_goesOn (h : l.kind.goesOn l.text.toList r.text.toList = true) : l.Fuses r := by
  rcases isWordLike_or_punctuation hl.token.hasText hl.trivia hl.error with hword | ⟨p, hp⟩ <;>
    rcases isWordLike_or_punctuation hr.token.hasText hr.trivia hr.error with hword' | ⟨q, hq⟩
  · -- words are kept apart by a space
    rw [TokenKind.needsSpace, hword, hword'] at hspace
    cases hspace
  · rw [hr.token.text_eq hq] at h
    obtain ⟨hleft, hright⟩ | ⟨hleft, hright⟩ := kinds_of_word_goesOn hword hq h
    · have hnumber := (isToken_iff_mem_lexicon rfl).1 (hleft ▸ hl.token)
      rw [hright] at hq
      rw [hleft, ← Option.some.inj hq] at h
      obtain ⟨hhex, hpoint, hexponent⟩ := (numberGoesOn_point_iff hnumber).1 h
      exact .number hleft hright hhex hpoint hexponent
    · have hparameter := (isToken_iff_mem_lexicon rfl).1 (hleft ▸ hl.token)
      rw [hleft] at h
      have hlast := bne_iff_ne.1 (Bool.and_eq_true_iff.1 h).1
      exact .parameter hleft hright ((getLast?_dollarParameter_iff hparameter).1 hlast)
  · obtain ⟨hleft, hright⟩ := kinds_of_goesOn_word hp hr.token hword' h
    rw [hleft] at h
    exact .point hleft hright h
  · rw [hl.token.text_eq hp, hr.token.text_eq hq, goesOn_operators_iff hp hq hspace] at h
    exact .operators h

/-- Tokens that run together go on one into the other. -/
theorem goesOn_of_fuses (h : l.Fuses r) : l.kind.goesOn l.text.toList r.text.toList = true := by
  cases h with
  | operators absorbed =>
    obtain ⟨hleft, hright⟩ := punctuation_of_mem_absorbs _ _ absorbed
    obtain ⟨p, hp⟩ := Option.isSome_iff_exists.1 hleft
    obtain ⟨q, hq⟩ := Option.isSome_iff_exists.1 hright
    rw [hl.token.text_eq hp, hr.token.text_eq hq]
    exact (goesOn_operators_iff hp hq hspace).2 absorbed
  | point dot numeric digit =>
    rw [dot]
    exact digit
  | number numeric dot notHexadecimal noPoint noExponent =>
    have hnumber := (isToken_iff_mem_lexicon rfl).1 (numeric ▸ hl.token)
    have htext : r.text.toList = ['.'] := (dot ▸ hr.token).text_eq rfl
    rw [numeric, htext]
    exact (numberGoesOn_point_iff hnumber).2 ⟨notHexadecimal, noPoint, noExponent⟩
  | parameter dollar leftParen noSuffix =>
    have hparameter := (isToken_iff_mem_lexicon rfl).1 (dollar ▸ hl.token)
    have htext : r.text.toList = ['('] := (leftParen ▸ hr.token).text_eq rfl
    have hlast := (getLast?_dollarParameter_iff hparameter).2 noSuffix
    rw [dollar, htext]
    exact Bool.and_eq_true_iff.2 ⟨bne_iff_ne.2 hlast, rfl⟩

/-- **A token ends before another if and only if they do not run together.** -/
theorem goesOn_eq_false_iff_not_fuses :
    l.kind.goesOn l.text.toList r.text.toList = false ↔ ¬ l.Fuses r := by
  rw [← Bool.not_eq_true]
  exact not_congr ⟨fuses_of_goesOn hl hr hspace, goesOn_of_fuses hl hr hspace⟩

end Tokens

/-! ## Two sources of one token -/

/-- The token of a source that has only one. -/
theorem isProper_of_tokenize {source : String} {t eof : Token} (h : tokenize source = [t, eof])
    (herror : t.kind.isError = false) (htrivia : t.kind.isTrivia = false) :
    IsProper t ∧ t = ⟨t.kind, source, ⟨0, source.utf8ByteSize⟩⟩ := by
  obtain ⟨kind, text, behind, hsource, rfl, token, -, hrest⟩ :=
    (tokenize_eq_iff.1 h).of_cons (List.cons_ne_nil _ _)
  obtain ⟨rfl, -⟩ := hrest.of_singleton
  obtain rfl : source.toList = text := by rwa [List.append_nil] at hsource
  rw [tokenAt_zero_toList] at herror htrivia ⊢
  exact ⟨⟨token, htrivia, herror⟩, rfl⟩

end Lexer

open Lexer in
/-- **What the rule for spaces leaves to be told.** Two tokens that are read one by one,
and between which no space is asked for, are read one behind the other if and only if
they do not run together. -/
theorem tokenize_append_iff {u v : String} {l r : Token}
    (hu : tokenize u = [l, .eof u.utf8ByteSize]) (hv : tokenize v = [r, .eof v.utf8ByteSize])
    (hl : l.kind.isError = false ∧ l.kind.isTrivia = false)
    (hr : r.kind.isError = false ∧ r.kind.isTrivia = false)
    (hspace : l.kind.needsSpace r.kind = false) :
    tokenize (u ++ v) = [l, r.shift u.utf8ByteSize, .eof (u ++ v).utf8ByteSize] ↔ ¬ l.Fuses r := by
  obtain ⟨hproper, hleft⟩ := isProper_of_tokenize hu hl.1 hl.2
  obtain ⟨hproper', hright⟩ := isProper_of_tokenize hv hr.1 hr.2
  have htext : l.text = u := congrArg Token.text hleft
  have htext' : r.text = v := congrArg Token.text hright
  rw [← goesOn_eq_false_iff_not_fuses hproper hproper' hspace, htext, htext']
  constructor
  · intro htokens
    obtain ⟨kind, text, behind, hsource, htoken, -, stops, -⟩ :=
      (tokenize_eq_iff.1 htokens).of_cons (List.cons_ne_nil _ _)
    obtain rfl : text = u.toList := by
      rw [← htext, htoken, tokenAt, String.toList_ofList]
    obtain rfl : behind = v.toList := by
      rw [String.toList_append] at hsource
      exact (List.append_cancel_left hsource).symm
    rw [htoken]
    exact stops
  · intro stops
    have token : IsToken l.kind u.toList := htext ▸ hproper.token
    rw [tokenize_token_append token stops, ← hleft, hv, List.map_cons, List.map_singleton,
      String.utf8ByteSize_append, Nat.add_comm]
    rfl

/-- A parenthesis is read as such behind a parameter with a suffix, but not behind one
without. -/
theorem tokenize_append_iff_parameter :
    tokenize ("$a(x)" ++ "(")
        = [⟨.dollarVariable, "$a(x)", ⟨0, 5⟩⟩, ⟨.leftParen, "(", ⟨5, 6⟩⟩, .eof 6]
      ∧ tokenize ("$a" ++ "(")
        ≠ [⟨.dollarVariable, "$a", ⟨0, 2⟩⟩, ⟨.leftParen, "(", ⟨2, 3⟩⟩, .eof 3] := by
  have hsuffix : tokenize "$a(x)" = [⟨.dollarVariable, "$a(x)", ⟨0, 5⟩⟩, .eof 5] := by
    decide +kernel
  have hbare : tokenize "$a" = [⟨.dollarVariable, "$a", ⟨0, 2⟩⟩, .eof 2] := by decide +kernel
  have hparen : tokenize "(" = [⟨.leftParen, "(", ⟨0, 1⟩⟩, .eof 1] := by decide +kernel
  constructor
  · refine (tokenize_append_iff hsuffix hparen ⟨rfl, rfl⟩ ⟨rfl, rfl⟩ rfl).2 fun hfuses => ?_
    cases hfuses with
    | operators absorbed => cases absorbed
    | point dot => cases dot
    | number numeric => cases numeric
    | parameter _ _ noSuffix => exact noSuffix (by decide)
  · intro htokens
    exact (tokenize_append_iff hbare hparen ⟨rfl, rfl⟩ ⟨rfl, rfl⟩ rfl).1 htokens
      (.parameter rfl rfl (by decide))

end TolerantSql
