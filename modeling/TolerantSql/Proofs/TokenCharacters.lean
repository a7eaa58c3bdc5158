import TolerantSql.Proofs.LexicalGrammar

/-!
# Characters that do not occur in tokens

That a character occurs in no text of a language follows from the way the language is
put together: it is so of alternatives, sequences and repetitions if it is so of their
parts (`Lexicon.Lacks`). For the languages of the lexical grammar this leaves only the
classes of characters to look at. A line break, for one, occurs in few kinds of tokens
(`TokenKind.lacks_lineBreak`).
-/

open Computability

namespace TolerantSql

namespace Lexicon

open Lexer

/-- **A character that occurs in no text of a language.** -/
def Lacks (c : Char) (l : Language Char) : Prop := ∀ w ∈ l, c ∉ w

variable {c : Char} {l m : Language Char}

theorem lacks_one {p : Char → Bool} (h : p c = false) : Lacks c (one p) := by
  rintro _ ⟨ch, hch, rfl⟩ hmem
  obtain rfl := List.mem_singleton.1 hmem
  rw [h] at hch
  cases hch

theorem lacks_just {s : String} (h : c ∉ s.toList) : Lacks c (just s) := by
  rintro _ rfl
  exact h

namespace Lacks

theorem add (h : Lacks c l) (h' : Lacks c m) : Lacks c (l + m) := by
  rintro w (hw | hw)
  · exact h w hw
  · exact h' w hw

theorem mul (h : Lacks c l) (h' : Lacks c m) : Lacks c (l * m) := by
  rintro _ ⟨u, hu, v, hv, rfl⟩ hmem
  rcases List.mem_append.1 hmem with hmem | hmem
  · exact h u hu hmem
  · exact h' v hv hmem

theorem kstar (h : Lacks c l) : Lacks c (l∗) := by
  intro w hw
  induction hw using kstar_induction with
  | nil => exact List.not_mem_nil
  | append u v hu _ ih =>
    intro hmem
    rcases List.mem_append.1 hmem with hmem | hmem
    · exact h u hu hmem
    · exact ih hmem

theorem opt (h : Lacks c l) : Lacks c (opt l) := by
  rintro w (rfl | hw)
  · exact List.not_mem_nil
  · exact h w hw

/-- A search for two characters that do not occur fails. -/
theorem any_eq_false {c' : Char} (h : Lacks c l) (h' : Lacks c' l) {w : List Char} (hw : w ∈ l) :
    (w.any fun ch => ch == c || ch == c') = false := by
  refine List.any_eq_false.2 fun ch hch => ?_
  rw [Bool.or_eq_true, beq_iff_eq, beq_iff_eq]
  rintro (rfl | rfl)
  · exact h w hw hch
  · exact h' w hw hch

end Lacks

/-! ## The parts of the lexical grammar -/

theorem lacks_run {p : Char → Bool} (h : p c = false) : Lacks c (run p) :=
  (lacks_one h).mul (lacks_one h).kstar

theorem lacks_digits {isDigit : Char → Bool} (hdigit : isDigit c = false) (hunder : c ≠ '_') :
    Lacks c (digits isDigit) := by
  have hjust : Lacks c (just "_") := lacks_just (by simpa using hunder)
  exact (lacks_one hdigit).mul (hjust.opt.mul (lacks_one hdigit)).kstar

/-- Decimal numbers are made of digits, underscores and a point. -/
theorem lacks_decimal (hdigit : c.isDigit = false) (hunder : c ≠ '_') (hpoint : c ≠ '.') :
    Lacks c decimal := by
  have hdigits := lacks_digits hdigit hunder
  have hjust : Lacks c (just ".") := lacks_just (by simpa using hpoint)
  exact (hdigits.mul (hjust.mul hdigits.opt).opt).add (hjust.mul hdigits)

/-- The name of a `$` parameter, with the segments behind it, is made of characters of a
word and colons. -/
theorem lacks_path (hword : isWordChar c = false) (hcolon : c ≠ ':') :
    Lacks c (run isWordChar * (just "::" * run isWordChar)∗) := by
  have hjust : Lacks c (just "::") := lacks_just (by simpa using hcolon)
  exact (lacks_run hword).mul (hjust.mul (lacks_run hword)).kstar

/-- Exponents are made of digits and underscores behind a mark and a sign. -/
theorem lacks_exponent (hmark : (c == 'e' || c == 'E') = false)
    (hsign : (c == '+' || c == '-') = false) (hdigit : c.isDigit = false) (hunder : c ≠ '_') :
    Lacks c exponent :=
  (lacks_one hmark).mul ((lacks_one hsign).opt.mul (lacks_digits hdigit hunder))

/-- Numbers stand on one line. -/
theorem lacks_number_lineBreak : Lacks '\n' number := by
  have hhex : Lacks '\n' (digits isHexDigit) := lacks_digits rfl (by decide)
  have hdecimal : Lacks '\n' decimal := lacks_decimal rfl (by decide) (by decide)
  have hexponent : Lacks '\n' exponent := lacks_exponent rfl rfl rfl (by decide)
  exact ((lacks_just (by decide)).mul ((lacks_one rfl).mul hhex)).add (hdecimal.mul hexponent.opt)

end Lexicon

/-- **Kinds of tokens that a line break may stand in**: quoted texts, the suffix of a `$`
parameter, blanks, comments in slashes and stars, and malformed text. -/
def TokenKind.spansLines : TokenKind → Bool
  | .identifier | .string | .dollarVariable | .whitespace | .blockComment | .error _ => true
  | _ => false

open Lexer Lexicon in
/-- **No other token has a line break in it.** -/
theorem TokenKind.lacks_lineBreak {kind : TokenKind} (h : kind.spansLines = false) :
    Lacks '\n' kind.lexicon := by
  have hname : Lacks '\n' (run isWordChar) := lacks_run rfl
  have hquote : Lacks '\n' (just "'") := lacks_just (by decide)
  cases kind with
  | keyword k => exact fun w hw => (lacks_one rfl).mul (lacks_one rfl).kstar w hw.1
  | blob => exact (lacks_one rfl).mul (hquote.mul ((lacks_one rfl).kstar.mul hquote))
  | numeric => exact lacks_number_lineBreak
  | lineComment => exact (lacks_just (by decide)).mul (lacks_one rfl).kstar
  | questionVariable => exact (lacks_just (by decide)).mul (lacks_one rfl).kstar
  | colonVariable => exact (lacks_just (by decide)).mul hname
  | atVariable => exact (lacks_just (by decide)).mul hname
  | eof => exact nofun
  | extension kind => exact nofun
  | _ => first | (cases h; done) | exact lacks_just (by decide)

end TolerantSql
