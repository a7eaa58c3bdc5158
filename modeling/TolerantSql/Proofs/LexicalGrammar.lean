import Mathlib.Computability.Language
import TolerantSql.Proofs.Relexing

/-!
# The lexical grammar

`TokenKind.lexicon` says what the texts of each kind of token are, as languages over
characters: by classes, alternatives, sequences and repetitions, and not by how a text
is scanned. Malformed text is of no language.

Of repetitions, which the languages are made of, only two things are needed: that one
more text in front makes a repetition again, and induction on them.
-/

open Computability

namespace TolerantSql

/-! ## Languages -/

namespace Lexicon

open Lexer

/-- Texts of one character of a class. -/
def one (p : Char → Bool) : Language Char := {w | ∃ ch, p ch = true ∧ w = [ch]}

/-- One text. -/
def just (s : String) : Language Char := {s.toList}

/-- Texts that may be left out. -/
def opt (l : Language Char) : Language Char := 1 + l

/-- Characters of a class, at least one. -/
def run (p : Char → Bool) : Language Char := one p * (one p)∗

/-- What may stand behind a digit: digits, with a single underscore before each. -/
def moreDigits (isDigit : Char → Bool) : Language Char := (opt (just "_") * one isDigit)∗

/-- Digits, with single underscores between them. -/
def digits (isDigit : Char → Bool) : Language Char := one isDigit * moreDigits isDigit

/-- The exponent of a number. -/
def exponent : Language Char :=
  one (fun ch => ch == 'e' || ch == 'E')
    * (opt (one fun ch => ch == '+' || ch == '-') * digits Char.isDigit)

/-- Hexadecimal numbers. -/
def hexadecimal : Language Char :=
  just "0" * (one (fun ch => ch == 'x' || ch == 'X') * digits isHexDigit)

/-- The point of a number and the digits behind it, if they are there. -/
def fraction : Language Char := opt (just "." * opt (digits Char.isDigit))

/-- Decimal numbers with or without a point, on one side of which there are digits. -/
def decimal : Language Char := digits Char.isDigit * fraction + just "." * digits Char.isDigit

/-- **Numbers.** -/
def number : Language Char := hexadecimal + decimal * opt exponent

/-- Bare words, names and keywords alike. -/
def word : Language Char := one isWordStart * (one isWordChar)∗

/-- Bare words with a property of their spelling in capitals. -/
def wordIn (spelling : Set String) : Language Char :=
  {w | w ∈ word ∧ (String.ofList w).toUpper ∈ spelling}

/-- Texts between quotes, which are doubled inside. -/
def quoted (quote : Char) : Language Char :=
  one (· == quote) * ((one (· != quote) + {[quote, quote]})∗ * one (· == quote))

/-- Texts from an opening to the first closing character. -/
def enclosed (opening closing : Char) : Language Char :=
  one (· == opening) * ((one (· != closing))∗ * one (· == closing))

/-- Blob literals. -/
def blob : Language Char :=
  one (fun ch => ch == 'X' || ch == 'x') * (just "'" * ((one isHexDigit)∗ * just "'"))

/-- Comments to the end of a line, which is not part of them. -/
def lineComment : Language Char := just "--" * (one (· != '\n'))∗

/-- Texts that have a text nowhere in them. -/
def without (s : String) : Language Char := {w | ¬ s.toList <:+: w}

/-- Comments to the first closing behind the opening, or without one. -/
def blockComment : Language Char := just "/*" * (without "*/" * opt (just "*/"))

/-- Parameters with a name behind a sigil. -/
def parameter (sigil : String) : Language Char := just sigil * run isWordChar

/-- Parameters with a path and a suffix in parentheses. -/
def dollarParameter : Language Char :=
  just "$" * (run isWordChar * ((just "::" * run isWordChar)∗ * opt (enclosed '(' ')')))

end Lexicon

open Lexer in
/-- **The language of a kind of token.** Words are keywords by their spelling in capitals,
and names otherwise. Text that is malformed has no language, and neither have the end of
the input and kinds made outside the scanner. -/
def TokenKind.lexicon (kind : TokenKind) : Language Char :=
  match kind with
  | .whitespace => Lexicon.run isSpace
  | .keyword k => Lexicon.wordIn {k.spelling}
  | .identifier =>
    Lexicon.wordIn (Set.range Keyword.spelling)ᶜ
      + (Lexicon.quoted '\x22' + Lexicon.quoted '\x60' + Lexicon.enclosed '[' ']')
  | .string => Lexicon.quoted '\x27'
  | .blob => Lexicon.blob
  | .numeric => Lexicon.number
  | .lineComment => Lexicon.lineComment
  | .blockComment => Lexicon.blockComment
  | .questionVariable => Lexicon.just "?" * (Lexicon.one Char.isDigit)∗
  | .colonVariable => Lexicon.parameter ":"
  | .atVariable => Lexicon.parameter "@"
  | .dollarVariable => Lexicon.dollarParameter
  | kind => kind.punctuation?.elim 0 Lexicon.just

namespace Lexicon

variable {p : Char → Bool} {l : Language Char} {w : List Char}

@[simp] theorem mem_just {s : String} : w ∈ just s ↔ w = s.toList := Iff.rfl

/-- Texts that start with a character of a class. -/
theorem mem_one_mul : w ∈ one p * l ↔ ∃ ch t, p ch = true ∧ t ∈ l ∧ w = ch :: t := by
  rw [Language.mem_mul]
  constructor
  · rintro ⟨_, ⟨ch, hch, rfl⟩, t, ht, rfl⟩
    exact ⟨ch, t, hch, ht, rfl⟩
  · rintro ⟨ch, t, hch, ht, rfl⟩
    exact ⟨[ch], ⟨ch, hch, rfl⟩, t, ht, rfl⟩

/-- Texts that start with a given text. -/
theorem mem_just_mul {s : String} : w ∈ just s * l ↔ ∃ t ∈ l, w = s.toList ++ t := by
  rw [Language.mem_mul]
  constructor
  · rintro ⟨_, rfl, t, ht, rfl⟩
    exact ⟨t, ht, rfl⟩
  · rintro ⟨t, ht, rfl⟩
    exact ⟨_, rfl, t, ht, rfl⟩

/-- A repetition is nothing, or a text and a repetition. -/
theorem append_mem_kstar {u v : List Char} (hu : u ∈ l) (hv : v ∈ l∗) : u ++ v ∈ l∗ := by
  rw [← Language.one_add_self_mul_kstar_eq_kstar]
  exact .inr (Language.append_mem_mul hu hv)

/-- **Induction on repetitions.** -/
theorem kstar_induction {motive : (w : List Char) → w ∈ l∗ → Prop}
    (nil : motive [] (Language.nil_mem_kstar l))
    (append : ∀ u v (hu : u ∈ l) (hv : v ∈ l∗), motive v hv →
      motive (u ++ v) (append_mem_kstar hu hv)) (hw : w ∈ l∗) : motive w hw := by
  obtain ⟨ws, rfl, hws⟩ := Language.mem_kstar.1 hw
  induction ws with
  | nil => exact nil
  | cons u ws ih =>
    obtain ⟨hu, hws⟩ := List.forall_mem_cons.1 hws
    have hv : ws.flatten ∈ l∗ := Language.join_mem_kstar hws
    exact append u _ hu hv (ih hws hv)

/-- A repetition of single characters. -/
theorem mem_kstar_one : w ∈ (one p)∗ ↔ ∀ ch ∈ w, p ch = true := by
  constructor
  · intro hw
    induction hw using kstar_induction with
    | nil => exact nofun
    | append u v hu _ ih =>
      obtain ⟨ch, hch, rfl⟩ := hu
      exact List.forall_mem_cons.2 ⟨hch, ih⟩
  · intro hw
    induction w with
    | nil => exact Language.nil_mem_kstar _
    | cons ch w ih =>
      obtain ⟨hch, hw⟩ := List.forall_mem_cons.1 hw
      exact append_mem_kstar (u := [ch]) ⟨ch, hch, rfl⟩ (ih hw)

end Lexicon

end TolerantSql
