import TolerantSql.Proofs.Lexing

/-!
# Scanning does not look at the case of letters

Writing a source in capitals changes no token but for its text: the same kinds are
found at the same places (`tokenize_toUpper`). `Cursor.capitals` is the cursor over the
text in capitals, and each scanner commutes with it. What a scanner asks of a character
is either the same of a small letter and its capital, which is settled once for all by
looking at the twenty-six of them (`toUpper_blind`), or whether it is a certain
character that is no letter at all (`toUpper_eq_iff`). Only the table of keywords has
letters in it, and it is looked up in capitals.
-/

namespace TolerantSql

/-! ## Letters -/

/-- The letters that capitals change. -/
def smallLetters : List Char := "abcdefghijklmnopqrstuvwxyz".toList

/-- Capitals change nothing but small letters. -/
theorem toUpper_cases (ch : Char) : ch.toUpper = ch ∨ ch ∈ smallLetters := by
  by_cases hlower : 'a'.val ≤ ch.val ∧ ch.val ≤ 'z'.val
  · have hletters : ∀ n ∈ List.range' 97 26, Char.ofNat n ∈ smallLetters := by decide
    have hnat : ch.toNat ∈ List.range' 97 26 := by
      have hlow : 97 ≤ ch.toNat := hlower.1
      have hhigh : ch.toNat ≤ 122 := hlower.2
      rw [List.mem_range'_1]
      omega
    have hmem := hletters _ hnat
    rw [Char.ofNat_toNat] at hmem
    exact .inr hmem
  · exact .inl (dif_neg hlower)

/-- **What is the same of small letters and their capitals is the same of all characters
and their capitals.** -/
theorem toUpper_blind {α : Type} {p : Char → α}
    (h : smallLetters.map (fun ch => p ch.toUpper) = smallLetters.map p) (ch : Char) :
    p ch.toUpper = p ch := by
  rcases toUpper_cases ch with heq | hmem
  · rw [heq]
  · exact List.map_inj_left.1 h ch hmem

theorem toUpper_toUpper (ch : Char) : ch.toUpper.toUpper = ch.toUpper :=
  toUpper_blind (p := Char.toUpper) (by decide) ch

theorem utf8Size_toUpper (ch : Char) : ch.toUpper.utf8Size = ch.utf8Size :=
  toUpper_blind (p := Char.utf8Size) (by decide) ch

/-- A character that is no letter is the capital of itself alone. -/
theorem toUpper_eq_iff {q : Char} (hq : q.isAlpha = false) (ch : Char) :
    ch.toUpper = q ↔ ch = q := by
  rcases toUpper_cases ch with heq | hmem
  · rw [heq]
  · have hall : smallLetters.all Char.isAlpha = true := by decide
    have hlower : ch.isAlpha = true := List.all_eq_true.1 hall ch hmem
    have hupper := (toUpper_blind (p := Char.isAlpha) (by decide) ch).trans hlower
    refine ⟨fun h => ?_, fun h => ?_⟩
    · rw [h, hq] at hupper
      cases hupper
    · rw [h, hq] at hlower
      cases hlower

theorem toUpper_beq {q : Char} (hq : q.isAlpha = false) (ch : Char) :
    (ch.toUpper == q) = (ch == q) := by
  rw [Bool.eq_iff_iff, beq_iff_eq, beq_iff_eq, toUpper_eq_iff hq]

theorem toUpper_ofList (w : List Char) :
    (String.ofList w).toUpper = String.ofList (w.map Char.toUpper) := by
  rw [← String.toList_inj, String.toUpper, String.toList_map, String.toList_ofList,
    String.toList_ofList]

theorem string_toUpper_toUpper (s : String) : s.toUpper.toUpper = s.toUpper := by
  rw [← String.ofList_toList (s := s), toUpper_ofList, toUpper_ofList, List.map_map]
  exact congrArg String.ofList (List.map_congr_left fun ch _ => toUpper_toUpper ch)

/-! ## Cursors -/

namespace Cursor

/-- The cursor at the same place of the text in capitals. -/
def capitals (c : Cursor) : Cursor :=
  ⟨c.taken.map Char.toUpper, c.rest.map Char.toUpper, c.pos, c.canUnread⟩

variable (c : Cursor)

@[simp] theorem rest_capitals : c.capitals.rest = c.rest.map Char.toUpper := rfl

theorem peek_capitals : c.capitals.peek = c.peek.map Char.toUpper := by
  rw [peek, peek, rest_capitals, List.head?_map]

@[simp] theorem advance_capitals : c.capitals.advance = c.advance.capitals := by
  unfold advance
  rw [rest_capitals]
  cases c.rest with
  | nil => rfl
  | cons ch t =>
    show Cursor.mk _ _ (c.pos + ch.toUpper.utf8Size) true = _
    rw [utf8Size_toUpper]
    rfl

@[simp] theorem unread_capitals : c.capitals.unread = c.unread.capitals := by
  obtain ⟨taken, rest, pos, canUnread⟩ := c
  cases canUnread with
  | false => cases taken <;> rfl
  | true =>
    cases taken with
    | nil => rfl
    | cons ch taken =>
      show Cursor.mk _ _ (pos - ch.toUpper.utf8Size) false = _
      rw [utf8Size_toUpper]
      rfl

/-- Whether a character that is no letter comes next is not a matter of case. -/
theorem eat_capitals {q : Char} (hq : q.isAlpha = false) :
    c.capitals.eat q = ((c.eat q).1, (c.eat q).2.capitals) := by
  have hpeek : c.capitals.peek = some q ↔ c.peek = some q := by
    rw [peek_capitals]
    cases c.peek with
    | none => rfl
    | some ch => simp [toUpper_eq_iff hq]
  unfold eat
  by_cases h : c.peek = some q
  · rw [if_pos h, if_pos (hpeek.2 h), advance_capitals]
  · rw [if_neg h, if_neg fun h' => h (hpeek.1 h')]

/-- A run of a class is equally long in capitals. -/
theorem eatWhile_capitals {p : Char → Bool} (hp : ∀ ch, p ch.toUpper = p ch) :
    c.capitals.eatWhile p = (c.eatWhile p).capitals := by
  have hclass : p ∘ Char.toUpper = p := funext hp
  have hfold : ∀ (w : List Char) (c : Cursor),
      w.foldl (fun c _ => c.advance) c.capitals
        = (w.foldl (fun c _ => c.advance) c).capitals := by
    intro w
    induction w with
    | nil => exact fun _ => rfl
    | cons a w ih => exact fun c => by rw [List.foldl_cons, advance_capitals, ih, List.foldl_cons]
  rw [eatWhile, rest_capitals, List.takeWhile_map, hclass, List.foldl_map, hfold, eatWhile]

theorem sliceFrom_capitals (start : Nat) :
    c.capitals.sliceFrom start = (c.sliceFrom start).map Char.toUpper := by
  have hgo : ∀ (taken : List Char) (pos : Nat) (slice : List Char),
      sliceFrom.go start (taken.map Char.toUpper) pos (slice.map Char.toUpper)
        = (sliceFrom.go start taken pos slice).map Char.toUpper := by
    intro taken
    induction taken with
    | nil => exact fun _ _ => rfl
    | cons ch taken ih =>
      intro pos slice
      rw [List.map_cons, sliceFrom.go, sliceFrom.go, utf8Size_toUpper]
      split
      · rfl
      · exact ih _ (ch :: slice)
  exact hgo c.taken c.pos []

end Cursor

/-! ## Scanners -/

namespace Lexer

open Cursor

/-- **A scanner that does not look at the case of letters**: in capitals it finds the
same and stops at the same place. -/
def IgnoresCase {α : Type} (scanner : Cursor → α × Cursor) : Prop :=
  ∀ c, scanner c.capitals = ((scanner c).1, (scanner c).2.capitals)

variable {p : Char → Bool} {c : Cursor}

namespace IgnoresCase

variable {α β : Type} {scanner : Cursor → α × Cursor}

/-- A scanner that reads nothing. -/
theorem still (value : α) : IgnoresCase fun c => (value, c) := fun _ => rfl

theorem map (h : IgnoresCase scanner) (f : α → β) :
    IgnoresCase fun c => (f (scanner c).1, (scanner c).2) := by
  intro c
  dsimp only
  rw [h c]

/-- One scanner behind another. -/
theorem bind (h : IgnoresCase scanner) {next : α → Cursor → β × Cursor}
    (hnext : ∀ value, IgnoresCase (next value)) :
    IgnoresCase fun c => next (scanner c).1 (scanner c).2 := by
  intro c
  dsimp only
  rw [h c, hnext]

/-- A scanner that reads a run of a class. -/
theorem run (value : α) {p : Char → Bool} (hp : ∀ ch, p ch.toUpper = p ch) :
    IgnoresCase fun c => (value, c.eatWhile p) := by
  intro c
  dsimp only
  rw [eatWhile_capitals c hp]

/-- A choice by whether a character that is no letter comes next, which is taken then. -/
theorem eat {q : Char} {yes no : Cursor → α × Cursor} (hyes : IgnoresCase yes)
    (hno : IgnoresCase no) (hq : q.isAlpha = false) :
    IgnoresCase fun c =>
      match c.eat q with
      | (true, c) => yes c
      | (false, c) => no c := by
  intro c
  dsimp only
  rw [eat_capitals c hq]
  rcases c.eat q with ⟨_ | _, c'⟩
  · exact hno c'
  · exact hyes c'

end IgnoresCase

theorem headIs_capitals (hp : ∀ ch, p ch.toUpper = p ch) (t : List Char) :
    headIs p (t.map Char.toUpper) = headIs p t := by
  cases t with
  | nil => rfl
  | cons ch t => exact hp ch

theorem isWordChar_toUpper (ch : Char) : isWordChar ch.toUpper = isWordChar ch :=
  toUpper_blind (by decide) ch

theorem isHexDigit_toUpper (ch : Char) : isHexDigit ch.toUpper = isHexDigit ch :=
  toUpper_blind (by decide) ch

theorem isDigit_toUpper (ch : Char) : ch.toUpper.isDigit = ch.isDigit :=
  toUpper_blind (p := Char.isDigit) (by decide) ch

/-! ### Quotes, brackets and comments -/

theorem blockComment_capitals (c : Cursor) :
    blockComment c.capitals = (blockComment c).capitals := by
  generalize hr : c.rest = r
  induction r generalizing c with
  | nil => rw [blockComment_nil hr, blockComment_nil (by rw [rest_capitals, hr]; rfl)]
  | cons ch r ih =>
    by_cases hclose : ch = '*' ∧ r.head? = some '/'
    · obtain ⟨rfl, hslash⟩ := hclose
      obtain ⟨t, rfl⟩ := List.head?_eq_some_iff.1 hslash
      have hcapitals : c.capitals.rest = '*' :: '/' :: t.map Char.toUpper := by
        rw [rest_capitals, hr]
        rfl
      rw [blockComment_close hr, blockComment_close hcapitals, advance_capitals,
        advance_capitals]
    · have hcapitals : c.capitals.rest = ch.toUpper :: r.map Char.toUpper := by
        rw [rest_capitals, hr]
        rfl
      have hopen : ¬ (ch.toUpper = '*' ∧ (r.map Char.toUpper).head? = some '/') := by
        rw [toUpper_eq_iff rfl]
        rintro ⟨rfl, hslash⟩
        rw [List.head?_map, Option.map_eq_some_iff] at hslash
        obtain ⟨a, ha, hslash⟩ := hslash
        rw [toUpper_eq_iff rfl] at hslash
        exact hclose ⟨rfl, hslash ▸ ha⟩
      rw [blockComment_cons hr hclose, blockComment_cons hcapitals hopen, advance_capitals,
        ih _ (rest_advance_cons hr)]

theorem ignoresCase_closeQuote {q : Char} (hq : q.isAlpha = false) :
    IgnoresCase (closeQuote q) := by
  intro c
  generalize hn : c.rest.length = n
  induction n using Nat.strong_induction_on generalizing c with
  | _ n ih =>
    cases hr : c.rest with
    | nil => rw [closeQuote_nil hr, closeQuote_nil (by rw [rest_capitals, hr]; rfl)]
    | cons ch r =>
      have hcapitals : c.capitals.rest = ch.toUpper :: r.map Char.toUpper := by
        rw [rest_capitals, hr]
        rfl
      have hrest := rest_advance_cons hr
      have hlen : n = r.length + 1 := by rw [← hn, hr]; rfl
      by_cases hch : ch = q
      · subst hch
        rw [(toUpper_eq_iff hq ch).2 rfl] at hcapitals
        by_cases hdouble : r.head? = some ch
        · obtain ⟨t, rfl⟩ := List.head?_eq_some_iff.1 hdouble
          rw [List.map_cons, (toUpper_eq_iff hq ch).2 rfl] at hcapitals
          rw [closeQuote_double hr, closeQuote_double hcapitals, advance_capitals,
            advance_capitals]
          exact ih t.length (by rw [hlen, List.length_cons]; omega) _
            (by rw [rest_advance_cons hrest])
        · have hsingle : (r.map Char.toUpper).head? ≠ some ch := by
            rw [List.head?_map, ne_eq, Option.map_eq_some_iff]
            rintro ⟨a, ha, hquote⟩
            rw [toUpper_eq_iff hq] at hquote
            exact hdouble (hquote ▸ ha)
          rw [closeQuote_close hr hdouble, closeQuote_close hcapitals hsingle, advance_capitals]
      · have hne : ch.toUpper ≠ q := fun h => hch ((toUpper_eq_iff hq ch).1 h)
        rw [closeQuote_cons hr hch, closeQuote_cons hcapitals hne, advance_capitals]
        exact ih r.length (by omega) _ (by rw [hrest])

theorem ignoresCase_quoted {q : Char} (hq : q.isAlpha = false) (kind : TokenKind)
    (inside : String) : IgnoresCase (quoted q kind inside) := by
  rw [funext (quoted_eq q kind inside)]
  exact (ignoresCase_closeQuote hq).map fun closed =>
    if closed then kind else .error (.unexpectedEnd inside)

theorem ignoresCase_closeBracket {close : Char} (hclose : close.isAlpha = false) :
    IgnoresCase (closeBracket close) := by
  intro c
  have hclass : ∀ ch, (ch.toUpper != close) = (ch != close) := fun ch => by
    rw [bne, bne, toUpper_beq hclose]
  rw [closeBracket, eatWhile_capitals c hclass, eat_capitals _ hclose, closeBracket]

theorem ignoresCase_bracketed : IgnoresCase bracketed := by
  rw [funext bracketed_eq]
  exact (ignoresCase_closeBracket rfl).map fun closed =>
    if closed then TokenKind.identifier else .error (.unexpectedEnd "quoted identifier")

theorem ignoresCase_blob : IgnoresCase blob := by
  have hend : IgnoresCase blobEnd := fun c => by
    rw [blobEnd, blobEnd, peek_capitals]
    cases c.peek with
    | none => rfl
    | some ch =>
      have hquote : ch.toUpper = '\x27' ↔ ch = '\x27' := toUpper_eq_iff rfl ch
      simp only [Option.map_some, hquote, advance_capitals]
  intro c
  show blobEnd (c.capitals.advance.eatWhile isHexDigit) = _
  rw [advance_capitals, eatWhile_capitals _ isHexDigit_toUpper, hend]
  rfl

/-! ### Numbers -/

theorem digits_capitals {isDigit : Char → Bool} (hdigit : ∀ ch, isDigit ch.toUpper = isDigit ch)
    (afterDigit : Bool) (c : Cursor) :
    digits isDigit afterDigit c.capitals = (digits isDigit afterDigit c).capitals := by
  generalize hr : c.rest = r
  induction r generalizing afterDigit c with
  | nil => rw [digits_nil hr, digits_nil (by rw [rest_capitals, hr]; rfl)]
  | cons ch r ih =>
    have hcapitals : c.capitals.rest = ch.toUpper :: r.map Char.toUpper := by
      rw [rest_capitals, hr]
      rfl
    have hunder : decide (ch.toUpper = '_') = decide (ch = '_') :=
      decide_eq_decide.2 (toUpper_eq_iff rfl ch)
    rw [digits_cons hr, digits_cons hcapitals, hdigit, hunder, headIs_capitals hdigit,
      advance_capitals]
    have hih := fun after => ih after c.advance (rest_advance_cons hr)
    rw [hih, hih, unread_capitals]
    split_ifs <;> rfl

theorem isExponentMark_toUpper (ch : Char) :
    (ch.toUpper == 'e' || ch.toUpper == 'E') = (ch == 'e' || ch == 'E') :=
  toUpper_blind (p := fun ch => ch == 'e' || ch == 'E') (by decide) ch

theorem isSign_toUpper (ch : Char) :
    (ch.toUpper == '+' || ch.toUpper == '-') = (ch == '+' || ch == '-') :=
  toUpper_blind (p := fun ch => ch == '+' || ch == '-') (by decide) ch

theorem exponent_capitals (c : Cursor) : exponent c.capitals = (exponent c).capitals := by
  cases hr : c.rest with
  | nil =>
    have hcapitals : c.capitals.rest = [] := by rw [rest_capitals, hr]; rfl
    rw [exponent, exponent, nextIs_eq, nextIs_eq, hr, hcapitals]
    rfl
  | cons ch t =>
    have hcapitals : c.capitals.rest = ch.toUpper :: t.map Char.toUpper := by
      rw [rest_capitals, hr]
      rfl
    rw [exponent_eq hr, exponent_eq hcapitals, isExponentMark_toUpper,
      headIs_capitals isDigit_toUpper, headIs_capitals isSign_toUpper, ← List.map_tail,
      headIs_capitals isDigit_toUpper, advance_capitals, advance_capitals, unread_capitals,
      digits_capitals isDigit_toUpper, digits_capitals isDigit_toUpper]
    split_ifs <;> rfl

theorem hexFollows_capitals (t : List Char) : hexFollows (t.map Char.toUpper) = hexFollows t := by
  cases t with
  | nil => rfl
  | cons ch t =>
    have hmark : (ch.toUpper == 'x' || ch.toUpper == 'X') = (ch == 'x' || ch == 'X') :=
      toUpper_blind (p := fun ch => ch == 'x' || ch == 'X') (by decide) ch
    rw [List.map_cons, hexFollows, hexFollows, hmark, headIs_capitals isHexDigit_toUpper]

theorem number_capitals (first : Char) (c : Cursor) :
    number first c.capitals = (number first c).capitals := by
  have hwhole : IgnoresCase wholePart := fun c => by
    rw [wholePart, digits_capitals isDigit_toUpper, eat_capitals _ rfl, wholePart]
  have hfraction : ∀ pointed (c : Cursor),
      fractionPart pointed c.capitals = (fractionPart pointed c).capitals := fun pointed c => by
    cases pointed with
    | false => rfl
    | true => exact digits_capitals isDigit_toUpper false c
  rw [number_eq, number_eq, rest_capitals, hexFollows_capitals, advance_capitals,
    digits_capitals isHexDigit_toUpper, hwhole, hfraction, exponent_capitals]
  split_ifs <;> rfl

/-! ### Bind parameters -/

theorem ignoresCase_namedVariable (sigil : Char) (kind : TokenKind) :
    IgnoresCase (namedVariable sigil kind) := by
  intro c
  rw [namedVariable, namedVariable, peek_capitals]
  cases c.peek with
  | none => rfl
  | some ch =>
    dsimp only [Option.map_some]
    rw [isWordChar_toUpper, eatWhile_capitals c isWordChar_toUpper]
    split_ifs <;> rfl

theorem pathFollows_capitals (t : List Char) :
    pathFollows (t.map Char.toUpper) = pathFollows t := by
  rw [pathFollows, ← List.map_tail, ← List.map_tail, headIs_capitals (toUpper_beq rfl),
    headIs_capitals (toUpper_beq rfl), headIs_capitals isWordChar_toUpper, pathFollows]

theorem pathSegments_capitals (c : Cursor) :
    pathSegments c.capitals = (pathSegments c).capitals := by
  generalize hn : c.rest.length = n
  induction n using Nat.strong_induction_on generalizing c with
  | _ n ih =>
    have hsame : pathFollows c.capitals.rest = pathFollows c.rest := pathFollows_capitals c.rest
    by_cases hpath : pathFollows c.rest = true
    · obtain ⟨r, hr, -⟩ := pathFollows_eq_true hpath
      have hlen := Cursor.length_rest_eatWhile_le isWordChar c.advance.advance
      rw [rest_advance_cons (rest_advance_cons hr)] at hlen
      rw [pathSegments_of hpath, pathSegments_of (hsame.trans hpath), advance_capitals,
        advance_capitals, eatWhile_capitals _ isWordChar_toUpper]
      refine ih _ ?_ _ rfl
      rw [← hn, hr, List.length_cons, List.length_cons]
      omega
    · have hnone := Bool.eq_false_of_not_eq_true hpath
      rw [pathSegments_of_not hnone, pathSegments_of_not (hsame.trans hnone)]

theorem ignoresCase_dollarSuffix : IgnoresCase dollarSuffix := by
  have hclosed : IgnoresCase fun c =>
      match closeBracket ')' c with
      | (true, c) => (TokenKind.dollarVariable, c)
      | (false, c) => cutShort "variable" c := fun c => by
    dsimp only
    rw [ignoresCase_closeBracket rfl c]
    rcases closeBracket ')' c with ⟨_ | _, c'⟩ <;> rfl
  intro c
  rw [dollarSuffix, dollarSuffix, eat_capitals c rfl]
  rcases c.eat '(' with ⟨_ | _, c'⟩
  · rfl
  · exact hclosed c'

theorem ignoresCase_dollarVariable : IgnoresCase dollarVariable := by
  intro c
  have hsame : headIs isWordChar c.capitals.rest = headIs isWordChar c.rest :=
    headIs_capitals isWordChar_toUpper c.rest
  cases hword : headIs isWordChar c.rest with
  | true =>
    rw [dollarVariable_word hword, dollarVariable_word (hsame.trans hword),
      eatWhile_capitals c isWordChar_toUpper, pathSegments_capitals, ignoresCase_dollarSuffix]
  | false =>
    rw [dollarVariable_of_not hword, dollarVariable_of_not (hsame.trans hword),
      ignoresCase_namedVariable]

/-! ### Operators -/

theorem ignoresCase_either {second : Char} (hsecond : second.isAlpha = false)
    (long short : TokenKind) : IgnoresCase (either second long short) :=
  .eat (.still long) (.still short) hsecond

theorem ignoresCase_dash : IgnoresCase dash :=
  .eat (.run _ fun ch => by rw [bne, bne, toUpper_beq rfl])
    (fun c => by
      rw [eat_capitals c rfl]
      rcases c.eat '>' with ⟨_ | _, c'⟩
      · rfl
      · exact ignoresCase_either rfl .doubleArrow .arrow c') rfl

theorem ignoresCase_slash : IgnoresCase slash :=
  .eat (fun c => by rw [blockComment_capitals]) (.still _) rfl

theorem ignoresCase_less : IgnoresCase less :=
  .eat (.still _) (.eat (.still _) (ignoresCase_either rfl _ _) rfl) rfl

theorem ignoresCase_greater : IgnoresCase greater :=
  .eat (.still _) (ignoresCase_either rfl _ _) rfl

theorem ignoresCase_bang : IgnoresCase bang :=
  .eat (.still _) (fun c => by
    rw [isAtEnd, rest_capitals, List.isEmpty_map, ← isAtEnd]
    split_ifs <;> rfl) rfl

theorem ignoresCase_dot : IgnoresCase dot := by
  intro c
  rw [dot, dot, nextIs_eq, nextIs_eq, rest_capitals, headIs_capitals isDigit_toUpper,
    digits_capitals isDigit_toUpper, exponent_capitals]
  split_ifs <;> rfl

/-! ### Tokens -/

/-- The scanner that a character chooses does not look at the case of letters. -/
theorem Dispatch.ignoresCase {first : Char} {scanner : Cursor → Scan}
    (h : Dispatch first scanner) : IgnoresCase scanner := by
  cases h with
  | space => exact .run _ (toUpper_blind (by decide))
  | single => exact .still _
  | dash => exact ignoresCase_dash
  | slash => exact ignoresCase_slash
  | equals => exact ignoresCase_either rfl _ _
  | less => exact ignoresCase_less
  | greater => exact ignoresCase_greater
  | bang => exact ignoresCase_bang
  | bar => exact ignoresCase_either rfl _ _
  | dot => exact ignoresCase_dot
  | string => exact ignoresCase_quoted rfl _ _
  | doubleQuote => exact ignoresCase_quoted rfl _ _
  | backquote => exact ignoresCase_quoted rfl _ _
  | bracket => exact ignoresCase_bracketed
  | question => exact .run _ isDigit_toUpper
  | colon => exact ignoresCase_namedVariable _ _
  | atSign => exact ignoresCase_namedVariable _ _
  | dollar => exact ignoresCase_dollarVariable
  | digit => exact fun c => congrArg (Prod.mk _) (number_capitals _ c)
  | unexpected => exact .still _

/-- A word in capitals is the same keyword, or a name as before. -/
theorem wordKind_capitals (w : List Char) : wordKind (w.map Char.toUpper) = wordKind w := by
  rw [wordKind, wordKind, Keyword.ofWord?, Keyword.ofWord?, ← toUpper_ofList,
    string_toUpper_toUpper]

/-- **The next token in capitals** is of the same kind and ends at the same place. -/
theorem ignoresCase_lexeme : IgnoresCase lexeme := by
  intro c
  cases hr : c.rest with
  | nil =>
    have hcapitals : c.capitals.rest = [] := by rw [rest_capitals, hr]; rfl
    rw [lexeme, lexeme, peek_nil hr, peek_nil hcapitals]
  | cons first t =>
    have hcapitals : c.capitals.rest = first.toUpper :: t.map Char.toUpper := by
      rw [rest_capitals, hr]
      rfl
    have hstart : isWordStart first.toUpper = isWordStart first := toUpper_blind (by decide) first
    cases hword : isWordStart first with
    | false =>
      -- what starts no word is no letter
      have hfirst : first.toUpper = first := by
        refine (toUpper_cases first).resolve_right fun hmem => ?_
        have hall : smallLetters.all isWordStart = true := by decide
        rw [List.all_eq_true.1 hall first hmem] at hword
        cases hword
      obtain ⟨scanner, hchosen, hscan⟩ := exists_dispatch hword
      rw [hfirst] at hcapitals
      rw [lexeme_cons hr, lexeme_cons hcapitals, hscan, hscan, advance_capitals,
        hchosen.ignoresCase]
    | true =>
      have hmark : (first.toUpper == 'X' || first.toUpper == 'x')
          = (first == 'X' || first == 'x') :=
        toUpper_blind (p := fun ch => ch == 'X' || ch == 'x') (by decide) first
      have hopens : opensBlob first.toUpper (t.map Char.toUpper) = opensBlob first t := by
        rw [opensBlob, opensBlob, hmark, headIs_capitals (toUpper_beq rfl)]
      cases hblob : opensBlob first t with
      | true =>
        rw [lexeme_blob hr hblob, lexeme_blob hcapitals (hopens.trans hblob), advance_capitals,
          ignoresCase_blob]
      | false =>
        have hclass : isWordChar ∘ Char.toUpper = isWordChar := funext isWordChar_toUpper
        rw [lexeme_word hr hword hblob,
          lexeme_word hcapitals (hstart.trans hword) (hopens.trans hblob), advance_capitals,
          eatWhile_capitals _ isWordChar_toUpper, List.takeWhile_map, hclass, ← List.map_cons,
          wordKind_capitals]

end Lexer

/-- The token in capitals: its kind and place stay. -/
def Token.capitals (t : Token) : Token := { t with text := t.text.toUpper }

namespace Lexer

theorem nextToken_capitals (c : Cursor) :
    nextToken c.capitals = ((nextToken c).1.capitals, (nextToken c).2.capitals) := by
  rw [nextToken_eq, nextToken_eq, ignoresCase_lexeme, Cursor.sliceFrom_capitals,
    ← toUpper_ofList]
  rfl

theorem tokensFrom_capitals (fuel : Nat) (c : Cursor) :
    tokensFrom fuel c.capitals = (tokensFrom fuel c).map Token.capitals := by
  induction fuel generalizing c with
  | zero =>
    exact congrArg (fun text => [Token.mk .eof text (.empty c.pos)]) (toUpper_ofList []).symm
  | succ fuel ih =>
    have hend : (nextToken c).1.capitals.isEof = (nextToken c).1.isEof := rfl
    rw [tokensFrom, tokensFrom, nextToken_capitals]
    dsimp only
    rw [hend, ih]
    split_ifs <;> rfl

end Lexer

/-- **The tokens of a text in capitals are its tokens in capitals.** -/
theorem tokenize_toUpper (source : String) :
    tokenize source.toUpper = (tokenize source).map Token.capitals := by
  have hcursor : Cursor.ofString source.toUpper = (Cursor.ofString source).capitals := by
    rw [Cursor.ofString, Cursor.ofString, String.toUpper, String.toList_map]
    rfl
  rw [tokenize, tokenize, hcursor, Lexer.tokensFrom_capitals, Cursor.rest_capitals,
    List.length_map]

end TolerantSql
