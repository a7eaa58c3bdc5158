import TolerantSql.Proofs.NumberMunch

/-!
# Every scanner reads as far as it can

One lemma for each scanner says that it munches behind the character that chose
it (`MunchesBehind`), and `Dispatch` lists which character chooses which scanner.
Together they give `munches_lexeme`, the one fact about scanning that everything
else rests on: a token is not empty, ends where `TokenKind.goesOn` says it does,
and is read the same way in any other place where its text does not go on.

Words are the one kind of token whose first character does not settle the
scanner, since an `x` before a quote opens a blob, and the one whose kind depends
on the whole text.
-/

namespace TolerantSql.Lexer

open Cursor

/-- What a scanner does behind the character that chose it. -/
abbrev MunchesBehind (first : Char) (scanner : Cursor → Scan) : Cursor → List Char → Prop :=
  Munches scanner fun kind text behind => kind.goesOn (first :: text) behind

variable {c : Cursor}

/-! ## Quoted and bracketed texts -/

theorem quoted_eq (q : Char) (kind : TokenKind) (inside : String) (c : Cursor) :
    quoted q kind inside c =
      (if (closeQuote q c).1 then kind else .error (.unexpectedEnd inside),
        (closeQuote q c).2) := by
  unfold quoted cutShort
  rcases closeQuote q c with ⟨_ | _, c'⟩ <;> rfl

/-- **Reading a quoted text**, whose kind must say how it goes on. -/
theorem munches_quoted {q : Char} {kind : TokenKind} (inside : String) (c : Cursor)
    (hkind : ∀ text behind, kind.goesOn (q :: text) behind = headIs (· == q) behind) :
    ∃ text, MunchesBehind q (quoted q kind inside) c text := by
  obtain ⟨text, h⟩ := munches_closeQuote q c
  have heq := funext (quoted_eq q kind inside)
  rw [heq]
  refine ⟨text, h.map (fun closed => if closed then kind else .error (.unexpectedEnd inside))
    fun behind => ?_⟩
  cases (closeQuote q c).1 with
  | false => rfl
  | true => exact hkind text behind

theorem bracketed_eq (c : Cursor) :
    bracketed c = (if (closeBracket ']' c).1 then .identifier
      else .error (.unexpectedEnd "quoted identifier"), (closeBracket ']' c).2) := by
  unfold bracketed cutShort
  rcases closeBracket ']' c with ⟨_ | _, c'⟩ <;> rfl

/-- **Reading a name in brackets.** -/
theorem munches_bracketed (c : Cursor) : ∃ text, MunchesBehind '[' bracketed c text := by
  obtain ⟨text, h, -⟩ := munches_closeBracket ']' c
  rw [funext bracketed_eq]
  refine ⟨text, h.map (fun closed => if closed then TokenKind.identifier
    else .error (.unexpectedEnd "quoted identifier")) fun behind => ?_⟩
  cases (closeBracket ']' c).1 <;> rfl

/-- What ends the digits of a blob. -/
def blobEnd (c : Cursor) : Scan :=
  match c.peek with
  | none => cutShort "blob literal" c
  | some ch => (if ch = '\x27' then .blob else .error .invalidBlob, c.advance)

theorem blobEnd_nil (h : c.rest = []) : blobEnd c = cutShort "blob literal" c := by
  rw [blobEnd, peek_nil h]

theorem blobEnd_cons {ch : Char} {t : List Char} (h : c.rest = ch :: t) :
    blobEnd c = (if ch = '\x27' then .blob else .error .invalidBlob, c.advance) := by
  rw [blobEnd, peek_cons h]

/-- **Reading a blob** behind its `x`, before the quote that opens it. -/
theorem munches_blob (first : Char) (hopen : headIs (· == '\x27') c.rest = true) :
    ∃ text, MunchesBehind first blob c ('\x27' :: text) := by
  cases hr : c.rest with
  | nil => rw [hr] at hopen; cases hopen
  | cons q t =>
    rw [hr, headIs_cons, beq_iff_eq] at hopen
    subst hopen
    have hdigits := munches_eatWhile isHexDigit c.advance
    have hstop : headIs isHexDigit (c.advance.eatWhile isHexDigit).rest = false := hdigits.stops
    cases hr' : (c.advance.eatWhile isHexDigit).rest with
    | nil =>
      have hend : Munches blobEnd (fun _ _ behind => !behind.isEmpty)
          (c.advance.eatWhile isHexDigit) [] :=
        Munches.still (.error (.unexpectedEnd "blob literal")) (by rw [hr']; rfl) fun c' hnil => by
          rw [blobEnd_nil (by simpa using hnil)]
          exact ⟨rfl, Reads.refl c'⟩
      have hbind : Munches (fun c => blobEnd (c.eatWhile isHexDigit))
          (fun _ _ behind => !behind.isEmpty) c.advance _ :=
        hdigits.bind (fun _ => blobEnd) hend fun behind => by cases behind <;> simp
      refine ⟨_, hbind.step hr (fun behind => ?_) fun c' behind hc' _ => rfl⟩
      rw [blobEnd_nil hr']
      rfl
    | cons ch t =>
      rw [hr', headIs_cons] at hstop
      have hend : Munches blobEnd (fun _ _ _ => false) (c.advance.eatWhile isHexDigit) [ch] := by
        refine ⟨?_, rfl, fun c' behind hc' _ => ?_⟩
        · rw [blobEnd_cons hr']
          exact reads_advance hr'
        · rw [blobEnd_cons hr', blobEnd_cons hc']
          exact ⟨rfl, reads_advance hc'⟩
      have hbind : Munches (fun c => blobEnd (c.eatWhile isHexDigit)) (fun _ _ _ => false)
          c.advance _ := hdigits.bind (fun _ => blobEnd) hend fun behind => by
        rw [List.singleton_append, headIs_cons, hstop]
        rfl
      refine ⟨_, hbind.step hr (fun behind => ?_) fun c' behind hc' _ => rfl⟩
      rw [blobEnd_cons hr']
      dsimp only
      split <;> rfl

/-! ## Bind parameters -/

theorem namedVariable_nil {sigil : Char} {kind : TokenKind} (h : c.rest = []) :
    namedVariable sigil kind c = cutShort "variable" c := by
  rw [namedVariable, peek_nil h]

theorem namedVariable_cons {sigil ch : Char} {kind : TokenKind} {t : List Char}
    (h : c.rest = ch :: t) :
    namedVariable sigil kind c = if isWordChar ch then (kind, c.eatWhile isWordChar)
      else (.error (.invalidVariable sigil), c) := by
  rw [namedVariable, peek_cons h]

/-- A run that starts with a character of its class is not empty. -/
theorem takeWhile_of_headIs {p : Char → Bool} {t : List Char} (h : headIs p t = true) :
    ∃ a w, t.takeWhile p = a :: w ∧ p a = true := by
  cases t with
  | nil => cases h
  | cons a t => exact ⟨a, t.takeWhile p, List.takeWhile_cons_of_pos h, h⟩

/-- Where no name follows, a sigil is malformed. -/
theorem munches_sigil {sigil : Char} {kind : TokenKind} {scanner : Cursor → Scan}
    (hscanner : ∀ c' : Cursor, headIs isWordChar c'.rest = false →
      scanner c' = namedVariable sigil kind c')
    (h : headIs isWordChar c.rest = false) : MunchesBehind sigil scanner c [] := by
  cases hr : c.rest with
  | nil =>
    refine Munches.still (.error (.unexpectedEnd "variable")) (by rw [hr]; rfl) fun c' hstop => ?_
    have hnil : c'.rest = [] := by simpa [TokenKind.goesOn] using hstop
    rw [hscanner c' (by rw [hnil]; rfl), namedVariable_nil hnil]
    exact ⟨rfl, Reads.refl c'⟩
  | cons ch t =>
    rw [hr, headIs_cons] at h
    refine Munches.still (.error (.invalidVariable sigil)) (by rw [hr]; exact h) fun c' hstop => ?_
    cases hr' : c'.rest with
    | nil => rw [hr'] at hstop; cases hstop
    | cons b r =>
      have hb : isWordChar b = false := by rwa [hr'] at hstop
      rw [hscanner c' (by rw [hr']; exact hb), namedVariable_cons hr', hb,
        if_neg Bool.false_ne_true]
      exact ⟨rfl, Reads.refl c'⟩

/-- **Reading a parameter** behind its sigil. -/
theorem munches_namedVariable (sigil : Char) {kind : TokenKind} (c : Cursor)
    (hkind : ∀ text behind, kind.goesOn text behind = headIs isWordChar behind) :
    ∃ text, MunchesBehind sigil (namedVariable sigil kind) c text := by
  by_cases hword : headIs isWordChar c.rest = true
  · obtain ⟨a, w, hw, ha⟩ := takeWhile_of_headIs hword
    have hrun := munches_eatWhile isWordChar c
    rw [hw] at hrun
    have hmap : MunchesBehind sigil (fun c => (kind, c.eatWhile isWordChar)) c (a :: w) :=
      hrun.map (fun _ => kind) fun behind => hkind _ behind
    refine ⟨a :: w, hmap.congr fun c' behind hc' _ => ?_⟩
    rw [namedVariable_cons hc', if_pos ha]
  · exact ⟨[], munches_sigil (fun _ _ => rfl) (Bool.eq_false_of_not_eq_true hword)⟩

theorem atPathSegment_eq (c : Cursor) : atPathSegment c = pathFollows c.rest := by
  rw [atPathSegment, nextIs_eq, nthIs_one_eq, nthIs_two_eq, pathFollows]

theorem pathSegments_of_not (h : pathFollows c.rest = false) : pathSegments c = c := by
  rw [pathSegments, atPathSegment_eq, h]
  rfl

theorem pathSegments_of (h : pathFollows c.rest = true) :
    pathSegments c = pathSegments (c.advance.advance.eatWhile isWordChar) := by
  conv_lhs => rw [pathSegments, atPathSegment_eq, h]
  rfl

/-- A path segment starts with two colons and a character of a name. -/
theorem pathFollows_eq_true {t : List Char} (h : pathFollows t = true) :
    ∃ r, t = ':' :: ':' :: r ∧ headIs isWordChar r = true := by
  rcases t with _ | ⟨a, _ | ⟨b, r⟩⟩
  · cases h
  · simp [pathFollows] at h
  · simp only [pathFollows, headIs_cons, List.tail_cons, Bool.and_eq_true, beq_iff_eq] at h
    obtain ⟨⟨rfl, rfl⟩, hr⟩ := h
    exact ⟨r, rfl, hr⟩

/-- Whether the segments of a path go on: behind a segment also by its name. -/
def pathGoesOn (_ : Unit) (text behind : List Char) : Bool :=
  (!text.isEmpty && headIs isWordChar behind) || pathFollows behind

/-- What segments of a path are: nothing, or a text from a colon to the end of a
name. -/
def IsPath (text : List Char) : Prop :=
  text = [] ∨ text.head? = some ':' ∧ text.getLast?.all isWordChar = true

/-- **Reading a name and the segments behind it.** -/
theorem munches_pathName {p : List Char} (hword : headIs isWordChar c.rest = true)
    (hp : Munches (moving pathSegments) pathGoesOn (c.eatWhile isWordChar) p) (hpath : IsPath p) :
    ∃ a n, Munches (moving fun c => pathSegments (c.eatWhile isWordChar))
        (fun _ _ behind => headIs isWordChar behind || pathFollows behind) c (a :: n)
      ∧ isWordChar a = true ∧ (a :: n).getLast?.all isWordChar = true := by
  obtain ⟨a, w, hw, ha⟩ := takeWhile_of_headIs hword
  have hrun := munches_eatWhile isWordChar c
  rw [hw] at hrun
  refine ⟨a, w ++ p, hrun.bind (fun _ => moving pathSegments) hp fun behind => ?_, ha, ?_⟩
  · rcases hpath with rfl | ⟨hcolon, -⟩
    · rfl
    · obtain ⟨p, rfl⟩ := List.head?_eq_some_iff.1 hcolon
      rfl
  · rw [← List.cons_append]
    rcases hpath with rfl | ⟨hcolon, hlast⟩
    · have hall : ∀ ch ∈ a :: w, isWordChar ch = true :=
        fun ch hch => List.mem_takeWhile_imp (hw ▸ hch)
      rw [List.append_nil, List.getLast?_eq_some_getLast (List.cons_ne_nil a w)]
      exact hall _ (List.getLast_mem _)
    · obtain ⟨p, rfl⟩ := List.head?_eq_some_iff.1 hcolon
      rwa [List.getLast?_append_of_ne_nil _ (List.cons_ne_nil _ _)]

/-- **Reading the segments of a path.** -/
theorem munches_pathSegments (c : Cursor) :
    ∃ text, Munches (moving pathSegments) pathGoesOn c text ∧ IsPath text := by
  generalize hn : c.rest.length = n
  induction n using Nat.strong_induction_on generalizing c with
  | _ n ih =>
    by_cases hpath : pathFollows c.rest = true
    · obtain ⟨r, hr, hword⟩ := pathFollows_eq_true hpath
      have hr' := rest_advance_cons hr
      have hr'' := rest_advance_cons hr'
      have hlen := Cursor.length_rest_eatWhile_le isWordChar c.advance.advance
      obtain ⟨p, hp, hshape⟩ := ih (c.advance.advance.eatWhile isWordChar).rest.length
        (by rw [hr''] at hlen; rw [← hn, hr, List.length_cons, List.length_cons]; omega) _ rfl
      obtain ⟨a, w, hname, ha, hlast⟩ := munches_pathName (by rwa [hr'']) hp hshape
      have hsecond : Munches (moving fun c => pathSegments (c.advance.eatWhile isWordChar))
          (fun _ _ behind => headIs isWordChar behind || pathFollows behind) c.advance
          (':' :: a :: w) :=
        hname.step hr' (fun _ => rfl) fun _ _ _ _ => rfl
      refine ⟨':' :: ':' :: a :: w, hsecond.step hr (fun _ => rfl) fun c' behind hc' _ => ?_,
        .inr ⟨rfl, ?_⟩⟩
      · rw [moving, pathSegments_of (by rw [hc']; exact ha)]
      · rwa [List.getLast?_cons_cons, List.getLast?_cons_cons]
    · have hnone := Bool.eq_false_of_not_eq_true hpath
      refine ⟨[], Munches.still () hnone fun c' hstop => ⟨rfl, ?_⟩, .inl rfl⟩
      rw [moving, pathSegments_of_not hstop]
      exact Reads.refl c'

/-- What may stand behind the name of a `$` parameter. -/
def dollarSuffix (c : Cursor) : Scan :=
  match c.eat '(' with
  | (false, c) => (.dollarVariable, c)
  | (true, c) =>
    match closeBracket ')' c with
    | (true, c) => (.dollarVariable, c)
    | (false, c) => cutShort "variable" c

theorem dollarSuffix_of_not (h : c.rest.head? ≠ some '(') :
    dollarSuffix c = (.dollarVariable, c) := by
  rw [dollarSuffix, eat_of_ne h]

theorem dollarSuffix_cons {t : List Char} (h : c.rest = '(' :: t) :
    dollarSuffix c = (if (closeBracket ')' c.advance).1 then .dollarVariable
      else .error (.unexpectedEnd "variable"), (closeBracket ')' c.advance).2) := by
  rw [dollarSuffix, eat_cons h]
  dsimp only
  rcases closeBracket ')' c.advance with ⟨_ | _, c'⟩ <;> rfl

/-- Whether a `$` parameter goes on behind its name. -/
def suffixGoesOn (kind : TokenKind) (text behind : List Char) : Bool :=
  if kind = .dollarVariable then text.isEmpty && headIs (· == '(') behind else !behind.isEmpty

/-- **Reading the suffix of a `$` parameter.** -/
theorem munches_dollarSuffix (c : Cursor) :
    ∃ text, Munches dollarSuffix suffixGoesOn c text
      ∧ (text = [] ∧ (dollarSuffix c).1 = .dollarVariable
        ∨ text.head? = some '(' ∧ (dollarSuffix c).1 = .dollarVariable ∧ text.getLast? = some ')'
        ∨ text.head? = some '(' ∧ (dollarSuffix c).1 = .error (.unexpectedEnd "variable")) := by
  rcases eat_cases c '(' with ⟨hr, -⟩ | ⟨hr, -⟩
  · obtain ⟨text, h, hlast⟩ := munches_closeBracket ')' c.advance
    have hmap : Munches
        (fun c => (if (closeBracket ')' c).1 then TokenKind.dollarVariable
          else .error (.unexpectedEnd "variable"), (closeBracket ')' c).2))
        (fun kind text behind => suffixGoesOn kind ('(' :: text) behind) c.advance text :=
      h.map (fun closed => if closed then TokenKind.dollarVariable
        else .error (.unexpectedEnd "variable"))
        fun behind => by cases (closeBracket ')' c.advance).1 <;> rfl
    refine ⟨'(' :: text, hmap.step hr (fun _ => rfl) fun c' behind hc' _ => dollarSuffix_cons hc',
      .inr ?_⟩
    rw [dollarSuffix_cons hr]
    cases hclosed : (closeBracket ')' c.advance).1 with
    | false => exact .inr ⟨rfl, rfl⟩
    | true =>
      refine .inl ⟨rfl, rfl, ?_⟩
      have := hlast hclosed
      cases text with
      | nil => cases this
      | cons a t => rwa [List.getLast?_cons_cons]
  · refine ⟨[], Munches.still .dollarVariable (headIs_eq_false_iff.2 hr) fun c' hstop => ?_,
      .inl ⟨rfl, by rw [dollarSuffix_of_not hr]⟩⟩
    rw [dollarSuffix_of_not (headIs_eq_false_iff.1 hstop)]
    exact ⟨rfl, Reads.refl c'⟩

theorem dollarVariable_word (h : headIs isWordChar c.rest = true) :
    dollarVariable c = dollarSuffix (pathSegments (c.eatWhile isWordChar)) := by
  cases hr : c.rest with
  | nil => rw [hr] at h; cases h
  | cons ch t =>
    rw [hr, headIs_cons] at h
    rw [dollarVariable, namedVariable_cons hr, if_pos h]
    rfl

theorem dollarVariable_of_not (h : headIs isWordChar c.rest = false) :
    dollarVariable c = namedVariable '$' .dollarVariable c := by
  cases hr : c.rest with
  | nil => rw [dollarVariable, namedVariable_nil hr]; rfl
  | cons ch t =>
    rw [hr, headIs_cons] at h
    rw [dollarVariable, namedVariable_cons hr, h, if_neg Bool.false_ne_true]

/-- **Reading a `$` parameter** behind its sigil. -/
theorem munches_dollarVariable (c : Cursor) :
    ∃ text, MunchesBehind '$' dollarVariable c text := by
  by_cases hword : headIs isWordChar c.rest = true
  · obtain ⟨p, hp, hpath⟩ := munches_pathSegments (c.eatWhile isWordChar)
    obtain ⟨a, n, hname, ha, hlast⟩ := munches_pathName hword hp hpath
    obtain ⟨s, hs, hshape⟩ := munches_dollarSuffix (pathSegments (c.eatWhile isWordChar))
    have hbind : MunchesBehind '$'
        (fun c => dollarSuffix (pathSegments (c.eatWhile isWordChar))) c (a :: n ++ s) := by
      refine hname.bind (fun _ => dollarSuffix) hs fun behind => ?_
      rcases hshape with ⟨rfl, hkind⟩ | ⟨hopen, hkind, hclose⟩ | ⟨hopen, hkind⟩
      · have hne : (('$' :: (a :: n)).getLast? != some ')') = true := by
          rw [List.getLast?_cons_cons, bne_iff_ne]
          intro h
          rw [h] at hlast
          cases hlast
        rw [hkind, List.append_nil, TokenKind.goesOn, hne]
        rfl
      · obtain ⟨s, rfl⟩ := List.head?_eq_some_iff.1 hopen
        have heq : (('$' :: (a :: n ++ '(' :: s)).getLast? != some ')') = false := by
          rw [← List.cons_append, List.getLast?_append_of_ne_nil _ (List.cons_ne_nil _ _), hclose]
          rfl
        rw [hkind, TokenKind.goesOn, heq]
        rfl
      · obtain ⟨s, rfl⟩ := List.head?_eq_some_iff.1 hopen
        rw [hkind]
        rfl
    exact ⟨_, hbind.congr fun c' behind hc' _ => dollarVariable_word (by rw [hc']; exact ha)⟩
  · exact ⟨[], munches_sigil (fun _ h => dollarVariable_of_not h)
      (Bool.eq_false_of_not_eq_true hword)⟩

/-! ## Operators -/

/-- Takes the next character if a table has it. -/
def pick (table : Char → Option TokenKind) (otherwise : TokenKind) (c : Cursor) : Scan :=
  match c.peek.bind table with
  | some kind => (kind, c.advance)
  | none => (otherwise, c)

theorem pick_cons {table : Char → Option TokenKind} {otherwise : TokenKind} {ch : Char}
    {t : List Char} (h : c.rest = ch :: t) :
    pick table otherwise c = match table ch with
      | some kind => (kind, c.advance)
      | none => (otherwise, c) := by
  rw [pick, peek_cons h]
  rfl

/-- **Reading an operator of up to two characters** behind the first. -/
theorem munches_pick {first : Char} {table : Char → Option TokenKind} {otherwise : TokenKind}
    (c : Cursor)
    (hlong : ∀ ch kind, table ch = some kind → ∀ text behind, kind.goesOn text behind = false)
    (hshort : ∀ behind,
      otherwise.goesOn [first] behind = headIs (fun ch => (table ch).isSome) behind) :
    ∃ text, MunchesBehind first (pick table otherwise) c text := by
  have hstill : ∀ c' : Cursor, headIs (fun ch => (table ch).isSome) c'.rest = false →
      pick table otherwise c' = (otherwise, c') := fun c' hstop => by
    cases hr : c'.rest with
    | nil => rw [pick, peek_nil hr]; rfl
    | cons ch t =>
      have hnone : table ch = none := by simpa [hr] using hstop
      rw [pick_cons hr, hnone]
  by_cases hnext : headIs (fun ch => (table ch).isSome) c.rest = true
  · cases hr : c.rest with
    | nil => rw [hr] at hnext; cases hnext
    | cons ch t =>
      rw [hr, headIs_cons] at hnext
      obtain ⟨kind, hkind⟩ := Option.isSome_iff_exists.1 hnext
      have htake : ∀ (c' : Cursor) (t : List Char), c'.rest = ch :: t →
          pick table otherwise c' = (kind, c'.advance) := fun c' t hr' => by
        rw [pick_cons hr', hkind]
      refine ⟨[ch], ?_, ?_, fun c' behind hc' _ => ?_⟩
      · rw [htake c t hr]; exact reads_advance hr
      · rw [htake c t hr]; exact hlong ch kind hkind _ _
      · rw [htake c t hr, htake c' behind hc']; exact ⟨rfl, reads_advance hc'⟩
  · refine ⟨[], Munches.still otherwise (by rw [hshort]; exact Bool.eq_false_of_not_eq_true hnext)
      fun c' hstop => ?_⟩
    rw [hstill c' (by rwa [hshort] at hstop)]
    exact ⟨rfl, Reads.refl c'⟩

theorem either_eq (second : Char) (long short : TokenKind) (c : Cursor) :
    either second long short c
      = pick (fun ch => if ch = second then some long else none) short c := by
  unfold either pick eat
  cases c.peek with
  | none => rfl
  | some ch => by_cases h : ch = second <;> simp [h]

theorem headIs_or (p q : Char → Bool) (t : List Char) :
    headIs (fun ch => p ch || q ch) t = (headIs p t || headIs q t) := by
  cases t <;> rfl

theorem less_eq (c : Cursor) :
    less c = pick (fun ch => if ch = '=' then some .ltEq else if ch = '>' then some .ltGt
      else if ch = '<' then some .leftShift else none) .lt c := by
  unfold less either pick eat
  cases hp : c.peek with
  | none => simp [hp]
  | some ch =>
    by_cases heq : ch = '='
    · simp [heq]
    · by_cases hgt : ch = '>'
      · simp [hp, hgt]
      · by_cases hlt : ch = '<' <;> simp [hp, heq, hgt, hlt]

theorem greater_eq (c : Cursor) :
    greater c = pick (fun ch => if ch = '=' then some .gtEq else if ch = '>' then some .rightShift
      else none) .gt c := by
  unfold greater either pick eat
  cases hp : c.peek with
  | none => simp [hp]
  | some ch =>
    by_cases heq : ch = '='
    · simp [heq]
    · by_cases hgt : ch = '>' <;> simp [hp, heq, hgt]

/-- **Reading an operator that one more character makes longer.** -/
theorem munches_either {first second : Char} {long short : TokenKind} (c : Cursor)
    (hlong : ∀ text behind, long.goesOn text behind = false)
    (hshort : ∀ text behind, short.goesOn text behind = headIs (· == second) behind) :
    ∃ text, MunchesBehind first (either second long short) c text := by
  rw [funext (either_eq second long short)]
  refine munches_pick c (fun ch kind h => ?_) fun behind => ?_
  · split at h
    · cases h; exact hlong
    · cases h
  · rw [hshort]
    congr 1
    funext ch
    by_cases h : ch = second <;> simp [h]

theorem munches_less (c : Cursor) : ∃ text, MunchesBehind '<' less c text := by
  rw [funext less_eq]
  refine munches_pick c (fun ch kind h => ?_) fun behind => ?_
  · split_ifs at h <;> cases h <;> intro text behind <;> rfl
  · show headIs _ behind = headIs _ behind
    congr 1
    funext ch
    split_ifs <;> simp_all

theorem munches_greater (c : Cursor) : ∃ text, MunchesBehind '>' greater c text := by
  rw [funext greater_eq]
  refine munches_pick c (fun ch kind h => ?_) fun behind => ?_
  · split_ifs at h <;> cases h <;> intro text behind <;> rfl
  · show headIs _ behind = headIs _ behind
    congr 1
    funext ch
    split_ifs <;> simp_all

/-- **Reading a comment to the end of its line, an arrow or a dash** behind the
first dash. -/
theorem munches_dash (c : Cursor) : ∃ text, MunchesBehind '-' dash c text := by
  rcases eat_cases c '-' with ⟨hr, -⟩ | ⟨hdash, -⟩
  · have hmap : Munches (fun c => (TokenKind.lineComment, c.eatWhile (· != '\n')))
        (fun kind text behind => kind.goesOn ('-' :: '-' :: text) behind) c.advance _ :=
      (munches_eatWhile (· != '\n') c.advance).map (fun _ => TokenKind.lineComment) fun _ => rfl
    refine ⟨_, hmap.step hr (fun _ => rfl) fun c' behind hc' _ => ?_⟩
    rw [dash, eat_cons hc']
  · rcases eat_cases c '>' with ⟨hr, -⟩ | ⟨hgt, -⟩
    · obtain ⟨text, h⟩ :
          ∃ text, MunchesBehind '>' (either '>' .doubleArrow .arrow) c.advance text :=
        munches_either c.advance (fun _ _ => rfl) fun _ _ => rfl
      refine ⟨_, h.step hr (fun behind => ?_) fun c' behind hc' _ => ?_⟩
      · unfold either
        rcases c.advance.eat '>' with ⟨_ | _, c'⟩ <;> rfl
      · have hne : c'.rest.head? ≠ some '-' := by rw [hc']; simp
        rw [dash, eat_of_ne hne]
        dsimp only
        rw [eat_cons hc']
        rfl
    · refine ⟨[], Munches.still .minus ?_ fun c' hstop => ?_⟩
      · show headIs _ c.rest = false
        rw [headIs_or, headIs_eq_false_iff.2 hdash, headIs_eq_false_iff.2 hgt]
        rfl
      · replace hstop : headIs _ c'.rest = false := hstop
        rw [headIs_or, Bool.or_eq_false_iff, headIs_eq_false_iff, headIs_eq_false_iff] at hstop
        rw [dash, eat_of_ne hstop.1]
        dsimp only
        rw [eat_of_ne hstop.2]
        exact ⟨rfl, Reads.refl c'⟩

/-- **Reading a block comment or a slash** behind the slash. -/
theorem munches_slash (c : Cursor) : ∃ text, MunchesBehind '/' slash c text := by
  rcases eat_cases c '*' with ⟨hr, -⟩ | ⟨hstar, -⟩
  · obtain ⟨text, h⟩ := munches_blockComment c.advance
    have hmap : Munches (fun c => (TokenKind.blockComment, blockComment c))
        (fun kind text behind => kind.goesOn ('/' :: '*' :: text) behind) c.advance text :=
      h.map (fun _ => TokenKind.blockComment) fun _ => rfl
    refine ⟨_, hmap.step hr (fun _ => rfl) fun c' behind hc' _ => ?_⟩
    rw [slash, eat_cons hc']
  · refine ⟨[], Munches.still .slash (headIs_eq_false_iff.2 hstar) fun c' hstop => ?_⟩
    rw [slash, eat_of_ne (headIs_eq_false_iff.1 hstop)]
    exact ⟨rfl, Reads.refl c'⟩

/-- **Reading an inequality** behind its exclamation mark. -/
theorem munches_bang (c : Cursor) : ∃ text, MunchesBehind '!' bang c text := by
  rcases eat_cases c '=' with ⟨hr, heat⟩ | ⟨heq, heat⟩
  · have htake : ∀ (c' : Cursor) (t : List Char), c'.rest = '=' :: t →
        bang c' = (.notEq, c'.advance) := fun c' t hc' => by rw [bang, eat_cons hc']
    refine ⟨['='], ?_, ?_, fun c' behind hc' _ => ?_⟩
    · rw [htake c _ hr]; exact reads_advance hr
    · rw [htake c _ hr]; rfl
    · rw [htake c _ hr, htake c' _ hc']; exact ⟨rfl, reads_advance hc'⟩
  · have hstill : ∀ c' : Cursor, c'.rest.head? ≠ some '=' →
        bang c' = (if c'.rest.isEmpty then .error (.unexpectedEnd "operator")
          else .error (.unexpectedCharacter '!'), c') := fun c' hc' => by
      rw [bang, eat_of_ne hc']
      show (if c'.rest.isEmpty then cutShort "operator" c' else _) = _
      by_cases hempty : c'.rest.isEmpty = true
      · rw [if_pos hempty, if_pos hempty, cutShort]
      · rw [if_neg hempty, if_neg hempty]
    cases hempty : c.rest.isEmpty with
    | true =>
      refine ⟨[], Munches.still (.error (.unexpectedEnd "operator"))
        (by show (!c.rest.isEmpty) = false; rw [hempty]; rfl) fun c' hstop => ?_⟩
      have hnil : c'.rest = [] := by simpa [TokenKind.goesOn] using hstop
      rw [hstill c' (by rw [hnil]; simp), hnil]
      exact ⟨rfl, Reads.refl c'⟩
    | false =>
      refine ⟨[], Munches.still (.error (.unexpectedCharacter '!')) ?_ fun c' hstop => ?_⟩
      · show (true && (c.rest.isEmpty || headIs _ c.rest)) = false
        rw [hempty, headIs_eq_false_iff.2 heq]
        rfl
      · replace hstop : (true && (c'.rest.isEmpty || headIs _ c'.rest)) = false := hstop
        rw [Bool.true_and, Bool.or_eq_false_iff, headIs_eq_false_iff] at hstop
        rw [hstill c' hstop.2, hstop.1]
        exact ⟨rfl, Reads.refl c'⟩

/-- **Reading a dot or a number that starts with one** behind the dot. -/
theorem munches_dot (c : Cursor) : ∃ text, MunchesBehind '.' dot c text := by
  by_cases hdigit : headIs Char.isDigit c.rest = true
  · obtain ⟨text, h, hhead⟩ := munches_pointNumber hdigit
    have hmap : MunchesBehind '.'
        (fun c => (TokenKind.numeric, exponent (digits Char.isDigit false c))) c text :=
      h.map (fun _ => TokenKind.numeric) fun _ => rfl
    refine ⟨text, hmap.congr fun c' behind hc' _ => ?_⟩
    have hnext : nextIs Char.isDigit c' = true := by
      rw [nextIs_eq, hc']
      cases text with
      | nil => cases hhead
      | cons d text => exact hhead
    rw [dot, if_pos hnext]
  · have hstill : ∀ c' : Cursor, headIs Char.isDigit c'.rest = false → dot c' = (.dot, c') :=
      fun c' hc' => if_neg (by rw [nextIs_eq, hc']; exact Bool.false_ne_true)
    refine ⟨[], Munches.still .dot (Bool.eq_false_of_not_eq_true hdigit) fun c' hstop => ?_⟩
    rw [hstill c' hstop]
    exact ⟨rfl, Reads.refl c'⟩

/-! ## One token -/

/-- A scanner that reads a run of a class and finds one kind. -/
theorem munches_run {first : Char} {kind : TokenKind} {p : Char → Bool} (c : Cursor)
    (hkind : ∀ text behind, kind.goesOn text behind = headIs p behind) :
    ∃ text, MunchesBehind first (fun c => (kind, c.eatWhile p)) c text :=
  ⟨_, (munches_eatWhile p c).map (fun _ => kind) fun behind => hkind _ behind⟩

/-- A scanner that reads nothing more and finds one kind. -/
theorem munches_nothing {first : Char} {kind : TokenKind} (c : Cursor)
    (hkind : ∀ behind, kind.goesOn [first] behind = false) :
    ∃ text, MunchesBehind first (fun c => (kind, c)) c text :=
  ⟨[], Munches.still kind (hkind _) fun c' _ => ⟨rfl, Reads.refl c'⟩⟩

/-- Tokens of one fixed character never go on. -/
theorem goesOn_single {first : Char} {kind : TokenKind} (h : single? first = some kind)
    (text behind : List Char) : kind.goesOn text behind = false := by
  unfold single? at h
  split_ifs at h <;> cases h <;> rfl

/-- **What chooses a scanner.** Unless a token starts like a word, its first
character alone does. -/
inductive Dispatch : Char → (Cursor → Scan) → Prop where
  | space {first : Char} (h : isSpace first = true) :
    Dispatch first fun c => (.whitespace, c.eatWhile isSpace)
  | single {first : Char} {kind : TokenKind} (h : single? first = some kind) :
    Dispatch first fun c => (kind, c)
  | dash : Dispatch '-' dash
  | slash : Dispatch '/' slash
  | equals : Dispatch '=' (either '=' .eqEq .eq)
  | less : Dispatch '<' less
  | greater : Dispatch '>' greater
  | bang : Dispatch '!' bang
  | bar : Dispatch '|' (either '|' .concat .bitOr)
  | dot : Dispatch '.' dot
  | string : Dispatch '\x27' (quoted '\x27' .string "string literal")
  | doubleQuote : Dispatch '\x22' (quoted '\x22' .identifier "quoted identifier")
  | backquote : Dispatch '\x60' (quoted '\x60' .identifier "quoted identifier")
  | bracket : Dispatch '[' bracketed
  | question : Dispatch '?' fun c => (.questionVariable, c.eatWhile Char.isDigit)
  | colon : Dispatch ':' (namedVariable ':' .colonVariable)
  | atSign : Dispatch '@' (namedVariable '@' .atVariable)
  | dollar : Dispatch '$' dollarVariable
  | digit {first : Char} (h : first.isDigit = true) :
    Dispatch first fun c => (.numeric, number first c)
  | unexpected {first : Char} (h : first ≠ '!') :
    Dispatch first fun c => (.error (.unexpectedCharacter first), c)

/-- Every character that starts no word chooses its scanner. -/
theorem exists_dispatch {first : Char} (hword : isWordStart first = false) :
    ∃ scanner, Dispatch first scanner ∧ ∀ start c, scan start first c = scanner c := by
  by_cases hspace : isSpace first = true
  · exact ⟨_, .space hspace, fun start c => if_pos hspace⟩
  cases hsingle : single? first with
  | some kind =>
    refine ⟨_, .single hsingle, fun start c => ?_⟩
    rw [scan, if_neg hspace, hsingle]
  | none =>
    rcases eq_or_ne first '-' with rfl | h0
    · exact ⟨_, .dash, fun _ _ => rfl⟩
    rcases eq_or_ne first '/' with rfl | h1
    · exact ⟨_, .slash, fun _ _ => rfl⟩
    rcases eq_or_ne first '=' with rfl | h2
    · exact ⟨_, .equals, fun _ _ => rfl⟩
    rcases eq_or_ne first '<' with rfl | h3
    · exact ⟨_, .less, fun _ _ => rfl⟩
    rcases eq_or_ne first '>' with rfl | h4
    · exact ⟨_, .greater, fun _ _ => rfl⟩
    rcases eq_or_ne first '!' with rfl | h5
    · exact ⟨_, .bang, fun _ _ => rfl⟩
    rcases eq_or_ne first '|' with rfl | h6
    · exact ⟨_, .bar, fun _ _ => rfl⟩
    rcases eq_or_ne first '.' with rfl | h7
    · exact ⟨_, .dot, fun _ _ => rfl⟩
    rcases eq_or_ne first '\x27' with rfl | h8
    · exact ⟨_, .string, fun _ _ => rfl⟩
    rcases eq_or_ne first '\x22' with rfl | h9
    · exact ⟨_, .doubleQuote, fun _ _ => rfl⟩
    rcases eq_or_ne first '\x60' with rfl | h10
    · exact ⟨_, .backquote, fun _ _ => rfl⟩
    rcases eq_or_ne first '[' with rfl | h11
    · exact ⟨_, .bracket, fun _ _ => rfl⟩
    rcases eq_or_ne first '?' with rfl | h12
    · exact ⟨_, .question, fun _ _ => rfl⟩
    rcases eq_or_ne first ':' with rfl | h13
    · exact ⟨_, .colon, fun _ _ => rfl⟩
    rcases eq_or_ne first '@' with rfl | h14
    · exact ⟨_, .atSign, fun _ _ => rfl⟩
    rcases eq_or_ne first '$' with rfl | h15
    · exact ⟨_, .dollar, fun _ _ => rfl⟩
    have hx : first ≠ 'X' ∧ first ≠ 'x' := by constructor <;> rintro rfl <;> cases hword
    by_cases hdigit : first.isDigit = true
    · refine ⟨_, .digit hdigit, fun start c => ?_⟩
      simp [scan, hspace, hsingle, hdigit, hx, h0, h1, h2, h3, h4, h5, h6, h7, h8, h9, h10, h11]
    · refine ⟨_, .unexpected h5, fun start c => ?_⟩
      simp [scan, hspace, hsingle, hdigit, hword, hx, h0, h1, h2, h3, h4, h5, h6, h7, h8, h9,
        h10, h11, h12, h13, h14, h15]

/-- The scanner that a character chooses munches behind it. -/
theorem Dispatch.munches {first : Char} {scanner : Cursor → Scan} (h : Dispatch first scanner)
    (c : Cursor) : ∃ text, MunchesBehind first scanner c text := by
  cases h with
  | space h => exact munches_run c fun _ _ => rfl
  | single h => exact munches_nothing c (goesOn_single h _)
  | dash => exact munches_dash c
  | slash => exact munches_slash c
  | equals => exact munches_either c (fun _ _ => rfl) fun _ _ => rfl
  | less => exact munches_less c
  | greater => exact munches_greater c
  | bang => exact munches_bang c
  | bar => exact munches_either c (fun _ _ => rfl) fun _ _ => rfl
  | dot => exact munches_dot c
  | string => exact munches_quoted _ c fun _ _ => rfl
  | doubleQuote => exact munches_quoted _ c fun _ _ => rfl
  | backquote => exact munches_quoted _ c fun _ _ => rfl
  | bracket => exact munches_bracketed c
  | question => exact munches_run c fun _ _ => rfl
  | colon => exact munches_namedVariable ':' c fun _ _ => rfl
  | atSign => exact munches_namedVariable '@' c fun _ _ => rfl
  | dollar => exact munches_dollarVariable c
  | digit h =>
    obtain ⟨text, hmunch⟩ := munches_number h c
    exact ⟨text, hmunch.map (fun _ => TokenKind.numeric) fun _ => rfl⟩
  | unexpected h =>
    refine munches_nothing c fun behind => ?_
    show (first == '!' && _) = false
    rw [beq_false_of_ne h, Bool.false_and]

/-- The kind of a bare word. -/
def wordKind (text : List Char) : TokenKind :=
  match Keyword.ofWord? (String.ofList text) with
  | some keyword => .keyword keyword
  | none => .identifier

/-- The token at a place: its kind, and the cursor behind it. -/
def lexeme (c : Cursor) : Scan :=
  match c.peek with
  | none => (.eof, c)
  | some first => scan c.pos first c.advance

theorem lexeme_cons {first : Char} {t : List Char} (h : c.rest = first :: t) :
    lexeme c = scan c.pos first c.advance := by
  rw [lexeme, peek_cons h]

/-- **The next token**, end of the input included, is the lexeme with the text
read and the places where it begins and ends. -/
theorem nextToken_eq (c : Cursor) :
    nextToken c = (⟨(lexeme c).1, String.ofList ((lexeme c).2.sliceFrom c.pos),
      ⟨c.pos, (lexeme c).2.pos⟩⟩, (lexeme c).2) := by
  cases hr : c.rest with
  | nil =>
    rw [nextToken, bump, lexeme, peek_nil hr, (Reads.refl c).sliceFrom]
    rfl
  | cons first t => rw [nextToken, bump, lexeme, peek_cons hr]

/-- A lone `x` is a name, so that only its kind tells whether a quote may
follow. -/
theorem wordKind_x : wordKind ['x'] = .identifier ∧ wordKind ['X'] = .identifier := by
  constructor <;> decide +kernel

/-- Where a bare word goes on. -/
theorem goesOn_wordKind {first : Char} {w behind : List Char} (hword : isWordStart first = true) :
    (wordKind (first :: w)).goesOn (first :: w) behind = (headIs isWordChar behind
      || ((first :: w == ['x'] || first :: w == ['X']) && headIs (· == '\x27') behind)) := by
  have hquote : first ≠ '\x22' ∧ first ≠ '\x60' ∧ first ≠ '[' := by
    refine ⟨?_, ?_, ?_⟩ <;> rintro rfl <;> cases hword
  cases hkind : wordKind (first :: w) with
  | identifier =>
    show identifierGoesOn (first :: w) behind = _
    simp [identifierGoesOn, hquote]
  | keyword k =>
    have hx : first :: w ≠ ['x'] ∧ first :: w ≠ ['X'] := by
      constructor <;> intro h <;> rw [h] at hkind
      · rw [wordKind_x.1] at hkind; cases hkind
      · rw [wordKind_x.2] at hkind; cases hkind
    rw [beq_false_of_ne hx.1, beq_false_of_ne hx.2]
    exact (Bool.or_false _).symm
  | _ => unfold wordKind at hkind; split at hkind <;> cases hkind

/-- Whether a token that starts like a word is a blob. -/
def opensBlob (first : Char) (t : List Char) : Bool :=
  (first == 'X' || first == 'x') && headIs (· == '\x27') t

theorem lexeme_blob {first : Char} {t : List Char} (h : c.rest = first :: t)
    (hblob : opensBlob first t = true) : lexeme c = blob c.advance := by
  rw [lexeme_cons h]
  rw [opensBlob, ← rest_advance_cons h, ← nextIs_eq] at hblob
  obtain ⟨rfl | rfl, hnext⟩ :
      (first = 'X' ∨ first = 'x') ∧ nextIs (· == '\x27') c.advance = true := by
    simpa using hblob
  · show (if nextIs (· == '\x27') c.advance = true then _ else _) = _
    rw [if_pos hnext]
  · show (if nextIs (· == '\x27') c.advance = true then _ else _) = _
    rw [if_pos hnext]

/-- No word starts with a digit. -/
theorem isDigit_of_isWordStart {ch : Char} (h : isWordStart ch = true) : ch.isDigit = false := by
  show (decide (ch.val ≥ 48) && decide (ch.val ≤ 57)) = false
  replace h : (decide (ch.val ≥ 65 ∧ ch.val ≤ 90)
    || (decide (ch.val ≥ 97) && decide (ch.val ≤ 122)) || ch == '_') = true := h
  simp only [Bool.or_eq_true, Bool.and_eq_true, decide_eq_true_eq, beq_iff_eq,
    Bool.and_eq_false_iff, decide_eq_false_iff_not, ge_iff_le, UInt32.le_iff_toNat_le,
    UInt32.reduceToNat] at h ⊢
  rcases h with (h | h) | rfl
  · omega
  · omega
  · exact .inr (by decide)

theorem scan_word {first : Char} (hword : isWordStart first = true) (start : Nat) (c : Cursor)
    (hblob : opensBlob first c.rest = false) : scan start first c = word start c := by
  have hne : ∀ ch, isWordStart ch = false → (first = ch) = False := fun ch hch => by
    refine eq_false fun h => ?_
    rw [h, hch] at hword
    cases hword
  have hspace : isSpace first = false := by
    simp (disch := decide) only [isSpace, beq_eq_decide, hne, decide_false, Bool.or_false]
  have hdigit := isDigit_of_isWordStart hword
  have hblob' : ((decide (first = 'X') || decide (first = 'x')) && nextIs (· == '\x27') c)
      = false := hblob
  simp (disch := decide) [scan, single?, hne, hspace, hdigit, hword, hblob']

/-- The token at a place where a word starts. -/
theorem lexeme_word {first : Char} {t : List Char} (h : c.rest = first :: t)
    (hword : isWordStart first = true) (hblob : opensBlob first t = false) :
    lexeme c = (wordKind (first :: t.takeWhile isWordChar), c.advance.eatWhile isWordChar) := by
  have hrest := rest_advance_cons h
  have hreads := (reads_advance h).trans (reads_eatWhile isWordChar c.advance)
  rw [lexeme_cons h, scan_word hword _ _ (by rwa [hrest]), word, hreads.sliceFrom, hrest,
    List.singleton_append, wordKind]
  cases Keyword.ofWord? (String.ofList (first :: t.takeWhile isWordChar)) <;> rfl

/-- **Reading a bare word.** -/
theorem munches_word {first : Char} {t : List Char} (h : c.rest = first :: t)
    (hword : isWordStart first = true) (hblob : opensBlob first t = false) :
    Munches lexeme TokenKind.goesOn c (first :: t.takeWhile isWordChar) := by
  have hrest := rest_advance_cons h
  have hreads := reads_eatWhile isWordChar c.advance
  rw [hrest] at hreads
  -- `w` is the rest of the word; a quote directly behind an `x` opens a blob
  generalize hw : t.takeWhile isWordChar = w at hreads ⊢
  have hchars : ∀ ch ∈ w, isWordChar ch = true := fun ch hch => List.mem_takeWhile_imp (hw ▸ hch)
  have hopens : ∀ behind, headIs isWordChar behind = false →
      opensBlob first (w ++ behind)
        = ((first :: w == ['x'] || first :: w == ['X']) && headIs (· == '\x27') behind) := by
    intro behind _
    cases w with
    | nil => simp [opensBlob, Bool.or_comm]
    | cons a w =>
      have ha : a ≠ '\x27' := by
        rintro rfl
        cases hchars _ List.mem_cons_self
      simp [opensBlob, ha]
  have hkind := lexeme_word h hword hblob
  rw [hw] at hkind
  refine ⟨?_, ?_, fun c' behind hc' hstop => ?_⟩
  · rw [hkind]
    exact (reads_advance h).trans hreads
  · have hrun : headIs isWordChar (c.advance.eatWhile isWordChar).rest = false := by
      rw [rest_eatWhile]
      exact headIs_dropWhile _ _
    rw [hkind, goesOn_wordKind hword, hrun, Bool.false_or, ← hopens _ hrun, ← hreads.rest, hrest]
    exact hblob
  · rw [hkind, goesOn_wordKind hword, Bool.or_eq_false_iff] at hstop
    have hc'' : c'.rest = first :: (w ++ behind) := hc'
    have hblob' : opensBlob first (w ++ behind) = false := (hopens _ hstop.1).trans hstop.2
    have hrun := reads_eatWhile isWordChar c'.advance
    rw [rest_advance_cons hc''] at hrun
    rw [hkind, lexeme_word hc'' hword hblob']
    rw [takeWhile_eq hchars hstop.1] at hrun ⊢
    exact ⟨rfl, (reads_advance hc'').trans hrun⟩

/-- **Every token munches**: from a place with a character to come, the token
is not empty, is as long as it can be, and is read the same way wherever its
text comes next and does not go on. -/
theorem munches_lexeme {first : Char} {t : List Char} (h : c.rest = first :: t) :
    ∃ text, Munches lexeme TokenKind.goesOn c (first :: text) := by
  cases hword : isWordStart first with
  | true =>
    cases hblob : opensBlob first t with
    | true =>
      have hquote : headIs (· == '\x27') c.advance.rest = true := by
        rw [rest_advance_cons h]
        exact (Bool.and_eq_true_iff.1 hblob).2
      obtain ⟨text, hmunch⟩ := munches_blob first hquote
      refine ⟨_, hmunch.step h (fun _ => rfl) fun c' behind hc' _ => lexeme_blob hc' ?_⟩
      rw [opensBlob, (Bool.and_eq_true_iff.1 hblob).1]
      rfl
    | false => exact ⟨_, munches_word h hword hblob⟩
  | false =>
    obtain ⟨scanner, hchosen, hscan⟩ := exists_dispatch hword
    obtain ⟨text, hmunch⟩ := hchosen.munches c.advance
    refine ⟨text, hmunch.step h (fun _ => rfl) fun c' behind hc' _ => ?_⟩
    rw [lexeme_cons hc', hscan]

end TolerantSql.Lexer
