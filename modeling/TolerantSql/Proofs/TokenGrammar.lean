import TolerantSql.Proofs.NumberGrammar

/-!
# Tokens are the texts of the lexical grammar

The scanner agrees with the grammar in both directions: what is scanned as a token of a
kind is a text of the kind's language (`lexeme_mem_lexicon`), and a text of a language,
with nothing behind it, is scanned as one token of the kind (`lexeme_of_mem_lexicon`).
Each direction has a lemma for each scanner that repeats something. Put together, they
say that the texts of a kind of token are those of its language
(`isToken_iff_mem_lexicon`).
-/

open Computability

namespace TolerantSql.Lexer

open Cursor

/-! ## Comments, quotes and brackets -/

section Enclosed

variable {c : Cursor} {w : List Char}

/-- **A block comment is read to its first closing**, or to the end. -/
theorem exists_reads_blockComment (c : Cursor) :
    ∃ w ∈ Lexicon.without "*/" * Lexicon.opt (Lexicon.just "*/"),
      Cursor.Reads c w (blockComment c) := by
  have hempty : [] ∈ Lexicon.without "*/" := fun h => by cases List.infix_nil.1 h
  generalize hr : c.rest = r
  induction r generalizing c with
  | nil =>
    rw [blockComment_nil hr]
    exact ⟨[], ⟨[], hempty, [], .inl rfl, rfl⟩, Cursor.Reads.refl c⟩
  | cons ch r ih =>
    by_cases hclose : ch = '*' ∧ r.head? = some '/'
    · obtain ⟨rfl, hslash⟩ := hclose
      obtain ⟨t, rfl⟩ := List.head?_eq_some_iff.1 hslash
      rw [blockComment_close hr]
      exact ⟨['*', '/'], ⟨[], hempty, ['*', '/'], .inr rfl, rfl⟩,
        (reads_advance hr).trans (reads_advance (rest_advance_cons hr))⟩
    · obtain ⟨_, ⟨inside, hinside, close, hclosed, rfl⟩, hreads⟩ :=
        ih c.advance (rest_advance_cons hr)
      rw [blockComment_cons hr hclose]
      refine ⟨ch :: inside ++ close, ⟨ch :: inside, ?_, close, hclosed, rfl⟩,
        (reads_advance hr).trans hreads⟩
      -- a closing that starts with the character would have been seen
      intro hinfix
      rcases List.infix_cons_iff.1 hinfix with hstart | hinfix
      · obtain ⟨t, ht⟩ := hstart
        obtain ⟨rfl, rfl⟩ : '*' = ch ∧ '/' :: t = inside := List.cons.inj ht
        refine hclose ⟨rfl, ?_⟩
        rw [← rest_advance_cons hr, hreads.rest]
        rfl
      · exact hinside hinfix

/-- A block comment at the end of the input is read. -/
theorem rest_blockComment (h : c.rest ∈ Lexicon.without "*/" * Lexicon.opt (Lexicon.just "*/")) :
    (blockComment c).rest = [] := by
  obtain ⟨inside, hinside, close, hclose, hr⟩ := Language.mem_mul.1 h
  clear h
  induction inside generalizing c with
  | nil =>
    rcases hclose with rfl | rfl
    · rw [blockComment_nil hr.symm]
      exact hr.symm
    · have hr' : c.rest = '*' :: '/' :: [] := hr.symm
      rw [blockComment_close hr']
      exact rest_advance_cons (rest_advance_cons hr')
  | cons ch inside ih =>
    have hr' : c.rest = ch :: (inside ++ close) := hr.symm
    have hopen : ¬ (ch = '*' ∧ (inside ++ close).head? = some '/') := by
      rintro ⟨rfl, hslash⟩
      cases inside with
      | nil =>
        rcases hclose with rfl | rfl
        · cases hslash
        · cases hslash
      | cons a t =>
        cases hslash
        exact hinside ⟨[], t, rfl⟩
    rw [blockComment_cons hr' hopen]
    refine ih (fun hinfix => hinside ?_) (rest_advance_cons hr').symm
    exact hinfix.trans (List.infix_cons (List.infix_refl inside))

/-- **A quoted text that is closed is read to its closing quote.** -/
theorem exists_reads_closeQuote {q : Char} (h : (closeQuote q c).1 = true) :
    ∃ w ∈ (Lexicon.one (· != q) + {[q, q]})∗ * Lexicon.one (· == q),
      Cursor.Reads c w (closeQuote q c).2 := by
  generalize hn : c.rest.length = n
  induction n using Nat.strong_induction_on generalizing c with
  | _ n ih =>
    cases hr : c.rest with
    | nil => rw [closeQuote_nil hr] at h; cases h
    | cons ch r =>
      have hr' := rest_advance_cons hr
      have hlen : n = r.length + 1 := by rw [← hn, hr]; rfl
      by_cases hch : ch = q
      · subst hch
        by_cases hdouble : r.head? = some ch
        · obtain ⟨t, rfl⟩ := List.head?_eq_some_iff.1 hdouble
          have hr'' := rest_advance_cons hr'
          rw [closeQuote_double hr] at h ⊢
          obtain ⟨_, ⟨inside, hinside, close, hclose, rfl⟩, hreads⟩ :=
            ih t.length (by rw [hlen, List.length_cons]; omega) h (by rw [hr''])
          exact ⟨[ch, ch] ++ inside ++ close,
            ⟨_, Lexicon.append_mem_kstar (.inr rfl) hinside, close, hclose, rfl⟩,
            (reads_advance hr).trans ((reads_advance hr').trans hreads)⟩
        · rw [closeQuote_close hr hdouble]
          exact ⟨[ch], ⟨[], Language.nil_mem_kstar _, [ch], ⟨ch, beq_self_eq_true ch, rfl⟩, rfl⟩,
            reads_advance hr⟩
      · rw [closeQuote_cons hr hch] at h ⊢
        obtain ⟨_, ⟨inside, hinside, close, hclose, rfl⟩, hreads⟩ :=
          ih r.length (by omega) h (by rw [hr'])
        exact ⟨[ch] ++ inside ++ close,
          ⟨_, Lexicon.append_mem_kstar (.inl ⟨ch, bne_iff_ne.2 hch, rfl⟩) hinside, close, hclose,
            rfl⟩, (reads_advance hr).trans hreads⟩

/-- A quoted text at the end of the input is closed there. -/
theorem closeQuote_of_mem {q : Char}
    (h : c.rest ∈ (Lexicon.one (· != q) + {[q, q]})∗ * Lexicon.one (· == q)) :
    (closeQuote q c).1 = true ∧ (closeQuote q c).2.rest = [] := by
  obtain ⟨inside, hinside, _, ⟨close, hclose, rfl⟩, hr⟩ := Language.mem_mul.1 h
  clear h
  rw [beq_iff_eq.1 hclose] at hr
  induction hinside using Lexicon.kstar_induction generalizing c with
  | nil =>
    rw [closeQuote_close hr.symm (by simp)]
    exact ⟨rfl, rest_advance_cons hr.symm⟩
  | append u v hu _ ih =>
    rcases hu with ⟨ch, hch, rfl⟩ | rfl
    · have hr' : c.rest = ch :: (v ++ [q]) := hr.symm
      rw [closeQuote_cons hr' (bne_iff_ne.1 hch)]
      exact ih (rest_advance_cons hr').symm
    · have hr' : c.rest = q :: q :: (v ++ [q]) := hr.symm
      rw [closeQuote_double hr']
      exact ih (rest_advance_cons (rest_advance_cons hr')).symm

/-- **A bracket that is closed is read to its closing.** -/
theorem exists_reads_closeBracket {close : Char} (h : (closeBracket close c).1 = true) :
    ∃ w ∈ (Lexicon.one (· != close))∗ * Lexicon.one (· == close),
      Cursor.Reads c w (closeBracket close c).2 := by
  have hreads := reads_eatWhile (· != close) c
  rcases eat_cases (c.eatWhile (· != close)) close with ⟨hr, heat⟩ | ⟨-, heat⟩
  · rw [closeBracket, heat]
    refine ⟨_, ⟨_, ?_, [close], ⟨close, beq_self_eq_true close, rfl⟩, rfl⟩,
      hreads.trans (reads_advance hr)⟩
    exact Lexicon.mem_kstar_one.2 fun ch hch =>
      List.mem_takeWhile_imp (p := (· != close)) hch
  · rw [closeBracket, heat] at h
    cases h

/-- A bracket at the end of the input is closed there. -/
theorem closeBracket_of_mem {close : Char}
    (h : c.rest ∈ (Lexicon.one (· != close))∗ * Lexicon.one (· == close)) :
    (closeBracket close c).1 = true ∧ (closeBracket close c).2.rest = [] := by
  obtain ⟨inside, hinside, _, ⟨ch, hch, rfl⟩, hr⟩ := Language.mem_mul.1 h
  rw [beq_iff_eq.1 hch] at hr
  have hrun := reads_eatWhile (· != close) c
  rw [← hr, takeWhile_eq (Lexicon.mem_kstar_one.1 hinside) (by simp)] at hrun
  have hrest := hrun.rest_eq hr.symm
  rw [closeBracket, eat_cons hrest]
  exact ⟨rfl, rest_advance_cons hrest⟩

end Enclosed

/-! ## Words and parameters -/

section Words

variable {c : Cursor} {w : List Char}

theorem reads_eatWhile_of_mem {p : Char → Bool} {behind : List Char}
    (hw : w ∈ (Lexicon.one p)∗) (hc : c.rest = w ++ behind) (hstop : headIs p behind = false) :
    Cursor.Reads c w (c.eatWhile p) := by
  have hreads := reads_eatWhile p c
  rwa [hc, takeWhile_eq (Lexicon.mem_kstar_one.1 hw) hstop] at hreads

theorem takeWhile_mem_kstar (p : Char → Bool) (t : List Char) :
    t.takeWhile p ∈ (Lexicon.one p)∗ :=
  Lexicon.mem_kstar_one.2 fun _ hch => List.mem_takeWhile_imp hch

/-- Before a character of a class, characters of the class are read. -/
theorem takeWhile_mem_run {p : Char → Bool} {t : List Char} (h : headIs p t = true) :
    t.takeWhile p ∈ Lexicon.run p := by
  obtain ⟨a, u, heq, ha⟩ := takeWhile_of_headIs h
  rw [heq]
  exact Lexicon.mem_one_mul.2 ⟨a, u, ha, Lexicon.mem_kstar_one.2 fun ch hch =>
    List.mem_takeWhile_imp (heq ▸ List.mem_cons_of_mem a hch), rfl⟩

theorem run_subset {p : Char → Bool} (hw : w ∈ Lexicon.run p) : w ∈ (Lexicon.one p)∗ := by
  rw [← Language.one_add_self_mul_kstar_eq_kstar]
  exact .inr hw

theorem headIs_run {p : Char → Bool} (hw : w ∈ Lexicon.run p) (behind : List Char) :
    headIs p (w ++ behind) = true := by
  obtain ⟨ch, t, hch, -, rfl⟩ := Lexicon.mem_one_mul.1 hw
  exact hch

/-- A class that is read to the end of the input. -/
theorem rest_eatWhile_of_mem {p : Char → Bool} (h : c.rest ∈ (Lexicon.one p)∗) :
    (c.eatWhile p).rest = [] := by
  rw [rest_eatWhile, List.dropWhile_eq_nil_iff]
  exact Lexicon.mem_kstar_one.1 h

/-- **A word is the keyword that its capitals spell.** -/
theorem ofWord?_eq_some_iff {word : String} {k : Keyword} :
    Keyword.ofWord? word = some k ↔ word.toUpper = k.spelling := by
  have hfind : ∀ k ∈ Keyword.all, Keyword.all.find? (·.spelling == k.spelling) = some k := by
    decide +kernel
  have hall : ∀ k, k ∈ Keyword.all := fun k => by cases k <;> decide
  unfold Keyword.ofWord?
  refine ⟨fun h => ?_, fun h => ?_⟩
  · have hspelling := List.find?_some h
    exact (beq_iff_eq.1 hspelling).symm
  · rw [h]
    exact hfind k (hall k)

theorem mem_lexicon_wordKind (hw : w ∈ Lexicon.word) : w ∈ (wordKind w).lexicon := by
  unfold wordKind
  split
  · next k hk => exact ⟨hw, ofWord?_eq_some_iff.1 hk⟩
  · next hnone =>
    refine .inl ⟨hw, ?_⟩
    rintro ⟨k, hk⟩
    rw [ofWord?_eq_some_iff.2 hk.symm] at hnone
    cases hnone

theorem wordKind_of_mem_keyword {k : Keyword} (h : w ∈ Lexicon.wordIn {k.spelling}) :
    wordKind w = .keyword k := by
  rw [wordKind, ofWord?_eq_some_iff.2 h.2]

theorem wordKind_of_mem_name (h : w ∈ Lexicon.wordIn (Set.range Keyword.spelling)ᶜ) :
    wordKind w = .identifier := by
  unfold wordKind
  split
  · next k hk => exact absurd ⟨k, (ofWord?_eq_some_iff.1 hk).symm⟩ h.2
  · rfl

/-- The segments of a path are read. -/
theorem exists_reads_pathSegments (c : Cursor) :
    ∃ w ∈ (Lexicon.just "::" * Lexicon.run isWordChar)∗, Cursor.Reads c w (pathSegments c) := by
  generalize hn : c.rest.length = n
  induction n using Nat.strong_induction_on generalizing c with
  | _ n ih =>
    cases hpath : pathFollows c.rest with
    | false =>
      rw [pathSegments_of_not hpath]
      exact ⟨[], Language.nil_mem_kstar _, Cursor.Reads.refl c⟩
    | true =>
      obtain ⟨r, hr, hword⟩ := pathFollows_eq_true hpath
      have hr' := rest_advance_cons hr
      have hr'' := rest_advance_cons hr'
      have hname := reads_eatWhile isWordChar c.advance.advance
      have hlen := hname.length_rest
      rw [hr''] at hname hlen
      obtain ⟨w, hw, hreads⟩ := ih (c.advance.advance.eatWhile isWordChar).rest.length
        (by rw [← hn, hr, List.length_cons, List.length_cons]; omega) _ rfl
      rw [pathSegments_of hpath]
      refine ⟨(':' :: ':' :: r.takeWhile isWordChar) ++ w, Lexicon.append_mem_kstar ?_ hw, ?_⟩
      · exact Lexicon.mem_just_mul.2 ⟨_, takeWhile_mem_run hword, rfl⟩
      · exact ((reads_advance hr).trans ((reads_advance hr').trans hname)).trans hreads

/-- Segments of a path start with a colon. -/
theorem headIs_path {q : Char → Bool} {behind : List Char}
    (hw : w ∈ (Lexicon.just "::" * Lexicon.run isWordChar)∗) (hcolon : q ':' = false)
    (hbehind : headIs q behind = false) : headIs q (w ++ behind) = false := by
  induction hw using Lexicon.kstar_induction with
  | nil => exact hbehind
  | append u v hu _ _ =>
    obtain ⟨t, -, rfl⟩ := Lexicon.mem_just_mul.1 hu
    exact hcolon

/-- The segments of a path are read to where there are no more. -/
theorem reads_pathSegments {behind : List Char}
    (hw : w ∈ (Lexicon.just "::" * Lexicon.run isWordChar)∗) (hc : c.rest = w ++ behind)
    (hword : headIs isWordChar behind = false) (hcolon : headIs (· == ':') behind = false) :
    Cursor.Reads c w (pathSegments c) := by
  induction hw using Lexicon.kstar_induction generalizing c with
  | nil =>
    have hpath : pathFollows c.rest = false := by
      rw [hc, pathFollows, List.nil_append, hcolon, Bool.false_and, Bool.false_and]
    rw [pathSegments_of_not hpath]
    exact Cursor.Reads.refl c
  | append u v hu hv ih =>
    obtain ⟨name, hname, rfl⟩ := Lexicon.mem_just_mul.1 hu
    have hr : c.rest = ':' :: ':' :: (name ++ (v ++ behind)) := by
      rw [hc, ← List.append_assoc]
      rfl
    have hr' := rest_advance_cons hr
    have hr'' := rest_advance_cons hr'
    have hpath : pathFollows c.rest = true := by
      rw [hr, pathFollows, List.tail_cons, List.tail_cons, headIs_run hname]
      rfl
    have hreads := reads_eatWhile_of_mem (run_subset hname) hr'' (headIs_path hv rfl hword)
    rw [pathSegments_of hpath]
    exact ((reads_advance hr).trans ((reads_advance hr').trans hreads)).trans
      (ih (hreads.rest_eq hr''))

/-- **What is read behind a `$` makes a parameter with it**, unless it is malformed. -/
theorem dollarVariable_mem_lexicon (h : Cursor.Reads c w (dollarVariable c).2)
    (herror : (dollarVariable c).1.isError = false) :
    '$' :: w ∈ (dollarVariable c).1.lexicon := by
  cases hword : headIs isWordChar c.rest with
  | false =>
    rw [dollarVariable_of_not hword] at herror
    cases hr : c.rest with
    | nil => rw [namedVariable_nil hr] at herror; cases herror
    | cons ch t =>
      rw [hr, headIs_cons] at hword
      rw [namedVariable_cons hr, hword, if_neg Bool.false_ne_true] at herror
      cases herror
  | true =>
    rw [dollarVariable_word hword] at h herror ⊢
    have hname := reads_eatWhile isWordChar c
    obtain ⟨path, hpath, hreads⟩ := exists_reads_pathSegments (c.eatWhile isWordChar)
    have hfront := hname.trans hreads
    have hmem : ∀ suffix ∈ Lexicon.opt (Lexicon.enclosed '(' ')'),
        '$' :: (c.rest.takeWhile isWordChar ++ path ++ suffix) ∈ Lexicon.dollarParameter := by
      intro suffix hsuffix
      rw [List.append_assoc]
      exact Lexicon.mem_just_mul.2
        ⟨_, ⟨_, takeWhile_mem_run hword, _, ⟨path, hpath, suffix, hsuffix, rfl⟩, rfl⟩, rfl⟩
    rcases eat_cases (pathSegments (c.eatWhile isWordChar)) '(' with ⟨hr, -⟩ | ⟨hne, -⟩
    · rw [dollarSuffix_cons hr] at h herror ⊢
      cases hclosed : (closeBracket ')' (pathSegments (c.eatWhile isWordChar)).advance).1 with
      | false => rw [hclosed] at herror; cases herror
      | true =>
        obtain ⟨inside, hinside, hreads'⟩ := exists_reads_closeBracket hclosed
        rw [h.text_unique (hfront.trans ((reads_advance hr).trans hreads')) rfl]
        exact hmem _ (.inr (Lexicon.mem_one_mul.2 ⟨'(', inside, rfl, hinside, rfl⟩))
    · rw [dollarSuffix_of_not hne] at h ⊢
      rw [h.text_unique hfront rfl, ← List.append_nil (_ ++ path)]
      exact hmem [] (.inl rfl)

/-- A `$` parameter at the end of the input is read behind its sigil. -/
theorem dollarVariable_of_mem (h : '$' :: c.rest ∈ Lexicon.dollarParameter) :
    (dollarVariable c).1 = .dollarVariable ∧ (dollarVariable c).2.rest = [] := by
  obtain ⟨t, ht, heq⟩ := Lexicon.mem_just_mul.1 h
  obtain ⟨name, hname, _, ⟨path, hpath, suffix, hsuffix, rfl⟩, rfl⟩ := Language.mem_mul.1 ht
  have hr : c.rest = name ++ (path ++ suffix) := (List.cons.inj heq).2
  have hstop : ∀ q : Char → Bool, q '(' = false → headIs q suffix = false := by
    intro q hq
    rcases hsuffix with rfl | hsuffix
    · rfl
    · obtain ⟨ch, t, hch, -, rfl⟩ := Lexicon.mem_one_mul.1 hsuffix
      rw [beq_iff_eq.1 hch]
      exact hq
  have hreads := reads_eatWhile_of_mem (run_subset hname) hr (headIs_path hpath rfl (hstop _ rfl))
  have hrest := hreads.rest_eq hr
  have hsuffix' := (reads_pathSegments hpath hrest (hstop _ rfl) (hstop _ rfl)).rest_eq hrest
  rw [dollarVariable_word (hr ▸ headIs_run hname _)]
  rcases hsuffix with rfl | hsuffix
  · rw [dollarSuffix_of_not (by rw [hsuffix']; simp)]
    exact ⟨rfl, hsuffix'⟩
  · obtain ⟨ch, inside, hch, hinside, rfl⟩ := Lexicon.mem_one_mul.1 hsuffix
    rw [beq_iff_eq.1 hch] at hsuffix'
    obtain ⟨hclosed, hend⟩ :=
      closeBracket_of_mem ((rest_advance_cons hsuffix').symm ▸ hinside)
    rw [dollarSuffix_cons hsuffix', if_pos hclosed]
    exact ⟨rfl, hend⟩

/-- A parameter at the end of the input is read behind its sigil. -/
theorem namedVariable_of_mem (sigil : Char) (kind : TokenKind)
    (h : c.rest ∈ Lexicon.run isWordChar) :
    (namedVariable sigil kind c).1 = kind ∧ (namedVariable sigil kind c).2.rest = [] := by
  obtain ⟨ch, t, hch, -, hr⟩ := Lexicon.mem_one_mul.1 h
  rw [namedVariable_cons hr, if_pos hch]
  exact ⟨rfl, rest_eatWhile_of_mem (run_subset h)⟩

/-- What is read behind a sigil is a name, unless it is malformed. -/
theorem namedVariable_mem_run {sigil : Char} {kind : TokenKind}
    (h : Cursor.Reads c w (namedVariable sigil kind c).2)
    (herror : (namedVariable sigil kind c).1.isError = false) :
    (namedVariable sigil kind c).1 = kind ∧ w ∈ Lexicon.run isWordChar := by
  cases hr : c.rest with
  | nil => rw [namedVariable_nil hr] at herror; cases herror
  | cons ch t =>
    rw [namedVariable_cons hr] at h herror ⊢
    split at h
    · next hch =>
      rw [if_pos hch, h.text_unique (reads_eatWhile isWordChar c) rfl]
      exact ⟨rfl, takeWhile_mem_run (by rw [hr]; exact hch)⟩
    · next hch => rw [if_neg hch] at herror; cases herror

/-- A blob is read behind its `x`, unless it is malformed. -/
theorem blob_mem_lexicon {first : Char} (hfirst : (first == 'X' || first == 'x') = true)
    (hquote : headIs (· == '\x27') c.rest = true) (h : Cursor.Reads c w (blob c).2)
    (herror : (blob c).1.isError = false) : first :: w ∈ (blob c).1.lexicon := by
  cases hr : c.rest with
  | nil => rw [hr] at hquote; cases hquote
  | cons q t =>
    have hreads := (reads_advance hr).trans (reads_eatWhile isHexDigit c.advance)
    rw [hr, headIs_cons, beq_iff_eq] at hquote
    replace h : Cursor.Reads c w (blobEnd (c.advance.eatWhile isHexDigit)).2 := h
    replace herror : (blobEnd (c.advance.eatWhile isHexDigit)).1.isError = false := herror
    show first :: w ∈ (blobEnd (c.advance.eatWhile isHexDigit)).1.lexicon
    cases hr' : (c.advance.eatWhile isHexDigit).rest with
    | nil => rw [blobEnd_nil hr'] at herror; cases herror
    | cons ch t' =>
      rw [blobEnd_cons hr'] at h herror ⊢
      by_cases hch : ch = '\x27'
      · rw [if_pos hch]
        rw [h.text_unique (hreads.trans (reads_advance hr')) rfl, hquote, hch, List.append_assoc]
        exact Lexicon.mem_one_mul.2 ⟨first, _, hfirst, Lexicon.mem_just_mul.2
          ⟨_, ⟨_, takeWhile_mem_kstar isHexDigit _, ['\x27'], rfl, rfl⟩, rfl⟩, rfl⟩
      · rw [if_neg hch] at herror
        cases herror

/-- A blob at the end of the input is read behind its `x`. -/
theorem blob_of_mem
    (h : c.rest ∈ Lexicon.just "'" * ((Lexicon.one isHexDigit)∗ * Lexicon.just "'")) :
    (blob c).1 = .blob ∧ (blob c).2.rest = [] := by
  obtain ⟨t, ⟨run, hrun, _, rfl, rfl⟩, hc⟩ := Lexicon.mem_just_mul.1 h
  have hr : c.rest = '\x27' :: (run ++ ['\x27']) := hc
  have hr' := rest_advance_cons hr
  have hrest := (reads_eatWhile_of_mem hrun hr' rfl).rest_eq hr'
  have heq : blob c = (.blob, (c.advance.eatWhile isHexDigit).advance) := by
    show blobEnd (c.advance.eatWhile isHexDigit) = _
    rw [blobEnd_cons hrest, if_pos rfl]
  rw [heq]
  exact ⟨rfl, rest_advance_cons hrest⟩

end Words

/-! ## One token -/

section Tokens

variable {c : Cursor} {text : List Char} {kind : TokenKind}

theorem lexicon_of_punctuation {p : String} (hp : kind.punctuation? = some p) :
    kind.lexicon = Lexicon.just p := by
  cases kind <;> first | (cases hp; done) | (cases hp; rfl)

/-- What is read behind a quote makes a quoted text with it, unless it is malformed. -/
theorem quoted_mem_lexicon {q : Char} {inside : String}
    (h : Cursor.Reads c text (quoted q kind inside c).2)
    (herror : (quoted q kind inside c).1.isError = false) :
    (quoted q kind inside c).1 = kind ∧ q :: text ∈ Lexicon.quoted q := by
  rw [quoted_eq] at h herror ⊢
  split at herror
  · next hclosed =>
    obtain ⟨w, hw, hreads⟩ := exists_reads_closeQuote hclosed
    rw [if_pos hclosed, h.text_unique hreads rfl]
    exact ⟨rfl, Lexicon.mem_one_mul.2 ⟨q, w, beq_self_eq_true q, hw, rfl⟩⟩
  · cases herror

/-- **What is read behind a character makes a text of the language with it**, if the
kind is no punctuation and the text not malformed. -/
theorem Dispatch.mem_lexicon {first : Char} {scanner : Cursor → Scan}
    (hchosen : Dispatch first scanner) (h : Cursor.Reads c text (scanner c).2)
    (herror : (scanner c).1.isError = false) (hp : (scanner c).1.punctuation? = none) :
    first :: text ∈ (scanner c).1.lexicon := by
  cases hchosen with
  | space hspace =>
    rw [h.text_unique (reads_eatWhile isSpace c) rfl]
    exact Lexicon.mem_one_mul.2 ⟨first, _, hspace, takeWhile_mem_kstar isSpace _, rfl⟩
  | single hsingle =>
    unfold single? at hsingle
    split_ifs at hsingle <;> cases hsingle <;> cases hp
  | dash =>
    rcases eat_cases c '-' with ⟨hr, heat⟩ | ⟨-, heat⟩
    · rw [Lexer.dash, heat] at h ⊢
      rw [h.text_unique ((reads_advance hr).trans (reads_eatWhile _ c.advance)) rfl]
      exact Lexicon.mem_just_mul.2 ⟨_, takeWhile_mem_kstar _ _, rfl⟩
    · rw [Lexer.dash, heat] at hp
      dsimp only at hp
      split at hp
      · cases hp
      · split at hp <;> cases hp
  | slash =>
    rcases eat_cases c '*' with ⟨hr, heat⟩ | ⟨-, heat⟩
    · obtain ⟨w, hw, hreads⟩ := exists_reads_blockComment c.advance
      rw [Lexer.slash, heat] at h ⊢
      rw [h.text_unique ((reads_advance hr).trans hreads) rfl]
      exact Lexicon.mem_just_mul.2 ⟨w, hw, rfl⟩
    · rw [Lexer.slash, heat] at hp
      cases hp
  | equals => unfold either at hp; split at hp <;> cases hp
  | less =>
    unfold Lexer.less either at hp
    split at hp
    · cases hp
    · split at hp
      · cases hp
      · split at hp <;> cases hp
  | greater =>
    unfold Lexer.greater either at hp
    split at hp
    · cases hp
    · split at hp <;> cases hp
  | bang =>
    rcases eat_cases c '=' with ⟨-, heat⟩ | ⟨-, heat⟩
    · rw [Lexer.bang, heat] at hp
      cases hp
    · rw [Lexer.bang, heat] at herror
      dsimp only at herror
      split at herror <;> cases herror
  | bar => unfold either at hp; split at hp <;> cases hp
  | dot =>
    rw [Lexer.dot] at h hp ⊢
    split at hp
    · next hdigit =>
      obtain ⟨w, hw, hreads⟩ := exists_reads_pointNumber hdigit
      rw [if_pos hdigit] at h ⊢
      rw [h.text_unique hreads rfl]
      exact hw
    · cases hp
  | string =>
    obtain ⟨hkind, hquoted⟩ := quoted_mem_lexicon h herror
    rw [hkind]
    exact hquoted
  | doubleQuote =>
    obtain ⟨hkind, hquoted⟩ := quoted_mem_lexicon h herror
    rw [hkind]
    exact .inr (.inl (.inl hquoted))
  | backquote =>
    obtain ⟨hkind, hquoted⟩ := quoted_mem_lexicon h herror
    rw [hkind]
    exact .inr (.inl (.inr hquoted))
  | bracket =>
    rw [bracketed_eq] at h herror ⊢
    split at herror
    · next hclosed =>
      obtain ⟨w, hw, hreads⟩ := exists_reads_closeBracket hclosed
      rw [if_pos hclosed, h.text_unique hreads rfl]
      exact .inr (.inr (Lexicon.mem_one_mul.2 ⟨'[', w, rfl, hw, rfl⟩))
    · cases herror
  | question =>
    rw [h.text_unique (reads_eatWhile Char.isDigit c) rfl]
    exact Lexicon.mem_just_mul.2 ⟨_, takeWhile_mem_kstar _ _, rfl⟩
  | colon =>
    obtain ⟨hkind, hname⟩ := namedVariable_mem_run h herror
    rw [hkind]
    exact Lexicon.mem_just_mul.2 ⟨text, hname, rfl⟩
  | atSign =>
    obtain ⟨hkind, hname⟩ := namedVariable_mem_run h herror
    rw [hkind]
    exact Lexicon.mem_just_mul.2 ⟨text, hname, rfl⟩
  | dollar => exact dollarVariable_mem_lexicon h herror
  | digit hfirst =>
    obtain ⟨w, hw, hreads⟩ := exists_reads_number hfirst c
    rw [h.text_unique hreads rfl]
    exact hw
  | unexpected => cases herror

/-- **What is scanned as a token is a text of its kind's language**, unless it is
malformed. -/
theorem lexeme_mem_lexicon {first : Char} {t : List Char} (hr : c.rest = first :: t)
    (h : Cursor.Reads c text (lexeme c).2) (herror : (lexeme c).1.isError = false) :
    text ∈ (lexeme c).1.lexicon := by
  cases hp : (lexeme c).1.punctuation? with
  | some p =>
    have hspells := spells_lexeme hr h
    rw [TokenKind.spells, hp, Bool.and_eq_true, Bool.and_eq_true] at hspells
    rw [lexicon_of_punctuation hp]
    exact beq_iff_eq.1 hspells.1.2
  | none =>
    cases hword : isWordStart first with
    | true =>
      cases hblob : opensBlob first t with
      | true =>
        obtain ⟨hx, hquote⟩ := Bool.and_eq_true_iff.1 hblob
        rw [← rest_advance_cons hr] at hquote
        obtain ⟨text', hmunch⟩ := munches_blob first hquote
        rw [lexeme_blob hr hblob] at h herror ⊢
        rw [h.text_unique ((reads_advance hr).trans hmunch.reads) rfl]
        exact blob_mem_lexicon hx hquote hmunch.reads herror
      | false =>
        rw [h.text_unique (munches_word hr hword hblob).reads rfl, lexeme_word hr hword hblob]
        exact mem_lexicon_wordKind
          (Lexicon.mem_one_mul.2 ⟨first, _, hword, takeWhile_mem_kstar _ _, rfl⟩)
    | false =>
      obtain ⟨scanner, hchosen, hscan⟩ := exists_dispatch hword
      obtain ⟨text', hmunch⟩ := hchosen.munches c.advance
      rw [lexeme_cons hr, hscan] at h herror hp ⊢
      rw [h.text_unique ((reads_advance hr).trans hmunch.reads) rfl]
      exact hchosen.mem_lexicon hmunch.reads herror hp

/-- A digit chooses the scanner for numbers. -/
theorem scan_digit {first : Char} (hfirst : first.isDigit = true) (start : Nat) (c : Cursor) :
    scan start first c = (.numeric, number first c) := by
  have hne : ∀ ch, ch.isDigit = false → (first = ch) = False := fun ch hch => by
    refine eq_false fun h => ?_
    rw [h, hch] at hfirst
    cases hfirst
  have hspace : isSpace first = false := by
    simp (disch := decide) only [isSpace, beq_eq_decide, hne, decide_false, Bool.or_false]
  simp (disch := decide) [scan, single?, hne, hspace, hfirst]

/-- A word at the end of the input is read. -/
theorem lexeme_of_mem_word (h : c.rest ∈ Lexicon.word) :
    (lexeme c).1 = wordKind c.rest ∧ (lexeme c).2.rest = [] := by
  obtain ⟨first, t, hfirst, ht, hr⟩ := Lexicon.mem_one_mul.1 h
  have hall := Lexicon.mem_kstar_one.1 ht
  have hblob : opensBlob first t = false := by
    cases t with
    | nil => exact Bool.and_false _
    | cons a t =>
      have ha : a ≠ '\x27' := by
        rintro rfl
        cases hall _ List.mem_cons_self
      rw [opensBlob, headIs_cons, beq_false_of_ne ha, Bool.and_false]
  rw [lexeme_word hr hfirst hblob, List.takeWhile_eq_self_iff.2 hall, hr]
  exact ⟨rfl, rest_eatWhile_of_mem ((rest_advance_cons hr).symm ▸ ht)⟩

/-- A quoted text at the end of the input is read behind its first quote. -/
theorem quoted_of_mem {q : Char} (kind : TokenKind) (inside : String)
    (h : c.rest ∈ Lexicon.quoted q) :
    ∃ t, c.rest = q :: t ∧ (quoted q kind inside c.advance).1 = kind
      ∧ (quoted q kind inside c.advance).2.rest = [] := by
  obtain ⟨ch, t, hch, ht, hr⟩ := Lexicon.mem_one_mul.1 h
  rw [beq_iff_eq.1 hch] at hr
  obtain ⟨hclosed, hend⟩ := closeQuote_of_mem ((rest_advance_cons hr).symm ▸ ht)
  rw [quoted_eq, if_pos hclosed]
  exact ⟨t, hr, rfl, hend⟩

theorem lexeme_punctuation {p : String} (hp : kind.punctuation? = some p) :
    (lexeme (.ofChars p.toList)).1 = kind ∧ (lexeme (.ofChars p.toList)).2.rest = [] := by
  cases kind <;> first | (cases hp; done) | (cases hp; exact ⟨rfl, rfl⟩)

/-- **A text of a language is scanned as one token of the kind**, with nothing behind
it. -/
theorem lexeme_of_mem_lexicon (h : text ∈ kind.lexicon) :
    (lexeme (.ofChars text)).1 = kind ∧ (lexeme (.ofChars text)).2.rest = [] := by
  cases hp : kind.punctuation? with
  | some p =>
    rw [lexicon_of_punctuation hp, Lexicon.mem_just] at h
    rw [h]
    exact lexeme_punctuation hp
  | none =>
    generalize hc : Cursor.ofChars text = c
    have hrest : c.rest = text := by rw [← hc]; rfl
    cases kind with
    | whitespace =>
      obtain ⟨first, t, hfirst, ht, rfl⟩ := Lexicon.mem_one_mul.1 h
      rw [lexeme_space hrest hfirst]
      exact ⟨rfl, rest_eatWhile_of_mem ((rest_advance_cons hrest).symm ▸ ht)⟩
    | keyword k =>
      rw [← wordKind_of_mem_keyword h, ← hrest]
      exact lexeme_of_mem_word (hrest ▸ h.1)
    | identifier =>
      rcases h with hname | (hquoted | hquoted) | hbracket
      · rw [← wordKind_of_mem_name hname, ← hrest]
        exact lexeme_of_mem_word (hrest ▸ hname.1)
      · obtain ⟨t, hr, hread⟩ := quoted_of_mem .identifier "quoted identifier" (hrest ▸ hquoted)
        rw [lexeme_cons hr]
        exact hread
      · obtain ⟨t, hr, hread⟩ := quoted_of_mem .identifier "quoted identifier" (hrest ▸ hquoted)
        rw [lexeme_cons hr]
        exact hread
      · obtain ⟨q, t, hq, ht, rfl⟩ := Lexicon.mem_one_mul.1 hbracket
        rw [beq_iff_eq.1 hq] at hrest
        obtain ⟨hclosed, hend⟩ := closeBracket_of_mem ((rest_advance_cons hrest).symm ▸ ht)
        have heq : lexeme c = bracketed c.advance := lexeme_cons hrest
        rw [heq, bracketed_eq, if_pos hclosed]
        exact ⟨rfl, hend⟩
    | string =>
      obtain ⟨t, hr, hread⟩ := quoted_of_mem .string "string literal" (hrest ▸ h)
      rw [lexeme_cons hr]
      exact hread
    | blob =>
      obtain ⟨first, t, hfirst, ht, rfl⟩ := Lexicon.mem_one_mul.1 h
      have hblob : opensBlob first t = true := by
        obtain ⟨t, -, rfl⟩ := Lexicon.mem_just_mul.1 ht
        rw [opensBlob, hfirst]
        rfl
      rw [lexeme_blob hrest hblob]
      exact blob_of_mem ((rest_advance_cons hrest).symm ▸ ht)
    | numeric =>
      obtain ⟨first, t, rfl, hfirst⟩ := exists_cons_of_mem_number h
      have hr' := rest_advance_cons hrest
      rw [← hr'] at h
      rcases hfirst with hdigit | rfl
      · rw [lexeme_cons hrest, scan_digit hdigit]
        exact ⟨rfl, rest_number hdigit h⟩
      · obtain ⟨hdigit, hend⟩ := rest_pointNumber h
        have heq : lexeme c = dot c.advance := lexeme_cons hrest
        rw [heq, dot, nextIs_eq, if_pos hdigit]
        exact ⟨rfl, hend⟩
    | lineComment =>
      obtain ⟨t, ht, rfl⟩ := Lexicon.mem_just_mul.1 h
      have hr : c.rest = '-' :: '-' :: t := hrest
      have hr' := rest_advance_cons hr
      have heq : lexeme c = dash c.advance := lexeme_cons hr
      rw [heq, dash, eat_cons hr']
      exact ⟨rfl, rest_eatWhile_of_mem ((rest_advance_cons hr').symm ▸ ht)⟩
    | blockComment =>
      obtain ⟨t, ht, rfl⟩ := Lexicon.mem_just_mul.1 h
      have hr : c.rest = '/' :: '*' :: t := hrest
      have hr' := rest_advance_cons hr
      have heq : lexeme c = slash c.advance := lexeme_cons hr
      rw [heq, slash, eat_cons hr']
      exact ⟨rfl, rest_blockComment ((rest_advance_cons hr').symm ▸ ht)⟩
    | questionVariable =>
      obtain ⟨t, ht, rfl⟩ := Lexicon.mem_just_mul.1 h
      have hr : c.rest = '?' :: t := hrest
      rw [lexeme_cons hr]
      exact ⟨rfl, rest_eatWhile_of_mem ((rest_advance_cons hr).symm ▸ ht)⟩
    | colonVariable =>
      obtain ⟨t, ht, rfl⟩ := Lexicon.mem_just_mul.1 h
      have hr : c.rest = ':' :: t := hrest
      rw [lexeme_cons hr]
      exact namedVariable_of_mem ':' .colonVariable ((rest_advance_cons hr).symm ▸ ht)
    | atVariable =>
      obtain ⟨t, ht, rfl⟩ := Lexicon.mem_just_mul.1 h
      have hr : c.rest = '@' :: t := hrest
      rw [lexeme_cons hr]
      exact namedVariable_of_mem '@' .atVariable ((rest_advance_cons hr).symm ▸ ht)
    | dollarVariable =>
      obtain ⟨t, ht, rfl⟩ := Lexicon.mem_just_mul.1 h
      have hr : c.rest = '$' :: t := hrest
      rw [lexeme_cons hr]
      exact dollarVariable_of_mem ((rest_advance_cons hr).symm ▸ h)
    | _ => first | (cases hp; done) | cases h

/-- **The texts of a kind of token are those of its language.** -/
theorem isToken_iff_mem_lexicon (herror : kind.isError = false) :
    IsToken kind text ↔ text ∈ kind.lexicon := by
  refine ⟨fun h => ?_, fun h => ?_⟩
  · obtain ⟨hkind, hreads⟩ := h.reads (.ofChars text) [] (List.append_nil text).symm
      (goesOn_nil text herror)
    cases text with
    | nil => exact absurd rfl h.ne_nil
    | cons first t =>
      have hmem := lexeme_mem_lexicon rfl hreads (hkind ▸ herror)
      rwa [hkind] at hmem
  · obtain ⟨hkind, hend⟩ := lexeme_of_mem_lexicon h
    have hne : text ≠ [] := by
      -- with nothing to come the scanner finds the end, which has no language
      rintro rfl
      replace hkind : TokenKind.eof = kind := hkind
      rw [← hkind] at h
      cases h
    obtain ⟨text', htoken, hreads, -⟩ := exists_isToken (c := .ofChars text) hne
    have htext : text = text' := by
      have hrest := hreads.rest
      rwa [hend, List.append_nil] at hrest
    rw [htext, ← hkind]
    exact htoken

/-- The tokens of a source are texts of their languages, the malformed ones and the end
aside. -/
theorem mem_lexicon_of_mem_tokenize {source : String} {t : Token} (ht : t ∈ tokenize source)
    (hkind : t.kind = kind) (herror : kind.isError = false) (heof : kind.isEof = false) :
    t.text.toList ∈ kind.lexicon := by
  subst hkind
  exact (isToken_iff_mem_lexicon herror).1 ((lexes_tokenize source).isToken_of_mem ht heof)

end Tokens

end TolerantSql.Lexer
