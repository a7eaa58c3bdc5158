import TolerantSql.Proofs.LexicalGrammar

/-!
# Numbers of the lexical grammar

Behind a digit the scanner reads what makes a number with it (`exists_reads_number`), and
a number with nothing behind it is read whole (`rest_number`). Both are put together from
the same two facts about digits and about an exponent. That one part of a number ends
where the next one begins is a matter of their first characters.
-/

namespace TolerantSql.Lexer

open Cursor

section Digits

variable {isDigit : Char → Bool} {afterDigit : Bool} {c : Cursor} {ch : Char} {t : List Char}

theorem digits_digit (hr : c.rest = ch :: t) (hch : isDigit ch = true) :
    digits isDigit afterDigit c = digits isDigit true c.advance := by
  rw [digits_cons hr, if_pos hch]

theorem digits_underscore (hr : c.rest = '_' :: ch :: t) (hch : isDigit ch = true) :
    digits isDigit true c = digits isDigit true c.advance.advance := by
  have hnext : ∀ afterDigit, digits isDigit afterDigit c.advance
      = digits isDigit true c.advance.advance := fun _ => digits_digit (rest_advance_cons hr) hch
  rw [digits_cons hr, headIs_cons, hch]
  cases isDigit '_' with
  | true => exact hnext true
  | false => exact hnext false

theorem exists_reads_moreDigits (isDigit : Char → Bool) (c : Cursor) :
    ∃ w ∈ Lexicon.moreDigits isDigit, Cursor.Reads c w (digits isDigit true c) := by
  generalize hn : c.rest.length = n
  induction n using Nat.strong_induction_on generalizing c with
  | _ n ih =>
    cases hgo : digitsGoOn isDigit true c.rest with
    | false => exact ⟨[], Language.nil_mem_kstar _, reads_digits_nil hgo⟩
    | true =>
      cases hr : c.rest with
      | nil => rw [hr] at hgo; cases hgo
      | cons ch t =>
        have hr' := rest_advance_cons hr
        have hlen : n = t.length + 1 := by rw [← hn, hr]; rfl
        rw [hr, digitsGoOn, Bool.and_true, Bool.or_eq_true, Bool.and_eq_true, beq_iff_eq] at hgo
        rcases hgo with hdigit | ⟨rfl, hnext⟩
        · obtain ⟨w, hw, hreads⟩ := ih t.length (by omega) c.advance (by rw [hr'])
          refine ⟨[ch] ++ w, Lexicon.append_mem_kstar ?_ hw, ?_⟩
          · exact ⟨[], .inl rfl, [ch], ⟨ch, hdigit, rfl⟩, rfl⟩
          · rw [digits_digit hr hdigit]
            exact (reads_advance hr).trans hreads
        · cases t with
          | nil => cases hnext
          | cons d t =>
            have hr'' := rest_advance_cons hr'
            obtain ⟨w, hw, hreads⟩ := ih t.length (by rw [hlen, List.length_cons]; omega)
              c.advance.advance (by rw [hr''])
            refine ⟨['_', d] ++ w, Lexicon.append_mem_kstar ?_ hw, ?_⟩
            · exact ⟨['_'], .inr rfl, [d], ⟨d, hnext, rfl⟩, rfl⟩
            · rw [digits_underscore hr hnext]
              exact ((reads_advance hr).trans (reads_advance hr')).trans hreads

/-- **Before a digit, digits are read.** -/
theorem exists_reads_digits (afterDigit : Bool) (h : headIs isDigit c.rest = true) :
    ∃ w ∈ Lexicon.digits isDigit, Cursor.Reads c w (digits isDigit afterDigit c) := by
  cases hr : c.rest with
  | nil => rw [hr] at h; cases h
  | cons ch t =>
    rw [hr, headIs_cons] at h
    obtain ⟨w, hw, hreads⟩ := exists_reads_moreDigits isDigit c.advance
    refine ⟨ch :: w, Lexicon.mem_one_mul.2 ⟨ch, w, h, hw, rfl⟩, ?_⟩
    rw [digits_digit hr h]
    exact (reads_advance hr).trans hreads

variable {w behind : List Char}

theorem reads_moreDigits (hw : w ∈ Lexicon.moreDigits isDigit) (hc : c.rest = w ++ behind)
    (hstop : digitsGoOn isDigit true behind = false) :
    Cursor.Reads c w (digits isDigit true c) := by
  induction hw using Lexicon.kstar_induction generalizing c with
  | nil => exact reads_digits_nil (hc ▸ hstop)
  | append u v hu _ ih =>
    obtain ⟨_, hunder, _, ⟨ch, hch, rfl⟩, rfl⟩ := Language.mem_mul.1 hu
    rcases hunder with rfl | rfl
    · have hr : c.rest = ch :: (v ++ behind) := hc
      rw [digits_digit hr hch]
      exact (reads_advance hr).trans (ih (rest_advance_cons hr))
    · have hr : c.rest = '_' :: ch :: (v ++ behind) := hc
      have hr' := rest_advance_cons hr
      rw [digits_underscore hr hch]
      exact ((reads_advance hr).trans (reads_advance hr')).trans (ih (rest_advance_cons hr'))

/-- **Digits are read to where they do not go on.** -/
theorem reads_digits (hw : w ∈ Lexicon.digits isDigit) (hc : c.rest = w ++ behind)
    (hstop : digitsGoOn isDigit true behind = false) :
    Cursor.Reads c w (digits isDigit afterDigit c) := by
  obtain ⟨ch, t, hch, ht, rfl⟩ := Lexicon.mem_one_mul.1 hw
  have hr : c.rest = ch :: (t ++ behind) := hc
  rw [digits_digit hr hch]
  exact (reads_advance hr).trans (reads_moreDigits ht (rest_advance_cons hr) hstop)

/-- Digits start with a digit. -/
theorem headIs_digits (hw : w ∈ Lexicon.digits isDigit) (behind : List Char) :
    headIs isDigit (w ++ behind) = true := by
  obtain ⟨ch, t, hch, -, rfl⟩ := Lexicon.mem_one_mul.1 hw
  exact hch

/-- More digits start with a digit or an underscore. -/
theorem headIs_moreDigits {q : Char → Bool} (hw : w ∈ Lexicon.moreDigits isDigit)
    (hdigit : ∀ ch, isDigit ch = true → q ch = false) (hunder : q '_' = false)
    (hbehind : headIs q behind = false) : headIs q (w ++ behind) = false := by
  induction hw using Lexicon.kstar_induction with
  | nil => exact hbehind
  | append u v hu _ _ =>
    obtain ⟨_, hunder', _, ⟨ch, hch, rfl⟩, rfl⟩ := Language.mem_mul.1 hu
    rcases hunder' with rfl | rfl
    · exact hdigit ch hch
    · exact hunder

/-- Digits are read, or nothing. -/
theorem exists_reads_optDigits (isDigit : Char → Bool) (c : Cursor) :
    ∃ w ∈ Lexicon.opt (Lexicon.digits isDigit), Cursor.Reads c w (digits isDigit false c) := by
  cases h : headIs isDigit c.rest with
  | true =>
    obtain ⟨w, hw, hreads⟩ := exists_reads_digits false h
    exact ⟨w, .inr hw, hreads⟩
  | false =>
    refine ⟨[], .inl rfl, reads_digits_nil ?_⟩
    cases hr : c.rest with
    | nil => rfl
    | cons ch t =>
      rw [hr, headIs_cons] at h
      rw [digitsGoOn, h, Bool.and_false]
      rfl

/-- Digits that may be missing are read to where they do not go on. -/
theorem reads_optDigits (hw : w ∈ Lexicon.opt (Lexicon.digits isDigit)) (hc : c.rest = w ++ behind)
    (hstop : digitsGoOn isDigit true behind = false) :
    Cursor.Reads c w (digits isDigit false c) := by
  rcases hw with rfl | hw
  · refine reads_digits_nil ?_
    rw [hc, List.nil_append]
    cases behind with
    | nil => rfl
    | cons ch t =>
      rw [digitsGoOn, (Bool.or_eq_false_iff.1 hstop).1, Bool.and_false]
      rfl
  · exact reads_digits hw hc hstop

end Digits

section Numbers

variable {c : Cursor} {first : Char} {w : List Char}

/-- **An exponent is read, or nothing.** -/
theorem exists_reads_exponent (c : Cursor) :
    ∃ w ∈ Lexicon.opt Lexicon.exponent, Cursor.Reads c w (exponent c) := by
  cases hfollows : exponentFollows c.rest with
  | false => exact ⟨[], .inl rfl, reads_exponent_nil hfollows⟩
  | true =>
    cases hr : c.rest with
    | nil => rw [hr] at hfollows; cases hfollows
    | cons mark t =>
      have hr' := rest_advance_cons hr
      rw [hr, exponentFollows, Bool.and_eq_true] at hfollows
      obtain ⟨hmark, hdigits⟩ := hfollows
      rw [exponent_eq hr, if_pos hmark]
      cases hdigit : headIs Char.isDigit t with
      | true =>
        obtain ⟨w, hw, hreads⟩ := exists_reads_digits false (hr'.symm ▸ hdigit)
        refine ⟨mark :: w, .inr ?_, (reads_advance hr).trans hreads⟩
        exact Lexicon.mem_one_mul.2 ⟨mark, w, hmark, ⟨[], .inl rfl, w, hw, rfl⟩, rfl⟩
      | false =>
        rw [hdigit, Bool.false_or] at hdigits
        rw [if_neg Bool.false_ne_true, if_pos hdigits]
        rw [Bool.and_eq_true] at hdigits
        cases t with
        | nil => cases hdigits.1
        | cons sign t =>
          have hr'' := rest_advance_cons hr'
          obtain ⟨w, hw, hreads⟩ :=
            exists_reads_digits false (hr''.symm ▸ hdigits.2)
          refine ⟨mark :: ([sign] ++ w), .inr ?_,
            (reads_advance hr).trans ((reads_advance hr').trans hreads)⟩
          exact Lexicon.mem_one_mul.2 ⟨mark, _, hmark,
            ⟨[sign], .inr ⟨sign, hdigits.1, rfl⟩, w, hw, rfl⟩, rfl⟩

/-- An exponent at the end of the input is read. -/
theorem rest_exponent (h : c.rest ∈ Lexicon.opt Lexicon.exponent) : (exponent c).rest = [] := by
  rcases h with hnil | hexp
  · have hreads := reads_exponent_nil (c := c) (by rw [hnil]; rfl)
    exact hreads.rest.symm.trans hnil
  · obtain ⟨mark, t, hmark, ht, hr⟩ := Lexicon.mem_one_mul.1 hexp
    obtain ⟨sign, hsign, run, hrun, rfl⟩ := Language.mem_mul.1 ht
    have hr' := rest_advance_cons hr
    have hend : run = run ++ [] := (List.append_nil run).symm
    rw [exponent_eq hr, if_pos hmark]
    rcases hsign with rfl | ⟨sign, hsign, rfl⟩
    · have hdigit : headIs Char.isDigit ([] ++ run) = true := hend ▸ headIs_digits hrun []
      rw [if_pos hdigit]
      exact (reads_digits hrun (hr'.trans hend) rfl).rest_eq (hr'.trans hend)
    · have hr'' := rest_advance_cons hr'
      have hdigit : headIs Char.isDigit run = true := hend ▸ headIs_digits hrun []
      have hnot : sign.isDigit = false := by
        rcases (by simpa using hsign : sign = '+' ∨ sign = '-') with rfl | rfl <;> rfl
      replace hsign : (sign == '+' || sign == '-') = true := hsign
      rw [List.singleton_append, headIs_cons, headIs_cons, List.tail_cons, hnot, hsign, hdigit,
        if_neg Bool.false_ne_true, if_pos (by rfl)]
      exact (reads_digits hrun (hr''.trans hend) rfl).rest_eq (hr''.trans hend)

/-- An exponent, if it is there, starts with its marker. -/
theorem headIs_exponent {e : List Char} (h : e ∈ Lexicon.opt Lexicon.exponent) {q : Char → Bool}
    (hsmall : q 'e' = false) (hlarge : q 'E' = false) : headIs q e = false := by
  rcases h with rfl | h
  · rfl
  · obtain ⟨mark, t, hmark, -, rfl⟩ := Lexicon.mem_one_mul.1 h
    rcases (by simpa using hmark : mark = 'e' ∨ mark = 'E') with rfl | rfl
    · exact hsmall
    · exact hlarge

/-- Digits do not go on into an exponent. -/
theorem digitsGoOn_exponent {e : List Char} (h : e ∈ Lexicon.opt Lexicon.exponent) :
    digitsGoOn Char.isDigit true e = false := by
  have hdigit := headIs_exponent h (q := Char.isDigit) rfl rfl
  have hunder := headIs_exponent h (q := (· == '_')) rfl rfl
  cases e with
  | nil => rfl
  | cons ch t =>
    rw [headIs_cons] at hdigit hunder
    rw [digitsGoOn, hdigit, hunder]
    rfl

/-- Decimal numbers start with a digit or a point. -/
theorem exists_cons_of_mem_decimal (h : w ∈ Lexicon.decimal) :
    ∃ ch t, w = ch :: t ∧ (ch.isDigit = true ∨ ch = '.') := by
  rcases h with ⟨_, hdigits, f, -, rfl⟩ | hpoint
  · obtain ⟨ch, t, hch, -, rfl⟩ := Lexicon.mem_one_mul.1 hdigits
    exact ⟨ch, t ++ f, rfl, .inl hch⟩
  · obtain ⟨t, -, rfl⟩ := Lexicon.mem_just_mul.1 hpoint
    exact ⟨'.', t, rfl, .inr rfl⟩

theorem exists_cons_of_mem_number (h : w ∈ Lexicon.number) :
    ∃ ch t, w = ch :: t ∧ (ch.isDigit = true ∨ ch = '.') := by
  rcases h with hhex | ⟨a, ha, e, -, rfl⟩
  · obtain ⟨t, -, rfl⟩ := Lexicon.mem_just_mul.1 hhex
    exact ⟨'0', t, rfl, .inl rfl⟩
  · obtain ⟨ch, t, rfl, hch⟩ := exists_cons_of_mem_decimal ha
    exact ⟨ch, t ++ e, rfl, hch⟩

/-- Decimal numbers behind a first digit. -/
theorem cons_mem_decimal (hfirst : first.isDigit = true) :
    first :: w ∈ Lexicon.decimal ↔ w ∈ Lexicon.moreDigits Char.isDigit * Lexicon.fraction := by
  rw [Lexicon.decimal, Language.mem_add, Lexicon.digits, mul_assoc, Lexicon.mem_one_mul,
    Lexicon.mem_just_mul]
  constructor
  · rintro (⟨ch, t, -, ht, heq⟩ | ⟨t, -, heq⟩)
    · cases heq
      exact ht
    · cases heq
      cases hfirst
  · exact fun h => .inl ⟨first, w, hfirst, h, rfl⟩

/-- The digits on both sides of a point are read. -/
theorem exists_reads_fractionPart (c : Cursor) :
    ∃ w ∈ Lexicon.moreDigits Char.isDigit * Lexicon.fraction,
      Cursor.Reads c w (fractionPart (wholePart c).1 (wholePart c).2) := by
  obtain ⟨whole, hwhole, hreads⟩ := exists_reads_moreDigits Char.isDigit c
  rcases eat_cases (digits Char.isDigit true c) '.' with ⟨hr, heat⟩ | ⟨-, heat⟩
  · obtain ⟨fraction, hfraction, hreads'⟩ :=
      exists_reads_optDigits Char.isDigit (digits Char.isDigit true c).advance
    rw [wholePart, heat]
    refine ⟨whole ++ (['.'] ++ fraction), ?_, hreads.trans ((reads_advance hr).trans hreads')⟩
    exact ⟨whole, hwhole, _, .inr ⟨['.'], rfl, fraction, hfraction, rfl⟩, rfl⟩
  · rw [wholePart, heat]
    exact ⟨whole, ⟨whole, hwhole, [], .inl rfl, List.append_nil _⟩, hreads⟩

/-- **What is read behind a digit makes a number with it.** -/
theorem exists_reads_number (hfirst : first.isDigit = true) (c : Cursor) :
    ∃ w, first :: w ∈ Lexicon.number ∧ Cursor.Reads c w (number first c) := by
  rw [number_eq]
  cases hhex : first == '0' && hexFollows c.rest with
  | true =>
    obtain ⟨hzero, hfollows⟩ := Bool.and_eq_true_iff.1 hhex
    cases hr : c.rest with
    | nil => rw [hr] at hfollows; cases hfollows
    | cons mark t =>
      rw [hr, hexFollows, Bool.and_eq_true] at hfollows
      obtain ⟨w, hw, hreads⟩ := exists_reads_digits false
        ((rest_advance_cons hr).symm ▸ hfollows.2)
      refine ⟨mark :: w, .inl ?_, (reads_advance hr).trans hreads⟩
      rw [beq_iff_eq.1 hzero]
      exact Lexicon.mem_just_mul.2
        ⟨mark :: w, Lexicon.mem_one_mul.2 ⟨mark, w, hfollows.1, hw, rfl⟩, rfl⟩
  | false =>
    obtain ⟨w, hw, hreads⟩ := exists_reads_fractionPart c
    obtain ⟨e, he, hreads'⟩ :=
      exists_reads_exponent (fractionPart (wholePart c).1 (wholePart c).2)
    refine ⟨w ++ e, .inr ?_, hreads.trans hreads'⟩
    exact ⟨first :: w, (cons_mem_decimal hfirst).2 hw, e, he, rfl⟩

/-- What is read behind a point and before a digit makes a number with the point. -/
theorem exists_reads_pointNumber (h : headIs Char.isDigit c.rest = true) :
    ∃ w, '.' :: w ∈ Lexicon.number ∧ Cursor.Reads c w (exponent (digits Char.isDigit false c)) := by
  obtain ⟨w, hw, hreads⟩ := exists_reads_digits false h
  obtain ⟨e, he, hreads'⟩ := exists_reads_exponent (digits Char.isDigit false c)
  refine ⟨w ++ e, .inr ?_, hreads.trans hreads'⟩
  exact ⟨'.' :: w, .inr ⟨['.'], rfl, w, hw, rfl⟩, e, he, rfl⟩

/-- Digits on both sides of a point are read up to an exponent. -/
theorem rest_fractionPart {e : List Char}
    (hw : w ∈ Lexicon.moreDigits Char.isDigit * Lexicon.fraction)
    (he : e ∈ Lexicon.opt Lexicon.exponent) (hc : c.rest = w ++ e) :
    (fractionPart (wholePart c).1 (wholePart c).2).rest = e := by
  obtain ⟨whole, hwhole, tail, htail, rfl⟩ := Language.mem_mul.1 hw
  rw [List.append_assoc] at hc
  have hstop : digitsGoOn Char.isDigit true (tail ++ e) = false := by
    rcases htail with rfl | htail
    · exact digitsGoOn_exponent he
    · obtain ⟨f, -, rfl⟩ := Lexicon.mem_just_mul.1 htail
      rfl
  have hrest := (reads_moreDigits hwhole hc hstop).rest_eq hc
  rcases htail with rfl | htail
  · have hne : (digits Char.isDigit true c).rest.head? ≠ some '.' := by
      rw [hrest, ← headIs_eq_false_iff]
      exact headIs_exponent he rfl rfl
    rw [wholePart, eat_of_ne hne]
    exact hrest
  · obtain ⟨f, hf, rfl⟩ := Lexicon.mem_just_mul.1 htail
    have hr : (digits Char.isDigit true c).rest = '.' :: (f ++ e) := hrest
    have hr' := rest_advance_cons hr
    rw [wholePart, eat_cons hr]
    exact (reads_optDigits hf hr' (digitsGoOn_exponent he)).rest_eq hr'

/-- Digits on both sides of a point do not start like a hexadecimal number. -/
theorem hexFollows_fractionPart {e : List Char}
    (hw : w ∈ Lexicon.moreDigits Char.isDigit * Lexicon.fraction)
    (he : e ∈ Lexicon.opt Lexicon.exponent) : hexFollows (w ++ e) = false := by
  have hhead : headIs (fun ch => ch == 'x' || ch == 'X') (w ++ e) = false := by
    obtain ⟨whole, hwhole, tail, htail, rfl⟩ := Language.mem_mul.1 hw
    rw [List.append_assoc]
    refine headIs_moreDigits hwhole (fun ch hch => ?_) rfl ?_
    · refine Bool.eq_false_of_not_eq_true fun hx => ?_
      rcases (by simpa using hx : ch = 'x' ∨ ch = 'X') with rfl | rfl <;> cases hch
    · rcases htail with rfl | htail
      · exact headIs_exponent he rfl rfl
      · obtain ⟨f, -, rfl⟩ := Lexicon.mem_just_mul.1 htail
        rfl
  cases hr : w ++ e with
  | nil => rfl
  | cons ch t =>
    rw [hr, headIs_cons] at hhead
    rw [hexFollows, hhead, Bool.false_and]

/-- **A number at the end of the input is read** behind its first digit. -/
theorem rest_number (hfirst : first.isDigit = true) (h : first :: c.rest ∈ Lexicon.number) :
    (number first c).rest = [] := by
  rw [number_eq]
  rcases h with hhex | ⟨a, ha, e, he, heq⟩
  · obtain ⟨t, ht, heq⟩ := Lexicon.mem_just_mul.1 hhex
    obtain ⟨mark, run, hmark, hrun, rfl⟩ := Lexicon.mem_one_mul.1 ht
    obtain ⟨rfl, hr⟩ := List.cons.inj heq
    replace hr : c.rest = mark :: (run ++ []) := by rw [List.append_nil]; exact hr
    have hr' := rest_advance_cons hr
    have hfollows : hexFollows c.rest = true := by
      rw [hr, hexFollows, hmark, headIs_digits hrun]
      rfl
    rw [hfollows, if_pos (by rfl)]
    exact (reads_digits hrun hr' rfl).rest_eq hr'
  · obtain ⟨d, w, rfl, -⟩ := exists_cons_of_mem_decimal ha
    obtain ⟨rfl, hr⟩ : d = first ∧ w ++ e = c.rest := List.cons.inj heq
    have hw := (cons_mem_decimal hfirst).1 ha
    have hhex : hexFollows c.rest = false := hr ▸ hexFollows_fractionPart hw he
    rw [hhex, Bool.and_false, if_neg Bool.false_ne_true]
    refine rest_exponent ?_
    rw [rest_fractionPart hw he hr.symm]
    exact he

/-- A number that starts with a point is read behind it, at the end of the input. -/
theorem rest_pointNumber (h : '.' :: c.rest ∈ Lexicon.number) :
    headIs Char.isDigit c.rest = true ∧ (exponent (digits Char.isDigit false c)).rest = [] := by
  rcases h with hhex | ⟨a, ha, e, he, heq⟩
  · obtain ⟨t, -, heq⟩ := Lexicon.mem_just_mul.1 hhex
    cases heq
  · rcases ha with ⟨_, ⟨_, ⟨ch, hch, rfl⟩, _, _, rfl⟩, _, _, rfl⟩ | hpoint
    · have hpoint : ch = '.' := (List.cons.inj heq).1
      rw [hpoint] at hch
      cases hch
    · obtain ⟨run, hrun, rfl⟩ := Lexicon.mem_just_mul.1 hpoint
      have hr : run ++ e = c.rest := (List.cons.inj heq).2
      refine ⟨hr ▸ headIs_digits hrun e, rest_exponent ?_⟩
      rw [(reads_digits hrun hr.symm (digitsGoOn_exponent he)).rest_eq hr.symm]
      exact he

end Numbers

end TolerantSql.Lexer
