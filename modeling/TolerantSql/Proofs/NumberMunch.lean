import TolerantSql.Proofs.MaximalMunch

/-!
# Numbers are as long as they can be

Numbers are the one place where a scanner looks ahead and changes its mind: an
underscore is put back unless a digit follows, and so is the marker of an
exponent. `reads_digits_nil` and `reads_exponent_nil` say that what is put back is
not read, so that a number ends exactly where `Lexer.numberGoesOn` says it does.
-/

namespace TolerantSql.Lexer

open Cursor

variable {isDigit : Char → Bool} {afterDigit : Bool} {c : Cursor} {ch : Char} {t : List Char}

theorem digits_nil (h : c.rest = []) : digits isDigit afterDigit c = c := by
  unfold digits
  split
  · rfl
  · next hp => rw [peek_nil h] at hp; cases hp

theorem digits_cons (h : c.rest = ch :: t) :
    digits isDigit afterDigit c =
      if isDigit ch then digits isDigit true c.advance
      else if ch = '_' && afterDigit then
        if headIs isDigit t then digits isDigit false c.advance else c.advance.unread
      else c := by
  conv_lhs => unfold digits
  split
  · next hp => rw [peek_cons h] at hp; cases hp
  · next a hp =>
    rw [peek_cons h] at hp
    cases hp
    rw [nextIs_eq, rest_advance_cons h]

/-- Where no digit follows, a run of digits is over; an underscore looked at is
put back. -/
theorem reads_digits_nil (h : digitsGoOn isDigit afterDigit c.rest = false) :
    Reads c [] (digits isDigit afterDigit c) := by
  cases hr : c.rest with
  | nil => rw [digits_nil hr]; exact Reads.refl c
  | cons ch t =>
    rw [hr, digitsGoOn, Bool.or_eq_false_iff] at h
    rw [digits_cons hr, h.1, if_neg Bool.false_ne_true]
    by_cases hunder : (ch = '_' && afterDigit) = true
    · have hnext : headIs isDigit t = false := by
        obtain ⟨rfl, hafter⟩ : ch = '_' ∧ afterDigit = true := by simpa using hunder
        simpa [hafter] using h.2
      rw [if_pos hunder, hnext, if_neg Bool.false_ne_true]
      exact reads_unread hr
    · rw [if_neg hunder]
      exact Reads.refl c

/-- What a run of digits has behind it does not start with a digit. -/
theorem headIs_of_digitsGoOn (h : digitsGoOn isDigit afterDigit t = false) :
    headIs isDigit t = false := by
  cases t with
  | nil => rfl
  | cons ch t => exact (Bool.or_eq_false_iff.1 h).1

/-- Whether a run of digits goes on, once it has read `text`. -/
abbrev runGoesOn (isDigit : Char → Bool) (afterDigit : Bool) (_ : Unit)
    (text behind : List Char) : Bool :=
  digitsGoOn isDigit (afterDigit || !text.isEmpty) behind

/-- A run of digits before a digit takes it. -/
theorem Munches.exists_digit {text : List Char}
    (h : Munches (moving (digits isDigit afterDigit)) (runGoesOn isDigit afterDigit) c text)
    (hnext : headIs isDigit c.rest = true) : ∃ d text', text = d :: text' ∧ isDigit d = true := by
  rw [h.reads.rest] at hnext
  cases text with
  | nil => rw [List.nil_append, headIs_of_digitsGoOn h.stops] at hnext; cases hnext
  | cons d text' => exact ⟨d, text', rfl, hnext⟩

/-- **Reading a run of digits**, which are digits and underscores. -/
theorem munches_digits (isDigit : Char → Bool) (afterDigit : Bool) (c : Cursor) :
    ∃ text, Munches (moving (digits isDigit afterDigit)) (runGoesOn isDigit afterDigit) c text
        ∧ ∀ ch ∈ text, (isDigit ch || ch == '_') = true := by
  generalize hr : c.rest = r
  induction r generalizing afterDigit c with
  | nil =>
    refine ⟨[], Munches.still () (by rw [hr]; rfl) fun c' hstop => ⟨rfl, ?_⟩, nofun⟩
    rw [runGoesOn, List.isEmpty_nil, Bool.not_true, Bool.or_false] at hstop
    exact reads_digits_nil hstop
  | cons ch r ih =>
    have hr' := rest_advance_cons hr
    by_cases hdigit : isDigit ch = true
    · obtain ⟨text, h, hchars⟩ := ih true c.advance hr'
      refine ⟨ch :: text, h.step hr (fun behind => by simp [runGoesOn])
        fun c' behind hc' _ => ?_, ?_⟩
      · rw [moving, digits_cons hc', if_pos hdigit]
      · rw [List.forall_mem_cons]
        exact ⟨by rw [hdigit, Bool.true_or], hchars⟩
    · by_cases hunder : ch = '_' ∧ afterDigit = true ∧ headIs isDigit r = true
      · obtain ⟨rfl, rfl, hnext⟩ := hunder
        obtain ⟨text, h, hchars⟩ := ih false c.advance hr'
        obtain ⟨d, text, rfl, hd⟩ := h.exists_digit (by rwa [hr'])
        refine ⟨'_' :: d :: text, h.step hr (fun behind => by simp [runGoesOn])
          fun c' behind hc' _ => ?_, ?_⟩
        · rw [moving, digits_cons hc', if_neg hdigit, if_pos (by rfl), List.cons_append,
            headIs_cons, if_pos hd]
        · rw [List.forall_mem_cons]
          exact ⟨Bool.or_true _, hchars⟩
      · refine ⟨[], Munches.still () ?_ fun c' hstop => ⟨rfl, ?_⟩, nofun⟩
        · rw [hr, runGoesOn, List.isEmpty_nil, Bool.not_true, Bool.or_false, digitsGoOn]
          simpa [hdigit] using hunder
        · rw [runGoesOn, List.isEmpty_nil, Bool.not_true, Bool.or_false] at hstop
          exact reads_digits_nil hstop

theorem exponent_eq (h : c.rest = ch :: t) :
    exponent c =
      if ch == 'e' || ch == 'E' then
        if headIs Char.isDigit t then digits Char.isDigit false c.advance
        else if headIs (fun sign => sign == '+' || sign == '-') t
            && headIs Char.isDigit t.tail then
          digits Char.isDigit false c.advance.advance
        else c.advance.unread
      else c := by
  rw [exponent]
  simp only [nextIs_eq, nthIs_one_eq, rest_advance_cons h]
  rw [h, headIs_cons]

/-- Where no exponent follows, none is read; a marker without digits is put
back. -/
theorem reads_exponent_nil (h : exponentFollows c.rest = false) : Reads c [] (exponent c) := by
  cases hr : c.rest with
  | nil =>
    rw [exponent, nextIs_eq, hr, headIs_nil, if_neg Bool.false_ne_true]
    exact Reads.refl c
  | cons ch t =>
    rw [exponent_eq hr]
    rw [hr, exponentFollows] at h
    by_cases hmark : (ch == 'e' || ch == 'E') = true
    · rw [hmark, Bool.true_and, Bool.or_eq_false_iff] at h
      rw [if_pos hmark, h.1, if_neg Bool.false_ne_true, h.2, if_neg Bool.false_ne_true]
      exact reads_unread hr
    · rw [if_neg hmark]
      exact Reads.refl c

/-- Whether an exponent goes on: one that is there by digits. -/
def exponentGoesOn (_ : Unit) (text behind : List Char) : Bool :=
  if text.isEmpty then exponentFollows behind else digitsGoOn Char.isDigit true behind

/-- The characters of an exponent behind its marker. -/
def isExponentChar (ch : Char) : Bool := ch.isDigit || ch == '_' || ch == '+' || ch == '-'

/-- **Reading an exponent**, which is nothing or a marker with digits. -/
theorem munches_exponent (c : Cursor) :
    ∃ text, Munches (moving exponent) exponentGoesOn c text
      ∧ (text = [] ∨ ∃ mark d, text = mark :: d ∧ (mark = 'e' ∨ mark = 'E')
        ∧ ∀ ch ∈ d, isExponentChar ch = true) := by
  by_cases hfollows : exponentFollows c.rest = true
  · cases hr : c.rest with
    | nil => rw [hr] at hfollows; cases hfollows
    | cons mark t =>
      rw [hr, exponentFollows, Bool.and_eq_true] at hfollows
      obtain ⟨hmark, hdigits⟩ := hfollows
      have hmark' : mark = 'e' ∨ mark = 'E' := by simpa using hmark
      have hr' := rest_advance_cons hr
      by_cases hdigit : headIs Char.isDigit t = true
      · obtain ⟨text, h, hchars⟩ := munches_digits Char.isDigit false c.advance
        obtain ⟨d, text, rfl, hd⟩ := h.exists_digit (by rwa [hr'])
        refine ⟨mark :: d :: text, h.step hr (fun behind => rfl) fun c' behind hc' _ => ?_,
          .inr ⟨mark, d :: text, rfl, hmark', fun ch hch => ?_⟩⟩
        · rw [moving, exponent_eq hc', if_pos hmark, List.cons_append, headIs_cons, if_pos hd]
        · have := hchars ch hch
          rw [isExponentChar, this]
          rfl
      · rw [Bool.eq_false_of_not_eq_true hdigit, Bool.false_or, Bool.and_eq_true] at hdigits
        obtain ⟨hsign, hdigit'⟩ := hdigits
        cases t with
        | nil => cases hsign
        | cons sign t =>
          rw [headIs_cons] at hsign hdigit
          have hr'' := rest_advance_cons hr'
          obtain ⟨text, h, hchars⟩ := munches_digits Char.isDigit false c.advance.advance
          obtain ⟨d, text, rfl, hd⟩ := h.exists_digit (by rwa [hr''])
          have h' : Munches (moving fun c => digits Char.isDigit false c.advance)
              (fun _ _ behind => digitsGoOn Char.isDigit true behind) c.advance
              (sign :: d :: text) :=
            h.step hr' (fun _ => rfl) fun _ _ _ _ => rfl
          refine ⟨mark :: sign :: d :: text,
            h'.step hr (fun behind => rfl) fun c' behind hc' _ => ?_,
            .inr ⟨mark, sign :: d :: text, rfl, hmark', fun ch hch => ?_⟩⟩
          · rw [moving, exponent_eq hc', if_pos hmark, List.cons_append, headIs_cons,
              if_neg hdigit, headIs_cons, List.tail_cons, List.cons_append, headIs_cons, hsign, hd,
              if_pos (by rfl)]
          · rcases List.mem_cons.1 hch with rfl | hch
            · rcases (by simpa using hsign : ch = '+' ∨ ch = '-') with rfl | rfl <;> rfl
            · have := hchars ch hch
              rw [isExponentChar, this]
              rfl
  · refine ⟨[], Munches.still () (Bool.eq_false_of_not_eq_true hfollows) fun c' hstop =>
      ⟨rfl, reads_exponent_nil hstop⟩, .inl rfl⟩

/-- **An exponent behind the digits of a number.** `front` is what was read
before, and neither it nor the digits have a marker in them. -/
theorem Munches.withExponent {move : Cursor → Cursor}
    {goesOn : Unit → (text behind : List Char) → Bool} {text : List Char}
    (h : Munches (moving move) goesOn c text) (front : List Char)
    (hmark : (front ++ text).any (fun ch => ch == 'e' || ch == 'E') = false)
    (hgoes : ∀ behind, goesOn () text behind =
      (digitsGoOn Char.isDigit ((front ++ text).getLast? != some '.') behind
        || (!(front ++ text).contains '.' && headIs (· == '.') behind))) :
    ∃ e, Munches (moving fun c => exponent (move c))
      (fun _ text behind => decimalGoesOn (front ++ text) behind) c (text ++ e)
        ∧ ∀ ch ∈ e, ch ≠ 'x' ∧ ch ≠ 'X' := by
  obtain ⟨e, he, rfl | ⟨mark, d, rfl, hmark', hchars⟩⟩ := munches_exponent (move c)
  · refine ⟨[], h.bind (fun _ => moving exponent) he fun behind => ?_, nofun⟩
    rw [List.append_nil, List.nil_append, hgoes, decimalGoesOn, hmark,
      if_neg Bool.false_ne_true, exponentGoesOn, List.isEmpty_nil, if_pos rfl, Bool.or_right_comm]
  · refine ⟨mark :: d, h.bind (fun _ => moving exponent) he fun behind => ?_, ?_⟩
    · have hany : (front ++ (text ++ mark :: d)).any (fun ch => ch == 'e' || ch == 'E') = true := by
        rcases hmark' with rfl | rfl <;> simp
      rw [hgoes, decimalGoesOn, hany, if_pos rfl]
      rcases hmark' with rfl | rfl <;> simp [digitsGoOn, exponentGoesOn]
    · rw [List.forall_mem_cons]
      refine ⟨by rcases hmark' with rfl | rfl <;> decide, fun ch hch => ?_⟩
      have := hchars ch hch
      constructor <;> rintro rfl <;> cases this

/-- The digits of a number in front of its point, with the point if there is
one. -/
def wholePart (c : Cursor) : Bool × Cursor := (digits Char.isDigit true c).eat '.'

/-- The digits behind the point, if there was one. -/
def fractionPart (pointed : Bool) (c : Cursor) : Cursor :=
  if pointed then digits Char.isDigit false c else c

theorem number_eq (first : Char) (c : Cursor) :
    number first c = if first == '0' && hexFollows c.rest then digits isHexDigit false c.advance
      else exponent (fractionPart (wholePart c).1 (wholePart c).2) := by
  have hhex : (first == '0' && nextIs (fun ch => ch == 'x' || ch == 'X') c && nthIs 1 isHexDigit c)
      = (first == '0' && hexFollows c.rest) := by
    rw [nextIs_eq, nthIs_one_eq, Bool.and_assoc]
    cases c.rest <;> rfl
  have hwhole : (digits Char.isDigit true c).eat '.' = wholePart c := rfl
  rw [number, hhex]
  dsimp only
  rw [hwhole]
  rcases wholePart c with ⟨_ | _, c'⟩ <;> rfl

/-- A text of one class has no character of a class apart from it. -/
theorem any_eq_false_of_class {w : List Char} {p q : Char → Bool} (hw : ∀ ch ∈ w, p ch = true)
    (hpq : ∀ ch, q ch = true → p ch = false) : w.any q = false := by
  rw [List.any_eq_false]
  intro ch hch hq
  have hp := hpq ch hq
  rw [hw ch hch] at hp
  cases hp

/-- Digits and underscores are no other characters of a number. -/
theorem not_mem_digits {w : List Char} (hw : ∀ ch ∈ w, (ch.isDigit || ch == '_') = true)
    {other : Char} (hother : (other.isDigit || other == '_') = false) : other ∉ w := by
  intro hmem
  rw [hw other hmem] at hother
  cases hother

/-- The last of some digits is no point. -/
theorem getLast?_digits {w : List Char} (hw : ∀ ch ∈ w, (ch.isDigit || ch == '_') = true) :
    (w.getLast? != some '.') = true :=
  bne_iff_ne.2 fun h => not_mem_digits hw (by rfl) (List.mem_of_getLast? h)

/-- **Reading the digits in front of a point.** -/
theorem munches_wholePart (c : Cursor) :
    ∃ w, (∀ ch ∈ w, (ch.isDigit || ch == '_') = true) ∧
      Munches wholePart
        (fun pointed _ behind =>
          !pointed && (digitsGoOn Char.isDigit true behind || headIs (· == '.') behind))
        c (w ++ if (wholePart c).1 then ['.'] else []) := by
  obtain ⟨w, hw, hchars⟩ := munches_digits Char.isDigit true c
  refine ⟨w, hchars, hw.bind (fun _ c => c.eat '.') (munches_eat '.' _) fun behind => ?_⟩
  rw [runGoesOn, Bool.true_or]
  show (!(wholePart c).1 && _) = (digitsGoOn _ _ ((if (wholePart c).1 then _ else _) ++ _)
    || (!(wholePart c).1 && _))
  cases (wholePart c).1 with
  | false => rfl
  | true => rfl

/-- **Reading the digits on both sides of a point**, behind a first digit. -/
theorem munches_fractionPart {first : Char} (hfirst : first.isDigit = true) (c : Cursor) :
    ∃ text, Munches (moving fun c => fractionPart (wholePart c).1 (wholePart c).2)
      (fun _ text behind => digitsGoOn Char.isDigit ((first :: text).getLast? != some '.') behind
        || (!(first :: text).contains '.' && headIs (· == '.') behind)) c text
      ∧ ∀ ch ∈ text, (ch.isDigit || ch == '_' || ch == '.') = true := by
  obtain ⟨w, hchars, hw⟩ := munches_wholePart c
  have hfirst' : ∀ ch ∈ first :: w, (ch.isDigit || ch == '_') = true :=
    List.forall_mem_cons.2 ⟨by rw [hfirst, Bool.true_or], hchars⟩
  cases hpoint : (wholePart c).1 with
  | false =>
    rw [hpoint, if_neg Bool.false_ne_true, List.append_nil] at hw
    have hstill : Munches (moving (fractionPart (wholePart c).1)) (fun _ _ _ => false)
        (wholePart c).2 [] :=
      Munches.still () rfl fun c' _ => ⟨rfl, by rw [hpoint]; exact Reads.refl c'⟩
    refine ⟨w ++ [], hw.bind (fun pointed => moving (fractionPart pointed)) hstill
      fun behind => ?_, fun ch hch => ?_⟩
    · rw [hpoint, List.append_nil, getLast?_digits hfirst', List.contains_eq_mem,
        decide_eq_false (not_mem_digits hfirst' (by rfl)), Bool.or_false]
      rfl
    · rw [List.append_nil] at hch
      rw [hchars ch hch, Bool.true_or]
  | true =>
    rw [hpoint, if_pos rfl] at hw
    obtain ⟨f, hf, hfchars⟩ := munches_digits Char.isDigit false (wholePart c).2
    have hfraction : Munches (moving (fractionPart (wholePart c).1))
        (runGoesOn Char.isDigit false) (wholePart c).2 f := by
      rw [hpoint]
      exact hf
    refine ⟨w ++ ['.'] ++ f, hw.bind (fun pointed => moving (fractionPart pointed)) hfraction
      fun behind => ?_, fun ch hch => ?_⟩
    · have hlast : ((first :: (w ++ ['.'] ++ f)).getLast? != some '.') = (false || !f.isEmpty) := by
        rw [← List.cons_append, ← List.cons_append]
        cases f with
        | nil => rw [List.append_nil, List.getLast?_concat]; rfl
        | cons d f =>
          rw [List.getLast?_append_of_ne_nil _ (List.cons_ne_nil d f), getLast?_digits hfchars]
          rfl
      have hcontains : (first :: (w ++ ['.'] ++ f)).contains '.' = true := by simp
      rw [hpoint, hlast, hcontains]
      simp [runGoesOn]
    · simp only [List.append_assoc, List.mem_append, List.mem_singleton] at hch
      rcases hch with hch | rfl | hch
      · rw [hchars ch hch, Bool.true_or]
      · rfl
      · rw [hfchars ch hch, Bool.true_or]

/-- **Reading a number** behind its first digit. -/
theorem munches_number {first : Char} (hfirst : first.isDigit = true) (c : Cursor) :
    ∃ text, Munches (moving (number first))
      (fun _ text behind => numberGoesOn (first :: text) behind) c text := by
  have hx : first ≠ 'x' ∧ first ≠ 'X' := by constructor <;> rintro rfl <;> cases hfirst
  by_cases hhex : (first == '0' && hexFollows c.rest) = true
  · obtain ⟨hzero, hfollows⟩ := Bool.and_eq_true_iff.1 hhex
    cases hr : c.rest with
    | nil => rw [hr] at hfollows; cases hfollows
    | cons mark t =>
      rw [hr, hexFollows, Bool.and_eq_true] at hfollows
      obtain ⟨h, hh, hchars⟩ := munches_digits isHexDigit false c.advance
      obtain ⟨d, text, rfl, hd⟩ := hh.exists_digit (by rw [rest_advance_cons hr]; exact hfollows.2)
      refine ⟨mark :: d :: text, hh.step hr (fun behind => ?_) fun c' behind hc' _ => ?_⟩
      · rw [numberGoesOn, if_pos (by simp [hfollows.1])]
        rfl
      · rw [moving, number_eq, hzero, hc', hexFollows, hfollows.1, List.cons_append, headIs_cons,
          hd, if_pos (by rfl)]
  · obtain ⟨w, hw, hchars⟩ := munches_fractionPart hfirst c
    have hchars' : ∀ ch ∈ first :: w, (ch.isDigit || ch == '_' || ch == '.') = true :=
      List.forall_mem_cons.2 ⟨by rw [hfirst]; rfl, hchars⟩
    have hmark : (first :: w).any (fun ch => ch == 'e' || ch == 'E') = false :=
      any_eq_false_of_class hchars' (by simp)
    obtain ⟨e, he, hnox⟩ := hw.withExponent [first] hmark fun behind => rfl
    have hnone : (first :: (w ++ e)).any (fun ch => ch == 'x' || ch == 'X') = false := by
      rw [← List.cons_append, List.any_append, Bool.or_eq_false_iff]
      refine ⟨any_eq_false_of_class hchars' (by simp), ?_⟩
      rw [List.any_eq_false]
      exact fun ch hch => by simpa using hnox ch hch
    -- a zero alone may yet turn out to start a hexadecimal number
    have hhex' : ∀ behind, (first == '0' && hexFollows (w ++ e ++ behind))
        = (first :: (w ++ e) == ['0'] && hexFollows behind) := fun behind => by
      cases hwe : w ++ e with
      | nil => simp
      | cons a t =>
        rw [hwe] at hnone
        simp_all [hexFollows]
    have hgoes : ∀ behind, numberGoesOn (first :: (w ++ e)) behind
        = (decimalGoesOn (first :: (w ++ e)) behind
          || (first == '0' && hexFollows (w ++ e ++ behind))) := fun behind => by
      rw [numberGoesOn, hnone, if_neg Bool.false_ne_true, hhex']
    refine ⟨w ++ e, ?_, ?_, fun c' behind hc' hstop => ⟨rfl, ?_⟩⟩
    · rw [moving, number_eq, if_neg hhex]
      exact he.reads
    · rw [hgoes, moving, number_eq, if_neg hhex, Bool.or_eq_false_iff]
      refine ⟨he.stops, ?_⟩
      rw [← he.reads.rest]
      exact Bool.eq_false_of_not_eq_true hhex
    · rw [hgoes, Bool.or_eq_false_iff] at hstop
      rw [moving, number_eq, hc', hstop.2, if_neg Bool.false_ne_true]
      exact (he.again c' behind hc' hstop.1).2

/-- **Reading a number that starts with a point**, behind the point. -/
theorem munches_pointNumber (hdigit : headIs Char.isDigit c.rest = true) :
    ∃ text, Munches (moving fun c => exponent (digits Char.isDigit false c))
      (fun _ text behind => numberGoesOn ('.' :: text) behind) c text
        ∧ headIs Char.isDigit text = true := by
  obtain ⟨w, hw, hchars⟩ := munches_digits Char.isDigit false c
  obtain ⟨d, w, rfl, hd⟩ := hw.exists_digit hdigit
  have hmark : ('.' :: d :: w).any (fun ch => ch == 'e' || ch == 'E') = false := by
    rw [List.any_cons, any_eq_false_of_class hchars (by simp)]
    rfl
  obtain ⟨e, he, hnox⟩ := hw.withExponent ['.'] hmark fun behind => by
    rw [List.singleton_append, List.getLast?_cons_cons, getLast?_digits hchars]
    simp [runGoesOn]
  refine ⟨d :: w ++ e, he.map id fun behind => ?_, hd⟩
  have hnone : ('.' :: (d :: w ++ e)).any (fun ch => ch == 'x' || ch == 'X') = false := by
    rw [List.any_cons, List.any_append, any_eq_false_of_class hchars (by simp)]
    rw [Bool.false_or, Bool.or_eq_false_iff, List.any_eq_false]
    exact ⟨rfl, fun ch hch => by simpa using hnox ch hch⟩
  rw [numberGoesOn, hnone, if_neg Bool.false_ne_true]
  simp

end TolerantSql.Lexer
