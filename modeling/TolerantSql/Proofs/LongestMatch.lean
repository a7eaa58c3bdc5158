import TolerantSql.Proofs.LosslessLexing
import TolerantSql.Proofs.TokenGrammar

/-!
# Lexing is longest match

A token of a source is the longest text of the lexical grammar that starts where it does.
That it is a text of the grammar is `isToken_iff_mem_lexicon`. That no longer one starts
there takes what is known about where tokens end: a token ends where it does not go on,
and what does not make it go on does not do so either when it is cut short
(`goesOn_append`). So if a longer text were in the grammar, the scanner would read that
text, with nothing behind it, in two ways: as the longer token, and as the shorter one
with the rest behind it.
-/

namespace TolerantSql

namespace Lexer

/-! ## What makes a token go on -/

section GoingOn

variable {u : List Char} (v : List Char)

theorem headIs_append_of {p : Char → Bool} (h : headIs p u = true) : headIs p (u ++ v) = true := by
  cases u with
  | nil => cases h
  | cons ch u => exact h

theorem digitsGoOn_append {isDigit : Char → Bool} {afterDigit : Bool}
    (h : digitsGoOn isDigit afterDigit u = true) :
    digitsGoOn isDigit afterDigit (u ++ v) = true := by
  cases u with
  | nil => cases h
  | cons ch u =>
    simp only [digitsGoOn, List.cons_append, Bool.or_eq_true, Bool.and_eq_true] at h ⊢
    exact h.imp_right fun hunder => ⟨hunder.1, headIs_append_of v hunder.2⟩

theorem hexFollows_append (h : hexFollows u = true) : hexFollows (u ++ v) = true := by
  cases u with
  | nil => cases h
  | cons ch u =>
    simp only [hexFollows, List.cons_append, Bool.and_eq_true] at h ⊢
    exact ⟨h.1, headIs_append_of v h.2⟩

theorem headIs_tail_append {p : Char → Bool} (h : headIs p u.tail = true) :
    headIs p (u ++ v).tail = true := by
  cases u with
  | nil => cases h
  | cons ch u => exact headIs_append_of v h

theorem exponentFollows_append (h : exponentFollows u = true) :
    exponentFollows (u ++ v) = true := by
  cases u with
  | nil => cases h
  | cons ch u =>
    simp only [exponentFollows, List.cons_append, Bool.and_eq_true, Bool.or_eq_true] at h ⊢
    refine ⟨h.1, h.2.imp (headIs_append_of v) fun hsign => ?_⟩
    exact ⟨headIs_append_of v hsign.1, headIs_tail_append v hsign.2⟩

theorem pathFollows_append (h : pathFollows u = true) : pathFollows (u ++ v) = true := by
  obtain ⟨r, rfl, hword⟩ := pathFollows_eq_true h
  exact headIs_append_of v hword

theorem numberGoesOn_append {text : List Char} (h : numberGoesOn text u = true) :
    numberGoesOn text (u ++ v) = true := by
  unfold numberGoesOn decimalGoesOn at h ⊢
  split
  · next hhex =>
    rw [if_pos hhex] at h
    exact digitsGoOn_append v h
  · next hhex =>
    rw [if_neg hhex, Bool.or_eq_true, Bool.and_eq_true] at h
    rw [Bool.or_eq_true, Bool.and_eq_true]
    refine h.imp (fun hdecimal => ?_) fun hzero => ⟨hzero.1, hexFollows_append v hzero.2⟩
    split
    · next hmark =>
      rw [if_pos hmark] at hdecimal
      exact digitsGoOn_append v hdecimal
    · next hmark =>
      rw [if_neg hmark, Bool.or_eq_true, Bool.or_eq_true, Bool.and_eq_true] at hdecimal
      rw [Bool.or_eq_true, Bool.or_eq_true, Bool.and_eq_true]
      refine hdecimal.imp (Or.imp (digitsGoOn_append v) (exponentFollows_append v)) fun hpoint => ?_
      exact ⟨hpoint.1, headIs_append_of v hpoint.2⟩

theorem identifierGoesOn_append {text : List Char} (h : identifierGoesOn text u = true) :
    identifierGoesOn text (u ++ v) = true := by
  cases u with
  | nil => simp [identifierGoesOn] at h
  | cons ch u => exact h

/-- **What makes a token go on makes it go on when more follows.** -/
theorem goesOn_append {kind : TokenKind} {text : List Char} (herror : kind.isError = false)
    (h : kind.goesOn text u = true) : kind.goesOn text (u ++ v) = true := by
  cases kind with
  | numeric => exact numberGoesOn_append v h
  | identifier => exact identifierGoesOn_append v h
  | error cause => cases herror
  | blockComment =>
    simp only [TokenKind.goesOn, Bool.and_eq_true] at h ⊢
    cases u with
    | nil => exact absurd h.2 Bool.false_ne_true
    | cons ch u => exact h
  | dollarVariable =>
    simp only [TokenKind.goesOn, Bool.and_eq_true, Bool.or_eq_true] at h ⊢
    refine ⟨h.1, h.2.imp (Or.imp ?_ ?_) ?_⟩
    · exact headIs_append_of v
    · exact pathFollows_append v
    · exact headIs_append_of v
  | _ => first | exact headIs_append_of v h | cases h

end GoingOn

/-- **No longer text is a token.** Where a token does not go on, no text of the grammar is
longer. -/
theorem IsToken.longest {kind kind' : TokenKind} {text behind w : List Char}
    (htoken : IsToken kind text) (herror : kind.isError = false)
    (hstops : kind.goesOn text behind = false) (hw : w <+: text ++ behind)
    (hlength : text.length < w.length) : w ∉ kind'.lexicon := by
  intro hmem
  -- the longer text is the token with a part of what stands behind it
  obtain ⟨u, rfl⟩ : text <+: w :=
    List.prefix_of_prefix_length_le (List.prefix_append text behind) hw hlength.le
  obtain ⟨v, rfl⟩ := (List.prefix_append_right_inj text).1 hw
  have hstop : kind.goesOn text u = false :=
    Bool.eq_false_of_not_eq_true fun h => by
      rw [goesOn_append v herror h] at hstops
      cases hstops
  -- so that the scanner reads the longer text to its end, and only the shorter one
  have hshort := (htoken.reads (.ofChars (text ++ u)) u rfl hstop).2
  have hend := (lexeme_of_mem_lexicon hmem).2
  have hnil : u = [] := (hshort.rest_eq rfl).symm.trans hend
  rw [hnil, List.append_nil] at hlength
  exact lt_irrefl _ hlength

/-- A token of a text with what stands before and behind it. -/
theorem Lexes.exists_stops {pos : Nat} {source : List Char} {tokens : List Token}
    (h : Lexes pos source tokens) (front : List Char) (hfront : String.utf8Len front = pos)
    {t : Token} (ht : t ∈ tokens) (heof : t.isEof = false) :
    ∃ before behind, front ++ source = before ++ (t.text.toList ++ behind)
      ∧ String.utf8Len before = t.span.start ∧ t.kind.goesOn t.text.toList behind = false := by
  induction h generalizing front with
  | nil =>
    rw [List.mem_singleton.1 ht] at heof
    cases heof
  | @cons pos kind text behind tokens token stops _ ih =>
    rcases List.mem_cons.1 ht with rfl | ht
    · have htext : (tokenAt pos kind text).text.toList = text := String.toList_ofList
      rw [htext]
      exact ⟨front, behind, rfl, hfront, stops⟩
    · rw [← List.append_assoc]
      exact ih (front ++ text) (by rw [String.utf8Len_append, hfront]) ht

end Lexer

open Lexer in
/-- **Lexing is longest match over the lexical grammar.** Every token of a source, unless
it is malformed or the end of the input, is a text of its kind's language, and of what is
left of the source at its start no longer front is in the language of any kind. -/
theorem tokenize_longest_match (source : String) (t : Token) (ht : t ∈ tokenize source)
    (herror : t.kind.isError = false) (heof : t.isEof = false) :
    t.text.toList ∈ t.kind.lexicon
      ∧ ∃ before remaining, source.toList = before ++ remaining
        ∧ String.utf8Len before = t.span.start ∧ t.text.toList <+: remaining
        ∧ ∀ w, w <+: remaining → t.text.toList.length < w.length →
          ∀ kind : TokenKind, w ∉ kind.lexicon := by
  have htoken := (lexes_tokenize source).isToken_of_mem ht heof
  obtain ⟨before, behind, hsource, hstart, hstops⟩ :=
    (lexes_tokenize source).exists_stops [] rfl ht heof
  refine ⟨(isToken_iff_mem_lexicon herror).1 htoken, before, t.text.toList ++ behind, hsource,
    hstart, List.prefix_append _ _, fun w hw hlength kind => ?_⟩
  exact htoken.longest herror hstops hw hlength

open Lexer in
/-- A number ends behind its point, where another point would be one too many. -/
theorem tokenize_longest_match_points :
    let t := tokenAt 0 .numeric "1_0.".toList
    t ∈ tokenize "1_0..5" ∧ t.kind.isError = false ∧ t.isEof = false
      ∧ t.text.toList ∈ Lexicon.number
      ∧ ∃ before remaining, "1_0..5".toList = before ++ remaining
        ∧ String.utf8Len before = 0 ∧ t.text.toList <+: remaining
        ∧ ∀ w, w <+: remaining → t.text.toList.length < w.length →
          ∀ kind : TokenKind, w ∉ kind.lexicon := by
  intro t
  have hpoint : "1_0.".toList ∈ TokenKind.numeric.lexicon := by
    refine .inr ⟨"1_0.".toList, .inl ⟨['1', '_', '0'], ?_, ['.'], ?_, rfl⟩, [], .inl rfl, rfl⟩
    · refine ⟨['1'], ⟨'1', rfl, rfl⟩, ['_', '0'] ++ [], ?_, rfl⟩
      exact Lexicon.append_mem_kstar ⟨['_'], .inr rfl, ['0'], ⟨'0', rfl, rfl⟩, rfl⟩
        (Language.nil_mem_kstar _)
    · exact .inr ⟨['.'], rfl, [], .inl rfl, rfl⟩
  have hfive : ".5".toList ∈ TokenKind.numeric.lexicon := by
    refine .inr ⟨".5".toList, .inr ⟨['.'], rfl, ['5'], ?_, rfl⟩, [], .inl rfl, rfl⟩
    exact ⟨['5'], ⟨'5', rfl, rfl⟩, [], Language.nil_mem_kstar _, rfl⟩
  have htokens : tokenize "1_0..5" = [t, tokenAt 4 .numeric ".5".toList, .eof 6] :=
    tokenize_eq_iff.2 (.cons ((isToken_iff_mem_lexicon rfl).2 hpoint) rfl
      (.cons ((isToken_iff_mem_lexicon rfl).2 hfive) rfl (.nil 6)))
  have ht : t ∈ tokenize "1_0..5" := by rw [htokens]; exact List.mem_cons_self
  exact ⟨ht, rfl, rfl, tokenize_longest_match "1_0..5" t ht rfl rfl⟩

end TolerantSql
