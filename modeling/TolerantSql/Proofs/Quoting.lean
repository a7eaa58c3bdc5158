import TolerantSql.Proofs.TokenGrammar

/-!
# Quoting any text

A text is quoted by doubling the quote in it and putting one on either side. The quoted
texts of the lexical grammar are the ones that are written so (`mem_quoted_iff`), and
the text can be told from what is written (`doubled_injective`). So whatever a text
holds, quoted it is one token and nothing of it is read as anything else; and every
string, and every name in quotes, is some text quoted, and only one. Names in brackets
have no way to write the closing bracket, and are what stands between the brackets.
-/

open Computability

namespace TolerantSql

/-- The quotes that are doubled within a quoted text. -/
inductive Quote where
  | apostrophe
  | quotationMark
  | backquote
  deriving DecidableEq

namespace Quote

def char : Quote → Char
  | apostrophe => '\x27'
  | quotationMark => '\x22'
  | backquote => '\x60'

/-- The kind of a quoted text: a string, or a name. -/
def kind : Quote → TokenKind
  | apostrophe => .string
  | quotationMark | backquote => .identifier

end Quote

namespace Lexer

variable {q : Char} {w : List Char}

/-- A text with a character doubled wherever it occurs. -/
def doubled (q : Char) (s : List Char) : List Char :=
  s.flatMap fun ch => if ch = q then [q, q] else [ch]

/-- The first character is the same with or without doubling. -/
theorem doubled_cons (q ch : Char) (s : List Char) :
    doubled q (ch :: s) = ch :: ((if ch = q then [q] else []) ++ doubled q s) := by
  rw [doubled, List.flatMap_cons]
  split
  · next hch => rw [hch]; rfl
  · rfl

/-- **A text can be told from the text with a character doubled.** -/
theorem doubled_injective (q : Char) : Function.Injective (doubled q) := by
  intro s
  induction s with
  | nil =>
    intro s' h
    cases s' with
    | nil => rfl
    | cons ch' s' => rw [doubled_cons] at h; cases h
  | cons ch s ih =>
    intro s' h
    cases s' with
    | nil => rw [doubled_cons] at h; cases h
    | cons ch' s' =>
      rw [doubled_cons, doubled_cons] at h
      obtain ⟨rfl, htail⟩ := List.cons.inj h
      rw [ih (List.append_cancel_left htail)]

/-- Repetitions of other characters and of the quote doubled are texts with the quote
doubled. -/
theorem mem_kstar_doubled_iff :
    w ∈ (Lexicon.one (· != q) + {[q, q]})∗ ↔ ∃ s, w = doubled q s := by
  constructor
  · intro hw
    induction hw using Lexicon.kstar_induction with
    | nil => exact ⟨[], rfl⟩
    | append u v hu _ ih =>
      obtain ⟨s, rfl⟩ := ih
      rcases hu with ⟨ch, hch, rfl⟩ | rfl
      · exact ⟨ch :: s, by rw [doubled_cons, if_neg (bne_iff_ne.1 hch)]; rfl⟩
      · exact ⟨q :: s, by rw [doubled_cons, if_pos rfl]; rfl⟩
  · rintro ⟨s, rfl⟩
    induction s with
    | nil => exact Language.nil_mem_kstar _
    | cons ch s ih =>
      rw [doubled_cons, ← List.cons_append]
      refine Lexicon.append_mem_kstar ?_ ih
      split
      · next hch => rw [hch]; exact .inr rfl
      · next hch => exact .inl ⟨ch, bne_iff_ne.2 hch, rfl⟩

/-- **The quoted texts of the grammar** are the texts that are quoted. -/
theorem mem_quoted_iff : w ∈ Lexicon.quoted q ↔ ∃ s, w = q :: (doubled q s ++ [q]) := by
  constructor
  · intro hw
    obtain ⟨first, _, hfirst, ⟨inside, hinside, _, ⟨last, hlast, rfl⟩, rfl⟩, rfl⟩ :=
      Lexicon.mem_one_mul.1 hw
    obtain ⟨s, rfl⟩ := mem_kstar_doubled_iff.1 hinside
    exact ⟨s, by rw [beq_iff_eq.1 hfirst, beq_iff_eq.1 hlast]⟩
  · rintro ⟨s, rfl⟩
    exact Lexicon.mem_one_mul.2 ⟨q, _, beq_self_eq_true q,
      ⟨doubled q s, mem_kstar_doubled_iff.2 ⟨s, rfl⟩, [q], ⟨q, beq_self_eq_true q, rfl⟩, rfl⟩, rfl⟩

/-- Texts in brackets are those without the closing one in them. -/
theorem mem_enclosed_iff {opening closing : Char} :
    w ∈ Lexicon.enclosed opening closing ↔ ∃ s, closing ∉ s ∧ w = opening :: (s ++ [closing]) := by
  constructor
  · intro hw
    obtain ⟨first, _, hfirst, ⟨inside, hinside, _, ⟨last, hlast, rfl⟩, rfl⟩, rfl⟩ :=
      Lexicon.mem_one_mul.1 hw
    refine ⟨inside, fun hmem => ?_, by rw [beq_iff_eq.1 hfirst, beq_iff_eq.1 hlast]⟩
    exact bne_iff_ne.1 (Lexicon.mem_kstar_one.1 hinside _ hmem) rfl
  · rintro ⟨s, hs, rfl⟩
    refine Lexicon.mem_one_mul.2 ⟨opening, _, beq_self_eq_true opening,
      ⟨s, Lexicon.mem_kstar_one.2 fun ch hch => bne_iff_ne.2 ?_, [closing],
        ⟨closing, beq_self_eq_true closing, rfl⟩, rfl⟩, rfl⟩
    rintro rfl
    exact hs hch

end Lexer

/-! ## Quoted texts as tokens -/

namespace Quote

open Lexer

/-- **A text between quotes**, with the quote doubled in it. -/
def enclose (q : Quote) (s : String) : String :=
  String.ofList (q.char :: (doubled q.char s.toList ++ [q.char]))

theorem toList_enclose (q : Quote) (s : String) :
    (q.enclose s).toList = q.char :: (doubled q.char s.toList ++ [q.char]) := String.toList_ofList

/-- Quoting loses nothing. -/
theorem enclose_injective (q : Quote) : Function.Injective q.enclose := by
  intro s s' h
  have hlist := congrArg String.toList h
  rw [toList_enclose, toList_enclose, List.cons.injEq, List.append_cancel_right_eq] at hlist
  exact String.toList_injective (doubled_injective q.char hlist.2)

/-- A quoted text is a token. -/
theorem isToken_enclose (q : Quote) (s : String) : IsToken q.kind (q.enclose s).toList := by
  have hquoted : (q.enclose s).toList ∈ Lexicon.quoted q.char :=
    mem_quoted_iff.2 ⟨s.toList, toList_enclose q s⟩
  cases q with
  | apostrophe => exact (isToken_iff_mem_lexicon rfl).2 hquoted
  | quotationMark => exact (isToken_iff_mem_lexicon rfl).2 (.inr (.inl (.inl hquoted)))
  | backquote => exact (isToken_iff_mem_lexicon rfl).2 (.inr (.inl (.inr hquoted)))

/-- A quoted text goes on by one more quote only. -/
theorem goesOn_enclose (q : Quote) (s : String) (behind : List Char) :
    q.kind.goesOn (q.enclose s).toList behind = headIs (· == q.char) behind := by
  rw [toList_enclose]
  cases q <;> rfl

/-- What is quoted in the grammar is some text quoted, and only one. -/
theorem existsUnique_of_mem_quoted {q : Quote} {text : String}
    (h : text.toList ∈ Lexicon.quoted q.char) : ∃! s, text = q.enclose s := by
  obtain ⟨s, hs⟩ := mem_quoted_iff.1 h
  have htext : text = q.enclose (String.ofList s) := by
    rw [enclose, String.toList_ofList, ← hs, String.ofList_toList]
  exact ⟨String.ofList s, htext, fun s' hs' => q.enclose_injective (hs'.symm.trans htext)⟩

end Quote

namespace Lexer

/-- The characters of a text in brackets. -/
theorem toList_brackets (s : String) :
    ("[" ++ s ++ "]").toList = '[' :: (s.toList ++ [']']) := by
  rw [String.toList_append, String.toList_append]
  rfl

/-- **What a name that does not start a word is**: quoted, or in brackets. -/
theorem mem_lexicon_identifier {text : List Char} (h : text ∈ TokenKind.identifier.lexicon)
    {first : Char} (hfirst : text.head? = some first) (hword : isWordStart first = false) :
    (∃ q : Quote, q.char = first ∧ text ∈ Lexicon.quoted q.char)
      ∨ first = '[' ∧ text ∈ Lexicon.enclosed '[' ']' := by
  rcases h with ⟨hname, -⟩ | (hquoted | hquoted) | hbracket
  · obtain ⟨ch, t, hch, -, rfl⟩ := Lexicon.mem_one_mul.1 hname
    cases hfirst
    rw [hword] at hch
    cases hch
  · obtain ⟨s, rfl⟩ := mem_quoted_iff.1 hquoted
    exact .inl ⟨.quotationMark, Option.some.inj hfirst, hquoted⟩
  · obtain ⟨s, rfl⟩ := mem_quoted_iff.1 hquoted
    exact .inl ⟨.backquote, Option.some.inj hfirst, hquoted⟩
  · obtain ⟨s, -, rfl⟩ := mem_enclosed_iff.1 hbracket
    exact .inr ⟨(Option.some.inj hfirst).symm, hbracket⟩

end Lexer

open Lexer in
/-- **Quoting is safe.** A text between quotes, with the quote doubled in it, is read as
one token of the quote's kind with nothing of it left over, whatever the text is and
whatever follows but for one more quote. Conversely every string, and every name that
starts with a quote, is some text between quotes, and only one. The same is true of
texts without a closing bracket between brackets, and there anything may follow. -/
theorem tokenize_quoted :
    (∀ (q : Quote) (s r : String), r.toList.head? ≠ some q.char →
      tokenize (q.enclose s ++ r) = ⟨q.kind, q.enclose s, ⟨0, (q.enclose s).utf8ByteSize⟩⟩
        :: (tokenize r).map (Token.shift (q.enclose s).utf8ByteSize))
    ∧ (∀ source, ∀ t ∈ tokenize source, t.kind = .string →
      ∃! s, t.text = Quote.apostrophe.enclose s)
    ∧ (∀ source, ∀ t ∈ tokenize source, ∀ q : Quote, t.kind = .identifier →
      t.text.toList.head? = some q.char → ∃! s, t.text = q.enclose s)
    ∧ (∀ s r : String, ']' ∉ s.toList →
      tokenize ("[" ++ s ++ "]" ++ r)
        = ⟨.identifier, "[" ++ s ++ "]", ⟨0, ("[" ++ s ++ "]").utf8ByteSize⟩⟩
          :: (tokenize r).map (Token.shift ("[" ++ s ++ "]").utf8ByteSize))
    ∧ ∀ source, ∀ t ∈ tokenize source, t.kind = .identifier → t.text.toList.head? = some '[' →
      ∃! s : String, ']' ∉ s.toList ∧ t.text = "[" ++ s ++ "]" := by
  refine ⟨fun q s r hr => ?_, fun source t ht hkind => ?_, fun source t ht q hkind hfirst => ?_,
    fun s r hs => ?_, fun source t ht hkind hfirst => ?_⟩
  · refine tokenize_token_append (q.isToken_enclose s) ?_
    rw [q.goesOn_enclose]
    exact headIs_eq_false_iff.2 hr
  · have hmem := mem_lexicon_of_mem_tokenize ht hkind rfl rfl
    exact Quote.existsUnique_of_mem_quoted (q := .apostrophe) hmem
  · have hmem := mem_lexicon_of_mem_tokenize ht hkind rfl rfl
    have hword : isWordStart q.char = false := by cases q <;> rfl
    obtain ⟨q', hq, hquoted⟩ | ⟨hq, -⟩ := mem_lexicon_identifier hmem hfirst hword
    · rw [hq] at hquoted
      exact Quote.existsUnique_of_mem_quoted hquoted
    · cases q <;> cases hq
  · have hmem : ("[" ++ s ++ "]").toList ∈ Lexicon.enclosed '[' ']' :=
      mem_enclosed_iff.2 ⟨s.toList, hs, toList_brackets s⟩
    refine tokenize_token_append ((isToken_iff_mem_lexicon rfl).2 (.inr (.inr hmem))) ?_
    rw [toList_brackets]
    rfl
  · have hmem := mem_lexicon_of_mem_tokenize ht hkind rfl rfl
    obtain ⟨q, hq, -⟩ | ⟨-, hbracket⟩ := mem_lexicon_identifier hmem hfirst rfl
    · cases q <;> cases hq
    · obtain ⟨s, hs, htext⟩ := mem_enclosed_iff.1 hbracket
      refine ⟨String.ofList s, ⟨by rwa [String.toList_ofList], ?_⟩, fun s' hs' => ?_⟩
      · refine String.toList_injective ?_
        rw [htext, toList_brackets, String.toList_ofList]
      · rw [hs'.2, toList_brackets, List.cons.injEq, List.append_cancel_right_eq] at htext
        rw [← htext.2, String.ofList_toList]

/-- A string, a name in brackets and a name in quotes, with quotes at the end of a text
and next to each other. -/
theorem tokenize_quoted_texts :
    tokenize "'a'''' OR '''[c].\"d\"\"\""
      = [⟨.string, "'a'''' OR '''", ⟨0, 13⟩⟩, ⟨.identifier, "[c]", ⟨13, 16⟩⟩, ⟨.dot, ".", ⟨16, 17⟩⟩,
        ⟨.identifier, "\"d\"\"\"", ⟨17, 22⟩⟩, .eof 22]
    ∧ (∃! s, "'a'''' OR '''" = Quote.apostrophe.enclose s)
    ∧ (∃! s, "\"d\"\"\"" = Quote.quotationMark.enclose s)
    ∧ ∃! s : String, ']' ∉ s.toList ∧ "[c]" = "[" ++ s ++ "]" := by
  have hrest : tokenize ".\"d\"\"\""
      = [⟨.dot, ".", ⟨0, 1⟩⟩, ⟨.identifier, "\"d\"\"\"", ⟨1, 6⟩⟩, .eof 6] := by decide +kernel
  have hname : tokenize "[c].\"d\"\"\"" = [⟨.identifier, "[c]", ⟨0, 3⟩⟩, ⟨.dot, ".", ⟨3, 4⟩⟩,
      ⟨.identifier, "\"d\"\"\"", ⟨4, 9⟩⟩, .eof 9] := by
    have htokens := tokenize_quoted.2.2.2.1 "c" ".\"d\"\"\"" (by decide)
    rw [hrest] at htokens
    exact htokens
  have htokens := tokenize_quoted.1 .apostrophe "a'' OR '" "[c].\"d\"\"\"" (by decide)
  rw [show Quote.apostrophe.enclose "a'' OR '" = "'a'''' OR '''" by decide +kernel, hname]
    at htokens
  refine ⟨htokens, ?_, ?_, ?_⟩
  · exact tokenize_quoted.2.1 _ _ (htokens ▸ List.mem_cons_self) rfl
  · exact tokenize_quoted.2.2.1 ".\"d\"\"\"" _ (hrest ▸ List.mem_cons_of_mem _ List.mem_cons_self)
      .quotationMark rfl rfl
  · exact tokenize_quoted.2.2.2.2 "[c].\"d\"\"\"" _ (hname ▸ List.mem_cons_self) rfl rfl

end TolerantSql
