import TolerantSql.Proofs.Lexing

/-!
# Lexing loses nothing

The tokens of a source are the source, cut into pieces: their texts joined are
the source, their spans lie end to end on the boundaries of characters, and each
text is the slice of the source that its span names. One more token, the end of
the input, closes the list, and asking for tokens behind it gives it again.

Each part is an induction over the description of the tokens (`Lexes`), and
`tokenize_lossless` puts the parts together.
-/

namespace TolerantSql

namespace Lexer

variable {pos : Nat} {source : List Char} {tokens : List Token}

namespace Lexes

/-- The texts of the tokens joined are the text that was read. -/
theorem join_texts (h : Lexes pos source tokens) :
    String.join (tokens.map Token.text) = String.ofList source := by
  induction h with
  | nil => rfl
  | cons _ _ _ ih => rw [List.map_cons, String.join_cons, ih, String.ofList_append]; rfl

/-- The tokens begin where the text does. -/
theorem start_head (h : Lexes pos source tokens) :
    tokens.head?.map (·.span.start) = some pos := by
  cases h <;> rfl

/-- **The spans lie end to end.** -/
theorem isChain_spans (h : Lexes pos source tokens) :
    tokens.IsChain fun t t' => t'.span.start = t.span.stop := by
  induction h with
  | nil => exact .singleton _
  | @cons pos kind text behind tokens _ _ hrest ih =>
    have hstart := hrest.start_head
    cases tokens with
    | nil => cases hrest
    | cons t tokens => exact .cons_cons (Option.some.inj hstart) ih

/-- **The texts are slices of the source.** `front` is what stands before the
text that was read. -/
theorem slices (h : Lexes pos source tokens) (front : List Char)
    (hfront : String.utf8Len front = pos) {t : Token} (ht : t ∈ tokens) :
    ∃ before text behind, front ++ source = before ++ text ++ behind
      ∧ t.text = String.ofList text
      ∧ t.span = ⟨String.utf8Len before, String.utf8Len before + String.utf8Len text⟩ := by
  induction h generalizing front with
  | nil pos =>
    rw [List.mem_singleton.1 ht]
    exact ⟨front, [], [], by simp, rfl, by rw [hfront]; rfl⟩
  | @cons pos kind text behind tokens token _ _ ih =>
    rcases List.mem_cons.1 ht with rfl | ht
    · exact ⟨front, text, behind, (List.append_assoc _ _ _).symm, rfl, by rw [hfront]; rfl⟩
    · rw [← List.append_assoc]
      exact ih (front ++ text) (by rw [String.utf8Len_append, hfront]) ht

/-- Every token but the last is a piece of the text. -/
theorem pieces (h : Lexes pos source tokens) {t : Token} (ht : t ∈ tokens.dropLast) :
    t.isEof = false ∧ t.text ≠ "" := by
  induction h with
  | nil => cases ht
  | @cons pos kind text behind tokens token _ hrest ih =>
    have hne : tokens ≠ [] := by rintro rfl; cases hrest
    rw [List.dropLast_cons_of_ne_nil hne] at ht
    rcases List.mem_cons.1 ht with rfl | ht
    · refine ⟨token.isEof_eq_false, fun hempty => token.ne_nil ?_⟩
      exact String.ofList_eq_empty_iff.1 hempty
    · exact ih ht

/-- The last token is the end of the text. -/
theorem getLast (h : Lexes pos source tokens) :
    tokens.getLast? = some (.eof (pos + String.utf8Len source)) := by
  induction h with
  | nil => rfl
  | @cons pos kind text behind tokens _ _ hrest ih =>
    have hne : tokens ≠ [] := by rintro rfl; cases hrest
    rw [List.getLast?_cons_of_ne_nil hne, ih, String.utf8Len_append, Nat.add_assoc]

/-- **Asking for more tokens than there are repeats the last one.** -/
theorem firstTokens_eq (h : Lexes pos source tokens) {c : Cursor} (hpos : c.pos = pos)
    (hrest : c.rest = source) (n : Nat) :
    firstTokens (tokens.length + n) c
      = tokens ++ List.replicate n (.eof (pos + String.utf8Len source)) := by
  induction h generalizing c with
  | nil pos =>
    have hend : ∀ n, firstTokens n c = List.replicate n (.eof pos) := fun n => by
      induction n with
      | zero => rfl
      | succ n ih => rw [firstTokens, nextToken_nil hrest, hpos, List.replicate_succ, ← ih]
    rw [hend, List.length_singleton, Nat.add_comm, List.replicate_succ]
    rfl
  | @cons pos kind text behind tokens token stops _ ih =>
    obtain ⟨after, hnext, hreads⟩ := nextToken_of_isToken token hrest stops
    rw [List.length_cons, Nat.add_right_comm, firstTokens, hnext, hpos, List.cons_append,
      String.utf8Len_append, ← Nat.add_assoc,
      ← ih (hpos ▸ hreads.pos) (hreads.rest_eq hrest)]

end Lexes

end Lexer

open Lexer String.Pos.Raw in
/-- **Lexing is lossless.** The texts of the tokens joined are the source; the
spans begin at zero and lie end to end; every span lies on boundaries of
characters and its slice of the source is the token's text; every token but the
last is a piece of the source; the last is the end of the input; and asking for
tokens behind it gives it again. -/
theorem tokenize_lossless (source : String) :
    String.join ((tokenize source).map Token.text) = source
    ∧ (tokenize source).head?.map (·.span.start) = some 0
    ∧ (tokenize source).IsChain (fun t t' => t'.span.start = t.span.stop)
    ∧ (∀ t ∈ tokenize source,
        IsValid source ⟨t.span.start⟩ ∧ IsValid source ⟨t.span.stop⟩
        ∧ extract source ⟨t.span.start⟩ ⟨t.span.stop⟩ = t.text)
    ∧ (∀ t ∈ (tokenize source).dropLast, t.isEof = false ∧ t.text ≠ "")
    ∧ (tokenize source).getLast? = some (.eof source.utf8ByteSize)
    ∧ ∀ n, firstTokens ((tokenize source).length + n) (.ofString source)
        = tokenize source ++ List.replicate n (.eof source.utf8ByteSize) := by
  have h := lexes_tokenize source
  refine ⟨?_, h.start_head, h.isChain_spans, fun t ht => ?_, fun t ht => h.pieces ht, ?_, ?_⟩
  · rw [h.join_texts, String.ofList_toList]
  · obtain ⟨before, text, behind, hsource, htext, hspan⟩ := h.slices [] rfl ht
    have hsource' : source = String.ofList (before ++ text ++ behind) := by
      rw [← hsource, List.nil_append, String.ofList_toList]
    rw [hspan, htext]
    refine ⟨?_, ?_, ?_⟩
    · rw [isValid_iff_exists_append]
      refine ⟨String.ofList before, String.ofList (text ++ behind), ?_, ?_⟩
      · rw [← String.ofList_append, ← List.append_assoc, hsource']
      · rw [String.rawEndPos_ofList]
    · rw [isValid_iff_exists_append]
      refine ⟨String.ofList (before ++ text), String.ofList behind, ?_, ?_⟩
      · rw [← String.ofList_append, hsource']
      · rw [String.rawEndPos_ofList, String.utf8Len_append]
    · rw [hsource', String.extract_of_valid]
  · rw [h.getLast, Nat.zero_add, String.utf8Len_toList]
  · intro n
    rw [h.firstTokens_eq rfl rfl, Nat.zero_add, String.utf8Len_toList]

end TolerantSql
