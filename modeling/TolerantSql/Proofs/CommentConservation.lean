import Mathlib.Data.List.Nodup
import TolerantSql.Proofs.TokenConservation

/-!
# Parsing conserves comments

Comments never reach a tree. They travel with the token behind them until a statement
takes it, and are filed with the statement then, under the offset where the token
starts. Nothing on this way looks at them, so what has to be shown is that the two
ends fit: that a stream hands out with each token what stands between it and the
token before (`Groups`), and that filing appends, because tokens are taken in the
order of the source and no two of them start at the same offset
(`CommentMap.entries_foldl_insert`).
-/

namespace TolerantSql

/-! ## Tokens cut into lexemes -/

/-- All lexemes of a stream, the end of the input among them. -/
def TokenStream.lexemes (s : TokenStream) : List Lexeme := s.pending ++ [s.last]

/-- **Tokens cut into lexemes**: each token that a parser sees has the comments between it
and the one before. -/
inductive Groups : List Token → List Lexeme → Prop where
  | nil : Groups [] []
  | cons {gap rest : List Token} {t : Token} {lexemes : List Lexeme}
    (trivia : ∀ x ∈ gap, x.kind.isTrivia = true) (visible : t.kind.isTrivia = false)
    (h : Groups rest lexemes) :
    Groups (gap ++ t :: rest) (⟨t, gap.filter (·.kind.isComment)⟩ :: lexemes)

/-- **The lexeme at a place among tokens**: the token that comes behind `k` others, blanks
and comments not counted, with the comments that stand between it and the last of
these. -/
def IsLexemeAt (tokens : List Token) (k : Nat) (l : Lexeme) : Prop :=
  ∃ front gap behind, tokens = front ++ gap ++ l.token :: behind
    ∧ front.countP (fun t => !t.kind.isTrivia) = k
    ∧ (∀ t ∈ front.getLast?, t.kind.isTrivia = false)
    ∧ (∀ t ∈ gap, t.kind.isTrivia = true)
    ∧ l.comments = gap.filter (·.kind.isComment)

namespace Groups

variable {tokens : List Token} {lexemes : List Lexeme}

/-- The comments of the lexemes are those among the tokens. -/
theorem flatMap_comments (h : Groups tokens lexemes) :
    lexemes.flatMap Lexeme.comments = tokens.filter (·.kind.isComment) := by
  induction h with
  | nil => rfl
  | @cons gap rest t lexemes _ visible _ ih =>
    have ht : t.kind.isComment = false := by
      cases hcomment : t.kind.isComment with
      | false => rfl
      | true => rw [TokenKind.isTrivia_of_isComment hcomment] at visible; cases visible
    rw [List.flatMap_cons, ih, List.filter_append, List.filter_cons, ht,
      if_neg Bool.false_ne_true]

/-- The tokens of the lexemes are those that a parser sees. -/
theorem map_token (h : Groups tokens lexemes) :
    lexemes.map Lexeme.token = tokens.filter (fun t => !t.kind.isTrivia) := by
  induction h with
  | nil => rfl
  | @cons gap rest t lexemes trivia visible _ ih =>
    have hgap : gap.filter (fun t => !t.kind.isTrivia) = [] :=
      List.filter_eq_nil_iff.2 fun x hx => by rw [trivia x hx]; exact Bool.false_ne_true
    rw [List.map_cons, ih, List.filter_append, hgap, List.filter_cons, visible]
    rfl

/-- Tokens cut into lexemes have each lexeme at its place. -/
theorem isLexemeAt (h : Groups tokens lexemes) {k : Nat} {l : Lexeme}
    (hl : lexemes[k]? = some l) : IsLexemeAt tokens k l := by
  induction h generalizing k with
  | nil => cases hl
  | @cons gap rest t lexemes trivia visible _ ih =>
    cases k with
    | zero =>
      obtain rfl := Option.some.inj hl
      exact ⟨[], gap, rest, rfl, rfl, nofun, trivia, rfl⟩
    | succ k =>
      obtain ⟨front, gap', behind, hrest, hcount, hfront, htrivia, hcomments⟩ := ih hl
      refine ⟨gap ++ t :: front, gap', behind, ?_, ?_, fun x hx => ?_, htrivia, hcomments⟩
      · rw [hrest]
        simp only [List.append_assoc, List.cons_append]
      · have hgap : gap.countP (fun t => !t.kind.isTrivia) = 0 :=
          List.countP_eq_zero.2 fun x hx => by rw [trivia x hx]; exact Bool.false_ne_true
        rw [List.countP_append, hgap, List.countP_cons, hcount, visible, Nat.zero_add]
        rfl
      · -- what stands last before the gap is in `front`, or is the token itself
        rw [List.getLast?_append, List.getLast?_cons, Option.some_or, Option.mem_some_iff] at hx
        cases hlast : front.getLast? with
        | none =>
          rw [hlast, Option.getD_none] at hx
          exact hx ▸ visible
        | some y =>
          rw [hlast, Option.getD_some] at hx
          exact hx ▸ hfront y hlast

/-- **What stands between a token and the one before.** -/
theorem exists_gap (h : Groups tokens lexemes) {l : Lexeme} (hl : l ∈ lexemes) :
    ∃ front gap behind, tokens = front ++ gap ++ l.token :: behind
      ∧ (∀ x ∈ gap, x.kind.isTrivia = true) ∧ (∀ x ∈ front.getLast?, x.kind.isTrivia = false)
      ∧ l.comments = gap.filter (·.kind.isComment) := by
  obtain ⟨k, hk⟩ := List.mem_iff_getElem?.1 hl
  obtain ⟨front, gap, behind, htokens, -, hfront, htrivia, hcomments⟩ := h.isLexemeAt hk
  exact ⟨front, gap, behind, htokens, htrivia, hfront, hcomments⟩

end Groups

/-- The stream of tokens that are read off a text, behind blanks and comments. -/
theorem Lexer.Lexes.groups {pos : Nat} {source : List Char} {tokens : List Token}
    (h : Lexes pos source tokens) (gap : List Token) (hgap : ∀ x ∈ gap, x.kind.isTrivia = true) :
    Groups (gap ++ tokens)
      (TokenStream.ofTokens (gap.filter (·.kind.isComment)) tokens).lexemes := by
  induction h generalizing gap with
  | nil pos => exact .cons hgap rfl .nil
  | @cons pos kind text behind tokens token _ _ ih =>
    have hnot : (tokenAt pos kind text).isEof = false := token.isEof_eq_false
    have hmore (htrivia : (tokenAt pos kind text).kind.isTrivia = true) :=
      ih (gap ++ [tokenAt pos kind text])
        (List.forall_mem_append.2 ⟨hgap, List.forall_mem_singleton.2 htrivia⟩)
    rw [TokenStream.ofTokens, hnot, if_neg Bool.false_ne_true]
    split
    · next hcomment =>
      have hgroups := hmore (TokenKind.isTrivia_of_isComment hcomment)
      rwa [List.filter_append, List.filter_singleton, hcomment, cond_true, List.append_assoc]
        at hgroups
    · next hcomment =>
      split
      · next htrivia =>
        have hgroups := hmore htrivia
        rwa [List.filter_append, List.filter_singleton, Bool.eq_false_of_not_eq_true hcomment,
          cond_false, List.append_nil, List.append_assoc] at hgroups
      · next htrivia =>
        have hgroups := ih [] (List.forall_mem_nil _)
        exact .cons hgap (Bool.eq_false_of_not_eq_true htrivia) hgroups

theorem TokenStream.groups_ofSource (source : String) :
    Groups (tokenize source) (ofSource source).lexemes :=
  (lexes_tokenize source).groups [] (List.forall_mem_nil _)

/-! ## The order of tokens -/

/-- **No two tokens start at the same offset**: each starts behind those before it. -/
theorem Lexer.Lexes.pairwise_start {pos : Nat} {source : List Char} {tokens : List Token}
    (h : Lexes pos source tokens) :
    (∀ t ∈ tokens, pos ≤ t.span.start)
      ∧ tokens.Pairwise fun t t' => t.span.start < t'.span.start := by
  induction h with
  | nil pos => exact ⟨List.forall_mem_singleton.2 (Nat.le_refl _), List.pairwise_singleton _ _⟩
  | @cons pos kind text behind tokens token _ _ ih =>
    obtain ⟨hstart, hpairwise⟩ := ih
    have hlength : 0 < String.utf8Len text :=
      Nat.pos_of_ne_zero fun hzero => token.ne_nil (String.utf8Len_eq_zero.1 hzero)
    refine ⟨List.forall_mem_cons.2 ⟨Nat.le_refl _, fun t ht => ?_⟩,
      List.pairwise_cons.2 ⟨fun t ht => ?_, hpairwise⟩⟩
    · exact Nat.le_trans (Nat.le_add_right _ _) (hstart t ht)
    · exact Nat.lt_of_lt_of_le (Nat.lt_add_of_pos_right hlength) (hstart t ht)

/-- Lexemes in the order of the source. -/
abbrev InOrder (lexemes : List Lexeme) : Prop :=
  lexemes.Pairwise fun l l' => l.token.span.start < l'.token.span.start

theorem TokenStream.inOrder_ofSource (source : String) : InOrder (ofSource source).lexemes := by
  have hpairwise := (lexes_tokenize source).pairwise_start.2.filter (fun t => !t.kind.isTrivia)
  rwa [← (groups_ofSource source).map_token, List.pairwise_map] at hpairwise

/-! ## Filing comments -/

/-- What is filed for a lexeme: nothing without comments. -/
def Lexeme.entry? (l : Lexeme) : Option (Nat × List Token) :=
  if l.comments.isEmpty then none else some (l.token.span.start, l.comments)

theorem Lexeme.entry?_cases (l : Lexeme) :
    l.comments = [] ∧ l.entry? = none ∨ l.entry? = some (l.token.span.start, l.comments) := by
  unfold entry?
  split
  · next hempty => exact .inl ⟨List.isEmpty_iff.1 hempty, rfl⟩
  · exact .inr rfl

/-- Comments are filed under the offset where the token behind them starts. -/
theorem Lexeme.key_of_entry? {l : Lexeme} {e : Nat × List Token} (h : l.entry? = some e) :
    e.1 = l.token.span.start := by
  rcases l.entry?_cases with ⟨-, hnone⟩ | hsome
  · rw [hnone] at h
    cases h
  · rw [hsome] at h
    cases h
    rfl

namespace CommentMap

/-- Behind all offsets that are there, filing appends. -/
theorem insertEntry_eq_append {offset : Nat} {comments : List Token}
    {entries : List (Nat × List Token)} (h : ∀ e ∈ entries, e.1 < offset) :
    insertEntry offset comments entries = entries ++ [(offset, comments)] := by
  induction entries with
  | nil => rfl
  | cons e rest ih =>
    obtain ⟨he, hrest⟩ := List.forall_mem_cons.1 h
    rw [insertEntry, if_neg (by omega), if_neg (by omega), ih hrest]
    rfl

theorem entries_insert {m : CommentMap} {l : Lexeme}
    (h : ∀ e ∈ m.entries, e.1 < l.token.span.start) :
    (m.insert l.token l.comments).entries = m.entries ++ l.entry?.toList := by
  unfold insert Lexeme.entry?
  split
  · exact (List.append_nil _).symm
  · exact insertEntry_eq_append h

/-- **Filing the comments of lexemes in the order of the source** appends them one by
one. -/
theorem entries_foldl_insert {held : List Lexeme} (h : InOrder held) {m : CommentMap}
    (hm : ∀ e ∈ m.entries, ∀ l ∈ held, e.1 < l.token.span.start) :
    (held.foldl (fun m l => m.insert l.token l.comments) m).entries
      = m.entries ++ held.filterMap Lexeme.entry? := by
  induction held generalizing m with
  | nil => exact (List.append_nil _).symm
  | cons l held ih =>
    obtain ⟨hl, hheld⟩ := List.pairwise_cons.1 h
    have hinsert := entries_insert fun e he => hm e he l List.mem_cons_self
    rw [List.foldl_cons, ih hheld, hinsert, List.append_assoc, List.filterMap_cons]
    · cases l.entry? <;> rfl
    · rw [hinsert]
      intro e he l' hl'
      rcases List.mem_append.1 he with he | he
      · exact hm e he l' (List.mem_cons_of_mem _ hl')
      · rw [Lexeme.key_of_entry? (Option.mem_toList.1 he)]
        exact hl l' hl'

/-- What is filed for lexemes are their comments. -/
theorem flatMap_entries (held : List Lexeme) :
    (held.filterMap Lexeme.entry?).flatMap Prod.snd = held.flatMap Lexeme.comments := by
  induction held with
  | nil => rfl
  | cons l held ih =>
    rw [List.flatMap_cons, ← ih, List.filterMap_cons]
    rcases l.entry?_cases with ⟨hnil, hnone⟩ | hsome
    · rw [hnone, hnil]
      rfl
    · rw [hsome]
      rfl

/-- **What is found under the offset of a lexeme** are its comments. -/
theorem lookup_entries {held : List Lexeme} (h : InOrder held) {l : Lexeme} (hl : l ∈ held) :
    ((held.filterMap Lexeme.entry?).lookup l.token.span.start).getD [] = l.comments := by
  induction held with
  | nil => cases hl
  | cons first held ih =>
    obtain ⟨hfirst, hheld⟩ := List.pairwise_cons.1 h
    rw [List.filterMap_cons]
    rcases List.mem_cons.1 hl with rfl | hl
    · rcases l.entry?_cases with ⟨hnil, hnone⟩ | hsome
      · -- nothing behind is filed under the same offset
        have hlookup : (held.filterMap Lexeme.entry?).lookup l.token.span.start = none := by
          refine List.lookup_eq_none_iff.2 fun e he => bne_iff_ne.2 ?_
          obtain ⟨l', hl', he⟩ := List.mem_filterMap.1 he
          rw [Lexeme.key_of_entry? he]
          exact Nat.ne_of_lt (hfirst l' hl')
        rw [hnone, hlookup, hnil]
        rfl
      · rw [hsome, List.lookup_cons_self]
        rfl
    · have hne : (l.token.span.start == first.token.span.start) = false :=
        beq_eq_false_iff_ne.2 (Nat.ne_of_gt (hfirst l hl))
      rcases first.entry?_cases with ⟨-, hnone⟩ | hsome
      · rw [hnone]
        exact ih hheld hl
      · rw [hsome, List.lookup_cons, hne]
        exact ih hheld hl

end CommentMap

/-! ## The comments of a statement -/

/-- What a statement files, for the lexemes that it holds. -/
theorem ParsedStatement.Holds.entries_eq {parsed : ParsedStatement} {held : List Lexeme}
    (h : parsed.Holds held) (horder : InOrder held) :
    parsed.statement.comments.entries = held.filterMap Lexeme.entry? := by
  have hempty : ∀ e ∈ CommentMap.empty.entries, ∀ l ∈ held, e.1 < l.token.span.start :=
    List.forall_mem_nil _
  rw [h.comments, CommentMap.entries_foldl_insert horder hempty]
  rfl

/-- **A key of a statement is where one of its tokens starts**, and only one. -/
theorem ParsedStatement.Holds.countP_start {parsed : ParsedStatement} {held : List Lexeme}
    (h : parsed.Holds held) (horder : InOrder held) {key : Nat}
    (hkey : key ∈ parsed.statement.comments.entries.map Prod.fst) :
    parsed.statement.tree.terminals.countP (·.span.start == key) = 1 := by
  rw [h.entries_eq horder] at hkey
  obtain ⟨e, he, rfl⟩ := List.mem_map.1 hkey
  obtain ⟨l, hl, he⟩ := List.mem_filterMap.1 he
  have hnodup : (held.map fun l => l.token.span.start).Nodup :=
    List.pairwise_map.2 (horder.imp Nat.ne_of_lt)
  have hcount := List.count_eq_one_of_mem hnodup (List.mem_map_of_mem hl)
  rw [h.terminals, List.countP_map, Lexeme.key_of_entry? he]
  rw [List.count, List.countP_map] at hcount
  exact hcount

/-- Each statement files the comments of the lexemes that it holds. -/
theorem flatMap_all_of_holds {parsed : List ParsedStatement} {held : List (List Lexeme)}
    (h : List.Forall₂ ParsedStatement.Holds parsed held) (horder : InOrder held.flatten) :
    parsed.flatMap (·.statement.comments.all) = held.flatten.flatMap Lexeme.comments := by
  induction h with
  | nil => rfl
  | @cons first near _ _ hholds _ ih =>
    obtain ⟨hnear, hbehind, -⟩ := List.pairwise_append.1 horder
    have hall : first.statement.comments.all = near.flatMap Lexeme.comments := by
      rw [CommentMap.all, hholds.entries_eq hnear, CommentMap.flatMap_entries]
    rw [List.flatMap_cons, hall, ih hbehind, List.flatten_cons, List.flatMap_append]

/-- Every statement holds some of the lexemes. -/
theorem exists_holds_of_mem {parsed : List ParsedStatement} {held : List (List Lexeme)}
    (h : List.Forall₂ ParsedStatement.Holds parsed held) {first : ParsedStatement}
    (hfirst : first ∈ parsed) : ∃ near ∈ held, first.Holds near := by
  induction h with
  | nil => cases hfirst
  | cons hholds _ ih =>
    rcases List.mem_cons.1 hfirst with rfl | hfirst
    · exact ⟨_, List.mem_cons_self, hholds⟩
    · obtain ⟨near, hnear, hholds⟩ := ih hfirst
      exact ⟨near, List.mem_cons_of_mem _ hnear, hholds⟩

/-- The statements of a source and the lexemes that they hold, in the order of the
source. -/
theorem TokenStream.exists_holds_ofSource (source : String) :
    ∃ held, List.Forall₂ ParsedStatement.Holds (ofSource source).parseAll held
      ∧ held.flatten.Sublist (ofSource source).lexemes
      ∧ held.flatten.flatMap Lexeme.comments = (tokenize source).filter (·.kind.isComment) := by
  obtain ⟨held, tail, hall, hflatten, htail⟩ := holds_parseAll (lawful_ofSource source)
  refine ⟨held, hall, ?_⟩
  rw [hflatten, ← (groups_ofSource source).flatMap_comments, lexemes, List.flatMap_append,
    List.flatMap_append]
  rcases htail with ⟨rfl, hcomments⟩ | rfl
  · refine ⟨List.Sublist.append (List.Sublist.refl _) (List.nil_sublist _), ?_⟩
    rw [List.flatMap_singleton, hcomments]
    rfl
  · exact ⟨List.Sublist.refl _, rfl⟩

/-- **Parsing conserves comments.** The comments of the statements, one statement behind
the other, are the comments of the source: the same ones in the same order, each once.
A statement files comments under offsets where exactly one of its tokens starts, and
before each of its tokens has those that stand between it and the token before in the
source. -/
theorem parse_conserves_comments (source : String) :
    (parse source).flatMap (·.comments.all) = (tokenize source).filter (·.kind.isComment)
    ∧ ∀ s ∈ parse source,
      (∀ key ∈ s.comments.entries.map Prod.fst,
        s.tree.terminals.countP (·.span.start == key) = 1)
      ∧ ∀ t ∈ s.tree.terminals, ∃ front gap behind,
        tokenize source = front ++ gap ++ t :: behind
        ∧ (∀ x ∈ gap, x.kind.isTrivia = true) ∧ (∀ x ∈ front.getLast?, x.kind.isTrivia = false)
        ∧ s.comments.before t = gap.filter (·.kind.isComment) := by
  obtain ⟨held, hall, hsublist, hcomments⟩ := TokenStream.exists_holds_ofSource source
  have horder : InOrder held.flatten := (TokenStream.inOrder_ofSource source).sublist hsublist
  refine ⟨?_, fun s hs => ?_⟩
  · rw [parse, List.flatMap_map, ← hcomments]
    exact flatMap_all_of_holds hall horder
  · obtain ⟨parsed, hparsed, rfl⟩ := List.mem_map.1 hs
    obtain ⟨near, hmem, hholds⟩ := exists_holds_of_mem hall hparsed
    have hnear := List.sublist_flatten_of_mem hmem
    refine ⟨fun key => hholds.countP_start (horder.sublist hnear), fun t ht => ?_⟩
    rw [hholds.terminals] at ht
    obtain ⟨l, hl, rfl⟩ := List.mem_map.1 ht
    obtain ⟨front, gap, behind, htokens, htrivia, hfront, hgap⟩ :=
      (TokenStream.groups_ofSource source).exists_gap (hsublist.subset (hnear.subset hl))
    refine ⟨front, gap, behind, htokens, htrivia, hfront, ?_⟩
    rw [CommentMap.before, hholds.entries_eq (horder.sublist hnear),
      CommentMap.lookup_entries (horder.sublist hnear) hl, hgap]

/-- The comment before the semicolon and the one behind it go to different statements. -/
theorem parse_conserves_comments_begin :
    (parse "BEGIN /* now */; -- end").map (·.comments.all.map Token.text)
        = [["/* now */"], ["-- end"]]
    ∧ (parse "BEGIN /* now */; -- end").flatMap (·.comments.all)
      = (tokenize "BEGIN /* now */; -- end").filter (·.kind.isComment)
    ∧ ∃ s ∈ parse "BEGIN /* now */; -- end", ∃ t ∈ s.tree.terminals, t.kind = .semicolon
      ∧ ∃ front gap behind,
        tokenize "BEGIN /* now */; -- end" = front ++ gap ++ t :: behind
        ∧ (∀ x ∈ gap, x.kind.isTrivia = true) ∧ (∀ x ∈ front.getLast?, x.kind.isTrivia = false)
        ∧ s.comments.before t = gap.filter (·.kind.isComment) := by
  have hany : (parse "BEGIN /* now */; -- end").any (fun s =>
      s.tree.terminals.any (·.kind == .semicolon)) = true := by
    decide +kernel
  obtain ⟨s, hs, hs'⟩ := List.any_eq_true.1 hany
  obtain ⟨t, ht, hsemicolon⟩ := List.any_eq_true.1 hs'
  obtain ⟨hcomments, hall⟩ := parse_conserves_comments "BEGIN /* now */; -- end"
  exact ⟨by decide +kernel, hcomments, s, hs, t, ht, beq_iff_eq.1 hsemicolon, (hall s hs).2 t ht⟩

end TolerantSql
