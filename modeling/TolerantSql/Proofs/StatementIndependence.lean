import TolerantSql.Proofs.LosslessLexing
import TolerantSql.Proofs.ParallelRuns
import TolerantSql.Proofs.TokenConservation

/-!
# Statements are independent at semicolons

A source whose tokens end with a semicolon can be followed by anything: the
statements of the two together are those of the first and then those of the
second. Two facts make up the proof. Tokens are joined by `tokenize_append`, so the
stream of the joined source has the lexemes of the first in front of the stream of
the second, moved. And no rule is decided by what stands behind the semicolon of its
statement (`Rule.Confined`), so the lexemes in front hold the statements that they hold
on their own (`parseAll_prepend`, by parallel runs without a change of tokens), while
moving a stream moves its statements (`parseAll_relabel`, by parallel runs to the end
of the input).
-/

namespace TolerantSql

/-! ## Moving statements -/

/-- The statement `offset` bytes further on: its tokens, its comments, and the
offsets under which they are filed. -/
def Statement.shift (offset : Nat) (s : Statement) : Statement :=
  ⟨Forest.mapTokens (Token.shift offset) s.children, s.comments.shift offset⟩

/-- Entries stay in order when all of them move, whatever becomes of the comments. -/
theorem CommentMap.insertEntry_map (f : Token → Token) (offset key : Nat)
    (comments : List Token) (entries : List (Nat × List Token)) :
    (insertEntry key comments entries).map (fun e => (e.1 + offset, e.2.map f))
      = insertEntry (key + offset) (comments.map f)
        (entries.map fun e => (e.1 + offset, e.2.map f)) := by
  induction entries with
  | nil => rfl
  | cons e entries ih =>
    obtain ⟨key', found⟩ := e
    rw [insertEntry, List.map_cons, insertEntry]
    rcases Nat.lt_trichotomy key key' with hless | rfl | hgreater
    · rw [if_pos hless, if_pos (by omega)]
      rfl
    · rw [if_neg (Nat.lt_irrefl _), if_pos rfl, if_neg (Nat.lt_irrefl _), if_pos rfl,
        List.map_cons, List.map_append]
    · rw [if_neg (by omega), if_neg (by omega), if_neg (by omega), if_neg (by omega),
        List.map_cons, ih]

theorem CommentMap.shift_insert (offset : Nat) (m : CommentMap) (t : Token)
    (comments : List Token) :
    (m.insert t comments).shift offset
      = (m.shift offset).insert (t.shift offset) (comments.map (Token.shift offset)) := by
  cases comments with
  | nil => rfl
  | cons c comments => exact congrArg CommentMap.mk (insertEntry_map _ _ _ _ _)

namespace Relabelling

/-- Moving everything `offset` bytes further on. -/
def shift (offset : Nat) : Relabelling where
  token := Token.shift offset
  comments := List.map (Token.shift offset)
  filed := CommentMap.shift offset
  kind_token _ := rfl
  word_token _ := rfl
  comments_nil := rfl
  filed_empty := rfl
  filed_insert := CommentMap.shift_insert offset

theorem map_lexeme_id (near : List Lexeme) : near.map Relabelling.id.lexeme = near :=
  List.map_id near

end Relabelling

mutual

theorem Tree.mapTokens_id (t : Tree) : t.mapTokens (fun t => t) = t := by
  cases t with
  | node kind children => rw [Tree.mapTokens, Forest.mapTokens_id]
  | leaf l => cases l <;> rfl

theorem Forest.mapTokens_id (f : Forest) : Forest.mapTokens (fun t => t) f = f := by
  cases f with
  | nil => rfl
  | cons t f => rw [Forest.mapTokens, Tree.mapTokens_id, Forest.mapTokens_id]

end

theorem Statement.relabel_id (s : Statement) : s.relabel .id = s := by
  rw [relabel]
  exact congrArg (Statement.mk · s.comments) (Forest.mapTokens_id s.children)

namespace TokenStream

/-- A stream with its tokens and comments changed. -/
def relabel (ρ : Relabelling) (input : TokenStream) : TokenStream :=
  ⟨input.pending.map ρ.lexeme, ρ.lexeme input.last⟩

theorem Lawful.relabel {input : TokenStream} (h : input.Lawful) (ρ : Relabelling) :
    (input.relabel ρ).Lawful where
  pending l hl := by
    obtain ⟨l', hl', rfl⟩ := List.mem_map.1 hl
    have hkind := h.pending l' hl'
    rwa [Token.isEof, ← ρ.kind_token] at hkind
  last := by
    have hkind := h.last
    rwa [Token.isEof, ← ρ.kind_token] at hkind

theorem prepend_pending (input : TokenStream) :
    (⟨[], input.last⟩ : TokenStream).prepend input.pending = input := by
  rw [prepend, List.append_nil]

/-- Relabelling a stream relabels the statement at its front and what is behind
it. -/
theorem parseStatement_relabel (ρ : Relabelling) {input : TokenStream} (h : input.Lawful) :
    (input.relabel ρ).parseStatement.statement = input.parseStatement.statement.relabel ρ
      ∧ (input.relabel ρ).parseStatement.rest = input.parseStatement.rest.relabel ρ := by
  have hends : ρ.Ends ⟨[], input.last⟩ ⟨[], ρ.lexeme input.last⟩ :=
    ⟨rfl, rfl, rfl, Token.kind_eq_eof h.last⟩
  have hparse := parseStatement_prepend ρ _ _ h.pending (.inl hends)
  rw [prepend_pending] at hparse
  have hrelabel : (⟨[], ρ.lexeme input.last⟩ : TokenStream).prepend (input.pending.map ρ.lexeme)
      = input.relabel ρ := prepend_pending (input.relabel ρ)
  rw [hrelabel] at hparse
  refine ⟨hparse.1, ?_⟩
  rcases hparse.2 with ⟨near₂, -, hrest, hrest'⟩ | ⟨-, hrest, hrest'⟩
  · rw [hrest, hrest', relabel, prepend, prepend, List.append_nil, List.append_nil]
  · rw [hrest, hrest', relabel, Relabelling.lexeme, Relabelling.lexeme, ρ.comments_nil]
    rfl

/-- **Relabelling a stream relabels its statements**, provided that comments do
not vanish. -/
theorem parseAll_relabel (ρ : Relabelling)
    (hcomments : ∀ cs, (ρ.comments cs).isEmpty = cs.isEmpty) {input : TokenStream}
    (h : input.Lawful) :
    (input.relabel ρ).parseAll.map ParsedStatement.statement
      = (input.parseAll.map ParsedStatement.statement).map (Statement.relabel ρ) := by
  generalize hn : input.weight = n
  induction n using Nat.strongRecOn generalizing input with
  | _ n ih =>
    have hend : (input.relabel ρ).isAtEnd = input.isAtEnd := by
      rw [isAtEnd, isAtEnd, relabel, List.isEmpty_map]
      exact congrArg _ (hcomments _)
    have hlawful : (input.relabel ρ).Lawful := h.relabel ρ
    cases hmore : input.isAtEnd with
    | true => rw [parseAll_nil hmore, parseAll_nil (hend.trans hmore)]; rfl
    | false =>
      obtain ⟨hstatement, hrest⟩ := parseStatement_relabel ρ h
      rw [parseAll_cons h hmore, parseAll_cons hlawful (hend.trans hmore), List.map_cons,
        List.map_cons, List.map_cons, hstatement, hrest,
        ih _ (hn ▸ weight_parseStatement_lt h hmore) (lawful_parseStatement h) rfl]

/-- **Statements in front of a stream.** Where lexemes end with a semicolon, the
statements they hold are those they hold on their own. -/
theorem parseAll_prepend {near : List Lexeme} {last : Lexeme} {tail : TokenStream}
    (hlawful : (⟨near, last⟩ : TokenStream).Lawful) (hlast : last.comments = [])
    (htail : tail.Lawful)
    (hsemi : ∀ l, near.getLast? = some l → l.token.kind = .semicolon) :
    (tail.prepend near).parseAll.map ParsedStatement.statement
      = (⟨near, last⟩ : TokenStream).parseAll.map ParsedStatement.statement
        ++ tail.parseAll.map ParsedStatement.statement := by
  generalize hn : near.length = n
  induction n using Nat.strongRecOn generalizing near with
  | _ n ih =>
    by_cases hnil : near = []
    · have hend : (⟨near, last⟩ : TokenStream).isAtEnd = true := by
        rw [isAtEnd, hnil, hlast]
        rfl
      rw [parseAll_nil hend, hnil]
      rfl
    · have hmem := List.getLast_mem hnil
      have hbounded : ∃ l ∈ near, l.token.kind = .semicolon :=
        ⟨_, hmem, hsemi _ (List.getLast?_eq_some_getLast hnil)⟩
      have hlawful' : (tail.prepend near).Lawful :=
        ⟨List.forall_mem_append.2 ⟨hlawful.pending, htail.pending⟩, htail.last⟩
      have hmore : (⟨near, last⟩ : TokenStream).isAtEnd = false := by
        rw [isAtEnd, List.isEmpty_eq_false_iff.2 hnil]
        rfl
      have hmore' : (tail.prepend near).isAtEnd = false := by
        have hne : near ++ tail.pending ≠ [] := List.append_ne_nil_of_left_ne_nil hnil _
        rw [isAtEnd, prepend, List.isEmpty_eq_false_iff.2 hne]
        rfl
      have hless := weight_parseStatement_lt hlawful hmore
      obtain ⟨hstatement, hrest⟩ := parseStatement_prepend .id ⟨[], last⟩ tail hlawful.pending
        (.inr hbounded)
      rw [Relabelling.map_lexeme_id, prepend_pending ⟨near, last⟩] at hstatement hrest
      rw [parseAll_cons hlawful hmore, parseAll_cons hlawful' hmore', List.map_cons,
        List.map_cons, hstatement, Statement.relabel_id, List.cons_append]
      refine congrArg _ ?_
      rcases hrest with ⟨near₂, hnear, hrest, hrest'⟩ | ⟨hends, hrest, hrest'⟩
      · -- what is left of the lexemes in front still ends with a semicolon
        rw [prepend_pending ⟨near₂, last⟩] at hrest
        rw [Relabelling.map_lexeme_id] at hrest'
        rw [hrest] at hless ⊢
        rw [hrest']
        refine ih near₂.length ?_ ?_ (fun l hl => hsemi l ?_) rfl
        · simpa [weight, hlast, hn] using hless
        · exact ⟨fun l hl => hlawful.pending l (hnear.subset hl), hlawful.last⟩
        · obtain ⟨front, rfl⟩ := hnear
          rw [List.getLast?_append, hl]
          rfl
      · -- the statement took everything, so there is nothing behind the semicolon
        have htail : tail.isAtEnd = true := by
          rw [isAtEnd, hends.pending', hends.last]
          exact List.isEmpty_iff.2 hlast
        rw [hrest, hrest', parseAll_nil rfl, parseAll_nil rfl, parseAll_nil htail]
        rfl

/-! ## The stream of a joined source -/

/-- The stream of tokens that have all been changed, the comments among them too. -/
theorem ofTokens_relabel (ρ : Relabelling) (hcomments : ∀ cs, ρ.comments cs = cs.map ρ.token)
    (comments tokens : List Token) (hend : ∃ t ∈ tokens, t.isEof = true) :
    ofTokens (comments.map ρ.token) (tokens.map ρ.token)
      = (ofTokens comments tokens).relabel ρ := by
  induction tokens generalizing comments with
  | nil =>
    obtain ⟨t, ht, -⟩ := hend
    cases ht
  | cons t tokens ih =>
    have hkind : (ρ.token t).kind = t.kind := ρ.kind_token t
    have hsame : (ρ.token t).isEof = t.isEof := congrArg TokenKind.isEof hkind
    rw [List.map_cons, ofTokens, ofTokens, hsame, hkind]
    by_cases heof : t.isEof = true
    · rw [if_pos heof, if_pos heof, ← hcomments]
      rfl
    · have hend' : ∃ t ∈ tokens, t.isEof = true := by
        obtain ⟨t', ht', heof'⟩ := hend
        rcases List.mem_cons.1 ht' with rfl | ht'
        · exact absurd heof' heof
        · exact ⟨t', ht', heof'⟩
      rw [if_neg heof, if_neg heof]
      split
      · rw [← ih _ hend', List.map_append]
        rfl
      · split
        · exact ih comments hend'
        · have hbehind := ih [] hend'
          rw [List.map_nil] at hbehind
          rw [hbehind, ← hcomments]
          rfl

/-- The stream of tokens that have all moved. -/
theorem ofTokens_shift (offset : Nat) (comments tokens : List Token)
    (hend : ∃ t ∈ tokens, t.isEof = true) :
    ofTokens (comments.map (Token.shift offset)) (tokens.map (Token.shift offset))
      = (ofTokens comments tokens).relabel (.shift offset) :=
  ofTokens_relabel (.shift offset) (fun _ => rfl) comments tokens hend

/-- **The stream of tokens with a semicolon among them** is the stream of those
behind it, with lexemes in front that do not depend on them. -/
theorem ofTokens_semicolon {semi : Token} (hsemi : semi.kind = .semicolon) {front : List Token}
    (hfront : ∀ t ∈ front, t.isEof = false) (comments : List Token) :
    ∃ near l, l.token = semi ∧ near.getLast? = some l ∧ ∀ rest,
      ofTokens comments (front ++ semi :: rest) = (ofTokens [] rest).prepend near := by
  induction front generalizing comments with
  | nil =>
    refine ⟨[⟨semi, comments⟩], ⟨semi, comments⟩, rfl, rfl, fun rest => ?_⟩
    rw [List.nil_append, ofTokens, Token.isEof, hsemi]
    rfl
  | cons t front ih =>
    obtain ⟨ht, hfront'⟩ := List.forall_mem_cons.1 hfront
    by_cases hcomment : t.kind.isComment = true
    · obtain ⟨near, l, hl, hlast, hrest⟩ := ih hfront' (comments ++ [t])
      refine ⟨near, l, hl, hlast, fun rest => ?_⟩
      rw [List.cons_append, ofTokens, ht, if_neg Bool.false_ne_true, if_pos hcomment, hrest]
    · by_cases htrivia : t.kind.isTrivia = true
      · obtain ⟨near, l, hl, hlast, hrest⟩ := ih hfront' comments
        refine ⟨near, l, hl, hlast, fun rest => ?_⟩
        rw [List.cons_append, ofTokens, ht, if_neg Bool.false_ne_true, if_neg hcomment,
          if_pos htrivia, hrest]
      · obtain ⟨near, l, hl, hlast, hrest⟩ := ih hfront' []
        refine ⟨⟨t, comments⟩ :: near, l, hl, ?_, fun rest => ?_⟩
        · cases near with
          | nil => cases hlast
          | cons l' near => rwa [List.getLast?_cons_cons]
        · rw [List.cons_append, ofTokens, ht, if_neg Bool.false_ne_true, if_neg hcomment,
            if_neg htrivia, hrest]
          rfl

end TokenStream

open TokenStream in
/-- **Statements are independent at semicolons.** If the tokens of a source end
with a semicolon, then whatever is written behind it, the statements of the two
together are those of the first, unchanged, and those of the second, moved by the
length of the first: the same trees, errors and comments. -/
theorem parse_append {a b : String} {front : List Token} {semi eof : Token}
    (h : tokenize a = front ++ [semi, eof]) (hsemi : semi.kind = .semicolon) :
    parse (a ++ b) = parse a ++ (parse b).map (Statement.shift a.utf8ByteSize) := by
  have hlexes := lexes_tokenize a
  have hpieces : ∀ t ∈ front, t.isEof = false := fun t ht => by
    refine (hlexes.pieces ?_).1
    rw [h, show [semi, eof] = [semi] ++ [eof] from rfl, ← List.append_assoc, List.dropLast_concat]
    exact List.mem_append_left _ ht
  have heof : eof.isEof = true := by
    have hlast := hlexes.getLast
    rw [h, List.getLast?_append] at hlast
    replace hlast : some eof = some (Token.eof _) := hlast
    rw [Option.some.inj hlast]
    rfl
  obtain ⟨near, l, rfl, hlast, hnear⟩ := ofTokens_semicolon hsemi hpieces []
  have ha : ofSource a = ⟨near, ⟨eof, []⟩⟩ := by
    rw [ofSource, h, hnear [eof], ofTokens, if_pos heof, prepend, List.append_nil]
  have hab : ofSource (a ++ b) = ((ofSource b).relabel (.shift a.utf8ByteSize)).prepend near := by
    have hend : ∃ t ∈ tokenize b, t.isEof = true :=
      ⟨_, List.mem_of_getLast? (lexes_tokenize b).getLast, rfl⟩
    rw [ofSource, tokenize_append h hsemi, hnear, ofSource,
      ← ofTokens_shift a.utf8ByteSize [] (tokenize b) hend]
    rfl
  have hlawful : (⟨near, ⟨eof, []⟩⟩ : TokenStream).Lawful := ha ▸ lawful_ofSource a
  have hb := lawful_ofSource b
  rw [parse, parse, parse, ha, hab,
    parseAll_prepend hlawful rfl (hb.relabel _) fun l' hl' => ?_,
    parseAll_relabel _ (fun cs => List.isEmpty_map) hb]
  · rfl
  · rw [hlast] at hl'
    cases hl'
    exact hsemi

/-- Behind a complete statement, an incomplete one is parsed as on its own. -/
theorem parse_append_select :
    tokenize "SELECT x;" = [⟨.keyword .SELECT, "SELECT", ⟨0, 6⟩⟩, ⟨.whitespace, " ", ⟨6, 7⟩⟩,
        ⟨.identifier, "x", ⟨7, 8⟩⟩] ++ [⟨.semicolon, ";", ⟨8, 9⟩⟩, .eof 9]
      ∧ parse ("SELECT x;" ++ "SELECT")
        = parse "SELECT x;" ++ (parse "SELECT").map (Statement.shift 9) :=
  have h : tokenize "SELECT x;" = [⟨.keyword .SELECT, "SELECT", ⟨0, 6⟩⟩,
      ⟨.whitespace, " ", ⟨6, 7⟩⟩, ⟨.identifier, "x", ⟨7, 8⟩⟩]
        ++ [⟨.semicolon, ";", ⟨8, 9⟩⟩, .eof 9] := by decide +kernel
  ⟨h, parse_append h rfl⟩

end TolerantSql
