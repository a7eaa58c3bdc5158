import TolerantSql.Command.Run
import TolerantSql.Proofs.TokenCharacters
import TolerantSql.Proofs.TokenConservation
import TolerantSql.Proofs.TokenGrammar

/-!
# How many lines a tree takes

The compact notation is meant for one line. Names of nodes and quoted messages keep to
it, whatever the message is (`Quoted.lineBreaks_string`), but tokens are shown as they
are written, so a tree has the line breaks of its tokens (`Tree.lineBreaks_render`).
A source is shown on one line a statement exactly if none of its tokens that are shown
has a line break in it. Few can have one: names and strings, for their quotes, `$`
parameters, for their suffix, and malformed text.
-/

namespace TolerantSql

/-- The number of line breaks in a text. -/
def lineBreaks (s : String) : Nat := s.toList.count '\n'

theorem lineBreaks_append (s t : String) :
    lineBreaks (s ++ t) = lineBreaks s + lineBreaks t := by
  rw [lineBreaks, String.toList_append, List.count_append]
  rfl

/-- What stands around a text adds no line breaks if it has none. -/
theorem lineBreaks_between {opening closing : String} (hopening : lineBreaks opening = 0)
    (hclosing : lineBreaks closing = 0) (s : String) :
    lineBreaks (opening ++ s ++ closing) = lineBreaks s := by
  rw [lineBreaks_append, lineBreaks_append, hopening, hclosing, Nat.zero_add, Nat.add_zero]

theorem lineBreaks_join_append (l l' : List String) :
    lineBreaks (String.join (l ++ l'))
      = lineBreaks (String.join l) + lineBreaks (String.join l') := by
  simp only [lineBreaks, String.toList_join, List.flatMap_append, List.count_append]

theorem lineBreaks_join_cons (s : String) (l : List String) :
    lineBreaks (String.join (s :: l)) = lineBreaks s + lineBreaks (String.join l) := by
  simp only [lineBreaks, String.toList_join, List.flatMap_cons, List.count_append]

/-- Texts with as many line breaks as others have as many in all. -/
theorem lineBreaks_join_congr {α : Type} {f g : α → String} {l : List α}
    (h : ∀ a ∈ l, lineBreaks (f a) = lineBreaks (g a)) :
    lineBreaks (String.join (l.map f)) = lineBreaks (String.join (l.map g)) := by
  induction l with
  | nil => rfl
  | cons a l ih =>
    obtain ⟨ha, hl⟩ := List.forall_mem_cons.1 h
    rw [List.map_cons, List.map_cons, lineBreaks_join_cons, lineBreaks_join_cons, ha, ih hl]

theorem lineBreaks_eq_zero {s : String} : lineBreaks s = 0 ↔ '\n' ∉ s.toList :=
  List.count_eq_zero

/-! ## Quoted text -/

/-- What a number is written with. -/
theorem exists_digitChar_of_mem_toDigits {base n : Nat} (hbase : 1 < base) {ch : Char}
    (h : ch ∈ Nat.toDigits base n) : ∃ d < base, Nat.digitChar d = ch := by
  induction n using Nat.strongRecOn with
  | _ n ih =>
    by_cases hn : n < base
    · rw [Nat.toDigits_of_lt_base hn, List.mem_singleton] at h
      exact ⟨n, hn, h.symm⟩
    · have hpos : 0 < n / base := Nat.div_pos (Nat.le_of_not_lt hn) (Nat.lt_of_succ_lt hbase)
      have hmod : n % base < base := Nat.mod_lt n (Nat.lt_of_succ_lt hbase)
      rw [← Nat.div_add_mod n base, ← Nat.toDigits_append_toDigits hbase hpos hmod,
        Nat.toDigits_of_lt_base hmod, List.mem_append, List.mem_singleton] at h
      rcases h with h | h
      · exact ih _ (Nat.div_lt_self (by omega) hbase) h
      · exact ⟨n % base, hmod, h.symm⟩

namespace Quoted

theorem lineBreak_not_mem_codePoint (c : Char) : '\n' ∉ codePoint c := by
  have hdigit : ∀ d < 16, Nat.digitChar d ≠ '\n' := by decide
  intro hmem
  rw [codePoint, List.mem_append, List.mem_append] at hmem
  rcases hmem with (hmem | hmem) | hmem
  · exact absurd hmem (by decide)
  · obtain ⟨d, hd, hch⟩ := exists_digitChar_of_mem_toDigits (by decide) hmem
    exact hdigit d hd hch
  · exact absurd hmem (by decide)

theorem lineBreak_not_mem_escapeChar (quote c : Char) : '\n' ∉ escapeChar quote c := by
  unfold escapeChar
  split_ifs with _ _ _ hbreak
  any_goals decide
  · simpa using Ne.symm hbreak
  · exact lineBreak_not_mem_codePoint c
  · simpa using Ne.symm hbreak

/-- **Quoted text has no line break**, whatever is quoted. -/
theorem lineBreaks_string (s : String) : lineBreaks (string s) = 0 := by
  rw [lineBreaks_eq_zero, string, String.toList_ofList, List.mem_append, List.mem_cons]
  rintro ((hquote | hmem) | hquote)
  · exact absurd hquote (by decide)
  · obtain ⟨c, -, hmem⟩ := List.mem_flatMap.1 hmem
    exact lineBreak_not_mem_escapeChar _ c hmem
  · exact absurd hquote (by decide)

end Quoted

/-! ## Trees -/

theorem NodeKind.lineBreaks_name (kind : NodeKind) : lineBreaks kind.name = 0 := by
  cases kind <;> decide

theorem NodeKind.lineBreaks_name_append (kind : NodeKind) {s : String} (h : lineBreaks s = 0) :
    lineBreaks (kind.name ++ s) = 0 := by
  rw [lineBreaks_append, kind.lineBreaks_name, h]

/-- Errors are shown without line breaks. -/
theorem SyntaxError.lineBreaks_render (e : SyntaxError) : lineBreaks e.render = 0 := by
  unfold render
  split
  · exact e.kind.lineBreaks_name
  · rw [lineBreaks_between (e.kind.lineBreaks_name_append rfl) rfl]
    exact Quoted.lineBreaks_string e.message

/-- The line breaks of tokens as they are shown. -/
def Token.shownBreaks (ts : List Token) : Nat := lineBreaks (String.join (ts.map Token.render))

theorem Token.shownBreaks_append (ts ts' : List Token) :
    shownBreaks (ts ++ ts') = shownBreaks ts + shownBreaks ts' := by
  rw [shownBreaks, List.map_append, lineBreaks_join_append]
  rfl

namespace Leaf

theorem lineBreaks_render (l : Leaf) :
    lineBreaks l.render = Token.shownBreaks (Tree.leaf l).terminals := by
  cases l with
  | token t =>
    rw [render, lineBreaks_between rfl rfl]
    exact (lineBreaks_join_cons t.render []).symm
  | placeholder => decide
  | error e => exact e.lineBreaks_render

theorem lineBreaks_label {l : Leaf} {name : String} (h : l.label? = some name) :
    lineBreaks name = Token.shownBreaks (Tree.leaf l).terminals := by
  cases l with
  | token t =>
    cases h
    exact (lineBreaks_join_cons t.render []).symm
  | placeholder =>
    cases h
    decide
  | error e => cases h

end Leaf

/-- A node that is shown in short holds one leaf. -/
theorem NodeKind.eq_of_shortName? {kind : NodeKind} {f : Forest} {name : String}
    (h : kind.shortName? f = some name) : ∃ l, f = [.leaf l] ∧ l.label? = some name := by
  unfold shortName? at h
  split at h
  · next l =>
    split at h
    · exact ⟨l, rfl, h⟩
    · cases h
  · cases h

theorem Forest.lineBreaks_render {f : Forest}
    (h : ∀ t ∈ f, lineBreaks t.render = Token.shownBreaks t.terminals) :
    lineBreaks (Forest.render f) = Token.shownBreaks (Forest.terminals f) := by
  induction f with
  | nil => rfl
  | cons t f ih =>
    obtain ⟨ht, hf⟩ := List.forall_mem_cons.1 h
    have hterminals : terminals (t :: f) = t.terminals ++ terminals f := List.filterMap_append
    have hspace : lineBreaks " " = 0 := rfl
    rw [hterminals, Token.shownBreaks_append, Forest.render, lineBreaks_append,
      lineBreaks_append, hspace, Nat.zero_add, ht, ih hf]

/-- **A tree is shown with the line breaks of its tokens** and no others. -/
theorem Tree.lineBreaks_render (t : Tree) :
    lineBreaks t.render = Token.shownBreaks t.terminals := by
  induction t using Tree.induct with
  | leaf l => exact l.lineBreaks_render
  | node kind children ih =>
    rw [Tree.render]
    split
    · next name hname =>
      obtain ⟨l, rfl, hlabel⟩ := NodeKind.eq_of_shortName? hname
      rw [lineBreaks_between (kind.lineBreaks_name_append rfl) rfl]
      exact Leaf.lineBreaks_label hlabel
    · rw [lineBreaks_between (kind.lineBreaks_name_append rfl) rfl]
      exact Forest.lineBreaks_render ih

/-! ## Statements -/

/-- Statements, one behind the other, take a line each and the line breaks of their
tokens. -/
theorem lineBreaks_statements (statements : List Statement) :
    lineBreaks (String.join (statements.map fun s => s.tree.render ++ "\n"))
      = statements.length + Token.shownBreaks (statements.flatMap (·.tree.terminals)) := by
  induction statements with
  | nil => rfl
  | cons s statements ih =>
    have hline : lineBreaks "\n" = 1 := rfl
    rw [List.map_cons, lineBreaks_join_cons, ih, lineBreaks_append, hline,
      s.tree.lineBreaks_render, List.flatMap_cons, List.length_cons, Token.shownBreaks_append]
    omega

/-- A token of the source is shown with the line breaks of its text; the end of the input,
which has another name for its text, has none either way. -/
theorem lineBreaks_render_of_mem_parse {source : String} {s : Statement} (hs : s ∈ parse source)
    {t : Token} (ht : t ∈ s.tree.terminals) : lineBreaks t.render = lineBreaks t.text := by
  obtain ⟨tail, htail, hterminals⟩ := terminals_parse source
  have hmem : t ∈ (parse source).flatMap (·.tree.terminals) := List.mem_flatMap.2 ⟨s, hs, ht⟩
  rw [hterminals, List.mem_append, List.mem_filter] at hmem
  rcases hmem with ⟨-, hsignificant⟩ | hmem
  · rw [Token.isSignificant, Bool.and_eq_true, Bool.not_eq_true', Bool.not_eq_true'] at hsignificant
    rw [Token.render, Token.lexeme?, hsignificant.2]
    rfl
  · rcases htail with rfl | ⟨offset, rfl⟩
    · cases hmem
    · rw [List.mem_singleton.1 hmem]
      show lineBreaks "EOF" = lineBreaks ""
      decide

/-- The line breaks in the trees of a source are those of its significant tokens. -/
theorem shownBreaks_parse (source : String) :
    Token.shownBreaks ((parse source).flatMap (·.tree.terminals))
      = lineBreaks
        (String.join (((tokenize source).filter Token.isSignificant).map Token.text)) := by
  have htext : ∀ t ∈ (parse source).flatMap (·.tree.terminals),
      lineBreaks t.render = lineBreaks t.text := by
    intro t ht
    obtain ⟨s, hs, ht⟩ := List.mem_flatMap.1 ht
    exact lineBreaks_render_of_mem_parse hs ht
  obtain ⟨tail, htail, hterminals⟩ := terminals_parse source
  rw [Token.shownBreaks, lineBreaks_join_congr htext, hterminals, List.map_append,
    lineBreaks_join_append]
  rcases htail with rfl | ⟨offset, rfl⟩ <;> rfl

/-- A statement is shown on more than one line if and only if a token of it has a line break
in it. -/
theorem lineBreak_mem_render_iff {source : String} {s : Statement} (hs : s ∈ parse source) :
    '\n' ∈ s.tree.render.toList ↔ ∃ t ∈ s.tree.terminals, '\n' ∈ t.text.toList := by
  have htext := lineBreaks_join_congr fun t ht => lineBreaks_render_of_mem_parse hs (t := t) ht
  rw [← not_iff_not, ← lineBreaks_eq_zero, s.tree.lineBreaks_render, Token.shownBreaks, htext,
    lineBreaks_eq_zero, String.toList_join, List.flatMap_map]
  exact not_congr List.mem_flatMap

/-- **Significant tokens with a line break** are names, strings, `$` parameters and
malformed text. -/
theorem kind_of_lineBreak_mem {source : String} {t : Token} (ht : t ∈ tokenize source)
    (hsignificant : t.isSignificant = true) (hbreak : '\n' ∈ t.text.toList) :
    t.kind.isError = true ∨ t.kind ∈ [TokenKind.identifier, .string, .dollarVariable] := by
  rw [Token.isSignificant, Bool.and_eq_true, Bool.not_eq_true', Bool.not_eq_true'] at hsignificant
  obtain ⟨htrivia, heof⟩ := hsignificant
  cases herror : t.kind.isError with
  | true => exact .inl rfl
  | false =>
    have hmem := Lexer.mem_lexicon_of_mem_tokenize ht rfl herror heof
    have hspans : t.kind.spansLines = true := by
      by_contra hnot
      exact TokenKind.lacks_lineBreak (Bool.eq_false_of_not_eq_true hnot) _ hmem hbreak
    refine .inr ?_
    generalize t.kind = kind at htrivia herror hspans
    cases kind <;> first
      | (cases hspans; done)
      | (cases htrivia; done)
      | (cases herror; done)
      | decide

namespace Command

/-- The trees of a source, a line break behind each. -/
theorem run_tree {options : Options} (hformat : options.format = .tree) (source : String)
    (color : Bool) :
    ∃ report, run options source color = .ok report
      ∧ report.output = String.join ((parse source).map fun s => s.tree.render ++ "\n")
      ∧ report.statements = (parse source).length := by
  unfold run render
  rw [hformat]
  exact ⟨_, rfl, rfl, rfl⟩

/-- **How many lines the trees of a source take.** The command shows each statement with a
line break behind it, and there are no other line breaks but those in the texts of
tokens. So a statement is on one line if and only if no token of it has a line break in
it, and only names, strings, `$` parameters and malformed text can have one. -/
theorem run_tree_lines (options : Options) (source : String) (color : Bool)
    (hformat : options.format = .tree) :
    ∃ report, run options source color = .ok report
      ∧ report.output = String.join ((parse source).map fun s => s.tree.render ++ "\n")
      ∧ report.statements = (parse source).length
      ∧ lineBreaks report.output = report.statements
        + lineBreaks (String.join (((tokenize source).filter Token.isSignificant).map Token.text))
      ∧ (∀ s ∈ parse source, '\n' ∈ s.tree.render.toList ↔
        ∃ t ∈ s.tree.terminals, '\n' ∈ t.text.toList)
      ∧ ∀ t ∈ tokenize source, t.isSignificant = true → '\n' ∈ t.text.toList →
        t.kind.isError = true ∨ t.kind ∈ [TokenKind.identifier, .string, .dollarVariable] := by
  obtain ⟨report, hrun, houtput, hstatements⟩ := run_tree hformat source color
  refine ⟨report, hrun, houtput, hstatements, ?_, fun s => lineBreak_mem_render_iff,
    fun t => kind_of_lineBreak_mem⟩
  rw [houtput, hstatements, lineBreaks_statements, shownBreaks_parse]

/-- Statements that are written over several lines are shown on one line each. -/
theorem run_tree_lines_begin :
    ∃ report, run ⟨none, .tree, "default", .auto, false, false⟩ "BEGIN\n;\nBEGIN" false = .ok report
      ∧ report.statements = 2 ∧ lineBreaks report.output = 2 := by
  obtain ⟨report, hrun, -, hstatements, hlines, -⟩ :=
    run_tree_lines ⟨none, .tree, "default", .auto, false, false⟩ "BEGIN\n;\nBEGIN" false rfl
  have htwo : (parse "BEGIN\n;\nBEGIN").length = 2 := by decide +kernel
  have hnone : lineBreaks (String.join
      (((tokenize "BEGIN\n;\nBEGIN").filter Token.isSignificant).map Token.text)) = 0 := by
    decide +kernel
  rw [hstatements, htwo, hnone] at hlines
  exact ⟨report, hrun, hstatements.trans htwo, hlines⟩

/-- A statement with a line break in a string is shown on two lines. -/
theorem run_tree_string_on_two_lines :
    (run ⟨none, .tree, "default", .auto, false, false⟩ "SELECT 'a\nb'" false).toOption.map
        (fun report => (report.statements, report.output))
      = some (1, "SQLStatement\x7b Select\x7b Token(SELECT) ResultColumn\x7b Token('a\nb')"
        ++ " \x7d \x7d Token(EOF) \x7d\n")
    ∧ ∃ s ∈ parse "SELECT 'a\nb'", '\n' ∈ s.tree.render.toList := by
  constructor <;> decide +kernel

end Command

end TolerantSql
