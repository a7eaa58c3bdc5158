import TolerantSql.Proofs.NodePlaces

/-!
# Lists separated by commas

A list takes what it finds: items, commas, and tokens that are neither. Whatever is
missing is reported, a comma between two items as well as an item between two commas,
so that what a list adds is in order once the reports are counted in.
`Forest.CommaList` says in which order trees are added, round by round and for either
phase. From it one reads off that commas and items balance
(`Forest.CommaList.tally`), and that two neighbouring items are kept apart by commas or
else by one report (`Forest.CommaList.spaced`).

The end of the input has a report of its own, which is made once for a statement. It
takes the place of a missing item, and is made there because a list looks for an item
only behind a token that was taken, where nothing has been said about the end. Behind
an item something may have been said, but there nothing is missing.
-/

namespace TolerantSql

/-! ## What a list adds -/

/-- Whether a tree is a comma. -/
def Tree.isComma : Tree → Bool
  | .token t => t.kind == .comma
  | _ => false

namespace Tree

@[simp] theorem isComma_token (t : Token) : (token t).isComma = (t.kind == .comma) := rfl

@[simp] theorem isComma_error (e : SyntaxError) : (error e).isComma = false := rfl

@[simp] theorem isComma_node (kind : NodeKind) (f : Forest) : (node kind f).isComma = false := rfl

@[simp] theorem kind_node (kind : NodeKind) (f : Forest) : (node kind f).kind = kind := rfl

@[simp] theorem kind_token (t : Token) : (token t).kind = .token := rfl

@[simp] theorem kind_missing (message : String) :
    (error (.missing message)).kind = .errorMissing := rfl

@[simp] theorem kind_expecting (message : String) :
    (error (.expecting message)).kind = .errorExpecting := rfl

@[simp] theorem kind_unexpectedEof : (error .unexpectedEof).kind = .errorUnexpectedEof := rfl

end Tree

namespace SyntaxError

@[simp] theorem missing_inj {a b : String} : missing a = missing b ↔ a = b := by simp [missing]

@[simp] theorem expecting_ne_missing (a b : String) : expecting a ≠ missing b := by
  simp [missing, expecting]

@[simp] theorem unexpectedEof_ne_missing (a : String) : unexpectedEof ≠ missing a := by
  simp [missing, unexpectedEof]

end SyntaxError

namespace Forest

/-- The report of a missing comma. -/
abbrev missingComma : Tree := .error (.missing "missing comma")

/-- **What a list of items adds from a phase on.** -/
inductive CommaList (item : NodeKind) (label : String) : State.ListPhase → Forest → Prop where
  /-- The list ends where an item should be. -/
  | absent {e : SyntaxError} (he : e = .missing ("missing " ++ label) ∨ e = .unexpectedEof) :
    CommaList item label .item [.error e]
  /-- A comma stands where an item should be. -/
  | stray {comma : Token} {f : Forest} (hcomma : comma.kind = .comma)
    (h : CommaList item label .item f) :
    CommaList item label .item (.error (.missing ("missing " ++ label)) :: .token comma :: f)
  | item {g f : Forest} (h : CommaList item label .separator f) :
    CommaList item label .item (.node item g :: f)
  /-- Tokens that fit nowhere, if there are any, are skipped. -/
  | noise {phase : State.ListPhase} {message : String} {skipped f : Forest}
    (hskipped : skipped = [] ∨ ∃ g, skipped = [.node .skipped g])
    (h : CommaList item label phase f) :
    CommaList item label phase (.error (.expecting message) :: (skipped ++ f))
  | last : CommaList item label .separator []
  | comma {comma : Token} {f : Forest} (hcomma : comma.kind = .comma)
    (h : CommaList item label .item f) : CommaList item label .separator (.token comma :: f)
  /-- An item stands where a comma should be. -/
  | adjacent {g f : Forest} (h : CommaList item label .separator f) :
    CommaList item label .separator (missingComma :: .node item g :: f)

/-- **Items that are kept apart**: between two neighbouring items there is one report of a
missing comma if there is no comma, and otherwise there is none. -/
def Spaced (item : NodeKind) (f : Forest) : Prop :=
  ∀ (before : Forest) (x : Tree) (between : Forest) (y : Tree) (after : Forest),
    f = before ++ x :: (between ++ y :: after) → x.kind = item → y.kind = item →
    (∀ t ∈ between, t.kind ≠ item) →
    (missingComma ∈ between ↔ ∀ t ∈ between, t.isComma = false)
      ∧ between.count missingComma ≤ 1

section Splitting

variable {item : NodeKind} {f front behind before after : Forest} {x : Tree}

/-- An item is not found among the trees before the items. -/
theorem exists_of_append_left (hfront : ∀ t ∈ front, t.kind ≠ item) (hx : x.kind = item)
    (hsplit : front ++ f = before ++ x :: after) : ∃ before', f = before' ++ x :: after := by
  obtain ⟨before', -, hf⟩ | ⟨rest, hrest, hf⟩ := List.append_eq_append_iff.1 hsplit
  · exact ⟨before', hf⟩
  · cases rest with
    | nil => exact ⟨[], hf.symm⟩
    | cons t rest =>
      obtain rfl := List.head_eq_of_cons_eq hf
      exact absurd hx (hfront x (hrest ▸ List.mem_append_right _ List.mem_cons_self))

/-- Neither is it found among those behind them. -/
theorem exists_of_append_right (hbehind : ∀ t ∈ behind, t.kind ≠ item) (hx : x.kind = item)
    (hsplit : f ++ behind = before ++ x :: after) : ∃ after', f = before ++ x :: after' := by
  obtain ⟨rest, -, hrest⟩ | ⟨rest, hf, hrest⟩ := List.append_eq_append_iff.1 hsplit
  · exact absurd hx (hbehind x (hrest ▸ List.mem_append_right _ List.mem_cons_self))
  · cases rest with
    | nil =>
      replace hrest : x :: after = behind := hrest
      exact absurd hx (hbehind x (hrest ▸ List.mem_cons_self))
    | cons t rest =>
      obtain rfl := List.head_eq_of_cons_eq hrest
      exact ⟨rest, hf⟩

theorem Spaced.append_left (h : f.Spaced item) (hfront : ∀ t ∈ front, t.kind ≠ item) :
    (front ++ f).Spaced item := by
  intro before x between y after hsplit hx hy hbetween
  obtain ⟨before', hf⟩ := exists_of_append_left hfront hx hsplit
  exact h before' x between y after hf hx hy hbetween

theorem Spaced.append_right (h : f.Spaced item) (hbehind : ∀ t ∈ behind, t.kind ≠ item) :
    (f ++ behind).Spaced item := by
  intro before x between y after hsplit hx hy hbetween
  rw [← List.cons_append, ← List.append_assoc] at hsplit
  obtain ⟨after', hf⟩ := exists_of_append_right hbehind hy hsplit
  rw [List.append_assoc, List.cons_append] at hf
  exact h before x between y after' hf hx hy hbetween

/-- Without an item there is nothing to keep apart. -/
theorem spaced_nil : Spaced item [] := by
  intro before x between y after hsplit
  cases before <;> cases hsplit

end Splitting

/-- **Items that cannot be taken for anything else in a list.** -/
structure IsItem (item : NodeKind) (label : String) : Prop where
  kind : ∀ other ∈ [.token, .errorMissing, .errorExpecting, .errorUnexpectedEof, .skipped],
    other ≠ item
  label : "missing " ++ label ≠ "missing comma"

/-- What stands in a list besides items. -/
theorem IsItem.kinds {item : NodeKind} {label : String} (h : IsItem item label) :
    .token ≠ item ∧ .errorMissing ≠ item ∧ .errorExpecting ≠ item ∧ .errorUnexpectedEof ≠ item
      ∧ .skipped ≠ item := by
  simpa using h.kind

namespace CommaList

variable {item : NodeKind} {label : String} {phase : State.ListPhase} {f : Forest}

/-- **Commas and items balance**, if what is missing is counted in: there is one item more
than there are commas. -/
theorem tally (h : CommaList item label phase f) (hitem : IsItem item label) :
    f.countP Tree.isComma + f.count missingComma + (if phase = .item then 1 else 0)
      = f.countP (·.kind == item) + f.count (.error (.missing ("missing " ++ label)))
        + f.countP (·.kind == .errorUnexpectedEof) := by
  obtain ⟨htoken, hmissing, hexpecting, hend, hskipped⟩ := hitem.kinds
  have hlabel := hitem.label
  have hlabel' := hlabel.symm
  have hend' := hend.symm
  induction h with
  | absent he =>
    obtain rfl | rfl := he
    · simp [hlabel, hmissing]
    · simp [hend]
  | stray hcomma _ ih =>
    simp [hcomma, hlabel, hmissing, htoken] at ih ⊢
    omega
  | item _ ih =>
    simp [hend'] at ih ⊢
    omega
  | noise hs _ ih =>
    obtain rfl | ⟨g, rfl⟩ := hs
    · simpa [hexpecting] using ih
    · simpa [hexpecting, hskipped] using ih
  | last => rfl
  | comma hcomma _ ih =>
    simp [hcomma, htoken] at ih ⊢
    omega
  | adjacent _ ih =>
    simp [hlabel', hend', hmissing] at ih ⊢
    omega

/-- Behind an item, a list goes on with a comma. -/
theorem separator (h : CommaList item label phase f) (hitem : IsItem item label)
    {before after : Forest} {x : Tree} (hx : x.kind = item) (hf : f = before ++ x :: after) :
    CommaList item label .separator after := by
  obtain ⟨htoken, hmissing, hexpecting, hend, hskipped⟩ := hitem.kinds
  -- the trees before an item that are none themselves can be left out
  have hleave (front rest : Forest) {before : Forest}
      (hsplit : front ++ rest = before ++ x :: after) (hfront : ∀ t ∈ front, t.kind ≠ item) :
      ∃ before', rest = before' ++ x :: after :=
    exists_of_append_left hfront hx hsplit
  have hfound {g rest before : Forest} (hsplit : .node item g :: rest = before ++ x :: after)
      (hrest : CommaList item label .separator rest)
      (ih : ∀ {before : Forest}, rest = before ++ x :: after →
        CommaList item label .separator after) :
      CommaList item label .separator after := by
    obtain ⟨-, hsplit⟩ | ⟨before', -, hsplit⟩ := List.cons_eq_append_iff.1 hsplit
    · cases hsplit
      exact hrest
    · exact ih hsplit
  induction h generalizing before with
  | absent he =>
    obtain ⟨before', hsplit⟩ := hleave [_] [] hf (by
      obtain rfl | rfl := he <;> simpa)
    simp at hsplit
  | stray _ _ ih =>
    obtain ⟨before', hsplit⟩ := hleave [_, _] _ hf (by simp [hmissing, htoken])
    exact ih hsplit
  | item h ih => exact hfound hf h ih
  | noise hs _ ih =>
    obtain ⟨before', hsplit⟩ := hleave (_ :: _) _ hf (by
      obtain rfl | ⟨g, rfl⟩ := hs <;> simp [hexpecting, hskipped])
    exact ih hsplit
  | last => simp at hf
  | comma _ _ ih =>
    obtain ⟨before', hsplit⟩ := hleave [_] _ hf (by simp [htoken])
    exact ih hsplit
  | adjacent h ih =>
    obtain ⟨before', hsplit⟩ := hleave [_] _ hf (by simp [hmissing])
    exact hfound hsplit h ih

/-- What keeps a list and its next item apart. -/
theorem count_takeWhile (h : CommaList item label phase f) (hitem : IsItem item label)
    (hmore : ∃ t ∈ f, t.kind = item) :
    (f.takeWhile fun t => t.kind != item).count missingComma
      = if phase = .item ∨ (f.takeWhile fun t => t.kind != item).any Tree.isComma = true
        then 0 else 1 := by
  obtain ⟨htoken, hmissing, hexpecting, hend, hskipped⟩ := hitem.kinds
  induction h with
  | absent he => obtain rfl | rfl := he <;> simp [hmissing, hend] at hmore
  | stray hcomma _ ih =>
    simpa [List.takeWhile_cons, hmissing, htoken, hitem.label] using
      ih (by simpa [hmissing, htoken] using hmore)
  | item => simp
  | noise hs _ ih =>
    obtain rfl | ⟨g, rfl⟩ := hs
    · simpa [List.takeWhile_cons, hexpecting] using ih (by simpa [hexpecting] using hmore)
    · simpa [List.takeWhile_cons, hexpecting, hskipped] using
        ih (by simpa [hexpecting, hskipped] using hmore)
  | last => simp at hmore
  | comma hcomma _ ih =>
    simpa [List.takeWhile_cons, htoken, hcomma] using ih (by simpa [htoken] using hmore)
  | adjacent => simp [List.takeWhile_cons, hmissing]

/-- **The items of a list are kept apart.** -/
theorem spaced (h : CommaList item label phase f) (hitem : IsItem item label) : f.Spaced item := by
  intro before x between y after hsplit hx hy hbetween
  have hseparator := h.separator hitem hx hsplit
  have hwhile : (between ++ y :: after).takeWhile (fun t => t.kind != item) = between := by
    rw [List.takeWhile_append_of_pos fun t ht => bne_iff_ne.2 (hbetween t ht),
      List.takeWhile_cons_of_neg (by simp [hy]), List.append_nil]
  have hcount := hseparator.count_takeWhile hitem
    ⟨y, List.mem_append_right _ List.mem_cons_self, hy⟩
  rw [hwhile] at hcount
  rw [← List.count_pos_iff, hcount]
  cases hcomma : between.any Tree.isComma <;> simp_all

end CommaList

end Forest

/-! ## The rounds of a list -/

namespace State

variable {s : State}

/-- **What a round of a list comes to where no item begins**, with the phase it leads to. -/
inductive Round (shape : ListShape) (s : State) :
    ListPhase → Outcome → Option ListPhase → Prop where
  | absent {out : Outcome} {e : SyntaxError}
    (he : e = .missing ("missing " ++ shape.label) ∨ e = .unexpectedEof)
    (hforest : out.forest = [.error e]) : Round shape s .item out none
  | stray {out : Outcome} {comma : Token} (hcomma : comma.kind = .comma)
    (hforest : out.forest = [.error (.missing ("missing " ++ shape.label)), .token comma])
    (hreported : out.state.endReported = s.endReported) : Round shape s .item out (some .item)
  | noise {phase : ListPhase} {out : Outcome} {message : String} {skipped : Forest}
    (hskipped : skipped = [] ∨ ∃ g, skipped = [.node .skipped g])
    (hforest : out.forest = .error (.expecting message) :: skipped)
    (hreported : out.state.endReported = s.endReported) : Round shape s phase out (some phase)
  | last {out : Outcome} (hforest : out.forest = []) : Round shape s .separator out none
  | comma {out : Outcome} {comma : Token} (hcomma : comma.kind = .comma)
    (hforest : out.forest = [.token comma]) (hreported : out.state.endReported = false) :
    Round shape s .separator out (some .item)
  | adjacent {out : Outcome} (hforest : out.forest = [Forest.missingComma]) (hstate : out.state = s)
    (hreported : s.endReported = false) (hbegins : s.beginsItem shape .item = true) :
    Round shape s .separator out (some .item)

/-- Before the end of the input, recovery reports nothing about it. -/
theorem endReported_recover (hend : s.atEof = false) (announced : Bool) (message : String)
    (sync : StopSet) : (s.recover announced message sync).state.endReported = s.endReported := by
  have hreport : (s.report announced message).state.endReported = s.endReported := by
    cases announced
    · rfl
    · rw [report, if_pos rfl, expecting, hend]
      rfl
  rw [recover, Outcome.andThen, ← hreport]
  dsimp only
  rw [skipUntil, Took.atEof_report, hend, if_neg Bool.false_ne_true]
  split
  · rfl
  · exact endReported_takeWhile _ _

/-- **Each round of a list is one of these.** -/
theorem round_of_listRound {shape : ListShape} {phase : ListPhase} {out : Outcome}
    {next : Option ListPhase} (hs : s.Sound) (hreported : phase = .item → s.endReported = false)
    (hbegins : s.beginsItem shape phase = false)
    (hround : listRound shape stay phase s = (out, next)) : Round shape s phase out next := by
  have hcommaEof (hcomma : s.current.kind = .comma) : s.atEof = false := by
    rw [atEof, Token.isEof, hcomma]
    rfl
  have hnoise (hends : ¬ (s.atEof || shape.follows s.current.kind) = true) (message : String) :
      Round shape s phase (s.recover false message shape.resumes) (some phase) := by
    rw [Bool.or_eq_true, not_or, Bool.not_eq_true] at hends
    obtain ⟨skipped, hforest, hskipped⟩ := forest_recover hs.lawful hends.1 false message
      shape.resumes
    exact .noise (hskipped.imp_right fun h => h.imp fun _ => And.left) hforest
      (endReported_recover hends.1 _ _ _)
  cases phase with
  | item =>
    unfold listRound at hround
    dsimp only at hround
    rw [listSkip_eq hs.lawful] at hround
    split_ifs at hround with hcomma hstarts hends <;> cases hround
    · have hkind := beq_iff_eq.1 hcomma
      have hmissing : s.missing true shape.label
          = ⟨[.error (.missing ("missing " ++ shape.label))],
            s.logging (.missing s.offset shape.label)⟩ := by
        rw [missing, hcommaEof hkind]
        rfl
      rw [hmissing, Outcome.andThen]
      exact .stray hkind rfl rfl
    · simp_all [beginsItem]
    · rw [missing]
      split
      · rw [reportEnd, hreported rfl, if_neg Bool.false_ne_true]
        exact .absent (.inr rfl) rfl
      · exact .absent (.inl rfl) rfl
    · exact hnoise hends _
  | separator =>
    unfold listRound at hround
    dsimp only at hround
    rw [listSkip_eq hs.lawful] at hround
    split_ifs at hround with hcomma hends hstarts <;> cases hround
    · have hkind := beq_iff_eq.1 hcomma
      exact .comma hkind rfl (hs.endReported (hcommaEof hkind))
    · exact .last rfl
    · rw [Bool.or_eq_true, not_or, Bool.not_eq_true] at hends
      have hbegins' : s.beginsItem shape .item = true := by simp_all [beginsItem]
      exact .adjacent rfl rfl (hs.endReported hends.1) hbegins'
    · exact hnoise hends _

end State

section Rounds

variable {shape : State.ListShape} {item : Rule} {kind : NodeKind} {depth : Nat}
  {phase : State.ListPhase} {s : State} {out : Outcome}

/-- **What the rounds of a list add**, if each item is a node. Where an item begins, it comes
first. -/
theorem Unfolds.commaList
    (hitem : ∀ {s out}, shape.startsItem s.current.kind = true → Unfolds depth (.rule item) s out →
      ∃ g, out.forest = [.node kind g])
    (h : Unfolds depth (.rounds shape item phase) s out) (hs : s.Sound)
    (hreported : phase = .item → s.endReported = false) :
    Forest.CommaList kind shape.label phase out.forest
      ∧ (s.beginsItem shape phase = true → ∃ g f, out.forest = .node kind g :: f
        ∧ Forest.CommaList kind shape.label .separator f) := by
  generalize htask : Task.rounds shape item phase = task at h
  induction h generalizing phase with
  | item hbegins h _ _ ih =>
    cases htask
    have hbegins' := hbegins
    rw [State.beginsItem, Bool.and_eq_true, Bool.and_eq_true, beq_iff_eq] at hbegins'
    obtain ⟨⟨rfl, -⟩, hstarts⟩ := hbegins'
    obtain ⟨g, hforest⟩ := hitem hstarts h
    have hrest := (@ih .separator hitem (h.sound hs) (by rintro ⟨⟩) rfl).1
    rw [hforest]
    exact ⟨.item hrest, fun _ => ⟨g, _, rfl, hrest⟩⟩
  | round hbegins hround _ ih =>
    cases htask
    refine ⟨?_, fun h => absurd h (Bool.eq_false_iff.1 hbegins)⟩
    have hs' := hs.listRound hround
    cases State.round_of_listRound hs hreported hbegins hround with
    | stray hcomma hforest hreported' =>
      rw [hforest]
      exact .stray hcomma (ih hitem hs' (fun h => hreported'.trans (hreported h)) rfl).1
    | noise hskipped hforest hreported' =>
      rw [hforest]
      exact .noise hskipped (ih hitem hs' (fun h => hreported'.trans (hreported h)) rfl).1
    | comma hcomma hforest hreported' =>
      rw [hforest]
      exact .comma hcomma (ih hitem hs' (fun _ => hreported') rfl).1
    | adjacent hforest hstate hreported' hbegins' =>
      obtain ⟨g, f, hnode, hrest⟩ :=
        (ih hitem hs' (fun _ => hstate ▸ hreported') rfl).2 (hstate ▸ hbegins')
      rw [hforest, hnode]
      exact .adjacent hrest
  | last hbegins hround =>
    cases htask
    refine ⟨?_, fun h => absurd h (Bool.eq_false_iff.1 hbegins)⟩
    cases State.round_of_listRound hs hreported hbegins hround with
    | absent he hforest => rw [hforest]; exact .absent he
    | last hforest => rw [hforest]; exact .last
  | _ => cases htask

end Rounds

end TolerantSql
