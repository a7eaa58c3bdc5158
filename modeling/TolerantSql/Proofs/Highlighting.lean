import Mathlib.Combinatorics.Enumerative.DyckWord
import TolerantSql.Highlight.Transform
import TolerantSql.Proofs.LosslessLexing

/-!
# Highlighting adds balanced markers

A transform that is made of colorings adds markers and does nothing else: without the
markers the tokens are those of the source again, and the markers match like brackets.

The second part is not a property of a transform on the tokens of a source alone. In a
chain the later members see the markers of the earlier ones, and may be chosen for these
too, so a coloring can put a marker between markers: the two that come out around an
opening one are an opening bracket, that marker, and a closing bracket. What is kept in
every case is said by `Adds`, of the tokens before and after: the brackets come to the
same depth, and no place is at a lesser depth than every place was before. As this is a
relation between lists of tokens, it passes through chains by transitivity, and at the
tokens of a source, which have no brackets, it says that the brackets match.
-/

namespace TolerantSql

/-- **The bracket that a marker is**: a style begins and is reset. -/
def Token.bracket? (t : Token) : Option DyckStep :=
  if t.kind = styleMarker then some .U
  else if t.kind = resetMarker then some .D
  else none

/-- The tokens that are no markers. -/
def unmarked (tokens : List Token) : List Token := tokens.filter fun t => !t.kind.isMarker

theorem unmarked_append (l l' : List Token) : unmarked (l ++ l') = unmarked l ++ unmarked l' :=
  List.filter_append l l'

/-- How many brackets are open behind some tokens. -/
def markerDepth (tokens : List Token) : Int :=
  (tokens.filterMap Token.bracket?).count .U - (tokens.filterMap Token.bracket?).count .D

@[simp] theorem markerDepth_nil : markerDepth [] = 0 := rfl

@[simp] theorem markerDepth_append (l l' : List Token) :
    markerDepth (l ++ l') = markerDepth l + markerDepth l' := by
  unfold markerDepth
  rw [List.filterMap_append, List.count_append, List.count_append]
  omega

theorem markerDepth_cons (t : Token) (l : List Token) :
    markerDepth (t :: l) = markerDepth [t] + markerDepth l := markerDepth_append [t] l

/-- **Tokens with markers added**: what is no marker stays, the brackets come to the same
depth, and no place is at a lesser depth than every place was before. -/
structure Adds (before after : List Token) : Prop where
  unmarked : unmarked after = unmarked before
  depth : markerDepth after = markerDepth before
  deep : ∀ p, p <+: after → ∃ q, q <+: before ∧ markerDepth q ≤ markerDepth p

namespace Adds

variable {l l' m m' : List Token}

theorem refl (l : List Token) : Adds l l := ⟨rfl, rfl, fun p hp => ⟨p, hp, le_refl _⟩⟩

/-- Markers are added to what markers were added to. -/
theorem trans (h : Adds l l') (h' : Adds l' m) : Adds l m where
  unmarked := h'.unmarked.trans h.unmarked
  depth := h'.depth.trans h.depth
  deep p hp := by
    obtain ⟨q, hq, hqp⟩ := h'.deep p hp
    obtain ⟨r, hr, hrq⟩ := h.deep q hq
    exact ⟨r, hr, hrq.trans hqp⟩

/-- Markers are added on both sides of a place. -/
theorem append (h : Adds l l') (h' : Adds m m') : Adds (l ++ m) (l' ++ m') where
  unmarked := by rw [unmarked_append, unmarked_append, h.unmarked, h'.unmarked]
  depth := by rw [markerDepth_append, markerDepth_append, h.depth, h'.depth]
  deep p hp := by
    rcases List.prefix_or_prefix_of_prefix hp (List.prefix_append l' m') with hleft | ⟨t, rfl⟩
    · obtain ⟨q, hq, hqp⟩ := h.deep p hleft
      exact ⟨q, hq.trans (List.prefix_append l m), hqp⟩
    · obtain ⟨q, hq, hqt⟩ := h'.deep t ((List.prefix_append_right_inj l').1 hp)
      refine ⟨l ++ q, (List.prefix_append_right_inj l).2 hq, ?_⟩
      rw [markerDepth_append, markerDepth_append, h.depth]
      omega

/-- **What markers are added to without any becomes a balanced word of brackets.** -/
theorem exists_dyckWord (h : Adds l l') (hl : ∀ t ∈ l, t.bracket? = none) :
    ∃ w : DyckWord, w.toList = l'.filterMap Token.bracket? := by
  have hflat : ∀ q, q <+: l → markerDepth q = 0 := by
    intro q hq
    have hnone : q.filterMap Token.bracket? = [] :=
      List.filterMap_eq_nil_iff.2 fun t ht => hl t (hq.subset ht)
    unfold markerDepth
    rw [hnone]
    rfl
  refine ⟨⟨l'.filterMap Token.bracket?, ?_, fun i => ?_⟩, rfl⟩
  · have hdepth := h.depth.trans (hflat l (List.prefix_refl l))
    unfold markerDepth at hdepth
    omega
  · -- a front of the word is the word of a front of the tokens
    obtain ⟨p, hp, htake⟩ := List.prefix_filterMap_iff.1 (List.take_prefix i (l'.filterMap _))
    obtain ⟨q, hq, hqp⟩ := h.deep p hp
    rw [hflat q hq] at hqp
    unfold markerDepth at hqp
    rw [htake]
    omega

end Adds

namespace Transform

/-- **Transforms made of colorings**, nested in any way. -/
inductive Coloring : Transform → Prop where
  | chain {members : List Transform} (h : ∀ t ∈ members, Coloring t) : Coloring (chain members)
  | firstMatch {members : List Transform} (h : ∀ t ∈ members, Coloring t) :
    Coloring (firstMatch members)
  | colorize (chosen : TokenKind → Bool) (style : Style) : Coloring (colorize chosen style)

/-- A transform that adds markers to each token adds markers to tokens. -/
theorem adds_applyAll {t : Transform} (h : ∀ token, Adds [token] (t.apply token))
    (tokens : List Token) : Adds tokens (t.applyAll tokens) := by
  induction tokens with
  | nil => exact .refl []
  | cons token tokens ih => exact (h token).append ih

/-- **A coloring puts a token between brackets**, a bracket too. -/
theorem adds_colorize (chosen : TokenKind → Bool) (style : Style) (token : Token) :
    Adds [token] ((colorize chosen style).apply token) := by
  show Adds [token] (if _ then _ else _)
  split
  · have hstyle : ∀ text span, markerDepth [⟨styleMarker, text, span⟩] = 1 := fun _ _ => rfl
    have hreset : ∀ text span, markerDepth [⟨resetMarker, text, span⟩] = -1 := fun _ _ => rfl
    refine ⟨?_, ?_, fun p hp => ?_⟩
    · show unmarked ([⟨styleMarker, _, _⟩] ++ ([token] ++ [⟨resetMarker, _, _⟩])) = _
      rw [unmarked_append, unmarked_append]
      exact List.append_nil (unmarked [token])
    · rw [markerDepth_cons, markerDepth_cons token, hstyle, hreset]
      omega
    · -- within the brackets it is deeper, and behind them as deep as behind the token
      rcases List.prefix_cons_iff.1 hp with rfl | ⟨p₁, rfl, hp₁⟩
      · exact ⟨[], List.nil_prefix, le_refl _⟩
      rcases List.prefix_cons_iff.1 hp₁ with rfl | ⟨p₂, rfl, hp₂⟩
      · exact ⟨[], List.nil_prefix, by rw [hstyle]; exact zero_le_one⟩
      refine ⟨[token], List.prefix_refl _, ?_⟩
      rw [markerDepth_cons _ (token :: p₂), markerDepth_cons token p₂, hstyle]
      rcases List.prefix_cons_iff.1 hp₂ with rfl | ⟨p₃, rfl, hp₃⟩
      · rw [markerDepth_nil]
        omega
      · rw [List.prefix_nil.1 hp₃, hreset]
        omega
  · exact .refl [token]

theorem apply_firstMatch (members : List Transform) (token : Token) :
    (firstMatch members).apply token
      = ((members.find? (·.accepts token.kind)).map (·.apply token)).getD [token] := by
  rw [firstMatch]
  dsimp only
  cases members.find? (·.accepts token.kind) <;> rfl

/-- **Transforms made of colorings add markers.** -/
theorem Coloring.adds {t : Transform} (h : t.Coloring) (token : Token) :
    Adds [token] (t.apply token) := by
  induction h generalizing token with
  | @chain members _ ih =>
    -- each member adds markers to all that the ones before it made
    have hmembers : ∀ (ts : List Transform) (tokens : List Token), (∀ t ∈ ts, t ∈ members) →
        Adds tokens (ts.foldl (fun tokens t => t.applyAll tokens) tokens) := by
      intro ts
      induction ts with
      | nil => exact fun tokens _ => .refl tokens
      | cons t ts ihts =>
        intro tokens hts
        obtain ⟨ht, hts⟩ := List.forall_mem_cons.1 hts
        exact (adds_applyAll (ih t ht) tokens).trans (ihts _ hts)
    exact hmembers members [token] fun _ => id
  | @firstMatch members _ ih =>
    rw [apply_firstMatch]
    cases hfind : members.find? (·.accepts token.kind) with
    | some t => exact ih t (List.mem_of_find?_eq_some hfind) token
    | none => exact .refl [token]
  | colorize chosen style => exact adds_colorize chosen style token

/-- **A transform made of colorings leaves alone what it does not accept.** -/
theorem Coloring.apply_of_not_accepts {t : Transform} (h : t.Coloring) (token : Token)
    (hnot : t.accepts token.kind = false) : t.apply token = [token] := by
  induction h with
  | @chain members _ ih =>
    have hnone : ∀ t ∈ members, t.accepts token.kind = false := by
      simpa [Transform.chain] using hnot
    have hmembers : ∀ ts : List Transform, (∀ t ∈ ts, t ∈ members) →
        ts.foldl (fun tokens t => t.applyAll tokens) [token] = [token] := by
      intro ts
      induction ts with
      | nil => exact fun _ => rfl
      | cons t ts ihts =>
        intro hts
        obtain ⟨ht, hts⟩ := List.forall_mem_cons.1 hts
        have happly : t.applyAll [token] = [token] := by
          rw [applyAll, List.flatMap_singleton]
          exact ih t ht (hnone t ht)
        rw [List.foldl_cons, happly]
        exact ihts hts
    exact hmembers members fun _ => id
  | @firstMatch members _ ih =>
    have hfind : members.find? (·.accepts token.kind) = none := by
      simpa [Transform.firstMatch, List.find?_eq_none] using hnot
    rw [apply_firstMatch, hfind]
    rfl
  | colorize chosen style =>
    have hchosen : chosen token.kind = false := hnot
    show (if _ then _ else _) = _
    rw [hchosen]
    rfl

end Transform

/-- The tokens of a source are no markers. -/
theorem isMarker_of_mem_tokenize {source : String} {t : Token} (ht : t ∈ tokenize source) :
    t.kind.isMarker = false := by
  cases heof : t.isEof with
  | true =>
    have hkind : t.kind.isEof = true := heof
    cases h : t.kind <;> rw [h] at hkind <;> first | rfl | cases hkind
  | false =>
    have htext := ((lexes_tokenize source).isToken_of_mem ht heof).hasText
    cases h : t.kind <;> rw [h] at htext <;> first | rfl | cases htext

/-- **Highlighting only adds balanced markers.** Let a transform be made of colorings, by
any predicates and in any styles, that are chained and offered as alternatives in any
way. Of a source it makes tokens that are those of the source once the markers are taken
out, so that their texts joined are the source; with a style that begins read as an
opening bracket and its reset as a closing one, they are a balanced word; and a token of a
kind that the transform does not accept is left as it is. -/
theorem onSource_adds_balanced_markers (t : Transform) (ht : t.Coloring) (source : String) :
    (t.onSource source).filter (fun token => !token.kind.isMarker) = tokenize source
      ∧ joinTexts ((t.onSource source).filter fun token => !token.kind.isMarker) = source
      ∧ (∃ w : DyckWord, w.toList = (t.onSource source).filterMap Token.bracket?)
      ∧ ∀ token, t.accepts token.kind = false → t.apply token = [token] := by
  have hmarker : ∀ u ∈ tokenize source, u.kind.isMarker = false :=
    fun u hu => isMarker_of_mem_tokenize hu
  have hadds : Adds (tokenize source) (t.onSource source) :=
    Transform.adds_applyAll ht.adds (tokenize source)
  have htokens : unmarked (t.onSource source) = tokenize source := by
    rw [hadds.unmarked]
    exact List.filter_eq_self.2 fun u hu => by rw [hmarker u hu]; rfl
  have hbracket : ∀ u ∈ tokenize source, u.bracket? = none := by
    intro u hu
    have hne : ∀ kind : TokenKind, kind.isMarker = true → u.kind ≠ kind := by
      rintro kind hkind rfl
      rw [hmarker u hu] at hkind
      cases hkind
    unfold Token.bracket?
    rw [if_neg (hne styleMarker (by decide)), if_neg (hne resetMarker (by decide))]
  refine ⟨htokens, ?_, hadds.exists_dyckWord hbracket, ht.apply_of_not_accepts⟩
  show joinTexts (unmarked _) = source
  rw [htokens, joinTexts, (lexes_tokenize source).join_texts, String.ofList_toList]

/-- Markers put between markers: in a chain the second coloring is for the markers of the
first. -/
theorem onSource_adds_balanced_markers_nested :
    let t := Transform.chain [.colorize TokenKind.isKeyword ⟨.red, false⟩,
      .firstMatch [.colorize TokenKind.isMarker ⟨.blue, true⟩]]
    t.Coloring ∧ (t.onSource "BEGIN x").filter (fun u => !u.kind.isMarker) = tokenize "BEGIN x"
      ∧ ∃ w : DyckWord, w.toList = (t.onSource "BEGIN x").filterMap Token.bracket? := by
  intro t
  have ht : t.Coloring := by
    refine .chain fun u hu => ?_
    rcases List.mem_pair.1 hu with rfl | rfl
    · exact .colorize _ _
    · refine .firstMatch fun v hv => ?_
      rw [List.mem_singleton.1 hv]
      exact .colorize _ _
  have h := onSource_adds_balanced_markers t ht "BEGIN x"
  exact ⟨ht, h.1, h.2.2.1⟩

end TolerantSql
