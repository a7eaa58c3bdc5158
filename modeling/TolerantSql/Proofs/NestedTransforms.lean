import TolerantSql.Highlight.Transform

/-!
# Nested transforms written flat

A chain that is a member of a chain can be replaced by its members, and so can
alternatives that are one of several alternatives. Nothing is asked of the
transforms for this: they may drop tokens, make any number of them, and accept what
they like.

The two combinators need different facts. A member of a chain works on all the
tokens that the one before it made, while a nested chain takes these one at a time;
that the two come to the same is `applyAll_chain`. Of several alternatives the one
that accepts a token does the work, so a nested combinator is chosen by what it
accepts and then chooses again by itself; these two choices agree
(`offer_firstMatch`), for a combinator without members too, which accepts nothing and
is never chosen. A chain is no such combinator: the empty one accepts nothing but
would leave a token as it is, and one with members that accept a token hands it to
all of them.
-/

namespace TolerantSql

attribute [ext] Transform

namespace Transform

/-- A combinator that accepts what its members do is accepted for as they are. -/
theorem any_accepts_nested {t : Transform} {inner : List Transform} {kind : TokenKind}
    (h : t.accepts kind = inner.any (·.accepts kind)) (before behind : List Transform) :
    (before ++ t :: behind).any (·.accepts kind)
      = (before ++ inner ++ behind).any (·.accepts kind) := by
  rw [List.any_append, List.any_cons, h, List.any_append, List.any_append, Bool.or_assoc]

/-! ## Chains -/

/-- **A chain does to tokens one by one what its members do to all of them.** -/
theorem applyAll_chain (members : List Transform) (tokens : List Token) :
    (chain members).applyAll tokens
      = members.foldl (fun tokens t => t.applyAll tokens) tokens := by
  induction members generalizing tokens with
  | nil => exact List.flatMap_singleton' tokens
  | cons t members ih =>
    have hchain (token : Token) : (chain (t :: members)).apply token
        = (t.apply token).flatMap (chain members).apply := by
      show members.foldl _ (t.applyAll [token]) = _
      rw [← ih, applyAll, applyAll, List.flatMap_singleton]
    calc (chain (t :: members)).applyAll tokens
        = tokens.flatMap fun token => (t.apply token).flatMap (chain members).apply :=
          congrArg tokens.flatMap (funext hchain)
      _ = (t.applyAll tokens).flatMap (chain members).apply := List.flatMap_assoc.symm
      _ = (t :: members).foldl (fun tokens t => t.applyAll tokens) tokens := ih (t.applyAll tokens)

/-- A chain in a chain can be written as its members. -/
theorem chain_append_chain (before inner behind : List Transform) :
    chain (before ++ chain inner :: behind) = chain (before ++ inner ++ behind) := by
  refine Transform.ext (funext fun token => ?_) (funext fun kind => ?_)
  · show List.foldl _ [token] _ = List.foldl _ [token] _
    rw [List.foldl_append, List.foldl_cons, applyAll_chain, List.foldl_append, List.foldl_append]
  · exact any_accepts_nested rfl before behind

/-! ## Alternatives -/

/-- What a transform makes of a token, if it accepts it. -/
def offer (token : Token) (t : Transform) : Option (List Token) :=
  if t.accepts token.kind then some (t.apply token) else none

/-- Of alternatives, the first offer counts. -/
theorem apply_firstMatch_eq_findSome (members : List Transform) (token : Token) :
    (firstMatch members).apply token = (members.findSome? (offer token)).getD [token] := by
  induction members with
  | nil => rfl
  | cons t members ih =>
    rw [List.findSome?_cons, offer]
    unfold firstMatch
    dsimp only
    rw [List.find?_cons]
    cases t.accepts token.kind with
    | true => rfl
    | false => exact ih

/-- **Alternatives offer what the first of them offers**: they are chosen for a token
exactly if one of them is. -/
theorem offer_firstMatch (members : List Transform) (token : Token) :
    offer token (firstMatch members) = members.findSome? (offer token) := by
  have haccepts : (firstMatch members).accepts token.kind
      = (members.findSome? (offer token)).isSome := by
    rw [List.isSome_findSome?]
    refine congrArg members.any (funext fun t => ?_)
    unfold offer
    cases t.accepts token.kind <;> rfl
  rw [offer, haccepts, apply_firstMatch_eq_findSome]
  cases members.findSome? (offer token) <;> rfl

/-- Alternatives among alternatives can be written as their members. -/
theorem firstMatch_append_firstMatch (before inner behind : List Transform) :
    firstMatch (before ++ firstMatch inner :: behind) = firstMatch (before ++ inner ++ behind) := by
  refine Transform.ext (funext fun token => ?_) (funext fun kind => ?_)
  · have hoffers : (before ++ firstMatch inner :: behind).findSome? (offer token)
        = (before ++ inner ++ behind).findSome? (offer token) := by
      rw [List.findSome?_append, List.findSome?_cons, offer_firstMatch, List.findSome?_append,
        List.findSome?_append, Option.or_assoc]
      cases inner.findSome? (offer token) <;> rfl
    rw [apply_firstMatch_eq_findSome, apply_firstMatch_eq_findSome, hoffers]
  · exact any_accepts_nested rfl before behind

/-- **Combinators can be flattened.** A chain that stands anywhere in a chain can be
replaced by its members, and alternatives that stand anywhere among alternatives by
theirs: what becomes of every token stays the same, and so do the kinds of token that
are accepted. The transforms are any, and there may be none of them before, within or
behind the nested combinator. -/
theorem flatten_nested (before inner behind : List Transform) :
    (∀ token, (chain (before ++ chain inner :: behind)).apply token
        = (chain (before ++ inner ++ behind)).apply token)
      ∧ (∀ kind, (chain (before ++ chain inner :: behind)).accepts kind
        = (chain (before ++ inner ++ behind)).accepts kind)
      ∧ (∀ token, (firstMatch (before ++ firstMatch inner :: behind)).apply token
        = (firstMatch (before ++ inner ++ behind)).apply token)
      ∧ ∀ kind, (firstMatch (before ++ firstMatch inner :: behind)).accepts kind
        = (firstMatch (before ++ inner ++ behind)).accepts kind := by
  rw [chain_append_chain, firstMatch_append_firstMatch]
  exact ⟨fun _ => rfl, fun _ => rfl, fun _ => rfl, fun _ => rfl⟩

end Transform

end TolerantSql
