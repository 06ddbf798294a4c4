import AdviceWeaving.Text.Grammar
import AdviceWeaving.Proofs.Spelling

/-!
# What the rules read

`Rule.Gives p ts r` says that the rule `p` reads the tokens `ts` as `r`, whatever follows them and wherever they
stand; without a result, it fails on them.  Rules are put together with `Gives.bind`.  A rule that looks at the next
token without reading it is put together with the one that goes on (`Gives.optional_miss`, `Gives.peek`,
`Gives.attributes`), so that the token is known.
-/

namespace AdviceWeaving

/-! ### Outcomes without their bounds -/

namespace Outcome

variable {α β : Type} {ts : List Lexeme}

/-- What was read, and what is left. -/
def read? (o : Outcome α ts) : Option (α × List Lexeme) :=
  o.toOption.map fun (a, rest) => (a, rest.val)

private theorem read?_ok (a : α) (rest : Remainder ts) :
    read? (.ok (a, rest) : Outcome α ts) = some (a, rest.val) := rfl

private theorem read?_andThen {o : Outcome α ts} {next : α → (rest : Remainder ts) → Outcome β rest}
    {f : α × List Lexeme → Option (β × List Lexeme)}
    (h : ∀ a rest, (next a rest).read? = f (a, rest)) : (o.andThen next).read? = o.read?.bind f := by
  cases o with
  | error fault => rfl
  | ok found =>
    obtain ⟨a, rest⟩ := found
    rw [read?_ok, Option.bind_some, ← h a rest, andThen]
    cases next a rest <;> rfl

theorem read?_behind (t : Lexeme) (o : Outcome α ts) : (o.behind t).read? = o.read? := by
  cases o <;> rfl

theorem read?_withValue (o : Outcome α ts) (f : α → β) :
    (o.withValue f).read? = o.read?.map fun found => (f found.1, found.2) := by
  cases o <;> rfl

private theorem length_le_of_read? {rest : List Lexeme} {o : Outcome α ts} {a : α}
    (h : o.read? = some (a, rest)) : rest.length ≤ ts.length := by
  cases o with
  | error fault => cases h
  | ok found =>
    cases h
    exact found.2.property

end Outcome

namespace Rule

variable {α β : Type}

theorem read?_bind (p : Rule α) (f : α → Rule β) (ts : List Lexeme) :
    ((p >>= f) ts).read? = (p ts).read?.bind fun found => (f found.1 found.2).read? :=
  Outcome.read?_andThen fun _ _ => rfl

theorem read?_token (f : Token → Option α) (t : Lexeme) (ts : List Lexeme) :
    (token f (t :: ts)).read? = (f t.token).map (·, ts) := by
  rw [token]
  cases f t.token <;> rfl

theorem read?_optional (t : Token) (u : Lexeme) (ts : List Lexeme) :
    (optional t (u :: ts)).read? = if u.token = t then some (true, ts) else some (false, u :: ts) := by
  rw [optional]
  split <;> rfl

/-- A loop reads one more value and goes on. -/
theorem read?_more {ts : List Lexeme} (o : Outcome α ts) (loop : Rule (List α)) :
    (o.andThen fun a rest => (loop rest).withValue (a :: ·)).read? =
      o.read?.bind fun found => (loop found.2).read?.map fun more => (found.1 :: more.1, more.2) :=
  Outcome.read?_andThen fun a rest => Outcome.read?_withValue (loop rest) (a :: ·)

theorem read?_furtherItems (item : Rule α) (t : Lexeme) (ts : List Lexeme) :
    (furtherItems item (t :: ts)).read? =
      if t.token = .mark .closeParen then some ([], ts)
      else if t.token = .mark .comma then
        (item ts).read?.bind fun found =>
          (furtherItems item found.2).read?.map fun more => (found.1 :: more.1, more.2)
      else none := by
  rw [furtherItems]
  split
  · rfl
  split
  · rw [Outcome.read?_behind, read?_more]
  · rfl

theorem read?_attributes (t : Lexeme) (ts : List Lexeme) :
    (attributes (t :: ts)).read? =
      if t.token = .mark .openBracket then
        (attributeBody ts).read?.bind fun found =>
          (attributes found.2).read?.map fun more => (found.1 :: more.1, more.2)
      else some ([], t :: ts) := by
  rw [attributes]
  split
  · rw [Outcome.read?_behind, read?_more]
  · rfl

theorem read?_lines_close (span : Span) (ts : List Lexeme) :
    (lines (⟨.mark .closeBrace, span⟩ :: ts)).read? = some ([], ts) := by
  rw [lines]
  rfl

theorem read?_lines_path (word : String) (span : Span) (ts : List Lexeme) :
    (lines (⟨.path word, span⟩ :: ts)).read? =
      (line word ts).read?.bind fun found =>
        (lines found.2).read?.map fun more => (found.1 :: more.1, more.2) := by
  rw [lines, Outcome.read?_behind, read?_more]

/-- What is left behind one more token is less. -/
theorem length_lt_of_read? {p : Rule α} {t : Lexeme} {ts : List Lexeme} (a : α) (mid : List Lexeme)
    (h : (p ts).read? = some (a, mid)) : mid.length < (t :: ts).length :=
  Nat.lt_succ_of_le (Outcome.length_le_of_read? h)

/-- Read a value that starts with some token, told by that token. -/
def startingWith (f : Lexeme → Rule α) : Rule α
  | [] => .error (.unexpected none)
  | t :: ts => (f t ts).behind t

theorem read?_startingWith (f : Lexeme → Rule α) (t : Lexeme) (ts : List Lexeme) :
    (startingWith f (t :: ts)).read? = (f t ts).read? :=
  Outcome.read?_behind t (f t ts)

/-- A rule that reads attributes and then a token reads something. -/
theorem length_lt_of_attributed {f : List Attribute → Lexeme → Rule α} {ts : List Lexeme} (a : α)
    (rest : List Lexeme)
    (h : ((do startingWith (f (← attributes)) : Rule α) ts).read? = some (a, rest)) :
    rest.length < ts.length := by
  have hbind := read?_bind attributes (fun as => startingWith (f as)) ts
  obtain ⟨⟨as, mid⟩, has, hmid⟩ := Option.bind_eq_some_iff.1 (hbind.symm.trans h)
  have hle := Outcome.length_le_of_read? has
  cases mid with
  | nil => cases hmid
  | cons u us =>
    rw [read?_startingWith] at hmid
    exact Nat.lt_of_lt_of_le (length_lt_of_read? (t := u) a rest hmid) hle

/-- Read a member with its attributes. -/
def member : Rule Member := do
  startingWith (memberFrom (← attributes))

/-- Read a type with its attributes. -/
def typeDecl : Rule TypeDecl := do
  startingWith (typeFrom (← attributes))

/-- Reading attributes and then, from the token behind them, a value and further ones. -/
private theorem read?_attributed {f : List Attribute → Lexeme → Rule α} {loop : Rule (List α)}
    {ts : List Lexeme}
    {next : List Attribute → (rest : Remainder ts) → Outcome (List α) rest}
    (hnil : ∀ as h, next as ⟨[], h⟩ = .error (.unexpected none))
    (hcons : ∀ as u us h, next as ⟨u :: us, h⟩ =
      ((f as u us).andThen fun a rest => (loop rest).withValue (a :: ·)).behind u) :
    ((attributes ts).andThen next).read? =
      ((do startingWith (f (← attributes)) : Rule α) ts).read?.bind fun found =>
        (loop found.2).read?.map fun more => (found.1 :: more.1, more.2) := by
  rw [show ((do startingWith (f (← attributes)) : Rule α) ts).read? = _ from
    read?_bind attributes (fun as => startingWith (f as)) ts, Option.bind_assoc]
  refine Outcome.read?_andThen fun as rest => ?_
  obtain ⟨_ | ⟨u, us⟩, h⟩ := rest
  · rw [hnil]
    rfl
  · rw [hcons, Outcome.read?_behind, read?_more, read?_startingWith]

theorem read?_members (t : Lexeme) (ts : List Lexeme) :
    (members (t :: ts)).read? =
      if t.token = .mark .closeBrace then some ([], ts)
      else
        (member (t :: ts)).read?.bind fun found =>
          (members found.2).read?.map fun more => (found.1 :: more.1, more.2) := by
  rw [members]
  split
  · rfl
  · exact read?_attributed (fun _ _ => rfl) fun _ _ _ _ => rfl

theorem read?_types (t : Lexeme) (ts : List Lexeme) :
    (types (t :: ts)).read? =
      (typeDecl (t :: ts)).read?.bind fun found =>
        (types found.2).read?.map fun more => (found.1 :: more.1, more.2) := by
  rw [types]
  exact read?_attributed (fun _ _ => rfl) fun _ _ _ _ => rfl

/-! ### Rules that give a result -/

/-- The rule reads the tokens as `r`, and leaves what follows; without a result, it fails. -/
def Gives (p : Rule α) (ts : List Token) (r : Option α) : Prop :=
  ∀ front rest : List Lexeme, front.map (·.token) = ts →
    (p (front ++ rest)).read? = r.map (·, rest)

section

variable {p : Rule α} {f : α → Rule β} {ts us : List Token} {t u : Token} {a : α} {r : Option α}
  {s : Option β}

theorem gives_pure (a : α) : Gives (pure a) [] (some a) := by
  intro front rest hfront
  rw [List.map_eq_nil_iff.1 hfront]
  rfl

theorem Gives.bind {g : α → Option β} (hp : Gives p ts r) (hf : ∀ a ∈ r, Gives (f a) us (g a)) :
    Gives (p >>= f) (ts ++ us) (r.bind g) := by
  intro front rest hfront
  obtain ⟨front, front', rfl, hts, hus⟩ := List.map_eq_append_iff.1 hfront
  rw [read?_bind, List.append_assoc, hp front (front' ++ rest) hts]
  cases r with
  | none => rfl
  | some a => exact hf a rfl front' rest hus

theorem Gives.then (hp : Gives p ts (some a)) (hf : Gives (f a) us s) :
    Gives (p >>= f) (ts ++ us) s :=
  hp.bind (g := fun _ => s) fun _ ha => Option.some.inj ha ▸ hf

theorem Gives.map (hp : Gives p ts r) (g : α → β) : Gives (do return g (← p)) ts (r.map g) := by
  have h := hp.bind fun a _ => gives_pure (g a)
  rw [Option.map_eq_bind]
  rwa [List.append_nil] at h

theorem gives_token {f : Token → Option α} (h : f t = some a) : Gives (token f) [t] (some a) := by
  intro front rest hfront
  obtain ⟨l, rfl, hl⟩ := List.map_eq_singleton_iff.1 hfront
  rw [List.singleton_append, read?_token, hl, h]

/-- A rule that reads one token, and what follows it. -/
theorem Gives.token {g : Token → Option α} (h : g t = some a) (hf : Gives (f a) us s) :
    Gives (token g >>= f) (t :: us) s :=
  (gives_token h).then hf

theorem gives_exactly (t : Token) : Gives (exactly t) [t] (some ()) :=
  gives_token (f := fun u => if u = t then some () else none) (if_pos rfl)

theorem gives_mark (m : Mark) : Gives (mark m) [.mark m] (some ()) :=
  gives_exactly (.mark m)

theorem gives_path (name : String) : Gives path [.path name] (some name) :=
  gives_token rfl

/-! ### Looking at the next token -/

/-- There is a first token, and it is another one. -/
def startsOther (t : Token) : List Token → Bool
  | [] => false
  | u :: _ => u ≠ t

theorem startsOther_append (h : startsOther t ts) : startsOther t (ts ++ us) := by
  cases ts with
  | nil => cases h
  | cons u ts => exact h

/-- A list of lexemes whose tokens start with another one. -/
theorem exists_cons_of_startsOther (h : startsOther t ts) {front : List Lexeme}
    (hfront : front.map (·.token) = ts) : ∃ u us, front = u :: us ∧ u.token ≠ t := by
  cases front with
  | nil => subst hfront; cases h
  | cons u us =>
    subst hfront
    exact ⟨u, us, rfl, of_decide_eq_true h⟩

theorem Gives.optional_hit {f : Bool → Rule β} (hf : Gives (f true) us s) :
    Gives (optional t >>= f) (t :: us) s := by
  intro front rest hfront
  obtain ⟨l, front, rfl, hl, hus⟩ := List.map_eq_cons_iff.1 hfront
  rw [read?_bind, List.cons_append, read?_optional, if_pos hl]
  exact hf front rest hus

theorem Gives.optional_miss {f : Bool → Rule β} (h : startsOther t us) (hf : Gives (f false) us s) :
    Gives (optional t >>= f) us s := by
  intro front rest hfront
  rw [← hf front rest hfront]
  obtain ⟨u, us, rfl, hne⟩ := exists_cons_of_startsOther h hfront
  rw [read?_bind, List.cons_append, read?_optional, if_neg hne]
  rfl

/-- An optional token, there or not. -/
theorem Gives.optional {f : Bool → Rule β} {there : Bool} (h : startsOther t us)
    (hf : Gives (f there) us s) :
    Gives (optional t >>= f) ((if there then [t] else []) ++ us) s := by
  cases there with
  | true => exact hf.optional_hit
  | false => exact hf.optional_miss h

theorem Gives.peek {f : Option Lexeme → Rule β} (hf : ∀ span, Gives (f (some ⟨t, span⟩)) (t :: us) s) :
    Gives (peek >>= f) (t :: us) s := by
  intro front rest hfront
  obtain ⟨⟨t', span⟩, front', rfl, rfl, hus⟩ := List.map_eq_cons_iff.1 hfront
  rw [read?_bind]
  exact hf span _ rest hfront

end

/-! ### Lists -/

section

variable {X : Type} {item : Rule α} {g : X → List Token} {v : X → α} {xs : List X}

private theorem gives_furtherItems (h : ∀ x ∈ xs, Gives item (g x) (some (v x))) :
    Gives (furtherItems item) (furtherTokens (xs.map g)) (some (xs.map v)) := by
  induction xs with
  | nil =>
    intro front rest hfront
    obtain ⟨t, rfl, ht⟩ := List.map_eq_singleton_iff.1 hfront
    rw [List.singleton_append, read?_furtherItems, if_pos ht]
    rfl
  | cons x xs ih =>
    intro front rest hfront
    have htokens : furtherTokens ((x :: xs).map g) =
        .mark .comma :: (g x ++ furtherTokens (xs.map g)) := by
      simp [furtherTokens]
    rw [htokens] at hfront
    obtain ⟨t, front, rfl, ht, hfront⟩ := List.map_eq_cons_iff.1 hfront
    obtain ⟨front, front', rfl, hx, hxs⟩ := List.map_eq_append_iff.1 hfront
    rw [List.cons_append, read?_furtherItems, if_neg (by simp [ht]), if_pos ht, List.append_assoc,
      h x (by simp) front _ hx, Option.map_some, Option.bind_some,
      ih (fun y hy => h y (by simp [hy])) front' rest hxs]
    rfl

/-- A list in parentheses. The closing parenthesis starts no item. -/
theorem gives_parenthesized (h : ∀ x ∈ xs, Gives item (g x) (some (v x)))
    (hstart : ∀ x ∈ xs, startsOther (.mark .closeParen) (g x)) :
    Gives (parenthesized item) (parenTokens (xs.map g)) (some (xs.map v)) := by
  refine (gives_mark .openParen).then ?_
  cases xs with
  | nil => exact Gives.optional_hit (gives_pure [])
  | cons x xs =>
    refine Gives.optional_miss (startsOther_append (hstart x (by simp))) ?_
    refine (h x (by simp)).then ?_
    exact (gives_furtherItems fun y hy => h y (by simp [hy])).map (v x :: ·)

end

/-- A loop that reads one value after the other, in front of what ends it. -/
theorem read?_loop {X : Type} {loop : Rule (List α)} {p : Rule α} {close : List Token}
    {g : X → List Token} {v : X → Option α} {xs : List X} {rest : List Lexeme}
    (hclose : ∀ front, front.map (·.token) = close →
      (loop (front ++ rest)).read? = some ([], rest))
    (hmore : ∀ x ∈ xs, ∀ front rest, front.map (·.token) = g x →
      (loop (front ++ rest)).read? = (p (front ++ rest)).read?.bind fun found =>
        (loop found.2).read?.map fun more => (found.1 :: more.1, more.2))
    (h : ∀ x ∈ xs, Gives p (g x) (v x)) {front : List Lexeme}
    (hfront : front.map (·.token) = xs.flatMap g ++ close) :
    (loop (front ++ rest)).read? = (xs.mapM v).map (·, rest) := by
  induction xs generalizing front with
  | nil => exact hclose front hfront
  | cons x xs ih =>
    rw [List.flatMap_cons, List.append_assoc] at hfront
    obtain ⟨front, front', rfl, hx, hxs⟩ := List.map_eq_append_iff.1 hfront
    rw [List.append_assoc, hmore x (by simp) _ _ hx, h x (by simp) _ _ hx, List.mapM_cons]
    cases v x with
    | none => rfl
    | some a =>
      have htail := ih (fun y hy => hmore y (by simp [hy])) (fun y hy => h y (by simp [hy])) hxs
      rw [Option.map_some, Option.bind_some, htail]
      cases xs.mapM v <;> rfl

end Rule

end AdviceWeaving
