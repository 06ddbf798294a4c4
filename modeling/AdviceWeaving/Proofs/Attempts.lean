import AdviceWeaving.Proofs.Rules
import AdviceWeaving.Proofs.Backtracking
import Mathlib.Data.List.Basic

/-!
# Rules as attempts

`ofRule p` reads what the rule `p` reads.  A rule that gives up is an attempt that does, but where a part may be left
out, or a list may end, an attempt goes back and tries what follows.  Both come to the same where what follows
`Refuses` the token at which the part started (`optional_bind_of_refuses`, `ofRule_parenthesized`, `clear_bind`).
-/

namespace AdviceWeaving

namespace Attempt

variable {α β : Type}

/-! ### Runs -/

theorem run_just (t : Token) (u : Lexeme) (ts : List Lexeme) :
    (just t).run (u :: ts) = if u.token = t then some ((), ts) else none := by
  show (if u.token = t then some () else none).map (·, ts) = _
  split <;> rfl

theorem run_just_bind {t : Token} {p : Attempt α} (u : Lexeme) (ts : List Lexeme) :
    (just t >>= fun _ => p).run (u :: ts) = if u.token = t then p.run ts else none := by
  rw [StateT.run_bind, run_just]
  split <;> rfl

/-- A token that does not come next is not read. -/
theorem run_just_of_absent {t : Token} {ts : List Lexeme} (h : ∀ span rest, ts = ⟨t, span⟩ :: rest → False) :
    (just t).run ts = none := by
  rcases ts with _ | ⟨⟨u, span⟩, ts⟩
  · rfl
  · refine (run_just t ⟨u, span⟩ ts).trans (if_neg ?_)
    rintro rfl
    exact h span ts rfl

private theorem run_repeated_of_none {p : Attempt α} {ts : List Lexeme} (h : p.run ts = none) :
    (repeated p).run ts = some ([], ts) := by
  rw [StateT.run, repeated, h]

private theorem run_repeated_of_some {p : Attempt α} {ts rest : List Lexeme} {a : α} (h : p.run ts = some (a, rest))
    (hlt : rest.length < ts.length) :
    (repeated p).run ts = ((repeated p).run rest).map fun more => (a :: more.1, more.2) := by
  rw [StateT.run, repeated, h]
  exact if_pos hlt

theorem run_optional_of_none {p : Attempt α} {ts : List Lexeme} (h : p.run ts = none) :
    (optional p).run ts = some (none, ts) := by
  rw [optional, StateT.run_orElse, StateT.run_map, h]
  rfl

theorem run_optional_of_some {p : Attempt α} {ts rest : List Lexeme} {a : α} (h : p.run ts = some (a, rest)) :
    (optional p).run ts = some (some a, rest) := by
  rw [optional, StateT.run_orElse, StateT.run_map, h]
  rfl

/-- Two alternatives that start alike share their start. -/
theorem bind_orElse_bind (p : Attempt α) (f g : α → Attempt β) :
    (p >>= f <|> p >>= g) = p >>= fun a => f a <|> g a := by
  ext ts
  rw [StateT.run_orElse, StateT.run_bind, StateT.run_bind, StateT.run_bind]
  cases p.run ts <;> rfl

/-! ### Refusals -/

/-- The attempt reads nothing that starts with the token. -/
def Refuses (p : Attempt α) (t : Token) : Prop :=
  ∀ span ts, p.run (⟨t, span⟩ :: ts) = none

section

variable {p q : Attempt α} {t u : Token}

theorem refuses_select {f : Token → Option α} (h : f t = none) : (select f).Refuses t := fun span ts => by
  show (f t).map (·, ts) = none
  rw [h]
  rfl

theorem refuses_just (h : t ≠ u) : (just u).Refuses t :=
  refuses_select (if_neg h)

theorem Refuses.bind (h : p.Refuses t) (f : α → Attempt β) : (p >>= f).Refuses t := fun span ts => by
  rw [StateT.run_bind, h]
  rfl

theorem Refuses.orElse (hp : p.Refuses t) (hq : q.Refuses t) : (p <|> q).Refuses t := fun span ts => by
  rw [StateT.run_orElse, hp, hq]
  rfl

/-- Where there is no first value, a list is empty. -/
theorem Refuses.repeated (h : p.Refuses t) {f : List α → Attempt β} (hf : (f []).Refuses t) :
    (repeated p >>= f).Refuses t := fun span ts => by
  rw [StateT.run_bind, run_repeated_of_none (h span ts)]
  exact hf span ts

theorem Refuses.optional (h : p.Refuses t) {f : Option α → Attempt β} (hf : (f none).Refuses t) :
    (optional p >>= f).Refuses t := fun span ts => by
  rw [StateT.run_bind, run_optional_of_none (h span ts)]
  exact hf span ts

end

/-! ### Rules that decide nothing -/

/-- What the rule reads, without its reason to give up. -/
def ofRule (p : Rule α) : Attempt α :=
  fun ts => (p ts).read?

theorem ofRule_pure (a : α) : ofRule (pure a) = pure a := rfl

theorem ofRule_bind (p : Rule α) (f : α → Rule β) : ofRule (p >>= f) = ofRule p >>= fun a => ofRule (f a) :=
  funext fun ts => Rule.read?_bind p f ts

theorem ofRule_token (f : Token → Option α) : ofRule (Rule.token f) = select f := by
  funext ts
  cases ts with
  | nil => rfl
  | cons t ts => exact Rule.read?_token f t ts

theorem ofRule_mark (m : Mark) : ofRule (Rule.mark m) = just (.mark m) :=
  ofRule_token fun u => if u = .mark m then some () else none

theorem ofRule_path : ofRule Rule.path = path :=
  ofRule_token _

/-! ### Optional parts -/

/-- Whether an optional token is read does not depend on what comes behind it. -/
theorem ofRule_flag (t : Token) (f : Bool → Rule β) :
    ofRule (Rule.optional t >>= f) = optional (just t) >>= fun there => ofRule (f there.isSome) := by
  rw [ofRule_bind]
  ext1 ts
  rw [StateT.run_bind, StateT.run_bind]
  rcases ts with _ | ⟨u, ts⟩
  · rfl
  have hrule : (ofRule (Rule.optional t)).run (u :: ts) = _ := Rule.read?_optional t u ts
  rw [hrule]
  by_cases h : u.token = t
  · rw [run_optional_of_some ((run_just t u ts).trans (if_pos h)), if_pos h]
    rfl
  · rw [run_optional_of_none ((run_just t u ts).trans (if_neg h)), if_neg h]
    rfl

/-- A part that starts with the token `t`, and may be left out, is left out only where the token is not there: nothing
else starts with it. -/
theorem optional_bind_of_refuses {t : Token} {p : Attempt α} {g : Option α → Attempt β} (h : (g none).Refuses t) :
    (optional (just t >>= fun _ => p) >>= g) =
      optional (just t) >>= fun there => there.elim (g none) fun _ => p >>= fun a => g (some a) := by
  ext1 ts
  rw [StateT.run_bind, StateT.run_bind]
  rcases ts with _ | ⟨⟨u, span⟩, ts⟩
  · rfl
  have hjust := run_just t ⟨u, span⟩ ts
  have hpart : (just t >>= fun _ => p).run (⟨u, span⟩ :: ts) = _ := run_just_bind _ ts
  by_cases hu : u = t
  · subst hu
    rw [if_pos rfl] at hjust hpart
    rw [run_optional_of_some hjust]
    show _ = (p >>= fun a => g (some a)).run ts
    rw [StateT.run_bind]
    cases hp : p.run ts with
    | none =>
      rw [run_optional_of_none (hpart.trans hp)]
      exact h span ts
    | some found =>
      rw [run_optional_of_some (hpart.trans hp)]
      rfl
  · rw [if_neg hu] at hjust hpart
    rw [run_optional_of_none hjust, run_optional_of_none hpart]
    rfl

/-! ### Lists -/

section

variable {loop : Rule (List α)} {item : Attempt α} {close : Attempt Unit}

/-- A loop reads what a list of items and the end of it read, if it goes on where there is an item, and looks for the
end where there is none. -/
theorem run_loop (hstop : ∀ ts, item.run ts = none → (ofRule loop).run ts = (close >>= fun _ => pure []).run ts)
    (hmore : ∀ ts a rest, item.run ts = some (a, rest) → rest.length < ts.length ∧
      (ofRule loop).run ts = ((ofRule loop).run rest).map fun more => (a :: more.1, more.2)) (ts : List Lexeme) :
    (ofRule loop).run ts = (repeated item >>= fun as => close >>= fun _ => pure as).run ts := by
  rw [StateT.run_bind]
  cases hitem : item.run ts with
  | none =>
    rw [hstop ts hitem, run_repeated_of_none hitem]
    rfl
  | some found =>
    obtain ⟨a, rest⟩ := found
    obtain ⟨hlt, hgo⟩ := hmore ts a rest hitem
    rw [hgo, run_repeated_of_some hitem hlt, run_loop hstop hmore rest, StateT.run_bind]
    cases (repeated item).run rest with
    | none => rfl
    | some found =>
      show ((close >>= fun _ => pure found.1).run found.2).map _ = (close >>= fun _ => pure (a :: found.1)).run found.2
      rw [StateT.run_bind, StateT.run_bind]
      cases close.run found.2 <;> rfl
termination_by ts.length

end

/-- Read nothing, unless the token comes next. -/
def clear (t : Token) : Attempt Unit
  | [] => some ((), [])
  | u :: ts => if u.token = t then none else some ((), u :: ts)

theorem run_clear (t : Token) (u : Lexeme) (ts : List Lexeme) :
    (clear t).run (u :: ts) = if u.token = t then none else some ((), u :: ts) := rfl

/-- What refuses the token is not read where it comes next. -/
theorem clear_bind {t : Token} {p : Attempt α} (h : p.Refuses t) : (clear t >>= fun _ => p) = p := by
  ext1 ts
  rw [StateT.run_bind]
  rcases ts with _ | ⟨⟨u, span⟩, ts⟩
  · rfl
  by_cases hu : u = t
  · subst hu
    rw [run_clear, if_pos rfl, h span ts]
    rfl
  · rw [run_clear, if_neg hu]
    rfl

/-- What may be left out before the token `t` is left out only where the token comes next. -/
private theorem orElse_pure_bind {p : Attempt α} {t : Token} (h : p.Refuses t) (a : α) :
    ((p <|> pure a) >>= fun a => just t >>= fun _ => pure a) =
      optional (just t) >>= fun there => there.elim (p >>= fun a => just t >>= fun _ => pure a) fun _ => pure a := by
  ext1 ts
  rw [StateT.run_bind, StateT.run_bind, StateT.run_orElse]
  rcases ts with _ | ⟨⟨u, span⟩, ts⟩
  · rw [run_optional_of_none rfl]
    show _ = (p >>= fun a => just t >>= fun _ => pure a).run []
    rw [StateT.run_bind]
    cases p.run [] <;> rfl
  have hjust := run_just t ⟨u, span⟩ ts
  by_cases hu : u = t
  · subst hu
    rw [if_pos rfl] at hjust
    rw [run_optional_of_some hjust, h span ts]
    show (just u >>= fun _ => pure a).run (⟨u, span⟩ :: ts) = (pure a : Attempt α).run ts
    rw [run_just_bind, if_pos rfl]
  · rw [if_neg hu] at hjust
    rw [run_optional_of_none hjust]
    show _ = (p >>= fun a => just t >>= fun _ => pure a).run (⟨u, span⟩ :: ts)
    rw [StateT.run_bind]
    cases p.run (⟨u, span⟩ :: ts) with
    | some found => rfl
    | none =>
      show (just t >>= fun _ => pure a).run (⟨u, span⟩ :: ts) = none
      rw [run_just_bind, if_neg hu]

/-! ### Lists in parentheses -/

section

variable {item : Rule α}

private theorem ofRule_furtherItems : ofRule (Rule.furtherItems item) =
    repeated (just (.mark .comma) >>= fun _ => ofRule item) >>= fun as => just (.mark .closeParen) >>= fun _ =>
      pure as := by
  ext1 ts
  refine run_loop (fun ts hitem => ?_) (fun ts a rest hitem => ?_) ts
  · rcases ts with _ | ⟨t, ts⟩
    · show (Rule.furtherItems item []).read? = none
      rw [Rule.furtherItems]
      rfl
    rw [run_just_bind] at hitem ⊢
    show (Rule.furtherItems item (t :: ts)).read? = _
    rw [Rule.read?_furtherItems]
    split
    · rfl
    split
    next hcomma =>
      rw [if_pos hcomma] at hitem
      rw [show (item ts).read? = none from hitem]
      rfl
    · rfl
  · rcases ts with _ | ⟨t, ts⟩
    · cases hitem
    rw [run_just_bind] at hitem
    split at hitem
    next hcomma =>
      refine ⟨Rule.length_lt_of_read? a rest hitem, ?_⟩
      show (Rule.furtherItems item (t :: ts)).read? = _
      rw [Rule.read?_furtherItems, if_neg (by simp [hcomma]), if_pos hcomma, show (item ts).read? = _ from hitem]
      rfl
    · cases hitem

theorem ofRule_parenthesized (h : (ofRule item).Refuses (.mark .closeParen)) :
    ofRule (Rule.parenthesized item) = delimited .openParen .closeParen (separated (ofRule item)) := by
  rw [Rule.parenthesized, ofRule_bind, ofRule_mark, delimited, separated, orElse_pure_bind (h.bind _)]
  congr 1
  funext _
  rw [ofRule_flag]
  congr 1
  funext there
  cases there with
  | some _ => rfl
  | none =>
    show ofRule (item >>= fun a => Rule.furtherItems item >>= fun as => pure (a :: as)) = _
    simp only [ofRule_bind, ofRule_furtherItems, ofRule_pure, bind_assoc, pure_bind, Option.elim_none]

end

end Attempt

end AdviceWeaving
