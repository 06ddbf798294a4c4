import AdviceWeaving.Proofs.Watching

/-!
# The turns at the members of a type

What has been shown of some things is told by their keys (`Told`).  At the members of one kind of a type there is a
turn for each place, from the last to the first (`Walk.ensures_turn`, `Walk.ensures_countdown`).  A turn shows the
member at the place, or what has come there in its stead, unless a visitor in front has removed it and nothing is there
any more.  Methods are known by identifier, so that nothing comes in their stead (`Walk.ensures_visitMethods`).
-/

namespace AdviceWeaving

/-! ### Reports on what has been shown -/

/-- Of the things with the given keys each has been shown at most once, from the last to the first, and whenever one
was shown, `good` held. -/
structure Told {κ : Type} (keys : List κ) (good : Sight κ → Prop) (seen : List (Sight κ)) : Prop where
  keys : (seen.map (·.key)).Sublist keys.reverse
  good : ∀ x ∈ seen, good x

namespace Told

variable {κ : Type} {ks ks' : List κ} {good : Sight κ → Prop} {seen seen' : List (Sight κ)}

theorem nil : Told ks good [] :=
  ⟨List.nil_sublist _, fun _ h => (List.not_mem_nil h).elim⟩

theorem append (h : Told ks good seen) (h' : Told ks' good seen') : Told (ks' ++ ks) good (seen ++ seen') := by
  refine ⟨?_, fun x hx => ?_⟩
  · rw [List.map_append, List.reverse_append]
    exact h.keys.append h'.keys
  · rcases List.mem_append.1 hx with hx | hx
    · exact h.good x hx
    · exact h'.good x hx

theorem mono (h : Told ks good seen) (hks : ks.Sublist ks') : Told ks' good seen :=
  ⟨h.keys.trans hks.reverse, h.good⟩

end Told

/-- One kind of members, with what is written down of them. -/
structure MemberKind (α κ γ : Type) where
  part : Roster.Part α
  /-- The keys of all members of the type. -/
  keys : Roster → List κ
  length_keys : ∀ e, (keys e).length = (part.get e).length
  /-- A member of a type. -/
  element : TypeId → α → γ
  /-- The member that has been shown. -/
  shown : Sight κ → Option γ
  /-- Nothing else has been shown. -/
  only : List (Sight κ) → Sights
  only_nil : only [] = {}
  only_append : ∀ seen seen', only (seen ++ seen') = only seen ++ only seen'

namespace Walk

open Step

variable {σ : Type} {view : σ → Module} {us ws : List (Visitor σ)} {v : Visitor σ} {s : σ} {c : Sights}

section

variable {α κ γ : Type} {k : MemberKind α κ γ} {a b : List Roster} {e : Roster} {xs l l' : List α} {n : Nat}
  {quiet : Prop} {good : Sight κ → Prop}

/-- The type of `e` has the members `l`; all else is as given. -/
structure At (view : σ → Module) (p : Roster.Part α) (a : List Roster) (e : Roster) (b : List Roster) (l : List α)
    (s : σ) : Prop where
  rosters : (view s).rosters = a ++ p.set e l :: b
  distinct : Distinct (view s).rosters

private theorem At.inj {p : Roster.Part α} (h : At view p a e b l s) (h' : At view p a e b l' s) : l' = l := by
  have hset : p.set e l = p.set e l' := by
    simpa using h.rosters.symm.trans h'.rosters
  rw [← p.get_set e l', ← hset, p.get_set]

variable {hook : Visitor σ → Step σ Unit} {visit : Visitor (σ × Sights) → Step (σ × Sights) Unit}
  {isPresent : Module → Bool} {key : κ}

/-- The end of a turn at the place `n`, where the members were `l` before. -/
def TurnEnds (k : MemberKind α κ γ) (e : Roster) (key : κ) (quiet : Prop) (good : Sight κ → Prop) (l : List α)
    (n : Nat) (c : Sights) (isAt : List α → Prop) (c' : Sights) : Prop :=
  ∃ l' seen, isAt l' ∧ CutFrom n l l' ∧ c' = c ++ k.only seen ∧ Told [key] good seen ∧
    (quiet → seen.map (·.key) = [key]) ∧
    ((l'.drop n).map (k.element e.id)).reverse.Sublist
      (((l.drop (n + 1)).map (k.element e.id)).reverse ++ seen.filterMap k.shown)

/-- Nothing is shown if what stood at the place is gone. -/
private theorem TurnEnds.of_absent {isAt : List α → Prop} (hat : isAt l') (hcut : CutFrom n l l') (hn : n < l.length)
    (heq : quiet → l' = l) (hgone : (l'.drop n).Sublist (l.drop (n + 1))) :
    TurnEnds k e key quiet good l n c isAt c := by
  refine ⟨l', [], hat, hcut, ?_, .nil, fun h => ?_, ?_⟩
  · rw [k.only_nil, Sights.append_empty]
  · have hle := hgone.length_le
    rw [heq h, List.length_drop, List.length_drop] at hle
    omega
  · rw [List.filterMap_nil, List.append_nil]
    exact (hgone.map _).reverse

/-- What stands at the place when its turn has come to the visitor is shown, and may be gone at the end. -/
private theorem TurnEnds.of_shown {isAt : List α → Prop} {l₁ : List α} {y : α} {m : Module} (hat : isAt l')
    (hcut₁ : CutFrom n l l₁) (hcut : CutFrom n l₁ l') (hn : n < l.length) (htold : Told [key] good [⟨key, m⟩])
    (hy : l₁[n]? = some y) (hshown : k.shown ⟨key, m⟩ = some (k.element e.id y)) :
    TurnEnds k e key quiet good l n c isAt (c ++ k.only [⟨key, m⟩]) := by
  refine ⟨l', [⟨key, m⟩], hat, hcut₁.trans hcut, rfl, htold, fun _ => rfl, ?_⟩
  have hlast : (l'.drop n).Sublist (y :: l.drop (n + 1)) := by
    have hrest := hcut₁.2
    rw [drop_of_getElem? hy, List.drop_eq_getElem_cons hn] at hrest
    refine hcut.2.trans ?_
    rw [drop_of_getElem? hy]
    exact (List.Sublist.tail hrest).cons_cons y
  rw [List.filterMap_cons_some hshown, List.filterMap_nil, ← List.reverse_singleton, ← List.reverse_append]
  exact (hlast.map _).reverse

variable (quiet) in
/-- The turn of all visitors at one place. -/
theorem ensures_turn (hhook : IsHook view hook visit fun m c => c ++ k.only [⟨key, m⟩])
    (hs : At view k.part a e b l s) (hn : n < l.length)
    (hremoves : ∀ u ∈ us ++ v :: ws, ∀ l' s s', At view k.part a e b l' s → CutFrom n l l' →
      Yields (hook u) s () s' → ∃ l'', At view k.part a e b l'' s' ∧ CutFrom n l' l'')
    (hquiet : quiet → ∀ u ∈ us, ∀ s s', Yields (hook u) s () s' → (view s').rosters = (view s).rosters)
    (hshown : ∀ l' s, At view k.part a e b l' s → CutFrom n l l' → isPresent (view s) → (quiet → l' = l) →
      good ⟨key, view s⟩ ∧ ∃ y, l'[n]? = some y ∧ k.shown ⟨key, view s⟩ = some (k.element e.id y))
    (habsent : ∀ l' s, At view k.part a e b l' s → CutFrom n l l' → isPresent (view s) = false →
      (l'.drop n).Sublist (l.drop (n + 1))) :
    Ensures (inTurn (fun t => view t.1) isPresent visit (watching view us v ws)) (s, c)
      (fun t => TurnEnds k e key quiet good l n c (At view k.part a e b · t.1) t.2)
      fun t => ∃ seen, t.2 = c ++ k.only seen ∧ Told [key] good seen := by
  let A (s : σ) : Prop := ∃ l', At view k.part a e b l' s ∧ CutFrom n l l' ∧ (quiet → l' = l)
  let B (s₁ s : σ) : Prop := ∃ l₁ l', At view k.part a e b l₁ s₁ ∧ CutFrom n l l₁ ∧
    At view k.part a e b l' s ∧ CutFrom n l₁ l'
  have hfront : ∀ u ∈ us, ∀ s s', A s → isPresent (view s) → Yields (hook u) s () s' → A s' := by
    rintro u hu s s' ⟨l', hs, hcut, heq⟩ _ hy
    obtain ⟨l'', hs', hcut'⟩ := hremoves u (List.mem_append_left _ hu) l' s s' hs hcut hy
    refine ⟨l'', hs', hcut.trans hcut', fun h => ?_⟩
    have hs'' : At view k.part a e b l' s' :=
      ⟨(hquiet h u hu s s' hy).trans hs.rosters, hs'.distinct⟩
    rw [hs''.inj hs', heq h]
  have hwatched : ∀ s s', A s → isPresent (view s) → Yields (hook v) s () s' → B s s' := by
    rintro s s' ⟨l', hs, hcut, _⟩ _ hy
    obtain ⟨l'', hs', hcut'⟩ := hremoves v (List.mem_append_right _ List.mem_cons_self) l' s s' hs hcut hy
    exact ⟨l', l'', hs, hcut, hs', hcut'⟩
  have hbehind : ∀ u ∈ ws, ∀ s₁ s s', B s₁ s → isPresent (view s) → Yields (hook u) s () s' → B s₁ s' := by
    rintro u hu s₁ s s' ⟨l₁, l', hs₁, hcut₁, hs, hcut⟩ _ hy
    obtain ⟨l'', hs', hcut'⟩ := hremoves u (List.mem_append_right _ (List.mem_cons_of_mem _ hu)) l' s s' hs
      (hcut₁.trans hcut) hy
    exact ⟨l₁, l'', hs₁, hcut₁, hs', hcut.trans hcut'⟩
  have hstart : A s := ⟨l, hs, .refl n l, fun _ => rfl⟩
  have htold {s₁ : σ} (hs₁ : A s₁) (hpresent : isPresent (view s₁)) : Told [key] good [⟨key, view s₁⟩] := by
    obtain ⟨l₁, hs₁, hcut, heq⟩ := hs₁
    refine ⟨.refl _, fun x hx => ?_⟩
    cases List.mem_singleton.1 hx
    exact (hshown l₁ s₁ hs₁ hcut hpresent heq).1
  refine (ensures_inTurn hhook hfront hwatched hbehind hstart).imp ?_ ?_
  · rintro ⟨s', c'⟩ (⟨⟨l', hs', hcut, heq⟩, hgone, rfl⟩ | ⟨s₁, hs₁, hpresent, hB, rfl⟩)
    · exact .of_absent hs' hcut hn heq (habsent l' s' hs' hcut hgone)
    · have htold := htold hs₁ hpresent
      obtain ⟨l₁, hAt₁, hcut₁, heq⟩ := hs₁
      obtain ⟨l₁', l', hAt₁', -, hs', hcut⟩ := hB
      obtain rfl := hAt₁.inj hAt₁'
      obtain ⟨y, hy, hshown⟩ := (hshown l₁' s₁ hAt₁ hcut₁ hpresent heq).2
      exact .of_shown hs' hcut₁ hcut hn htold hy hshown
  · rintro ⟨s', c'⟩ (rfl | ⟨s₁, hs₁, hpresent, rfl⟩)
    · exact ⟨[], by rw [k.only_nil, Sights.append_empty], .nil⟩
    · exact ⟨_, rfl, htold hs₁ hpresent⟩

section

-- the turn at each place, in any state in which what stands up to there has not been touched
variable {visitAt : Nat → Step (σ × Sights) Unit}
  (hturn : ∀ n l s c, n < xs.length → At view k.part a e b l s → l.take (n + 1) = xs.take (n + 1) →
    ∃ key, (k.keys e)[n]? = some key ∧ Ensures (visitAt n) (s, c)
      (fun t => TurnEnds k e key quiet good l n c (At view k.part a e b · t.1) t.2)
      fun t => ∃ seen, t.2 = c ++ k.only seen ∧ Told [key] good seen)
include hturn

private theorem ensures_countdown_from (hn : n ≤ xs.length) {seen : List (Sight κ)}
    (hs : At view k.part a e b l s) (hl : l.take n = xs.take n)
    (htold : Told ((k.keys e).drop n) good seen)
    (hall : quiet → seen.map (·.key) = ((k.keys e).drop n).reverse)
    (hshown : ((l.drop n).map (k.element e.id)).reverse.Sublist (seen.filterMap k.shown)) :
    Ensures (countdown visitAt n) (s, c ++ k.only seen)
      (fun t => ∃ l' seen', At view k.part a e b l' t.1 ∧ t.2 = c ++ k.only seen' ∧ Told (k.keys e) good seen' ∧
        (quiet → seen'.map (·.key) = (k.keys e).reverse) ∧
        (l'.map (k.element e.id)).reverse.Sublist (seen'.filterMap k.shown))
      fun t => ∃ seen', t.2 = c ++ k.only seen' ∧ Told (k.keys e) good seen' := by
  induction n generalizing l s seen with
  | zero => exact ensures_pure ⟨l, seen, hs, rfl, htold, hall, hshown⟩
  | succ n ih =>
    obtain ⟨key, hkey, hvisit⟩ := hturn n l s (c ++ k.only seen) hn hs hl
    have hdrop : (k.keys e).drop n = [key] ++ (k.keys e).drop (n + 1) := drop_of_getElem? hkey
    have hadd {seen' : List (Sight κ)} (h : Told [key] good seen') :
        Told ((k.keys e).drop n) good (seen ++ seen') := hdrop ▸ htold.append h
    have honly (seen' : List (Sight κ)) : c ++ k.only seen ++ k.only seen' = c ++ k.only (seen ++ seen') := by
      rw [k.only_append, Sights.append_assoc]
    refine (hvisit.imp (fun _ ht => ht) ?_).bind ?_
    · rintro ⟨s', c'⟩ ⟨seen', rfl, htold'⟩
      exact ⟨seen ++ seen', honly seen', (hadd htold').mono (List.drop_sublist _ _)⟩
    · rintro ⟨s', c'⟩ ⟨l', seen', hs', hcut, rfl, htold', hall', hshown'⟩
      dsimp only at hs' ⊢
      rw [honly]
      refine ih (Nat.le_of_succ_le hn) hs' (hcut.1.trans (take_of_take_succ hl)) (hadd htold') (fun h => ?_) ?_
      · rw [List.map_append, hall h, hall' h, hdrop, List.reverse_append, List.reverse_singleton]
      · rw [List.filterMap_append]
        exact hshown'.trans (hshown.append (.refl _))

variable (quiet) in
/-- The turns at all places of a list of members, one after the other. -/
theorem ensures_countdown (hs : At view k.part a e b xs s) (hlength : xs.length = (k.part.get e).length) :
    Ensures (countdown visitAt xs.length) (s, c)
      (fun t => ∃ l' seen, At view k.part a e b l' t.1 ∧ t.2 = c ++ k.only seen ∧ Told (k.keys e) good seen ∧
        (quiet → seen.map (·.key) = (k.keys e).reverse) ∧
        (l'.map (k.element e.id)).reverse.Sublist (seen.filterMap k.shown))
      fun t => ∃ seen, t.2 = c ++ k.only seen ∧ Told (k.keys e) good seen := by
  have hnone : (k.keys e).drop xs.length = [] :=
    List.drop_of_length_le (Nat.le_of_eq (by rw [k.length_keys, ← hlength]))
  have hrun := ensures_countdown_from (c := c) hturn (Nat.le_refl _) hs rfl .nil (fun _ => by rw [hnone]; rfl) (by
    rw [List.drop_length]
    exact List.nil_sublist _)
  rwa [k.only_nil, Sights.append_empty] at hrun

end

/-! ### Members that are shown -/

private theorem At.cut {p : Roster.Part α} {s' : σ} (h : At view p a e b l s)
    (hrosters : (view s').rosters = a ++ p.set e l' :: b) (hl : l'.Sublist l) : At view p a e b l' s' :=
  ⟨hrosters, hrosters ▸ (h.rosters ▸ h.distinct).set hl⟩

end

/-- The methods, as members that are shown. -/
def methodsKind : MemberKind MethodId MethodId MethodId where
  part := Roster.methodsPart
  keys e := e.methods
  length_keys _ := rfl
  element _ id := id
  shown x := some x.key
  only seen := { methods := seen }
  only_nil := rfl
  only_append _ _ := rfl

/-- A type that is shown is there, unless a visitor in front has removed it. -/
def TypeThere (quiet : Prop) (x : Sight TypeId) : Prop :=
  quiet → (x.module.type? x.key).isSome

/-- A method that is shown is there. -/
def MethodThere (x : Sight MethodId) : Prop :=
  (x.module.method? x.key).isSome

section

variable {a b : List Roster} {e : Roster} {l l' : List MethodId} {n : Nat} {id : MethodId}

private theorem eq_of_mem_methods (hs : At view Roster.methodsPart a e b l s) (hid : id ∈ l) {r : Roster}
    (hr : r ∈ a ++ Roster.methodsPart.set e l' :: b) (hmem : id ∈ r.methods) :
    r = Roster.methodsPart.set e l' := by
  have hmethods := (hs.rosters ▸ hs.distinct).methods
  rw [List.flatMap_append, List.flatMap_cons, List.nodup_append', List.nodup_append'] at hmethods
  obtain ⟨-, ⟨-, -, hback⟩, hfront⟩ := hmethods
  rcases List.mem_append.1 hr with hr | hr
  · exact (hfront (List.mem_flatMap.2 ⟨r, hr, hmem⟩) (List.mem_append_left _ hid)).elim
  · rcases List.mem_cons.1 hr with rfl | hr
    · rfl
    · exact (hback hid (List.mem_flatMap.2 ⟨r, hr, hmem⟩)).elim

private theorem At.nodup_methods (hs : At view Roster.methodsPart a e b l s) : l.Nodup := by
  have hmethods := (hs.rosters ▸ hs.distinct).methods
  rw [List.flatMap_append, List.flatMap_cons] at hmethods
  exact hmethods.of_append_right.of_append_left

private theorem ensures_method (hus : ∀ u ∈ us ++ v :: ws, u.Removes view)
    (hs : At view Roster.methodsPart a e b l s) (hid : l[n]? = some id) :
    Ensures (inTurn (fun t => view t.1) (fun m => (m.method? id).isSome) (·.onMethod id) (watching view us v ws)) (s, c)
      (fun t => TurnEnds methodsKind e id False MethodThere l n c (At view Roster.methodsPart a e b · t.1) t.2)
      fun t => ∃ seen, t.2 = c ++ methodsKind.only seen ∧ Told [id] MethodThere seen := by
  have hmem : id ∈ l := List.mem_of_getElem? hid
  have hstays {l' : List MethodId} (hcut : CutFrom n l l') (hmem' : id ∈ l') : l'[n]? = some id :=
    hcut.getElem?_of_mem hs.nodup_methods hid hmem'
  have hhook : IsHook view (·.onMethod id) (·.onMethod id) fun m c => c ++ methodsKind.only [⟨id, m⟩] :=
    ⟨fun _ => rfl, fun _ => rfl⟩
  refine ensures_turn False hhook hs (List.getElem?_eq_some_iff.1 hid).1 ?_ False.elim ?_ ?_
  · intro u hu l' s s' hs' hcut hy
    have hremoves := (hus u hu).onMethod id s s' hs'.distinct hy
    rw [hs'.rosters] at hremoves
    rcases hremoves with heq | ⟨r, hr, m, hm, hremoves⟩
    · exact ⟨l', hs'.cut heq (.refl l'), .refl n l'⟩
    · obtain rfl := eq_of_mem_methods hs hmem hr (List.mem_of_getElem? hm)
      obtain ⟨l'', hcut', heq⟩ := RemovesMember.exists_cut (hs'.rosters ▸ hs'.distinct) hremoves
      have hnm : n ≤ m := hcut.le_of_key (fun id => id) (by simpa using hs.nodup_methods) hid hm rfl
      exact ⟨l'', hs'.cut heq hcut'.sublist, hcut'.anti hnm⟩
  · intro l' s hs' hcut hpresent _
    obtain ⟨r, hr, hmem'⟩ := Module.isSome_method?_iff.1 hpresent
    rw [hs'.rosters] at hr
    obtain rfl := eq_of_mem_methods hs hmem hr hmem'
    exact ⟨hpresent, id, hstays hcut hmem', rfl⟩
  · intro l' s hs' hcut habsent
    refine (hcut.stays_or_goes hid).resolve_left fun hplace => ?_
    have hpresent : ((view s).method? id).isSome := by
      refine Module.isSome_method?_iff.2 ⟨Roster.methodsPart.set e l', ?_, List.mem_of_getElem? hplace⟩
      rw [hs'.rosters]
      exact List.mem_append_right _ List.mem_cons_self
    rw [hpresent] at habsent
    cases habsent

end

theorem ensures_visitMethods {a b : List Roster} {e : Roster} (hus : ∀ u ∈ us ++ v :: ws, u.Removes view)
    (hs : (view s).rosters = a ++ e :: b) (hd : Distinct (view s).rosters) :
    Ensures (visitMethods (fun t => view t.1) (watching view us v ws) e.id) (s, c)
      (fun t => ∃ l seen, At view Roster.methodsPart a e b l t.1 ∧ t.2 = c ++ { methods := seen } ∧
        Told e.methods MethodThere seen ∧ l.reverse.Sublist (seen.map (·.key)))
      fun t => ∃ seen, t.2 = c ++ { methods := seen } ∧ Told e.methods MethodThere seen := by
  have hmembers {l : List MethodId} {s : σ} (hs : At view Roster.methodsPart a e b l s) :
      (membersOf (·.methods) e.id (view s)).map (·.id) = l :=
    (membersOf_map _ _ _).symm.trans (membersOf_eq_get (p := Roster.methodsPart) hs.distinct hs.rosters)
  have hstart : At view Roster.methodsPart a e b e.methods s := ⟨hs, hd⟩
  refine ensures_get_bind ?_
  have hlength : (membersOf (·.methods) e.id (view s)).length = e.methods.length := by
    rw [← hmembers hstart, List.length_map]
  dsimp only
  rw [hlength]
  refine (ensures_countdown (k := methodsKind) False (fun n l s c hn hs hl => ?_) hstart rfl).imp ?_ fun _ ht => ht
  · have hplace : l[n]? = some e.methods[n] := (getElem?_of_take_succ hl).trans (List.getElem?_eq_getElem hn)
    refine ⟨e.methods[n], List.getElem?_eq_getElem hn, ensures_get_bind ?_⟩
    dsimp only
    rw [← hmembers hs, List.getElem?_map, Option.map_eq_some_iff] at hplace
    obtain ⟨x, hx, hid⟩ := hplace
    rw [hx]
    dsimp only
    rw [← hid]
    refine ensures_method hus hs ?_
    rw [← hmembers hs, List.getElem?_map, hx, Option.map_some]
  · rintro t ⟨l, seen, hl, hseen, htold, -, hshown⟩
    refine ⟨l, seen, hl, hseen, htold, ?_⟩
    simpa [methodsKind] using hshown

/-- Members that are known by their places. -/
def placesKind {α : Type} (p : Roster.Part α) (only : List (Sight (TypeId × Nat)) → Sights) (only_nil : only [] = {})
    (only_append : ∀ seen seen', only (seen ++ seen') = only seen ++ only seen') :
    MemberKind α (TypeId × Nat) (TypeId × α) where
  part := p
  keys := p.places
  length_keys _ := by rw [Roster.Part.places, List.length_map, List.length_range]
  element t x := (t, x)
  shown := Sight.member? p.members
  only := only
  only_nil := only_nil
  only_append := only_append

/-- There is a member at the place that is shown, and if those in front keep the members, it is the one that was there
in the module `m`. -/
def MemberThere {α : Type} (members : TypeDecl → List α) (quiet : Prop) (m : Module)
    (x : Sight (TypeId × Nat)) : Prop :=
  (x.module.memberAt? members x.key).isSome ∧
    (quiet → x.module.memberAt? members x.key = m.memberAt? members x.key)

section

variable {α : Type} {a b : List Roster} {e : Roster} {l : List α} {n : Nat}
  {p : Roster.Part α} {only : List (Sight (TypeId × Nat)) → Sights} {only_nil : only [] = {}}
  {only_append : ∀ seen seen', only (seen ++ seen') = only seen ++ only seen'}
  {hook : Visitor σ → Nat → Step σ Unit} {visit : Visitor (σ × Sights) → Nat → Step (σ × Sights) Unit} {m : Module}

private theorem ensures_place (quiet : Prop)
    (hhook : IsHook view (hook · n) (visit · n) fun m c => c ++ only [⟨(e.id, n), m⟩])
    (hremoves : ∀ u ∈ us ++ v :: ws, ∀ s s', Distinct (view s).rosters → Yields (hook u n) s () s' →
      RemovesMember p e.id n (view s).rosters (view s').rosters)
    (hquiet : quiet → ∀ u ∈ us, ∀ s s', Yields (hook u n) s () s' → (view s').rosters = (view s).rosters)
    (hs : At view p a e b l s) (hn : n < l.length) (hm : m.memberAt? p.members (e.id, n) = l[n]?) :
    Ensures (inTurn (fun t => view t.1) (fun m => n < (membersOf p.members e.id m).length) (visit · n)
        (watching view us v ws)) (s, c)
      (fun t => TurnEnds (placesKind p only only_nil only_append) e (e.id, n) quiet (MemberThere p.members quiet m) l n
        c (At view p a e b · t.1) t.2)
      fun t => ∃ seen, t.2 = c ++ only seen ∧ Told [(e.id, n)] (MemberThere p.members quiet m) seen := by
  have hmembers {l : List α} {s : σ} (hs : At view p a e b l s) : membersOf p.members e.id (view s) = l := by
    rw [← p.id_set e l, membersOf_eq_get hs.distinct hs.rosters, p.get_set]
  refine ensures_turn (k := placesKind p only only_nil only_append) quiet hhook hs hn ?_ hquiet ?_ ?_
  · intro u hu l' s s' hs' hcut hy
    have hremoves := hremoves u hu s s' hs'.distinct hy
    rw [hs'.rosters] at hremoves
    obtain ⟨l'', hcut', heq⟩ := hremoves.exists_cut (hs'.rosters ▸ hs'.distinct)
    exact ⟨l'', hs'.cut heq hcut'.sublist, hcut'⟩
  · intro l' s hs' hcut hpresent heq
    rw [hmembers hs', decide_eq_true_eq] at hpresent
    have hplace : (view s).memberAt? p.members (e.id, n) = some l'[n] := by
      rw [Module.memberAt?, hmembers hs', List.getElem?_eq_getElem hpresent]
    refine ⟨⟨by rw [hplace]; rfl, fun h => ?_⟩, l'[n], List.getElem?_eq_getElem hpresent, ?_⟩
    · rw [hm, Module.memberAt?, hmembers hs', heq h]
    · show ((view s).memberAt? p.members (e.id, n)).map _ = _
      rw [hplace]
      rfl
  · intro l' s hs' hcut habsent
    rw [hmembers hs', decide_eq_false_iff_not, Nat.not_lt] at habsent
    rw [List.drop_of_length_le habsent]
    exact List.nil_sublist _

variable (only) in
theorem ensures_visitPlaces (quiet : Prop) (only_nil : only [] = {})
    (only_append : ∀ seen seen', only (seen ++ seen') = only seen ++ only seen')
    (hhook : ∀ n, IsHook view (hook · n) (visit · n) fun m c => c ++ only [⟨(e.id, n), m⟩])
    (hremoves : ∀ u ∈ us ++ v :: ws, ∀ n s s', Distinct (view s).rosters → Yields (hook u n) s () s' →
      RemovesMember p e.id n (view s).rosters (view s').rosters)
    (hquiet : quiet → ∀ u ∈ us, ∀ n s s', Yields (hook u n) s () s' → (view s').rosters = (view s).rosters)
    (hs : (view s).rosters = a ++ e :: b) (hd : Distinct (view s).rosters)
    (hm : membersOf p.members e.id m = p.get e) :
    Ensures (visitPlaces (fun t => view t.1) (watching view us v ws) p.members visit e.id) (s, c)
      (fun t => ∃ l seen, At view p a e b l t.1 ∧ t.2 = c ++ only seen ∧
        Told (p.places e) (MemberThere p.members quiet m) seen ∧
        (quiet → seen.map (·.key) = (p.places e).reverse) ∧
        (l.map (e.id, ·)).reverse.Sublist (seen.filterMap (Sight.member? p.members)))
      fun t => ∃ seen, t.2 = c ++ only seen ∧
        Told (p.places e) (MemberThere p.members quiet m) seen := by
  have hstart : At view p a e b (p.get e) s := ⟨by rw [p.set_get, hs], hd⟩
  refine ensures_get_bind ?_
  dsimp only
  rw [membersOf_eq_get hd hs]
  refine ensures_countdown (k := placesKind p only only_nil only_append) quiet (fun n l s c hn hs hl => ?_) hstart rfl
  have hplace := getElem?_of_take_succ hl
  refine ⟨(e.id, n), by simp [placesKind, Roster.Part.places, hn], ?_⟩
  refine ensures_place quiet (hhook n) (fun u hu => hremoves u hu n) (fun h u hu => hquiet h u hu n) hs ?_ ?_
  · exact (List.getElem?_eq_some_iff.1 (hplace.trans (List.getElem?_eq_getElem hn))).1
  · rw [Module.memberAt?, hm, hplace]

end

end Walk

end AdviceWeaving
