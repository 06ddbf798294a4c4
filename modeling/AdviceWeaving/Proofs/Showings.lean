import AdviceWeaving.Proofs.Turns

/-!
# What a walk shows

A walk in which visitors remove what they are shown, or what stands behind it, shows to each of them every type
once, and every method that is left (`Walk.shown_once`).  What is behind a place has had its turn, so that a turn loses
nothing in front of it: one after the other the turns tell of all rosters (`Sights.Told`, `Sights.Covers`).

A field or a property is known by its place only.  When a visitor removes it, what stands behind it comes in its
stead, and a visitor that comes later in the same turn is shown that again; and it is shown a type that is gone.  So
for types, fields and properties it matters whether the visitors in front keep them.
-/

namespace AdviceWeaving

/-! ### All that has been shown -/

namespace Sights

variable {σ : Type} {view : σ → Module} {us : List (Visitor σ)} {m : Module} {r r' r₁ r₁' : List Roster}
  {d d' : Sights}

/-- The types of some rosters and their members have been shown at most once to a visitor that comes behind `us`, from
the last to the first, and those of the module `m`. -/
structure Told (view : σ → Module) (us : List (Visitor σ)) (m : Module) (r : List Roster) (d : Sights) : Prop where
  types : AdviceWeaving.Told (r.map (·.id)) (Walk.TypeThere (∀ u ∈ us, u.KeepsTypes view)) d.types
  methods : AdviceWeaving.Told (r.flatMap (·.methods)) Walk.MethodThere d.methods
  fields : AdviceWeaving.Told (r.flatMap Roster.fieldsPart.places)
    (Walk.MemberThere (·.fields) (∀ u ∈ us, u.KeepsFields view) m) d.fields
  properties : AdviceWeaving.Told (r.flatMap Roster.propertiesPart.places)
    (Walk.MemberThere (·.properties) (∀ u ∈ us, u.KeepsProperties view) m) d.properties

/-- All types in `r` have been shown, and all members that are left in `r'`.  If the visitors `us` keep the fields,
those types have been shown with all fields that they had in the module `m`. -/
structure Covers (view : σ → Module) (us : List (Visitor σ)) (m : Module) (r r' : List Roster) (d : Sights) :
    Prop where
  types : d.types.map (·.key) = (r.map (·.id)).reverse
  methods : (r'.flatMap (·.methods)).reverse.Sublist (d.methods.map (·.key))
  fields : (r'.flatMap Roster.fieldsPart.owned).reverse.Sublist (d.fields.filterMap (Sight.member? (·.fields)))
  properties : (r'.flatMap Roster.propertiesPart.owned).reverse.Sublist
    (d.properties.filterMap (Sight.member? (·.properties)))
  fieldPlaces : (∀ u ∈ us, u.KeepsFields view) → ∀ t ∈ r'.map (·.id),
    ∀ n < (Walk.membersOf (·.fields) t m).length, (t, n) ∈ d.fields.map (·.key)
  propertyPlaces : (∀ u ∈ us, u.KeepsProperties view) → ∀ t ∈ r'.map (·.id),
    ∀ n < (Walk.membersOf (·.properties) t m).length, (t, n) ∈ d.properties.map (·.key)

private theorem Told.append (h : d.Told view us m r) (h' : d'.Told view us m r') :
    (d ++ d').Told view us m (r' ++ r) where
  types := List.map_append ▸ h.types.append h'.types
  methods := List.flatMap_append ▸ h.methods.append h'.methods
  fields := List.flatMap_append ▸ h.fields.append h'.fields
  properties := List.flatMap_append ▸ h.properties.append h'.properties

private theorem Told.mono (h : d.Told view us m r) (hr : r.Sublist r') : d.Told view us m r' where
  types := h.types.mono (hr.map _)
  methods := h.methods.mono (hr.flatMap _)
  fields := h.fields.mono (hr.flatMap _)
  properties := h.properties.mono (hr.flatMap _)

private theorem Covers.append (h : d.Covers view us m r r₁) (h' : d'.Covers view us m r' r₁') :
    (d ++ d').Covers view us m (r' ++ r) (r₁' ++ r₁) where
  types := by
    rw [types_append, List.map_append, h.types, h'.types, ← List.reverse_append, List.map_append]
  methods := by
    rw [methods_append, List.map_append, List.flatMap_append, List.reverse_append]
    exact h.methods.append h'.methods
  fields := by
    rw [fields_append, List.filterMap_append, List.flatMap_append, List.reverse_append]
    exact h.fields.append h'.fields
  properties := by
    rw [properties_append, List.filterMap_append, List.flatMap_append, List.reverse_append]
    exact h.properties.append h'.properties
  fieldPlaces := by
    intro hus t ht n hn
    rw [fields_append, List.map_append]
    rcases List.mem_append.1 (List.map_append ▸ ht) with ht | ht
    · exact List.mem_append_right _ (h'.fieldPlaces hus t ht n hn)
    · exact List.mem_append_left _ (h.fieldPlaces hus t ht n hn)
  propertyPlaces := by
    intro hus t ht n hn
    rw [properties_append, List.map_append]
    rcases List.mem_append.1 (List.map_append ▸ ht) with ht | ht
    · exact List.mem_append_right _ (h'.propertyPlaces hus t ht n hn)
    · exact List.mem_append_left _ (h.propertyPlaces hus t ht n hn)

private theorem Covers.mono (h : d.Covers view us m r r₁) (hr : r₁'.Sublist r₁) : d.Covers view us m r r₁' where
  types := h.types
  methods := (hr.flatMap _).reverse.trans h.methods
  fields := (hr.flatMap _).reverse.trans h.fields
  properties := (hr.flatMap _).reverse.trans h.properties
  fieldPlaces hus t ht := h.fieldPlaces hus t ((hr.map _).subset ht)
  propertyPlaces hus t ht := h.propertyPlaces hus t ((hr.map _).subset ht)

/-- Where no member is left, only the types are to be shown. -/
private theorem covers_types (h : d.types.map (·.key) = (r.map (·.id)).reverse) : d.Covers view us m r [] where
  types := h
  methods := List.nil_sublist _
  fields := List.nil_sublist _
  properties := List.nil_sublist _
  fieldPlaces _ _ ht := (List.not_mem_nil ht).elim
  propertyPlaces _ _ ht := (List.not_mem_nil ht).elim

end Sights

namespace Walk

open Step

variable {σ : Type} {view : σ → Module} {us ws : List (Visitor σ)} {v : Visitor σ} {s : σ} {c : Sights}
  {a b : List Roster} {e : Roster} {m : Module}

private theorem told_members {ms : List (Sight MethodId)} {fs ps : List (Sight (TypeId × Nat))}
    (hms : Told e.methods MethodThere ms)
    (hfs : Told (Roster.fieldsPart.places e) (MemberThere (·.fields) (∀ u ∈ us, u.KeepsFields view) m) fs)
    (hps : Told (Roster.propertiesPart.places e)
      (MemberThere (·.properties) (∀ u ∈ us, u.KeepsProperties view) m) ps) :
    Sights.Told view us m [e] ⟨[], ms, fs, ps⟩ where
  types := .nil
  methods := by simpa using hms
  fields := by simpa using hfs
  properties := by simpa using hps

private theorem mem_places {α : Type} {p : Roster.Part α} (hm : membersOf p.members e.id m = p.get e) {n : Nat}
    (hn : n < (membersOf p.members e.id m).length) : (e.id, n) ∈ p.places e := by
  rw [hm] at hn
  exact List.mem_map_of_mem (List.mem_range.2 hn)

private theorem isHook_onField (t : TypeId) (n : Nat) :
    IsHook view (·.onField t n) (·.onField t n) fun m c => c ++ { fields := [⟨(t, n), m⟩] } :=
  ⟨fun _ => rfl, fun _ => rfl⟩

private theorem isHook_onProperty (t : TypeId) (n : Nat) :
    IsHook view (·.onProperty t n) (·.onProperty t n) fun m c => c ++ { properties := [⟨(t, n), m⟩] } :=
  ⟨fun _ => rfl, fun _ => rfl⟩

private theorem ensures_visitMembers (hus : ∀ u ∈ us ++ v :: ws, u.Removes view)
    (hs : (view s).rosters = a ++ e :: b) (hd : Distinct (view s).rosters)
    (hm : ∀ {α : Type} (p : Roster.Part α), membersOf p.members e.id m = p.get e) :
    Ensures (do
        visitMethods (fun t => view t.1) (watching view us v ws) e.id
        visitPlaces (fun t => view t.1) (watching view us v ws) (·.fields) (·.onField e.id) e.id
        visitPlaces (fun t => view t.1) (watching view us v ws) (·.properties) (·.onProperty e.id) e.id) (s, c)
      (fun t => ∃ e' d, (view t.1).rosters = a ++ e' :: b ∧ Distinct (view t.1).rosters ∧ t.2 = c ++ d ∧
        d.types = [] ∧ d.Told view us m [e] ∧ d.Covers view us m [] [e'])
      fun t => ∃ d, t.2 = c ++ d ∧ d.types = [] ∧ d.Told view us m [e] := by
  refine ((ensures_visitMethods hus hs hd).imp (fun _ ht => ht) ?_).bind ?_
  · rintro ⟨s', c'⟩ ⟨ms, rfl, hms⟩
    exact ⟨⟨[], ms, [], []⟩, rfl, rfl, told_members hms .nil .nil⟩
  rintro ⟨s₁, c₁⟩ ⟨l₁, ms, hs₁, rfl, hms, hms'⟩
  have hfields := ensures_visitPlaces (p := Roster.fieldsPart) (e := Roster.methodsPart.set e l₁) (m := m)
    (c := c ++ { methods := ms }) (fun seen => { fields := seen }) (∀ u ∈ us, u.KeepsFields view) rfl (fun _ _ => rfl)
    (isHook_onField e.id) (fun u hu n => (hus u hu).onField e.id n) (fun h u hu => h u hu e.id)
    hs₁.rosters hs₁.distinct (hm Roster.fieldsPart)
  refine (hfields.imp (fun _ ht => ht) ?_).bind ?_
  · rintro ⟨s', c'⟩ ⟨fs, rfl, hfs⟩
    exact ⟨⟨[], ms, fs, []⟩, by ext1 <;> simp, rfl, told_members hms hfs .nil⟩
  rintro ⟨s₂, c₂⟩ ⟨l₂, fs, hs₂, rfl, hfs, hfs', hfs''⟩
  have hproperties := ensures_visitPlaces (p := Roster.propertiesPart)
    (e := Roster.fieldsPart.set (Roster.methodsPart.set e l₁) l₂) (m := m)
    (c := c ++ { methods := ms } ++ { fields := fs }) (fun seen => { properties := seen })
    (∀ u ∈ us, u.KeepsProperties view) rfl (fun _ _ => rfl)
    (isHook_onProperty e.id) (fun u hu n => (hus u hu).onProperty e.id n)
    (fun h u hu => h u hu e.id) hs₂.rosters hs₂.distinct (hm Roster.propertiesPart)
  refine hproperties.imp ?_ ?_
  · rintro ⟨s₃, c₃⟩ ⟨l₃, ps, hs₃, rfl, hps, hps', hps''⟩
    refine ⟨_, ⟨[], ms, fs, ps⟩, hs₃.rosters, hs₃.distinct, by ext1 <;> simp, rfl, told_members hms hfs hps, ?_⟩
    refine ⟨rfl, ?_, ?_, ?_, fun h t ht n hn => ?_, fun h t ht n hn => ?_⟩
    · rw [List.flatMap_singleton]
      exact hms'
    · rw [List.flatMap_singleton]
      exact hfs''
    · rw [List.flatMap_singleton]
      exact hps''
    · obtain rfl := List.mem_singleton.1 ht
      rw [hfs' h, List.mem_reverse]
      exact mem_places (p := Roster.fieldsPart) (hm Roster.fieldsPart) hn
    · obtain rfl := List.mem_singleton.1 ht
      rw [hps' h, List.mem_reverse]
      exact mem_places (p := Roster.propertiesPart) (hm Roster.propertiesPart) hn
  · rintro ⟨s', c'⟩ ⟨ps, rfl, hps⟩
    exact ⟨⟨[], ms, fs, ps⟩, by ext1 <;> simp, rfl, told_members hms hfs hps⟩

private theorem ensures_visitMembers_of_gone {t : TypeId} (h : t ∉ (view s).rosters.map (·.id)) :
    Ensures (do
        visitMethods (fun t => view t.1) (watching view us v ws) t
        visitPlaces (fun t => view t.1) (watching view us v ws) (·.fields) (·.onField t) t
        visitPlaces (fun t => view t.1) (watching view us v ws) (·.properties) (·.onProperty t) t) (s, c)
      (fun t => t = (s, c)) fun _ => False := by
  have hplaces {α : Type} (members : TypeDecl → List α)
      (visit : Visitor (σ × Sights) → Nat → Step (σ × Sights) Unit) :
      Ensures (visitPlaces (fun t => view t.1) (watching view us v ws) members visit t) (s, c)
        (fun t => t = (s, c)) fun _ => False := by
    refine ensures_get_bind ?_
    dsimp only
    rw [membersOf_eq_nil h]
    exact ensures_pure rfl
  have hmethods : Ensures (visitMethods (fun t => view t.1) (watching view us v ws) t) (s, c)
      (fun t => t = (s, c)) fun _ => False := by
    refine ensures_get_bind ?_
    dsimp only
    rw [membersOf_eq_nil h]
    exact ensures_pure rfl
  refine hmethods.bind ?_
  rintro _ rfl
  refine (hplaces _ _).bind ?_
  rintro _ rfl
  exact hplaces _ _

private theorem isHook_onType (t : TypeId) :
    IsHook view (·.onType t) (·.onType t) fun m c => c ++ { types := [⟨t, m⟩] } :=
  ⟨fun _ => rfl, fun _ => rfl⟩

private theorem ensures_onType {r : List Roster} {n : Nat} (hus : ∀ u ∈ us ++ v :: ws, u.Removes view)
    (hs : (view s).rosters = r) (hd : Distinct r) (he : r[n]? = some e) :
    Ensures ((watching view us v ws).forM (·.onType e.id)) (s, c)
      (fun t => ∃ x : Sight TypeId, x.key = e.id ∧ CutFrom n r (view t.1).rosters ∧ t.2 = c ++ { types := [x] } ∧
        Told [e.id] (TypeThere (∀ u ∈ us, u.KeepsTypes view)) [x])
      fun t => ∃ seen, t.2 = c ++ { types := seen } ∧
        Told [e.id] (TypeThere (∀ u ∈ us, u.KeepsTypes view)) seen := by
  let A (s : σ) : Prop := CutFrom n r (view s).rosters ∧
    ((∀ u ∈ us, u.KeepsTypes view) → (view s).rosters = r)
  have hcut : ∀ u ∈ us ++ v :: ws, ∀ s s', CutFrom n r (view s).rosters → Yields (u.onType e.id) s () s' →
      CutFrom n r (view s').rosters := by
    intro u hu s s' hs hy
    rcases (hus u hu).onType e.id s s' (hd.sublist hs.sublist) hy with heq | ⟨k, f, hf, hid, hcut⟩
    · rwa [heq]
    · exact hs.trans (hcut.anti (hs.le_of_key (·.id) hd.ids he hf hid))
  have htold {s₁ : σ} (hs₁ : A s₁) :
      Told [e.id] (TypeThere (∀ u ∈ us, u.KeepsTypes view)) [⟨e.id, view s₁⟩] := by
    refine ⟨.refl _, fun x hx hquiet => ?_⟩
    cases List.mem_singleton.1 hx
    rw [Option.isSome_iff_ne_none, Ne, Module.type?_eq_none_iff, hs₁.2 hquiet, not_not]
    exact List.mem_map_of_mem (List.mem_of_getElem? he)
  rw [forM_eq_inTurn view]
  refine (ensures_inTurn (A := A) (B := fun _ s => CutFrom n r (view s).rosters) (isHook_onType e.id) ?_ ?_ ?_
    ⟨hs ▸ .refl n r, fun _ => hs⟩).imp ?_ ?_
  · intro u hu s s' hs _ hy
    exact ⟨hcut u (List.mem_append_left _ hu) s s' hs.1 hy, fun hquiet =>
      (hquiet u hu e.id s s' hy).trans (hs.2 hquiet)⟩
  · intro s s' hs _ hy
    exact hcut v (List.mem_append_right _ List.mem_cons_self) s s' hs.1 hy
  · intro u hu _ s s' hs _ hy
    exact hcut u (List.mem_append_right _ (List.mem_cons_of_mem _ hu)) s s' hs hy
  · rintro ⟨s', c'⟩ (⟨-, habsent, -⟩ | ⟨s₁, hs₁, -, hs', rfl⟩)
    · cases habsent
    · exact ⟨⟨e.id, view s₁⟩, rfl, hs', rfl, htold hs₁⟩
  · rintro ⟨s', c'⟩ (rfl | ⟨s₁, hs₁, -, rfl⟩)
    · exact ⟨[], (Sights.append_empty c').symm, .nil⟩
    · exact ⟨_, rfl, htold hs₁⟩

/-- A visit to the type at the place `n`: its members have been shown, unless it has been removed before. -/
private theorem ensures_visitType {r : List Roster} {n : Nat} (hus : ∀ u ∈ us ++ v :: ws, u.Removes view)
    (hs : (view s).rosters = r) (hd : Distinct r) (he : r[n]? = some e)
    (hm : ∀ {α : Type} (p : Roster.Part α), membersOf p.members e.id m = p.get e) :
    Ensures (visitType (fun t => view t.1) (watching view us v ws) e.id) (s, c)
      (fun t => ∃ here rest d, (view t.1).rosters = r.take n ++ (here ++ rest) ∧ Distinct (view t.1).rosters ∧
        rest.Sublist (r.drop (n + 1)) ∧ t.2 = c ++ d ∧ d.Told view us m [e] ∧ d.Covers view us m [e] here)
      fun t => ∃ d, t.2 = c ++ d ∧ d.Told view us m [e] := by
  have htold {seen : List (Sight TypeId)} {d : Sights} (h : d.Told view us m [e]) (hd : d.types = [])
      (hseen : Told [e.id] (TypeThere (∀ u ∈ us, u.KeepsTypes view)) seen) :
      Sights.Told view us m [e] ({ types := seen } ++ d) :=
    ⟨by rw [Sights.types_append, hd, List.append_nil]; exact hseen, h.methods, h.fields, h.properties⟩
  have hempty : Sights.Told view us m [e] {} := ⟨.nil, .nil, .nil, .nil⟩
  refine ((ensures_onType hus hs hd he).imp (fun _ ht => ht) ?_).bind ?_
  · rintro ⟨s', c'⟩ ⟨seen, rfl, hseen⟩
    refine ⟨{ types := seen } ++ {}, ?_, htold hempty rfl hseen⟩
    rw [Sights.append_empty]
  rintro ⟨s₁, c₁⟩ ⟨x, hkey, hcut, rfl, hx⟩
  have hd₁ : Distinct (view s₁).rosters := hd.sublist hcut.sublist
  have htypes : Sights.Covers view us m [e] [] { types := [x] } :=
    Sights.covers_types (by rw [List.map_singleton, hkey]; rfl)
  rcases hcut.stays_or_goes he with hstays | hgoes
  · -- the type is still there
    have hrosters : (view s₁).rosters = r.take n ++ e :: (view s₁).rosters.drop (n + 1) := by
      rw [← hcut.1, ← drop_of_getElem? hstays, List.take_append_drop]
    have hrest : ((view s₁).rosters.drop (n + 1)).Sublist (r.drop (n + 1)) := by
      have hdrop := hcut.2
      rw [drop_of_getElem? hstays, drop_of_getElem? he] at hdrop
      exact List.Sublist.tail hdrop
    refine (ensures_visitMembers hus hrosters hd₁ hm).imp ?_ ?_
    · rintro ⟨s', c'⟩ ⟨e', d, hs', hd', rfl, htypes', hd, hcovers⟩
      exact ⟨[e'], _, _, hs', hd', hrest, Sights.append_assoc _ _ _, htold hd htypes' hx, htypes.append hcovers⟩
    · rintro ⟨s', c'⟩ ⟨d, rfl, htypes', hd⟩
      exact ⟨_, Sights.append_assoc _ _ _, htold hd htypes' hx⟩
  · -- the type has been removed, and its members with it
    have hgone : e.id ∉ (view s₁).rosters.map (·.id) := hcut.not_mem_of_goes (·.id) hd.ids he hgoes
    refine (ensures_visitMembers_of_gone hgone).imp ?_ fun _ ht => ht.elim
    rintro _ rfl
    refine ⟨[], (view s₁).rosters.drop n, _, ?_, hd₁, hgoes, rfl, ?_, htypes⟩
    · rw [← hcut.1, List.nil_append, List.take_append_drop]
    · have htold := htold hempty rfl hx
      rwa [Sights.append_empty] at htold

private theorem ensures_countdown_types {r₀ r : List Roster} {n : Nat} {d : Sights}
    (hus : ∀ u ∈ us ++ v :: ws, u.Removes view)
    (hm : ∀ e ∈ r₀, ∀ {α : Type} (p : Roster.Part α), membersOf p.members e.id m = p.get e)
    (hs : (view s).rosters = r) (hd : Distinct r) (hn : n ≤ r₀.length) (hr : r.take n = r₀.take n)
    (htold : d.Told view us m (r₀.drop n)) (hcovers : d.Covers view us m (r₀.drop n) (r.drop n)) :
    Ensures (countdown (fun index => do
        match (view (← get).1).types[index]? with
        | none => pure ()
        | some t => visitType (fun t => view t.1) (watching view us v ws) t.id) n) (s, d)
      (fun t => t.2.Told view us m r₀ ∧ t.2.Covers view us m r₀ (view t.1).rosters)
      fun t => t.2.Told view us m r₀ := by
  induction n generalizing s r d with
  | zero => exact ensures_pure ⟨htold, hs ▸ hcovers⟩
  | succ n ih =>
    have he₀ : r₀[n]? = some r₀[n] := List.getElem?_eq_getElem hn
    have he : r[n]? = some r₀[n] := (getElem?_of_take_succ hr).trans he₀
    have hdrop : r₀.drop n = [r₀[n]] ++ r₀.drop (n + 1) := drop_of_getElem? he₀
    have hplace := he
    rw [← hs, Module.rosters, List.getElem?_map, Option.map_eq_some_iff] at hplace
    obtain ⟨t, ht, hroster⟩ := hplace
    refine Ensures.bind (P := fun t' => ∃ here rest d', (view t'.1).rosters = r.take n ++ (here ++ rest) ∧
      Distinct (view t'.1).rosters ∧ rest.Sublist (r.drop (n + 1)) ∧ t'.2 = d ++ d' ∧
      d'.Told view us m [r₀[n]] ∧ d'.Covers view us m [r₀[n]] here) (ensures_get_bind ?_) ?_
    · have hid : t.id = r₀[n].id := congrArg Roster.id hroster
      dsimp only
      rw [ht]
      dsimp only
      rw [hid]
      refine (ensures_visitType hus hs hd he (hm _ (List.getElem_mem hn))).imp (fun _ ht => ht) ?_
      rintro ⟨s', c'⟩ ⟨d', rfl, hd'⟩
      exact (htold.append hd').mono (hdrop ▸ List.drop_sublist n r₀)
    · rintro ⟨s', c'⟩ ⟨here, rest, d', hs', hdistinct, hrest, rfl, htold', hcovers'⟩
      have hlength : (r.take n).length = n := by
        rw [List.length_take, Nat.min_eq_left (Nat.le_of_lt (List.getElem?_eq_some_iff.1 he).1)]
      refine ih rfl hdistinct (Nat.le_of_succ_le hn) ?_ ?_ ?_
      · rw [hs', List.take_append_of_le_length (Nat.le_of_eq hlength.symm), List.take_take, Nat.min_self]
        exact take_of_take_succ hr
      · exact hdrop ▸ htold.append htold'
      · rw [hdrop, hs', List.drop_append_of_le_length (Nat.le_of_eq hlength.symm), List.drop_take, Nat.sub_self,
          List.take_zero, List.nil_append]
        exact (hcovers.mono hrest).append hcovers'

/-- In a walk over types without repeated identifiers. -/
private theorem ensures_visitTypes (hus : ∀ u ∈ us ++ v :: ws, u.Removes view) (hd : Distinct m.rosters)
    (hs : (view s).rosters = m.rosters) :
    Ensures (visitTypes (fun t => view t.1) (watching view us v ws)) (s, {})
      (fun t => t.2.Told view us m m.rosters ∧ t.2.Covers view us m m.rosters (view t.1).rosters)
      fun t => t.2.Told view us m m.rosters := by
  refine ensures_get_bind ?_
  have hlength : (view s).types.length = m.rosters.length := by
    rw [← hs, Module.rosters, List.length_map]
  have hempty : Sights.Told view us m [] {} := ⟨.nil, .nil, .nil, .nil⟩
  have hcovers : Sights.Covers view us m [] [] {} := Sights.covers_types rfl
  dsimp only
  rw [hlength]
  refine ensures_countdown_types hus (fun e he α p => ?_) hs hd (Nat.le_refl _) rfl ?_ ?_
  · obtain ⟨a, b, hab⟩ := List.append_of_mem he
    exact membersOf_eq_get hd hab
  · rwa [List.drop_length]
  · rwa [List.drop_length]

/-! ### Walks -/

/-- What is done before and after the types have been visited keeps them, and is not written down. -/
private theorem ensures_forM {hook : Visitor σ → Step σ Unit}
    {visit : Visitor (σ × Sights) → Step (σ × Sights) Unit}
    (hunwatched : ∀ u, visit u.unwatched = (hook u).onPart Prod.fst fun s t => (s, t.2))
    (hwatched : visit (v.watched view) = visit v.unwatched)
    (hkeeps : ∀ u ∈ us ++ v :: ws, ∀ s s', Yields (hook u) s () s' → (view s').rosters = (view s).rosters) :
    Ensures ((watching view us v ws).forM visit) (s, c)
      (fun t => (view t.1).rosters = (view s).rosters ∧ t.2 = c) fun t => t.2 = c := by
  have hforM (vs : List (Visitor σ)) (hvs : ∀ u ∈ vs, u ∈ us ++ v :: ws) (s : σ) :
      Ensures ((vs.map (·.unwatched)).forM visit) (s, c)
        (fun t => (view t.1).rosters = (view s).rosters ∧ t.2 = c) fun t => t.2 = c := by
    induction vs generalizing s with
    | nil => exact ensures_pure ⟨rfl, rfl⟩
    | cons u vs ih =>
      show Ensures (visit u.unwatched >>= fun _ => _) _ _ _
      rw [hunwatched]
      refine (ensures_onPart fun s' hy => hkeeps u (hvs u List.mem_cons_self) s s' hy).bind ?_
      rintro ⟨s', c'⟩ ⟨hs', rfl⟩
      dsimp only at hs'
      rw [← hs']
      exact ih (fun u hu => hvs u (List.mem_cons_of_mem _ hu)) s'
  have heq (vs : List (Visitor σ)) : (vs.map (·.unwatched) ++ v.watched view :: ws.map (·.unwatched)).forM visit =
      ((vs ++ v :: ws).map (·.unwatched)).forM visit := by
    induction vs with
    | nil =>
      show (visit _ >>= fun _ => _) = (visit _ >>= fun _ => _)
      rw [hwatched]
    | cons u vs ih =>
      exact congrArg (fun rest => visit u.unwatched >>= fun _ => rest) ih
  rw [watching, heq us]
  exact hforM _ (fun _ hu => hu) s

variable (view us ws v) in
/-- To watch a visitor does not change what a walk does. -/
private theorem matches_watching : Matches (fun s (t : σ × Sights) => t.1 = s) (walk view (us ++ v :: ws))
    (walk (fun t => view t.1) (watching view us v ws)) := by
  have hpart (x : Step σ Unit) : Matches (fun s (t : σ × Sights) => t.1 = s) x
      (x.onPart Prod.fst fun s t => (s, t.2)) := by
    rintro s t rfl
    exact ⟨rfl, rfl⟩
  have hnoting {x : Step σ Unit} {y : Step (σ × Sights) Unit} (note : Module → Sights → Sights)
      (h : Matches (fun s (t : σ × Sights) => t.1 = s) x y) :
      Matches (fun s (t : σ × Sights) => t.1 = s) x (y.noting view note) := by
    rintro s t rfl
    exact h t.1 (t.1, note (view t.1) t.2) rfl
  have hunwatched (u : Visitor σ) : Visitor.Matches (fun s (t : σ × Sights) => t.1 = s) u u.unwatched :=
    ⟨hpart _, hpart _, fun _ => hpart _, fun _ => hpart _, fun _ _ => hpart _, fun _ _ => hpart _, hpart _⟩
  have hwatched : Visitor.Matches (fun s (t : σ × Sights) => t.1 = s) v (v.watched view) :=
    ⟨hpart _, hpart _, fun _ => hnoting _ (hpart _), fun _ => hnoting _ (hpart _),
      fun _ _ => hnoting _ (hpart _), fun _ _ => hnoting _ (hpart _), hpart _⟩
  have hall (vs : List (Visitor σ)) : List.Forall₂ (Visitor.Matches fun s (t : σ × Sights) => t.1 = s) vs
      (vs.map (·.unwatched)) :=
    List.forall₂_map_right_iff.2 (List.forall₂_same.2 fun u _ => hunwatched u)
  refine matches_walk_of_visitors (fun s t hst => ?_) ?_
  · rw [hst]
    exact .refl _
  · exact List.rel_append (hall us) (.cons hwatched (hall ws))

/-- What the visitor between `us` and `ws` is shown in a walk. -/
def shownTo (view : σ → Module) (us : List (Visitor σ)) (v : Visitor σ) (ws : List (Visitor σ)) (s : σ) : Sights :=
  ((walk (fun t => view t.1) (watching view us v ws)).run (s, {})).2.2

private theorem ensures_walk (hus : ∀ u ∈ us ++ v :: ws, u.Removes view) (hd : Distinct (view s).rosters) :
    Ensures (walk (fun t => view t.1) (watching view us v ws)) (s, {})
      (fun t => t.2.Told view us (view s) (view s).rosters ∧
        t.2.Covers view us (view s) (view s).rosters (view t.1).rosters)
      fun t => t.2.Told view us (view s) (view s).rosters := by
  have hempty : Sights.Told view us (view s) (view s).rosters {} := ⟨.nil, .nil, .nil, .nil⟩
  refine ((ensures_forM (fun _ => rfl) rfl fun u hu => (hus u hu).before).imp (fun _ ht => ht) ?_).bind ?_
  · rintro ⟨s', c'⟩ rfl
    exact hempty
  rintro ⟨s₁, c₁⟩ ⟨hs₁, rfl⟩
  refine ((ensures_forM (fun _ => rfl) rfl fun u hu => (hus u hu).onModule).imp (fun _ ht => ht) ?_).bind ?_
  · rintro ⟨s', c'⟩ rfl
    exact hempty
  rintro ⟨s₂, c₂⟩ ⟨hs₂, rfl⟩
  refine (ensures_visitTypes hus hd (hs₂.trans hs₁)).bind ?_
  rintro ⟨s₃, c₃⟩ ⟨htold, hcovers⟩
  refine (ensures_forM (fun _ => rfl) rfl fun u hu => (hus u hu).complete).imp ?_ ?_
  · rintro ⟨s₄, c₄⟩ ⟨hs₄, rfl⟩
    exact ⟨htold, hs₄ ▸ hcovers⟩
  · rintro ⟨s₄, c₄⟩ rfl
    exact htold

/-- All visitors of a walk may remove what they are shown, or what stands behind it.  Then each of them is shown every
type once, and every method that is left at the end; a method that is gone it is not shown, and none twice.  It is
shown every field and every property that is left, and no place twice.  If the visitors in front of it do not remove
types, fields or properties, then each type that it is shown is there, and each field or property that it is shown is
the one that was at that place at first; of the types that are left it is shown all of them.  If the walk fails, all
that has been shown up to then has been shown in this way. -/
theorem shown_once (numbered : (view s).Numbered) (removes : ∀ u ∈ us ++ v :: ws, u.Removes view) :
    ((walk (fun t => view t.1) (watching view us v ws)).run (s, {}) =
      (((walk view (us ++ v :: ws)).run s).1, ((walk view (us ++ v :: ws)).run s).2, shownTo view us v ws s)) ∧
    (shownTo view us v ws s).Told view us (view s) (view s).rosters ∧
    ∀ s', Yields (walk view (us ++ v :: ws)) s () s' →
      (shownTo view us v ws s).Covers view us (view s) (view s).rosters (view s').rosters := by
  have hmatch := matches_watching view us ws v s (s, {}) rfl
  obtain ⟨hresult, hstate⟩ := hmatch
  have hensures := ensures_walk removes numbered.distinct
  rcases hrun : (walk (fun t => view t.1) (watching view us v ws)).run (s, {}) with ⟨result, s', c⟩
  rw [hrun] at hresult hstate
  obtain rfl : result = _ := hresult
  obtain rfl : s' = _ := hstate
  have hshown : shownTo view us v ws s = c := by rw [shownTo, hrun]
  rw [hshown]
  refine ⟨hrun, ?_, fun s' hy => ?_⟩
  · rcases hwalk : (walk view (us ++ v :: ws)).run s with ⟨failure | u, s'⟩
    · rw [hwalk] at hrun
      exact hensures.2 failure _ hrun
    · rw [hwalk] at hrun
      exact (hensures.1 _ hrun).1
  · rw [show (walk view (us ++ v :: ws)).run s = (.ok (), s') from hy] at hrun
    exact (hensures.1 _ hrun).2

end Walk

namespace Sample

def firstField : Field where
  name := "x"
  type := .int32

def secondField : Field where
  name := "y"
  type := .int32

/-- A type with two fields, and one without. -/
def twoTypes : Module where
  name := "m"
  types := [{ id := ⟨0⟩, name := "C", fields := [firstField, secondField] }, { id := ⟨1⟩, name := "D" }]
  ids := ⟨2, 0⟩

/-- A visitor that removes the type with the identifier 1, and what stands behind it, and the first field of each
type. -/
def remover : Visitor Module where
  name := "remover"
  onType t := modify fun m => { m with types := m.types.takeWhile fun d => t ≠ ⟨1⟩ ∨ d.id ≠ t }
  onField t n := modify fun m =>
    { m with types := m.types.map fun d =>
        if n = 0 ∧ d.id = t then { d with fields := d.fields.drop 1 } else d }

/-- A visitor that does nothing. -/
def onlooker : Visitor Module where
  name := "onlooker"

private theorem removes_onlooker : onlooker.Removes id := by
  have hpure {m m' : Module} (h : Step.Yields (pure () : Step Module Unit) m () m') :
      (id m').rosters = (id m).rosters := by
    rw [(Step.yields_pure.1 h).2]
  exact ⟨fun _ _ => hpure, fun _ _ => hpure, fun _ _ _ _ h => .inl (hpure h), fun _ _ _ _ h => .inl (hpure h),
    fun _ _ _ _ _ h => .inl (hpure h), fun _ _ _ _ _ h => .inl (hpure h), fun _ _ => hpure⟩

private theorem removesType_takeWhile (t : TypeId) (p : TypeDecl → Bool) (m : Module)
    (hp : ∀ d, p d = false → d.id = t) :
    RemovesType t m.rosters (m.types.takeWhile p |>.map (·.roster)) := by
  have hsplit : m.types = m.types.takeWhile p ++ m.types.dropWhile p := List.takeWhile_append_dropWhile.symm
  cases hrest : m.types.dropWhile p with
  | nil =>
    rw [hrest, List.append_nil] at hsplit
    exact .inl (by rw [← hsplit]; rfl)
  | cons d rest =>
    have hd : p d = false := by
      have hhead := List.head?_dropWhile_not p m.types
      rw [hrest] at hhead
      simpa using hhead
    have hrosters : m.rosters = (m.types.takeWhile p).map (·.roster) ++ d.roster :: rest.map (·.roster) := by
      rw [← List.map_cons, ← List.map_append, ← hrest, List.takeWhile_append_dropWhile]
      rfl
    rw [hrosters]
    refine .inr ⟨_, d.roster, ?_, hp d hd, cutFrom_append _ _⟩
    rw [List.getElem?_append_right (Nat.le_refl _), Nat.sub_self]
    rfl

private theorem removesMember_drop (t : TypeId) {r : List Roster} (hd : Distinct r) :
    RemovesMember Roster.fieldsPart t 0 r
      (r.map fun e => if e.id = t then Roster.fieldsPart.set e (e.fields.drop 1) else e) := by
  have hkeep {r' : List Roster} (h : t ∉ r'.map (·.id)) :
      (r'.map fun e => if e.id = t then Roster.fieldsPart.set e (e.fields.drop 1) else e) = r' := by
    refine (List.map_congr_left fun e he => if_neg fun hid => h ?_).trans (List.map_id' r')
    exact hid ▸ List.mem_map_of_mem he
  by_cases ht : t ∈ r.map (·.id)
  · obtain ⟨e, he, rfl⟩ := List.mem_map.1 ht
    obtain ⟨a, b, rfl⟩ := List.append_of_mem he
    have hids := hd.ids
    rw [List.map_append, List.map_cons, List.nodup_append', List.nodup_cons] at hids
    refine .inr ⟨a, e, b, e.fields.drop 1, rfl, rfl, ⟨rfl, List.drop_sublist 1 _⟩, ?_⟩
    rw [List.map_append, List.map_cons, hkeep fun h => hids.2.2 h List.mem_cons_self, hkeep hids.2.1.1, if_pos rfl]
  · exact .inl (hkeep ht)

private theorem removes_remover : remover.Removes id where
  before _ _ h := by rw [(Step.yields_pure.1 h).2]
  onModule _ _ h := by rw [(Step.yields_pure.1 h).2]
  onType t m m' _ h := by
    rw [Step.yields_modify.1 h]
    exact removesType_takeWhile t _ m fun d hd => by simpa using (by simpa using hd : _ ∧ _).2
  onMethod _ _ _ _ h := .inl (by rw [(Step.yields_pure.1 h).2])
  onField t n m m' hd h := by
    rw [Step.yields_modify.1 h]
    cases n with
    | zero =>
      refine (congrArg (RemovesMember Roster.fieldsPart t 0 m.rosters) ?_).mp (removesMember_drop t hd)
      simp only [id, Module.rosters, List.map_map, true_and]
      refine List.map_congr_left fun d _ => ?_
      by_cases hid : d.id = t
      · simp [hid, TypeDecl.roster, Roster.fieldsPart]
      · simp [hid, TypeDecl.roster]
    | succ n => exact .inl (by simp [Module.rosters])
  onProperty _ _ _ _ _ h := .inl (by rw [(Step.yields_pure.1 h).2])
  complete _ _ h := by rw [(Step.yields_pure.1 h).2]

private theorem numbered_twoTypes : twoTypes.Numbered := by
  refine ⟨by decide, by decide, fun t ht => ?_, fun id hid => ?_⟩
  · simp only [twoTypes, List.mem_cons, List.not_mem_nil, or_false] at ht
    rcases ht with rfl | rfl
    · exact Nat.zero_lt_two
    · exact Nat.one_lt_two
  · cases hid

end Sample

/-- The onlooker is shown the type 1, which the remover has just removed, and the second field of the type 0 twice: at
its own place, and then at that of the first field, which the remover has just removed. -/
theorem Walk.shown_once_sample :
    Sample.twoTypes.Numbered ∧ (∀ u ∈ [Sample.remover] ++ Sample.onlooker :: [], u.Removes id) ∧
    (∃ shown : Sights,
      shown.Told id [Sample.remover] Sample.twoTypes Sample.twoTypes.rosters ∧
      (shown.types.map fun x => (x.key, (x.module.type? x.key).isSome)) = [(⟨1⟩, false), (⟨0⟩, true)] ∧
      shown.fields.map (fun x => (x.key, x.member? (·.fields))) =
        [((⟨0⟩, 1), some (⟨0⟩, Sample.secondField)), ((⟨0⟩, 0), some (⟨0⟩, Sample.secondField))]) := by
  have hremoves : ∀ u ∈ [Sample.remover] ++ Sample.onlooker :: [], u.Removes id := by
    intro u hu
    simp only [List.cons_append, List.nil_append, List.mem_cons, List.not_mem_nil, or_false] at hu
    rcases hu with rfl | rfl
    · exact Sample.removes_remover
    · exact Sample.removes_onlooker
  have hnumbered : (id Sample.twoTypes).Numbered := Sample.numbered_twoTypes
  have hshown := Walk.shown_once hnumbered hremoves
  exact ⟨Sample.numbered_twoTypes, hremoves, Walk.shownTo id [Sample.remover] Sample.onlooker [] Sample.twoTypes,
    hshown.2.1, rfl, rfl⟩

end AdviceWeaving
