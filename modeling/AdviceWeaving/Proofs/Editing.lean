import AdviceWeaving.Proofs.Profiles
import Mathlib.Data.List.Flatten

/-!
# Identifiers while a module is edited

A module is new, or read from text or JSON, and then edited: types and methods are appended or taken out, and all of
it may be numbered anew (`Edit`).  Whatever is done, and in whatever order, the module stays numbered
(`Module.Numbered.run`), since an identifier that is given out has not been borne before, and to take something out
leaves the identifiers of the rest.  So an identifier stands for one type or one method, and goes on standing for it
when a method is appended elsewhere, even in the midst of the methods of the module
(`Module.ids_unique_and_stable`).
-/

namespace AdviceWeaving

/-- What a user of a module may do to its types and methods. -/
inductive Edit
  | pushType (t : TypeDecl)
  | pushMethod (owner : TypeId) (x : Method)
  | assignIds
  /-- Take out the type at a place. -/
  | removeType (place : Nat)
  /-- Take out the method at a place, of the type at a place. -/
  | removeMethod (typePlace place : Nat)
  deriving DecidableEq, Inhabited

namespace Edit

/-- The module after an edit.  To append a method to a type that is gone does nothing. -/
def apply (m : Module) : Edit → Module
  | pushType t => (m.pushType t).1
  | pushMethod owner x => ((m.pushMethod owner x).map (·.1)).getD m
  | assignIds => m.assignIds
  | removeType place => { m with types := m.types.eraseIdx place }
  | removeMethod typePlace place =>
    { m with types := m.types.modify typePlace fun t => { t with methods := t.methods.eraseIdx place } }

/-- The module after edits, one after another. -/
def run (m : Module) (edits : List Edit) : Module :=
  edits.foldl apply m

/-- How many identifiers an edit gives out. -/
def allocations (m : Module) : Edit → Nat
  | pushType t => 1 + t.methods.length
  | pushMethod owner _ => if (m.type? owner).isSome then 1 else 0
  | assignIds => m.types.length + (methodIds m.types).length
  | removeType _ | removeMethod .. => 0

/-- How many identifiers edits give out, one after another. -/
def totalAllocations (m : Module) : List Edit → Nat
  | [] => 0
  | e :: edits => e.allocations m + totalAllocations (e.apply m) edits

end Edit

/-- How many identifiers a supply has given out. -/
def IdSupply.count (ids : IdSupply) : Nat :=
  ids.nextType + ids.nextMethod

/-- The type with one more method at the end. -/
def TypeDecl.push (t : TypeDecl) (x : Method) : TypeDecl :=
  { t with methods := t.methods ++ [x] }

namespace Module

/-- Where a module comes from before it is edited. -/
inductive Made : Module → Prop
  | new (name : String) : Made { name }
  | text {source : String} {m : Module} (parsed : (parse source).module? = some m) : Made m
  | json {source : String} {m : Module} (decoded : ofJson source = .ok m) : Made m

variable {m : Module}

private theorem Made.numbered (h : m.Made) : m.Numbered := by
  cases h with
  | new name => exact numbered_empty name
  | text hparsed =>
    obtain ⟨name, types, rfl⟩ := exists_ofTypes_of_parse hparsed
    exact numbered_ofTypes name types
  | @json source _ hdecoded =>
    have hdecode : Encoding.json.decode source = .ok m := by
      rw [Encoding.decode, hdecoded]
      rfl
    exact numbered_of_decode hdecode

/-! ### One edit -/

private theorem methodIds_sublist {types types' : List TypeDecl} (h : types'.Sublist types) :
    (methodIds types').Sublist (methodIds types) := by
  rw [methodIds, methodIds, List.flatMap_def, List.flatMap_def]
  exact (h.map _).flatten

private theorem methodIds_modify_sublist {f : TypeDecl → TypeDecl} (hf : ∀ t, (f t).methods.Sublist t.methods)
    (types : List TypeDecl) (place : Nat) : (methodIds (types.modify place f)).Sublist (methodIds types) := by
  induction types generalizing place with
  | nil => simp
  | cons t types ih =>
    cases place with
    | zero => exact ((hf t).map _).append (.refl _)
    | succ place => exact (List.Sublist.refl _).append (ih place)

private theorem map_id_modify {f : TypeDecl → TypeDecl} (hf : ∀ t, (f t).id = t.id) (types : List TypeDecl)
    (place : Nat) :
    (types.modify place f).map (·.id) = types.map (·.id) := by
  induction types generalizing place with
  | nil => simp
  | cons t types ih =>
    cases place with
    | zero => simp [hf]
    | succ place => exact congrArg (t.id :: ·) (ih place)

private theorem Numbered.apply (h : m.Numbered) (e : Edit) : (e.apply m).Numbered := by
  cases e with
  | pushType t => exact h.append_numberTypes [t]
  | pushMethod owner x =>
    cases howner : m.type? owner with
    | none => simpa [Edit.apply, Module.pushMethod, howner] using h
    | some t =>
      obtain ⟨m', hpush, hnumbered, -⟩ := h.exists_pushMethod howner x
      simpa [Edit.apply, hpush] using hnumbered
  | assignIds => exact numbered_ofTypes m.name m.types
  | removeType place =>
    have hsublist := List.eraseIdx_sublist m.types place
    exact h.of_sublist (hsublist.map _) (methodIds_sublist hsublist) rfl
  | removeMethod typePlace place =>
    have hids := map_id_modify (f := fun t => { t with methods := t.methods.eraseIdx place }) (fun _ => rfl)
      m.types typePlace
    exact h.of_sublist (by rw [← hids]; rfl) (methodIds_modify_sublist (fun t => List.eraseIdx_sublist ..) ..) rfl

/-- A supply counts what it gives out. -/
private theorem count_apply_le (m : Module) (e : Edit) :
    (e.apply m).ids.count ≤ m.ids.count + e.allocations m := by
  cases e with
  | pushType t =>
    obtain ⟨-, -, hids⟩ := ids_numberTypes m.ids [t]
    have hids : ((Edit.pushType t).apply m).ids = ⟨m.ids.nextType + 1, m.ids.nextMethod + t.methods.length⟩ :=
      hids.trans (by simp [methodIds])
    simp only [hids, IdSupply.count, Edit.allocations]
    omega
  | pushMethod owner x =>
    simp only [Edit.apply, pushMethod, Edit.allocations]
    split
    · exact Nat.le_of_eq (Nat.add_assoc ..).symm
    · exact Nat.le_refl _
  | assignIds =>
    obtain ⟨-, -, hids⟩ := ids_numberTypes {} m.types
    have hids : (Edit.assignIds.apply m).ids = ⟨m.types.length, (methodIds m.types).length⟩ :=
      hids.trans (by simp)
    simp only [hids, IdSupply.count, Edit.allocations]
    omega
  | removeType | removeMethod => exact Nat.le_add_right ..

/-! ### Edits in a row -/

theorem Numbered.run (h : m.Numbered) (edits : List Edit) : (Edit.run m edits).Numbered := by
  induction edits generalizing m with
  | nil => exact h
  | cons e edits ih => exact ih (h.apply e)

private theorem count_run_le (m : Module) (edits : List Edit) :
    (Edit.run m edits).ids.count ≤ m.ids.count + Edit.totalAllocations m edits := by
  induction edits generalizing m with
  | nil => exact Nat.le_refl _
  | cons e edits ih =>
    have hstep := count_apply_le m e
    have hrest := ih (e.apply m)
    simp only [Edit.run, List.foldl_cons, Edit.totalAllocations] at hrest ⊢
    omega

/-! ### A method that is appended -/

private theorem Numbered.type?_of_mem (h : m.Numbered) {t : TypeDecl} (ht : t ∈ m.types) : m.type? t.id = some t :=
  h.type?_eq_some_iff.2 ⟨ht, rfl⟩

/-- To append a method to a type that is gone changes nothing. -/
private theorem pushMethod_of_type?_eq_none {owner : TypeId} (h : m.type? owner = none) (x : Method) :
    m.pushMethod owner x = none := by
  rw [pushMethod, if_neg (by simp [h])]

section

variable {owner : TypeId} {x : Method} {pushed : Module} {id : MethodId}

/-- A method is appended with the next identifier, to a type that is there. -/
private theorem Numbered.pushMethod_eq_some (h : m.Numbered) (hpush : m.pushMethod owner x = some (pushed, id)) :
    id = ⟨m.ids.nextMethod⟩ ∧ pushed.Numbered ∧
      ∃ t, m.type? owner = some t ∧ pushed.type? owner = some (t.push { x with id }) ∧
        ∀ k, k ≠ owner → pushed.type? k = m.type? k := by
  cases howner : m.type? owner with
  | none =>
    rw [pushMethod_of_type?_eq_none howner] at hpush
    cases hpush
  | some t =>
    obtain ⟨m', hpush', hnumbered, -, -, -, hself, hother⟩ := h.exists_pushMethod howner x
    rw [hpush'] at hpush
    cases hpush
    exact ⟨rfl, hnumbered, t, rfl, hself, hother⟩

private theorem Numbered.method?_eq_none (h : m.Numbered) : m.method? ⟨m.ids.nextMethod⟩ = none := by
  rw [Option.eq_none_iff_forall_ne_some]
  rintro ⟨t, y⟩ hfound
  obtain ⟨hmem, hid⟩ := h.method?_eq_some_iff.1 hfound
  obtain ⟨ht, hy⟩ := mem_methods.1 hmem
  have hlt := h.methods_lt y.id (mem_methodIds.2 ⟨t, ht, y, hy, rfl⟩)
  rw [hid] at hlt
  exact Nat.lt_irrefl _ hlt

/-- The identifier of a type goes on standing for it; only the type that gets the method has one more. -/
private theorem Numbered.type?_pushMethod (h : m.Numbered) (hpush : m.pushMethod owner x = some (pushed, id))
    (k : TypeId) :
    pushed.type? k = (m.type? k).map fun t => if t.id = owner then t.push { x with id } else t := by
  obtain ⟨-, -, t, ht, hself, hother⟩ := h.pushMethod_eq_some hpush
  by_cases hk : k = owner
  · rw [hk, hself, ht, Option.map_some, if_pos (id_of_type? ht)]
  · rw [hother k hk]
    cases hfound : m.type? k with
    | none => rfl
    | some t' => rw [Option.map_some, if_neg (id_of_type? hfound ▸ hk)]

/-- The identifier of a method goes on standing for it, in the type where it was. -/
private theorem Numbered.method?_pushMethod (h : m.Numbered) (hpush : m.pushMethod owner x = some (pushed, id))
    {k : MethodId} {t : TypeDecl} {y : Method} (hk : m.method? k = some (t, y)) :
    pushed.method? k = some (if t.id = owner then t.push { x with id } else t, y) := by
  obtain ⟨-, hnumbered, -⟩ := h.pushMethod_eq_some hpush
  obtain ⟨hmem, hid⟩ := h.method?_eq_some_iff.1 hk
  obtain ⟨ht, hy⟩ := mem_methods.1 hmem
  have htype : pushed.type? t.id = some (if t.id = owner then t.push { x with id } else t) := by
    rw [h.type?_pushMethod hpush, h.type?_of_mem ht, Option.map_some]
  refine hnumbered.method?_eq_some_iff.2 ⟨mem_methods.2 ⟨(hnumbered.type?_eq_some_iff.1 htype).1, ?_⟩, hid⟩
  split
  · exact List.mem_append_left _ hy
  · exact hy

/-- The new identifier stands for the method, at the end of the type. -/
private theorem Numbered.method?_pushMethod_self (h : m.Numbered) (hpush : m.pushMethod owner x = some (pushed, id))
    {t : TypeDecl} (ht : m.type? owner = some t) :
    pushed.method? id = some (t.push { x with id }, { x with id }) := by
  obtain ⟨-, hnumbered, t', ht', hself, -⟩ := h.pushMethod_eq_some hpush
  cases ht.symm.trans ht'
  exact hnumbered.method?_eq_some_iff.2
    ⟨mem_methods.2 ⟨(hnumbered.type?_eq_some_iff.1 hself).1, List.mem_append_right _ (List.mem_singleton.2 rfl)⟩, rfl⟩

/-- To change what the new identifier stands for is to change the last method of the type, and nothing else. -/
private theorem Numbered.updateMethod_pushMethod_self (h : m.Numbered)
    (hpush : m.pushMethod owner x = some (pushed, id))
    {t : TypeDecl} (ht : m.type? owner = some t) (f : Method → Method) :
    pushed.updateMethod id f = pushed.updateType owner fun _ => t.push (f { x with id }) := by
  obtain ⟨hid, hnumbered, t', ht', hself, -⟩ := h.pushMethod_eq_some hpush
  cases ht.symm.trans ht'
  have hother : ∀ t₀ ∈ pushed.types, ∀ y ∈ t₀.methods, y.id = id → t₀ = t.push { x with id } := by
    intro t₀ ht₀ y hy hyid
    have hfound := hnumbered.method?_eq_some_iff.2 ⟨mem_methods.2 ⟨ht₀, hy⟩, hyid⟩
    rw [h.method?_pushMethod_self hpush ht] at hfound
    cases hfound
    rfl
  have hold : ∀ y ∈ t.methods, y.id ≠ id := by
    intro y hy hyid
    have hfound := h.method?_eq_some_iff.2 ⟨mem_methods.2 ⟨(h.type?_eq_some_iff.1 ht).1, hy⟩, hyid⟩
    rw [hid, h.method?_eq_none] at hfound
    cases hfound
  have hkeep : ∀ ys : List Method, (∀ y ∈ ys, y.id ≠ id) → (ys.map fun y => if y.id = id then f y else y) = ys :=
    fun ys hys => (List.map_congr_left fun y hy => if_neg (hys y hy)).trans (List.map_id' ys)
  rw [hnumbered.updateMethod_eq, hnumbered.updateType_eq, Module.mapMethods]
  refine congrArg (fun types => { pushed with types }) (List.map_congr_left fun t₀ ht₀ => ?_)
  by_cases howner : t₀.id = owner
  · have htype := hnumbered.type?_of_mem ht₀
    rw [howner, hself] at htype
    cases htype
    rw [if_pos howner]
    simp only [TypeDecl.push, List.map_append, hkeep t.methods hold, List.map_cons, List.map_nil, if_true]
  · rw [if_neg howner, hkeep t₀.methods fun y hy hyid => howner ?_]
    rw [hother t₀ ht₀ y hy hyid]
    exact id_of_type? hself

end

/-- Identifiers are unique and stable, however a module is edited.  No two types and no two methods share one, and the
supply has given all of them out, no more than have been asked for.  A method that is appended gets one that stood for
nothing before: it stands for the method, in its type, and all others go on standing for what they stood for.  To append
a method to a type that is gone changes nothing, and numbering anew goes through the module in order, from zero. -/
theorem ids_unique_and_stable (made : m.Made) {edits : List Edit} {n : Module} (edited : Edit.run m edits = n) :
    ((n.types.map (·.id)).Nodup ∧ (methodIds n.types).Nodup ∧ (∀ t ∈ n.types, t.id.index < n.ids.nextType) ∧
      (∀ id ∈ methodIds n.types, id.index < n.ids.nextMethod) ∧
      n.ids.nextType + n.ids.nextMethod ≤ m.ids.nextType + m.ids.nextMethod + Edit.totalAllocations m edits) ∧
    (∀ owner x pushed id, n.pushMethod owner x = some (pushed, id) →
      n.method? id = none ∧
      ∃ t, n.type? owner = some t ∧ pushed.method? id = some (t.push { x with id }, { x with id }) ∧
        (∀ f, pushed.updateMethod id f = pushed.updateType owner fun _ => t.push (f { x with id })) ∧
        (∀ k, pushed.type? k = (n.type? k).map fun t₀ => if t₀.id = owner then t₀.push { x with id } else t₀) ∧
        ∀ k t₀ y, n.method? k = some (t₀, y) →
          pushed.method? k = some (if t₀.id = owner then t₀.push { x with id } else t₀, y)) ∧
    (∀ owner x, n.type? owner = none → n.pushMethod owner x = none ∧ (Edit.pushMethod owner x).apply n = n) ∧
    n.assignIds.types.map (·.id) = (List.range n.types.length).map TypeId.mk ∧
    methodIds n.assignIds.types = (List.range (methodIds n.types).length).map MethodId.mk := by
  subst edited
  have hn := made.numbered.run edits
  refine ⟨⟨hn.types_nodup, hn.methods_nodup, hn.types_lt, hn.methods_lt, count_run_le m edits⟩,
    fun owner x pushed id hpush => ?_, fun owner x hgone => ?_, ids_assignIds _⟩
  · obtain ⟨hid, -, t, ht, -⟩ := hn.pushMethod_eq_some hpush
    exact ⟨hid ▸ hn.method?_eq_none, t, ht, hn.method?_pushMethod_self hpush ht,
      hn.updateMethod_pushMethod_self hpush ht, hn.type?_pushMethod hpush, fun _ _ _ => hn.method?_pushMethod hpush⟩
  · have hpush := pushMethod_of_type?_eq_none hgone x
    exact ⟨hpush, by simp [Edit.apply, hpush]⟩

/-- Of two types the first is taken out, and the second, which is then the first, gets a method. -/
theorem ids_unique_and_stable_removed :
    ({ name := "demo" } : Module).Made ∧
    ∃ n pushed, Edit.run { name := "demo" }
        [.pushType { name := "demo.A", methods := [{ name := "F", ret := .void }] }, .pushType { name := "demo.B" },
          .removeType 0] = n ∧
      n.pushMethod ⟨1⟩ { name := "G", ret := .void } = some (pushed, ⟨1⟩) ∧
      pushed.method? ⟨1⟩ = some ({ id := ⟨1⟩, name := "demo.B", methods := [{ id := ⟨1⟩, name := "G", ret := .void }] },
        { id := ⟨1⟩, name := "G", ret := .void }) ∧
      n.type? ⟨0⟩ = none ∧ n.pushMethod ⟨0⟩ { name := "G", ret := .void } = none := by
  obtain ⟨n, hn⟩ : ∃ n, Edit.run { name := "demo" }
      [.pushType { name := "demo.A", methods := [{ name := "F", ret := .void }] }, .pushType { name := "demo.B" },
        .removeType 0] = n := ⟨_, rfl⟩
  obtain ⟨-, hpushed, hgone, -⟩ := ids_unique_and_stable (.new "demo") hn
  subst hn
  obtain ⟨pushed, hpush⟩ : ∃ pushed, (Edit.run { name := "demo" }
      [.pushType { name := "demo.A", methods := [{ name := "F", ret := .void }] }, .pushType { name := "demo.B" },
        .removeType 0]).pushMethod ⟨1⟩ { name := "G", ret := .void } = some (pushed, ⟨1⟩) := ⟨_, rfl⟩
  obtain ⟨-, t, ht, hmethod, -⟩ := hpushed _ _ _ _ hpush
  cases ht
  exact ⟨.new "demo", _, pushed, rfl, hpush, hmethod, rfl, (hgone ⟨0⟩ _ rfl).1⟩

end Module

end AdviceWeaving
