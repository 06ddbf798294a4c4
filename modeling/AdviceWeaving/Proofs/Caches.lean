import AdviceWeaving.Proofs.Handles

/-!
# What a pass remembers is true

A pass remembers where the code on entry to a method ends, which local holds its return value, and what the handle of
a type is.  Between any two operations all of this is true of the module (`Workspace.caches_hold`), however often a
method is woven and in whatever order.

Operations lead from one stage to the next (`Weaving.exists_leads`), and each of them puts code on entry only in front
of all that is there, or behind it.  So a stage records a whole run (`PassStage.exists_records`): on entry there is what
the operations have put there, the call of a hidden method first, and the locals have the types of the return values.
That the remembered index and local are those of the wrapping is what it means to be at a stage.
-/

namespace AdviceWeaving

open Step

/-! ### Code in front of a method -/

namespace Workspace

/-- The call that an operation puts in front of all other code of a method. -/
def prologue (k : MethodId) (w : Workspace) : Operation → List Instruction
  | .handle id =>
    if w.initializes id (.handle id) then
      (w.module.type? id).elim [] fun t =>
        if k ∈ t.constructorIds then initializerCall (initializerSig t.name) else []
    else []
  | _ => []

/-- The code that an operation puts behind the code on entry to a method. -/
def entrance (k : MethodId) (w : Workspace) : Operation → List Instruction
  | .advise a handle? t =>
    let receiver := receiverOf w.pass.settings.handleStorage handle? t
    if t.id = k ∧ a.timing = .onEntry ∧ ((Weaving.injectAdvice a receiver t).run w).1.toOption.isSome then
      a.entryCode receiver t
    else []
  | _ => []

/-- The calls that operations have put in front of a method. -/
def prologues (w : Workspace) (ops : List Operation) (k : MethodId) : List Instruction :=
  (w.trace ops).flatMap fun p => p.1.prologue k p.2

/-- The entry sequences that operations have put into a method, in this order. -/
def entrances (w : Workspace) (ops : List Operation) (k : MethodId) : List Instruction :=
  (w.trace ops).flatMap fun p => p.1.entrance k p.2

variable {w : Workspace} {ops : List Operation} {o : Operation} {k : MethodId}

private theorem prologues_concat :
    w.prologues (ops ++ [o]) k = w.prologues ops k ++ (w.perform ops).prologue k o := by
  simp [prologues, trace_concat]

private theorem entrances_concat :
    w.entrances (ops ++ [o]) k = w.entrances ops k ++ (w.perform ops).entrance k o := by
  simp [entrances, trace_concat]

/-- Only the constructors of a type that gets its hidden method are given a call of it. -/
private theorem prologue_eq_nil_or :
    w.prologue k o = [] ∨ ∃ id t, o = .handle id ∧ w.pass.handle? id = none ∧ w.module.type? id = some t ∧
      t.TakesHandle ∧ t.method? initializerName = none ∧ k ∈ t.constructorIds ∧
      w.prologue k o = initializerCall (initializerSig t.name) := by
  cases o with
  | handle id =>
    by_cases hinit : w.initializes id (.handle id)
    · obtain ⟨-, hnew, t, ht, hfits, hnone⟩ := initializes_iff.1 hinit
      by_cases hk : k ∈ t.constructorIds
      · exact .inr ⟨id, t, rfl, hnew, ht, hfits, hnone, hk, by simp [prologue, hinit, ht, hk]⟩
      · exact .inl (by simp [prologue, ht, hk])
    · exact .inl (by simp [prologue, hinit])
  | _ => exact .inl rfl

/-- Advice that fails puts nothing in on entry. -/
private theorem entrance_of_fails {a : Advice} {handle? : Option Handle} {t : Target} {failure : Failure}
    {w' : Workspace}
    (hf : Fails (Weaving.injectAdvice a (receiverOf w.pass.settings.handleStorage handle? t) t) w failure w') :
    w.entrance k (.advise a handle? t) = [] := by
  simp [entrance, show (Weaving.injectAdvice a _ t).run w = _ from hf, Except.toOption]

end Workspace

/-! ### From stage to stage -/

/-- The body is that of a hidden method. -/
def Body.IsHidden (b : Body) : Prop :=
  ∃ storage field, b = .ofCode (initializerCode storage field)

/-- The operation `o` leads from the stage `s` to the stage `s'`: bodies stay, and new ones are those of hidden methods;
what is put on entry is put before or behind what is there; and a local has the type of the return value. -/
structure PassStage.Leads (s : PassStage) (w : Workspace) (o : Operation) (s' : PassStage) : Prop where
  kept : ∀ k b, s.module.body? k = some b → s'.module.body? k = some b
  bodies : ∀ k b, s'.module.body? k = some b → s.module.body? k = some b ∨ s.module.body? k = none ∧ b.IsHidden
  entry : ∀ k, (s'.wrap k).entry = w.prologue k o ++ (s.wrap k).entry ++ w.entrance k o
  slots : ∀ k type, (s'.wrap k).slot? = some type → (s.wrap k).slot? = some type ∨ w.module.Returns k type

namespace PassStage.Leads

variable {w w' : Workspace} {s s' : PassStage} {o : Operation}

/-- Wrappings and profiles stay. -/
private theorem of_profiles (h : s.module.Numbered) (h' : s'.module.Numbered)
    (hprofiles : s'.module.profiles = s.module.profiles) (hwrap : s'.wrap = s.wrap)
    (hprologue : ∀ k, w.prologue k o = []) (hentrance : ∀ k, w.entrance k o = []) : s.Leads w o s' where
  kept k b hb := (h.body?_congr h' hprofiles k).trans hb
  bodies k b hb := .inl ((h.body?_congr h' hprofiles k).symm.trans hb)
  entry k := by rw [hwrap, hprologue, hentrance, List.nil_append, List.append_nil]
  slots k type hk := .inl (hwrap ▸ hk)

/-- One wrapping changes. -/
private theorem set {id : MethodId} {wrapping : Wrapping} (hprologue : ∀ k, w.prologue k o = [])
    (hentry : wrapping.entry = (s.wrap id).entry ++ w.entrance id o) (hentrance : ∀ k, k ≠ id → w.entrance k o = [])
    (hslot : ∀ type, wrapping.slot? = some type → (s.wrap id).slot? = some type ∨ w.module.Returns id type) :
    s.Leads w o (s.set id wrapping) where
  kept _ _ hb := hb
  bodies _ _ hb := .inl hb
  entry k := by
    rw [hprologue, List.nil_append]
    by_cases hk : k = id
    · rw [hk, s.wrap_set_self, hentry]
    · rw [s.wrap_set_of_ne hk, hentrance k hk, List.append_nil]
  slots k type hk := by
    by_cases hid : k = id
    · subst hid
      rw [s.wrap_set_self] at hk
      exact hslot type hk
    · exact .inl (by rwa [s.wrap_set_of_ne hid] at hk)

end PassStage.Leads

private theorem Workspace.At.numbered {w : Workspace} {s : PassStage} (h : w.At s) : s.module.Numbered :=
  h.elim fun _ h => h.numbered

private theorem Workspace.At.numbered_module {w : Workspace} {s : PassStage} (h : w.At s) : w.module.Numbered :=
  h.elim fun bodies h => h.module_eq ▸ h.numbered.withBodies bodies

namespace Weaving

open Workspace

variable {w w' : Workspace} {s : PassStage} {a : Advice} {receiver : List Instruction} {t : Target} {u : Unit}
  {failure : Failure}

private theorem isSome_body?_of_yields_injectAdvice (h : Yields (injectAdvice a receiver t) w u w') :
    (w.module.body? t.id).isSome := by
  obtain ⟨-, b, hb, -⟩ | ⟨-, -, b, hb, -⟩ | ⟨-, -, slot, w₁, b, hslot, hb, -⟩ := yields_injectAdvice_iff.1 h
  · rw [hb]
    rfl
  · rw [hb]
    rfl
  · obtain ⟨-, rfl⟩ | ⟨-, b, b', hb, -⟩ := yields_slotOf_iff.1 hslot <;> rw [hb] <;> rfl

private theorem exists_base (h : w.At s) {k : MethodId} (hk : (w.module.body? k).isSome) :
    ∃ b, s.module.body? k = some b := by
  obtain ⟨bodies, h⟩ := h
  rw [h.body?_eq, Option.isSome_map] at hk
  exact Option.isSome_iff_exists.1 hk

private theorem returns_of_forall {m : Module} {k : MethodId} (hk : (m.body? k).isSome) {type : ValueType}
    (hret : ∀ d x, m.method? k = some (d, x) → x.ret = type) : m.Returns k type := by
  obtain ⟨b, hb⟩ := Option.isSome_iff_exists.1 hk
  obtain ⟨⟨d, x⟩, hx, -⟩ := Option.bind_eq_some_iff.1 hb
  exact ⟨d, x, hx, hret d x hx⟩

private theorem leads_slotOf {id : MethodId} {type : ValueType} {slot : UInt16} (h : w.At s)
    (hfits : w.Fits (.slot id type)) (hy : Yields (slotOf id type) w slot w') :
    ∃ s', w'.At s' ∧ s.Leads w (.slot id type) s' := by
  obtain ⟨-, rfl⟩ | ⟨-, b, -, hb, -⟩ := yields_slotOf_iff.1 hy
  · exact ⟨s, h, .of_profiles h.numbered h.numbered rfl rfl (fun _ => rfl) fun _ => rfl⟩
  have hsome : (w.module.body? id).isSome := by rw [hb]; rfl
  obtain ⟨base, hbase⟩ := exists_base h hsome
  obtain ⟨bodies, hholds⟩ := h
  refine ⟨_, (holds_slotOf hholds hbase hy).2, .set (fun _ => rfl) (List.append_nil _).symm (fun _ _ => rfl)
    fun type' htype => ?_⟩
  cases hslot : (s.wrap id).slot? with
  | some known => exact .inl (by simpa [hslot] using htype)
  | none =>
    obtain rfl : type = type' := by simpa [hslot] using htype
    exact .inr (returns_of_forall hsome hfits)

private theorem leads_injectAdvice {handle? : Option Handle} (h : w.At s) (hfits : w.Fits (.advise a handle? t))
    (hy : Yields (injectAdvice a (receiverOf w.pass.settings.handleStorage handle? t) t) w u w') :
    ∃ s', w'.At s' ∧ s.Leads w (.advise a handle? t) s' := by
  have hsome := isSome_body?_of_yields_injectAdvice hy
  obtain ⟨base, hbase⟩ := exists_base h hsome
  refine ⟨_, at_injectAdvice h hbase (plain_receiverOf _ _ t) hy, .set (fun _ => rfl) ?_ (fun k hk => ?_)
    fun type htype => ?_⟩
  · cases htiming : a.timing with
    | onEntry => simp [Wrapping.add, htiming, entrance, show (injectAdvice a _ t).run w = _ from hy, Except.toOption]
    | onExit => cases hbinds : a.binds .targetReturnValue <;> simp [Wrapping.add, htiming, hbinds, entrance]
  · simp [entrance, Ne.symm hk]
  · unfold Wrapping.add at htype
    split at htype
    · exact .inl htype
    split at htype
    · cases hslot : (s.wrap t.id).slot? with
      | some known => exact .inl (by simpa [hslot] using htype)
      | none =>
        obtain rfl : t.ret = type := by simpa [hslot] using htype
        exact .inr (returns_of_forall hsome hfits)
    · exact .inl htype

private theorem leads_handleOf {id : TypeId} {handle : Handle} (h : w.At s) (hy : Yields (handleOf id) w handle w') :
    ∃ s', w'.At s' ∧ s.Leads w (.handle id) s' := by
  obtain ⟨hknown, rfl⟩ | ⟨hnew, t', ht', -⟩ := yields_handleOf_iff.1 hy
  · have hprologue (k : MethodId) : w'.prologue k (.handle id) = [] := by
      refine prologue_eq_nil_or.resolve_right ?_
      rintro ⟨id', -, ho, hnew, -⟩
      cases ho
      cases hnew.symm.trans hknown
    exact ⟨s, h, .of_profiles h.numbered h.numbered rfl rfl hprologue fun _ => rfl⟩
  have hlookup : s.handles.lookup id = none := h.elim fun _ h => h.handles_eq ▸ hnew
  obtain ⟨t, ht, -, hat⟩ := at_handleOf h hlookup hy
  obtain rfl := Module.id_of_type? ht
  have hgains := h.numbered.gainsHandle ht s.settings.handleStorage
  obtain ⟨bodies, hholds⟩ := h
  obtain rfl : t.withBodies bodies = t' := by
    rw [hholds.module_eq, Module.type?_withBodies, ht] at ht'
    exact Option.some.inj ht'
  have hinit : w.initializes t.id (.handle t.id) = (t.method? initializerName).isNone := by
    simp [initializes, hnew, ht', TypeDecl.method?_withBodies, show (handleOf t.id).run w = _ from hy, Except.toOption]
  refine ⟨_, hat, fun k b hb => ?_, fun k b hb => ?_, fun k => ?_, fun k type hk => .inl ?_⟩
  · obtain ⟨p, hp, hid, hpb⟩ := hholds.numbered.body?_eq_some_iff_profile.1 hb
    exact hgains.numbered.body?_eq_some_iff_profile.2 ⟨p, hgains.kept p hp, hid, hpb⟩
  · obtain ⟨p, hp, hid, hpb⟩ := hgains.numbered.body?_eq_some_iff_profile.1 hb
    rcases hgains.profiles p hp with hp | ⟨hp, hnext⟩
    · exact .inl (hholds.numbered.body?_eq_some_iff_profile.2 ⟨p, hp, hid, hpb⟩)
    · obtain ⟨field, hfield⟩ := hp.body_eq
      refine .inr ⟨?_, _, field, Option.some.inj (hpb.symm.trans hfield)⟩
      -- the identifier has not been given out before
      rw [Option.eq_none_iff_forall_ne_some, ← hid, hnext]
      exact fun b' hb' => Nat.lt_irrefl _ (hholds.numbered.lt_of_body? hb')
  · show (s.initialized t k).entry = _
    simp only [prologue, hinit, ht', Option.elim_some, TypeDecl.constructorIds_withBodies, TypeDecl.withBodies_name,
      entrance, List.append_nil, PassStage.initialized]
    by_cases hnone : (t.method? initializerName).isNone <;> by_cases hk : k ∈ t.constructorIds <;> simp [hnone, hk]
  · have hslot : (s.initialized t k).slot? = (s.wrap k).slot? := by
      unfold PassStage.initialized
      split <;> rfl
    exact hslot.symm.trans hk

/-- Each operation of a pass leads from a stage to a stage. -/
theorem exists_leads {o : Operation} (h : w.At s) (ho : o.continues) (hfits : w.Fits o) :
    ∃ s', (w.after o).At s' ∧ s.Leads w o s' := by
  -- operations that fail, or that find what they would make
  have hsame (hafter : w.after o = w) (hprologue : ∀ k, w.prologue k o = []) (hentrance : ∀ k, w.entrance k o = []) :
      ∃ s', (w.after o).At s' ∧ s.Leads w o s' :=
    ⟨s, hafter.symm ▸ h, .of_profiles h.numbered h.numbered rfl rfl hprologue hentrance⟩
  cases o with
  | renew settings => cases ho
  | note definitions diagnostics tally =>
    exact ⟨s, h.of_eq rfl rfl rfl rfl rfl, .of_profiles h.numbered h.numbered rfl rfl (fun _ => rfl) fun _ => rfl⟩
  | scan id =>
    cases ht : w.module.type? id with
    | none =>
      have hfails : Fails (scan id) w _ w := fails_scan_iff.2 (.inl ⟨ht, rfl, rfl⟩)
      exact hsame (by rw [after, hfails]) (fun _ => rfl) fun _ => rfl
    | some t =>
      obtain ⟨t₀, ht₀, -, hat⟩ := at_scanned h ht
      rw [after, run_scan ht]
      exact ⟨_, hat, .of_profiles h.numbered hat.numbered (Module.profiles_updateType ht₀ (t₀.profiles_scan _)) rfl
        (fun _ => rfl) fun _ => rfl⟩
  | sweep id =>
    rcases hrun : (sweepMethod id).run w with ⟨failure | u, w'⟩
    · exact hsame (by rw [after, hrun]; exact (fails_sweepMethod_iff.1 hrun).2.2) (fun _ => rfl) fun _ => rfl
    · have hat := at_sweepMethod h hrun
      rw [after, hrun]
      exact ⟨_, hat, .of_profiles h.numbered hat.numbered (s.module.profiles_sweepMethods _ _) rfl (fun _ => rfl)
        fun _ => rfl⟩
  | slot id type =>
    rcases hrun : (slotOf id type).run w with ⟨failure | slot, w'⟩
    · exact hsame (by rw [after, hrun]; exact (fails_slotOf_iff.1 hrun).2.1) (fun _ => rfl) fun _ => rfl
    · rw [after, hrun]
      exact leads_slotOf h hfits hrun
  | handle id =>
    rcases hrun : (handleOf id).run w with ⟨failure | handle, w'⟩
    · obtain ⟨-, hsame', -⟩ := fails_handleOf_iff.1 hrun
      refine hsame (by rw [after, hrun]; exact hsame') (fun k => ?_) fun _ => rfl
      simp [prologue, initializes, hrun, Except.toOption]
    · rw [after, hrun]
      exact leads_handleOf h hrun
  | advise a handle? t =>
    rcases hrun : (injectAdvice a (receiverOf w.pass.settings.handleStorage handle? t) t).run w with
      ⟨failure | u, w'⟩
    · have hentrance (k : MethodId) := entrance_of_fails (k := k) hrun
      rcases fails_injectAdvice_iff.1 hrun with ⟨rfl, -⟩ | ⟨-, ⟨-, rfl, -⟩ | ⟨-, -, rfl, -⟩ | ⟨-, -, slot, b, hslot, -⟩⟩
      · exact hsame (by rw [after, hrun]) (fun _ => rfl) hentrance
      · exact hsame (by rw [after, hrun]) (fun _ => rfl) hentrance
      · exact hsame (by rw [after, hrun]) (fun _ => rfl) hentrance
      -- the local has been made
      · obtain ⟨s', hat, hleads⟩ := leads_slotOf h hfits hslot
        rw [after, hrun]
        refine ⟨s', hat, hleads.kept, hleads.bodies, fun k => ?_, hleads.slots⟩
        rw [hentrance]
        exact hleads.entry k
    · rw [after, hrun]
      exact leads_injectAdvice h hfits hrun

end Weaving

/-! ### Along a run -/

/-- The body `b` is that with which a method begins: the one that it has in the module, or else that of a hidden
method. -/
def Workspace.BeginsWith (start : Workspace) (k : MethodId) (b : Body) : Prop :=
  start.module.body? k = some b ∨ start.module.body? k = none ∧ b.IsHidden

/-- What operations of one pass have made of the module in `start`: the bodies with which its methods begin, in
wrappings that hold on entry what the operations have put there. -/
structure PassStage.Records (s : PassStage) (start : Workspace) (ops : List Operation) : Prop where
  at_stage : (start.perform ops).At s
  kept : ∀ k b, start.module.body? k = some b → s.module.body? k = some b
  bodies : ∀ k b, s.module.body? k = some b → start.BeginsWith k b
  entry : ∀ k, (s.wrap k).entry = start.prologues ops k ++ start.entrances ops k
  called : ∀ k, start.prologues ops k = [] ∨ ∃ d x, (start.perform ops).module.method? k = some (d, x) ∧
    (d.method? initializerName).isSome ∧ start.prologues ops k = initializerCall (initializerSig d.name)
  slots : ∀ k type, (s.wrap k).slot? = some type → (start.perform ops).module.Returns k type

namespace PassStage

variable {s s' : PassStage} {start : Workspace} {ops : List Operation} {o : Operation}

private theorem records_start {m : Module} (h : m.Numbered) (settings : Settings) :
    ({ settings, handles := [], module := m, wrap := fun _ => {} } : PassStage).Records ⟨{ settings }, m⟩ [] where
  at_stage := Workspace.at_start h settings
  kept _ _ hb := hb
  bodies _ _ hb := .inl hb
  entry _ := rfl
  called _ := .inl rfl
  slots _ _ h := by cases h

/-- The calls in front of a method are those of one hidden method, made at one stroke. -/
private theorem called_concat (h : s.Records start ops) (ho : o.continues) (k : MethodId) :
    (start.prologues ops k = [] ∨ (start.perform ops).prologue k o = []) ∧
      (start.prologues (ops ++ [o]) k = [] ∨
        ∃ d x, (start.perform (ops ++ [o])).module.method? k = some (d, x) ∧ (d.method? initializerName).isSome ∧
          start.prologues (ops ++ [o]) k = initializerCall (initializerSig d.name)) := by
  rw [Workspace.prologues_concat, Workspace.perform_concat]
  have hw := h.at_stage.numbered_module
  have hevolves := Workspace.evolves_after (start.perform ops) ho
  rcases Workspace.prologue_eq_nil_or (w := start.perform ops) (k := k) (o := o) with
    hnew | ⟨id, t, rfl, hnew, ht, hfits, hnone, hk, hcall⟩
  · refine ⟨.inr hnew, ?_⟩
    rw [hnew, List.append_nil]
    refine (h.called k).imp_right ?_
    rintro ⟨d, x, hx, hsome, hcalled⟩
    obtain ⟨d', x', hx', hgrows, -⟩ := hevolves.grows.method? hw (hevolves.numbered hw) hx
    obtain ⟨y, hy⟩ := Option.isSome_iff_exists.1 hsome
    obtain ⟨y', hy', -⟩ := hgrows.method? hy
    exact ⟨d', x', hx', by rw [hy']; rfl, by rw [hgrows.name_eq]; exact hcalled⟩
  · obtain ⟨x, hx, -⟩ := hw.exists_constructor ht hk
    -- the type had no hidden method, so none has been called before
    have hnil : start.prologues ops k = [] := by
      refine (h.called k).resolve_right ?_
      rintro ⟨d, y, hy, hsome, -⟩
      cases hx.symm.trans hy
      rw [hnone] at hsome
      cases hsome
    refine ⟨.inl hnil, .inr ?_⟩
    obtain ⟨d', x', hx', hgrows, -⟩ := hevolves.grows.method? hw (hevolves.numbered hw) hx
    obtain ⟨t', y, ht', hy⟩ := Workspace.exists_hidden_after hnew ht hfits
    obtain rfl : d' = t' := by
      have hmem := (Module.mem_methods.1 ((hevolves.numbered hw).method?_eq_some_iff.1 hx').1).1
      have hid : d'.id = id := hgrows.id_eq.trans (Module.id_of_type? ht)
      exact Option.some.inj (((hevolves.numbered hw).type?_eq_some_iff.2 ⟨hmem, hid⟩).symm.trans ht')
    exact ⟨d', x', hx', by rw [hy]; rfl, by rw [hnil, hcall, hgrows.name_eq]; rfl⟩

private theorem Records.concat (h : s.Records start ops) (ho : o.continues) (hat : ((start.perform ops).after o).At s')
    (hleads : s.Leads (start.perform ops) o s') : s'.Records start (ops ++ [o]) where
  at_stage := start.perform_concat ops o ▸ hat
  kept k b hb := hleads.kept k b (h.kept k b hb)
  bodies k b hb := by
    rcases hleads.bodies k b hb with hb | ⟨hnone, hb⟩
    · exact h.bodies k b hb
    · refine .inr ⟨Option.eq_none_iff_forall_ne_some.2 fun b' hb' => ?_, hb⟩
      cases hnone.symm.trans (h.kept k b' hb')
  entry k := by
    rw [hleads.entry, h.entry, Workspace.prologues_concat, Workspace.entrances_concat]
    rcases (called_concat h ho k).1 with hnil | hnil <;> simp [hnil]
  called k := (called_concat h ho k).2
  slots k type hk := by
    have hw := h.at_stage.numbered_module
    rw [Workspace.perform_concat]
    exact (Workspace.evolves_after _ ho).returns hw ((hleads.slots k type hk).elim (h.slots k type) id)

/-- Operations of a pass over a module lead to a stage that records them. -/
theorem exists_records {m : Module} (hm : m.Numbered) (settings : Settings) {ops : List Operation}
    (hops : (⟨{ settings }, m⟩ : Workspace).Suits ops) : ∃ s : PassStage, s.Records ⟨{ settings }, m⟩ ops := by
  induction ops using List.reverseRecOn with
  | nil => exact ⟨_, records_start hm settings⟩
  | append_singleton ops o ih =>
    obtain ⟨hops, ho, hfits⟩ := hops.of_concat
    obtain ⟨s, hs⟩ := ih hops
    obtain ⟨s', hat, hleads⟩ := Weaving.exists_leads hs.at_stage ho hfits
    exact ⟨s', hs.concat ho hat hleads⟩

end PassStage

/-! ### Bodies in a wrapping -/

namespace Wrapping

variable {w : Wrapping} {base body : Body} {cursor : Nat} {slot? : Option UInt16}

namespace Around

private theorem take_cursor (h : w.Around base body cursor slot?) : body.code.take cursor = w.entry := by
  rw [h.code_eq, h.cursor_eq, code, List.take_left]

private theorem cursor_le_length (h : w.Around base body cursor slot?) : cursor ≤ body.code.length := by
  rw [h.code_eq, h.cursor_eq, code, List.length_append]
  exact Nat.le_add_right _ _

/-- No jump goes into the code on entry. -/
private theorem cursor_le_target (h : w.Around base body cursor slot?) {i : Instruction} (hi : i ∈ body.code)
    {target : UInt64} (ht : i.target? = some target) : cursor ≤ target.toNat := by
  obtain ⟨j, -, t, -, htarget⟩ := h.exists_target hi ht
  rw [htarget, h.cursor_eq]
  unfold place
  omega

/-- The local for the return value stands behind those of the body. -/
private theorem locals_of_slot {slot : UInt16} (h : w.Around base body cursor (some slot)) :
    ∃ type, w.slot? = some type ∧ slot.toNat = base.locals.size ∧ body.locals = base.locals.push type ∧
      body.initLocals = true := by
  obtain ⟨hslot, hsome⟩ := h.slot_eq
  obtain ⟨type, htype⟩ := Option.isSome_iff_exists.1 hsome
  have hroom : base.locals.size < Body.maxLocals := h.room hsome
  refine ⟨type, htype, ?_, ?_, ?_⟩
  · rw [hslot]
    exact UInt16.toNat_ofNat_of_lt' hroom
  · rw [h.locals_eq, htype]
    simp
  · rw [h.initLocals_eq, htype]
    simp

end Around

end Wrapping

/-! ### What is remembered is true -/

namespace Workspace

/-- The code on entry to a method with the body `b` ends at the index `c`: it is the call of a hidden method, if there
is one, and the entry sequences, in order.  It goes through without a jump, and no jump leads into it. -/
structure EntryEnds (start : Workspace) (ops : List Operation) (k : MethodId) (b : Body) (c : Nat) : Prop where
  le_length : c ≤ b.code.length
  take_eq : b.code.take c = start.prologues ops k ++ start.entrances ops k
  called : start.prologues ops k = [] ∨ ∃ d x, (start.perform ops).module.method? k = some (d, x) ∧
    start.prologues ops k = initializerCall (initializerSig d.name)
  plain : Plain (b.code.take c)
  not_entered : ∀ i ∈ b.code, ∀ target, i.target? = some target → c ≤ target.toNat

/-- The return value of a method with the body `b` has a local of its type, behind all locals with which the method
begins. -/
structure ReturnWaits (start : Workspace) (ops : List Operation) (k : MethodId) (b : Body) (slot : UInt16) : Prop where
  declared : ∃ d x, (start.perform ops).module.method? k = some (d, x) ∧ b.locals[slot.toNat]? = some x.ret
  cleared : b.initLocals = true
  behind : ∀ b₀, start.BeginsWith k b₀ → b₀.locals.size ≤ slot.toNat

end Workspace

namespace PassStage.Records

open Workspace

variable {s : PassStage} {start : Workspace} {ops : List Operation} {k : MethodId} {b : Body}

/-- What is remembered of a method that has a body. -/
private theorem exists_around (h : s.Records start ops) (hb : (start.perform ops).module.body? k = some b) :
    ∃ base, s.module.body? k = some base ∧ (s.wrap k).Around base b ((start.perform ops).pass.cursor k)
      ((start.perform ops).pass.slot? k) := by
  obtain ⟨bodies, hholds⟩ := h.at_stage
  rw [hholds.body?_eq, Option.map_eq_some_iff] at hb
  obtain ⟨base, hbase, rfl⟩ := hb
  exact ⟨base, hbase, hholds.around k base hbase⟩

private theorem entryEnds (h : s.Records start ops) (hb : (start.perform ops).module.body? k = some b) :
    start.EntryEnds ops k b ((start.perform ops).pass.cursor k) := by
  obtain ⟨base, hbase, haround⟩ := h.exists_around hb
  refine ⟨haround.cursor_le_length, haround.take_cursor.trans (h.entry k), ?_, ?_, fun i hi target ht =>
    haround.cursor_le_target hi ht⟩
  · exact (h.called k).imp_right fun ⟨d, x, hx, _, hcall⟩ => ⟨d, x, hx, hcall⟩
  · rw [haround.take_cursor]
    exact haround.entry_plain

private theorem returnWaits (h : s.Records start ops) (hb : (start.perform ops).module.body? k = some b) {slot : UInt16}
    (hslot : (start.perform ops).pass.slot? k = some slot) : start.ReturnWaits ops k b slot := by
  obtain ⟨base, hbase, haround⟩ := h.exists_around hb
  rw [hslot] at haround
  obtain ⟨type, htype, hindex, hlocals, hcleared⟩ := haround.locals_of_slot
  obtain ⟨d, x, hx, rfl⟩ := h.slots k type htype
  refine ⟨⟨d, x, hx, ?_⟩, hcleared, fun b₀ hb₀ => ?_⟩
  · rw [hlocals, hindex]
    simp
  · rcases hb₀ with hb₀ | ⟨-, storage, field, rfl⟩
    · cases hbase.symm.trans (h.kept k b₀ hb₀)
      exact Nat.le_of_eq hindex.symm
    · exact Nat.zero_le _

end PassStage.Records

namespace Workspace

/-- What a pass remembers is true of the module, at any time.  The walk of a pass is a run of operations that suit it,
and so is every part of it; and after any such run, over any module that has been decoded, the cursors, the locals and
the handles that the pass knows are those of the methods and types in the module. -/
theorem caches_hold {encoding : Encoding} {source : String} {m : Module}
    (decoded : encoding.decode source = .ok m) (settings : Settings) :
    let start : Workspace := ⟨{ settings }, m⟩
    (∀ vs, visitorsNamed settings.components = .ok vs →
      ∃ ops, start.Suits ops ∧ start.perform ops = ((walk Workspace.module vs).run start).2) ∧
    ∀ ops, start.Suits ops →
      let w := start.perform ops
      (∀ k c, w.pass.cursors.lookup k = some c → ∃ b, w.module.body? k = some b ∧ start.EntryEnds ops k b c) ∧
      (∀ k slot, w.pass.slot? k = some slot → ∃ b, w.module.body? k = some b ∧ start.ReturnWaits ops k b slot) ∧
      ∀ id handle, w.pass.handle? id = some handle → ∃ t, w.module.type? id = some t ∧ t.Bears handle := by
  intro start
  have hm := Module.numbered_of_decode decoded
  refine ⟨fun vs hvs => ?_, fun ops hops => ?_⟩
  · obtain ⟨ops, hperform, hcontinues, hfits⟩ := performs_walk hvs start
    exact ⟨ops, ⟨hcontinues, hfits hm⟩, hperform⟩
  intro w
  obtain ⟨s, hs⟩ := PassStage.exists_records hm settings hops
  have hground : w.Grounded := (evolves_perform start hops.1).grounded hm (grounded_start settings m)
  refine ⟨fun k c hc => ?_, fun k slot hslot => ?_, (consistent_start settings m).perform ops⟩
  · obtain ⟨b, hb⟩ := Option.isSome_iff_exists.1 (hground.cursors k (by rw [hc]; rfl))
    have hcursor : w.pass.cursor k = c := by rw [Pass.cursor, hc]; rfl
    exact ⟨b, hb, hcursor ▸ hs.entryEnds hb⟩
  · obtain ⟨b, hb⟩ := Option.isSome_iff_exists.1 (hground.slots k (by rw [hslot]; rfl))
    exact ⟨b, hb, hs.returnWaits hb hslot⟩

/-- The sample at the end of the walk. -/
private theorem sample_end :
    let start : Workspace := ⟨{ settings := Sample.settings }, Sample.module⟩
    let w := ((walk Workspace.module [injectionWeaver, orphanSweep]).run start).2
    w.pass.cursors.lookup ⟨2⟩ = some 4 ∧ w.pass.slot? ⟨2⟩ = some 0 ∧ w.module.body? ⟨2⟩ = some Sample.woven := by
  decide +kernel

theorem caches_hold_sample :
    Encoding.text.decode Sample.source = .ok Sample.module ∧
      ∃ ops, (⟨{ settings := Sample.settings }, Sample.module⟩ : Workspace).Suits ops ∧
        (⟨{ settings := Sample.settings }, Sample.module⟩ : Workspace).EntryEnds ops ⟨2⟩ Sample.woven 4 ∧
        (⟨{ settings := Sample.settings }, Sample.module⟩ : Workspace).ReturnWaits ops ⟨2⟩ Sample.woven 0 := by
  obtain ⟨hwalk, hholds⟩ := caches_hold Sample.decode_source Sample.settings
  obtain ⟨ops, hops, hperform⟩ := hwalk [injectionWeaver, orphanSweep] rfl
  obtain ⟨hcursor, hslot, hbody⟩ := sample_end
  rw [← hperform] at hcursor hslot hbody
  obtain ⟨hcursors, hslots, -⟩ := hholds ops hops
  obtain ⟨b, hb, hentry⟩ := hcursors ⟨2⟩ 4 hcursor
  obtain ⟨b', hb', hreturn⟩ := hslots ⟨2⟩ 0 hslot
  obtain rfl := Option.some.inj (hb.symm.trans hbody)
  obtain rfl := Option.some.inj (hb'.symm.trans hbody)
  exact ⟨Sample.decode_source, ops, hops, hentry, hreturn⟩

end Workspace

end AdviceWeaving
