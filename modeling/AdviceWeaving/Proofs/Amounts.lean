import Mathlib.Algebra.Ring.Nat
import AdviceWeaving.Proofs.Following
import AdviceWeaving.Proofs.Growth
import AdviceWeaving.Proofs.Exits

/-!
# What injection puts in

The tally of a pass is added to where code is put in, and each piece of code that is put in has one call.  So the calls
of a module grow as the tally does, step by step: `Workspace.Counts` says of two workspaces how far the tally and the
calls of the module are apart, and what two steps in a row do adds up (`Workspace.Counts.trans`).  Code in front of a
`ret` has no `ret` of its own, so there are as many places for further advice as in the body without woven code, and
what is put in for a marker type is told by its targets and its advice (`Weaving.counts_inject`).
-/

namespace AdviceWeaving

/-! ### Calls in code -/

/-- How many instructions run a method in the way of `op`. -/
def countCalls (op : CallOp) (code : List Instruction) : Nat :=
  code.countP (·.opcode = .call op)

/-- How many `ret` instructions there are. -/
def countReturns (code : List Instruction) : Nat :=
  code.countP (·.isReturn)

section

variable {op : CallOp}

@[simp] theorem countCalls_append (a b : List Instruction) :
    countCalls op (a ++ b) = countCalls op a + countCalls op b :=
  List.countP_append

private theorem countCalls_map_mapTarget (f : UInt64 → UInt64) (code : List Instruction) :
    countCalls op (code.map (·.mapTarget f)) = countCalls op code := by
  have hopcode (i : Instruction) : (i.mapTarget f).opcode = i.opcode := by cases i <;> rfl
  simp only [countCalls, List.countP_map, Function.comp_def, hopcode]

private theorem countCalls_eq_zero {code : List Instruction} (h : ∀ i ∈ code, ∀ sig, i ≠ .call op sig) :
    countCalls op code = 0 := by
  rw [countCalls, List.countP_eq_zero]
  intro i hi
  cases i with
  | call op' sig =>
    have hne : op' ≠ op := fun hop => h _ hi sig (by rw [hop])
    simpa [Instruction.opcode] using hne
  | _ => simp [Instruction.opcode]

private theorem Body.countCalls_splice (b : Body) (pos : Nat) (seq : List Instruction) (landing : Landing) :
    countCalls op (b.splice pos seq landing).code = countCalls op b.code + countCalls op seq := by
  have hsplit := congrArg (countCalls op) (List.take_append_drop (min pos b.code.length)
    (b.code.map (·.mapTarget (moved (min pos b.code.length) seq.length landing))))
  rw [countCalls_append, countCalls_map_mapTarget] at hsplit
  simp only [splice, countCalls_append, countCalls_map_mapTarget]
  omega

private theorem Body.countCalls_spliceAtExits (b : Body) (seq : List Instruction) :
    countCalls op (b.spliceAtExits fun _ => seq).1.code =
      countCalls op b.code + countReturns b.code * countCalls op seq := by
  have hfold (places : List (Nat × Nat)) (b : Body) :
      countCalls op (places.foldl (fun b p => b.splice p.1 seq .inserted) b).code =
        countCalls op b.code + places.length * countCalls op seq := by
    induction places generalizing b with
    | nil => simp
    | cons p places ih =>
      rw [List.foldl_cons, ih, countCalls_splice, List.length_cons, Nat.succ_mul]
      omega
  have hlength : (b.exits.reverse.zipIdx).length = countReturns b.code := by
    rw [List.length_zipIdx, List.length_reverse, length_exits, countReturns]
  rw [← hlength, ← hfold]
  rfl

/-! ### Calls in the code of advice -/

private theorem countCalls_loadHandle (storage : HandleStorage) (field : FieldSig) (t : Target) :
    countCalls op (loadHandle storage field t) = 0 := by
  cases storage <;> cases h : t.isStatic <;> simp [countCalls, loadHandle, h, Instruction.opcode]

private theorem countCalls_receiverOf (storage : HandleStorage) (handle? : Option Handle) (t : Target) :
    countCalls op (receiverOf storage handle? t) = 0 := by
  cases handle? with
  | none => rfl
  | some handle => exact countCalls_loadHandle storage handle.field t

private theorem Advice.countCalls_callCode (a : Advice) : countCalls op a.callCode = if op = .call then 1 else 0 := by
  cases op <;> cases h : a.ret.isVoid <;> simp [countCalls, callCode, h, Instruction.opcode]

private theorem Advice.countCalls_entryCode (a : Advice) {receiver : List Instruction} (h : countCalls op receiver = 0)
    (t : Target) : countCalls op (a.entryCode receiver t) = if op = .call then 1 else 0 := by
  have harguments : countCalls op (a.bindings.map fun _ => .ldstr t.name) = 0 :=
    countCalls_eq_zero (by simp)
  simp only [entryCode, countCalls_append, h, harguments, countCalls_callCode, Nat.zero_add]

private theorem Advice.countCalls_exitCode (a : Advice) {receiver : List Instruction} (h : countCalls op receiver = 0)
    (t : Target) (slot? : Option UInt16) :
    countCalls op (a.exitCode receiver t slot?) = if op = .call then 1 else 0 := by
  have hslot (slotOp : SlotOp) : countCalls op (slot?.map (.slot slotOp)).toList = 0 :=
    countCalls_eq_zero (by cases slot? <;> simp)
  have harguments : countCalls op (a.bindings.map (·.load t slot?)) = 0 := by
    refine countCalls_eq_zero ?_
    simp only [List.forall_mem_map]
    intro b _ sig
    unfold Binding.load
    split <;> simp
  simp only [exitCode, countCalls_append, h, hslot, harguments, countCalls_callCode, Nat.zero_add, Nat.add_zero]

private theorem countCalls_initializerCall (initializer : MethodSig) :
    countCalls op (initializerCall initializer) = if op = .call then 1 else 0 := by
  cases op <;> simp [countCalls, initializerCall, Instruction.opcode]

private theorem countCalls_initializerCode (storage : HandleStorage) (field : FieldSig) :
    countCalls op (initializerCode storage field) = 0 := by
  cases storage <;> simp [countCalls, initializerCode, Instruction.opcode]

end

/-! ### Calls in modules -/

def Method.countCalls (op : CallOp) (x : Method) : Nat :=
  x.body.elim 0 fun b => AdviceWeaving.countCalls op b.code

def TypeDecl.countCalls (op : CallOp) (t : TypeDecl) : Nat :=
  (t.methods.map (·.countCalls op)).sum

/-- How many instructions of a module run a method in the way of `op`. -/
def Module.countCalls (op : CallOp) (m : Module) : Nat :=
  (m.types.map (·.countCalls op)).sum

section

variable {op : CallOp} {m : Module}

/-- Only what a pass leaves as it is matters, the code that it puts in apart. -/
theorem TypeDecl.countCalls_congr {t t' : TypeDecl} (h : t'.profiles = t.profiles) :
    t'.countCalls op = t.countCalls op := by
  have hsum (t : TypeDecl) : t.countCalls op =
      (t.profiles.map fun p => p.body.elim 0 fun b => AdviceWeaving.countCalls op b.code).sum := by
    rw [profiles, List.map_map]
    rfl
  rw [hsum, hsum, h]

theorem TypeDecl.length_constructorIds_congr {t t' : TypeDecl} (h : t'.profiles = t.profiles) :
    t'.constructorIds.length = t.constructorIds.length := by
  have hcount (t : TypeDecl) : t.constructorIds.length =
      t.profiles.countP fun p => p.target.isConstructor && p.body.isSome := by
    rw [constructorIds, List.length_map, ← List.countP_eq_length_filter, profiles, List.countP_map]
    rfl
  rw [hcount, hcount, h]

theorem Module.countCalls_put (op : CallOp) {id : TypeId} {t t' : TypeDecl} (ht : m.type? id = some t)
    (hid : t'.id = id) : (m.put t').countCalls op + t.countCalls op = m.countCalls op + t'.countCalls op := by
  obtain ⟨front, back, htypes, -, hput⟩ := exists_put_eq ht
  simp only [countCalls, hput t' hid, htypes, List.map_append, List.map_cons, List.sum_append, List.sum_cons]
  omega

theorem Module.countCalls_updateMethod (op : CallOp) {id : MethodId} {t : TypeDecl} {x : Method}
    (h : m.method? id = some (t, x)) (f : Method → Method) :
    (m.updateMethod id f).countCalls op + x.countCalls op = m.countCalls op + (f x).countCalls op := by
  obtain ⟨front, back, before, after, htypes, hmethods, -, -, hupdate⟩ := exists_updateMethod_eq h
  simp only [countCalls, TypeDecl.countCalls, hupdate, htypes, hmethods, List.map_append, List.map_cons,
    List.sum_append, List.sum_cons]
  omega

private theorem Module.countCalls_setBody (op : CallOp) {id : MethodId} {b : Body} (h : m.body? id = some b)
    (b' : Body) :
    (m.setBody id b').countCalls op + AdviceWeaving.countCalls op b.code =
      m.countCalls op + AdviceWeaving.countCalls op b'.code := by
  obtain ⟨⟨t, x⟩, hx, hb⟩ := Option.bind_eq_some_iff.1 h
  have hb : x.body = some b := hb
  have hcalls : x.countCalls op = AdviceWeaving.countCalls op b.code := by rw [Method.countCalls, hb]; rfl
  rw [← hcalls]
  exact countCalls_updateMethod op hx _

end

/-! ### What is put in -/

/-- What has been done, in numbers: into how many targets advice has been put, how many calls of entry advice, of exit
advice, and of hidden methods at the start of constructors have been put in, and how many markers have been removed. -/
structure Amounts where
  targets : Nat := 0
  entry : Nat := 0
  exit : Nat := 0
  prologues : Nat := 0
  stripped : Nat := 0

instance : Add Amounts where
  add a b := ⟨a.targets + b.targets, a.entry + b.entry, a.exit + b.exit, a.prologues + b.prologues,
    a.stripped + b.stripped⟩

@[simp] theorem Amounts.add_def (a b : Amounts) :
    a + b = ⟨a.targets + b.targets, a.entry + b.entry, a.exit + b.exit, a.prologues + b.prologues,
      a.stripped + b.stripped⟩ := rfl

/-- From the workspace `w` to `w'` the tally counts the amounts, and as many calls have come. -/
structure Workspace.Counts (w w' : Workspace) (n : Amounts) : Prop where
  targets_eq : w'.pass.tally.targets = w.pass.tally.targets + n.targets
  entrySites_eq : w'.pass.tally.entrySites = w.pass.tally.entrySites + n.entry
  exitSites_eq : w'.pass.tally.exitSites = w.pass.tally.exitSites + n.exit
  markersStripped_eq : w'.pass.tally.markersStripped = w.pass.tally.markersStripped + n.stripped
  calls_eq : ∀ op, w'.module.countCalls op =
    w.module.countCalls op + if op = .call then n.entry + n.exit + n.prologues else 0

namespace Workspace.Counts

variable {w w₁ w' : Workspace} {n n' : Amounts}

/-- Nothing has been done where no calls have come and no number has changed that tells of them. -/
theorem idle (hcalls : ∀ op, w'.module.countCalls op = w.module.countCalls op)
    (htargets : w'.pass.tally.targets = w.pass.tally.targets)
    (hentry : w'.pass.tally.entrySites = w.pass.tally.entrySites)
    (hexit : w'.pass.tally.exitSites = w.pass.tally.exitSites)
    (hstripped : w'.pass.tally.markersStripped = w.pass.tally.markersStripped) : w.Counts w' {} :=
  ⟨htargets, hentry, hexit, hstripped, fun op => by simp [hcalls]⟩

theorem trans (h : w.Counts w₁ n) (h' : w₁.Counts w' n') : w.Counts w' (n + n') where
  targets_eq := by rw [h'.targets_eq, h.targets_eq, Nat.add_assoc]; rfl
  entrySites_eq := by rw [h'.entrySites_eq, h.entrySites_eq, Nat.add_assoc]; rfl
  exitSites_eq := by rw [h'.exitSites_eq, h.exitSites_eq, Nat.add_assoc]; rfl
  markersStripped_eq := by rw [h'.markersStripped_eq, h.markersStripped_eq, Nat.add_assoc]; rfl
  calls_eq op := by
    rw [h'.calls_eq, h.calls_eq]
    simp only [Amounts.add_def]
    split <;> omega

private theorem idle_trans (h : w.Counts w₁ {}) (h' : w₁.Counts w' n) : w.Counts w' n := by
  simpa using h.trans h'

/-- What else a pass knows does not matter. -/
theorem of_eq (h : w.Counts w₁ n) (hmodule : w'.module = w₁.module) (htally : w'.pass.tally = w₁.pass.tally) :
    w.Counts w' n := by
  obtain ⟨htargets, hentry, hexit, hstripped, hcalls⟩ := h
  rw [← htally] at htargets hentry hexit hstripped
  rw [← hmodule] at hcalls
  exact ⟨htargets, hentry, hexit, hstripped, hcalls⟩

/-- A body with what has been put in, in the place of the body without it. -/
private theorem of_setBody {id : MethodId} {body body' : Body} (hbody : w.module.body? id = some body)
    (hmodule : w'.module = w.module.setBody id body')
    (hcalls : ∀ op, countCalls op body'.code =
      countCalls op body.code + if op = .call then n.entry + n.exit + n.prologues else 0)
    (htargets : w'.pass.tally.targets = w.pass.tally.targets + n.targets)
    (hentry : w'.pass.tally.entrySites = w.pass.tally.entrySites + n.entry)
    (hexit : w'.pass.tally.exitSites = w.pass.tally.exitSites + n.exit)
    (hstripped : w'.pass.tally.markersStripped = w.pass.tally.markersStripped + n.stripped) : w.Counts w' n where
  targets_eq := htargets
  entrySites_eq := hentry
  exitSites_eq := hexit
  markersStripped_eq := hstripped
  calls_eq op := by
    have hset := Module.countCalls_setBody op hbody body'
    rw [hcalls, ← hmodule] at hset
    omega

end Workspace.Counts

/-- How many pieces of advice of a marker type are called then. -/
def MarkerType.count (m : MarkerType) (timing : Timing) : Nat :=
  m.advice.countP (·.timing = timing)

namespace Weaving

open Step

variable {w w' : Workspace} {s : PassStage} {u : Unit} {t : Target} {base : Body} {receiver : List Instruction}

private theorem counts_entered {id : MethodId} {body : Body} {code : List Instruction}
    (hbody : w.module.body? id = some body) (hcode : ∀ op, countCalls op code = if op = .call then 1 else 0) :
    w.Counts (w.entered code id body) { entry := 1 } := by
  refine .of_setBody hbody rfl (fun op => ?_) rfl rfl rfl rfl
  simp [Body.countCalls_splice, hcode]

private theorem counts_slotOf {id : MethodId} {type : ValueType} {slot : UInt16}
    (hy : Yields (slotOf id type) w slot w') :
    w.Counts w' {} := by
  obtain ⟨-, rfl⟩ | ⟨-, body, body', hbody, hadd, rfl⟩ := yields_slotOf_iff.1 hy
  · exact .idle (fun _ => rfl) rfl rfl rfl rfl
  · refine .of_setBody hbody rfl (fun op => ?_) rfl rfl rfl rfl
    have hcode : body'.code = body.code := by
      unfold Body.addLocal at hadd
      split at hadd <;> cases hadd
      rfl
    simp [hcode]

/-- What has been put around a body has no `ret`. -/
private theorem countReturns_of_at (h : w.At s) {id : MethodId} {body : Body} (hbase : s.module.body? id = some base)
    (hbody : w.module.body? id = some body) : countReturns body.code = countReturns base.code := by
  obtain ⟨bodies, h⟩ := h
  have haround := h.around id base hbase
  obtain rfl := h.bodies_eq hbase hbody
  rw [haround.code_eq, Wrapping.code, countReturns, List.countP_append, haround.entry_plain.countP_isReturn,
    Nat.zero_add]
  exact Wrapping.countP_flatMap_blockWith haround.exit_plain base.code

private theorem counts_exited {id : MethodId} {body : Body} {code : List Instruction} (h : w.At s)
    (hbase : s.module.body? id = some base) (hbody : w.module.body? id = some body)
    (hcode : ∀ op, countCalls op code = if op = .call then 1 else 0) :
    w.Counts (w.exited code id body) { exit := countReturns base.code } := by
  have hreturns := countReturns_of_at h hbase hbody
  have hexits : (body.spliceAtExits fun _ => code).2 = countReturns base.code :=
    (Body.length_exits body).trans hreturns
  rw [Workspace.exited, hexits]
  refine .of_setBody hbody rfl (fun op => ?_) rfl rfl rfl rfl
  rw [Body.countCalls_spliceAtExits, hcode, hreturns]
  split <;> simp

private theorem counts_injectAdvice {a : Advice} (h : w.At s) (hbase : s.module.body? t.id = some base)
    (hreceiver : ∀ op, countCalls op receiver = 0) (hy : Yields (injectAdvice a receiver t) w u w') :
    w.Counts w'
      { entry := [a].countP (·.timing = .onEntry),
        exit := [a].countP (·.timing = .onExit) * countReturns base.code } := by
  obtain ⟨htiming, body, hbody, -, rfl⟩ | ⟨htiming, -, body, hbody, -, rfl⟩ |
    ⟨htiming, -, slot, w₁, body, hslot, hbody, -, rfl⟩ := yields_injectAdvice_iff.1 hy
  · simpa [htiming] using counts_entered hbody fun op => a.countCalls_entryCode (hreceiver op) t
  · simpa [htiming] using counts_exited h hbase hbody fun op => a.countCalls_exitCode (hreceiver op) t none
  · obtain ⟨bodies, hholds⟩ := h
    obtain ⟨-, h₁⟩ := holds_slotOf hholds hbase hslot
    simpa [htiming] using (counts_slotOf hslot).idle_trans
      (counts_exited h₁ hbase hbody fun op => a.countCalls_exitCode (hreceiver op) t (some slot))

private theorem counts_injectList (hplain : Plain receiver) (hreceiver : ∀ op, countCalls op receiver = 0)
    (advice : List Advice) (h : w.At s) (hbase : s.module.body? t.id = some base)
    (hy : Yields (forM advice fun a => injectAdvice a receiver t) w u w') :
    w.Counts w'
      { entry := advice.countP (·.timing = .onEntry),
        exit := advice.countP (·.timing = .onExit) * countReturns base.code } := by
  induction advice generalizing w s with
  | nil =>
    obtain rfl := yields_forM_nil.1 hy
    simpa using Workspace.Counts.idle (w := w') (fun _ => rfl) rfl rfl rfl rfl
  | cons a advice ih =>
    obtain ⟨w₁, ha, hy⟩ := yields_forM_cons.1 hy
    have hcounts := (counts_injectAdvice h hbase hreceiver ha).trans
      (ih (at_injectAdvice h hbase hplain ha) hbase hy)
    rw [← List.singleton_append, List.countP_append, List.countP_append, Nat.add_mul]
    exact hcounts

private theorem counts_injectAll {m : MarkerType} {handle? : Option Handle} (h : w.At s)
    (hbase : s.module.body? t.id = some base) (hy : Yields (injectAll m handle? t) w u w') :
    w.Counts w' { entry := m.count .onEntry, exit := m.count .onExit * countReturns base.code } := by
  simp [injectAll] at hy
  exact counts_injectList (plain_receiverOf _ handle? t) (fun _ => countCalls_receiverOf _ handle? t) m.advice h hbase
    hy

/-- All advice goes to every target, whose `ret`s stay as many as they are. -/
private theorem counts_injectTargets {m : MarkerType} {handle? : Option Handle} {targets : List Target}
    {returns : MethodId → Nat} (h : w.At s)
    (hbodies : ∀ t ∈ targets, ∃ base, s.module.body? t.id = some base ∧ countReturns base.code = returns t.id)
    (hy : Yields (forM targets (injectAll m handle?)) w u w') :
    w.Counts w'
      { entry := targets.length * m.count .onEntry,
        exit := (targets.map fun t => m.count .onExit * returns t.id).sum } := by
  induction targets generalizing w s with
  | nil =>
    obtain rfl := yields_forM_nil.1 hy
    simpa using Workspace.Counts.idle (w := w') (fun _ => rfl) rfl rfl rfl rfl
  | cons t targets ih =>
    obtain ⟨w₁, ht, hy⟩ := yields_forM_cons.1 hy
    obtain ⟨base, hbase, hreturns⟩ := hbodies t List.mem_cons_self
    have hcounts := (counts_injectAll h hbase ht).trans
      (ih (at_injectAll h hbase ht) (fun t' ht' => hbodies t' (List.mem_cons_of_mem t ht')) hy)
    rw [hreturns] at hcounts
    rw [List.map_cons, List.sum_cons, List.length_cons, Nat.succ_mul, Nat.add_comm (targets.length * _)]
    exact hcounts

end Weaving

/-! ### Hidden members -/

private theorem TypeDecl.countCalls_withHandle (op : CallOp) (storage : HandleStorage) (id : MethodId) (t : TypeDecl) :
    (t.withHandle storage id).countCalls op =
      t.countCalls op + if op = .call then
        if (t.method? initializerName).isNone then t.constructorIds.length else 0 else 0 := by
  cases hm : t.method? initializerName with
  | some x => simp [countCalls, withHandle, methodsWithHandle, hm]
  | none =>
    have hprologue (x : Method) : (x.prologue (initializerCall (initializerSig t.name))).countCalls op =
        x.countCalls op + if x.constructs then if op = .call then 1 else 0 else 0 := by
      cases hc : x.isConstructor <;> cases hb : x.body <;>
        simp [Method.prologue, Method.countCalls, Method.constructs, hc, hb, Body.countCalls_splice,
          countCalls_initializerCall]
    have hmethods (methods : List Method) :
        (methods.map fun x => (x.prologue (initializerCall (initializerSig t.name))).countCalls op).sum =
          (methods.map (·.countCalls op)).sum +
            if op = .call then (methods.filter (·.constructs)).length else 0 := by
      induction methods with
      | nil => simp
      | cons x methods ih =>
        rw [List.map_cons, List.sum_cons, hprologue, ih, List.map_cons, List.sum_cons, List.filter_cons]
        by_cases hop : op = .call <;> cases x.constructs <;> simp [hop] <;> omega
    have hhidden : ({ initializerMethod storage (t.handle storage) with id } : Method).countCalls op = 0 :=
      countCalls_initializerCode storage (t.handle storage)
    simp [countCalls, withHandle, methodsWithHandle, hm, constructorIds, Function.comp_def, hmethods, hhidden]

/-- How many `ret` instructions a method has before anything is put in.  A method that a pass makes has one. -/
def Module.returns (m : Module) (id : MethodId) : Nat :=
  (m.body? id).elim 1 fun b => countReturns b.code

/-- What is put in for a marker type that is woven, in a pass over the module `m`. -/
def Admission.amounts (a : Admission) (m : Module) : Amounts where
  targets := a.targets.length
  entry := a.targets.length * a.marker.count .onEntry
  exit := (a.targets.map fun t => a.marker.count .onExit * m.returns t.id).sum
  prologues := if a.initializes then (m.type? a.marker.owner).elim 0 (·.constructorIds.length) else 0

namespace Weaving

open Step

variable {w w' : Workspace} {s : PassStage} {o : Outline} {m : MarkerType} {u : Unit} {handle? : Option Handle}

/-- The hidden method is called from all constructors if it is made, and else from none. -/
private theorem counts_handleFor {t : TypeDecl} (h : w.At s) (ht : s.module.type? m.owner = some t)
    (hinstance : m.advice.any (!·.isStatic) = true) (hnew : s.handles.lookup m.owner = none)
    (hy : Yields (handleFor m) w handle? w') :
    w.Counts w' { prologues := if (t.method? initializerName).isNone then t.constructorIds.length else 0 } := by
  obtain ⟨bodies, h⟩ := h
  obtain ⟨hstatic, -⟩ | ⟨-, handle, -, hhandle⟩ := yields_handleFor_iff.1 hy
  · rw [hinstance] at hstatic
    cases hstatic
  have ht' : w.module.type? m.owner = some (t.withBodies bodies) := by
    rw [h.module_eq, Module.type?_withBodies, ht]
    rfl
  obtain ⟨hknown, -⟩ | ⟨-, t', ht'', -, rfl, rfl⟩ := yields_handleOf_iff.1 hhandle
  · rw [Pass.handle?, h.handles_eq, hnew] at hknown
    cases hknown
  cases ht'.symm.trans ht''
  refine ⟨rfl, rfl, rfl, rfl, fun op => ?_⟩
  have hid : ((t.withBodies bodies).withHandle w.pass.settings.handleStorage ⟨w.module.ids.nextMethod⟩).id = m.owner :=
    show (t.withBodies bodies).id = m.owner from Module.id_of_type? ht'
  have hput := Module.countCalls_put op ht' hid
  rw [TypeDecl.countCalls_withHandle, TypeDecl.method?_withBodies, Option.isNone_map,
    TypeDecl.constructorIds_withBodies] at hput
  have hcalls : (w.module.withHandle w.pass.settings.handleStorage (t.withBodies bodies)).countCalls op =
      (w.module.put ((t.withBodies bodies).withHandle w.pass.settings.handleStorage
        ⟨w.module.ids.nextMethod⟩)).countCalls op := rfl
  rw [hcalls]
  simp only [Nat.zero_add]
  omega

private theorem counts_tallyTargets (w : Workspace) (n : Nat) :
    w.Counts (w.counting fun tally => { tally with targets := tally.targets + n }) { targets := n } :=
  ⟨rfl, rfl, rfl, rfl, fun op => by simp⟩

section

variable {m₀ : Module} (hmodule : s.module = o.module)
  (hreturns : ∀ t ∈ o.module.targets m.name,
    ∃ base, o.module.body? t.id = some base ∧ countReturns base.code = m₀.returns t.id)
  (hconstructors : ∀ t, o.module.type? m.owner = some t →
    ∃ t₀, m₀.type? m.owner = some t₀ ∧ t.constructorIds.length = t₀.constructorIds.length)

include hmodule hreturns hconstructors

private theorem counts_injectInto (h : w.At s) (hnew : s.handles.lookup m.owner = none)
    (hwoven : ¬ ((o.module.targets m.name).isEmpty ∨
      (m.firstViolation? (o.module.targets m.name)).isSome))
    (hy : Yields (injectInto m (o.module.targets m.name)) w u w') :
    ∃ a, (o.enlist s.settings m).admissions = o.admissions ++ [a] ∧ a.marker = m ∧ w.Counts w' (a.amounts m₀) := by
  obtain ⟨handle?, w₁, w₂, hhandle, hforM, rfl⟩ := yields_injectInto_iff.1 hy
  rcases at_handleFor h hnew hhandle with ⟨hstatic, rfl, rfl⟩ | ⟨hinstance, handle, t, rfl, ht, -, h₁⟩
  · rw [Outline.enlist_of_static hwoven hstatic]
    refine ⟨_, rfl, rfl, ?_⟩
    have hcounts := counts_injectTargets h (by rw [hmodule]; exact hreturns) hforM
    simpa [Admission.amounts] using hcounts.trans (counts_tallyTargets w₂ _)
  · have hcounts := counts_handleFor h ht hinstance hnew hhandle
    rw [hmodule] at ht h₁
    rw [Outline.enlist_of_instance hwoven hinstance ht]
    refine ⟨_, rfl, rfl, ?_⟩
    have hnumbered : o.module.Numbered := hmodule ▸ h.choose_spec.numbered
    have hgains := hnumbered.gainsHandle (Module.id_of_type? ht ▸ ht) s.settings.handleStorage
    -- the targets are still there, with the bodies that they had
    have hbodies : ∀ t' ∈ o.module.targets m.name, ∃ base,
        ((o.module.addHandleField s.settings.handleStorage t).addInitializer s.settings.handleStorage t).body? t'.id =
          some base ∧ countReturns base.code = m₀.returns t'.id := by
      intro t' ht'
      obtain ⟨base, hbase, hcount⟩ := hreturns t' ht'
      obtain ⟨p, hp, hpid, hpbody⟩ := hnumbered.body?_eq_some_iff_profile.1 hbase
      exact ⟨base, hgains.numbered.body?_eq_some_iff_profile.2 ⟨p, hgains.kept p hp, hpid, hpbody⟩, hcount⟩
    obtain ⟨t₀, ht₀, hlength⟩ := hconstructors t ht
    have hreported : w₁.Counts (w₁.warned m (some handle) (o.module.targets m.name)) {} :=
      .idle (fun _ => rfl) rfl rfl rfl rfl
    have hat : (w₁.warned m (some handle) (o.module.targets m.name)).At _ := h₁.of_eq rfl rfl rfl rfl rfl
    have hrest := (hreported.idle_trans (counts_injectTargets hat hbodies hforM)).trans
      (counts_tallyTargets w₂ (o.module.targets m.name).length)
    simpa [Admission.amounts, ht₀, hlength] using hcounts.trans hrest

/-- A marker type that is not woven puts nothing in. -/
theorem counts_inject {accepted : Bool} (h : w.At s) (hnew : s.handles.lookup m.owner = none)
    (hy : Yields (inject m) w accepted w') :
    (o.enlist s.settings m).admissions = o.admissions ∧ w.Counts w' {} ∨
      ∃ a, (o.enlist s.settings m).admissions = o.admissions ++ [a] ∧ a.marker = m ∧ w.Counts w' (a.amounts m₀) := by
  have htargets : w.module.targets m.name = o.module.targets m.name := by
    rw [targets_of_at h, hmodule]
  have h₁ : (w.presented m).At s := h.of_eq rfl rfl rfl rfl rfl
  have hcounts : w.Counts (w.presented m) {} := .idle (fun _ => rfl) rfl rfl rfl rfl
  rcases yields_inject_iff.1 hy with ⟨hempty, -, rfl⟩ | ⟨-, _, _, hviolation, -, rfl⟩ | ⟨hne, hlawful, -, hinto⟩
  · rw [htargets] at hempty
    refine .inl ⟨by rw [Outline.enlist_of_rejected (.inl (by rw [hempty]; rfl))], ?_⟩
    exact hcounts.idle_trans (.idle (fun _ => rfl) rfl rfl rfl rfl)
  · rw [htargets] at hviolation
    refine .inl ⟨by rw [Outline.enlist_of_rejected (.inr (by rw [hviolation]; rfl))], ?_⟩
    exact hcounts.idle_trans (.idle (fun _ => rfl) rfl rfl rfl rfl)
  · rw [htargets] at hne hlawful hinto
    obtain ⟨a, hadmissions, hmarker, hinto⟩ := counts_injectInto hmodule hreturns hconstructors h₁ hnew
      (by simp [hne, hlawful]) hinto
    exact .inr ⟨a, hadmissions, hmarker, hcounts.idle_trans hinto⟩

end

end Weaving

end AdviceWeaving
