import AdviceWeaving.Proofs.Machine
import AdviceWeaving.Proofs.Stage

/-!
# Making hidden members

To ask for the handle of a type that has none makes one (`Weaving.yields_handleOf_new`): a member that the type has is
used as it is, one that it has not is appended, and a hidden method that is new is called by all constructors.  A field
that is made is static exactly for the shared storage; a hidden method that is made assigns the receiver to the field
while this is null, and the constructors run it first (`Weaving.handleOf_postcondition`).  None of this holds of members
that were there (`Weaving.handleOf_uses_what_is_there`).
-/

namespace AdviceWeaving

/-! ### What the hidden method does -/

namespace HandleStorage

/-- Read the field of a handle. -/
def load (field : FieldSig) : HandleStorage → Instruction
  | .perInstance => .field .ldfld field
  | .shared => .field .ldsfld field

/-- Assign to the field of a handle. -/
def store (field : FieldSig) : HandleStorage → Instruction
  | .perInstance => .field .stfld field
  | .shared => .field .stsfld field

/-- On what the field is, if it is that of an instance. -/
def holder {V : Type} (this : V) : HandleStorage → List V
  | .perInstance => [this]
  | .shared => []

end HandleStorage

/-- The code assigns the receiver to the field of a handle while the field is null, and else leaves the field as it
is: it does no more than to read it. A `brtrue` jumps unless it finds null. -/
def AssignsWhileNull (storage : HandleStorage) (field : FieldSig) (code : List Instruction) : Prop :=
  ∀ {V E : Type} (M : Machine V E), (∀ v env, M.taken .brtrue [v] env = true ↔ v ≠ M.null) →
    ∀ f : Frame V E, ∃ v env,
      M.result (storage.load field) (storage.holder (f.args 0)) f.env = ([v], env) ∧
      (v ≠ M.null → M.Returns code 0 f { f with env }) ∧
      (v = M.null → M.Returns code 0 f { f with
        env := (M.result (storage.store field) (f.args 0 :: storage.holder (f.args 0)) env).2 })

namespace Machine

variable {V E : Type} {M : Machine V E} {code : List Instruction} {index : Nat} {f g : Frame V E}

/-- Code that is passed over unless null is found: it runs if null is found, and only then. -/
private theorem returns_unless (fetch rest : List Instruction) {target : UInt64} {v : V} {g' : Frame V E}
    (htaken : ∀ v env, M.taken .brtrue [v] env = true ↔ v ≠ M.null) (hfetch : Plain fetch) (hrest : Plain rest)
    (htarget : target.toNat = fetch.length + 1 + rest.length)
    (hfetched : M.exec fetch f = some { g with stack := v :: g.stack }) (hdone : M.exec rest g = some g') :
    let code := fetch ++ .branch .brtrue target :: (rest ++ [.simple .ret])
    (v ≠ M.null → M.Returns code 0 f g) ∧ (v = M.null → M.Returns code 0 f g') := by
  intro code
  have hbranch : code[fetch.length]? = some (.branch .brtrue target) := by simp [code]
  have hcode (k : Nat) : code[fetch.length + 1 + k]? = (rest ++ [.simple .ret])[k]? := by
    rw [List.getElem?_append_right (by omega), show fetch.length + 1 + k - fetch.length = k + 1 by omega,
      List.getElem?_cons_succ]
  have hret : code[target.toNat]? = some (.simple .ret) := by rw [htarget, hcode]; simp
  have hstart {g₁ : Frame V E} (h : M.Returns code (M.next (.branch .brtrue target) fetch.length
      { g with stack := v :: g.stack }) g g₁) : M.Returns code 0 f g₁ := by
    refine (returns_exec hfetch (fun k hk => ?_) hfetched).2 ?_
    · rw [Nat.zero_add, List.getElem?_append_left hk]
    · rw [Nat.zero_add]
      exact .step hbranch rfl (by simp [Instruction.stackEffect]) h
  have hnext : M.next (.branch .brtrue target) fetch.length { g with stack := v :: g.stack } =
      if M.taken .brtrue [v] g.env then target.toNat else fetch.length + 1 := by
    cases htaken : M.taken .brtrue [v] g.env <;>
      simp [next, Instruction.fallsThrough, Instruction.stackEffect, htaken]
  refine ⟨fun hne => hstart ?_, fun heq => hstart ?_⟩
  · rw [hnext, if_pos ((htaken v g.env).2 hne)]
    exact .ret hret rfl
  · rw [hnext, if_neg fun h => (htaken v g.env).1 h heq]
    refine (returns_exec hrest (fun k hk => ?_) hdone).2 (.ret (htarget ▸ hret) rfl)
    rw [hcode, List.getElem?_append_left hk]

end Machine

/-- The hidden method fills the field of the handle. -/
private theorem assignsWhileNull_initializerCode (storage : HandleStorage) (field : FieldSig) :
    AssignsWhileNull storage field (initializerCode storage field) := by
  intro V E M htaken f
  rcases hread : M.result (storage.load field) (storage.holder (f.args 0)) f.env with ⟨popped, env⟩
  have hload := M.length_result (storage.load field) (storage.holder (f.args 0)) f.env
  rw [hread] at hload
  -- the assignment leaves nothing on the stack
  have hstore := M.length_result (storage.store field) (f.args 0 :: storage.holder (f.args 0)) env
  cases storage with
  | perInstance =>
    obtain ⟨v, rfl⟩ := List.length_eq_one_iff.1 hload
    have hnothing := List.eq_nil_of_length_eq_zero hstore
    refine ⟨v, env, rfl, Machine.returns_unless [.slot .ldarg 0, .field .ldfld field]
      [.slot .ldarg 0, .slot .ldarg 0, .field .stfld field] htaken
      (by simp [Plain, Instruction.isPlain, Instruction.target?, Instruction.isReturn])
      (by simp [Plain, Instruction.isPlain, Instruction.target?, Instruction.isReturn]) rfl ?_ ?_⟩
    · simp only [HandleStorage.load, HandleStorage.holder] at hread
      simp [Machine.exec, Machine.act, Instruction.stackEffect, hread]
    · simp only [HandleStorage.store, HandleStorage.holder] at hnothing
      simp [Machine.exec, Machine.act, Instruction.stackEffect, HandleStorage.store, HandleStorage.holder, hnothing]
  | shared =>
    obtain ⟨v, rfl⟩ := List.length_eq_one_iff.1 hload
    have hnothing := List.eq_nil_of_length_eq_zero hstore
    refine ⟨v, env, rfl, Machine.returns_unless [.field .ldsfld field]
      [.slot .ldarg 0, .field .stsfld field] htaken
      (by simp [Plain, Instruction.isPlain, Instruction.target?, Instruction.isReturn])
      (by simp [Plain, Instruction.isPlain, Instruction.target?, Instruction.isReturn]) rfl ?_ ?_⟩
    · simp only [HandleStorage.load, HandleStorage.holder] at hread
      simp [Machine.exec, Machine.act, Instruction.stackEffect, hread]
    · simp only [HandleStorage.store, HandleStorage.holder] at hnothing
      simp [Machine.exec, Machine.act, Instruction.stackEffect, HandleStorage.store, HandleStorage.holder, hnothing]

/-! ### What holds of a new handle -/

namespace TypeDecl

/-- The type has the field of a handle, of its own type. -/
def HasHandleField (t : TypeDecl) (storage : HandleStorage) (field : FieldSig) : Prop :=
  ∃ f ∈ t.fields, f.name = handleFieldName ∧ f.signature t.name = field ∧
    (f.isStatic ↔ storage = .shared) ∧ f.type = .named t.name

/-- The type has a hidden method, which fills the field of the handle. -/
def HasInitializer (t : TypeDecl) (storage : HandleStorage) (handle : Handle) : Prop :=
  ∃ x ∈ t.methods, x.name = initializerName ∧ x.signature t.name = handle.initializer ∧
    x.isStatic = false ∧ x.params = [] ∧ x.ret = .void ∧
    ∃ b, x.body = some b ∧ AssignsWhileNull storage handle.field b.code

/-- Every constructor of the type calls a method on the receiver before all else. -/
def ConstructorsCall (t : TypeDecl) (initializer : MethodSig) : Prop :=
  ∀ x ∈ t.methods, x.isConstructor → ∀ b, x.body = some b →
    ∃ rest, b.code = .slot .ldarg 0 :: .call .call initializer :: rest

variable {t : TypeDecl} {storage : HandleStorage} {id : MethodId}

theorem field?_withHandle :
    (t.withHandle storage id).field? handleFieldName =
      some ((t.field? handleFieldName).getD (handleField storage t)) := by
  have hnew : (handleField storage t).name = handleFieldName := rfl
  cases hf : t.field? handleFieldName with
  | some f => rw [withHandle, fieldsWithHandle, if_pos (by rw [hf]; rfl), Option.getD_some, ← hf, field?, field?]
  | none =>
    have hnone : t.fields.find? (·.name = handleFieldName) = none := hf
    simp [withHandle, fieldsWithHandle, field?, hnone, List.find?_append, hnew]

private theorem hasHandleField_withHandle (h : t.field? handleFieldName = none) :
    (t.withHandle storage id).HasHandleField storage (t.handle storage) := by
  refine ⟨handleField storage t, ?_, rfl, by simp [handle, h, withHandle], by simp [handleField], rfl⟩
  simp [withHandle, fieldsWithHandle, h]

private theorem hasInitializer_withHandle (h : t.method? initializerName = none) :
    (t.withHandle storage id).HasInitializer storage (t.newHandle storage) := by
  refine ⟨{ initializerMethod storage (t.handle storage) with id }, ?_, rfl, by simp [newHandle, h]; rfl, rfl, rfl,
    rfl, _, rfl, assignsWhileNull_initializerCode storage (t.handle storage)⟩
  simp [withHandle, methodsWithHandle, h]

private theorem constructorsCall_withHandle (h : t.method? initializerName = none) :
    (t.withHandle storage id).ConstructorsCall (t.newHandle storage).initializer := by
  have hinitializer : (t.newHandle storage).initializer = initializerSig t.name := by simp [newHandle, h]
  intro x hx hconstructor b hb
  simp only [withHandle, methodsWithHandle, h, Option.isSome_none, Bool.false_eq_true, if_false, List.mem_append,
    List.mem_map, List.mem_singleton] at hx
  rcases hx with ⟨y, -, rfl⟩ | rfl
  · have hy : y.isConstructor := by
      unfold Method.prologue at hconstructor
      split at hconstructor
      · assumption
      · assumption
    rw [Method.prologue, if_pos hy, Option.map_eq_some_iff] at hb
    obtain ⟨b₀, -, rfl⟩ := hb
    rw [hinitializer, Body.splice, (plain_initializerCall _).map_mapTarget]
    exact ⟨_, rfl⟩
  · cases hconstructor

end TypeDecl

namespace Weaving

open Step

variable {w w' : Workspace} {id : TypeId} {handle : Handle}

/-- A type that gets its handle has the field of it: the one that it had, or else one of its own type, static exactly
for the shared storage.  If it had no hidden method, then it has one that fills this field while it is null, and all
its constructors call it before all else. -/
theorem handleOf_postcondition (hnew : w.pass.handle? id = none) (hy : Yields (handleOf id) w handle w') :
    ∃ t t', w.module.type? id = some t ∧ w'.module.type? id = some t' ∧
      (∃ f, t'.field? handleFieldName = some f ∧ f.signature t'.name = handle.field ∧
        ∀ existing ∈ t.field? handleFieldName, f = existing) ∧
      (t.field? handleFieldName = none →
        t'.HasHandleField w.pass.settings.handleStorage handle.field) ∧
      (t.method? initializerName = none →
        t'.HasInitializer w.pass.settings.handleStorage handle ∧ t'.ConstructorsCall handle.initializer) := by
  obtain ⟨hknown, -⟩ | ⟨-, t, ht, -, rfl, rfl⟩ := yields_handleOf_iff.1 hy
  · cases hnew.symm.trans hknown
  have hid := Module.id_of_type? ht
  refine ⟨t, t.withHandle w.pass.settings.handleStorage ⟨w.module.ids.nextMethod⟩, ht,
    Module.type?_put_self (t := t.withHandle _ _) ht hid, ⟨_, TypeDecl.field?_withHandle, rfl, fun f hf => ?_⟩,
    fun hfield => TypeDecl.hasHandleField_withHandle hfield,
    fun hmethod => ⟨TypeDecl.hasInitializer_withHandle hmethod, TypeDecl.constructorsCall_withHandle hmethod⟩⟩
  rw [Option.mem_def.1 hf]
  rfl

/-- A marker type with a constructor and the given members. -/
def sampleOwner (fields : List Field) (methods : List Method) : TypeDecl where
  name := "Log"
  fields
  methods := { name := Method.constructorName, ret := .void, body := some (.ofCode [.simple .ret]) } :: methods

theorem takesHandle_sampleOwner {fields : List Field} {methods : List Method}
    (h : ∀ x ∈ methods, x.isConstructor = false) : (sampleOwner fields methods).TakesHandle := by
  intro _ x hx hconstructor b hb
  rcases List.mem_cons.1 hx with rfl | hx
  · cases hb
    exact ⟨by simp [Body.ofCode, Instruction.target?], by simp [initializerCall, Instruction.target?]⟩
  · rw [h x hx] at hconstructor
    cases hconstructor

theorem handleOf_postcondition_shared :
    let w : Workspace := ⟨{ settings := { handleStorage := .shared } }, .ofTypes "m" [sampleOwner [] []]⟩
    w.pass.handle? ⟨0⟩ = none ∧ ∃ handle w' t', Yields (handleOf ⟨0⟩) w handle w' ∧
      w'.module.type? ⟨0⟩ = some t' ∧ t'.HasHandleField .shared handle.field ∧
      t'.HasInitializer .shared handle ∧ t'.ConstructorsCall handle.initializer := by
  intro w
  have hy : Yields (handleOf ⟨0⟩) w _ _ := yields_handleOf_new rfl rfl (takesHandle_sampleOwner (by simp))
  obtain ⟨t, t', ht, ht', -, hfield, hinitializer⟩ := handleOf_postcondition (w := w) rfl hy
  cases ht
  exact ⟨rfl, _, _, t', hy, ht', hfield rfl, hinitializer rfl⟩

/-- A field that bears the name of the hidden one is used as it is: a static one even if every instance is to have its
own. -/
theorem handleOf_uses_what_is_there :
    let field : Field := { name := handleFieldName, type := .named "Log", isStatic := true }
    let w : Workspace := ⟨{ settings := { handleStorage := .perInstance } }, .ofTypes "m" [sampleOwner [field] []]⟩
    w.pass.handle? ⟨0⟩ = none ∧ ∃ handle w' t', Yields (handleOf ⟨0⟩) w handle w' ∧
      w'.module.type? ⟨0⟩ = some t' ∧ ¬ t'.HasHandleField .perInstance handle.field := by
  intro field w
  refine ⟨rfl, _, _, _, yields_handleOf_new rfl rfl (takesHandle_sampleOwner (by simp)), rfl, ?_⟩
  rintro ⟨f, hf, -, -, hstatic, -⟩
  obtain rfl := List.mem_singleton.1 hf
  cases hstatic.1 rfl

/-- A method that bears the name of the hidden one is taken for it, but nothing sees to it that the constructors call
it, as they are meant to. -/
theorem handleOf_leaves_constructors :
    let method : Method := { name := initializerName, ret := .void, body := some (.ofCode [.simple .ret]) }
    let w : Workspace := ⟨{}, .ofTypes "m" [sampleOwner [] [method]]⟩
    ∃ handle w' t', Yields (handleOf ⟨0⟩) w handle w' ∧ w'.module.type? ⟨0⟩ = some t' ∧
      ¬ t'.ConstructorsCall handle.initializer := by
  intro method w
  refine ⟨_, _, _, yields_handleOf_new rfl rfl (takesHandle_sampleOwner (by simp; rfl)), rfl, fun hcalls => ?_⟩
  obtain ⟨rest, hcode⟩ := hcalls _ List.mem_cons_self rfl _ rfl
  cases hcode

end Weaving

end AdviceWeaving
