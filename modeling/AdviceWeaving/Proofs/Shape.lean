import AdviceWeaving.Proofs.Walking

/-!
# The shape of woven bodies

A pass that ends well leaves the module of its outline, with every body in the wrapping that the
outline tells (`Module.exists_bodies_of_weave`).  So the instructions of a woven body are the code
on entry, followed by those of the body with the code on exit in front of every `ret`, and every
branch leads where it led before (`Module.woven_body_shape`).
-/

namespace AdviceWeaving

/-! ### A sample -/

namespace Sample

/-- A marker type with entry advice and exit advice, and a method that has a loop. -/
def source : String :=
  "module m[Injection]class L\x7b[Rise(1)]method B()->void\x7bret\x7d" ++
    "[Rise(2)]method E([Argument(2)]v:int32)->void\x7bret\x7d\x7d" ++
    "class C\x7b[L]method F()->int32\x7ba:ldc.i4 0 brtrue a ldc.i4 1 ret\x7d\x7d"

def settings : Settings where
  markerNamespace := ""
  verify := false

def body : Body :=
  .ofCode [.ldcI4 0, .branch .brtrue 0, .ldcI4 1, .simple .ret]

def target : Method where
  id := ⟨2⟩
  name := "F"
  ret := .int32
  attributes := [{ name := "L" }]
  body := some body

def owner : TypeDecl where
  id := ⟨1⟩
  name := "C"
  methods := [target]

def markerDecl : TypeDecl where
  name := "L"
  attributes := [{ name := "Injection" }]
  methods :=
    [{ name := "B", ret := .void, attributes := [{ name := "Rise", args := [.int 1] }]
       body := some (.ofCode [.simple .ret]) },
      { id := ⟨1⟩, name := "E", ret := .void, attributes := [{ name := "Rise", args := [.int 2] }]
        params :=
          [{ name := "v", type := .int32, attributes := [{ name := "Argument", args := [.int 2] }] }]
        body := some (.ofCode [.simple .ret]) }]

def module : Module where
  name := "m"
  types := [markerDecl, owner]
  ids := ⟨2, 3⟩

def onEntry : Advice where
  name := "B"
  method := ⟨0⟩
  timing := .onEntry
  bindings := []
  ret := .void
  isStatic := false
  call := ⟨"L", "B", true, [], .void⟩

def onExit : Advice where
  name := "E"
  method := ⟨1⟩
  timing := .onExit
  bindings := [⟨.int32, "v", some .targetReturnValue⟩]
  ret := .void
  isStatic := false
  call := ⟨"L", "E", true, [.int32], .void⟩

def field : FieldSig :=
  ⟨"L", "instance_field", .named "L"⟩

def admission : Admission where
  marker := ⟨⟨0⟩, "L", [onEntry, onExit]⟩
  targets := [target.target owner]
  handle? := some field
  initializes := true

/-- The body of the method, woven. -/
def woven : Body where
  locals := #[.int32]
  initLocals := true
  code :=
    [.slot .ldarg 0, .field .ldfld field, .call .call onEntry.call, .simple .nop,
      .ldcI4 0, .branch .brtrue 4, .ldcI4 1,
      .slot .stloc 0, .slot .ldarg 0, .field .ldfld field, .slot .ldloc 0, .call .call onExit.call,
      .simple .nop, .slot .ldloc 0, .simple .ret]

theorem decode_source : Encoding.text.decode source = .ok module := by
  have h : (Encoding.text.decode source).toOption = some module := by decide +kernel
  cases hd : Encoding.text.decode source with
  | error e => rw [hd] at h; cases h
  | ok m => rw [hd] at h; exact congrArg Except.ok (Option.some.inj h)

theorem exists_weave :
    ∃ report m', module.weave settings = (.ok report, m') ∧ m'.body? ⟨2⟩ = some woven := by
  have h : (module.weave settings).1.toOption.isSome ∧
      (module.weave settings).2.body? ⟨2⟩ = some woven := by
    decide +kernel
  rcases hw : module.weave settings with ⟨failure | report, m'⟩
  · rw [hw] at h
    cases h.1
  · rw [hw] at h
    exact ⟨report, m', rfl, h.2⟩

theorem adviceFor_outline :
    (module.outline settings).adviceFor (target.target owner) =
      [(admission, onEntry), (admission, onExit)] := by
  decide +kernel

end Sample

namespace Module

variable {encoding : Encoding} {source : String} {m m' : Module} {settings : Settings}
  {report : PassReport}

/-- The bodies that a pass leaves are those of its outline, in the wrappings that this tells. -/
theorem exists_bodies_of_weave (hm : m.Numbered) (h : m.weave settings = (.ok report, m')) :
    ∃ bodies, m' = (m.outline settings).module.withBodies bodies ∧
      ∀ p ∈ (m.outline settings).module.profiles, ∀ b, p.body = some b → ∃ cursor slot?,
        ((m.outline settings).wrapping settings.handleStorage p b.locals.size).Around b
          (bodies p.target.id) cursor slot? := by
  obtain ⟨w, rfl, _, hfollows⟩ := follows_weave hm h
  obtain ⟨handles, wrap, ⟨bodies, hholds⟩, _, hwrap⟩ := hfollows.at_outline
  refine ⟨bodies, hholds.module_eq, fun p hp b hb => ?_⟩
  have haround : (wrap p.target.id).Around b (bodies p.target.id) _ _ :=
    hholds.around p.target.id b (by rw [hfollows.sound.numbered.body?_of_profile hp, hb])
  exact ⟨_, _, hwrap p hp b hb ▸ haround⟩

/-- A body of the module that is woven, and what has become of it. -/
theorem exists_around_of_weave (hm : m.Numbered) (h : m.weave settings = (.ok report, m'))
    {t : TypeDecl} {x : Method} (hx : (t, x) ∈ m.methods) {b : Body} (hb : x.body = some b) :
    ∃ body cursor slot?, m'.body? x.id = some body ∧
      ((m.outline settings).wrapping settings.handleStorage (x.profile t) b.locals.size).Around b
        body cursor slot? := by
  obtain ⟨bodies, rfl, haround⟩ := exists_bodies_of_weave hm h
  have hsound := hm.sound_outline settings
  have hp := hsound.kept (x.profile t) (mem_profiles.2 ⟨t, x, hx, rfl⟩)
  obtain ⟨cursor, slot?, haround⟩ := haround _ hp b hb
  refine ⟨_, cursor, slot?, ?_, haround⟩
  have hbody : (m.outline settings).module.body? x.id = some b :=
    (hsound.numbered.body?_of_profile hp).trans hb
  rw [body?_withBodies, hbody]
  rfl

/-- The shape of a woven body.  `L` is the advice that is woven into the method `x` of the type `t`,
in order; a constructor first calls the hidden method of its type, if that is made in the pass.  The places of all
targets are 64-bit words, for else the pass has not ended. -/
theorem woven_body_shape (decoded : encoding.decode source = .ok m)
    (woven : m.weave settings = (.ok report, m')) {t : TypeDecl} {x : Method} {b : Body}
    (declared : (t, x) ∈ m.methods) (hasBody : x.body = some b) :
    let o := m.outline settings
    let L := o.adviceFor (x.target t)
    let Pre := if x.isConstructor && o.initializes t.id then
      [.slot .ldarg 0, .call .call ⟨t.name, initializerName, true, [], .void⟩] else []
    let P := Pre ++ (L.filter (·.2.timing = .onEntry)).flatMap
      (Admission.entryCode settings.handleStorage (x.target t))
    let E := (L.filter (·.2.timing = .onExit)).flatMap
      (Admission.exitCode settings.handleStorage (x.target t) (UInt16.ofNat b.locals.size))
    let place (index : Nat) : Nat := index + P.length + E.length * returnsBelow b.code index
    let bindsResult := L.any fun p => p.2.timing = .onExit && p.2.binds .targetReturnValue
    (∀ i ∈ b.code, ∀ target, i.target? = some target → place target.toNat < UInt64.size) ∧
    ∃ body, m'.body? x.id = some body ∧
      body.code = P ++ (b.code.flatMap fun i =>
        if i.isReturn then E ++ [i]
        else [i.mapTarget fun target => UInt64.ofNat (place target.toNat)]) ∧
      body.locals = (if bindsResult then b.locals.push x.ret else b.locals) ∧
      body.initLocals = (b.initLocals || bindsResult) := by
  intro o L Pre P E place bindsResult
  obtain ⟨body, cursor, slot?, hbody, haround⟩ :=
    exists_around_of_weave (numbered_of_decode decoded) woven declared hasBody
  have hslot : (o.wrapping settings.handleStorage (x.profile t) b.locals.size).slot? =
      if bindsResult then some x.ret else none := rfl
  refine ⟨haround.fits, body, hbody, haround.code_eq, ?_, ?_⟩
  · rw [haround.locals_eq, hslot]
    cases bindsResult <;> simp
  · rw [haround.initLocals_eq, hslot]
    cases bindsResult <;> simp

/-- The sample, woven: the loop leads behind the code on entry. -/
theorem woven_body_shape_sample :
    ∃ report m' body, Sample.module.weave Sample.settings = (.ok report, m') ∧
      m'.body? ⟨2⟩ = some body ∧ body.code = Sample.woven.code ∧ body.locals = #[.int32] ∧
      body.initLocals = true := by
  obtain ⟨report, m', hweave, _⟩ := Sample.exists_weave
  have h := woven_body_shape Sample.decode_source hweave (t := Sample.owner) (x := Sample.target)
    (b := Sample.body) (by decide) rfl
  dsimp only at h
  rw [Sample.adviceFor_outline] at h
  obtain ⟨-, body, hbody, hcode, hlocals, hinit⟩ := h
  exact ⟨report, m', body, hweave, hbody, hcode.trans (by decide), hlocals, hinit⟩

end Module

end AdviceWeaving
