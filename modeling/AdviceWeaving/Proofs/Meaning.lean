import AdviceWeaving.Proofs.Calling
import AdviceWeaving.Proofs.Verified

/-!
# What woven bodies do

The code that a pass puts around a body makes the calls of its advice and leaves all else as it was
(`Outline.Sound.transparent`).  So a woven body does what it did before, with the calls of its
advice around it (`Module.woven_body_runs`).
-/

namespace AdviceWeaving

variable {V E : Type} {M : Machine V E}

/-! ### Woven bodies -/

namespace Outline.Sound

variable {o : Outline} {settings : Settings} {m : Module} {visited : List TypeId} {t : Target}
  {x : Admission × Advice}

/-- Before a call of advice there is a receiver on the stack just if it is called on one. -/
private theorem length_receiver (h : o.Sound settings m visited) (hx : x ∈ o.adviceFor t)
    (huniform : x.1.marker.IsUniform) (storage : HandleStorage) (args : UInt16 → V) (env : E) :
    (M.receiver storage t x.1 args env).length = (!x.2.isStatic).toNat := by
  rw [Machine.length_receiver, h.handle?_isSome hx huniform]

private theorem exec_entryCode (h : o.Sound settings m visited) (hx : x ∈ o.adviceFor t)
    (huniform : x.1.marker.IsUniform) (storage : HandleStorage)
    (hsilent : ∀ i ∈ Admission.entryCode storage t x, M.Silent i) (n : Nat) (f : Frame V E) :
    ∃ f', M.exec (Admission.entryCode storage t x) f = some f' ∧
      f.Like n [] [M.entryCall storage t f.args f.env x] f' := by
  have hlength := h.length_receiver (M := M) hx huniform storage f.args f.env
  have hmem {i : Instruction} (hi : i ∈ x.1.receiver storage t ∨ i ∈ x.2.callCode) :
      i ∈ Admission.entryCode storage t x := by
    simp only [Admission.entryCode, Advice.entryCode, List.mem_append]
    tauto
  obtain ⟨env, hreceiver, henv⟩ := M.exec_receiver storage t x.1 f
  obtain ⟨env', hexec, henv'⟩ := Machine.exec_entryCode (h.declared hx) hlength hreceiver
  have hsame : env' = f.env :=
    (henv' fun i hi => hsilent i (hmem (.inr hi))).trans
      (henv fun i hi => hsilent i (hmem (.inl hi)))
  exact ⟨_, hexec, rfl, rfl, hsame, fun _ _ => rfl, rfl⟩

private theorem exec_exitCode (h : o.Sound settings m visited) (hx : x ∈ o.adviceFor t)
    (huniform : x.1.marker.IsUniform) (storage : HandleStorage) {n : Nat}
    (hroom : x.2.binds .targetReturnValue → n < Body.maxLocals)
    (hsilent : ∀ i ∈ Admission.exitCode storage t (UInt16.ofNat n) x, M.Silent i) (f : Frame V E)
    (hstack : f.stack.length = (!t.ret.isVoid).toNat) :
    ∃ f', M.exec (Admission.exitCode storage t (UInt16.ofNat n) x) f = some f' ∧
      f.Like n [] [M.exitCall storage t f.stack f.args f.env x] f' := by
  have hlength := h.length_receiver (M := M) hx huniform storage f.args f.env
  have hmem {i : Instruction} (hi : i ∈ x.1.receiver storage t ++ x.2.callCode) :
      i ∈ Admission.exitCode storage t (UInt16.ofNat n) x := by
    simp only [Admission.exitCode, Advice.exitCode, List.mem_append] at hi ⊢
    tauto
  have hnonempty : x.2.binds .targetReturnValue → f.stack ≠ [] := by
    intro hbinds hnil
    rw [(h.serves hx).isVoid_eq_false hbinds, hnil] at hstack
    cases hstack
  obtain ⟨env, locals, hexec, henv, hlocals⟩ :=
    Machine.exec_exitCode (h.declared hx) (UInt16.ofNat n) hlength hnonempty fun stack locals =>
      M.exec_receiver storage t x.1 { f with stack, locals }
  refine ⟨_, hexec, rfl, rfl, henv fun i hi => hsilent i (hmem hi),
    fun k hk => hlocals k fun hbinds hslot => ?_, rfl⟩
  rw [hslot, UInt16.toNat_ofNat_of_lt' (hroom hbinds)] at hk
  omega

/-- The code that a pass puts around a body makes the calls of the advice, and nothing else. -/
theorem transparent (h : o.Sound settings m visited) {p : Profile} {n : Nat}
    (storage : HandleStorage) (huniform : ∀ x ∈ o.adviceFor p.target, x.1.marker.IsUniform)
    (hroom : (o.wrapping storage p n).slot?.isSome → n < Body.maxLocals)
    (hsilent : ∀ i ∈ (o.wrapping storage p n).entry ++ (o.wrapping storage p n).exit, M.Silent i) :
    (o.wrapping storage p n).Transparent M n (!p.target.ret.isVoid).toNat
      (fun args env => o.prologueCalls p args ++
        ((o.adviceFor p.target).filter (·.2.timing = .onEntry)).map
          (M.entryCall storage p.target args env))
      fun stack args env =>
        ((o.adviceFor p.target).filter (·.2.timing = .onExit)).map
          (M.exitCall storage p.target stack args env) where
  entry f := by
    -- the call of the hidden method, and behind it those of the entry advice
    have hprologue : ∀ i ∈ o.prologue p, M.Silent i := fun i hi =>
      hsilent i (List.mem_append_left _ (List.mem_append_left _ hi))
    obtain ⟨f', hexec, hlike⟩ := Machine.exec_prologue hprologue n f
    have hpieces : ∀ x ∈ (o.adviceFor p.target).filter (·.2.timing = .onEntry),
        ∀ f : Frame V E, True →
          ∃ f', M.exec (Admission.entryCode storage p.target x) f = some f' ∧
            f.Like n [] [M.entryCall storage p.target f.args f.env x] f' := by
      intro x hx f _
      have hin := (List.mem_filter.1 hx).1
      refine h.exec_entryCode hin (huniform x hin) storage (fun i hi => hsilent i ?_) n f
      have hi' := List.mem_flatMap.2 ⟨x, hx, hi⟩
      exact List.mem_append_left _ (List.mem_append_right _ hi')
    obtain ⟨f'', hexec', hlike'⟩ := Machine.exec_flatMap
      (fun x _ args env => M.entryCall storage p.target args env x)
      (fun _ => True) hpieces f' trivial
    rw [hlike.args_eq, hlike.env_eq] at hlike'
    refine ⟨f'', ?_, hlike.trans hlike'⟩
    simp only [wrapping]
    rw [Machine.exec_append, hexec, Option.bind_some, hexec']
  exit f hf := by
    refine Machine.exec_flatMap
      (fun x stack args env => M.exitCall storage p.target stack args env x)
      (fun stack => stack.length = (!p.target.ret.isVoid).toNat) (fun x hx f hf => ?_) f hf
    obtain ⟨hin, htiming⟩ := List.mem_filter.1 hx
    refine h.exec_exitCode hin (huniform x hin) storage (fun hbinds => hroom ?_)
      (fun i hi => hsilent i (List.mem_append_right _ (List.mem_flatMap.2 ⟨x, hx, hi⟩))) f hf
    have htakes : (o.adviceFor p.target).any (·.2.takesResult) :=
      List.any_eq_true.2 ⟨x, hin, by simpa [Advice.takesResult, hbinds] using htiming⟩
    simp [wrapping, htakes]

end Outline.Sound

namespace Module

variable {encoding : Encoding} {source : String} {m m' : Module} {settings : Settings}
  {report : PassReport}

/-- Weaving keeps the meaning of an accepted body whose marker types each declare only static advice
or only advice that is called on an instance.  If the woven calls and the loads of handles leave the
environment as it is, the woven body comes to a `ret` just if the body does, with the same value and
environment; the entry advice is called before the run of the body, and the exit advice at its
`ret`, all once and in order. -/
theorem woven_body_runs (M : Machine V E) (decoded : encoding.decode source = .ok m)
    (woven : m.weave settings = (.ok report, m')) {t : TypeDecl} {x : Method} {b : Body}
    (declared : (t, x) ∈ m.methods) (hasBody : x.body = some b) (accepted : x.findings = []) :
    let o := m.outline settings
    let target := x.target t
    let L := o.adviceFor target
    let w := o.wrapping settings.handleStorage (x.profile t) b.locals.size
    (∀ p ∈ L, p.1.marker.IsUniform) → (∀ i ∈ w.entry ++ w.exit, M.Silent i) →
    ∃ body, m'.body? x.id = some body ∧
      ∀ f f' : Frame V E, f.stack = [] → f.calls = [] → f.Like b.locals.size [] [] f' →
        ((∃ g', M.Returns body.code 0 f' g') ↔ ∃ g, M.Returns b.code 0 f g) ∧
        ∀ g g', M.Returns b.code 0 f g → M.Returns body.code 0 f' g' →
          g.stack.length = (!x.ret.isVoid).toNat ∧ g'.stack = g.stack ∧ g'.env = g.env ∧
          g'.calls =
            (if x.isConstructor && o.initializes t.id then
              [⟨.call, ⟨t.name, initializerName, true, [], .void⟩, [f.args 0]⟩] else []) ++
            (L.filter (·.2.timing = .onEntry)).map
              (M.entryCall settings.handleStorage target f.args f.env) ++ g.calls ++
            (L.filter (·.2.timing = .onExit)).map
              (M.exitCall settings.handleStorage target g.stack g.args g.env) := by
  intro o target L w huniform hsilent
  have hm := numbered_of_decode decoded
  obtain ⟨body, cursor, slot?, hbody, haround⟩ := exists_around_of_weave hm woven declared hasBody
  refine ⟨body, hbody, fun f f' hstack hcalls hlike => ?_⟩
  have hverifies := (x.findings_eq_nil_iff.1 accepted) b hasBody
  obtain ⟨At, hdepths⟩ := hverifies.depths
  have htransparent := (hm.sound_outline settings).transparent settings.handleStorage huniform
    haround.room hsilent
  have hruns := htransparent.returns_iff haround.entry_plain haround.exit_plain haround.fits hdepths
    hverifies.operands hlike hstack hcalls
  rw [← haround.code_eq] at hruns
  refine ⟨hruns.1, fun g g' hg hg' => ?_⟩
  obtain ⟨hdepth, hlike'⟩ := hruns.2 g g' hg hg'
  exact ⟨hdepth, hlike'.stack_eq, hlike'.env_eq, hlike'.calls_eq⟩

end Module

namespace Sample

/-- A machine on integers, on which calls and fields give zero. -/
def machine : Machine Int Unit where
  null := 0
  int32 value := value.toInt
  int64 value := value.toInt
  string _ := 0
  result i _ _ := (List.replicate i.stackEffect.pushes 0, ())
  length_result _ _ _ := List.length_replicate
  taken _ popped _ := popped.head? ≠ some 0

def frame : Frame Int Unit where
  stack := []
  locals _ := 0
  args _ := 0
  env := ()
  calls := []

private theorem returns_body : machine.Returns body.code 0 frame { frame with stack := [1] } :=
  .step (i := .ldcI4 0) rfl rfl (by decide) <| .step (i := .branch .brtrue 0) rfl rfl (by decide) <|
    .step (i := .ldcI4 1) rfl rfl (by decide) <| .ret (i := .simple .ret) rfl rfl

end Sample

namespace Module

/-- The sample, woven, returns what it returned, between the calls of its advice. -/
theorem woven_body_runs_sample :
    ∃ report m' body g, Sample.module.weave Sample.settings = (.ok report, m') ∧
      m'.body? ⟨2⟩ = some body ∧ Sample.machine.Returns body.code 0 Sample.frame g ∧
      g.stack = [1] ∧
      g.calls = [⟨.call, Sample.onEntry.call, [0]⟩, ⟨.call, Sample.onExit.call, [0, 1]⟩] := by
  obtain ⟨report, m', hweave, hwoven⟩ := Sample.exists_weave
  have h := woven_body_runs Sample.machine Sample.decode_source hweave (t := Sample.owner)
    (x := Sample.target) (b := Sample.body) (by decide) rfl (by decide +kernel)
  dsimp only at h
  rw [Sample.adviceFor_outline] at h
  obtain ⟨body, hbody, hruns⟩ := h (by decide) fun _ _ _ => rfl
  obtain rfl : Sample.woven = body := Option.some.inj (hwoven.symm.trans hbody)
  obtain ⟨hiff, hsame⟩ := hruns Sample.frame Sample.frame rfl rfl (.refl _ _)
  obtain ⟨g, hg⟩ := hiff.2 ⟨_, Sample.returns_body⟩
  obtain ⟨_, hstack, _, hcalls⟩ := hsame _ g Sample.returns_body hg
  exact ⟨report, m', Sample.woven, g, hweave, hwoven, hg, hstack, hcalls⟩

end Module

end AdviceWeaving
