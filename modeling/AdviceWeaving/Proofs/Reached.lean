import AdviceWeaving.Proofs.Operations

/-!
# Modules that a pass may come to

The modules that are decoded, and those to which the steps of passes come from there, even the steps of a pass that
fails, are the `Module.Reached` ones.  No step gives an identifier to a second type or method, so all of them are
numbered (`Module.Reached.numbered`).
-/

namespace AdviceWeaving

/-- A module that is decoded, or to which the steps of a pass come from such a module, whatever the pass remembers and
whether they succeed or not. -/
inductive Module.Reached : Module → Prop
  | decoded {encoding : Encoding} {source : String} {m : Module} (h : encoding.decode source = .ok m) :
      Reached m
  | scanned {m : Module} (h : Reached m) (pass : Pass) (id : TypeId) :
      Reached ((Weaving.scan id).run ⟨pass, m⟩).2.module
  | injected {m : Module} (h : Reached m) (pass : Pass) (marker : MarkerType) :
      Reached ((Weaving.inject marker).run ⟨pass, m⟩).2.module
  | swept {m : Module} (h : Reached m) (pass : Pass) (id : MethodId) :
      Reached ((Weaving.sweepMethod id).run ⟨pass, m⟩).2.module

namespace Module.Reached

open Step

variable {m : Module}

theorem numbered (h : m.Reached) : m.Numbered := by
  induction h with
  | decoded h => exact numbered_of_decode h
  | scanned _ pass id ih => exact Weaving.numbered_scan (w := ⟨pass, _⟩) ih id
  | injected _ pass marker ih => exact Weaving.numbered_inject (w := ⟨pass, _⟩) ih
  | swept _ pass id ih => exact Weaving.numbered_sweepMethod (w := ⟨pass, _⟩) ih id

/-- A pass comes to no other modules. -/
theorem weave (h : m.Reached) (settings : Settings) : (m.weave settings).2.Reached := by
  unfold Module.weave
  cases hvisitors : visitorsNamed settings.components with
  | error failure => exact h
  | ok vs =>
    have hvs := (standard_of_visitorsNamed hvisitors).1
    refine hvs.keeps_walk (I := fun w => w.module.Reached) (fun id => ?_) (fun id w hw => hw.swept w.pass id) _ h
    refine Keeps.bind (fun w hw => hw.scanned w.pass id) fun marker? => ?_
    cases marker? with
    | none => exact keeps_pure ()
    | some marker => exact Keeps.bind (fun w hw => hw.injected w.pass marker) fun _ => keeps_modify fun _ hw => hw

end Module.Reached

end AdviceWeaving
