import AdviceWeaving.Advice
import AdviceWeaving.Failure

/-!
# Reading the markers of a type

`TypeDecl.scan` reads a type that is marked as a marker type and removes the markers that it reads. When a marker is
faulty, reading stops there, and what stands before the fault is already removed.
-/

namespace AdviceWeaving

/-- The outcome of reading markers: what they declare or why they declare nothing, what is left of the part that
carried them, and how many of its markers have been removed. -/
structure Scanned (α β : Type) where
  declared : Except Failure α
  rest : β
  stripped : Nat

/-- The first argument of the first attribute with the given name: `none` if there is no such attribute, and
`some none` if it has no argument. -/
def firstArgument? (attributes : List Attribute) (name : String) : Option (Option Argument) :=
  (attributes.find? (·.name = name)).map (·.args.head?)

/-! ### Parameters -/

/-- Where a parameter of advice gets its value, as its marker tells. -/
def Param.source (names : MarkerNames) (p : Param) : Except MarkerFault (Option ArgumentSource) :=
  match firstArgument? p.attributes names.argument with
  | none => .ok none
  | some none => .error (.noSource p.name)
  | some (some argument) =>
    match ArgumentSource.ofArgument? argument with
    | some source => .ok (some source)
    | none => .error (.unknownSource argument p.name)

/-- A parameter without its markers. -/
def Param.stripped (names : MarkerNames) (p : Param) : Param :=
  { p with attributes := strip p.attributes names.argument }

/-- Read the markers of the parameters of advice. -/
def scanParams (names : MarkerNames) : List Param → Except MarkerFault (List Binding) × List Param
  | [] => (.ok [], [])
  | p :: ps =>
    match p.source names with
    | .error fault => (.error fault, p :: ps)
    | .ok source =>
      let (bindings, rest) := scanParams names ps
      (bindings.map (⟨p.type, p.name, source⟩ :: ·), p.stripped names :: rest)

/-! ### Methods -/

/-- When a method is called as advice, as its marker tells. -/
def Method.timing (names : MarkerNames) (m : Method) : Except MarkerFault Timing :=
  match firstArgument? m.attributes names.rise with
  | some (some argument) =>
    match Timing.ofArgument? argument with
    | some timing => .ok timing
    | none => .error (.unknownTiming argument)
  | _ => .error .noTiming

/-- How many markers of advice a method and its parameters carry. -/
def Method.countMarkers (names : MarkerNames) (m : Method) : Nat :=
  countAttribute m.attributes names.rise + countAttribute (m.params.flatMap (·.attributes)) names.argument

/-- Read the markers of a method that is marked as advice. -/
def Method.scan (names : MarkerNames) (owner : String) (m : Method) : Except MarkerFault Advice × Method :=
  match m.timing names with
  | .error fault => (.error fault, m)
  | .ok timing =>
    let (bindings, params) := scanParams names m.params
    (bindings.map fun bindings =>
        { name := m.name, method := m.id, timing, bindings, ret := m.ret, isStatic := m.isStatic
          call := m.signature owner },
      { m with attributes := strip m.attributes names.rise, params })

/-- Read the markers of the methods of a type. -/
def scanMethods (names : MarkerNames) (owner : String) : List Method → Scanned (List Advice) (List Method)
  | [] => ⟨.ok [], [], 0⟩
  | m :: ms =>
    if hasAttribute m.attributes names.rise then
      match m.scan names owner with
      | (.error fault, rest) => ⟨.error (.malformedMarker (.ofMember owner m.name) fault), rest :: ms, 0⟩
      | (.ok advice, rest) =>
        let others := scanMethods names owner ms
        ⟨others.declared.map (advice :: ·), rest :: others.rest, m.countMarkers names + others.stripped⟩
    else
      let others := scanMethods names owner ms
      ⟨others.declared, m :: others.rest, others.stripped⟩

/-! ### Types -/

/-- Read the markers of a type. A type that is not marked as a marker type declares nothing, and keeps what markers it
has. -/
def TypeDecl.scan (names : MarkerNames) (t : TypeDecl) : Scanned (Option MarkerType) TypeDecl :=
  if hasAttribute t.attributes names.injection then
    let methods := scanMethods names t.name t.methods
    { declared := methods.declared.map fun advice => some { owner := t.id, name := t.name, advice }
      rest := { t with attributes := strip t.attributes names.injection, methods := methods.rest }
      stripped := countAttribute t.attributes names.injection + methods.stripped }
  else
    ⟨.ok none, t, 0⟩

/-- The marker types of a module, as they stand there. -/
def Module.markerTypes (names : MarkerNames) (m : Module) : Except Failure (List MarkerType) :=
  (m.types.mapM fun (t : TypeDecl) => (t.scan names).declared).map (·.filterMap id)

end AdviceWeaving
