import AdviceWeaving.Scan
import Mathlib.Data.List.Forall2

/-!
# What the markers of a type declare

The argument of a marker tells a timing or a source, by its number or by a name that ends in a word
(`Timing.ToldBy`, `ArgumentSource.ToldBy`), and of several markers on one method or parameter the first counts
(`IsFirst`).  A marked method declares the advice that `Method.Declares` describes, unless one of the markers that count
tells nothing (`Method.Malformed`); `Method.Fault` says which of them is found to be faulty, and why.  To read a type
gives all that its marked methods declare, or the first fault (`TypeDecl.scan_reads_declarations`,
`TypeDecl.declared_eq_error_iff`).
-/

namespace AdviceWeaving

/-! ### The arguments of markers -/

/-- The path is the word, or ends in it behind a dot. -/
def EndsIn (path word : String) : Prop :=
  path = word ∨ ∃ space, path = space ++ "." ++ word

private theorem lastSegment_eq_iff {path word : String} (h : '.' ∉ word.toList) :
    lastSegment path = word ↔ EndsIn path word := by
  have htake (rest : List Char) :
      (word.toList.reverse ++ rest).takeWhile (· ≠ '.') = word.toList.reverse ++ rest.takeWhile (· ≠ '.') := by
    refine List.takeWhile_append_of_pos fun c hc => decide_eq_true ?_
    rintro rfl
    exact h (List.mem_reverse.1 hc)
  constructor
  · rintro rfl
    have hsplit : path.toList = (path.toList.reverse.dropWhile (· ≠ '.')).reverse ++
        (path.toList.reverse.takeWhile (· ≠ '.')).reverse := by
      rw [← List.reverse_append, List.takeWhile_append_dropWhile, List.reverse_reverse]
    cases hrest : path.toList.reverse.dropWhile (· ≠ '.') with
    | nil =>
      left
      rw [hrest] at hsplit
      exact String.toList_injective (by rw [lastSegment, String.toList_ofList]; exact hsplit)
    | cons c space =>
      right
      -- what is dropped begins with the last dot
      obtain rfl : c = '.' := by
        have hc := List.head?_dropWhile_not (· ≠ '.') path.toList.reverse
        rw [hrest] at hc
        simpa using hc
      refine ⟨String.ofList space.reverse, String.toList_injective ?_⟩
      rw [hrest, List.reverse_cons] at hsplit
      simpa [lastSegment] using hsplit
  · rintro (rfl | ⟨space, rfl⟩)
    · have hall := htake []
      rw [List.append_nil] at hall
      rw [lastSegment, hall]
      simp
    · have hpath : (space ++ "." ++ word).toList.reverse =
          word.toList.reverse ++ '.' :: space.toList.reverse := by
        simp
      rw [lastSegment, hpath, htake]
      simp

/-- The argument is the number, or a name that ends in the word. -/
inductive Argument.Tells (number : Int64) (word : String) : Argument → Prop
  | number : Tells number word (.int number)
  | word {path : String} (h : EndsIn path word) : Tells number word (.member path)

/-- The argument tells the timing. -/
def Timing.ToldBy (argument : Argument) : Timing → Prop
  | onEntry => argument.Tells 1 "OnEntry"
  | onExit => argument.Tells 2 "OnExit"

/-- The argument tells the source. -/
def ArgumentSource.ToldBy (argument : Argument) : ArgumentSource → Prop
  | targetName => argument.Tells 1 "Name"
  | targetReturnValue => argument.Tells 2 "ReturnValue"

namespace Argument

variable {number n : Int64} {word text path : String}

@[simp] theorem tells_int_iff : (int n).Tells number word ↔ n = number :=
  ⟨fun h => by cases h; rfl, fun h => h ▸ .number⟩

@[simp] theorem not_tells_string : ¬ (string text).Tells number word := nofun

@[simp] theorem tells_member_iff : (member path).Tells number word ↔ EndsIn path word :=
  ⟨fun h => by cases h; assumption, .word⟩

end Argument

private theorem Argument.pick_eq_some_iff {α : Type} (argument : Argument) (first second : String) (a b : α)
    (hfirst : '.' ∉ first.toList) (hsecond : '.' ∉ second.toList) (hwords : first ≠ second) (hab : a ≠ b) :
    (argument.pick first second a b = some a ↔ argument.Tells 1 first) ∧
      (argument.pick first second a b = some b ↔ argument.Tells 2 second) := by
  cases argument with
  | int n =>
    simp only [pick, tells_int_iff]
    constructor <;> split <;> simp_all [hab.symm]
  | string text => simp [pick]
  | member path =>
    simp only [pick, tells_member_iff, ← lastSegment_eq_iff hfirst, ← lastSegment_eq_iff hsecond]
    constructor <;> split <;> simp_all [hab.symm]

private theorem Timing.ofArgument?_eq_some_iff {argument : Argument} {timing : Timing} :
    ofArgument? argument = some timing ↔ timing.ToldBy argument := by
  have hpick := argument.pick_eq_some_iff "OnEntry" "OnExit" onEntry onExit
    (by decide) (by decide) (by decide) (by decide)
  cases timing with
  | onEntry => exact hpick.1
  | onExit => exact hpick.2

private theorem ArgumentSource.ofArgument?_eq_some_iff {argument : Argument} {source : ArgumentSource} :
    ofArgument? argument = some source ↔ source.ToldBy argument := by
  have hpick := argument.pick_eq_some_iff "Name" "ReturnValue" targetName targetReturnValue
    (by decide) (by decide) (by decide) (by decide)
  cases source with
  | targetName => exact hpick.1
  | targetReturnValue => exact hpick.2

private theorem Timing.ofArgument?_eq_none_iff {argument : Argument} :
    ofArgument? argument = none ↔ ∀ timing : Timing, ¬ timing.ToldBy argument := by
  simp only [Option.eq_none_iff_forall_ne_some, ne_eq, ofArgument?_eq_some_iff]

private theorem ArgumentSource.ofArgument?_eq_none_iff {argument : Argument} :
    ofArgument? argument = none ↔ ∀ source : ArgumentSource, ¬ source.ToldBy argument := by
  simp only [Option.eq_none_iff_forall_ne_some, ne_eq, ofArgument?_eq_some_iff]

/-! ### The markers that count -/

/-- The attribute is the first of the given name. -/
def IsFirst (attributes : List Attribute) (name : String) (a : Attribute) : Prop :=
  ∃ front back, attributes = front ++ a :: back ∧ a.name = name ∧ ∀ b ∈ front, b.name ≠ name

section

variable {attributes : List Attribute} {name : String}

private theorem isFirst_iff {a : Attribute} :
    IsFirst attributes name a ↔ attributes.find? (·.name = name) = some a := by
  rw [List.find?_eq_some_iff_append]
  simp only [IsFirst, decide_eq_true_eq, Bool.not_eq_eq_eq_not, Bool.not_true, decide_eq_false_iff_not]
  constructor
  · rintro ⟨front, back, hsplit, hname, hfront⟩
    exact ⟨hname, front, back, hsplit, hfront⟩
  · rintro ⟨hname, front, back, hsplit, hfront⟩
    exact ⟨front, back, hsplit, hname, hfront⟩

private theorem IsFirst.unique {a b : Attribute} (ha : IsFirst attributes name a) (hb : IsFirst attributes name b) :
    a = b :=
  Option.some.inj ((isFirst_iff.1 ha).symm.trans (isFirst_iff.1 hb))

private theorem firstArgument?_eq_none_iff : firstArgument? attributes name = none ↔
    ∀ a ∈ attributes, a.name ≠ name := by
  simp [firstArgument?]

private theorem firstArgument?_eq_some_iff {argument? : Option Argument} :
    firstArgument? attributes name = some argument? ↔ ∃ a, IsFirst attributes name a ∧ a.args.head? = argument? := by
  simp [firstArgument?, isFirst_iff]

end

/-- The first attribute of the given name has no first argument, or one that tells nothing. -/
def Untold (attributes : List Attribute) (name : String) (tells : Argument → Prop) : Prop :=
  ∃ a, IsFirst attributes name a ∧ ∀ argument, a.args.head? = some argument → ¬ tells argument

/-! ### Parameters -/

/-- The parameter gets its value from the source that its first marker tells, or without a marker from none. -/
inductive Param.Gets (names : MarkerNames) (p : Param) : Option ArgumentSource → Prop
  | unmarked (h : ∀ a ∈ p.attributes, a.name ≠ names.argument) : p.Gets names none
  | marked {a : Attribute} {argument : Argument} {source : ArgumentSource}
      (first : IsFirst p.attributes names.argument a) (head : a.args.head? = some argument)
      (told : source.ToldBy argument) : p.Gets names (some source)

/-- The fault of the first marker of the parameter. -/
inductive Param.Fault (names : MarkerNames) (p : Param) : MarkerFault → Prop
  | noSource {a : Attribute} (first : IsFirst p.attributes names.argument a) (head : a.args.head? = none) :
      p.Fault names (.noSource p.name)
  | unknownSource {a : Attribute} {argument : Argument} (first : IsFirst p.attributes names.argument a)
      (head : a.args.head? = some argument) (untold : ∀ source : ArgumentSource, ¬ source.ToldBy argument) :
      p.Fault names (.unknownSource argument p.name)

/-- The first marker of the parameter tells no source. -/
def Param.Malformed (names : MarkerNames) (p : Param) : Prop :=
  Untold p.attributes names.argument fun argument => ∃ source : ArgumentSource, source.ToldBy argument

namespace Param

variable {names : MarkerNames} {p : Param} {fault : MarkerFault}

private theorem source_eq_ok_iff {source? : Option ArgumentSource} :
    p.source names = .ok source? ↔ p.Gets names source? := by
  constructor
  · intro h
    unfold source at h
    split at h
    · next hnone => cases h; exact .unmarked (firstArgument?_eq_none_iff.1 hnone)
    · cases h
    · next argument hsome =>
      obtain ⟨a, hfirst, hhead⟩ := firstArgument?_eq_some_iff.1 hsome
      split at h
      · next source htold => cases h; exact .marked hfirst hhead (ArgumentSource.ofArgument?_eq_some_iff.1 htold)
      · cases h
  · rintro (h | ⟨hfirst, hhead, htold⟩)
    · rw [source, firstArgument?_eq_none_iff.2 h]
    · rw [source, firstArgument?_eq_some_iff.2 ⟨_, hfirst, hhead⟩]
      simp only [ArgumentSource.ofArgument?_eq_some_iff.2 htold]

private theorem source_eq_error_iff : p.source names = .error fault ↔ p.Fault names fault := by
  constructor
  · intro h
    unfold source at h
    split at h
    · cases h
    · next hsome =>
      obtain ⟨a, hfirst, hhead⟩ := firstArgument?_eq_some_iff.1 hsome
      cases h
      exact .noSource hfirst hhead
    · next argument hsome =>
      obtain ⟨a, hfirst, hhead⟩ := firstArgument?_eq_some_iff.1 hsome
      split at h
      · cases h
      · next hnone =>
        cases h
        exact .unknownSource hfirst hhead (ArgumentSource.ofArgument?_eq_none_iff.1 hnone)
  · rintro (⟨hfirst, hhead⟩ | ⟨hfirst, hhead, huntold⟩)
    · rw [source, firstArgument?_eq_some_iff.2 ⟨_, hfirst, hhead⟩]
    · rw [source, firstArgument?_eq_some_iff.2 ⟨_, hfirst, hhead⟩]
      simp only [ArgumentSource.ofArgument?_eq_none_iff.2 huntold]

/-- A parameter that gets its value from a source, or from none, is not malformed. -/
private theorem Gets.not_malformed {source? : Option ArgumentSource} (h : p.Gets names source?) :
    ¬ p.Malformed names := by
  rintro ⟨a, hfirst, huntold⟩
  rcases h with h | ⟨hfirst', hhead, htold⟩
  · obtain ⟨front, back, hsplit, hname, -⟩ := hfirst
    exact h a (hsplit ▸ List.mem_append_right front List.mem_cons_self) hname
  · obtain rfl := hfirst.unique hfirst'
    exact huntold _ hhead ⟨_, htold⟩

private theorem Fault.malformed (h : p.Fault names fault) : p.Malformed names := by
  rcases h with ⟨hfirst, hhead⟩ | ⟨hfirst, hhead, huntold⟩
  · exact ⟨_, hfirst, fun argument hargument => by rw [hhead] at hargument; cases hargument⟩
  · refine ⟨_, hfirst, fun argument hargument => ?_⟩
    obtain rfl := Option.some.inj (hhead.symm.trans hargument)
    exact fun ⟨source, htold⟩ => huntold source htold

end Param

/-- The binding is that of the parameter, with the source that its markers tell. -/
structure Param.Binds (names : MarkerNames) (p : Param) (b : Binding) : Prop where
  type_eq : b.type = p.type
  parameter_eq : b.parameter = p.name
  gets : p.Gets names b.source

/-- The first element with a property, in a list with one more element in front. -/
private theorem exists_split_cons_iff {α : Type} {P Q : α → Prop} {a : α} {l : List α} :
    (∃ front x back, a :: l = front ++ x :: back ∧ (∀ y ∈ front, P y) ∧ Q x) ↔
      Q a ∨ P a ∧ ∃ front x back, l = front ++ x :: back ∧ (∀ y ∈ front, P y) ∧ Q x := by
  constructor
  · rintro ⟨_ | ⟨b, front⟩, x, back, hsplit, hfront, hx⟩
    · cases hsplit
      exact .inl hx
    · cases hsplit
      obtain ⟨ha, hfront⟩ := List.forall_mem_cons.1 hfront
      exact .inr ⟨ha, front, x, back, rfl, hfront, hx⟩
  · rintro (ha | ⟨ha, front, x, back, rfl, hfront, hx⟩)
    · exact ⟨[], a, l, rfl, nofun, ha⟩
    · exact ⟨a :: front, x, back, rfl, List.forall_mem_cons.2 ⟨ha, hfront⟩, hx⟩

section

variable {names : MarkerNames} {params : List Param}

private theorem scanParams_eq_ok_iff {bindings : List Binding} :
    (scanParams names params).1 = .ok bindings ↔ List.Forall₂ (Param.Binds names) params bindings := by
  induction params generalizing bindings with
  | nil => simp [scanParams, eq_comm]
  | cons p params ih =>
    rw [List.forall₂_cons_left_iff]
    cases hsource : p.source names with
    | error fault =>
      have hfault : p.Fault names fault := Param.source_eq_error_iff.1 hsource
      simp only [scanParams, hsource, reduceCtorEq, false_iff]
      rintro ⟨b, _, hb, -, -⟩
      exact hb.gets.not_malformed hfault.malformed
    | ok source? =>
      have hgets : p.Gets names source? := Param.source_eq_ok_iff.1 hsource
      simp only [scanParams, hsource]
      constructor
      · intro h
        cases hrest : (scanParams names params).1 with
        | error fault => rw [hrest] at h; cases h
        | ok rest =>
          rw [hrest] at h
          cases h
          exact ⟨_, rest, ⟨rfl, rfl, hgets⟩, ih.1 hrest, rfl⟩
      · rintro ⟨⟨type, name, source?'⟩, rest, ⟨rfl, rfl, hgets'⟩, hrest, rfl⟩
        obtain rfl : source? = source?' :=
          Except.ok.inj (hsource.symm.trans (Param.source_eq_ok_iff.2 hgets'))
        rw [ih.2 hrest]
        rfl

private theorem scanParams_eq_error_iff {fault : MarkerFault} :
    (scanParams names params).1 = .error fault ↔
      ∃ front p back, params = front ++ p :: back ∧ (∀ q ∈ front, ∃ source?, q.Gets names source?) ∧
        p.Fault names fault := by
  induction params with
  | nil => simp [scanParams]
  | cons p params ih =>
    rw [exists_split_cons_iff, ← ih]
    cases hsource : p.source names with
    | error fault' =>
      have hgets : ¬ ∃ source?, p.Gets names source? := fun ⟨_, h⟩ =>
        h.not_malformed (Param.source_eq_error_iff.1 hsource).malformed
      simp [scanParams, hsource, hgets, ← Param.source_eq_error_iff]
    | ok source? =>
      have hgets : ∃ source?, p.Gets names source? := ⟨source?, Param.source_eq_ok_iff.1 hsource⟩
      cases hrest : (scanParams names params).1 <;>
        simp [scanParams, hsource, hgets, hrest, ← Param.source_eq_error_iff, Except.map]

end

/-! ### Methods -/

/-- The first marker of the method tells the timing. -/
def Method.Rises (names : MarkerNames) (x : Method) (timing : Timing) : Prop :=
  ∃ a argument, IsFirst x.attributes names.rise a ∧ a.args.head? = some argument ∧ timing.ToldBy argument

/-- The markers of the method and of its parameters declare the advice. -/
structure Method.Declares (names : MarkerNames) (owner : String) (x : Method) (a : Advice) : Prop where
  name_eq : a.name = x.name
  method_eq : a.method = x.id
  rises : x.Rises names a.timing
  binds : List.Forall₂ (Param.Binds names) x.params a.bindings
  ret_eq : a.ret = x.ret
  isStatic_eq : a.isStatic = x.isStatic
  call_eq : a.call = ⟨owner, x.name, !x.isStatic, x.params.map (·.type), x.ret⟩

/-- The first fault of the markers of the method and of its parameters. -/
inductive Method.Fault (names : MarkerNames) (x : Method) : MarkerFault → Prop
  | noTiming {a : Attribute} (first : IsFirst x.attributes names.rise a) (head : a.args.head? = none) :
      x.Fault names .noTiming
  | unknownTiming {a : Attribute} {argument : Argument} (first : IsFirst x.attributes names.rise a)
      (head : a.args.head? = some argument) (untold : ∀ timing : Timing, ¬ timing.ToldBy argument) :
      x.Fault names (.unknownTiming argument)
  | param {timing : Timing} {front back : List Param} {p : Param} {fault : MarkerFault}
      (rises : x.Rises names timing) (params_eq : x.params = front ++ p :: back)
      (front_gets : ∀ q ∈ front, ∃ source?, q.Gets names source?) (isFault : p.Fault names fault) :
      x.Fault names fault

/-- The first marker of the method tells no timing, or that of some parameter tells no source. -/
def Method.Malformed (names : MarkerNames) (x : Method) : Prop :=
  Untold x.attributes names.rise (fun argument => ∃ timing : Timing, timing.ToldBy argument) ∨
    ∃ p ∈ x.params, p.Malformed names

theorem hasAttribute_iff {attributes : List Attribute} {name : String} :
    hasAttribute attributes name ↔ ∃ a ∈ attributes, a.name = name := by
  simp [hasAttribute]

namespace Method

variable {names : MarkerNames} {owner : String} {x : Method} {fault : MarkerFault}

private theorem timing_eq_ok_iff {timing : Timing} : x.timing names = .ok timing ↔ x.Rises names timing := by
  constructor
  · intro h
    unfold Method.timing at h
    split at h
    · next argument hsome =>
      obtain ⟨a, hfirst, hhead⟩ := firstArgument?_eq_some_iff.1 hsome
      split at h
      · next htold => cases h; exact ⟨a, argument, hfirst, hhead, Timing.ofArgument?_eq_some_iff.1 htold⟩
      · cases h
    · cases h
  · rintro ⟨a, argument, hfirst, hhead, htold⟩
    rw [Method.timing, firstArgument?_eq_some_iff.2 ⟨a, hfirst, hhead⟩]
    simp only [Timing.ofArgument?_eq_some_iff.2 htold]

private theorem exists_isFirst (hmarked : hasAttribute x.attributes names.rise) :
    ∃ a, IsFirst x.attributes names.rise a := by
  obtain ⟨a, ha⟩ := Option.isSome_iff_exists.1 (List.find?_isSome.2 (List.any_eq_true.1 hmarked))
  exact ⟨a, isFirst_iff.2 ha⟩

private theorem fault_of_timing (hmarked : hasAttribute x.attributes names.rise) (h : x.timing names = .error fault) :
    x.Fault names fault := by
  unfold Method.timing at h
  split at h
  · next argument hsome =>
    obtain ⟨a, hfirst, hhead⟩ := firstArgument?_eq_some_iff.1 hsome
    split at h
    · cases h
    · next hnone => cases h; exact .unknownTiming hfirst hhead (Timing.ofArgument?_eq_none_iff.1 hnone)
  · next hnone =>
    cases h
    obtain ⟨a, hfirst⟩ := exists_isFirst hmarked
    cases hhead : a.args.head? with
    | none => exact .noTiming hfirst hhead
    | some argument => exact absurd (firstArgument?_eq_some_iff.2 ⟨a, hfirst, hhead⟩) (hnone argument)

/-- What is read from a marked method is what it declares. -/
private theorem scan_eq_ok_iff {a : Advice} : (x.scan names owner).1 = .ok a ↔ x.Declares names owner a := by
  constructor
  · intro h
    unfold Method.scan at h
    split at h
    · cases h
    · next timing htiming =>
      cases hbindings : (scanParams names x.params).1 with
      | error fault => simp only [hbindings] at h; cases h
      | ok bindings =>
        simp only [hbindings] at h
        cases h
        exact ⟨rfl, rfl, timing_eq_ok_iff.1 htiming, scanParams_eq_ok_iff.1 hbindings, rfl, rfl, rfl⟩
  · obtain ⟨name, method, timing, bindings, ret, isStatic, call⟩ := a
    rintro ⟨rfl, rfl, hrises, hbinds, rfl, rfl, rfl⟩
    rw [Method.scan, timing_eq_ok_iff.2 hrises]
    simp only [scanParams_eq_ok_iff.2 hbinds]
    rfl

private theorem scan_eq_error_iff (hmarked : hasAttribute x.attributes names.rise) :
    (x.scan names owner).1 = .error fault ↔ x.Fault names fault := by
  constructor
  · intro h
    unfold Method.scan at h
    split at h
    · next htiming => cases h; exact fault_of_timing hmarked htiming
    · next timing htiming =>
      cases hbindings : (scanParams names x.params).1 with
      | ok bindings => simp only [hbindings] at h; cases h
      | error fault =>
        simp only [hbindings] at h
        cases h
        obtain ⟨front, p, back, hparams, hfront, hfault⟩ := scanParams_eq_error_iff.1 hbindings
        exact .param (timing_eq_ok_iff.1 htiming) hparams hfront hfault
  · rintro (⟨hfirst, hhead⟩ | ⟨hfirst, hhead, huntold⟩ | ⟨hrises, hparams, hfront, hfault⟩)
    · rw [Method.scan, Method.timing, firstArgument?_eq_some_iff.2 ⟨_, hfirst, hhead⟩]
    · rw [Method.scan, Method.timing, firstArgument?_eq_some_iff.2 ⟨_, hfirst, hhead⟩]
      simp only [Timing.ofArgument?_eq_none_iff.2 huntold]
    · rw [Method.scan, timing_eq_ok_iff.2 hrises]
      simp only [scanParams_eq_error_iff.2 ⟨_, _, _, hparams, hfront, hfault⟩]
      rfl

/-- A method that declares advice is not malformed. -/
private theorem Declares.not_malformed {a : Advice} (h : x.Declares names owner a) : ¬ x.Malformed names := by
  rintro (⟨b, hfirst, huntold⟩ | ⟨p, hp, hmalformed⟩)
  · obtain ⟨b', argument, hfirst', hhead, htold⟩ := h.rises
    obtain rfl := hfirst.unique hfirst'
    exact huntold argument hhead ⟨_, htold⟩
  · have hfine := ((List.forall₂_and_left _ _).1 (h.binds.imp fun q b hq => ⟨hq.gets.not_malformed, hq⟩)).1
    exact hfine p hp hmalformed

private theorem Fault.malformed (h : x.Fault names fault) : x.Malformed names := by
  rcases h with ⟨hfirst, hhead⟩ | ⟨hfirst, hhead, huntold⟩ | ⟨-, hparams, -, hfault⟩
  · exact .inl ⟨_, hfirst, fun argument hargument => by rw [hhead] at hargument; cases hargument⟩
  · refine .inl ⟨_, hfirst, fun argument hargument => ?_⟩
    obtain rfl := Option.some.inj (hhead.symm.trans hargument)
    exact fun ⟨timing, htold⟩ => huntold timing htold
  · exact .inr ⟨_, hparams ▸ List.mem_append_right _ List.mem_cons_self, hfault.malformed⟩

/-- A marked method declares advice unless it is malformed, and then it has a first fault. -/
private theorem malformed_iff (hmarked : hasAttribute x.attributes names.rise) :
    x.Malformed names ↔ ∃ fault, x.Fault names fault := by
  constructor
  · intro h
    cases hscan : (x.scan names x.name).1 with
    | ok a => exact absurd h (scan_eq_ok_iff.1 hscan).not_malformed
    | error fault => exact ⟨fault, (scan_eq_error_iff hmarked).1 hscan⟩
  · rintro ⟨fault, hfault⟩
    exact hfault.malformed

end Method

section

variable {names : MarkerNames} {owner : String} {methods : List Method}

private theorem scanMethods_eq_ok_iff {advice : List Advice} :
    (scanMethods names owner methods).declared = .ok advice ↔
      List.Forall₂ (Method.Declares names owner) (methods.filter (hasAttribute ·.attributes names.rise)) advice := by
  induction methods generalizing advice with
  | nil => simp [scanMethods, eq_comm]
  | cons x methods ih =>
    cases hmarked : hasAttribute x.attributes names.rise with
    | false =>
      rw [List.filter_cons, hmarked, if_neg Bool.false_ne_true, ← ih]
      simp [scanMethods, hmarked]
    | true =>
      rw [List.filter_cons, if_pos hmarked, List.forall₂_cons_left_iff]
      rcases hscan : x.scan names owner with ⟨fault | a, rest⟩
      · have hfault := (Method.scan_eq_error_iff hmarked).1 (congrArg Prod.fst hscan)
        simp only [scanMethods, hmarked, if_true, hscan, reduceCtorEq, false_iff]
        rintro ⟨a, _, ha, -, -⟩
        exact ha.not_malformed hfault.malformed
      · have ha := Method.scan_eq_ok_iff.1 (congrArg Prod.fst hscan)
        simp only [scanMethods, hmarked, if_true, hscan]
        constructor
        · intro h
          cases hothers : (scanMethods names owner methods).declared with
          | error failure => rw [hothers] at h; cases h
          | ok others =>
            rw [hothers] at h
            cases h
            exact ⟨a, others, ha, ih.1 hothers, rfl⟩
        · rintro ⟨a', others, ha', hothers, rfl⟩
          obtain rfl : a = a' := Except.ok.inj
            ((congrArg Prod.fst hscan).symm.trans (Method.scan_eq_ok_iff.2 ha'))
          rw [ih.2 hothers]
          rfl

/-- The failure is that of the first marked method that is malformed. -/
private theorem scanMethods_eq_error_iff {failure : Failure} :
    (scanMethods names owner methods).declared = .error failure ↔
      ∃ front x back, methods = front ++ x :: back ∧
        (∀ y ∈ front, hasAttribute y.attributes names.rise → ¬ y.Malformed names) ∧
        hasAttribute x.attributes names.rise ∧
        ∃ fault, x.Fault names fault ∧ failure = .malformedMarker (.ofMember owner x.name) fault := by
  induction methods with
  | nil => simp [scanMethods]
  | cons x methods ih =>
    rw [exists_split_cons_iff, ← ih]
    cases hmarked : hasAttribute x.attributes names.rise with
    | false => simp [scanMethods, hmarked]
    | true =>
      rcases hscan : x.scan names owner with ⟨fault | a, rest⟩
      · have hfault := (Method.scan_eq_error_iff hmarked).1 (congrArg Prod.fst hscan)
        simp only [scanMethods, hmarked, if_true, hscan, Except.error.injEq, true_and, forall_const, not_true_eq_false,
          (Method.malformed_iff hmarked).2 ⟨fault, hfault⟩, false_and, or_false]
        constructor
        · rintro rfl
          exact ⟨fault, hfault, rfl⟩
        · rintro ⟨fault', hfault', rfl⟩
          have hfault'' : (x.scan names owner).1 = .error fault' := (Method.scan_eq_error_iff hmarked).2 hfault'
          rw [hscan] at hfault''
          cases hfault''
          rfl
      · have ha := Method.scan_eq_ok_iff.1 (congrArg Prod.fst hscan)
        have hnone : ¬ ∃ fault, x.Fault names fault ∧
            failure = .malformedMarker (.ofMember owner x.name) fault := fun ⟨_, hfault, _⟩ =>
          ha.not_malformed hfault.malformed
        cases hothers : (scanMethods names owner methods).declared <;>
          simp [scanMethods, hmarked, hscan, hothers, hnone, ha.not_malformed, Except.map]

end

/-! ### Types -/

namespace TypeDecl

variable {names : MarkerNames} {t : TypeDecl}

theorem scan_of_not_hasAttribute (h : hasAttribute t.attributes names.injection = false) :
    t.scan names = ⟨.ok none, t, 0⟩ := by
  rw [scan, if_neg (by simp [h])]

private theorem scan_of_unmarked (h : ∀ a ∈ t.attributes, a.name ≠ names.injection) :
    t.scan names = ⟨.ok none, t, 0⟩ := by
  refine scan_of_not_hasAttribute (Bool.eq_false_iff.2 fun hmarked => ?_)
  obtain ⟨a, ha, hname⟩ := hasAttribute_iff.1 hmarked
  exact h a ha hname

private theorem declared_of_marked (h : hasAttribute t.attributes names.injection) :
    (t.scan names).declared =
      (scanMethods names t.name t.methods).declared.map fun advice => some ⟨t.id, t.name, advice⟩ := by
  rw [scan, if_pos h]

/-- A marked type fails to declare advice with the first fault of its first marked method that is malformed. -/
theorem declared_eq_error_iff (h : hasAttribute t.attributes names.injection) {failure : Failure} :
    (t.scan names).declared = .error failure ↔
      ∃ front x back, t.methods = front ++ x :: back ∧
        (∀ y ∈ front, hasAttribute y.attributes names.rise → ¬ y.Malformed names) ∧
        hasAttribute x.attributes names.rise ∧
        ∃ fault, x.Fault names fault ∧ failure = .malformedMarker (.ofMember t.name x.name) fault := by
  rw [declared_of_marked h, ← scanMethods_eq_error_iff]
  cases (scanMethods names t.name t.methods).declared <;> simp [Except.map]

theorem declared_eq_ok_iff (h : hasAttribute t.attributes names.injection) {marker? : Option MarkerType} :
    (t.scan names).declared = .ok marker? ↔
      ∃ advice, marker? = some ⟨t.id, t.name, advice⟩ ∧
        List.Forall₂ (Method.Declares names t.name)
          (t.methods.filter (hasAttribute ·.attributes names.rise)) advice := by
  simp only [declared_of_marked h, ← scanMethods_eq_ok_iff]
  cases (scanMethods names t.name t.methods).declared <;> simp [Except.map, eq_comm]

/-- A marker type is read from a type that is marked as one, and has the advice that its marked methods declare. -/
theorem declared_eq_some_iff {marker : MarkerType} :
    (t.scan names).declared = .ok (some marker) ↔
      hasAttribute t.attributes names.injection ∧ ∃ advice, marker = ⟨t.id, t.name, advice⟩ ∧
        List.Forall₂ (Method.Declares names t.name)
          (t.methods.filter (hasAttribute ·.attributes names.rise)) advice := by
  cases hmarked : hasAttribute t.attributes names.injection with
  | false => simp [scan_of_not_hasAttribute hmarked]
  | true => simp [declared_eq_ok_iff hmarked]

/-- All advice of a marker type is declared by one of its methods. -/
theorem exists_declares (t : TypeDecl) {marker : MarkerType} (h : (t.scan names).declared = .ok (some marker)) :
    ∀ a ∈ marker.advice, ∃ x ∈ t.methods, x.Declares names t.name a := by
  intro a ha
  obtain ⟨-, advice, rfl, hadvice⟩ := declared_eq_some_iff.1 h
  obtain ⟨i, hi, rfl⟩ := List.mem_iff_getElem.1 ha
  exact ⟨_, List.mem_of_mem_filter (List.getElem_mem (hadvice.length_eq ▸ hi)), hadvice.get _ hi⟩

/-- What is read from a type is what its markers declare, whatever the markers are called.  A type that is not marked
declares nothing and stays as it is.  Of a type that is marked, the markers are malformed if and only if the first
marker of some marked method tells no timing, or the first marker of some parameter of it tells no source; otherwise
the type declares one advice for each of its marked methods, in order. -/
theorem scan_reads_declarations (names : MarkerNames) (t : TypeDecl) :
    ((t.scan names).declared = .ok none ↔ ∀ a ∈ t.attributes, a.name ≠ names.injection) ∧
    ((∀ a ∈ t.attributes, a.name ≠ names.injection) → t.scan names = ⟨.ok none, t, 0⟩) ∧
    ((∃ a ∈ t.attributes, a.name = names.injection) →
      ((∃ site fault, (t.scan names).declared = .error (.malformedMarker site fault)) ↔
        ∃ x ∈ t.methods, (∃ a ∈ x.attributes, a.name = names.rise) ∧ x.Malformed names) ∧
      ((¬ ∃ x ∈ t.methods, (∃ a ∈ x.attributes, a.name = names.rise) ∧ x.Malformed names) →
        ∃ advice, (t.scan names).declared = .ok (some ⟨t.id, t.name, advice⟩) ∧
          List.Forall₂ (Method.Declares names t.name)
            (t.methods.filter (hasAttribute ·.attributes names.rise)) advice)) := by
  refine ⟨⟨fun h => ?_, fun h => by rw [scan_of_unmarked h]⟩, scan_of_unmarked, fun hmarked => ?_⟩
  · by_contra hmarked
    rw [declared_eq_ok_iff (by simpa [hasAttribute] using hmarked)] at h
    obtain ⟨_, hnone, -⟩ := h
    cases hnone
  · have hmarked := hasAttribute_iff.2 hmarked
    have hmalformed : (∃ site fault, (t.scan names).declared = .error (.malformedMarker site fault)) ↔
        ∃ x ∈ t.methods, (∃ a ∈ x.attributes, a.name = names.rise) ∧ x.Malformed names := by
      constructor
      · rintro ⟨site, fault, h⟩
        obtain ⟨front, x, back, hmethods, -, hx, _, hfault, -⟩ := (declared_eq_error_iff hmarked).1 h
        exact ⟨x, hmethods ▸ List.mem_append_right front List.mem_cons_self, hasAttribute_iff.1 hx, hfault.malformed⟩
      · rintro ⟨x, hx, hrise, hmalformed⟩
        cases hdeclared : (t.scan names).declared with
        | error failure =>
          obtain ⟨_, _, _, -, -, -, fault, -, rfl⟩ := (declared_eq_error_iff hmarked).1 hdeclared
          exact ⟨_, fault, rfl⟩
        | ok marker? =>
          -- all marked methods declare advice then, the malformed one among them
          obtain ⟨advice, -, hadvice⟩ := (declared_eq_ok_iff hmarked).1 hdeclared
          have hfine := ((List.forall₂_and_left _ _).1 (hadvice.imp fun y a hy => ⟨hy.not_malformed, hy⟩)).1
          exact absurd hmalformed (hfine x (List.mem_filter.2 ⟨hx, hasAttribute_iff.2 hrise⟩))
    refine ⟨hmalformed, fun hfine => ?_⟩
    cases hdeclared : (t.scan names).declared with
    | error failure =>
      obtain ⟨_, _, _, -, -, -, fault, -, rfl⟩ := (declared_eq_error_iff hmarked).1 hdeclared
      exact absurd (hmalformed.1 ⟨_, fault, hdeclared⟩) hfine
    | ok marker? =>
      obtain ⟨advice, rfl, hadvice⟩ := (declared_eq_ok_iff hmarked).1 hdeclared
      exact ⟨advice, rfl, hadvice⟩

end TypeDecl

/-! ### A sample -/

namespace Sample

def markerNames : MarkerNames :=
  .ofNamespace "Aop"

/-- Only the first of the markers counts, on the method and on its parameter. -/
def opening : Method where
  id := ⟨4⟩
  name := "Open"
  params :=
    [{ name := "n", type := .string
       attributes :=
        [{ name := "Aop.Argument", args := [.member "Method.Name"] }, { name := "Aop.Argument", args := [.int 7] }] }]
  ret := .void
  attributes :=
    [{ name := "Hidden" }, { name := "Aop.Rise", args := [.member "When.OnEntry"] }, { name := "Aop.Rise" }]

/-- The method is no advice, and the marker of its parameter is not read. -/
def helper : Method where
  id := ⟨5⟩
  name := "Help"
  params := [{ name := "n", type := .string, attributes := [{ name := "Aop.Argument" }] }]
  ret := .void

def closing : Method where
  id := ⟨6⟩
  name := "Close"
  isStatic := true
  params := [{ name := "v", type := .int32, attributes := [{ name := "Aop.Argument", args := [.int 2] }] },
    { name := "rest", type := .object }]
  ret := .void
  attributes := [{ name := "Aop.Rise", args := [.int 2, .int 1] }]

def logDecl : TypeDecl where
  id := ⟨2⟩
  name := "Log"
  attributes := [{ name := "Serializable" }, { name := "Aop.Injection" }]
  methods := [opening, helper, closing]

end Sample

theorem TypeDecl.scan_reads_declarations_sample :
    ∃ advice, (Sample.logDecl.scan Sample.markerNames).declared = .ok (some ⟨⟨2⟩, "Log", advice⟩) ∧
      List.Forall₂ (Method.Declares Sample.markerNames "Log") [Sample.opening, Sample.closing] advice := by
  have hmarked : ∃ a ∈ Sample.logDecl.attributes, a.name = Sample.markerNames.injection := by decide +kernel
  have hfine : ¬ ∃ x ∈ Sample.logDecl.methods,
      (∃ a ∈ x.attributes, a.name = Sample.markerNames.rise) ∧ x.Malformed Sample.markerNames := by
    rintro ⟨x, hx, hrise, hmalformed⟩
    have hreads : ∀ y ∈ Sample.logDecl.methods, hasAttribute y.attributes Sample.markerNames.rise →
        (y.scan Sample.markerNames "Log").1.toOption.isSome := by decide +kernel
    have hsome := hreads x hx (hasAttribute_iff.2 hrise)
    cases hscan : (x.scan Sample.markerNames "Log").1 with
    | error fault => rw [hscan] at hsome; cases hsome
    | ok a => exact (Method.scan_eq_ok_iff.1 hscan).not_malformed hmalformed
  obtain ⟨-, -, hread⟩ := scan_reads_declarations Sample.markerNames Sample.logDecl
  have hfilter : Sample.logDecl.methods.filter (hasAttribute ·.attributes Sample.markerNames.rise) =
      [Sample.opening, Sample.closing] := by decide +kernel
  obtain ⟨advice, hdeclared, hadvice⟩ := (hread hmarked).2 hfine
  exact ⟨advice, hdeclared, hfilter ▸ hadvice⟩

end AdviceWeaving
