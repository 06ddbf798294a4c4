import AdviceWeaving.Proofs.Parsing
import AdviceWeaving.Proofs.Scanned
import Mathlib.Data.List.Forall2

/-!
# What can be read

`Rule.Ensures p P` says that whatever the rule `p` reads from tokens whose names are all `isName` has the property
`P`.  Every part of a module that is read is well-named, and the branches of a body that is read stay inside it, since
they name labels of its lines: so a module that is read is `TextWellFormed` (`ensures_types`).
-/

namespace AdviceWeaving

/-- Every name among the tokens can be written as one. -/
def NamesRead (ts : List Lexeme) : Prop :=
  ∀ t ∈ ts, ∀ name, t.token = .path name → isName name

private theorem NamesRead.tail {t : Lexeme} {ts : List Lexeme} (h : NamesRead (t :: ts)) : NamesRead ts :=
  fun u hu => h u (List.mem_cons_of_mem t hu)

namespace Rule

variable {α β : Type}

/-- What the rule reads has the property. -/
def Ensures (p : Rule α) (P : α → Prop) : Prop :=
  ∀ ts a rest, NamesRead ts → (p ts).read? = some (a, rest) → P a ∧ NamesRead rest

section

variable {p : Rule α} {f : α → Rule β} {P : α → Prop} {Q : β → Prop}

private theorem ensures_pure {a : α} (h : P a) : Ensures (pure a) P := by
  intro ts b rest hts hread
  cases hread
  exact ⟨h, hts⟩

private theorem Ensures.bind (hp : Ensures p P) (hf : ∀ a, P a → Ensures (f a) Q) : Ensures (p >>= f) Q := by
  intro ts b rest hts hread
  rw [read?_bind] at hread
  obtain ⟨⟨a, mid⟩, ha, hb⟩ := Option.bind_eq_some_iff.1 hread
  obtain ⟨hPa, hmid⟩ := hp ts a mid hts ha
  exact hf a hPa mid b rest hmid hb

private theorem ensures_token {f : Token → Option α}
    (h : ∀ t a, (∀ name, t = .path name → isName name) → f t = some a → P a) :
    Ensures (token f) P := by
  rintro (_ | ⟨t, ts⟩) a rest hts hread
  · cases hread
  rw [read?_token] at hread
  obtain ⟨b, hb, heq⟩ := Option.map_eq_some_iff.1 hread
  cases heq
  exact ⟨h t.token a (hts t (by simp)) hb, hts.tail⟩

private theorem ensures_mark (m : Mark) : Ensures (mark m) fun _ => True :=
  ensures_token (f := fun u => if u = .mark m then some () else none) fun _ _ _ _ => trivial

private theorem ensures_optional (t : Token) : Ensures (optional t) fun _ => True := by
  rintro (_ | ⟨u, ts⟩) b rest hts hread
  · cases hread
    exact ⟨trivial, hts⟩
  rw [read?_optional] at hread
  split at hread <;> cases hread
  · exact ⟨trivial, hts.tail⟩
  · exact ⟨trivial, hts⟩

private theorem ensures_peek : Ensures peek fun _ => True := by
  intro ts a rest hts hread
  cases hread
  exact ⟨trivial, hts⟩

private theorem ensures_fail {fault : ParseFault} : Ensures (fail fault : Rule α) P := by
  intro ts a rest _ hread
  cases hread

private theorem ensures_unexpected : Ensures (unexpected : Rule α) P := by
  intro ts a rest _ hread
  cases hread

private theorem ensures_path : Ensures path fun name => isName name := by
  refine ensures_token fun t name hnames h => ?_
  cases t with
  | path name' =>
    cases h
    exact hnames name rfl
  | _ => cases h

private theorem ensures_memberName : Ensures memberName fun name => isMemberName name := by
  refine ensures_token fun t name hnames h => ?_
  cases t with
  | path name' =>
    cases h
    simp [isMemberName, hnames name rfl]
  | ctor c =>
    cases h
    cases c <;> rfl
  | _ => cases h

private theorem ensures_valueType : Ensures valueType ValueType.WellNamed :=
  ensures_path.bind fun _ h => ensures_pure (ValueType.wellNamed_ofName h)

end

/-! ### Loops -/

/-- A loop ensures of each value what reading one more ensures of it. -/
private theorem ensures_loop {loop : Rule (List α)} {P : α → Prop}
    (h : ∀ ts as rest, NamesRead ts → (loop ts).read? = some (as, rest) →
      as = [] ∧ NamesRead rest ∨
      ∃ a mid more, as = a :: more ∧ P a ∧ NamesRead mid ∧ mid.length < ts.length ∧
        (loop mid).read? = some (more, rest)) :
    Ensures loop fun as => ∀ a ∈ as, P a := by
  intro ts as rest hts hread
  obtain ⟨rfl, hrest⟩ | ⟨a, mid, more, rfl, ha, hmid, hlt, hmore⟩ := h ts as rest hts hread
  · exact ⟨nofun, hrest⟩
  · obtain ⟨hall, hrest⟩ := ensures_loop h mid more rest hmid hmore
    exact ⟨List.forall_mem_cons.2 ⟨ha, hall⟩, hrest⟩
termination_by ts => ts.length

/-- What a loop that goes on reads: a value and, from fewer tokens, further ones. -/
private theorem more_of_read? {p : Rule α} {loop : Rule (List α)} {P : α → Prop} (hp : Ensures p P)
    {ts us rest : List Lexeme} {as : List α} (hus : NamesRead us)
    (hlt : ∀ a mid, (p us).read? = some (a, mid) → mid.length < ts.length)
    (hread : ((p us).read?.bind fun found =>
      (loop found.2).read?.map fun more => (found.1 :: more.1, more.2)) = some (as, rest)) :
    ∃ a mid more, as = a :: more ∧ P a ∧ NamesRead mid ∧ mid.length < ts.length ∧
      (loop mid).read? = some (more, rest) := by
  obtain ⟨⟨a, mid⟩, ha, hloop⟩ := Option.bind_eq_some_iff.1 hread
  obtain ⟨⟨more, rest'⟩, hmore, heq⟩ := Option.map_eq_some_iff.1 hloop
  cases heq
  obtain ⟨hPa, hmid⟩ := hp us a mid hus ha
  exact ⟨a, mid, more, rfl, hPa, hmid, hlt a mid ha, hmore⟩

private theorem ensures_furtherItems {item : Rule α} {P : α → Prop} (h : Ensures item P) :
    Ensures (furtherItems item) fun as => ∀ a ∈ as, P a := by
  refine ensures_loop fun ts as rest hts hread => ?_
  cases ts with
  | nil =>
    rw [furtherItems] at hread
    cases hread
  | cons t ts =>
    rw [read?_furtherItems] at hread
    split at hread
    · cases hread
      exact .inl ⟨rfl, hts.tail⟩
    split at hread
    · exact .inr (more_of_read? h hts.tail length_lt_of_read? hread)
    · cases hread

private theorem ensures_parenthesized {item : Rule α} {P : α → Prop} (h : Ensures item P) :
    Ensures (parenthesized item) fun as => ∀ a ∈ as, P a := by
  refine (ensures_mark .openParen).bind fun _ _ => (ensures_optional _).bind fun empty _ => ?_
  split
  · exact ensures_pure nofun
  · exact h.bind fun a ha => (ensures_furtherItems h).bind fun as has =>
      ensures_pure (List.forall_mem_cons.2 ⟨ha, has⟩)

/-! ### References and attributes -/

private theorem ensures_fieldSig : Ensures fieldSig FieldSig.WellNamed :=
  ensures_path.bind fun _ hdeclaring => (ensures_mark _).bind fun _ _ =>
    ensures_memberName.bind fun _ hname => (ensures_mark _).bind fun _ _ =>
    ensures_valueType.bind fun _ htype => ensures_pure ⟨hdeclaring, hname, htype⟩

private theorem ensures_methodSig : Ensures methodSig MethodSig.WellNamed :=
  (ensures_optional _).bind fun _ _ => ensures_path.bind fun _ hdeclaring =>
    (ensures_mark _).bind fun _ _ => ensures_memberName.bind fun _ hname =>
    (ensures_parenthesized ensures_valueType).bind fun _ hparams => (ensures_mark _).bind fun _ _ =>
    ensures_valueType.bind fun _ hret => ensures_pure ⟨hdeclaring, hname, hparams, hret⟩

private theorem ensures_argument : Ensures argument Argument.WellNamed := by
  refine ensures_token fun t x hnames h => ?_
  cases t with
  | path name =>
    cases h
    exact hnames name rfl
  | int value | string value =>
    cases h
    trivial
  | _ => cases h

private theorem ensures_attributeBody : Ensures attributeBody Attribute.WellNamed := by
  refine ensures_path.bind fun name hname => ensures_peek.bind fun next _ => ?_
  have hclose (args : List Argument) (hargs : ∀ x ∈ args, x.WellNamed) :
      Ensures (do mark .closeBracket; return { name, args : Attribute }) Attribute.WellNamed :=
    (ensures_mark _).bind fun _ _ => ensures_pure ⟨hname, hargs⟩
  split
  · exact (ensures_parenthesized ensures_argument).bind hclose
  · exact (ensures_pure (P := fun args => args = []) rfl).bind fun args hargs =>
      hclose args (hargs ▸ nofun)

private theorem ensures_attributes : Ensures attributes fun as => ∀ a ∈ as, a.WellNamed := by
  refine ensures_loop fun ts as rest hts hread => ?_
  cases ts with
  | nil =>
    rw [attributes] at hread
    cases hread
    exact .inl ⟨rfl, hts⟩
  | cons t ts =>
    rw [read?_attributes] at hread
    split at hread
    · exact .inr (more_of_read? ensures_attributeBody hts.tail length_lt_of_read? hread)
    · cases hread
      exact .inl ⟨rfl, hts⟩

end Rule

/-! ### Bodies -/

/-- What is read as an operand is well-named, and names a target only by a label. -/
def WrittenOperand.WellNamed : WrittenOperand → Prop
  | .complete (.field sig) => sig.WellNamed
  | .complete (.method sig) => sig.WellNamed
  | .complete (.label _) => False
  | _ => True

/-- A line resolves to a well-named instruction, and to a branch only with the index of a line. -/
private theorem Line.wellNamed_of_resolve {l : Line} (hl : l.operand.WellNamed) {lines : List Line} {i : Instruction}
    (h : l.resolve (lineIndex? lines) = .ok i) :
    i.WellNamed ∧ ∀ target ∈ i.target?, target.toNat < lines.length := by
  obtain ⟨o, ho, hbuild⟩ := Line.resolve_eq_ok_iff.1 h
  obtain ⟨-, rfl⟩ := Instruction.build_eq_some_iff.1 hbuild
  cases hoperand : l.operand with
  | complete o' =>
    rw [hoperand] at ho hl
    obtain rfl : o' = i.operand := Except.ok.inj ho
    cases i with
    | branch op target => exact hl.elim
    | field op sig | call op sig => exact ⟨hl, nofun⟩
    | _ => exact ⟨trivial, nofun⟩
  | line name =>
    rw [hoperand, WrittenOperand.resolve] at ho
    split at ho
    next index hindex =>
      have hlt : index < lines.length := (List.findIdx?_eq_some_iff_getElem.1 hindex).1
      cases i with
      | branch op target =>
        cases ho
        refine ⟨trivial, fun target htarget => ?_⟩
        obtain rfl : UInt64.ofNat index = target := Option.some.inj htarget
        exact Nat.lt_of_le_of_lt (Nat.mod_le _ _) hlt
      | _ => cases ho
    · cases ho

theorem mapM_eq_ok_iff {ε α β : Type} {f : α → Except ε β} {xs : List α} {ys : List β} :
    xs.mapM f = .ok ys ↔ List.Forall₂ (fun x y => f x = .ok y) xs ys := by
  induction xs generalizing ys with
  | nil => cases ys <;> simp [pure, Except.pure]
  | cons x xs ih =>
    rw [List.mapM_cons]
    cases hx : f x with
    | error e => cases ys <;> simp [bind, Except.bind, hx]
    | ok y =>
      cases hxs : xs.mapM f with
      | error e => cases ys <;> simp [bind, Except.bind, hx, hxs, ← ih]
      | ok ys' => cases ys <;> simp [bind, Except.bind, pure, Except.pure, hx, hxs, ← ih]

theorem exists_of_forall₂ {α β : Type} {R : α → β → Prop} {xs : List α} {ys : List β} (h : List.Forall₂ R xs ys) :
    ∀ y ∈ ys, ∃ x ∈ xs, R x y := by
  induction h with
  | nil => nofun
  | cons hxy _ ih =>
    exact List.forall_mem_cons.2 ⟨⟨_, by simp, hxy⟩, fun z hz =>
      let ⟨x, hx, hxz⟩ := ih z hz
      ⟨x, List.mem_cons_of_mem _ hx, hxz⟩⟩

private theorem wellNamed_of_resolve {lines : List Line} (hlines : ∀ l ∈ lines, l.operand.WellNamed)
    {code : List Instruction} (h : resolve lines = .ok code) :
    ∀ i ∈ code, i.WellNamed ∧ ∀ target ∈ i.target?, target.toNat < code.length := by
  rw [resolve] at h
  split at h
  · cases h
  have hall := mapM_eq_ok_iff.1 h
  intro i hi
  obtain ⟨l, hl, hresolve⟩ := exists_of_forall₂ hall i hi
  rw [← hall.length_eq]
  exact Line.wellNamed_of_resolve (hlines l hl) hresolve

namespace Rule

private theorem ensures_operand (kind : OperandKind) : Ensures (operand kind) WrittenOperand.WellNamed := by
  cases kind with
  | none => exact ensures_pure trivial
  | field => exact ensures_fieldSig.bind fun _ h => ensures_pure h
  | method => exact ensures_methodSig.bind fun _ h => ensures_pure h
  | label => exact ensures_path.bind fun _ _ => ensures_pure trivial
  | int32 | int64 | index | string =>
    rw [operand]
    refine ensures_token fun t o _ h => ?_
    split at h
    · cases h
      trivial
    · cases h

private theorem ensures_labelledLine (label : String) : Ensures (labelledLine label) fun l => l.operand.WellNamed := by
  intro ts l rest hts hread
  unfold labelledLine at hread
  split at hread
  next word span ts =>
    rw [Outcome.read?_behind] at hread
    split at hread
    · cases hread
    next kind _ =>
      split at hread
      · have hline : Ensures (Line.mk (some label) word <$> operand kind) fun l => l.operand.WellNamed :=
          (ensures_operand kind).bind fun _ h => ensures_pure h
        exact hline _ l rest hts.tail hread
      · cases hread
  · cases hread

private theorem ensures_line (word : String) : Ensures (line word) fun l => l.operand.WellNamed := by
  refine (ensures_optional _).bind fun labelled _ => ?_
  split
  · exact ensures_labelledLine word
  · split
    · exact (ensures_operand _).bind fun s hs => ensures_pure hs
    · exact ensures_unexpected

private theorem ensures_lines : Ensures lines fun ls => ∀ l ∈ ls, l.operand.WellNamed := by
  refine ensures_loop fun ts as rest hts hread => ?_
  have hread' := hread
  rw [lines.eq_def] at hread'
  split at hread'
  · rw [read?_lines_close] at hread
    cases hread
    exact .inl ⟨rfl, hts.tail⟩
  · rw [read?_lines_path] at hread
    exact .inr (more_of_read? (ensures_line _) hts.tail length_lt_of_read? hread)
  · cases hread'

/-- A body that is read has well-named instructions, and branches only to them. -/
private theorem ensures_body (brace : Span) :
    Ensures (bodyFrom brace) fun body => body.WellNamed ∧ body.TargetsInRange := by
  refine (ensures_optional _).bind fun _ _ => ?_
  -- the rest of the body is the same with locals and without
  split
  case' isTrue => refine (ensures_parenthesized ensures_valueType).bind fun locals hlocals => ?_
  case' isFalse =>
    refine (ensures_pure (P := fun locals : List ValueType => ∀ t ∈ locals, t.WellNamed)
      (by simp)).bind fun locals hlocals => ?_
  all_goals
    refine (ensures_optional _).bind fun _ _ => ensures_lines.bind fun ls hls => ?_
    split
    next code hcode =>
      have hall := wellNamed_of_resolve hls hcode
      exact ensures_pure ⟨⟨hlocals, fun i hi => (hall i hi).1⟩, fun i hi => (hall i hi).2⟩
    · exact ensures_fail

private theorem ensures_bodyOrNone : Ensures bodyOrNone fun body =>
    ∀ b ∈ body, b.WellNamed ∧ b.TargetsInRange := by
  intro ts body rest hts hread
  unfold bodyOrNone at hread
  split at hread
  · cases hread
    exact ⟨nofun, hts.tail⟩
  next brace ts =>
    rw [Outcome.read?_behind, Outcome.read?_withValue] at hread
    obtain ⟨⟨b, rest'⟩, hb, heq⟩ := Option.map_eq_some_iff.1 hread
    cases heq
    obtain ⟨hbody, hrest⟩ := ensures_body brace ts b _ hts.tail hb
    exact ⟨fun b' hb' => Option.some.inj hb' ▸ hbody, hrest⟩
  · cases hread

/-! ### Members -/

private theorem ensures_nameAndType : Ensures nameAndType fun x => isName x.1 ∧ x.2.WellNamed :=
  ensures_path.bind fun _ hname => (ensures_mark _).bind fun _ _ =>
    ensures_valueType.bind fun _ htype => ensures_pure ⟨hname, htype⟩

private theorem ensures_param : Ensures param Param.WellNamed :=
  ensures_attributes.bind fun _ has => ensures_nameAndType.bind fun _ h =>
    ensures_pure ⟨h.1, h.2, has⟩

/-- What is said of a member that is read. -/
def Member.TextWellFormed (a : Member) : Prop :=
  a.WellNamed ∧ a.TargetsInRange

section

variable {attributes : List Attribute} (has : ∀ a ∈ attributes, a.WellNamed)
include has

private theorem ensures_fieldFrom (access : Access) (isStatic : Bool) :
    Ensures (fieldFrom access isStatic attributes) Member.TextWellFormed :=
  ensures_nameAndType.bind fun _ h => ensures_pure ⟨⟨h.1, h.2, has⟩, trivial⟩

private theorem ensures_methodFrom (access : Access) (isStatic : Bool) :
    Ensures (methodFrom access isStatic attributes) Member.TextWellFormed :=
  ensures_memberName.bind fun _ hname => (ensures_parenthesized ensures_param).bind
    fun _ hparams => (ensures_mark _).bind fun _ _ => ensures_valueType.bind fun _ hret =>
    ensures_bodyOrNone.bind fun _ hbody => ensures_pure
      ⟨⟨hname, hparams, hret, has, fun b hb => (hbody b hb).1⟩, fun b hb => (hbody b hb).2⟩

private theorem ensures_fieldOrMethod (access : Access) (isStatic : Bool) :
    Ensures (fieldOrMethod access isStatic attributes) Member.TextWellFormed := by
  refine (ensures_token (P := fun _ => True) fun _ _ _ _ => trivial).bind fun isField _ => ?_
  split
  · exact ensures_fieldFrom has access isStatic
  · exact ensures_methodFrom has access isStatic

private theorem ensures_memberFrom (t : Lexeme) :
    Ensures (memberFrom attributes t) Member.TextWellFormed := by
  have hmodified (access : Access) : Ensures (maybeStatic access attributes) Member.TextWellFormed :=
    (ensures_optional _).bind fun isStatic _ => ensures_fieldOrMethod has access isStatic
  unfold memberFrom
  split
  · exact ensures_nameAndType.bind fun _ h => ensures_pure ⟨⟨h.1, h.2, has⟩, trivial⟩
  · exact hmodified .pub
  · exact hmodified .priv
  · exact ensures_fieldOrMethod has .priv true
  · exact ensures_fieldFrom has .priv false
  · exact ensures_methodFrom has .priv false
  · exact ensures_fail

end

private theorem ensures_startingWith {f : Lexeme → Rule α} {P : α → Prop} (h : ∀ t, Ensures (f t) P) :
    Ensures (startingWith f) P := by
  rintro (_ | ⟨t, ts⟩) a rest hts hread
  · cases hread
  · rw [read?_startingWith] at hread
    exact h t ts a rest hts.tail hread

private theorem ensures_members : Ensures members fun as => ∀ a ∈ as, a.TextWellFormed := by
  have hmember : Ensures member Member.TextWellFormed :=
    ensures_attributes.bind fun _ has => ensures_startingWith (ensures_memberFrom has)
  refine ensures_loop fun ts as rest hts hread => ?_
  cases ts with
  | nil =>
    rw [members] at hread
    cases hread
  | cons t ts =>
    rw [read?_members] at hread
    split at hread
    · cases hread
      exact .inl ⟨rfl, hts.tail⟩
    · exact .inr (more_of_read? hmember hts length_lt_of_attributed hread)

/-! ### Types -/

/-- What is said of a type that is read. -/
def TypeWellFormed (t : TypeDecl) : Prop :=
  t.WellNamed ∧ t.TargetsInRange

private theorem typeWellFormed_typeOf {name : String} {kind : TypeKind} {base : Option String}
    {attributes : List Attribute} {members : List Member} (hname : isName name)
    (hbase : ∀ b ∈ base, isName b) (has : ∀ a ∈ attributes, a.WellNamed)
    (hmembers : ∀ a ∈ members, a.TextWellFormed) :
    TypeWellFormed (typeOf name kind base attributes members) := by
  have hmethods : ∀ m ∈ (typeOf name kind base attributes members).methods,
      m.WellNamed ∧ m.TargetsInRange := by
    intro m hm
    obtain ⟨a, ha, heq⟩ := List.mem_filterMap.1 hm
    have hall := hmembers a ha
    cases a <;> cases heq
    exact hall
  refine ⟨⟨hname, hbase, has, fun f hf => ?_, fun p hp => ?_, fun m hm => (hmethods m hm).1⟩,
    fun m hm => (hmethods m hm).2⟩
  · obtain ⟨a, ha, heq⟩ := List.mem_filterMap.1 hf
    have hall := hmembers a ha
    cases a <;> cases heq
    exact hall.1
  · obtain ⟨a, ha, heq⟩ := List.mem_filterMap.1 hp
    have hall := hmembers a ha
    cases a <;> cases heq
    exact hall.1

private theorem ensures_typeBody {attributes : List Attribute} (has : ∀ a ∈ attributes, a.WellNamed)
    (kind : TypeKind) : Ensures (typeBody kind attributes) TypeWellFormed := by
  refine ensures_path.bind fun name hname => (ensures_optional _).bind fun _ _ => ?_
  have hrest (base : Option String) (hbase : ∀ b ∈ base, isName b) :
      Ensures (do
        mark .openBrace
        return typeOf name kind base attributes (← members)) TypeWellFormed :=
    (ensures_mark _).bind fun _ _ => ensures_members.bind fun _ hmembers =>
      ensures_pure (typeWellFormed_typeOf hname hbase has hmembers)
  split
  · have hbase : Ensures (some <$> path) fun base => ∀ b ∈ base, isName b :=
      ensures_path.bind fun b hb => ensures_pure fun _ heq => Option.some.inj heq ▸ hb
    exact hbase.bind hrest
  · exact (ensures_pure (P := fun base => base = none) rfl).bind fun base hbase =>
      hrest base (hbase ▸ nofun)

theorem ensures_types : Ensures types fun ts => ∀ t ∈ ts, TypeWellFormed t := by
  have htype : Ensures typeDecl TypeWellFormed := by
    refine ensures_attributes.bind fun as has => ensures_startingWith fun t => ?_
    unfold typeFrom
    split
    · exact ensures_typeBody has .classType
    · exact ensures_typeBody has .interfaceType
    · exact ensures_fail
  refine ensures_loop fun ts as rest hts hread => ?_
  cases ts with
  | nil =>
    rw [types] at hread
    cases hread
    exact .inl ⟨rfl, hts⟩
  | cons t ts =>
    rw [read?_types] at hread
    exact .inr (more_of_read? htype hts length_lt_of_attributed hread)

/-- A module that is read is numbered from well-formed types. -/
theorem ensures_module : Ensures module fun m =>
    ∃ name ts, m = .ofTypes name ts ∧ isName name ∧ ∀ t ∈ ts, TypeWellFormed t :=
  (ensures_token (P := fun _ => True) fun _ _ _ _ => trivial).bind fun _ _ =>
    ensures_path.bind fun name hname => ensures_types.bind fun ts hts =>
    ensures_pure ⟨name, ts, rfl, hname, hts⟩

end Rule

end AdviceWeaving
